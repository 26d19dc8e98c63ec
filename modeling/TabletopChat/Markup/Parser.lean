import TabletopChat.Markup.Node

/-!
# Markup/Parser — from tokens to the tree

A stack of open rolls is kept while the tokens are read. The lenient reading never fails: a closing
delimiter that does not belong to the innermost open roll is text, and rolls that are still open at
the end are closed there. The strict reading reports both.

- `Frame`      : an open roll
- `Fault`      : what the strict reading reports
- `parse`      : the lenient reading
- `parseStrict` : the strict one
-/

namespace TabletopChat

namespace Markup

/-! ## Faults -/

inductive Fault.Cause
  | unclosed (kind : Kind)
  | unmatched (closer : Delimiter)
  deriving DecidableEq, Repr

def Fault.Cause.message : Fault.Cause → Text
  | .unclosed kind =>
    "unclosed '".toList ++ kind.opener.source ++ "': expected '".toList ++ kind.closer.source ++
      ['\'']
  | .unmatched closer => "unmatched '".toList ++ closer.source ++ ['\'']

/-- A fault and the delimiter it is about. -/
structure Fault where
  cause : Fault.Cause
  span : Span
  deriving DecidableEq, Repr

/-! ## Open rolls -/

/-- An open roll: its kind, its opening delimiter, and the nodes read so far, last one first. -/
structure Frame where
  kind : Kind
  opener : Span
  inner : List Node
  deriving Repr

/-- Adds a text behind nodes (last one first); it joins a text that is there. -/
def pushText (t : Text) (s : Span) : List Node → List Node
  | .text u r :: ns => .text (u ++ t) ⟨r.start, s.finish⟩ :: ns
  | ns => .text t s :: ns

/-- The nodes read so far on the top level and in the open rolls, innermost first. -/
structure Stack where
  outer : List Node
  frames : List Frame
  deriving Repr

/-- Changes the nodes of the innermost open roll, or those of the top level. -/
def Stack.modify (f : List Node → List Node) (s : Stack) : Stack :=
  match s.frames with
  | [] => { s with outer := f s.outer }
  | fr :: frs => { s with frames := { fr with inner := f fr.inner } :: frs }

def Stack.push (kind : Kind) (opener : Span) (s : Stack) : Stack :=
  { s with frames := ⟨kind, opener, []⟩ :: s.frames }

/-- The roll that a frame becomes when it ends at `finish`. -/
def Frame.node (fr : Frame) (closed : Bool) (finish : Position) : Node :=
  .roll fr.kind closed fr.inner.reverse ⟨fr.opener.start, finish⟩

/-- Closes the innermost open roll if `closer` belongs to it. -/
def Stack.close? (closer : Delimiter) (finish : Position) (s : Stack) : Option Stack :=
  match s.frames with
  | [] => none
  | fr :: frs =>
    if fr.kind.closer = closer then
      some (Stack.modify (fr.node true finish :: ·) { s with frames := frs })
    else none

/-! ## Lenient reading -/

/-- Reads one token; a closing delimiter that nothing accepts is text. -/
def Stack.read (s : Stack) (tok : Token) : Stack :=
  match tok.lexeme with
  | .finish => s
  | .text t => s.modify (pushText t tok.span)
  | .delimiter .rollOpen => s.push .roll tok.span
  | .delimiter .mathOpen => s.push .math tok.span
  | .delimiter d =>
    match s.close? d tok.span.finish with
    | some s' => s'
    | none => s.modify (pushText d.source tok.span)

/-- Ends all open rolls at the end of the message, innermost first; `late` is the roll that was
ended last, which belongs to the next one. -/
def finishFrames (finish : Position) (outer : List Node) : List Node → List Frame → List Node
  | late, [] => (late ++ outer).reverse
  | late, fr :: frs =>
    finishFrames finish outer [Frame.node { fr with inner := late ++ fr.inner } false finish] frs

def parseTokens (toks : List Token) (finish : Position) : Message :=
  let s := toks.foldl Stack.read ⟨[], []⟩
  ⟨finishFrames finish s.outer [] s.frames, ⟨.start, finish⟩⟩

/-- The tree of a message; any text has one. -/
def parse (inlineMath : Bool) (source : Text) : Message :=
  parseTokens (tokens inlineMath source) (Position.start.after source)

/-! ## Strict reading -/

/-- Reads one token; a closing delimiter that nothing accepts is a fault. -/
def Stack.readStrict (s : Stack) (tok : Token) : Except Fault Stack :=
  match tok.lexeme with
  | .delimiter .rollClose =>
    match s.close? .rollClose tok.span.finish with
    | some s' => .ok s'
    | none => .error ⟨.unmatched .rollClose, tok.span⟩
  | .delimiter .mathClose =>
    match s.close? .mathClose tok.span.finish with
    | some s' => .ok s'
    | none => .error ⟨.unmatched .mathClose, tok.span⟩
  | _ => .ok (s.read tok)

def Stack.readAllStrict (s : Stack) : List Token → Except Fault Stack
  | [] => .ok s
  | tok :: toks =>
    match s.readStrict tok with
    | .ok s' => s'.readAllStrict toks
    | .error f => .error f

/-- The tree of a message whose delimiters are balanced. The first closing delimiter that nothing
accepts is reported, or else the last roll opened that is still open at the end. -/
def parseStrict (inlineMath : Bool) (source : Text) : Except Fault Message :=
  match Stack.readAllStrict ⟨[], []⟩ (tokens inlineMath source) with
  | .error f => .error f
  | .ok s =>
    match s.frames with
    | [] => .ok ⟨s.outer.reverse, ⟨.start, Position.start.after source⟩⟩
    | fr :: _ => .error ⟨.unclosed fr.kind, fr.opener⟩

end Markup

end TabletopChat
