import TabletopChat.Arithmetic.Expr
import TabletopChat.Arithmetic.Template
import TabletopChat.Arithmetic.Token
import TabletopChat.Text.Compatibility

/-!
# Arithmetic/Parser — from tokens to expressions

The grammar is a table of rules. `apply` says how a rule reads, given a way to read all the rules it
is built from; `read` ties the knot to a bounded depth. Forms without a value are read as strictly
as all others, because a malformed one makes the whole expression malformed.

- `Parsed`   : an expression, and whether it may stand on the left of `in`
- `Rule`     : the rules that refer to each other
- `apply`    : one rule in terms of the others
- `parse?`   : the expression of a text
-/

namespace TabletopChat

namespace Arithmetic

/-! ## Readers -/

/-- An expression, and whether it may be the target of a comprehension. -/
structure Parsed where
  expr : Expr
  target : Bool

def Parsed.form (f : Form) : Parsed := ⟨.form f, false⟩

abbrev Reader := List Token → Option (Parsed × List Token)

def expect (m : Mark) : List Token → Option (List Token)
  | .mark n :: rest => if m = n then some rest else none
  | _ => none

def expectWord (k : Keyword) : List Token → Option (List Token)
  | .keyword l :: rest => if k = l then some rest else none
  | _ => none

/-- Whether a list of items ends here: at the end, at a closing bracket or at `in`. -/
def endsItems : List Token → Bool
  | [] => true
  | .mark (.closing _) :: _ => true
  | .keyword .wIn :: _ => true
  | _ => false

def startsLoop : List Token → Bool
  | .keyword .wFor :: _ => true
  | .keyword .wAsync :: _ => true
  | _ => false

/-! ## Rules -/

/-- Arguments by position, then by name, then spread ones: how far a call has come. -/
inductive Call.Stage
  | positional | named | spread
  deriving DecidableEq, Repr

/-- A call whose arguments are being read; the arguments stand last one first. -/
structure Call where
  function : Option Text
  stage : Call.Stage
  named : Bool
  arguments : List Expr

structure Signature where
  /-- a parameter with a default has been read -/
  defaulted : Bool
  /-- a star has been read -/
  starred : Bool
  /-- a parameter has to follow -/
  needed : Bool
  /-- a parameter has been read and no slash yet -/
  slashable : Bool
  /-- a slash has been read -/
  slashed : Bool
  /-- nothing may follow -/
  finished : Bool

def Signature.empty : Signature := ⟨false, false, false, false, false, false⟩

def Signature.push (s : Signature) (defaulted : Bool) : Signature :=
  { s with
    defaulted := s.defaulted || defaulted
    needed := false
    slashable := !s.slashed && !s.starred }

/-- What an item of a list may be: only an expression, one that may be spread out by a star, or one
that may also be given a name. -/
inductive ItemStyle
  | plain | spread | named
  deriving DecidableEq, Repr

inductive Rule
  | expression
  | disjunction
  | conjunction
  | inversion
  | comparison
  | climb (level : Nat)
  | climbRest (level : Nat) (left : Parsed)
  | factor
  | trailers (left : Parsed)
  | items (style : ItemStyle) (targets : Bool)
  | arguments (call : Call)
  | slices
  | pairs
  | targets
  | clauses
  | conditions
  | parameters (s : Signature)

/-! ## Operators -/

/-- The operators with two operands: how tightly they bind and what they do, if anything. -/
def binaryOperator? : Mark → Option (Nat × Option Operator)
  | .pipe => some (0, none)
  | .ampersand => some (1, none)
  | .shiftLeft => some (2, none)
  | .shiftRight => some (2, none)
  | .plus => some (3, some .add)
  | .minus => some (3, some .sub)
  | .star => some (4, some .mul)
  | .slash => some (4, some .div)
  | .doubleSlash => some (4, some .floorDiv)
  | .percent => some (4, some .mod)
  | .at => some (4, none)
  | _ => none

def combine (op : Option Operator) (left right : Parsed) : Parsed :=
  match op with
  | some op => ⟨.binary op left.expr right.expr, false⟩
  | none => .form .binary

def comparison? : List Token → Option (List Token)
  | .mark .less :: rest => some rest
  | .mark .greater :: rest => some rest
  | .mark .lessEqual :: rest => some rest
  | .mark .greaterEqual :: rest => some rest
  | .mark .equal :: rest => some rest
  | .mark .notEqual :: rest => some rest
  | .keyword .wIn :: rest => some rest
  | .keyword .wNot :: .keyword .wIn :: rest => some rest
  | .keyword .wIs :: .keyword .wNot :: rest => some rest
  | .keyword .wIs :: rest => some rest
  | _ => none

/-! ## Quoted texts -/

structure QuotedRun where
  octets : Bool
  template : Bool
  points : List Nat
  holes : List Text

def quotedPart? (style : QuoteStyle) (body : Text) : Option QuotedRun :=
  if style.template then
    (Template.holes? style.raw body).map fun hs => ⟨false, true, [], hs⟩
  else if style.octets && body.any (fun c => decide (128 ≤ c.toNat)) then none
  else if style.raw then some ⟨style.octets, false, body.map Char.toNat, []⟩
  else (unescape style.octets body).map fun ps => ⟨style.octets, false, ps, []⟩

/-- Quoted texts that follow each other; bytes and other texts do not mix. -/
def quotedRun : List Token → Option (Option QuotedRun × List Token)
  | .quoted style body :: rest =>
    match quotedPart? style body, quotedRun rest with
    | some p, some (none, rest) => some (some p, rest)
    | some p, some (some q, rest) =>
      if p.octets = q.octets then
        some (some ⟨p.octets, p.template || q.template, p.points ++ q.points, p.holes ++ q.holes⟩,
          rest)
      else none
    | _, _ => none
  | toks => some (none, toks)

/-! ## The grammar -/

section Grammar

variable (self : Rule → Reader)

def named : Reader
  | .word _ :: .mark .walrus :: rest =>
    (self .expression rest).map fun (_, rest) => (.form .assignment, rest)
  | toks => self .expression toks

def item (style : ItemStyle) : Reader
  | .mark .star :: rest =>
    if style = .plain then none
    else (self (.climb 0) rest).map fun (p, rest) => (⟨.form .starred, p.target⟩, rest)
  | toks => if style = .named then named self toks else self .expression toks

def startsStar : List Token → Bool
  | .mark .star :: _ => true
  | _ => false

/-- The items after a first one, up to where they end: nothing, or a comma and more. The result is a
target if all of them are. -/
def moreItems (style : ItemStyle) (target : Bool) : Reader
  | .mark .comma :: rest =>
    if endsItems rest then some (⟨.form .tuple, target⟩, rest)
    else self (.items style target) rest
  | toks => some (⟨.form .tuple, target⟩, toks)

def loopUntil (f : Form) (b : Bracket) : Reader := fun toks =>
  (self .clauses toks).bind fun (_, rest) =>
    (expect (.closing b) rest).map fun rest => (.form f, rest)

def inRound : Reader
  | .mark (.closing .round) :: rest => some (⟨.form .tuple, true⟩, rest)
  | .keyword .wYield :: .keyword .wFrom :: rest =>
    (self .expression rest).bind fun (_, rest) =>
      (expect (.closing .round) rest).map fun rest => (.form .yieldFrom, rest)
  | .keyword .wYield :: .mark (.closing .round) :: rest => some (.form .yield, rest)
  | .keyword .wYield :: rest =>
    (item self .spread rest).bind fun (p, rest) =>
      (moreItems self .spread p.target rest).bind fun (_, rest) =>
        (expect (.closing .round) rest).map fun rest => (.form .yield, rest)
  | toks =>
    (item self .named toks).bind fun (p, rest) =>
      match rest with
      | .mark .comma :: _ =>
        (moreItems self .named p.target rest).bind fun (q, rest) =>
          (expect (.closing .round) rest).map fun rest => (q, rest)
      | _ =>
        if startsStar toks then none
        else if startsLoop rest then loopUntil self .generator .round rest
        else (expect (.closing .round) rest).map fun rest => (p, rest)

def inSquare : Reader
  | .mark (.closing .square) :: rest => some (⟨.form .list, true⟩, rest)
  | toks =>
    (item self .named toks).bind fun (p, rest) =>
      if startsLoop rest then
        if startsStar toks then none else loopUntil self .listComprehension .square rest
      else
        (moreItems self .named p.target rest).bind fun (q, rest) =>
          (expect (.closing .square) rest).map fun rest => (⟨.form .list, q.target⟩, rest)

def morePairs : Reader
  | .mark .comma :: .mark (.closing .curly) :: rest => some (.form .dict, rest)
  | .mark .comma :: rest => self .pairs rest
  | toks => (expect (.closing .curly) toks).map fun rest => (.form .dict, rest)

def pairValue (loops : Bool) : Reader := fun toks =>
  (self .expression toks).bind fun (_, rest) =>
    if loops && startsLoop rest then loopUntil self .dictComprehension .curly rest
    else morePairs self rest

def pairs : Reader
  | .mark .doubleStar :: rest =>
    (self (.climb 0) rest).bind fun (_, rest) => morePairs self rest
  | toks =>
    (self .expression toks).bind fun (_, rest) =>
      (expect .colon rest).bind fun rest => pairValue self false rest

def moreMembers : Reader := fun toks =>
  (moreItems self .named false toks).bind fun (_, rest) =>
    (expect (.closing .curly) rest).map fun rest => (.form .set, rest)

def inCurly : Reader
  | .mark (.closing .curly) :: rest => some (.form .dict, rest)
  | .mark .doubleStar :: rest => pairs self (.mark .doubleStar :: rest)
  | .mark .star :: rest =>
    (item self .named (.mark .star :: rest)).bind fun (_, rest) => moreMembers self rest
  | toks =>
    let assigns := match toks with
      | .word _ :: .mark .walrus :: _ => true
      | _ => false
    (named self toks).bind fun (_, rest) =>
      match assigns, rest with
      | false, .mark .colon :: rest => pairValue self true rest
      | _, rest =>
        if startsLoop rest then loopUntil self .setComprehension .curly rest
        else moreMembers self rest

def holeOk (hole : Text) : Bool :=
  match tokens? ('(' :: hole ++ [')']) with
  | none => false
  | some toks =>
    match self .expression toks with
    | some (_, []) => true
    | _ => false

def quotedValue (q : QuotedRun) : Option Parsed :=
  if !q.template then
    some ⟨.literal (if q.octets then .bytes q.points else .text q.points), false⟩
  else if q.holes.all (holeOk self) then some (.form .template)
  else none

def atom : Reader
  | .word name :: rest => some (⟨.symbol (Text.compatible name), true⟩, rest)
  | .int n :: rest => some (⟨.number (.int n), false⟩, rest)
  | .real x :: rest => some (⟨.number (.real x), false⟩, rest)
  | .imaginary x :: rest => some (⟨.literal (.imaginary x), false⟩, rest)
  | .keyword .wTrue :: rest => some (⟨.literal (.truth true), false⟩, rest)
  | .keyword .wFalse :: rest => some (⟨.literal (.truth false), false⟩, rest)
  | .keyword .wNone :: rest => some (⟨.literal .nothing, false⟩, rest)
  | .mark .ellipsis :: rest => some (⟨.literal .ellipsis, false⟩, rest)
  | .mark (.opening .round) :: rest => inRound self rest
  | .mark (.opening .square) :: rest => inSquare self rest
  | .mark (.opening .curly) :: rest => inCurly self rest
  | .quoted style body :: rest =>
    match quotedRun (.quoted style body :: rest) with
    | some (some q, rest) => (quotedValue self q).map fun p => (p, rest)
    | _ => none
  | _ => none

def primary : Reader := fun toks =>
  (atom self toks).bind fun (p, rest) => self (.trailers p) rest

def trailers (left : Parsed) : Reader
  | .mark .dot :: .word _ :: rest => self (.trailers ⟨.form .attribute, true⟩) rest
  | .mark .dot :: _ => none
  | .mark (.opening .round) :: rest =>
    (self (.arguments ⟨left.expr.name?, .positional, false, []⟩) rest).bind fun (p, rest) =>
      self (.trailers p) rest
  | .mark (.opening .square) :: rest =>
    (self .slices rest).bind fun (_, rest) => self (.trailers ⟨.form .subscript, true⟩) rest
  | toks => some (left, toks)

def Call.expr (c : Call) : Expr := .call c.function c.named c.arguments.reverse

def moreArguments (c : Call) : Reader
  | .mark .comma :: rest => self (.arguments c) rest
  | toks => (expect (.closing .round) toks).map fun rest => (⟨c.expr, false⟩, rest)

def arguments (c : Call) : Reader
  | .mark (.closing .round) :: rest => some (⟨c.expr, false⟩, rest)
  | .mark .doubleStar :: rest =>
    (self .expression rest).bind fun (_, rest) =>
      moreArguments self { c with stage := .spread, named := true } rest
  | .mark .star :: rest =>
    if c.stage = .spread then none
    else
      (self .expression rest).bind fun (_, rest) =>
        moreArguments self { c with arguments := .form .starred :: c.arguments } rest
  | .word _ :: .mark .equals :: rest =>
    (self .expression rest).bind fun (_, rest) =>
      moreArguments self
        { c with stage := if c.stage = .spread then .spread else .named, named := true } rest
  | toks =>
    if c.stage ≠ .positional then none
    else
      (named self toks).bind fun (p, rest) =>
        if startsLoop rest then
          if c.arguments.isEmpty then
            (loopUntil self .generator .round rest).map fun (g, rest) =>
              (⟨({ c with arguments := [g.expr] } : Call).expr, false⟩, rest)
          else none
        else moreArguments self { c with arguments := p.expr :: c.arguments } rest

/-- An expression that may be missing before a colon, a comma or the closing bracket. -/
def bound : Reader
  | .mark .colon :: rest => some (.form .subscript, .mark .colon :: rest)
  | .mark .comma :: rest => some (.form .subscript, .mark .comma :: rest)
  | .mark (.closing .square) :: rest => some (.form .subscript, .mark (.closing .square) :: rest)
  | toks => self .expression toks

def bounds : Reader := fun toks =>
  (bound self toks).bind fun (p, rest) =>
    match rest with
    | .mark .colon :: rest => bound self rest
    | rest => some (p, rest)

def slice : Reader
  | .mark .star :: rest => self .expression rest
  | .mark .colon :: rest => bounds self rest
  | .word w :: .mark .walrus :: rest => named self (.word w :: .mark .walrus :: rest)
  | toks =>
    (self .expression toks).bind fun (p, rest) =>
      match rest with
      | .mark .colon :: rest => bounds self rest
      | rest => some (p, rest)

def slices : Reader := fun toks =>
  (slice self toks).bind fun (p, rest) =>
    match rest with
    | .mark .comma :: .mark (.closing .square) :: rest => some (p, rest)
    | .mark .comma :: rest => self .slices rest
    | rest => (expect (.closing .square) rest).map fun rest => (p, rest)

def target : Reader
  | .mark .star :: rest => primary self rest
  | toks => primary self toks

def targets : Reader := fun toks =>
  (target self toks).bind fun (p, rest) =>
    if !p.target then none
    else
      match rest with
      | .mark .comma :: rest => if endsItems rest then some (p, rest) else self .targets rest
      | rest => some (p, rest)

def conditions : Reader
  | .keyword .wIf :: rest =>
    (self .disjunction rest).bind fun (_, rest) => self .conditions rest
  | toks =>
    if startsLoop toks then self .clauses toks else some (.form .generator, toks)

def clauses : Reader := fun toks =>
  let toks := match toks with
    | .keyword .wAsync :: rest => rest
    | toks => toks
  (expectWord .wFor toks).bind fun rest =>
    (self .targets rest).bind fun (_, rest) =>
      (expectWord .wIn rest).bind fun rest =>
        (self .disjunction rest).bind fun (_, rest) => self .conditions rest

def moreParameters (s : Signature) : Reader
  | .mark .comma :: rest => self (.parameters s) rest
  | .mark .colon :: rest => self (.parameters s) (.mark .colon :: rest)
  | _ => none

def parameters (s : Signature) : Reader
  | .mark .colon :: rest =>
    if s.needed then none
    else (self .expression rest).map fun (_, rest) => (.form .lambda, rest)
  | .mark .slash :: rest =>
    if s.slashable then moreParameters self { s with slashable := false, slashed := true } rest else none
  | .mark .star :: .word _ :: rest =>
    if s.starred || s.finished then none
    else moreParameters self { s with starred := true, slashable := false } rest
  | .mark .star :: .mark .comma :: rest =>
    if s.starred || s.finished then none
    else self (.parameters { s with starred := true, slashable := false, needed := true }) rest
  | .mark .doubleStar :: .word _ :: rest =>
    if s.finished || s.needed then none
    else moreParameters self { s with finished := true, slashable := false } rest
  | .word _ :: .mark .equals :: rest =>
    if s.finished then none
    else
      (self .expression rest).bind fun (_, rest) =>
        moreParameters self (s.push true) rest
  | .word _ :: rest =>
    if s.finished || (s.defaulted && !s.starred) then none
    else moreParameters self (s.push false) rest
  | _ => none

def factor : Reader
  | .mark .plus :: rest =>
    (self .factor rest).map fun (p, rest) => (⟨.signed false p.expr, false⟩, rest)
  | .mark .minus :: rest =>
    (self .factor rest).map fun (p, rest) => (⟨.signed true p.expr, false⟩, rest)
  | .mark .tilde :: rest => (self .factor rest).map fun (_, rest) => (.form .unary, rest)
  | toks =>
    let base : Option (Parsed × List Token) := match toks with
      | .keyword .wAwait :: rest =>
        (primary self rest).map fun (_, rest) => (Parsed.form .await, rest)
      | toks => primary self toks
    base.bind fun (p, rest) =>
      match rest with
      | .mark .doubleStar :: rest =>
        (self .factor rest).map fun (q, rest) => (combine (some .pow) p q, rest)
      | rest => some (p, rest)

/-- Operators that bind at least as tightly as `level`, behind a left operand. -/
def climbRest (level : Nat) (left : Parsed) : Reader
  | .mark m :: rest =>
    match binaryOperator? m with
    | some (k, op) =>
      if level ≤ k then
        (self (.climb (k + 1)) rest).bind fun (right, rest) =>
          self (.climbRest level (combine op left right)) rest
      else some (left, .mark m :: rest)
    | none => some (left, .mark m :: rest)
  | toks => some (left, toks)

def comparison : Reader := fun toks =>
  (self (.climb 0) toks).bind fun (p, rest) =>
    match comparison? rest with
    | some rest => (self .comparison rest).map fun (_, rest) => (.form .comparison, rest)
    | none => some (p, rest)

def inversion : Reader
  | .keyword .wNot :: rest => (self .inversion rest).map fun (_, rest) => (.form .unary, rest)
  | toks => self .comparison toks

def joined (k : Keyword) (inner outer : Rule) : Reader := fun toks =>
  (self inner toks).bind fun (p, rest) =>
    match expectWord k rest with
    | some rest => (self outer rest).map fun (_, rest) => (.form .boolean, rest)
    | none => some (p, rest)

def expression : Reader
  | .keyword .wLambda :: rest => self (.parameters .empty) rest
  | toks =>
    (self .disjunction toks).bind fun (p, rest) =>
      match rest with
      | .keyword .wIf :: rest =>
        (self .disjunction rest).bind fun (_, rest) =>
          (expectWord .wElse rest).bind fun rest =>
            (self .expression rest).map fun (_, rest) => (.form .conditional, rest)
      | rest => some (p, rest)

def apply : Rule → Reader
  | .expression => expression self
  | .disjunction => joined self .wOr .conjunction .disjunction
  | .conjunction => joined self .wAnd .inversion .conjunction
  | .inversion => inversion self
  | .comparison => comparison self
  | .climb level => fun toks =>
    (self .factor toks).bind fun (p, rest) => self (.climbRest level p) rest
  | .climbRest level left => climbRest self level left
  | .factor => factor self
  | .trailers left => trailers self left
  | .items style before => fun toks =>
    (item self style toks).bind fun (p, rest) =>
      moreItems self style (before && p.target) rest
  | .arguments c => arguments self c
  | .slices => slices self
  | .pairs => pairs self
  | .targets => targets self
  | .clauses => clauses self
  | .conditions => conditions self
  | .parameters s => parameters self s

end Grammar

/-! ## Reading an expression -/

/-- Reads by a rule, nesting at most `fuel` rules. -/
def read : Nat → Rule → Reader
  | 0, _ => fun _ => none
  | fuel + 1, rule => apply (read fuel) rule

/-- More rules than can be nested in a text of this length. -/
def readingDepth (t : Text) : Nat := 12 * (t.length + 4)

/-- One expression, or several with commas between them, which are a tuple. -/
def expressions (self : Rule → Reader) : Reader := fun toks =>
  (item self .plain toks).bind fun (p, rest) =>
    match rest with
    | .mark .comma :: _ => moreItems self .plain false rest
    | rest => some (p, rest)

/-- The expression of a text, or nothing if the text is not well formed. -/
def parse? (t : Text) : Option Expr :=
  (tokens? t).bind fun toks =>
    match expressions (read (readingDepth t)) toks with
    | some (p, []) => some p.expr
    | _ => none

end Arithmetic

end TabletopChat
