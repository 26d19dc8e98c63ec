import TabletopChat.Prompt.Atom
import TabletopChat.Text.Blank
import TabletopChat.Text.Caseless

/-!
# Prompt/Tag — tags that ask a question

    ?{query}                                 a text
    ?{query|fallback}                        a text, with an answer for those who give none
    ?{query|label,value|label,value}         one of several choices
    ?{[list]query|…}  ?{[radio]query|…}      the same
    ?{[checkbox|delimiter]query|…}           any number of choices

- `Choice`, `Kind`, `Tag` : what a tag says
- `Tag.ofInner?`          : the tag between two braces
- `Tag.read?`             : the tag at the beginning of a text
- `Tag.first?`            : the first tag of a text, with what stands before and after it
-/

namespace TabletopChat

namespace Prompt

/-! ## What a tag says -/

/-- A choice; `selected` tells whether it is the one that was made last time. -/
structure Choice where
  label : Text
  value : Text
  selected : Bool
  deriving DecidableEq, Repr

/-- How choices are made. A kind that is written with letters from outside ASCII has a name of its own
and is treated as `radio` is. -/
inductive Kind
  | list | checkbox | radio
  | other (name : Text)
  deriving DecidableEq, Repr

def Kind.name : Kind → Text
  | .list => "list".toList
  | .checkbox => "checkbox".toList
  | .radio => "radio".toList
  | .other name => name

def Kind.names : List Text := [Kind.list.name, Kind.checkbox.name, Kind.radio.name]

def Kind.ofName (name : Text) : Kind :=
  if name = Kind.list.name then .list
  else if name = Kind.checkbox.name then .checkbox
  else if name = Kind.radio.name then .radio
  else .other name

/-- A tag that asks a question. -/
structure Tag where
  source : Text
  kind : Kind
  query : Text
  choices : List Choice
  fallback : Text
  delimiter : Text
  deriving DecidableEq, Repr

def Tag.isChoice (t : Tag) : Bool := !t.choices.isEmpty

/-! ## The head of a tag -/

structure Head where
  kind : Kind
  delimiter : Text
  deriving DecidableEq, Repr

/-- What stands between the choices that are made if nothing else is said. -/
def standardDelimiter : Text := ", ".toList

def standardHead : Head := ⟨.list, standardDelimiter⟩

/-- The kind whose name a text begins with, in any case, and what follows the name. -/
def kind? (t : Text) : Option (Kind × Text) :=
  Kind.names.findSome? fun name =>
    (Text.afterCaseless? name t).map fun rest =>
      (Kind.ofName (Text.lower (t.take name.length)), rest)

def head? : Text → Option (Head × Text)
  | '[' :: t =>
    match kind? t with
    | some (kind, ']' :: rest) => some (⟨kind, standardDelimiter⟩, rest)
    | some (kind, '|' :: more) =>
      match Text.cutAt ']' more with
      | (delimiter, some rest) => some (⟨kind, delimiter⟩, rest)
      | (_, none) => none
    | _ => none
  | _ => none

/-! ## The body of a tag -/

/-- Whether a segment has the form of a choice: a label, a comma and a value. -/
def isItem (s : List Atom) : Bool :=
  match s.span (fun a => decide (a ≠ .plain ',')) with
  | (_ :: _, _ :: _ :: _) => true
  | _ => false

def Choice.ofItem (item : Text) : Choice :=
  match Text.cutAt ',' item with
  | (label, some value) => ⟨Text.strip label, Text.strip value, false⟩
  | (label, none) => ⟨Text.strip label, [], false⟩

/-- The choices that a text with bars between its items writes; empty items do not count. -/
def Choice.ofItems (items : Text) : List Choice :=
  ((Text.pieces '|' items).filter fun item => !item.isEmpty).map Choice.ofItem

/-- The query, the choices and the fallback of a tag. The choices are the longest row of segments that
have the form of a choice; what follows them is the fallback. -/
def Tag.ofAtoms? (head : Head) (source : Text) (as : List Atom) : Option Tag :=
  match Atom.segments as with
  | (q :: query) :: rest =>
    some {
      source := source
      kind := head.kind
      query := Text.strip (Atom.sourceOf (q :: query))
      choices := Choice.ofItems (Atom.sourceOfSegments (rest.takeWhile isItem))
      fallback := Text.strip (Atom.sourceOfSegments (rest.dropWhile isItem))
      delimiter := head.delimiter }
  | _ => none

/-! ## Whole tags -/

def Tag.headed? (source inner : Text) : Option Tag :=
  match head? inner with
  | some (head, rest) => (Atom.all? rest).bind (Tag.ofAtoms? head source)
  | none => none

/-- The tag between two braces. What looks like a head but is not followed by a query belongs to the
query. A colon marks a reference, not a question. -/
def Tag.ofInner? (source inner : Text) : Option Tag :=
  if inner.head? = some ':' then none
  else
    match Tag.headed? source inner with
    | some tag => some tag
    | none => (Atom.all? inner).bind (Tag.ofAtoms? standardHead source)

def Tag.read? (t : Text) : Option (Tag × Text) :=
  match Atom.inBraces? t with
  | some (as, rest) =>
    let inner := Atom.sourceOf as
    (Tag.ofInner? ('?' :: '\x7b' :: inner ++ ['\x7d']) inner).map fun tag => (tag, rest)
  | none => none

/-- The first tag of a text, between what stands before and after it. -/
def Tag.first? : Text → Option (Text × Tag × Text)
  | [] => none
  | c :: cs =>
    match Tag.read? (c :: cs) with
    | some (tag, rest) => some ([], tag, rest)
    | none => (Tag.first? cs).map fun (before, tag, rest) => (c :: before, tag, rest)

end Prompt

end TabletopChat
