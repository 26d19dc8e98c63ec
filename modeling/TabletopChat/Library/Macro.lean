import TabletopChat.Library.Table
import TabletopChat.Text.Caseless

/-!
# Library/Macro — stored macros and the tags that invoke them

- `Macro`       : a text to expand or a table to roll
- `slug`        : the form that a label has in a tag
- `Macro.tag`   : the tag that invokes a macro
- `invocation?` : reading a tag
-/

namespace TabletopChat

namespace Library

/-! ## Macros -/

/-- What a macro is: a text that is expanded, or a table that is rolled. Other kinds cannot be invoked
from a message. -/
inductive Kind
  | custom | table
  | other (name : Text)
  deriving DecidableEq, Repr

def Kind.name : Kind → Text
  | .custom => "custom".toList
  | .table => "table".toList
  | .other name => name

def Kind.ofName (name : Text) : Kind :=
  if name = Kind.custom.name then .custom
  else if name = Kind.table.name then .table
  else .other name

/-- To whom a macro belongs: to one actor, to a world, or to all. Macros of other scopes are never
found. -/
inductive Scope
  | actor | world | all
  | other (name : Text)
  deriving DecidableEq, Repr

def Scope.name : Scope → Text
  | .actor => "actor".toList
  | .world => "world".toList
  | .all => "global".toList
  | .other name => name

def Scope.ofName (name : Text) : Scope :=
  if name = Scope.actor.name then .actor
  else if name = Scope.world.name then .world
  else if name = Scope.all.name then .all
  else .other name

/-- A stored macro; `owner` is the actor to whom it belongs. -/
structure Macro where
  label : Text
  kind : Kind
  content : Text
  table : List TableEntry
  scope : Scope
  owner : Option Text
  deriving DecidableEq, Repr

/-! ## Tags -/

/-- Whether a character of a label is kept in a tag: an ASCII letter or a case variant of one, an ASCII
digit, a space, a hyphen or an underscore. -/
def inSlug (c : Char) : Bool :=
  (Text.baseLetter c).isLower || c.isDigit || c = ' ' || c = '-' || c = '_'

/-- The form that a label has in a tag: small letters, and hyphens for spaces. -/
def slug (label : Text) : Text :=
  Text.lower ((label.filter inSlug).map fun c => if c = ' ' then '-' else c)

def tagOf (kind label : Text) : Text :=
  '#' :: '\x7b' :: kind ++ '|' :: slug label ++ ['\x7d']

def Macro.tag (m : Macro) : Text := tagOf m.kind.name m.label

structure Invocation where
  kind : Text
  label : Text
  deriving DecidableEq, Repr

def Invocation.tag (i : Invocation) : Text := tagOf i.kind i.label

/-- The invocation of a kind at the beginning of a text, which follows the opening brace. -/
def invocationOf? (kind : Kind) (t : Text) : Option (Invocation × Text) :=
  let head := kind.name ++ ['|']
  if Text.startsWith head t then
    let body := t.drop head.length
    match body.takeWhile (· ≠ '\x7d'), body.dropWhile (· ≠ '\x7d') with
    | c :: label, _ :: rest => some (⟨kind.name, c :: label⟩, rest)
    | _, _ => none
  else none

def invocation? : Text → Option (Invocation × Text)
  | '#' :: '\x7b' :: t =>
    match invocationOf? .custom t with
    | some r => some r
    | none => invocationOf? .table t
  | _ => none

end Library

end TabletopChat
