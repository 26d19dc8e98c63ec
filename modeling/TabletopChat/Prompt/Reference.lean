import TabletopChat.Entries
import TabletopChat.Prompt.Atom
import TabletopChat.Text.Digit
import TabletopChat.Text.Piece

/-!
# Prompt/Reference — references to answers that were given

`?{:label}` and `?{:label|number}` stand for a part of the answer under a label.

- `Selections` : the parts of all answers by label
- `Reference`  : a label, and which part is meant
- `reference?` : reading a reference
- `substitute` : every reference replaced
-/

namespace TabletopChat

namespace Prompt

/-- The parts of the answers that were given, by query or label. -/
abbrev Selections := Entries (List Text)

/-- A reference to a part of an answer; parts are counted from one. -/
structure Reference where
  label : Text
  index : Int
  deriving DecidableEq, Repr

/-- The number of a part; a text that is no integer means the first. -/
def indexOf (t : Text) : Int := (Text.toInt? (Text.strip t)).getD 1

def reference? : Text → Option (Reference × Text)
  | '?' :: '\x7b' :: ':' :: t =>
    let inLabel := fun c => c ≠ '|' && c ≠ '\x7d'
    let label := t.takeWhile inLabel
    if label = [] then none
    else
      match t.dropWhile inLabel with
      | '\x7d' :: rest => some (⟨Text.strip label, 1⟩, rest)
      | '|' :: more =>
        match Atom.span more with
        | (as, '\x7d' :: rest) => some (⟨Text.strip label, indexOf (Atom.sourceOf as)⟩, rest)
        | _ => none
      | _ => none
  | _ => none

/-- What stands in place of a reference: nothing if there is no such part. -/
def Selections.resolve (s : Selections) (ref : Reference) : Text :=
  match Entries.get? ref.label s, ref.index with
  | some parts, .ofNat (n + 1) => parts.getD n []
  | _, _ => []

def substitute (message : Text) (s : Selections) : Text :=
  Text.replaceTags reference? (fun ref _ => s.resolve ref) message

end Prompt

end TabletopChat
