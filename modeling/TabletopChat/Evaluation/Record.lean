import TabletopChat.Dice.Group
import TabletopChat.Entries
import TabletopChat.Text.Digit

/-!
# Evaluation/Record — results that can be referred to

- `Record`       : the result of a roll and its dice
- `Records`      : results by name, and the number of names that were given out
- `Record.view`  : what a reference shows of a result
-/

namespace TabletopChat

namespace Evaluation

/-! ## Records -/

/-- The result of a roll or of inline math, and the dice that were rolled for it. -/
structure Record where
  result : Text
  groups : List DieGroup
  deriving DecidableEq, Repr

/-- Results by name, in the order in which the names came up, and the number of names that were given
to results without one. -/
structure Records where
  entries : Entries Record
  counter : Nat
  deriving Repr

namespace Records

def empty : Records := ⟨[], 0⟩

/-- The next name for a result without one: a decimal numeral. -/
def nextName (r : Records) : Text × Records :=
  (Text.ofNat (r.counter + 1), { r with counter := r.counter + 1 })

def insert (name : Text) (rec : Record) (r : Records) : Records :=
  { r with entries := Entries.insert name rec r.entries }

def get? (name : Text) (r : Records) : Option Record := Entries.get? name r.entries

def names (r : Records) : List Text := Entries.keys r.entries

end Records

/-! ## Views -/

def Record.group? (rec : Record) (index : Text) : Option DieGroup :=
  match Text.toInt? (Text.strip index) with
  | some (.ofNat (n + 1)) => rec.groups[n]?
  | _ => none

/-- What a reference shows: the result; or whether a group of dice reaches a threshold; or whether its
total is one. -/
def Record.view (rec : Record) (mode : Text) (options : List Text) : Text :=
  if mode = "result".toList then rec.result
  else if mode = "crit".toList then
    match options with
    | [index, threshold] =>
      match rec.group? index, Text.toInt? (Text.strip threshold) with
      | some g, some n => if g.total ≥ n then "crit".toList else []
      | _, _ => []
    | _ => []
  else if mode = "fumble".toList then
    match options with
    | [index] =>
      match rec.group? index with
      | some g => if g.total = 1 then "fumble".toList else []
      | none => []
    | _ => []
  else []

end Evaluation

end TabletopChat
