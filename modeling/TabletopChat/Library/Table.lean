import TabletopChat.Dice.Source
import TabletopChat.Text.Basic

/-!
# Library/Table — tables with weighted entries

- `TableEntry`   : a text and its weight
- `totalWeight`  : the sum of the weights above zero
- `pick`         : the entry that a number falls to
- `rollTable`    : an entry by chance
-/

namespace TabletopChat

namespace Library

/-- An entry of a table. One whose weight is not above zero is never chosen. -/
structure TableEntry where
  weight : Int
  value : Text
  deriving DecidableEq, Repr

def totalWeight : List TableEntry → Int
  | [] => 0
  | e :: es => if 0 < e.weight then e.weight + totalWeight es else totalWeight es

/-- The entry that a number falls to: each entry takes as many numbers as its weight, from one on. -/
def pick (n : Int) : List TableEntry → Option Text
  | [] => none
  | e :: es =>
    if 0 < e.weight then
      if n ≤ e.weight then some e.value else pick (n - e.weight) es
    else pick n es

def rollTable (entries : List TableEntry) : Act Abort Dice Text :=
  if 0 < totalWeight entries then do
    let n ← Dice.draw 1 (totalWeight entries)
    match pick n entries with
    | some value => pure value
    | none => Act.stop .tableMissed
  else Act.stop .noWeights

/-- What is wrong with a table that has no entry to give. -/
def tableFault? : Abort → Option Text
  | .noWeights => some "rollable table has no weighted entries".toList
  | .tableMissed => some "error in rollable table".toList
  | _ => none

end Library

end TabletopChat
