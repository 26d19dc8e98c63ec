import TabletopChat.Text.Basic

/-!
# Text/CharSet — sets of characters as sorted boundaries

A set of code points is given by the increasing list of the places where membership changes,
beginning outside of the set: `#[a, b, c, d]` is the set of all `n` with `a ≤ n < b` or
`c ≤ n < d`.

- `CharSet`     : the boundaries
- `CharSet.has` : membership, by bisection
-/

namespace TabletopChat

abbrev CharSet := Array Nat

namespace CharSet

/-- The number of boundaries at or below `n` among those from `lo` up to `hi`, plus `lo`, found by
halving the range `fuel` times. -/
def rank (s : CharSet) (n : Nat) : Nat → Nat → Nat → Nat
  | 0, lo, _ => lo
  | fuel + 1, lo, hi =>
    if lo < hi then
      let mid := (lo + hi) / 2
      if s.getD mid 0 ≤ n then rank s n fuel (mid + 1) hi
      else rank s n fuel lo mid
    else lo

/-- A character is in the set when an odd number of boundaries lies at or below it. -/
def has (s : CharSet) (c : Char) : Bool :=
  rank s c.toNat (s.size + 1) 0 s.size % 2 == 1

end CharSet

end TabletopChat
