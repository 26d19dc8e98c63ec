import TabletopChat.Text.Basic

/-!
# Dice/Group — dice that were rolled together

- `Sides`    : the size of a die
- `DieGroup` : several dice of one size with their results
-/

namespace TabletopChat

/-- The size of a die: a number of faces, or the tens of a hundred. -/
inductive Sides
  | faces (n : Nat)
  | percent
  deriving DecidableEq, Repr

structure DieGroup where
  sides : Sides
  results : List Int
  deriving DecidableEq, Repr

def DieGroup.total (g : DieGroup) : Int := g.results.foldr (· + ·) 0

end TabletopChat
