import TabletopChat.Act

/-!
# Dice/Source — where dice come from

- `Dice`      : a supply of random integers and how many were drawn
- `Dice.draw` : one integer between two bounds
- `Dice.fixed`, `Dice.listed`, `Dice.generated` : three kinds of supply
-/

namespace TabletopChat

/-- A supply of integers: the answer to the draw of a number, counted from zero, between two bounds,
and the number of draws so far, which are at most `limit`. -/
structure Dice where
  answer : Nat → Int → Int → Option Int
  limit : Nat
  drawn : Nat

namespace Dice

/-- Draws an integer between `a` and `b`. -/
def draw (a b : Int) : Act Abort Dice Int := fun d =>
  if d.drawn < d.limit then
    match d.answer d.drawn a b with
    | some v => (.ok v, { d with drawn := d.drawn + 1 })
    | none => (.error .diceExhausted, d)
  else (.error .diceExhausted, d)

/-- Whether every answer of a supply is within the bounds that are asked for. -/
def InRange (d : Dice) : Prop :=
  ∀ i a b v, a ≤ b → d.answer i a b = some v → a ≤ v ∧ v ≤ b

/-! ## Supplies -/

def standardLimit : Nat := 5000

def fixed (n : Int) : Dice where
  answer _ a b := some (max a (min n b))
  limit := standardLimit
  drawn := 0

def listed (ns : Array Int) : Dice where
  answer i _ _ := ns[i]?
  limit := standardLimit
  drawn := 0

def nextState (s : Nat) : Nat := (s * 6364136223846793005 + 1442695040888963407) % Nat.pow 2 64

def states : Nat → Nat → List Nat
  | 0, _ => []
  | n + 1, s =>
    let t := nextState s
    t :: states n t

/-- Numbers from the upper bits of a generator that starts with `seed`. -/
def generated (seed : Nat) : Dice :=
  let table := (states standardLimit seed).toArray
  { answer := fun i a b =>
      table[i]?.map fun s => a + (s / Nat.pow 2 33 : Nat) % (b - a + 1)
    limit := standardLimit
    drawn := 0 }

end Dice

end TabletopChat
