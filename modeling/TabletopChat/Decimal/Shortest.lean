import TabletopChat.Decimal.Binary

/-!
# Decimal/Shortest — the fewest decimal digits that read back

A double stands for all reals that round to it: an interval around its value that reaches half way
to both neighbours, ends included when the significand is even. Among the decimals in that interval
the shortest are taken, and of those the nearest to the value.

- `Interval`   : the value and the two ends, over one denominator
- `digitsOf?`  : a decimal of a given length in the interval
- `shortest`   : the digits and the exponent that are printed
-/

namespace TabletopChat

namespace Decimal

/-- A decimal `digits · 10^exp`. -/
structure Scientific where
  digits : Nat
  exp : Int
  deriving DecidableEq, Repr

/-- The reals that round to a double: `low / den` to `high / den`, around `value / den`. -/
structure Interval where
  low : Nat
  value : Nat
  high : Nat
  den : Nat
  closed : Bool
  deriving DecidableEq, Repr

/-- The reals that round to a magnitude. Below a power of two the gap is half as wide. -/
def Interval.around (m : Magnitude) : Interval :=
  let below := if m.mant = Nat.pow 2 52 ∧ m.exp > -1074 then 1 else 2
  let (num, den) := Magnitude.ratio ⟨1, m.exp - 2⟩
  { low := (4 * m.mant - below) * num
    value := 4 * m.mant * num
    high := (4 * m.mant + 2) * num
    den := den
    closed := m.mant % 2 == 0 }

/-- Whether `num / den` lies in the interval. -/
def Interval.holds (i : Interval) (num den : Nat) : Bool :=
  let a := i.low * den
  let b := num * i.den
  let c := i.high * den
  if i.closed then decide (a ≤ b) && decide (b ≤ c) else decide (a < b) && decide (b < c)

/-- `d · 10^exp` as a quotient of natural numbers. -/
def Scientific.ratio (s : Scientific) : Nat × Nat :=
  match s.exp with
  | .ofNat k => (s.digits * Nat.pow 10 k, 1)
  | .negSucc k => (s.digits, Nat.pow 10 (k + 1))

/-- How far `num / den` is from the value of the interval, over the product of both denominators. -/
def Interval.distance (i : Interval) (num den : Nat) : Nat :=
  ((num * i.den : Int) - (i.value * den : Int)).natAbs

/-- The decimal with exponent `exp` that lies in the interval, nearest to its value. Only the two
neighbours of the value on that grid have to be looked at. -/
def digitsOf? (i : Interval) (exp : Int) : Option Scientific :=
  let (n, d) := match exp with
    | .ofNat k => (i.value, i.den * Nat.pow 10 k)
    | .negSucc k => (i.value * Nat.pow 10 (k + 1), i.den)
  let below : Scientific := ⟨n / d, exp⟩
  let above : Scientific := ⟨n / d + 1, exp⟩
  let (bn, bd) := below.ratio
  let (an, ad) := above.ratio
  match i.holds bn bd && below.digits != 0, i.holds an ad with
  | true, true =>
    let toBelow := i.distance bn bd
    let toAbove := i.distance an ad
    if toBelow < toAbove then some below
    else if toAbove < toBelow then some above
    else if below.digits % 2 = 0 then some below
    else some above
  | true, false => some below
  | false, true => some above
  | false, false => none

/-- The exponent of the leading decimal digit of `num / den`, for a positive quotient. -/
def leadingExponent (num den : Nat) : Int :=
  if den ≤ num then ((Nat.toDigits 10 (num / den)).length : Int) - 1
  else
    -- the quotient is below one: the exponent is one less than the number of its leading zeros
    let zeros := (Nat.toDigits 10 (den / num)).length
    let lead := if num * Nat.pow 10 (zeros - 1) ≥ den then zeros - 1 else zeros
    0 - (lead : Int)

def Scientific.trim : Nat → Scientific → Scientific
  | 0, s => s
  | fuel + 1, s =>
    if s.digits % 10 = 0 ∧ s.digits ≠ 0 then Scientific.trim fuel ⟨s.digits / 10, s.exp + 1⟩
    else s

/-- Tries one digit, then two, and so on up to `count` more, beginning at the exponent `exp`. -/
def searchDigits (i : Interval) : Nat → Int → Scientific
  | 0, exp => ⟨i.value / i.den, exp⟩
  | count + 1, exp =>
    match digitsOf? i exp with
    | some s => s
    | none => searchDigits i count (exp - 1)

/-- The shortest decimal that rounds to a magnitude, nearest to it among those of that length. -/
def shortest (m : Magnitude) : Scientific :=
  let i := Interval.around m
  Scientific.trim 20 (searchDigits i 18 (leadingExponent i.value i.den))

end Decimal

end TabletopChat
