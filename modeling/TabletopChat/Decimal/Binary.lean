/-!
# Decimal/Binary — the exact value of a double, and rounding to the nearest one

- `Magnitude`        : `mant · 2^exp`
- `Shape`, `shape`   : a double taken apart
- `ofRatio`          : the double nearest to a quotient of natural numbers
- `ofInt?`, `trunc?`, `floor?`, `ceil?`, `roundEven?` : between doubles and integers
- `remainder`        : the exact remainder of a division that truncates
-/

namespace TabletopChat

namespace Decimal

/-! ## Taking a double apart -/

/-- The number `mant · 2^exp`. -/
structure Magnitude where
  mant : Nat
  exp : Int
  deriving DecidableEq, Repr

/-- A double as a sign and a magnitude, or as one of the values that are no numbers. -/
inductive Shape
  | nan
  | infinite (neg : Bool)
  | finite (neg : Bool) (size : Magnitude)
  deriving DecidableEq, Repr

def signBit (x : Float) : Bool := decide (x.toBits.toNat ≥ Nat.pow 2 63)

/-- Takes a double apart by its bits: one sign bit, eleven exponent bits, and fifty-two bits of
the significand. -/
def shape (x : Float) : Shape :=
  let bits := x.toBits.toNat
  let neg := decide (bits ≥ Nat.pow 2 63)
  let field : Nat := bits / Nat.pow 2 52 % 2048
  let frac := bits % Nat.pow 2 52
  if field = 2047 then
    if frac = 0 then .infinite neg else .nan
  else if field = 0 then .finite neg ⟨frac, -1074⟩
  else .finite neg ⟨Nat.pow 2 52 + frac, (field : Int) - 1075⟩

def isFinite (x : Float) : Bool :=
  match shape x with
  | .finite _ _ => true
  | _ => false

/-- The double with the sign bit `neg` and the other bits `bits`. -/
def withSign (neg : Bool) (bits : Nat) : Float :=
  Float.ofBits (UInt64.ofNat (if neg then Nat.pow 2 63 + bits else bits))

def zero (neg : Bool) : Float := withSign neg 0

def infinity (neg : Bool) : Float := withSign neg (2047 * Nat.pow 2 52)

def undefinedValue : Float := Float.ofBits 0x7FF8000000000000

def copySign (x y : Float) : Float :=
  let bits := x.toBits.toNat % Nat.pow 2 63
  if x.isNaN then x else withSign (signBit y) bits

/-! ## Rounding -/

/-- The integer nearest to `num / den`; a half goes to the even neighbour. -/
def divHalfEven (num den : Nat) : Nat :=
  let q := num / den
  let r := num % den
  if 2 * r < den then q
  else if 2 * r > den then q + 1
  else if q % 2 = 0 then q
  else q + 1

def bitLength (n : Nat) : Nat := if n = 0 then 0 else n.log2 + 1

/-- `num / den` divided by `2^e`, as a quotient of natural numbers. -/
def scaled (num den : Nat) (e : Int) : Nat × Nat :=
  match e with
  | .ofNat k => (num, den * Nat.pow 2 k)
  | .negSucc k => (num * Nat.pow 2 (k + 1), den)

/-- The double with the significand `m < 2^53`, or `m = 2^53` after rounding up, and the exponent
`e ≥ -1074`. -/
def assemble (neg : Bool) (m : Nat) (e : Int) : Float :=
  if m < Nat.pow 2 52 then withSign neg m
  else
    let (m, e) := if m = Nat.pow 2 53 then (Nat.pow 2 52, e + 1) else (m, e)
    let field := e + 1075
    if field ≥ 2047 then infinity neg
    else withSign neg (field.toNat * Nat.pow 2 52 + (m - Nat.pow 2 52))

/-- The double nearest to `± num / den`, where a half goes to the even significand; what is too
large is infinite. -/
def ofRatio (neg : Bool) (num den : Nat) : Float :=
  if num = 0 then zero neg
  else
    -- the significand of the quotient at this exponent has fifty-three or fifty-four digits
    let guess : Int := (bitLength num : Int) - bitLength den - 53
    let (n, d) := scaled num den guess
    let e := if n / d ≥ Nat.pow 2 53 then guess + 1 else guess
    let e := if e < -1074 then -1074 else e
    let (n, d) := scaled num den e
    assemble neg (divHalfEven n d) e

/-- The double nearest to `± num · 10^exp`. -/
def ofScientific (neg : Bool) (num : Nat) (exp : Int) : Float :=
  match exp with
  | .ofNat k =>
    if num = 0 then zero neg
    else if k > 400 then infinity neg
    else ofRatio neg (num * Nat.pow 10 k) 1
  | .negSucc k =>
    -- so small a number is zero whatever its digits are
    if k > 400 + (Nat.toDigits 10 num).length then zero neg
    else ofRatio neg num (Nat.pow 10 (k + 1))

/-! ## Doubles and integers -/

/-- The double nearest to an integer, unless the integer is too large for one. -/
def ofInt? (n : Int) : Option Float :=
  let x := ofRatio (decide (n < 0)) n.natAbs 1
  if isFinite x then some x else none

def Magnitude.ratio (m : Magnitude) : Nat × Nat :=
  match m.exp with
  | .ofNat k => (m.mant * Nat.pow 2 k, 1)
  | .negSucc k => (m.mant, Nat.pow 2 (k + 1))

def signed (neg : Bool) (n : Nat) : Int := if neg then -(n : Int) else n

def floor? (x : Float) : Option Int :=
  match shape x with
  | .finite neg size =>
    let (n, d) := size.ratio
    some (Int.fdiv (signed neg n) d)
  | _ => none

def ceil? (x : Float) : Option Int := (floor? (-x)).map fun n => -n

/-- The integer nearest to a finite double; a half goes to the even neighbour. -/
def roundEven? (x : Float) : Option Int :=
  match shape x with
  | .finite neg size =>
    let (n, d) := size.ratio
    some (signed neg (divHalfEven n d))
  | _ => none

def trunc? (x : Float) : Option Int :=
  match shape x with
  | .finite neg size =>
    let (n, d) := size.ratio
    some (signed neg (n / d))
  | _ => none

def integer? (x : Float) : Option Int :=
  match shape x with
  | .finite neg size =>
    let (n, d) := size.ratio
    if n % d = 0 then some (signed neg (n / d)) else none
  | _ => none

def compareInt (n : Int) (x : Float) : Option Ordering :=
  match shape x with
  | .nan => none
  | .infinite neg => some (if neg then .gt else .lt)
  | .finite neg size =>
    let (num, den) := size.ratio
    some (compare (n * den) (signed neg num))

/-- `x` rounded to `digits` places after the point, a half to the even neighbour; the sign of
`digits` may be negative. The result keeps the sign of a zero. -/
def roundPlaces (x : Float) (digits : Int) : Float :=
  match shape x with
  | .finite neg size =>
    let (n, d) := size.ratio
    let scaledUp := match digits with
      | .ofNat k => divHalfEven (n * Nat.pow 10 k) d
      | .negSucc k => divHalfEven n (d * Nat.pow 10 (k + 1))
    ofScientific neg scaledUp (-digits)
  | _ => x

/-! ## Remainders -/

/-- The exact remainder of `x` by `y` with the sign of `x`. -/
def remainder (x y : Float) : Float :=
  match shape x, shape y with
  | .finite neg a, .finite _ b =>
    if b.mant = 0 then undefinedValue
    else
      let e := if a.exp ≤ b.exp then a.exp else b.exp
      let r := a.mant * Nat.pow 2 (a.exp - e).toNat % (b.mant * Nat.pow 2 (b.exp - e).toNat)
      let (n, d) := Magnitude.ratio ⟨r, e⟩
      ofRatio neg n d
  | .finite _ _, .infinite _ => x
  | _, _ => undefinedValue

end Decimal

end TabletopChat
