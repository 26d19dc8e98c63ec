import TabletopChat.Decimal.Display

/-!
# Arithmetic/Complex — complex numbers with double parts

A negative base with a fractional exponent has a complex power, so arithmetic has to go on
with complex numbers.

- `Complex`        : a real and an imaginary part
- `Complex.div?`   : the quotient, scaled by the larger part of the divisor
- `Complex.pow`    : powers, by squaring for small whole exponents and by polar form otherwise
- `hypotenuse`     : the absolute value, rounded once
- `Complex.write`  : the text of a complex number
-/

namespace TabletopChat

namespace Arithmetic

structure Complex where
  re : Float
  im : Float

namespace Complex

/-! ## Sums, products, quotients -/

def ofReal (x : Float) : Complex := ⟨x, 0⟩

def one : Complex := ofReal 1

def add (a b : Complex) : Complex := ⟨a.re + b.re, a.im + b.im⟩

def sub (a b : Complex) : Complex := ⟨a.re - b.re, a.im - b.im⟩

def neg (a : Complex) : Complex := ⟨-a.re, -a.im⟩

def mul (a b : Complex) : Complex :=
  ⟨a.re * b.re - a.im * b.im, a.re * b.im + a.im * b.re⟩

/-- Quotient; there is none by zero. Numerator and denominator are divided by the larger part of
the divisor first, so that squares cannot overflow. -/
def div? (a b : Complex) : Option Complex :=
  let r := b.re.abs
  let i := b.im.abs
  if i ≤ r then
    if r == 0 then none
    else
      let ratio := b.im / b.re
      let denom := b.re + b.im * ratio
      some ⟨(a.re + a.im * ratio) / denom, (a.im - a.re * ratio) / denom⟩
  else if r ≤ i then
    let ratio := b.re / b.im
    let denom := b.re * ratio + b.im
    some ⟨(a.re * ratio + a.im) / denom, (a.im * ratio - a.re) / denom⟩
  else
    some ⟨Decimal.undefinedValue, Decimal.undefinedValue⟩

/-! ## Absolute value -/

/-- The greatest natural number whose square is not above `n`, found from that of `n / 4`. -/
def rootFloor (n : Nat) : Nat :=
  if h : n = 0 then 0
  else
    let r := 2 * rootFloor (n / 4)
    if (r + 1) * (r + 1) ≤ n then r + 1 else r
termination_by n
decreasing_by omega

/-- The square root of `n · 2^(2 · exp)`, rounded to a double; what is lost below the last digit of the
integer root is kept as one more binary digit, so that it is rounded only once. -/
def rootOfNat (n : Nat) (exp : Int) : Float :=
  let root := rootFloor n
  let sticky := if root * root = n then 0 else 1
  let (num, den) := Decimal.Magnitude.ratio ⟨2 * root + sticky, exp - 1⟩
  Decimal.ofRatio false num den

def hypotenuse (x y : Float) : Float :=
  match Decimal.shape x, Decimal.shape y with
  | .infinite _, _ => Decimal.infinity false
  | _, .infinite _ => Decimal.infinity false
  | .nan, _ => Decimal.undefinedValue
  | _, .nan => Decimal.undefinedValue
  | .finite _ a, .finite _ b =>
    let e := if a.exp ≤ b.exp then a.exp else b.exp
    let m := a.mant * Nat.pow 2 (a.exp - e).toNat
    let n := b.mant * Nat.pow 2 (b.exp - e).toNat
    rootOfNat ((m * m + n * n) * Nat.pow 2 128) (e - 64)

def isFinite (a : Complex) : Bool := Decimal.isFinite a.re && Decimal.isFinite a.im

def hasInfinity (a : Complex) : Bool := a.re.isInf || a.im.isInf

def abs (a : Complex) : Float := hypotenuse a.re a.im

/-! ## Powers -/

/-- `r · p^n` by squaring: `fuel` bounds the number of binary digits of `n`. -/
def powBySquaring : Nat → Nat → Complex → Complex → Complex
  | 0, _, _, r => r
  | fuel + 1, n, p, r =>
    if n = 0 then r
    else powBySquaring fuel (n / 2) (p.mul p) (if n % 2 = 1 then r.mul p else r)

def powNat (a : Complex) (n : Nat) : Complex := powBySquaring (n + 1) n a one

/-- `a^b` through absolute value and angle; zero has no negative or complex power. -/
def powPolar (a b : Complex) : Option Complex :=
  if b.re == 0 && b.im == 0 then some one
  else if a.re == 0 && a.im == 0 then
    if b.im != 0 || b.re < 0 then none else some (ofReal 0)
  else
    let size := a.abs
    let angle := Float.atan2 a.im a.re
    let length := size.pow b.re
    let phase := angle * b.re
    let (length, phase) :=
      if b.im != 0 then (length / (angle * b.im).exp, phase + b.im * size.log)
      else (length, phase)
    some ⟨length * phase.cos, length * phase.sin⟩

/-- The largest whole exponent for which powers are formed by multiplication. -/
def maxMultiplied : Nat := 100

/-- `a^b`, or nothing for a negative or complex power of zero. -/
def pow (a b : Complex) : Option Complex :=
  match if b.im == 0 then Decimal.integer? b.re else none with
  | some n =>
    if n.natAbs ≤ maxMultiplied then
      if 0 < n then some (a.powNat n.natAbs) else one.div? (a.powNat n.natAbs)
    else a.powPolar b
  | none => a.powPolar b

/-! ## Text -/

def signedPart (x : Float) : Text :=
  let t := Decimal.write .part x
  if Text.startsWith ['-'] t then t else '+' :: t

/-- The text of a complex number: both parts in parentheses, or the imaginary part alone when the
real part is a zero without a minus sign. -/
def write (a : Complex) : Text :=
  if a.re == 0 && !Decimal.signBit a.re then
    Decimal.write .part a.im ++ ['j']
  else
    '(' :: Decimal.write .part a.re ++ signedPart a.im ++ ['j', ')']

end Complex

end Arithmetic

end TabletopChat
