import TabletopChat.Arithmetic.Fault

/-!
# Arithmetic/Operation — operators on numbers

Integers stay exact as long as both operands are integers. With a double, an integer is turned into
the nearest double first, and fails if it is too large; with a complex number, both operands become
complex.

- `Operator`       : the operators with two operands
- `Pair`           : two operands of one kind
- `Operator.apply` : what an operator does to two numbers
-/

namespace TabletopChat

namespace Arithmetic

inductive Operator
  | add | sub | mul | div | floorDiv | mod | pow
  deriving DecidableEq, Repr

/-! ## Operands of one kind -/

def realOfInt (n : Int) : Except Fault Float :=
  match Decimal.ofInt? n with
  | some x => .ok x
  | none => .error (.impossible .integerTooLarge)

def Number.toComplex : Number → Except Fault Complex
  | .int n => (realOfInt n).map Complex.ofReal
  | .real x => .ok (.ofReal x)
  | .complex z => .ok z

inductive Pair
  | ints (a b : Int)
  | reals (x y : Float)
  | complexes (z w : Complex)

def Pair.of : Number → Number → Except Fault Pair
  | .int a, .int b => .ok (.ints a b)
  | .int a, .real y => (realOfInt a).map fun x => .reals x y
  | .real x, .int b => (realOfInt b).map fun y => .reals x y
  | .real x, .real y => .ok (.reals x y)
  | .complex z, b => b.toComplex.map fun w => .complexes z w
  | a, .complex w => a.toComplex.map fun z => .complexes z w

/-! ## Division -/

def divideInts (a b : Int) : Except Fault Number :=
  if b = 0 then .error .divisionByZero
  else
    let x := Decimal.ofRatio (decide (a < 0) != decide (b < 0)) a.natAbs b.natAbs
    if Decimal.isFinite x then .ok (.real x) else .error (.impossible .quotientTooLarge)

/-- The remainder of `x` by `y` with the sign of `y`. -/
def floorRemainder (x y : Float) : Float :=
  let r := Decimal.remainder x y
  if r == 0 then Decimal.copySign 0 y
  else if decide (y < 0) != decide (r < 0) then r + y
  else r

/-- The greatest double without a fraction that is not above `x`. -/
def floorReal (x : Float) : Float :=
  match Decimal.floor? x with
  | some n => (Decimal.ofInt? n).getD x
  | none => x

/-- The quotient of `x` by `y` rounded down, computed from the remainder and moved to the nearest
whole number. -/
def floorQuotient (x y : Float) : Float :=
  let r := Decimal.remainder x y
  let q := (x - r) / y
  let q := if r == 0 then q else if decide (y < 0) != decide (r < 0) then q - 1 else q
  if q == 0 then Decimal.copySign 0 (x / y)
  else
    let f := floorReal q
    if q - f > 0.5 then f + 1 else f

/-! ## Powers -/

def isOdd (x : Float) : Bool :=
  match Decimal.integer? x with
  | some n => n % 2 == 1
  | none => false

def powComplex (z w : Complex) : Except Fault Number :=
  match z.pow w with
  | none => .error .divisionByZero
  | some r => if r.hasInfinity then .error (.impossible .complexPowerTooLarge) else .ok (.complex r)

/-- The power of a finite positive base other than one to a finite exponent other than zero. -/
def powPositive (negative : Bool) (x y : Float) : Except Fault Number :=
  let r := x.pow y
  if r.isInf then .error (.impossible .powerTooLarge)
  else .ok (.real (if negative then -r else r))

/-- `x^y` for doubles. All cases with zeros, infinities and undefined values are settled here; a
negative base with a fractional exponent has a complex power. -/
def powReal (x y : Float) : Except Fault Number :=
  if y == 0 then .ok (.real 1)
  else if x.isNaN then .ok (.real x)
  else if y.isNaN then .ok (.real (if x == 1 then 1 else y))
  else if y.isInf then
    if x.abs == 1 then .ok (.real 1)
    else if decide (y > 0) == decide (x.abs > 1) then .ok (.real y.abs)
    else .ok (.real 0)
  else if x.isInf then
    if y > 0 then .ok (.real (if isOdd y then x else x.abs))
    else .ok (.real (if isOdd y then Decimal.copySign 0 x else 0))
  else if x == 0 then
    if y < 0 then .error .divisionByZero
    else .ok (.real (if isOdd y then x else 0))
  else if x < 0 then
    if (Decimal.integer? y).isNone then powComplex (.ofReal x) (.ofReal y)
    else if x == -1 then .ok (.real (if isOdd y then -1 else 1))
    else powPositive (isOdd y) (-x) y
  else if x == 1 then .ok (.real 1)
  else powPositive false x y

/-- `a^b` for integers: an integer for a natural exponent, otherwise a double. -/
def powInts (a b : Int) : Except Fault Number :=
  match b with
  | .ofNat n => .ok (.int (Int.pow a n))
  | .negSucc n =>
    match realOfInt a, realOfInt (Int.negSucc n) with
    | .ok x, .ok y => powReal x y
    | .error f, _ => .error f
    | _, .error f => .error f

/-! ## Operators -/

def Operator.sign : Operator → Text
  | .add => ['+']
  | .sub => ['-']
  | .mul => ['*']
  | .div => ['/']
  | .floorDiv => ['/', '/']
  | .mod => ['%']
  | .pow => ['*', '*']

def Operator.onInts (op : Operator) (a b : Int) : Except Fault Number :=
  match op with
  | .add => .ok (.int (a + b))
  | .sub => .ok (.int (a - b))
  | .mul => .ok (.int (a * b))
  | .div => divideInts a b
  | .floorDiv => if b = 0 then .error .divisionByZero else .ok (.int (Int.fdiv a b))
  | .mod => if b = 0 then .error .divisionByZero else .ok (.int (Int.fmod a b))
  | .pow => powInts a b

def Operator.onReals (op : Operator) (x y : Float) : Except Fault Number :=
  match op with
  | .add => .ok (.real (x + y))
  | .sub => .ok (.real (x - y))
  | .mul => .ok (.real (x * y))
  | .div => if y == 0 then .error .divisionByZero else .ok (.real (x / y))
  | .floorDiv => if y == 0 then .error .divisionByZero else .ok (.real (floorQuotient x y))
  | .mod => if y == 0 then .error .divisionByZero else .ok (.real (floorRemainder x y))
  | .pow => powReal x y

def Operator.onComplexes (op : Operator) (z w : Complex) : Except Fault Number :=
  match op with
  | .add => .ok (.complex (z.add w))
  | .sub => .ok (.complex (z.sub w))
  | .mul => .ok (.complex (z.mul w))
  | .pow => powComplex z w
  | .div =>
    match z.div? w with
    | some r => .ok (.complex r)
    | none => .error .divisionByZero
  | .floorDiv => .error (.impossible (.operands op.sign .complex .complex))
  | .mod => .error (.impossible (.operands op.sign .complex .complex))

/-- Whether rounding down is part of an operator; complex numbers have no such operator. -/
def Operator.rounds : Operator → Bool
  | .floorDiv => true
  | .mod => true
  | _ => false

def Operator.apply (op : Operator) (a b : Number) : Except Fault Number :=
  if op.rounds && (a.kind == .complex || b.kind == .complex) then
    .error (.impossible (.operands op.sign a.kind b.kind))
  else
    match Pair.of a b with
    | .error f => .error f
    | .ok (.ints m n) => op.onInts m n
    | .ok (.reals x y) => op.onReals x y
    | .ok (.complexes z w) => op.onComplexes z w

end Arithmetic

end TabletopChat
