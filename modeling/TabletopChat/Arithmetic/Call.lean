import TabletopChat.Arithmetic.Operation

/-!
# Arithmetic/Call — functions on numbers

- `absolute`       : the absolute value
- `roundTo`        : rounding to places before or after the point
- `extreme`        : the least or greatest of several numbers
- `Function.apply` : what a function gives for its arguments
-/

namespace TabletopChat

namespace Arithmetic

/-! ## Sizes -/

def absolute : Number → Except Fault Number
  | .int n => .ok (.int n.natAbs)
  | .real x => .ok (.real x.abs)
  | .complex z =>
    let r := z.abs
    if z.isFinite && r.isInf then .error (.impossible .absoluteTooLarge) else .ok (.real r)

def exceeds (bound : Nat) : Number → Bool
  | .int n => decide (n > bound)
  | .real x => decide (x > Decimal.ofRatio false bound 1)
  | .complex _ => false

/-! ## Rounding -/

/-- An integer that a rounding function finds, if the double was finite. -/
def wholeOf (x : Float) : Option Int → Except Fault Number
  | some n => .ok (.int n)
  | none => .error (.impossible (if x.isNaN then .undefinedToInteger else .infinityToInteger))

def roundToward (f : Float → Option Int) : Number → Except Fault Number
  | .int n => .ok (.int n)
  | .real x => wholeOf x (f x)
  | .complex _ => .error (.impossible .notReal)

/-- `n` rounded to a multiple of `10^places`, a half to the even one. -/
def roundInt (n : Int) (places : Nat) : Int :=
  -- with so many places the multiple is zero
  if places > n.natAbs.log2 + 2 then 0
  else
    let unit := Nat.pow 10 places
    Decimal.signed (decide (n < 0)) (Decimal.divHalfEven n.natAbs unit * unit)

/-- The most places after and before the point at which a double can change. -/
def maxPlaces : Int := 323

/-- With fewer places than this every double is rounded to zero. -/
def minPlaces : Int := -308

def roundReal (x : Float) (places : Int) : Except Fault Number :=
  if !Decimal.isFinite x || decide (places > maxPlaces) then .ok (.real x)
  else if places < minPlaces then .ok (.real (0 * x))
  else
    let r := Decimal.roundPlaces x places
    if r.isInf then .error (.impossible .roundedTooLarge) else .ok (.real r)

/-- Rounds to places after the point; with negative places, before it. -/
def roundTo (x : Number) (places : Number) : Except Fault Number :=
  match x, places with
  | .complex _, _ => .error (.impossible .notRoundable)
  | .int n, .int (.ofNat _) => .ok (.int n)
  | .int n, .int (.negSucc k) => .ok (.int (roundInt n (k + 1)))
  | .real y, .int k => roundReal y k
  | _, p => .error (.impossible (.notIndex p.kind))

def roundWhole : Number → Except Fault Number
  | .int n => .ok (.int n)
  | .real x => wholeOf x (Decimal.roundEven? x)
  | .complex _ => .error (.impossible .notRoundable)

/-! ## Roots -/

def squareRoot (a : Number) : Except Fault Number :=
  match a with
  | .complex _ => .error (.impossible .notReal)
  | .int n =>
    match realOfInt n with
    | .error f => .error f
    | .ok x => if x < 0 then .error (.impossible .outsideDomain) else .ok (.real x.sqrt)
  | .real x => if x < 0 then .error (.impossible .outsideDomain) else .ok (.real x.sqrt)

/-! ## Extremes -/

def compareNumbers : Number → Number → Option Ordering
  | .int a, .int b => some (compare a b)
  | .int a, .real y => Decimal.compareInt a y
  | .real x, .int b => (Decimal.compareInt b x).map Ordering.swap
  | .real x, .real y =>
    if x < y then some .lt else if y < x then some .gt else if x == y then some .eq else none
  | _, _ => none

/-- Goes through numbers and keeps the least or the greatest; of equal ones the first. -/
def extreme (less : Bool) (best : Number) : List Number → Except Fault Number
  | [] => .ok best
  | x :: xs =>
    if x.kind = .complex ∨ best.kind = .complex then
      .error (.impossible (.order less x.kind best.kind))
    else if compareNumbers x best = some (if less then .lt else .gt) then extreme less x xs
    else extreme less best xs

def extremeOf (f : Function) (less : Bool) : List Number → Except Fault Number
  | [] => .error (.impossible (.arity f 0))
  | [x] => .error (.impossible (.notIterable x.kind))
  | x :: xs => extreme less x xs

/-! ## Functions -/

def single (f : Function) (g : Number → Except Fault Number) : List Number → Except Fault Number
  | [x] => g x
  | xs => .error (.impossible (.arity f xs.length))

def Function.apply (f : Function) (args : List Number) : Except Fault Number :=
  match f with
  | .abs => single f absolute args
  | .ceil => single f (roundToward Decimal.ceil?) args
  | .floor => single f (roundToward Decimal.floor?) args
  | .sqrt => single f squareRoot args
  | .round =>
    match args with
    | [x] => roundWhole x
    | [x, places] => roundTo x places
    | xs => .error (.impossible (.arity f xs.length))
  | .min => extremeOf f true args
  | .max => extremeOf f false args

end Arithmetic

end TabletopChat
