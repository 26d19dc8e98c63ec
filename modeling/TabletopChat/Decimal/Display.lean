import TabletopChat.Decimal.Shortest
import TabletopChat.Text.Basic

/-!
# Decimal/Display — how doubles are written

- `Style`        : where positional writing ends and whether a point is always shown
- `Style.number` : numbers of expressions and data
- `Style.part`   : the parts of a complex number
- `write`        : the text of a double in a style
-/

namespace TabletopChat

namespace Decimal

/-- The choices of a way to write numbers. A number with leading digit at `10^k` is written
positionally when `positionalFrom ≤ k < positionalBelow`, and with an exponent otherwise;
`pointZero` adds `.0` to a positional number without a fraction. -/
structure Style where
  positionalFrom : Int
  positionalBelow : Int
  pointZero : Bool
  deriving DecidableEq, Repr

/-- Numbers are written positionally from `0.0001` to below `10^16`, and always with a point. -/
def Style.number : Style := ⟨-4, 16, true⟩

/-- The parts of a complex number are written like numbers, without a point for whole ones. -/
def Style.part : Style := ⟨-4, 16, false⟩

def writeExponent (k : Int) : Text :=
  'e' :: (if k < 0 then '-' else '+') :: Text.padLeft 2 '0' (Text.ofNat k.natAbs)

def writeDigits (style : Style) (ds : Text) (k : Int) : Text :=
  if style.positionalFrom ≤ k ∧ k < style.positionalBelow then
    match k with
    | .ofNat n =>
      let whole := ds.take (n + 1) ++ List.replicate (n + 1 - ds.length) '0'
      let fraction := ds.drop (n + 1)
      if fraction = [] then whole ++ (if style.pointZero then ['.', '0'] else [])
      else whole ++ '.' :: fraction
    | .negSucc n => '0' :: '.' :: List.replicate n '0' ++ ds
  else
    match ds with
    | [] => writeExponent k
    | [d] => d :: writeExponent k
    | d :: rest => d :: '.' :: rest ++ writeExponent k

def writeMagnitude (style : Style) (m : Magnitude) : Text :=
  if m.mant = 0 then '0' :: (if style.pointZero then ['.', '0'] else [])
  else
    let s := shortest m
    let ds := Text.ofNat s.digits
    writeDigits style ds (s.exp + ds.length - 1)

def write (style : Style) (x : Float) : Text :=
  match shape x with
  | .nan => "nan".toList
  | .infinite neg => (if neg then "-inf" else "inf").toList
  | .finite neg m => (if neg then ['-'] else []) ++ writeMagnitude style m

end Decimal

end TabletopChat
