import TabletopChat.Arithmetic.Complex
import TabletopChat.Text.Digit

/-!
# Arithmetic/Number — the numbers of expressions

- `Number`            : an integer of any size, a double, or a complex number
- `Number.bits`       : the size of an integer
- `Number.write`      : the text of a number
- `Number.display`    : the text that is put into a message
- `Number.print?`     : the same text, or nothing for a number with too many decimal digits
-/

namespace TabletopChat

namespace Arithmetic

/-- A number of one of three kinds. -/
inductive Number
  | int (n : Int)
  | real (x : Float)
  | complex (z : Complex)

inductive Number.Kind
  | int
  | real
  | complex
  deriving DecidableEq, Repr

namespace Number

def kind : Number → Kind
  | .int _ => .int
  | .real _ => .real
  | .complex _ => .complex

def Kind.name : Kind → Text
  | .int => "int".toList
  | .real => "float".toList
  | .complex => "complex".toList

def bits (n : Int) : Nat := Decimal.bitLength n.natAbs

def maxBits : Nat := 10000

def write : Number → Text
  | .int n => Text.ofInt n
  | .real x => Decimal.write .number x
  | .complex z => z.write

/-- The text of a number in a message: a whole double is written like an integer. -/
def display : Number → Text
  | .int n => Text.ofInt n
  | .real x =>
    match Decimal.integer? x with
    | some n => Text.ofInt n
    | none => Decimal.write .number x
  | .complex z => z.write

/-- The decimal numeral of an integer, unless it has too many digits to be printed. -/
def numeral? (n : Int) : Option Text :=
  if (Text.ofNat n.natAbs).length ≤ Text.maxNumeral then some (Text.ofInt n) else none

/-- The text of a number in a message, as it is printed: a numeral can be too long for that. -/
def print? : Number → Option Text
  | .int n => numeral? n
  | .real x =>
    match Decimal.integer? x with
    | some n => numeral? n
    | none => some (Decimal.write .number x)
  | .complex z => some z.write

end Number

end Arithmetic

end TabletopChat
