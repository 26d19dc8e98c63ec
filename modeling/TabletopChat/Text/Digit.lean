import TabletopChat.Text.Blank

/-!
# Text/Digit — decimal digits of every script, and integers read from text

- `Text.digit?`  : the value of a decimal digit
- `Text.isDigit` : whether a character is one
- `Text.toInt?`  : the integer that a text writes
-/

namespace TabletopChat

namespace Text

/-! ## Digits -/

/-- The zeros of all scripts with decimal digits; the other nine follow each of them. -/
def zeros : List Nat := [
  48, 1632, 1776, 1984, 2406, 2534, 2662, 2790, 2918, 3046, 3174, 3302, 3430, 3558, 3664,
  3792, 3872, 4160, 4240, 6112, 6160, 6470, 6608, 6784, 6800, 6992, 7088, 7232, 7248, 42528,
  43216, 43264, 43472, 43504, 43600, 44016, 65296, 66720, 68912, 69734, 69872, 69942, 70096,
  70384, 70736, 70864, 71248, 71360, 71472, 71904, 72016, 72784, 73040, 73120, 92768, 92864,
  93008, 120782, 120792, 120802, 120812, 120822, 123200, 123632, 125264, 130032]

def digit? (c : Char) : Option Nat :=
  let n := c.toNat
  if n < 128 then
    if c.isDigit then some (n - 48) else none
  else
    (zeros.find? fun z => decide (z ≤ n) && decide (n < z + 10)).map (n - ·)

def isDigit (c : Char) : Bool := (digit? c).isSome

/-- The number that the digits of a text write; characters that are no digits do not count. -/
def digitsValue (t : Text) : Nat :=
  t.foldl (fun n c => match digit? c with | some d => 10 * n + d | none => n) 0

/-! ## Integers -/

/-- The longest numeral that is read: more digits than this are refused. -/
def maxNumeral : Nat := 4300

/-- Digits with single underscores between them: `afterDigit` tells whether an underscore, or
the end, may come next. -/
def isNumeral : Bool → Text → Bool
  | afterDigit, [] => afterDigit
  | afterDigit, c :: cs =>
    if isDigit c then isNumeral true cs
    else if c = '_' && afterDigit then isNumeral false cs
    else false

def toNat? (t : Text) : Option Nat :=
  if isNumeral false t && decide ((t.filter isDigit).length ≤ maxNumeral) then
    some (digitsValue t)
  else none

def isNumeralBlank (c : Char) : Bool :=
  isBlank c && !(decide (28 ≤ c.toNat) && decide (c.toNat ≤ 31))

/-- The integer that a text writes: an optional sign and a numeral, between blanks. -/
def toInt? (t : Text) : Option Int :=
  match stripBy isNumeralBlank t with
  | '-' :: ds => (toNat? ds).map fun n => -(n : Int)
  | '+' :: ds => (toNat? ds).map Int.ofNat
  | ds => (toNat? ds).map Int.ofNat

end Text

end TabletopChat
