import TabletopChat.Decimal.Binary
import TabletopChat.Text.Digit

/-!
# Decimal/Reader — doubles read from text

- `Decimal.ofText?` : the double that a text writes
-/

namespace TabletopChat

namespace Decimal

def underscoresOk : (afterDigit : Bool) → Text → Bool
  | _, [] => true
  | afterDigit, c :: cs =>
    if c = '_' then afterDigit && cs.head?.any Text.isDigit && underscoresOk false cs
    else underscoresOk (Text.isDigit c) cs

def readSign : Text → Bool × Text
  | '-' :: cs => (true, cs)
  | '+' :: cs => (false, cs)
  | cs => (false, cs)

def readExponent (t : Text) : Option Int :=
  let (neg, ds) := readSign t
  if ds.isEmpty || !ds.all Text.isDigit then none
  else some (signed neg (Text.digitsValue ds))

/-- A number without a sign: digits, perhaps with a point among them, and perhaps an exponent. -/
def readMagnitude (neg : Bool) (t : Text) : Option Float :=
  let whole := t.takeWhile Text.isDigit
  let rest := t.dropWhile Text.isDigit
  let pointed := rest.head? = some '.'
  let fraction := if pointed then (rest.drop 1).takeWhile Text.isDigit else []
  let rest := if pointed then (rest.drop 1).dropWhile Text.isDigit else rest
  if whole.isEmpty && fraction.isEmpty then none
  else
    let exp := match rest with
      | [] => some 0
      | c :: cs => if c = 'e' || c = 'E' then readExponent cs else none
    exp.map fun n => ofScientific neg (Text.digitsValue (whole ++ fraction)) (n - fraction.length)

/-- The double that a text writes: a decimal number with single underscores between its digits, or
one of the words for infinity and for no number, between blanks. -/
def ofText? (t : Text) : Option Float :=
  let t := Text.stripBy Text.isNumeralBlank t
  let (neg, body) := readSign t
  let word := String.ofList (body.map Char.toLower)
  if word = "inf" || word = "infinity" then some (infinity neg)
  else if word = "nan" then some undefinedValue
  else if underscoresOk false body then readMagnitude neg (body.filter (· ≠ '_'))
  else none

end Decimal

end TabletopChat
