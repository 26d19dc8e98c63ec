import TabletopChat.Json.Basic
import TabletopChat.Text.Digit
import TabletopChat.Decimal.Binary

/-!
# Json/Parser — reading JSON

Blanks are the four of the standard, strings hold no control characters, and the words `NaN`,
`Infinity` and `-Infinity` are read as numbers. When a member is written twice the last one counts.

- `Json.Flaw`   : what is wrong where reading stops
- `Json.Fault`  : why a text is refused
- `Json.parse`  : reads a whole text
-/

namespace TabletopChat

namespace Json

/-! ## Faults -/

/-- What is wrong at the place where reading stops. -/
inductive Flaw
  | byteOrderMark
  | noValue
  | noName
  | noColon
  | noComma
  | openString
  | controlCharacter
  | badEscape
  | badCode
  | extraText
  deriving DecidableEq, Repr

def Flaw.message : Flaw → Text
  | .byteOrderMark => "Unexpected UTF-8 BOM (decode using utf-8-sig)".toList
  | .noValue => "Expecting value".toList
  | .noName => "Expecting property name enclosed in double quotes".toList
  | .noColon => "Expecting ':' delimiter".toList
  | .noComma => "Expecting ',' delimiter".toList
  | .openString => "Unterminated string starting at".toList
  | .controlCharacter => "Invalid control character at".toList
  | .badEscape => "Invalid \\escape".toList
  | .badCode => "Invalid \\uXXXX escape".toList
  | .extraText => "Extra data".toList

/-- Why a text is refused: it is no JSON from `rest` on, or an integer in it has too many digits. -/
inductive Fault
  | malformed (flaw : Flaw) (rest : Text)
  | numeralTooLong
  deriving DecidableEq, Repr

/-- The place in `source` where `rest` begins: a line and a column, both from one, and the number of
characters before it. -/
def placeText (source rest : Text) : Text :=
  let before := source.take (source.length - rest.length)
  let column := (before.reverse.takeWhile (· ≠ '\n')).length + 1
  "line ".toList ++ Text.ofNat (before.count '\n' + 1) ++ " column ".toList ++ Text.ofNat column ++
    " (char ".toList ++ Text.ofNat before.length ++ ")".toList

def Fault.message (source : Text) : Fault → Text
  | .malformed flaw rest => flaw.message ++ ": ".toList ++ placeText source rest
  | .numeralTooLong => "integer with too many digits".toList

/-! ## Blanks and words -/

def isBlank (c : Char) : Bool := c == ' ' || c == '\t' || c == '\n' || c == '\r'

def skipBlanks (t : Text) : Text := t.dropWhile isBlank

/-! ## Strings -/

def hexQuad? (a b c d : Char) : Option Nat := do
  let w ← Text.hexDigit? a
  let x ← Text.hexDigit? b
  let y ← Text.hexDigit? c
  let z ← Text.hexDigit? d
  some (w * 4096 + x * 256 + y * 16 + z)

def escapeCode? (c : Char) : Option Nat :=
  match c with
  | '"' => some 34
  | '\\' => some 92
  | '/' => some 47
  | 'b' => some 8
  | 'f' => some 12
  | 'n' => some 10
  | 'r' => some 13
  | 't' => some 9
  | _ => none

/-- The codes of a string up to its closing quote, where an escape may give half of a surrogate
pair, and what follows the quote. The string begins at `start`; an escape of four digits is not the
end of a text. -/
def stringCodes (start : Text) : Text → Except Fault (List Nat × Text)
  | [] => .error (.malformed .openString start)
  | '"' :: cs => .ok ([], cs)
  | ['\\'] => .error (.malformed .openString start)
  | '\\' :: 'u' :: a :: b :: c :: d :: cs =>
    match hexQuad? a b c d with
    | none => .error (.malformed .badCode ('u' :: a :: b :: c :: d :: cs))
    | some n =>
      if cs = [] then .error (.malformed .badCode ['u', a, b, c, d])
      else (stringCodes start cs).map fun (ns, rest) => (n :: ns, rest)
  | '\\' :: e :: cs =>
    match escapeCode? e with
    | some n => (stringCodes start cs).map fun (ns, rest) => (n :: ns, rest)
    | none =>
      if e = 'u' then .error (.malformed .badCode (e :: cs))
      else .error (.malformed .badEscape ('\\' :: e :: cs))
  | c :: cs =>
    if c.toNat < 32 then .error (.malformed .controlCharacter (c :: cs))
    else (stringCodes start cs).map fun (ns, rest) => (c.toNat :: ns, rest)

/-- The first half of a surrogate pair. -/
def isHighSurrogate (n : Nat) : Bool := decide (0xD800 ≤ n) && decide (n < 0xDC00)

def isLowSurrogate (n : Nat) : Bool := decide (0xDC00 ≤ n) && decide (n < 0xE000)

/-- Characters from codes: two halves of a surrogate pair make one character, and a half on its own
becomes the replacement character. -/
def charsOfCodes : List Nat → Text
  | [] => []
  | h :: l :: ns =>
    if isHighSurrogate h && isLowSurrogate l then
      Char.ofNat (0x10000 + (h - 0xD800) * 1024 + (l - 0xDC00)) :: charsOfCodes ns
    else if isHighSurrogate h || isLowSurrogate h then '\uFFFD' :: charsOfCodes (l :: ns)
    else Char.ofNat h :: charsOfCodes (l :: ns)
  | [n] => if isHighSurrogate n || isLowSurrogate n then ['\uFFFD'] else [Char.ofNat n]

def readString (t : Text) : Except Fault (Text × Text) :=
  (stringCodes ('"' :: t) t).map fun (codes, rest) => (charsOfCodes codes, rest)

/-! ## Numbers -/

def spanDigits (t : Text) : Text × Text := t.span Char.isDigit

def spanFraction (t : Text) : Text × Text :=
  match t with
  | '.' :: cs =>
    match spanDigits cs with
    | ([], _) => ([], t)
    | (ds, rest) => (ds, rest)
  | _ => ([], t)

def spanExponent (t : Text) : Option Int × Text :=
  match t with
  | c :: cs =>
    if c = 'e' || c = 'E' then
      let (neg, cs') := match cs with
        | '-' :: r => (true, r)
        | '+' :: r => (false, r)
        | _ => (false, cs)
      match spanDigits cs' with
      | ([], _) => (none, t)
      | (ds, rest) => (some (Decimal.signed neg (Text.digitsValue ds)), rest)
    else (none, t)
  | [] => (none, t)

/-- The number in `t`, behind a minus sign if there is one. An integer with a leading zero is the zero
alone. The value begins at `start`. -/
def readNumber (start : Text) (neg : Bool) (t : Text) : Except Fault (Json × Text) :=
  let (whole, rest) := match t with
    | '0' :: r => (['0'], r)
    | _ => spanDigits t
  if whole = [] then .error (.malformed .noValue start)
  else
    let (fraction, rest) := spanFraction rest
    let (exponent, rest) := spanExponent rest
    match fraction, exponent with
    | [], none =>
      if whole.length > Text.maxNumeral then .error .numeralTooLong
      else .ok (.int (Decimal.signed neg (Text.digitsValue whole)), rest)
    | _, _ =>
      let x := Decimal.ofScientific neg (Text.digitsValue (whole ++ fraction))
        (exponent.getD 0 - fraction.length)
      .ok (.float x, rest)

/-! ## Values -/

def readWord? (t : Text) : Option (Json × Text) :=
  let words : List (Text × Json) :=
    [("null".toList, .null), ("true".toList, .bool true), ("false".toList, .bool false),
     ("NaN".toList, .float Decimal.undefinedValue),
     ("Infinity".toList, .float (Decimal.infinity false)),
     ("-Infinity".toList, .float (Decimal.infinity true))]
  words.findSome? fun (word, value) => (Text.afterWord? word t).map fun rest => (value, rest)

mutual

def readValue : Nat → Text → Except Fault (Json × Text)
  | 0, t => .error (.malformed .noValue t)
  | fuel + 1, t =>
    match t with
    | '"' :: cs => do
      let (s, rest) ← readString cs
      .ok (.text s, rest)
    | '[' :: cs =>
      match skipBlanks cs with
      | ']' :: rest => .ok (.list [], rest)
      | cs' => do
        let (items, rest) ← readItems fuel cs'
        .ok (.list items, rest)
    | '{' :: cs =>
      match skipBlanks cs with
      | '}' :: rest => .ok (.object [], rest)
      | cs' => do
        let (members, rest) ← readMembers fuel cs'
        .ok (.object (Entries.update [] members), rest)
    | _ =>
      match readWord? t with
      | some r => .ok r
      | none =>
        match t with
        | '-' :: cs => readNumber t true cs
        | _ => readNumber t false t

def readItems : Nat → Text → Except Fault (List Json × Text)
  | 0, t => .error (.malformed .noValue t)
  | fuel + 1, t => do
    let (item, rest) ← readValue fuel t
    match skipBlanks rest with
    | ']' :: rest => .ok ([item], rest)
    | ',' :: rest => do
      let (items, rest) ← readItems fuel (skipBlanks rest)
      .ok (item :: items, rest)
    | rest => .error (.malformed .noComma rest)

def readMembers : Nat → Text → Except Fault (List (Text × Json) × Text)
  | 0, t => .error (.malformed .noName t)
  | fuel + 1, t =>
    match t with
    | '"' :: cs => do
      let (key, rest) ← readString cs
      match skipBlanks rest with
      | ':' :: rest => do
        let (value, rest) ← readValue fuel (skipBlanks rest)
        match skipBlanks rest with
        | '}' :: rest => .ok ([(key, value)], rest)
        | ',' :: rest => do
          let (members, rest) ← readMembers fuel (skipBlanks rest)
          .ok ((key, value) :: members, rest)
        | rest => .error (.malformed .noComma rest)
      | rest => .error (.malformed .noColon rest)
    | _ => .error (.malformed .noName t)

end

/-- Reads a text that is one value between blanks. A value is never nested deeper than the text is
long. -/
def parse (t : Text) : Except Fault Json :=
  if t.head? = some '\uFEFF' then .error (.malformed .byteOrderMark t)
  else do
    let (v, rest) ← readValue (t.length + 1) (skipBlanks t)
    match skipBlanks rest with
    | [] => .ok v
    | rest => .error (.malformed .extraText rest)

end Json

end TabletopChat
