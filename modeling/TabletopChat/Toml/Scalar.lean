import TabletopChat.Decimal.Binary
import TabletopChat.Text.Digit
import TabletopChat.Toml.Value

/-!
# Toml/Scalar — texts, numbers, dates and times

- `Fault`       : why a configuration is refused
- `Reader`      : reading something at the beginning of a text
- `readString`  : a text in one of four kinds of quotes
- `readMoment?` : a date or a time
- `readNumber?` : a number
-/

namespace TabletopChat

namespace Toml

/-- Why a configuration is refused: it has the wrong form, or an integer in it has too many digits. -/
inductive Fault
  | malformed
  | numeralTooLong
  deriving DecidableEq, Repr

abbrev Reader (α : Type) := Text → Except Fault (α × Text)

/-! ## Characters -/

def isSpace (c : Char) : Bool := c = ' ' || c = '\t'

def isAllowed (c : Char) : Bool := (decide (32 ≤ c.toNat) && c.toNat ≠ 127) || c = '\t'

def isAllowedInLines (c : Char) : Bool := isAllowed c || c = '\n'

/-! ## Texts -/

def readCode (count : Nat) (t : Text) : Except Fault (Text × Text) :=
  match decide (count ≤ t.length), Text.hexValue? 0 (t.take count) with
  | true, some n => if n.isValidChar then .ok ([Char.ofNat n], t.drop count) else .error .malformed
  | _, _ => .error .malformed

def shortEscape? (c : Char) : Option Char :=
  match c with
  | 'b' => some '\x08'
  | 't' => some '\t'
  | 'n' => some '\n'
  | 'f' => some '\x0c'
  | 'r' => some '\r'
  | '"' => some '"'
  | '\\' => some '\\'
  | _ => none

/-- What follows an escape that stands before the end of a line: the next character that is neither a
blank nor a line end. -/
def afterLineEnd (t : Text) : Except Fault (Text × Text) :=
  match t.dropWhile isSpace with
  | [] => .ok ([], [])
  | '\n' :: rest => .ok ([], rest.dropWhile fun c => isSpace c || c = '\n')
  | _ => .error .malformed

def readEscape (lines : Bool) : Reader Text
  | [] => .error .malformed
  | c :: cs =>
    if lines && (isSpace c || c = '\n') then afterLineEnd (c :: cs)
    else if c = 'u' then readCode 4 cs
    else if c = 'U' then readCode 8 cs
    else
      match shortEscape? c with
      | some d => .ok ([d], cs)
      | none => .error .malformed

def closing (lines : Bool) (quote : Char) : Text :=
  if lines then [quote, quote, quote] else [quote]

def readEscaped (lines : Bool) : Nat → Reader Text
  | 0, _ => .error .malformed
  | _ + 1, [] => .error .malformed
  | fuel + 1, c :: cs =>
    match Text.afterWord? (closing lines '"') (c :: cs) with
    | some rest => .ok ([], rest)
    | none =>
      if c = '\\' then do
        let (u, rest) ← readEscape lines cs
        let (v, rest) ← readEscaped lines fuel rest
        .ok (u ++ v, rest)
      else if (if lines then isAllowedInLines c else isAllowed c) then do
        let (v, rest) ← readEscaped lines fuel cs
        .ok (c :: v, rest)
      else .error .malformed

def readLiteral (lines : Bool) : Reader Text
  | [] => .error .malformed
  | c :: cs =>
    match Text.afterWord? (closing lines '\'') (c :: cs) with
    | some rest => .ok ([], rest)
    | none =>
      if (if lines then isAllowedInLines c else isAllowed c) then do
        let (v, rest) ← readLiteral lines cs
        .ok (c :: v, rest)
      else .error .malformed

def readQuoted (lines : Bool) (quote : Char) (t : Text) : Except Fault (Text × Text) :=
  if quote = '"' then readEscaped lines (t.length + 1) t else readLiteral lines t

/-- A text of several lines after its opening quotes. A line end right behind them does not count, and up
to two quotes may stand right before the closing ones. -/
def readLines (quote : Char) (t : Text) : Except Fault (Text × Text) := do
  let t := match t with
    | '\n' :: rest => rest
    | _ => t
  let (v, rest) ← readQuoted true quote t
  let extra := (rest.take 2).takeWhile (· = quote)
  .ok (v ++ extra, rest.drop extra.length)

def readLine (quote : Char) (t : Text) : Except Fault (Text × Text) := readQuoted false quote t

def readString (quote : Char) (t : Text) : Except Fault (Text × Text) :=
  match Text.afterWord? [quote, quote] t with
  | some (c :: rest) => if c = quote then readLines quote rest else readLine quote t
  | _ => readLine quote t

/-! ## Dates and times -/

def readFixed? (count low high : Nat) (t : Text) : Option (Nat × Text) :=
  let ds := t.take count
  let n := Text.digitsValue ds
  if ds.length = count && ds.all Char.isDigit && decide (low ≤ n) && decide (n ≤ high) then
    some (n, t.drop count)
  else none

def after? (c : Char) : Text → Option Text
  | [] => none
  | d :: ds => if d = c then some ds else none

/-- The millionths of a second that a fraction writes; further digits do not count. -/
def microOf (ds : Text) : Nat :=
  let ds := ds.take 6
  Text.digitsValue ds * Nat.pow 10 (6 - ds.length)

def readTime? (t : Text) : Option (Time × Text) := do
  let (hour, t) ← readFixed? 2 0 23 t
  let t ← after? ':' t
  let (minute, t) ← readFixed? 2 0 59 t
  let t ← after? ':' t
  let (second, t) ← readFixed? 2 0 59 t
  let ds := match t with
    | '.' :: cs => cs.takeWhile Char.isDigit
    | _ => []
  if ds = [] then some (⟨hour, minute, second, 0⟩, t)
  else some (⟨hour, minute, second, microOf ds⟩, t.drop (ds.length + 1))

/-- A date; its day may be one that its month does not have. -/
def readDate? (t : Text) : Option (Date × Text) := do
  let (year, t) ← readFixed? 4 0 9999 t
  let t ← after? '-' t
  let (month, t) ← readFixed? 2 1 12 t
  let t ← after? '-' t
  let (day, t) ← readFixed? 2 1 31 t
  some (⟨year, month, day⟩, t)

def readOffsetTime? (t : Text) : Option (Int × Text) := do
  let (hour, t) ← readFixed? 2 0 23 t
  let t ← after? ':' t
  let (minute, t) ← readFixed? 2 0 59 t
  some ((hour * 60 + minute : Nat), t)

def readOffset (t : Text) : Option Int × Text :=
  match t with
  | c :: cs =>
    if c = 'Z' || c = 'z' then (some 0, cs)
    else
      match c, readOffsetTime? cs with
      | '+', some (n, rest) => (some n, rest)
      | '-', some (n, rest) => (some (-n), rest)
      | _, _ => (none, t)
  | [] => (none, t)

def readDayTime? : Text → Option (Time × Text)
  | c :: cs => if c = 'T' || c = 't' || c = ' ' then readTime? cs else none
  | [] => none

/-- A date, a time of day, or both; not one with a day that does not exist. -/
def readMoment? (t : Text) : Option (Except Fault (Moment × Text)) :=
  match readDate? t with
  | some (d, rest) =>
    some (if !d.isValid then .error .malformed
      else
        match readDayTime? rest with
        | some (time, rest) =>
          let (offset, rest) := readOffset rest
          .ok (.dateTime d time offset, rest)
        | none => .ok (.date d, rest))
  | none => (readTime? t).map fun (time, rest) => .ok (.time time, rest)

/-! ## Numbers -/

/-- Digits with single underscores between them, without the underscores; `inside` tells whether a digit
stands before. -/
def digitRun (p : Char → Bool) : Bool → Text → Text × Text
  | _, [] => ([], [])
  | inside, c :: cs =>
    if p c then
      let (ds, rest) := digitRun p true cs
      (c :: ds, rest)
    else if inside && c = '_' && (cs.head?.any p) then digitRun p false cs
    else ([], c :: cs)

/-- An integer in another base than ten, after its sign of two characters. -/
def readBase? : Text → Option (Int × Text)
  | '0' :: c :: cs =>
    let base := match c with
      | 'x' => 16
      | 'o' => 8
      | 'b' => 2
      | _ => 0
    let isDigit := fun d => ((Text.hexDigit? d).any fun n => decide (n < base))
    match digitRun isDigit false cs with
    | ([], _) => none
    | (ds, rest) =>
      some (ds.foldl (fun n d => n * base + (Text.hexDigit? d).getD 0) (0 : Nat), rest)
  | _ => none

/-- The whole part of a number: a zero, or digits that begin with another digit. -/
def readWhole? : Text → Option (Text × Text)
  | '0' :: cs => some (['0'], cs)
  | t =>
    match digitRun Char.isDigit false t with
    | ([], _) => none
    | r => some r

def readFraction (t : Text) : Text × Text :=
  match t with
  | '.' :: cs =>
    match digitRun Char.isDigit false cs with
    | ([], _) => ([], t)
    | r => r
  | _ => ([], t)

def readExponent (t : Text) : Option Int × Text :=
  match t with
  | c :: cs =>
    if c = 'e' || c = 'E' then
      let (neg, ds) := match cs with
        | '-' :: r => (true, r)
        | '+' :: r => (false, r)
        | _ => (false, cs)
      match digitRun Char.isDigit false ds with
      | ([], _) => (none, t)
      | (ds, rest) => (some (Decimal.signed neg (Text.digitsValue ds)), rest)
    else (none, t)
  | [] => (none, t)

def readDecimal? (neg : Bool) (t : Text) : Option (Except Fault (Value × Text)) :=
  (readWhole? t).map fun (whole, rest) =>
    let (fraction, rest) := readFraction rest
    let (exponent, rest) := readExponent rest
    match fraction, exponent with
    | [], none =>
      if whole.length > Text.maxNumeral then .error .numeralTooLong
      else .ok (.int (Decimal.signed neg (Text.digitsValue whole)), rest)
    | _, _ =>
      .ok (.float (Decimal.ofScientific neg (Text.digitsValue (whole ++ fraction))
        (exponent.getD 0 - fraction.length)), rest)

def readWordNumber? (neg : Bool) (t : Text) : Option (Value × Text) :=
  match Text.afterWord? "inf".toList t with
  | some rest => some (.float (Decimal.infinity neg), rest)
  | none => (Text.afterWord? "nan".toList t).map fun rest => (.float Decimal.undefinedValue, rest)

def readNumber? (t : Text) : Option (Except Fault (Value × Text)) :=
  match readBase? t with
  | some (n, rest) => some (.ok (.int n, rest))
  | none =>
    let (neg, u) := match t with
      | '-' :: cs => (true, cs)
      | '+' :: cs => (false, cs)
      | _ => (false, t)
    match readDecimal? neg u with
    | some r => some r
    | none => (readWordNumber? neg u).map .ok

end Toml

end TabletopChat
