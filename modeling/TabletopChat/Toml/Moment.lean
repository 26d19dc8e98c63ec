import TabletopChat.Text.Basic

/-!
# Toml/Moment — dates and times

- `Date`, `Time`, `Moment` : a date, a time of day, or both
- `Date.isValid`           : whether there is such a day
- `Moment.toText`          : the text of a moment
- `Moment.literal`         : an expression for it
-/

namespace TabletopChat

namespace Toml

structure Date where
  year : Nat
  month : Nat
  day : Nat
  deriving DecidableEq, Repr

structure Time where
  hour : Nat
  minute : Nat
  second : Nat
  micro : Nat
  deriving DecidableEq, Repr

/-- A date, a time of day, or both, which may have an offset in minutes from universal time. -/
inductive Moment
  | date (d : Date)
  | time (t : Time)
  | dateTime (d : Date) (t : Time) (offset : Option Int)
  deriving DecidableEq, Repr

/-! ## The calendar -/

def isLeapYear (year : Nat) : Bool := year % 4 = 0 && (year % 100 ≠ 0 || year % 400 = 0)

def daysIn (year month : Nat) : Nat :=
  if month = 2 then if isLeapYear year then 29 else 28
  else if month = 4 || month = 6 || month = 9 || month = 11 then 30
  else 31

def Date.isValid (d : Date) : Bool :=
  decide (1 ≤ d.year) && decide (1 ≤ d.month) && decide (d.month ≤ 12) && decide (1 ≤ d.day) &&
    decide (d.day ≤ daysIn d.year d.month)

/-! ## Texts -/

def digits (width n : Nat) : Text := Text.padLeft width '0' (Text.ofNat n)

def Date.toText (d : Date) : Text :=
  digits 4 d.year ++ '-' :: digits 2 d.month ++ '-' :: digits 2 d.day

/-- The text of a time; a fraction of a second is written only if there is one. -/
def Time.toText (t : Time) : Text :=
  digits 2 t.hour ++ ':' :: digits 2 t.minute ++ ':' :: digits 2 t.second ++
    (if t.micro = 0 then [] else '.' :: digits 6 t.micro)

def offsetText (minutes : Int) : Text :=
  (if minutes < 0 then '-' else '+') :: digits 2 (minutes.natAbs / 60) ++
    ':' :: digits 2 (minutes.natAbs % 60)

def Moment.toText : Moment → Text
  | .date d => d.toText
  | .time t => t.toText
  | .dateTime d t offset =>
    d.toText ++ ' ' :: t.toText ++
      match offset with
      | some minutes => offsetText minutes
      | none => []

/-! ## Literals -/

def arguments (ns : List Nat) : Text := Text.joinWith ", ".toList (ns.map Text.ofNat)

def Date.numbers (d : Date) : List Nat := [d.year, d.month, d.day]

/-- The numbers of a time, of which seconds and their fraction are left out if nothing follows them. -/
def Time.numbers (t : Time) : List Nat :=
  if t.micro ≠ 0 then [t.hour, t.minute, t.second, t.micro]
  else if t.second ≠ 0 then [t.hour, t.minute, t.second]
  else [t.hour, t.minute]

/-- An expression for an offset: a number of seconds, and for a negative one a day less. -/
def offsetLiteral (minutes : Int) : Text :=
  if minutes = 0 then "datetime.timezone.utc".toList
  else
    let days := if minutes < 0 then "days=-1, ".toList else []
    let seconds := (minutes * 60 % 86400).toNat
    "datetime.timezone(datetime.timedelta(".toList ++ days ++ "seconds=".toList ++
      Text.ofNat seconds ++ "))".toList

def Moment.literal : Moment → Text
  | .date d => "datetime.date(".toList ++ arguments d.numbers ++ [')']
  | .time t => "datetime.time(".toList ++ arguments t.numbers ++ [')']
  | .dateTime d t offset =>
    "datetime.datetime(".toList ++ arguments (d.numbers ++ t.numbers) ++
      (match offset with
      | some minutes => ", tzinfo=".toList ++ offsetLiteral minutes
      | none => []) ++ [')']

end Toml

end TabletopChat
