import TabletopChat.Arithmetic.Literal
import TabletopChat.Text.Identifier
import TabletopChat.Text.Lines

/-!
# Arithmetic/Token — the words, numerals and signs of an expression

An expression is one logical line. Line ends inside of brackets and after a backslash do not end it;
comments are skipped; before and after it there may be lines without anything but a comment.

- `Keyword`, `Mark`, `Token` : what an expression is made of
- `number?`  : reading a numeral
- `quote?`   : reading a quoted text
- `tokens?`  : reading an expression, or nothing if it is not well formed
-/

namespace TabletopChat

namespace Arithmetic

/-! ## Tokens -/

inductive Keyword
  | wTrue | wFalse | wNone | wAnd | wOr | wNot | wIf | wElse | wFor | wIn | wIs | wLambda
  | wAwait | wAsync | wYield | wFrom
  /-- a word that begins a statement -/
  | statement
  deriving DecidableEq, Repr

def Keyword.table : List (String × Keyword) := [
  ("True", .wTrue), ("False", .wFalse), ("None", .wNone), ("and", .wAnd), ("or", .wOr),
  ("not", .wNot), ("if", .wIf), ("else", .wElse), ("for", .wFor), ("in", .wIn), ("is", .wIs),
  ("lambda", .wLambda), ("await", .wAwait), ("async", .wAsync), ("yield", .wYield),
  ("from", .wFrom)]

def Keyword.statements : List String := [
  "as", "assert", "break", "class", "continue", "def", "del", "elif", "except", "finally",
  "global", "import", "nonlocal", "pass", "raise", "return", "try", "while", "with"]

def Keyword.named? (w : Text) : Option Keyword :=
  match Keyword.table.find? fun e => e.1.toList == w with
  | some e => some e.2
  | none => if Keyword.statements.any fun s => s.toList == w then some .statement else none

inductive Bracket
  | round | square | curly
  deriving DecidableEq, Repr

inductive Mark
  | opening (b : Bracket) | closing (b : Bracket)
  | comma | colon | dot | ellipsis | equals | walrus
  | plus | minus | star | slash | doubleSlash | percent | doubleStar
  | at | pipe | ampersand | tilde | shiftLeft | shiftRight
  | less | greater | lessEqual | greaterEqual | equal | notEqual
  deriving DecidableEq, Repr

structure QuoteStyle where
  raw : Bool
  octets : Bool
  template : Bool
  deriving DecidableEq, Repr

inductive Token
  | word (name : Text)
  | keyword (k : Keyword)
  | int (n : Nat)
  | real (x : Float)
  | imaginary (x : Float)
  | quoted (style : QuoteStyle) (body : Text)
  | mark (m : Mark)

/-! ## Numerals -/

def inWord (c : Char) : Bool := c.isAlphanum || c == '_' || decide (128 ≤ c.toNat)

/-- Whether a numeral may end before `t`: before a word it may not, but for the words that can
come after a number. -/
def endsNumber (t : Text) : Bool :=
  ["and", "else", "for", "if", "in", "is", "or", "not"].any (fun w => w.toList.isPrefixOf t) ||
    match t with
    | [] => true
    | c :: _ => !inWord c

/-- Digits with single underscores between them, and what follows; an underscore needs a digit
after it. -/
def digitRun (isDigit : Char → Bool) : Text → Option (Text × Text)
  | [] => some ([], [])
  | c :: cs =>
    if isDigit c then (digitRun isDigit cs).map fun (ds, rest) => (c :: ds, rest)
    else if c = '_' then
      match cs with
      | [] => none
      | d :: _ => if isDigit d then digitRun isDigit cs else none
    else some ([], c :: cs)

def digitsIn (base : Nat) (ds : Text) : Nat :=
  ds.foldl (fun n c => base * n + (Text.hexDigit? c).getD 0) 0

/-- A decimal numeral is not longer than this many digits. -/
def maxDigits : Nat := 4300

def endNumber (tok : Token) (rest : Text) : Option (Token × Text) :=
  if endsNumber rest then some (tok, rest) else none

def radixNumber? (base : Nat) (t : Text) : Option (Token × Text) :=
  let isDigit := fun c => match Text.hexDigit? c with
    | some d => decide (d < base)
    | none => false
  match digitRun isDigit t with
  | some (d :: ds, rest) =>
    if rest.head?.any Char.isDigit then none else endNumber (.int (digitsIn base (d :: ds))) rest
  | _ => none

/-- A decimal number that is real, or imaginary if a `j` follows. -/
def realNumber (digits : Text) (exp : Int) (rest : Text) : Option (Token × Text) :=
  let x := Decimal.ofScientific false (digitsIn 10 digits) exp
  match rest with
  | 'j' :: rest => endNumber (.imaginary x) rest
  | 'J' :: rest => endNumber (.imaginary x) rest
  | rest => endNumber (.real x) rest

def plainNumber (whole fraction : Text) (pointed : Bool) (rest : Text) :
    Option (Token × Text) :=
  if pointed || rest.head? = some 'j' || rest.head? = some 'J' then
    realNumber (whole ++ fraction) (-(fraction.length : Int)) rest
  else if whole.head? = some '0' && whole.any (· ≠ '0') then none
  else if whole.length > maxDigits then none
  else endNumber (.int (digitsIn 10 whole)) rest

/-- The exponent and the end of a number: an `e` without digits after it does not belong to the
number, and only a word that may follow can begin with it. -/
def exponentNumber (whole fraction : Text) (pointed : Bool) (t : Text) : Option (Token × Text) :=
  match t with
  | [] => plainNumber whole fraction pointed []
  | c :: cs =>
    if c = 'e' || c = 'E' then
      let signed := cs.head? = some '+' || cs.head? = some '-'
      let negative := cs.head? = some '-'
      let body := if signed then cs.drop 1 else cs
      if body.head?.any Char.isDigit then
        (digitRun Char.isDigit body).bind fun (ds, rest) =>
          let n : Int := digitsIn 10 ds
          realNumber (whole ++ fraction) ((if negative then -n else n) - fraction.length) rest
      else if signed then none
      else plainNumber whole fraction pointed t
    else plainNumber whole fraction pointed t

def decimalNumber? (t : Text) : Option (Token × Text) :=
  (digitRun Char.isDigit t).bind fun (whole, rest) =>
    match rest with
    | '.' :: rest =>
      if rest.head?.any Char.isDigit then
        (digitRun Char.isDigit rest).bind fun (fraction, rest) =>
          exponentNumber whole fraction true rest
      else exponentNumber whole [] true rest
    | rest => exponentNumber whole [] false rest

def number? (t : Text) : Option (Token × Text) :=
  match t with
  | '0' :: c :: cs =>
    if c = 'x' || c = 'X' then radixNumber? 16 cs
    else if c = 'o' || c = 'O' then radixNumber? 8 cs
    else if c = 'b' || c = 'B' then radixNumber? 2 cs
    else decimalNumber? t
  | _ => decimalNumber? t

/-! ## Words and quoted texts -/

def QuoteStyle.named? (w : Text) : Option QuoteStyle :=
  match String.ofList (w.map Char.toLower) with
  | "" => some ⟨false, false, false⟩
  | "u" => some ⟨false, false, false⟩
  | "r" => some ⟨true, false, false⟩
  | "b" => some ⟨false, true, false⟩
  | "br" => some ⟨true, true, false⟩
  | "rb" => some ⟨true, true, false⟩
  | "f" => some ⟨false, false, true⟩
  | "fr" => some ⟨true, false, true⟩
  | "rf" => some ⟨true, false, true⟩
  | _ => none

def shortBody (quote : Char) : Text → Option (Text × Text)
  | [] => none
  | '\\' :: c :: cs => (shortBody quote cs).map fun (b, rest) => ('\\' :: c :: b, rest)
  | c :: cs =>
    if c = quote then some ([], cs)
    else if c = '\n' || c = '\\' then none
    else (shortBody quote cs).map fun (b, rest) => (c :: b, rest)

def longBody (quote : Char) : Text → Option (Text × Text)
  | [] => none
  | '\\' :: c :: cs => (longBody quote cs).map fun (b, rest) => ('\\' :: c :: b, rest)
  | c :: cs =>
    if c = quote && cs.take 2 = [quote, quote] then some ([], cs.drop 2)
    else if c = '\\' then none
    else (longBody quote cs).map fun (b, rest) => (c :: b, rest)

def quote? (quote : Char) (t : Text) : Option (Text × Text) :=
  if t.take 3 = [quote, quote, quote] then longBody quote (t.drop 3)
  else shortBody quote (t.drop 1)

def word? (t : Text) : Option (Token × Text) :=
  let w := t.takeWhile inWord
  let rest := t.dropWhile inWord
  let quote := rest.head?.getD ' '
  match if quote = '"' || quote = '\'' then QuoteStyle.named? w else none with
  | some style => (quote? quote rest).map fun (body, rest) => (.quoted style body, rest)
  | none =>
    if !(w.all (fun c => decide (c.toNat < 128)) || Text.isName w) then none
    else match Keyword.named? w with
      | some k => some (.keyword k, rest)
      | none => some (.word w, rest)

/-! ## Signs -/

def Mark.table : List (String × Mark) := [
  ("...", .ellipsis), ("**", .doubleStar), ("//", .doubleSlash), ("<<", .shiftLeft),
  (">>", .shiftRight), ("<=", .lessEqual), (">=", .greaterEqual), ("==", .equal),
  ("!=", .notEqual), (":=", .walrus), ("(", .opening .round), (")", .closing .round),
  ("[", .opening .square), ("]", .closing .square), ("\x7b", .opening .curly),
  ("\x7d", .closing .curly), (",", .comma), (":", .colon), (".", .dot), ("=", .equals),
  ("+", .plus), ("-", .minus), ("*", .star), ("/", .slash), ("%", .percent), ("@", .at),
  ("|", .pipe), ("&", .ampersand), ("~", .tilde), ("<", .less), (">", .greater)]

def mark? (t : Text) : Option (Mark × Text) :=
  (Mark.table.find? fun e => e.1.toList.isPrefixOf t).map fun e => (e.2, t.drop e.1.length)

def token? (t : Text) : Option (Token × Text) :=
  match t with
  | [] => none
  | c :: cs =>
    if c.isDigit || (c = '.' && cs.head?.any Char.isDigit) then number? t
    else if inWord c || c = '"' || c = '\'' then word? t
    else (mark? t).map fun (m, rest) => (.mark m, rest)

/-! ## Lines -/

def isGap (c : Char) : Bool := c = ' ' || c = '\t' || c = '\x0c'

def joinedLine? : Text → Option Text
  | '\n' :: c :: cs => some (c :: cs)
  | _ => none

/-- What follows the lines that hold nothing but a comment, and whether it is indented. `column`
tells whether blanks were passed on this line, and `fixed` whether they were before a backslash. -/
def skipLines : Nat → (column fixed : Bool) → Text → Option (Bool × Text)
  | 0, _, _, _ => none
  | _ + 1, column, fixed, [] => some (column || fixed, [])
  | fuel + 1, column, fixed, c :: cs =>
    if c = ' ' || c = '\t' then skipLines fuel true fixed cs
    else if c = '\x0c' then skipLines fuel false fixed cs
    else if c = '\n' then skipLines fuel false false cs
    else if c = '#' then skipLines fuel false false (cs.dropWhile (· ≠ '\n'))
    else if c = '\\' then (joinedLine? cs).bind fun rest => skipLines fuel column (fixed || column) rest
    else some (column || fixed, c :: cs)

def maxDepth : Nat := 200

def depthAfter (depth : Nat) : Token → Option Nat
  | .mark (.opening _) => if depth < maxDepth then some (depth + 1) else none
  | .mark (.closing _) => if depth = 0 then none else some (depth - 1)
  | _ => some depth

/-- The tokens of the line that begins here, at a bracket depth; `fuel` bounds the characters. -/
def lineTokens : Nat → Nat → Text → Option (List Token)
  | 0, _, _ => none
  | _ + 1, depth, [] => if depth = 0 then some [] else none
  | fuel + 1, depth, c :: cs =>
    if isGap c then lineTokens fuel depth cs
    else if c = '#' then lineTokens fuel depth (cs.dropWhile (· ≠ '\n'))
    else if c = '\\' then (joinedLine? cs).bind fun rest => lineTokens fuel depth rest
    else if c = '\n' then
      if depth = 0 then
        match skipLines (cs.length + 1) false false cs with
        | some (_, []) => some []
        | _ => none
      else lineTokens fuel depth cs
    else
      (token? (c :: cs)).bind fun (tok, rest) =>
        (depthAfter depth tok).bind fun depth =>
          (lineTokens fuel depth rest).map (tok :: ·)

def tokens? (source : Text) : Option (List Token) :=
  let t := Text.unifyLineEnds source
  match skipLines (t.length + 1) false false t with
  | some (false, rest) => lineTokens (rest.length + 1) 0 rest
  | _ => none

end Arithmetic

end TabletopChat
