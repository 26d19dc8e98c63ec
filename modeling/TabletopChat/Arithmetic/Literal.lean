import TabletopChat.Arithmetic.Complex
import TabletopChat.Text.Quoted

/-!
# Arithmetic/Literal — values that are written out but are no numbers

- `Literal`          : quoted texts, bytes, imaginary numbers, and the named constants
- `Literal.display`  : how such a value is named in a message
- `unescape`         : the code points that the inside of a quoted text stands for
-/

namespace TabletopChat

namespace Arithmetic

/-- A value that is written out but is no number. Quoted texts are lists of code points, because
escapes can write code points that are no characters. -/
inductive Literal
  | text (points : List Nat)
  | bytes (octets : List Nat)
  | imaginary (x : Float)
  | truth (b : Bool)
  | nothing
  | ellipsis

/-! ## Display -/

def quoteAround (points : List Nat) : Char :=
  if points.contains '\''.toNat && !points.contains '"'.toNat then '"' else '\''

/-- A code point between two quotes `mark`; one that is no character is always escaped. -/
def escapedPoint (mark : Char) (n : Nat) : Text :=
  if n.isValidChar then Text.escaped mark (Char.ofNat n) else Text.codeEscape n

def escapedByte (mark : Char) (n : Nat) : Text :=
  if n < 128 then Text.escaped mark (Char.ofNat n) else Text.codeEscape n

def Literal.display : Literal → Text
  | .text points =>
    let mark := quoteAround points
    mark :: points.flatMap (escapedPoint mark) ++ [mark]
  | .bytes octets =>
    let mark := quoteAround octets
    'b' :: mark :: octets.flatMap (escapedByte mark) ++ [mark]
  | .imaginary x => Complex.write ⟨0, x⟩
  | .truth true => "True".toList
  | .truth false => "False".toList
  | .nothing => "None".toList
  | .ellipsis => "Ellipsis".toList

/-! ## Escapes -/

def simpleEscape? (c : Char) : Option Nat :=
  match c with
  | '\\' => some 92
  | '\'' => some 39
  | '"' => some 34
  | 'a' => some 7
  | 'b' => some 8
  | 't' => some 9
  | 'n' => some 10
  | 'v' => some 11
  | 'f' => some 12
  | 'r' => some 13
  | _ => none

def hexDigits : Nat → Nat → Text → Option (Nat × Text)
  | 0, n, t => some (n, t)
  | count + 1, n, c :: cs => (Text.hexDigit? c).bind fun d => hexDigits count (16 * n + d) cs
  | _ + 1, _, [] => none

def octalDigits : Nat → Nat → Text → Nat × Text
  | count + 1, n, c :: cs =>
    if '0' ≤ c ∧ c ≤ '7' then octalDigits count (8 * n + (c.toNat - 48)) cs else (n, c :: cs)
  | _, n, t => (n, t)

def codeLength? (octets : Bool) (c : Char) : Option Nat :=
  if c = 'x' then some 2
  else if octets then none
  else if c = 'u' then some 4
  else if c = 'U' then some 8
  else none

/-- The code points that the inside of a quoted text stands for; `octets` tells whether they are
bytes, and `fuel` bounds the number of characters. Unknown escapes stand for themselves; escapes
by name are not known. -/
def unescapeFrom (octets : Bool) : Nat → Text → Option (List Nat)
  | 0, _ => some []
  | _ + 1, [] => some []
  | fuel + 1, '\\' :: c :: cs =>
    if c = '\n' then unescapeFrom octets fuel cs
    else if let some n := simpleEscape? c then (unescapeFrom octets fuel cs).map (n :: ·)
    else if '0' ≤ c ∧ c ≤ '7' then
      let (n, rest) := octalDigits 3 0 (c :: cs)
      (unescapeFrom octets fuel rest).map ((if octets then n % 256 else n) :: ·)
    else if let some count := codeLength? octets c then
      (hexDigits count 0 cs).bind fun (n, rest) =>
        if n ≤ 0x10FFFF then (unescapeFrom octets fuel rest).map (n :: ·) else none
    else if c = 'N' && !octets then none
    else (unescapeFrom octets fuel (c :: cs)).map ('\\'.toNat :: ·)
  | fuel + 1, c :: cs => (unescapeFrom octets fuel cs).map (c.toNat :: ·)

def unescape (octets : Bool) (t : Text) : Option (List Nat) :=
  unescapeFrom octets (t.length + 1) t

end Arithmetic

end TabletopChat
