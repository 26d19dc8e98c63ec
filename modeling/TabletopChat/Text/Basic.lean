/-!
# Text — chat text as a list of characters

Every message, tag, label and answer is a `Text`; lengths and offsets count characters.

- `Text.ofNat`, `Text.ofInt`  : decimal numerals
- `Text.pieces`, `Text.joinWith` : cutting at a separator and joining again
- `Text.replaceAll`           : replacing every occurrence, left to right
- `Text.hex`, `Text.hexValue?` : hexadecimal numerals, written and read
-/

namespace TabletopChat

/-- A text is the list of its characters. -/
abbrev Text := List Char

instance : LawfulBEq Text := inferInstance

namespace Text

/-! ## Numerals -/

def ofNat (n : Nat) : Text := Nat.toDigits 10 n

/-- The decimal numeral of an integer, with a minus sign when it is negative. -/
def ofInt : Int → Text
  | .ofNat n => ofNat n
  | .negSucc n => '-' :: ofNat (n + 1)

/-- `t` filled up on the left with `c` to at least `width` characters. -/
def padLeft (width : Nat) (c : Char) (t : Text) : Text :=
  List.replicate (width - t.length) c ++ t

/-- The numeral of `n` in base sixteen with small letters, at least `width` digits long. -/
def hex (width n : Nat) : Text := padLeft width '0' (Nat.toDigits 16 n)

def hexDigit? (c : Char) : Option Nat :=
  if c.isDigit then some (c.toNat - 48)
  else if 'a' ≤ c ∧ c ≤ 'f' then some (c.toNat - 87)
  else if 'A' ≤ c ∧ c ≤ 'F' then some (c.toNat - 55)
  else none

/-- The number that is written by `n` with hexadecimal digits behind it. -/
def hexValue? (n : Nat) : Text → Option Nat
  | [] => some n
  | c :: cs => (hexDigit? c).bind fun d => hexValue? (n * 16 + d) cs

/-! ## Cutting and joining -/

/-- The pieces of a text between the occurrences of `sep`; there is always at least one. -/
def pieces (sep : Char) : Text → List Text
  | [] => [[]]
  | c :: cs =>
    if c = sep then
      [] :: pieces sep cs
    else
      match pieces sep cs with
      | [] => [[c]]
      | p :: ps => (c :: p) :: ps

/-- The texts written one after the other with `sep` between them. -/
def joinWith (sep : Text) : List Text → Text
  | [] => []
  | [t] => t
  | t :: u :: ts => t ++ sep ++ joinWith sep (u :: ts)

/-- What stands before the first `sep` and, if there is one, what stands after it. -/
def cutAt (sep : Char) : Text → Text × Option Text
  | [] => ([], none)
  | c :: cs =>
    if c = sep then ([], some cs)
    else
      let (before, after) := cutAt sep cs
      (c :: before, after)

/-! ## Occurrences -/

def startsWith (head t : Text) : Bool := head.isPrefixOf t

def afterWord? (word t : Text) : Option Text :=
  if startsWith word t then some (t.drop word.length) else none

/-- Replaces the occurrences of `old`, skipping the first `skip` characters. -/
def replaceFrom (old new : Text) : Nat → Text → Text
  | _, [] => []
  | skip + 1, _ :: cs => replaceFrom old new skip cs
  | 0, c :: cs =>
    if startsWith old (c :: cs) then
      new ++ replaceFrom old new (old.length - 1) cs
    else
      c :: replaceFrom old new 0 cs

/-- Every occurrence of `old`, found from left to right without overlap, replaced by `new`.
An empty `old` occurs before every character and at the end. -/
def replaceAll (old new t : Text) : Text :=
  if old = [] then
    new ++ t.flatMap (fun c => c :: new)
  else
    replaceFrom old new 0 t

def occurrences (c : Char) (t : Text) : Nat := t.count c

end Text

end TabletopChat
