import TabletopChat.Text.Printable

/-!
# Text/Quoted — a text between quotes, with escapes for what cannot be shown

Double quotes are used for a text that holds a single quote and no double one; in all other
cases single quotes are, and a single quote inside is escaped.

- `Text.quoteMark` : the quote that is chosen
- `Text.escaped`   : one character inside the quotes
- `Text.quoted`    : the whole text
-/

namespace TabletopChat

namespace Text

def quoteMark (t : Text) : Char :=
  if t.contains '\'' && !t.contains '"' then '"' else '\''

/-- A code point as an escape of two, four or eight hexadecimal digits, whichever is the
shortest that holds it. -/
def codeEscape (n : Nat) : Text :=
  if n < 0x100 then '\\' :: 'x' :: hex 2 n
  else if n < 0x10000 then '\\' :: 'u' :: hex 4 n
  else '\\' :: 'U' :: hex 8 n

def escaped (mark c : Char) : Text :=
  if c = mark || c = '\\' then ['\\', c]
  else if c = '\t' then ['\\', 't']
  else if c = '\n' then ['\\', 'n']
  else if c = '\r' then ['\\', 'r']
  else if isPrintable c then [c]
  else codeEscape c.toNat

def quoted (t : Text) : Text :=
  let mark := quoteMark t
  mark :: t.flatMap (escaped mark) ++ [mark]

end Text

end TabletopChat
