import TabletopChat.Text.Basic

/-!
# Text/Blank — white space and trimming

- `Text.isBlank`  : white space of any script, and the four information separators
- `Text.strip`    : a text without the blanks at its ends
- `Text.allBlank` : whether nothing else is left
-/

namespace TabletopChat

namespace Text

/-- White space: spaces of all widths, line and paragraph ends, tabs and the information
separators. -/
def isBlank (c : Char) : Bool :=
  let n := c.toNat
  (decide (9 ≤ n) && decide (n ≤ 13)) || (decide (28 ≤ n) && decide (n ≤ 32)) || n == 0x85 ||
    n == 0xA0 || n == 0x1680 || (decide (0x2000 ≤ n) && decide (n ≤ 0x200A)) || n == 0x2028 ||
    n == 0x2029 || n == 0x202F || n == 0x205F || n == 0x3000

def stripBy (p : Char → Bool) (t : Text) : Text :=
  ((t.dropWhile p).reverse.dropWhile p).reverse

def strip (t : Text) : Text := stripBy isBlank t

def allBlank (t : Text) : Bool := t.all isBlank

end Text

end TabletopChat
