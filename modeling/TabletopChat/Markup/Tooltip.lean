import TabletopChat.Text.Basic

/-!
# Markup/Tooltip — values with a hover title

- `escapeAttribute` : a text inside a quoted HTML attribute
- `tooltip`         : a value wrapped in a span with a title
-/

namespace TabletopChat

namespace Markup

/-- A character inside a quoted attribute: what has a meaning in HTML, and all that is not ASCII,
becomes a character reference. -/
def escapeAttributeChar (c : Char) : Text :=
  if c = '&' then "&amp;".toList
  else if c = '<' then "&lt;".toList
  else if c = '>' then "&gt;".toList
  else if c = '"' then "&quot;".toList
  else if c.toNat > 127 then
    '&' :: '#' :: 'x' :: (Nat.toDigits 16 c.toNat).map Char.toUpper ++ [';']
  else [c]

def escapeAttribute (t : Text) : Text := t.flatMap escapeAttributeChar

/-- A value that shows `title` when hovered over. -/
def tooltip (title value : Text) : Text :=
  "<span title=\"".toList ++ escapeAttribute title ++ "\">".toList ++ value ++ "</span>".toList

end Markup

end TabletopChat
