import TabletopChat.Text.Basic

/-!
# Text/Lines — line ends

Two notions of a line are in use. Displays cut a text after every character that ends a line in
some convention (`lines`); a source position counts line feeds only.

- `Text.lines`    : the lines with their ends
- `Text.bareLines` : the lines without them
- `Text.unifyLineEnds` : carriage returns turned into line feeds
-/

namespace TabletopChat

namespace Text

/-- Characters that end a line on their own. A carriage return together with a line feed after
it ends one line. -/
def isLineEnd (c : Char) : Bool :=
  let n := c.toNat
  (decide (10 ≤ n) && decide (n ≤ 13)) || (decide (28 ≤ n) && decide (n ≤ 30)) || n == 0x85 ||
    n == 0x2028 || n == 0x2029

def consLine (c : Char) : List Text → List Text
  | [] => [[c]]
  | l :: ls => (c :: l) :: ls

/-- The lines of a text, each with its end; a text that ends with a line end has no empty line
after it. -/
def lines : Text → List Text
  | [] => []
  | '\r' :: '\n' :: cs => ['\r', '\n'] :: lines cs
  | c :: cs => if isLineEnd c then [c] :: lines cs else consLine c (lines cs)

def bareLines (t : Text) : List Text :=
  (lines t).map fun l => l.filter (fun c => !isLineEnd c)

/-- Every carriage return, alone or before a line feed, becomes a line feed. -/
def unifyLineEnds : Text → Text
  | [] => []
  | '\r' :: '\n' :: cs => '\n' :: unifyLineEnds cs
  | '\r' :: cs => '\n' :: unifyLineEnds cs
  | c :: cs => c :: unifyLineEnds cs

/-- Without carriage returns, a text stays as it is. -/
theorem unifyLineEnds_eq {t : Text} (h : '\r' ∉ t) : unifyLineEnds t = t := by
  fun_induction unifyLineEnds t with
  | case1 => rfl
  | case2 cs ih => exact absurd (.head _) h
  | case3 cs hcs ih => exact absurd (.head _) h
  | case4 c cs hc hcs ih => rw [ih fun hmem => h (.tail _ hmem)]

end Text

end TabletopChat
