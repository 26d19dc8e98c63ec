import TabletopChat.Prompt.Atom

/-!
# Diagnostics/Unclosed — prompts without a closing brace

- `blankOut` : a text without its prompt tags, the innermost of which are taken out first
- `openers`  : where `?{` stands in a text
- `unclosed` : where a prompt begins that is never closed
-/

namespace TabletopChat

namespace Diagnostics

open Prompt

/-- The first text in braces of a text, between what stands before and after it. -/
def firstInBraces? : Text → Option (Text × Text × Text)
  | [] => none
  | c :: cs =>
    match Atom.inBraces? (c :: cs) with
    | some (_, rest) => some ([], (c :: cs).take (cs.length + 1 - rest.length), rest)
    | none => (firstInBraces? cs).map fun (before, tag, rest) => (c :: before, tag, rest)

/-- A text with at most `fuel` texts in braces replaced by blanks. What is left may become a text in
braces by it. -/
def blankOutFrom : Nat → Text → Text
  | 0, t => t
  | fuel + 1, t =>
    match firstInBraces? t with
    | some (before, tag, rest) =>
      blankOutFrom fuel (before ++ List.replicate tag.length ' ' ++ rest)
    | none => t

/-- A text with all texts in braces replaced by blanks; there are no more of them than question
marks. -/
def blankOut (t : Text) : Text := blankOutFrom (Text.occurrences '?' t) t

def openers (offset : Nat) : Text → List Nat
  | [] => []
  | c :: cs =>
    if c = '?' && cs.head? = some '\x7b' then offset :: openers (offset + 1) cs
    else openers (offset + 1) cs

def unclosed (source : Text) : List Nat := openers 0 (blankOut source)

end Diagnostics

end TabletopChat
