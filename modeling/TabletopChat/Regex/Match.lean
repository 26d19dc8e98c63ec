import TabletopChat.Regex.Pattern

/-!
# Regex/Match — the matches that a pattern finds

A match keeps the text that was taken and what its groups have taken of it. In a text the leftmost match
counts. This gives the readers of tags a second, declarative description.

- `Regex.match?`  : a match at the beginning of a text
- `Regex.search`  : the leftmost match in a text
- `Regex.Proper`  : patterns that take a character at least
-/

namespace TabletopChat

/-- A match: the text that was taken, and what its groups have taken of it. -/
structure Match where
  source : Text
  groups : Groups
  deriving DecidableEq, Repr

/-- What a group has taken, unless it was left out. -/
def Match.group? (m : Match) (name : Text) : Option Text := Entries.get? name m.groups

/-- What a group has taken; nothing if it was left out. -/
def Match.group (m : Match) (name : Text) : Text := (m.group? name).getD []

namespace Regex

def match? (p : Regex) (t : Text) : Option (Match × Text) :=
  p.run (fun rest g => some (⟨t.take (t.length - rest.length), g⟩, rest)) t []

def matchAll? (p : Regex) (t : Text) : Option Match :=
  p.run (fun rest g => if rest = [] then some ⟨t, g⟩ else none) t []

/-- The leftmost match in a text, between what stands before and after it. -/
def search (p : Regex) (t : Text) : Option (Text × Match × Text) := Text.leftmost p.match? t

def Proper (p : Regex) : Prop := ∀ t m rest, p.match? t = some (m, rest) → m.source ≠ []

variable {p : Regex} {t rest : Text} {m : Match}

/-- A match and what follows it are the text. -/
theorem source_append (h : p.match? t = some (m, rest)) : m.source ++ rest = t := by
  rcases exists_of_run h with ⟨u, g, ⟨before, rfl⟩, heq⟩
  cases heq
  simp

/-- A row that begins with a word takes some text. -/
theorem proper_row_word {w : Text} (hw : w ≠ []) (as : List Regex) : (row (word w :: as)).Proper := by
  intro t m rest h
  have hprefix : w <+: t := by
    by_contra hnot
    rw [match?, run_row_cons, run_word_of_not_begins hnot] at h
    cases h
  rcases hprefix with ⟨u, rfl⟩
  have hsource := source_append h
  rw [match?, run_row_cons, run_word_append] at h
  rcases exists_of_run h with ⟨v, g, hv, heq⟩
  cases heq
  -- what is left is an end of what follows the word
  intro hnil
  rw [hnil, List.nil_append] at hsource
  have hlength := hv.length_le
  rw [hsource, List.length_append] at hlength
  have hpos := List.length_pos_iff.2 hw
  omega

/-- The leftmost match is one, and stands behind the gap. -/
theorem match?_of_search {gap : Text} (h : p.search t = some (gap, m, rest)) :
    p.match? (m.source ++ rest) = some (m, rest) ∧ gap ++ (m.source ++ rest) = t := by
  rcases Text.exists_of_leftmost h with ⟨u, rfl, hmatch⟩
  rw [source_append hmatch]
  exact ⟨hmatch, rfl⟩

/-- Behind a leftmost match that takes something, less of the text is left. -/
theorem Proper.length_lt (hp : p.Proper) {gap : Text} (h : p.search t = some (gap, m, rest)) :
    rest.length < t.length := by
  rcases match?_of_search h with ⟨hmatch, rfl⟩
  have hpos := List.length_pos_iff.2 (hp _ _ _ hmatch)
  simp only [List.length_append]
  omega

end Regex

end TabletopChat
