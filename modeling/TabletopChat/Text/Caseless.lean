import TabletopChat.Text.Basic

/-!
# Text/Caseless — ASCII words in any case

Four letters outside of ASCII are case variants of ASCII letters: the long s, the Kelvin sign, and the
two letters i whose dot differs. They count as the letter that they are a variant of when words are
compared, but not all of them have that letter as their small form.

- `Text.baseLetter`   : the small ASCII letter that a letter is a case variant of
- `Text.afterCaseless?` : what follows a word that is written in any case
- `Text.lower`        : a text with small letters
-/

namespace TabletopChat

namespace Text

/-- The small ASCII letter that a letter is a case variant of; other characters stay. -/
def baseLetter (c : Char) : Char :=
  match c.toNat with
  | 0x17F => 's'
  | 0x212A => 'k'
  | 0x130 => 'i'
  | 0x131 => 'i'
  | _ => c.toLower

/-- What follows `word`, which consists of small letters, if `t` begins with it in any case. -/
def afterCaseless? : Text → Text → Option Text
  | [], t => some t
  | _ :: _, [] => none
  | w :: ws, c :: cs => if baseLetter c = w then afterCaseless? ws cs else none

/-- The small form of an ASCII letter or a case variant of one. The dotted capital i keeps its dot as
a character of its own; the long s and the dotless i are small already. -/
def lowerChar (c : Char) : Text :=
  match c.toNat with
  | 0x212A => ['k']
  | 0x130 => ['i', '\u0307']
  | _ => [c.toLower]

/-- A text of ASCII characters and case variants of ASCII letters with small letters. -/
def lower (t : Text) : Text := t.flatMap lowerChar

/-! ## Small forms -/

/-- A small form is the letter itself, or a capital ASCII letter stands 32 places before it. -/
theorem eq_or_capital_of_toLower {c d : Char} (h : c.toLower = d) :
    c = d ∨ (65 ≤ c.toNat ∧ c.toNat ≤ 90 ∧ d.toNat = c.toNat + 32) := by
  unfold Char.toLower at h
  split at h
  · rename_i hc
    have hlow : 65 ≤ c.toNat := UInt32.le_iff_toNat_le.1 hc.1
    have hhigh : c.toNat ≤ 90 := UInt32.le_iff_toNat_le.1 hc.2
    have hsum : (c.val + ('a'.val - 'A'.val)).toNat = (c.toNat + 32) % 2 ^ 32 := UInt32.toNat_add _ _
    have hd : (c.val + ('a'.val - 'A'.val)).toNat = d.toNat := congrArg Char.toNat h
    exact .inr ⟨hlow, hhigh, by omega⟩
  · exact .inl h

end Text

end TabletopChat
