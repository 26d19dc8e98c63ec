import TabletopChat.Dice.Shorthand
import TabletopChat.Proofs.Text.NulFree
import TabletopChat.Proofs.Text.Numeral
import TabletopChat.Text.Caseless

/-!
# Proofs/Dice/Shorthand/Letters — every group of dice takes a letter

A group of dice is written with the letter `d`, and its total is not. So there are at most as many groups
as there are letters, whatever totals join with the text around them, and the number of letters is fuel
enough for looking for groups one after the other.

- `letters_of_firstPattern?` : the first group of dice takes a letter
- `Cleared`, `cleared_iff`   : a text without its groups of dice
- `Stray`, `isMalformed_iff` : a word that begins like a group of dice and is none
-/

namespace TabletopChat

namespace Shorthand

/-! ## Letters -/

theorem letters_append (t u : Text) : letters (t ++ u) = letters t + letters u := List.countP_append

theorem letters_eq_zero {t : Text} (h : ∀ c ∈ t, c ≠ 'd' ∧ c ≠ 'D') : letters t = 0 := by
  rw [letters, List.countP_eq_zero]
  intro c hc
  simp [h c hc]

/-- Numbers have no letters. -/
theorem letters_ofNat (n : Nat) : letters (Text.ofNat n) = 0 := by
  refine letters_eq_zero fun c hc => ?_
  have hdigit := Text.isDigit_of_mem_ofNat hc
  refine ⟨?_, ?_⟩
  · rintro rfl
    exact absurd hdigit (by decide)
  · rintro rfl
    exact absurd hdigit (by decide)

/-- No letter of dice is in a number. -/
theorem letters_ofInt (i : Int) : letters (Text.ofInt i) = 0 := by
  cases i with
  | ofNat n => exact letters_ofNat n
  | negSucc n =>
      have h := letters_append ['-'] (Text.ofNat (n + 1))
      rw [letters_ofNat] at h
      exact h

/-- A total in the place of a group adds no letter to the text around it. -/
theorem letters_around_total (before rest : Text) (i : Int) :
    letters (before ++ Text.ofInt i ++ rest) = letters before + letters rest := by
  rw [letters_append, letters_append, letters_ofInt, Nat.add_zero]

theorem letters_le_of_sublist {t u : Text} (h : t.Sublist u) : letters t ≤ letters u := h.countP_le

theorem letters_strip_le (t : Text) : letters (Text.strip t) ≤ letters t := by
  refine letters_le_of_sublist ?_
  rw [Text.strip, Text.stripBy, ← List.reverse_sublist, List.reverse_reverse]
  exact (List.dropWhile_sublist _).trans (List.reverse_sublist.2 (List.dropWhile_sublist _))

/-! ## Reading a group of dice -/

theorem digits?_suffix (t : Text) : Gives (fun x => x.2 <:+ t) (digits? t) := by
  unfold digits?
  split
  · exact gives_none
  · exact gives_some (List.dropWhile_suffix _)

theorem word?_suffix (w t : Text) : Gives (fun rest => rest <:+ t) (word? w t) :=
  gives_ite (gives_some (List.drop_suffix _ _)) gives_none

/-- What is left behind a threshold is the end of the text. -/
theorem threshold?_suffix (w t : Text) : Gives (fun x => x.2 <:+ t) (threshold? w t) := by
  refine (word?_suffix w t).bind fun rest hrest => ?_
  split
  · rename_i u
    exact fun x hx => ((digits?_suffix u x hx).trans (List.suffix_cons _ u)).trans hrest
  · exact (word?_suffix _ rest).bind fun v hv x hx => ((digits?_suffix v x hx).trans hv).trans hrest

theorem optional_suffix {r : Option (Text × Text)} {t : Text} (h : Gives (fun x => x.2 <:+ t) r) :
    (optional r t).2 <:+ t := by
  cases r with
  | none => exact List.suffix_refl t
  | some x => exact h x rfl

/-- The letter of dice is the small or the large one. -/
theorem eq_d_of_toLower {c : Char} (h : c.toLower = 'd') : c = 'd' ∨ c = 'D' := by
  rcases Text.eq_or_capital_of_toLower h with heq | ⟨-, -, hsum⟩
  · exact .inl heq
  · have hupper : c.toNat = 'D'.toNat := by
      change 100 = c.toNat + 32 at hsum
      change c.toNat = 68
      omega
    exact .inr (Char.toNat_inj.1 hupper)

/-- The letter of a group of dice. -/
theorem letters_of_word? {t rest : Text} (h : word? ['d'] t = some rest) : letters rest < letters t := by
  simp only [word?, Option.ite_none_right_eq_some, Option.some.injEq] at h
  rcases h with ⟨hd, rfl⟩
  cases t with
  | nil => cases hd
  | cons c cs =>
      have hc : c.toLower = 'd' := by simpa using hd
      rcases eq_d_of_toLower hc with rfl | rfl <;> simp [letters]

/-- Taking out a group of dice takes out its letter. -/
theorem letters_of_pattern? (t : Text) : Gives (fun x => letters x.2 < letters t) (pattern? t) := by
  intro x hx
  simp only [pattern?, Option.mem_def, Option.bind_eq_some_iff, Option.map_eq_some_iff] at hx
  rcases hx with ⟨afterLetter, hword, ⟨faces, afterFaces⟩, hfaces, rfl⟩
  have honce := optional_suffix (threshold?_suffix ['r', 'o'] afterFaces)
  have hagain := optional_suffix
    (threshold?_suffix ['r'] (optional (threshold? ['r', 'o'] afterFaces) afterFaces).2)
  have hrest := (hagain.trans honce).trans (digits?_suffix afterLetter _ hfaces)
  calc
    letters _ ≤ letters afterLetter := letters_le_of_sublist hrest.sublist
    _ < letters (t.dropWhile Text.isDigit) := letters_of_word? hword
    _ ≤ letters t := letters_le_of_sublist (List.dropWhile_sublist _)

/-- The first group of dice takes a letter, so that fewer are left around it. -/
theorem letters_of_firstPattern? {t before rest : Text} {p : Pattern}
    (h : firstPattern? t = some (before, p, rest)) : letters before + letters rest < letters t := by
  induction t generalizing before with
  | nil => cases h
  | cons c cs ih =>
      simp only [firstPattern?] at h
      split at h
      · rename_i hread
        cases h
        simpa [letters] using letters_of_pattern? (c :: cs) _ hread
      · rcases Option.map_eq_some_iff.1 h with ⟨⟨before', p', rest'⟩, hfirst, heq⟩
        cases heq
        have hrest := ih hfirst
        have hcons (u : Text) : letters (c :: u) = letters [c] + letters u := letters_append [c] u
        rw [hcons before', hcons cs]
        omega

theorem firstPattern?_eq_none {t : Text} (h : letters t = 0) : firstPattern? t = none := by
  refine Option.eq_none_iff_forall_ne_some.2 fun ⟨before, p, rest⟩ hfirst => ?_
  have hlt := letters_of_firstPattern? hfirst
  omega

/-! ## Texts without their groups of dice -/

/-- A text and what is left of it when its groups of dice are taken out, from left to right. -/
inductive Cleared : Text → Text → Prop
  | done {t : Text} : firstPattern? t = none → Cleared t t
  | cut {t before rest u : Text} {p : Pattern} :
      firstPattern? t = some (before, p, rest) → Cleared rest u → Cleared t (before ++ u)

/-- With as much fuel as there are letters, all groups are taken out. -/
theorem cleared_withoutPatterns {fuel : Nat} {t : Text} (h : letters t ≤ fuel) :
    Cleared t (withoutPatterns fuel t) := by
  induction fuel generalizing t with
  | zero => exact .done (firstPattern?_eq_none (by omega))
  | succ fuel ih =>
      unfold withoutPatterns
      split
      · rename_i before p rest hfirst
        have hlt := letters_of_firstPattern? hfirst
        exact .cut hfirst (ih (by omega))
      · rename_i hnone
        exact .done hnone

/-- What is left without groups is determined. -/
theorem Cleared.unique {t u v : Text} (hu : Cleared t u) (hv : Cleared t v) : u = v := by
  induction hu generalizing v with
  | done hnone =>
      cases hv with
      | done => rfl
      | cut hfirst => rw [hnone] at hfirst; cases hfirst
  | cut hfirst _ ih =>
      cases hv with
      | done hnone => rw [hfirst] at hnone; cases hnone
      | cut hfirst' hrest =>
          rw [hfirst] at hfirst'
          cases hfirst'
          rw [ih hrest]

/-- Every text has one text that is left when its groups of dice are taken out. -/
theorem cleared_iff {t u : Text} : Cleared t u ↔ u = withoutPatterns (letters t) t :=
  ⟨fun h => h.unique (cleared_withoutPatterns le_rfl), fun h => h ▸ cleared_withoutPatterns le_rfl⟩

/-! ## Stray words -/

/-- A text with a word that begins like a group of dice: with a `d`, or with digits and a `d`. -/
def Stray (t : Text) : Prop :=
  ∃ before digits c behind, t = before ++ digits ++ c :: behind ∧
    (∀ x ∈ before.getLast?, Text.isWord x = false) ∧ (∀ x ∈ digits, Text.isDigit x = true) ∧
    (c = 'd' ∨ c = 'D')

/-- What begins like dice has digits and then the letter. -/
theorem beginsLikeDice_iff {t : Text} :
    beginsLikeDice t = true ↔ ∃ digits c behind, t = digits ++ c :: behind ∧
      (∀ x ∈ digits, Text.isDigit x = true) ∧ (c = 'd' ∨ c = 'D') := by
  constructor
  · intro h
    unfold beginsLikeDice at h
    split at h
    · rename_i c behind hdrop
      refine ⟨t.takeWhile Text.isDigit, c, behind, ?_, fun x hx => List.mem_takeWhile_imp hx, ?_⟩
      · rw [← hdrop, List.takeWhile_append_dropWhile]
      · simpa using h
    · cases h
  · rintro ⟨digits, c, behind, rfl, hdigits, hc⟩
    have hstop : Text.isDigit c = false := by rcases hc with rfl | rfl <;> decide
    rw [beginsLikeDice, List.dropWhile_append_of_pos hdigits, List.dropWhile_cons_of_neg (by simp [hstop])]
    rcases hc with rfl | rfl <;> rfl

/-- A stray word begins where no word goes on: after a character of no word, or in front. -/
theorem hasStray_iff {inside : Bool} {t : Text} :
    hasStray inside t = true ↔ ∃ before rest, t = before ++ rest ∧ beginsLikeDice rest = true ∧
      (before = [] → inside = false) ∧ ∀ x ∈ before.getLast?, Text.isWord x = false := by
  -- `inside` stands for the character in front of the text, which changes with each step
  induction t generalizing inside with
  | nil =>
      simp [hasStray, beginsLikeDice]
  | cons c cs ih =>
      simp only [hasStray, Bool.or_eq_true, Bool.and_eq_true, Bool.not_eq_true', ih]
      constructor
      · rintro (⟨hinside, hbegins⟩ | ⟨before, rest, rfl, hbegins, hfront, hlast⟩)
        · exact ⟨[], c :: cs, rfl, hbegins, fun _ => hinside, by simp⟩
        · refine ⟨c :: before, rest, rfl, hbegins, nofun, ?_⟩
          cases before with
          | nil => simpa using hfront rfl
          | cons b before => simpa using hlast
      · rintro ⟨before, rest, heq, hbegins, hfront, hlast⟩
        cases before with
        | nil =>
            rw [List.nil_append] at heq
            exact .inl ⟨hfront rfl, heq ▸ hbegins⟩
        | cons b before =>
            cases heq
            refine .inr ⟨before, rest, rfl, hbegins, ?_, ?_⟩
            · rintro rfl
              exact hlast _ rfl
            · cases before with
              | nil => simp
              | cons d before => simpa using hlast

/-- An expression is malformed exactly if a stray word is left when its groups of dice are taken out. -/
theorem isMalformed_iff {t : Text} : isMalformed t = true ↔ ∃ u, Cleared t u ∧ Stray u := by
  have hstray (u : Text) : hasStray false u = true ↔ Stray u := by
    rw [hasStray_iff]
    constructor
    · rintro ⟨before, rest, rfl, hbegins, -, hlast⟩
      rcases beginsLikeDice_iff.1 hbegins with ⟨digits, c, behind, rfl, hdigits, hc⟩
      exact ⟨before, digits, c, behind, (List.append_assoc ..).symm, hlast, hdigits, hc⟩
    · rintro ⟨before, digits, c, behind, rfl, hlast, hdigits, hc⟩
      refine ⟨before, digits ++ c :: behind, List.append_assoc .., ?_, fun _ => rfl, hlast⟩
      exact beginsLikeDice_iff.2 ⟨digits, c, behind, rfl, hdigits, hc⟩
  simp [isMalformed, hstray, cleared_iff]

end Shorthand

end TabletopChat
