import Mathlib.Data.List.TakeDrop
import Mathlib.Data.List.TakeWhile
import TabletopChat.Text.Basic

/-!
# Text/Cutting — where a text is cut

A text may be cut where a class of characters ends, at its first separator, or at the first place where a
reader reads something. Each cut is described by what stands in front of it and behind it.

- `takeWhile_dropWhile_append`, `exists_cut` : where a class ends
- `Text.cutAt_append`, `Text.cutAt_cases`    : at a separator
- `Text.leftmost`                            : where something is read
-/

namespace TabletopChat

/-! ## Where a class ends -/

section Classes

variable {α : Type} {p : α → Bool}

/-- Where a list stops to consist of members of a class. -/
theorem takeWhile_dropWhile_append {body t : List α} (hbody : ∀ c ∈ body, p c = true)
    (htail : ∀ c ∈ t.head?, p c = false) :
    (body ++ t).takeWhile p = body ∧ (body ++ t).dropWhile p = t := by
  rw [List.takeWhile_append_of_pos hbody, List.dropWhile_append_of_pos hbody]
  cases t with
  | nil => simp
  | cons c cs =>
    have hc : ¬ p c = true := by simp [htail c rfl]
    rw [List.takeWhile_cons_of_neg hc, List.dropWhile_cons_of_neg hc]
    simp

/-- Every list is cut where a class ends. -/
theorem exists_cut (p : α → Bool) (t : List α) :
    ∃ body tail, t = body ++ tail ∧ (∀ c ∈ body, p c = true) ∧ ∀ c ∈ tail.head?, p c = false := by
  refine ⟨t.takeWhile p, t.dropWhile p, List.takeWhile_append_dropWhile.symm, ?_, ?_⟩
  · exact fun c hc => List.mem_takeWhile_imp hc
  · intro c hc
    have := List.head?_dropWhile_not p t
    rw [hc] at this
    simpa using this

end Classes

namespace Text

/-- A text is cut at the first separator. -/
theorem cutAt_append {sep : Char} {before : Text} (h : sep ∉ before) (behind : Text) :
    cutAt sep (before ++ sep :: behind) = (before, some behind) := by
  induction before with
  | nil => simp [cutAt]
  | cons c cs ih =>
    rw [List.mem_cons, not_or] at h
    simp [cutAt, Ne.symm h.1, ih h.2]

/-- A text is cut at the first separator, if there is one. -/
theorem cutAt_cases (sep : Char) (t : Text) :
    (sep ∉ t ∧ cutAt sep t = (t, none)) ∨
      ∃ before behind, t = before ++ sep :: behind ∧ sep ∉ before ∧
        cutAt sep t = (before, some behind) := by
  induction t with
  | nil => exact .inl ⟨List.not_mem_nil, rfl⟩
  | cons c cs ih =>
    by_cases hc : c = sep
    · exact .inr ⟨[], cs, by simp [hc], List.not_mem_nil, by simp [cutAt, hc]⟩
    · rcases ih with ⟨hnone, hcut⟩ | ⟨before, behind, rfl, hbefore, hcut⟩
      · exact .inl ⟨by simp [hnone, Ne.symm hc], by simp [cutAt, hc, hcut]⟩
      · exact .inr ⟨c :: before, behind, rfl, by simp [hbefore, Ne.symm hc], by simp [cutAt, hc, hcut]⟩

end Text

/-! ## Leftmost occurrences -/

namespace Text

variable {α γ : Type}

/-- What a reader reads at the first place of a text where it reads something, between what stands before
and after it. -/
def leftmost (read? : Text → Option (α × Text)) : Text → Option (Text × α × Text)
  | [] => (read? []).map fun (a, rest) => ([], a, rest)
  | c :: cs =>
    match read? (c :: cs) with
    | some (a, rest) => some ([], a, rest)
    | none => (leftmost read? cs).map fun (gap, a, rest) => (c :: gap, a, rest)

variable {f : Text → Option (α × Text)} {g : Text → Option (γ × Text)} {t rest : Text} {a : α}

theorem leftmost_of_some (h : f t = some (a, rest)) : leftmost f t = some ([], a, rest) := by
  cases t with
  | nil => rw [leftmost, h]; rfl
  | cons c cs => rw [leftmost, h]

theorem leftmost_of_none {c : Char} {cs : Text} (h : f (c :: cs) = none) :
    leftmost f (c :: cs) = (leftmost f cs).map fun (gap, a, rest) => (c :: gap, a, rest) := by
  rw [leftmost, h]

/-- What is read first is read behind the gap, and a reader that reads less reads nothing before. -/
theorem leftmost_narrow (hg : ∀ u, f u = none → g u = none) {gap : Text}
    (h : leftmost f t = some (gap, a, rest)) :
    ∃ u, t = gap ++ u ∧ f u = some (a, rest) ∧
      leftmost g t = (leftmost g u).map fun x => (gap ++ x.1, x.2) := by
  have hsame (u : Text) : leftmost g u = (leftmost g u).map fun x => ([] ++ x.1, x.2) := by simp
  induction t generalizing gap with
  | nil =>
    rcases Option.map_eq_some_iff.1 h with ⟨⟨b, r⟩, hread, heq⟩
    cases heq
    exact ⟨[], rfl, hread, hsame []⟩
  | cons c cs ih =>
    cases hread : f (c :: cs) with
    | some x =>
      rw [leftmost_of_some hread] at h
      cases h
      exact ⟨c :: cs, rfl, hread, hsame _⟩
    | none =>
      rw [leftmost_of_none hread] at h
      rcases Option.map_eq_some_iff.1 h with ⟨⟨gap', b, r⟩, hleft, heq⟩
      cases heq
      rcases ih hleft with ⟨u, hcs, hu, hrest⟩
      refine ⟨u, by rw [hcs]; rfl, hu, ?_⟩
      rw [leftmost_of_none (hg _ hread), hrest, Option.map_map]
      rfl

theorem exists_of_leftmost {gap : Text} (h : leftmost f t = some (gap, a, rest)) :
    ∃ u, t = gap ++ u ∧ f u = some (a, rest) := by
  rcases leftmost_narrow (fun _ hu => hu) h with ⟨u, ht, hu, -⟩
  exact ⟨u, ht, hu⟩

/-- In front of the first place where something is read, nothing is read. -/
theorem drop_of_leftmost {gap : Text} (h : leftmost f t = some (gap, a, rest)) {p : Nat} (hp : p < gap.length) :
    f (t.drop p) = none := by
  induction t generalizing gap p with
  | nil =>
    obtain ⟨x, -, heq⟩ := Option.map_eq_some_iff.1 h
    cases heq
    cases hp
  | cons c cs ih =>
    cases hread : f (c :: cs) with
    | some x =>
      rw [leftmost_of_some hread] at h
      cases h
      cases hp
    | none =>
      rw [leftmost_of_none hread] at h
      obtain ⟨⟨gap', b, r⟩, hleft, heq⟩ := Option.map_eq_some_iff.1 h
      cases heq
      cases p with
      | zero => exact hread
      | succ p => exact ih hleft (Nat.lt_of_succ_lt_succ hp)

/-- Where nothing is read first, nothing is read anywhere. -/
theorem drop_of_leftmost_none (h : leftmost f t = none) (p : Nat) : f (t.drop p) = none := by
  induction t generalizing p with
  | nil =>
    rw [List.drop_nil]
    exact Option.map_eq_none_iff.1 h
  | cons c cs ih =>
    cases hread : f (c :: cs) with
    | some x => rw [leftmost_of_some hread] at h; cases h
    | none =>
      rw [leftmost_of_none hread] at h
      cases p with
      | zero => exact hread
      | succ p => exact ih (Option.map_eq_none_iff.1 h) p

/-- What a narrower reader does not find is not found. -/
theorem leftmost_eq_none (hg : ∀ u, f u = none → g u = none) (h : leftmost f t = none) :
    leftmost g t = none := by
  induction t with
  | nil => rw [leftmost, hg [] (Option.map_eq_none_iff.1 h)]; rfl
  | cons c cs ih =>
    cases hread : f (c :: cs) with
    | some x => rw [leftmost_of_some hread] at h; cases h
    | none =>
      rw [leftmost_of_none hread] at h
      rw [leftmost_of_none (hg _ hread), ih (Option.map_eq_none_iff.1 h)]
      rfl

/-- Readers that read the same at every end of a text read the same first. -/
theorem leftmost_congr (φ : α → γ) (h : ∀ u, u <:+ t → g u = (f u).map fun x => (φ x.1, x.2)) :
    leftmost g t = (leftmost f t).map fun x => (x.1, φ x.2.1, x.2.2) := by
  induction t with
  | nil =>
    rw [leftmost, leftmost, h [] List.suffix_rfl, Option.map_map, Option.map_map]
    rfl
  | cons c cs ih =>
    have hhere := h (c :: cs) List.suffix_rfl
    have hmore := ih fun u hu => h u (hu.trans (List.suffix_cons c cs))
    cases hread : f (c :: cs) with
    | some x =>
      rw [hread] at hhere
      rw [leftmost_of_some hread, leftmost_of_some hhere]
      rfl
    | none =>
      rw [hread] at hhere
      rw [leftmost_of_none hread, leftmost_of_none hhere, hmore, Option.map_map, Option.map_map]
      rfl

end Text

end TabletopChat
