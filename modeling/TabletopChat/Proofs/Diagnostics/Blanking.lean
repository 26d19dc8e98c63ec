import TabletopChat.Diagnostics.Unclosed
import TabletopChat.Proofs.Prompt.Searching

/-!
# Proofs/Diagnostics/Blanking — which openers of a document are reported

Tags are taken out of a document one after the other: the leftmost balanced one becomes blanks of its
length, and the search begins again. A tag that stands to the right of it is left as it is, or disappears
with it. So what is left at the end has no tag where the document has one, and each opener that is left
stands in the document and begins no tag there.

- `Blanked`        : a text after all of its tags became blanks
- `OpensAt`        : offsets of `?{`
- `firstInBraces?_eq` : the tag that is taken out is the leftmost match of the pattern
- `blanked_blankOutFrom` : each round takes out a question mark, so the rounds end
- `Blanked.opensAt`   : what holds in front of a round if it holds behind it, and so of a whole run
- `unclosed_sound` : the openers that are reported
-/

namespace TabletopChat

namespace Diagnostics

open Prompt Regex

variable {t u gap rest source : Text} {m : Match} {p : Nat}

/-! ## Rounds -/

def blanks (source : Text) : Text := List.replicate source.length ' '

/-- A text after rounds that end: in each the leftmost balanced tag becomes blanks, until there is none. -/
inductive Blanked : Text → Text → Prop
  | done {t : Text} (hnone : spanPattern.search t = none) : Blanked t t
  | next {t gap rest u : Text} {m : Match} (hfound : spanPattern.search t = some (gap, m, rest))
      (hrest : Blanked (gap ++ blanks m.source ++ rest) u) : Blanked t u

/-- An offset of `?{` in a text. -/
def OpensAt (t : Text) (p : Nat) : Prop := t[p]? = some '?' ∧ t[p + 1]? = some '\x7b'

/-! ## The tag that is taken out -/

/-- The text in braces at the beginning of a text is what the pattern takes. -/
theorem match?_spanPattern_eq (t : Text) :
    (Atom.inBraces? t).map (fun x => (t.take (t.length - x.2.length), x.2)) =
      (spanPattern.match? t).map fun x => (x.1.source, x.2) := by
  by_cases hopen : ['?', '\x7b'] <+: t
  · obtain ⟨v, rfl⟩ := hopen
    obtain ⟨as, e, rfl, has, he⟩ := Atom.exists_atoms v
    simp only [List.cons_append, List.nil_append, inBraces?_append has he, match?_spanPattern has he]
    by_cases hclose : e.head? = some '\x7d'
    · obtain ⟨after, rfl⟩ := List.head?_eq_some_iff.1 hclose
      have hsource : '?' :: '\x7b' :: (Atom.sourceOf as ++ '\x7d' :: after) =
          spanSource (Atom.sourceOf as) ++ after := by simp [spanSource]
      simp only [hclose, if_true, Option.map_some, List.tail_cons]
      rw [hsource, List.length_append, Nat.add_sub_cancel, List.take_left]
    · simp only [hclose, if_false, Option.map_none]
  · rw [inBraces?_of_not_opened hopen, spanPattern, not_opened hopen]
    rfl

/-- The first prompt in braces is found by searching for its form. -/
theorem firstInBraces?_eq (t : Text) :
    firstInBraces? t = (spanPattern.search t).map fun x => (x.1, x.2.1.source, x.2.2) := by
  have hleft : firstInBraces? t =
      Text.leftmost (fun u => (Atom.inBraces? u).map fun x => (u.take (u.length - x.2.length), x.2)) t := by
    induction t with
    | nil => rfl
    | cons c cs ih =>
      rw [firstInBraces?, Text.leftmost, ih]
      cases Atom.inBraces? (c :: cs) <;> rfl
  rw [hleft]
  exact Text.leftmost_congr Match.source fun u _ => match?_spanPattern_eq u

/-- A balanced tag begins with a question mark. -/
theorem exists_source (h : spanPattern.match? t = some (m, rest)) : ∃ body, m.source = '?' :: body := by
  have hopen : ['?', '\x7b'] <+: t := by
    by_contra hnot
    rw [spanPattern, not_opened hnot] at h
    cases h
  have hproper : spanPattern.Proper := proper_row_word (by decide) _
  obtain ⟨c, body, hsource⟩ := List.exists_cons_of_ne_nil (hproper _ _ _ h)
  rw [← source_append h, hsource] at hopen
  obtain ⟨rfl, -⟩ := List.cons_prefix_cons.1 hopen
  exact ⟨body, hsource⟩

/-! ## Rounds end -/

/-- A round leaves fewer question marks. -/
theorem count_lt_of_search (h : spanPattern.search t = some (gap, m, rest)) :
    (gap ++ blanks m.source ++ rest).count '?' < t.count '?' := by
  obtain ⟨hmatch, rfl⟩ := match?_of_search h
  obtain ⟨body, hsource⟩ := exists_source hmatch
  have hblank : (blanks m.source).count '?' = 0 := by simp [blanks, List.count_replicate]
  have hmark : 0 < m.source.count '?' := by simp [hsource]
  simp only [List.count_append, hblank]
  omega

/-- Where there is no question mark, there is no tag. -/
theorem search_eq_none (h : t.count '?' = 0) : spanPattern.search t = none := by
  cases hsearch : spanPattern.search t with
  | none => rfl
  | some x =>
    have hlt := count_lt_of_search hsearch
    omega

/-- What is left when all prompts are blanked out. -/
theorem blanked_blankOutFrom {fuel : Nat} (hfuel : t.count '?' ≤ fuel) : Blanked t (blankOutFrom fuel t) := by
  induction fuel generalizing t with
  | zero => exact .done (search_eq_none (Nat.le_zero.1 hfuel))
  | succ fuel ih =>
    rw [blankOutFrom, firstInBraces?_eq]
    cases hsearch : spanPattern.search t with
    | none => exact .done hsearch
    | some x =>
      obtain ⟨gap, m, rest⟩ := x
      have hlt := count_lt_of_search hsearch
      exact .next hsearch (ih (by omega))

/-! ## What a round keeps -/

/-- An opener of a text that is blank in the middle stands in front of the blanks, with both of its
characters, or behind them. -/
theorem OpensAt.outside (hsource : source ≠ []) (h : OpensAt (gap ++ blanks source ++ rest) p) :
    p + 1 < gap.length ∨ gap.length + source.length ≤ p := by
  have hpos := List.length_pos_iff.2 hsource
  have hblank (q : Nat) (hlow : gap.length ≤ q) (hhigh : q < gap.length + source.length) :
      (gap ++ blanks source ++ rest)[q]? = some ' ' := by
    rw [List.append_assoc, List.getElem?_append_right hlow,
      List.getElem?_append_left (by simp [blanks]; omega), blanks, List.getElem?_replicate,
      if_pos (by omega)]
  by_contra hinside
  rw [not_or, Nat.not_lt, Nat.not_le] at hinside
  by_cases hedge : p + 1 = gap.length
  · -- the brace would be the first blank
    have hbrace := h.2
    rw [hblank (p + 1) (by omega) (by omega)] at hbrace
    cases hbrace
  · have hmark := h.1
    rw [hblank p (by omega) hinside.2] at hmark
    cases hmark

/-- Behind the blanks a round changes nothing. -/
theorem drop_blanked (hp : gap.length + source.length ≤ p) :
    (gap ++ blanks source ++ rest).drop p = (gap ++ (source ++ rest)).drop p := by
  have hdrop (front : Text) (hfront : front.length = gap.length + source.length) :
      (front ++ rest).drop p = rest.drop (p - (gap.length + source.length)) := by
    rw [List.drop_append, List.drop_of_length_le (by omega), List.nil_append, hfront]
  rw [← List.append_assoc, hdrop _ (by simp [blanks]), hdrop _ (by simp)]

theorem opensAt_iff_drop : OpensAt t p ↔ OpensAt (t.drop p) 0 := by
  simp [OpensAt]

/-- An opener that is left after a round stood there before; and it began a tag before only if it still
does. -/
theorem OpensAt.before (hfound : spanPattern.search t = some (gap, m, rest))
    (h : OpensAt (gap ++ blanks m.source ++ rest) p) :
    OpensAt t p ∧ (spanPattern.match? ((gap ++ blanks m.source ++ rest).drop p) = none →
      spanPattern.match? (t.drop p) = none) := by
  obtain ⟨hmatch, ht⟩ := match?_of_search hfound
  obtain ⟨body, hsource⟩ := exists_source hmatch
  have hne : m.source ≠ [] := by simp [hsource]
  rcases h.outside hne with hfront | hbehind
  · constructor
    · rw [← ht]
      rw [List.append_assoc] at h
      simpa only [OpensAt, List.getElem?_append_left hfront,
        List.getElem?_append_left (Nat.lt_of_succ_lt hfront)] using h
    · -- the tag that was taken out was the leftmost one
      exact fun _ => Text.drop_of_leftmost hfound (Nat.lt_of_succ_lt hfront)
  · have hsame : (gap ++ blanks m.source ++ rest).drop p = (gap ++ (m.source ++ rest)).drop p :=
      drop_blanked hbehind
    rw [ht] at hsame
    rw [opensAt_iff_drop, hsame, ← opensAt_iff_drop] at h
    exact ⟨h, fun hnone => hsame ▸ hnone⟩

/-- An opener that is left at the end stands in the text, and no tag begins with it there. -/
theorem Blanked.opensAt (h : Blanked t u) (hp : OpensAt u p) :
    OpensAt t p ∧ spanPattern.match? (t.drop p) = none := by
  induction h with
  | done hnone => exact ⟨hp, Text.drop_of_leftmost_none hnone p⟩
  | next hfound _ ih =>
    obtain ⟨hopens, hnone⟩ := ih hp
    obtain ⟨hbefore, hmatch⟩ := hopens.before hfound
    exact ⟨hbefore, hmatch hnone⟩

/-! ## Offsets -/

/-- Openers are listed with their offsets. -/
theorem mem_openers {offset : Nat} : p ∈ openers offset t ↔ ∃ q, p = offset + q ∧ OpensAt t q := by
  induction t generalizing offset with
  | nil => simp [openers, OpensAt]
  | cons c cs ih =>
    have hhere : OpensAt (c :: cs) 0 ↔ (decide (c = '?') && decide (cs.head? = some '\x7b')) = true := by
      simp [OpensAt, List.head?_eq_getElem?]
    have hlater (q : Nat) : OpensAt (c :: cs) (q + 1) ↔ OpensAt cs q := by simp [OpensAt]
    have hsplit : (∃ q, p = offset + q ∧ OpensAt (c :: cs) q) ↔
        (p = offset ∧ OpensAt (c :: cs) 0) ∨ ∃ q, p = offset + 1 + q ∧ OpensAt cs q := by
      constructor
      · rintro ⟨_ | q, hp, hq⟩
        · exact .inl ⟨hp, hq⟩
        · exact .inr ⟨q, by omega, (hlater q).1 hq⟩
      · rintro (⟨hp, hq⟩ | ⟨q, hp, hq⟩)
        · exact ⟨0, hp, hq⟩
        · exact ⟨q + 1, by omega, (hlater q).2 hq⟩
    rw [hsplit, hhere, ← ih, openers]
    split <;> simp [*]

/-- Openers are listed in order. -/
theorem pairwise_openers (offset : Nat) (t : Text) : (openers offset t).Pairwise (· < ·) := by
  induction t generalizing offset with
  | nil => exact .nil
  | cons c cs ih =>
    rw [openers]
    split
    · refine List.pairwise_cons.2 ⟨fun p hp => ?_, ih (offset + 1)⟩
      obtain ⟨q, rfl, -⟩ := mem_openers.1 hp
      omega
    · exact ih (offset + 1)

/-! ## The openers that are reported -/

/-- The rounds of every document end, and the openers of what is left are reported, each once and from the
left. Each of them is an opener of the document at which no balanced tag begins. -/
theorem unclosed_sound (document : Text) :
    (∃ final, Blanked document final ∧ ∀ p, p ∈ unclosed document ↔ OpensAt final p) ∧
      (unclosed document).Pairwise (· < ·) ∧
      ∀ p ∈ unclosed document, OpensAt document p ∧ spanPattern.match? (document.drop p) = none := by
  have hrun : Blanked document (blankOut document) := blanked_blankOutFrom le_rfl
  have hleft (p : Nat) : p ∈ unclosed document ↔ OpensAt (blankOut document) p := by
    rw [unclosed, mem_openers]
    simp
  refine ⟨⟨blankOut document, hrun, hleft⟩, pairwise_openers 0 _, fun p hp => ?_⟩
  exact hrun.opensAt ((hleft p).1 hp)

/-- A tag inside of another one that is balanced without it, an opener in actor data, and two openers that
are never closed. -/
theorem unclosed_sound_nested :
    let document := "?\x7ba|?\x7bb\x7d\x7d ?\x7bc ?\x7bd|\x7b\x7b?\x7be\x7d\x7d\x7d ?\x7bf".toList
    10 ∈ unclosed document ∧ OpensAt document 10 ∧ spanPattern.match? (document.drop 10) = none := by
  intro document
  have hreported : unclosed document = [10, 27] := by decide +kernel
  have hmem : 10 ∈ unclosed document := by simp [hreported]
  exact ⟨hmem, (unclosed_sound document).2.2 10 hmem⟩

end Diagnostics

end TabletopChat
