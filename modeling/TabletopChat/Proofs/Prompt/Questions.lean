import TabletopChat.Proofs.Prompt.Atoms

/-!
# Proofs/Prompt/Questions — the form of prompt tags

The query, the choices and the fallback of a prompt tag are a regular pattern over atoms. The pattern
leaves a choice open in one place only, where the choices end and the fallback begins, and there it takes
as many choices as it can. So it finds in the atoms of a tag what the reader of tags finds.

- `Atom.joined`    : segments with bars between them
- `bodyPattern`    : the form of what follows the head of a tag
- `run_body`       : what the groups of the form take
- `run_body_of_unclosed` : without a closing brace behind the atoms there is no tag
-/

namespace TabletopChat

namespace Prompt

open Regex

/-! ## Segments -/

def inSegment (c : Char) : Bool := c ≠ '|' && noBrace c

/-- A character of a label: no comma, either. -/
def inLabel (c : Char) : Bool := c ≠ ',' && inSegment c

theorem braceless_inSegment : Braceless inSegment := ⟨by decide, by decide⟩

theorem braceless_inLabel : Braceless inLabel := ⟨by decide, by decide⟩

namespace Atom

def barred (ss : List (List Atom)) : List Atom := ss.flatMap fun s => .plain '|' :: s

def joined : List (List Atom) → List Atom
  | [] => []
  | s :: ss => s ++ barred ss

theorem barred_append (ss us : List (List Atom)) : barred (ss ++ us) = barred ss ++ barred us :=
  List.flatMap_append

theorem joined_append {ss us : List (List Atom)} (h : ss ≠ []) :
    joined (ss ++ us) = joined ss ++ barred us := by
  cases ss with
  | nil => exact absurd rfl h
  | cons s ss => simp [joined, barred_append]

/-- There is at least one segment. -/
theorem segments_ne_nil (as : List Atom) : segments as ≠ [] := by
  cases as with
  | nil => exact List.cons_ne_nil _ _
  | cons a as =>
    unfold segments
    split
    · exact List.cons_ne_nil _ _
    · split <;> exact List.cons_ne_nil _ _

/-- Segments that were cut are joined again. -/
theorem joined_segments (as : List Atom) : joined (segments as) = as := by
  induction as with
  | nil => rfl
  | cons a as ih =>
    unfold segments
    split
    · rename_i hbar
      cases hseg : segments as with
      | nil => exact absurd hseg (segments_ne_nil as)
      | cons s ss =>
        rw [hseg] at ih
        simpa [joined, barred, hbar] using ih
    · split
      · rename_i hseg
        exact absurd hseg (segments_ne_nil as)
      · rename_i s ss hseg
        rw [hseg] at ih
        simpa [joined] using ih

/-- The text of joined segments has bars between them. -/
theorem sourceOf_joined (ss : List (List Atom)) : sourceOf (joined ss) = sourceOfSegments ss := by
  cases ss with
  | nil => rfl
  | cons s ss =>
    induction ss generalizing s with
    | nil => simp [joined, barred, sourceOfSegments, Text.joinWith]
    | cons u us ih =>
      have hrest := ih u
      simp only [joined, barred, List.flatMap_cons, sourceOfSegments, List.map_cons, Text.joinWith,
        sourceOf_append, sourceOf_cons] at hrest ⊢
      simp [← hrest, source]

/-- No bar is in a segment. -/
theorem bar_not_mem_segments {as s : List Atom} (h : s ∈ segments as) : Atom.plain '|' ∉ s := by
  induction as generalizing s with
  | nil => simp_all [segments]
  | cons a as ih =>
    unfold segments at h
    split at h
    · rcases List.mem_cons.1 h with rfl | h
      · exact List.not_mem_nil
      · exact ih h
    · rename_i hbar
      split at h
      · rw [List.mem_singleton] at h
        simp [h, Ne.symm hbar]
      · rename_i u us hseg
        rcases List.mem_cons.1 h with rfl | h
        · have hu := ih (hseg ▸ List.mem_cons_self)
          simp [Ne.symm hbar, hu]
        · exact ih (hseg ▸ List.mem_cons_of_mem u h)

/-- Without a bar there is one segment. -/
theorem segments_eq_single {s : List Atom} (h : Atom.plain '|' ∉ s) : segments s = [s] := by
  induction s with
  | nil => rfl
  | cons a as ih =>
      rw [List.mem_cons, not_or] at h
      rw [segments, if_neg (Ne.symm h.1), ih h.2]

/-- A segment ends at the first bar. -/
theorem segments_append {s : List Atom} (h : Atom.plain '|' ∉ s) (as : List Atom) :
    segments (s ++ .plain '|' :: as) = s :: segments as := by
  induction s with
  | nil => rw [List.nil_append, segments, if_pos rfl]
  | cons a s ih =>
      rw [List.mem_cons, not_or] at h
      rw [List.cons_append, segments, if_neg (Ne.symm h.1), ih h.2]

/-- Segments that are joined by bars which they do not hold are cut there. -/
theorem segments_joined {s : List Atom} {ss : List (List Atom)} (h : ∀ u ∈ s :: ss, Atom.plain '|' ∉ u) :
    segments (joined (s :: ss)) = s :: ss := by
  induction ss generalizing s with
  | nil =>
      rw [joined, barred, List.flatMap_nil, List.append_nil]
      exact segments_eq_single (h s List.mem_cons_self)
  | cons u us ih =>
      rw [List.forall_mem_cons] at h
      have hjoined : joined (s :: u :: us) = s ++ .plain '|' :: joined (u :: us) := by
        simp [joined, barred]
      rw [hjoined, segments_append h.1, ih h.2]

theorem bar_not_mem_of_all {s : List Atom} (h : All inSegment s) : Atom.plain '|' ∉ s := by
  intro hbar
  have hin := (h _ hbar).2
  exact absurd hin (by decide)

/-- The atoms of segments are neither braces nor bars. -/
theorem all_inSegment {as s : List Atom} (has : ∀ a ∈ as, a.Written) (hs : s ∈ segments as) :
    All inSegment s := by
  intro a ha
  have hwritten := has a (mem_of_segments hs ha)
  refine ⟨hwritten, ?_⟩
  cases a with
  | actor name => rfl
  | plain c =>
    have hbar : c ≠ '|' := fun h => bar_not_mem_segments hs (h ▸ ha)
    have hbrace : noBrace c = true := hwritten.in_noBrace
    simp [In, inSegment, hbar, hbrace]

end Atom

variable {β : Type} {k : Follow β} {g : Groups}

/-! ## Choices -/

def choicePattern : Regex :=
  .row [.several (atomOf inLabel), .sign ',', .several (atomOf inSegment)]

/-- Where a segment ends, no label goes on. -/
theorem after?_inLabel {t : Text} (h : Atom.after? inSegment t = none) : Atom.after? inLabel t = none := by
  unfold Atom.after? at h ⊢
  cases hfirst : Atom.first? t with
  | none => rfl
  | some x =>
    rcases x with ⟨a, rest⟩
    rw [hfirst] at h
    cases a with
    | actor name => simp [Atom.In] at h
    | plain c =>
      have hc : ¬ inSegment c = true := fun hc => by simp [Atom.In, hc] at h
      simp [Atom.In, inLabel, hc]

/-- Where a segment ends, none of its characters follows. -/
theorem head?_ne_of_after? {c : Char} (hc : inSegment c = true) {t : Text}
    (h : Atom.after? inSegment t = none) : t.head? ≠ some c := by
  intro hhead
  rcases List.head?_eq_some_iff.1 hhead with ⟨u, rfl⟩
  have hwritten : (Atom.plain c).Written := by
    simp only [inSegment, noBrace, Bool.and_eq_true, decide_eq_true_eq] at hc
    exact hc.2
  have hafter := Atom.after?_append (p := inSegment) hwritten hc u
  rw [show (Atom.plain c).source ++ u = c :: u from rfl, h] at hafter
  cases hafter

theorem after?_bar (t : Text) : Atom.after? inSegment ('|' :: t) = none := by
  simp [Atom.after?, Atom.first?, Atom.In, inSegment]

/-- The label of a choice ends at the first comma. -/
theorem run_choice {label : List Atom} (hlabel : Atom.All inLabel label) {tail : Text}
    (htail : Atom.after? inLabel tail = none) :
    choicePattern.run k (Atom.sourceOf label ++ tail) g =
      if label = [] then none else (sign ',').run ((several (atomOf inSegment)).run k) tail g := by
  have hstuck : Stuck (Atom.after? inLabel) ((sign ',').run ((several (atomOf inSegment)).run k)) :=
    (fitsOnly_sign ',' _).stuck (by simp [Atom.after?, Atom.first?, Atom.In, inLabel])
  rw [choicePattern, run_row_cons]
  exact run_several_atoms braceless_inLabel hstuck hlabel htail

/-- A segment without a comma is no item. -/
theorem isItem_of_no_comma {s : List Atom} (h : ∀ a ∈ s, decide (a ≠ Atom.plain ',') = true) :
    isItem s = false := by
  have hcut := takeWhile_dropWhile_append (t := []) h (by simp)
  rw [List.append_nil] at hcut
  unfold isItem
  rw [List.span_eq_takeWhile_dropWhile, hcut.1, hcut.2]
  cases s <;> rfl

theorem isItem_append {label value : List Atom} (h : ∀ a ∈ label, decide (a ≠ Atom.plain ',') = true) :
    isItem (label ++ .plain ',' :: value) = true ↔ label ≠ [] ∧ value ≠ [] := by
  have hcut := takeWhile_dropWhile_append (t := Atom.plain ',' :: value) h (by simp)
  unfold isItem
  rw [List.span_eq_takeWhile_dropWhile, hcut.1, hcut.2]
  cases label <;> cases value <;> simp

/-- A segment is a label, or a label, a comma and a value. -/
theorem segment_cases {s : List Atom} (hs : Atom.All inSegment s) :
    ∃ label, Atom.All inLabel label ∧ ((s = label ∧ isItem s = false) ∨
      ∃ value, s = label ++ .plain ',' :: value ∧ Atom.All inSegment value ∧
        (isItem s = true ↔ label ≠ [] ∧ value ≠ [])) := by
  rcases exists_cut (fun a => decide (a ≠ Atom.plain ',')) s with ⟨label, tail, rfl, hlabel, htail⟩
  refine ⟨label, fun a ha => ?_, ?_⟩
  -- up to its first comma a segment is a label
  · have hmem := hs a (List.mem_append_left tail ha)
    have hcomma : a ≠ .plain ',' := of_decide_eq_true (hlabel a ha)
    refine ⟨hmem.1, ?_⟩
    cases a with
    | actor name => rfl
    | plain c =>
      have hc : c ≠ ',' := fun h => hcomma (h ▸ rfl)
      have hin : inSegment c = true := hmem.2
      simp [Atom.In, inLabel, hc, hin]
  · cases tail with
    | nil => exact .inl ⟨List.append_nil label, by rw [List.append_nil]; exact isItem_of_no_comma hlabel⟩
    | cons b value =>
      have hb : b = .plain ',' := by simpa using htail b rfl
      rw [hb]
      refine .inr ⟨value, rfl, fun a ha => hs a ?_, isItem_append hlabel⟩
      exact List.mem_append_right label (List.mem_cons_of_mem b ha)

theorem Atom.after?_sourceOf_comma (p : Char → Bool) (hp : p ',' = false) (as : List Atom) (tail : Text) :
    Atom.after? p (Atom.sourceOf (.plain ',' :: as) ++ tail) = none := by
  simp [Atom.sourceOf_cons, Atom.source, Atom.after?, Atom.first?, Atom.In, hp]

/-- A segment that is no choice is not taken for one. -/
theorem run_choice_of_not {s : List Atom} (hs : Atom.All inSegment s) (hitem : isItem s = false)
    {tail : Text} (htail : Atom.after? inSegment tail = none) :
    choicePattern.run k (Atom.sourceOf s ++ tail) g = none := by
  rcases segment_cases hs with ⟨label, hlabel, ⟨rfl, -⟩ | ⟨value, rfl, hvalue, hiff⟩⟩
  · rw [run_choice hlabel (after?_inLabel htail),
      run_sign_of_ne (head?_ne_of_after? (by decide) htail), ite_self]
  · have hparts : label = [] ∨ value = [] := by
      by_contra hnot
      rw [not_or] at hnot
      rw [hiff.2 hnot] at hitem
      cases hitem
    rw [Atom.sourceOf_append, List.append_assoc,
      run_choice hlabel (Atom.after?_sourceOf_comma _ (by decide) _ _)]
    rcases hparts with rfl | rfl
    · rfl
    · -- behind the comma there is no value
      have hvalue : (several (atomOf inSegment)).run k tail g = none := by
        rw [run_several, takes_atomOf braceless_inSegment, htail]
        rfl
      have hcomma : Atom.sourceOf [.plain ','] ++ tail = ',' :: tail := rfl
      rw [hcomma, run_sign_cons, hvalue, ite_self]

/-- A segment that is a choice is taken for one if the rest fits. -/
theorem run_choice_of_item {s : List Atom} (hs : Atom.All inSegment s) (hitem : isItem s = true)
    {tail : Text} (htail : Atom.after? inSegment tail = none) {x : β} (hk : k tail g = some x) :
    choicePattern.run k (Atom.sourceOf s ++ tail) g = some x := by
  rcases segment_cases hs with ⟨label, hlabel, ⟨rfl, hnot⟩ | ⟨value, rfl, hvalue, hiff⟩⟩
  · rw [hnot] at hitem
    cases hitem
  · rcases hiff.1 hitem with ⟨hlabelne, hvaluene⟩
    have hcomma : Atom.sourceOf (.plain ',' :: value) ++ tail = ',' :: (Atom.sourceOf value ++ tail) := rfl
    rw [Atom.sourceOf_append, List.append_assoc,
      run_choice hlabel (Atom.after?_sourceOf_comma _ (by decide) _ _), if_neg hlabelne, hcomma,
      run_sign_cons]
    exact run_several_atoms_of_some braceless_inSegment hvaluene hvalue htail hk

def moreChoices : Regex := .many (.row [.sign '|', choicePattern])

variable {e : Text}

/-- Where a segment ends, there is a bar or no atom. -/
theorem after?_barred (he : Atom.first? e = none) (ss : List (List Atom)) :
    Atom.after? inSegment (Atom.sourceOf (Atom.barred ss) ++ e) = none := by
  cases ss with
  | nil => exact Atom.after?_eq_none he
  | cons s ss => exact after?_bar _

theorem Atom.sourceOf_barred_cons (s : List Atom) (ss : List (List Atom)) (e : Text) :
    Atom.sourceOf (Atom.barred (s :: ss)) ++ e =
      '|' :: (Atom.sourceOf s ++ (Atom.sourceOf (Atom.barred ss) ++ e)) := by
  simp [Atom.barred, Atom.sourceOf_cons, Atom.sourceOf_append, Atom.source]

/-- Each segment takes a character at least. -/
theorem Atom.length_le_barred (ss : List (List Atom)) (e : Text) :
    ss.length ≤ (Atom.sourceOf (Atom.barred ss) ++ e).length := by
  induction ss with
  | nil => exact Nat.zero_le _
  | cons s ss ih =>
    rw [Atom.sourceOf_barred_cons]
    simp only [List.length_cons, List.length_append] at ih ⊢
    omega

/-- What is no atom is the end of a text, or begins with a brace. -/
theorem head?_ne_of_first? {c : Char} (hc : noBrace c = true) (he : Atom.first? e = none) :
    e.head? ≠ some c := by
  intro hhead
  rcases List.head?_eq_some_iff.1 hhead with ⟨u, rfl⟩
  simp only [noBrace, Bool.and_eq_true, decide_eq_true_eq] at hc
  simp [Atom.first?, hc.1, hc.2] at he

/-- As many segments as are choices are taken, if the rest fits. -/
theorem run_moreChoices {ss : List (List Atom)} (hss : ∀ s ∈ ss, Atom.All inSegment s)
    (he : Atom.first? e = none) {x : β}
    (hk : k (Atom.sourceOf (Atom.barred (ss.dropWhile isItem)) ++ e) g = some x) :
    moreChoices.run k (Atom.sourceOf (Atom.barred ss) ++ e) g = some x := by
  -- the bound on the rounds is the length of the text; any number that is not below that of the segments does
  have hrepeated (fuel : Nat) (ss : List (List Atom)) (hss : ∀ s ∈ ss, Atom.All inSegment s)
      (hfuel : ss.length ≤ fuel)
      (hk : k (Atom.sourceOf (Atom.barred (ss.dropWhile isItem)) ++ e) g = some x) :
      Regex.repeated (row [sign '|', choicePattern]).run k fuel
        (Atom.sourceOf (Atom.barred ss) ++ e) g = some x := by
    induction fuel generalizing ss with
    | zero =>
      rw [List.length_eq_zero_iff.1 (Nat.le_zero.1 hfuel)] at hk ⊢
      exact hk
    | succ fuel ih =>
      rw [repeated_succ]
      cases ss with
      | nil =>
        have hend : (Atom.sourceOf (Atom.barred []) ++ e).head? ≠ some '|' :=
          head?_ne_of_first? (by decide) he
        rw [run_row_cons, run_sign_of_ne hend]
        exact hk
      | cons s ss =>
        have hs := hss s List.mem_cons_self
        have hmore : ∀ u ∈ ss, Atom.All inSegment u := fun u hu => hss u (List.mem_cons_of_mem s hu)
        rw [Atom.sourceOf_barred_cons, run_row_cons, run_sign_cons, run_row_cons, run_row_nil]
        cases hitem : isItem s with
        | false =>
          rw [run_choice_of_not hs hitem (after?_barred he ss), Option.none_or]
          rw [List.dropWhile_cons_of_neg (by simp [hitem]), Atom.sourceOf_barred_cons] at hk
          exact hk
        | true =>
          rw [List.dropWhile_cons_of_pos hitem] at hk
          rw [run_choice_of_item hs hitem (after?_barred he ss)
            (ih ss hmore (Nat.le_of_succ_le_succ hfuel) hk), Option.some_or]
  exact hrepeated _ ss hss (Atom.length_le_barred ss e) hk

/-! ## The parts behind the query -/

def choicesPart : Regex :=
  .maybe (.group "options".toList (.row [choicePattern, moreChoices, .maybe (.sign '|')]))

def fallbackPart : Regex := .maybe (.group "default".toList (.several (atomOf noBrace)))

def choiceGroups (items others : List (List Atom)) : Groups :=
  if items = [] then []
  else [("options".toList, Atom.sourceOfSegments items ++ if others = [] then [] else ['|'])]

def fallbackGroups (others : List (List Atom)) : Groups :=
  if Atom.joined others = [] then [] else [("default".toList, Atom.sourceOfSegments others)]

def Accepts (e : Text) (k : Follow β) : Prop :=
  ∀ as g, (∀ a ∈ as, a.Written) → ∃ x, k (Atom.sourceOf as ++ e) g = some x

/-- Joined segments are written atoms. -/
theorem Atom.written_joined {ss : List (List Atom)} (hss : ∀ s ∈ ss, Atom.All inSegment s) :
    ∀ a ∈ Atom.joined ss, a.Written := by
  cases ss with
  | nil => exact List.forall_mem_nil _
  | cons s ss =>
    intro a ha
    rcases List.mem_append.1 ha with ha | ha
    · exact (hss s List.mem_cons_self a ha).1
    · rcases List.mem_flatMap.1 ha with ⟨u, hu, hau⟩
      rcases List.mem_cons.1 hau with rfl | hau
      · exact ⟨by decide, by decide⟩
      · exact (hss u (List.mem_cons_of_mem s hu) a hau).1

/-- The bar behind the choices belongs to them if anything follows. -/
theorem run_choicesEnd {items others : List (List Atom)} (he : Atom.first? e = none) {x : β}
    (hk : k (Atom.sourceOf (Atom.joined others) ++ e)
      (("options".toList, Atom.sourceOfSegments items ++ if others = [] then [] else ['|']) :: g) = some x) :
    (Regex.maybe (.sign '|')).run
      (fun rest h => k rest (("options".toList,
        (Atom.sourceOfSegments items ++ (Atom.sourceOf (Atom.barred others) ++ e)).take
          ((Atom.sourceOfSegments items ++ (Atom.sourceOf (Atom.barred others) ++ e)).length -
            rest.length)) :: h))
      (Atom.sourceOf (Atom.barred others) ++ e) g = some x := by
  rw [run_maybe]
  cases others with
  | nil =>
    -- nothing stands behind the choices, and the bar is left out
    have hend : (Atom.sourceOf (Atom.barred []) ++ e).head? ≠ some '|' :=
      head?_ne_of_first? (by decide) he
    rw [run_sign_of_ne hend, Option.none_or]
    simpa [Atom.barred, Atom.joined, Atom.sourceOf] using hk
  | cons o os =>
    -- the bar behind the choices is taken into their group
    have htake : (Atom.sourceOfSegments items ++ ['|']) ++ (Atom.sourceOf (Atom.joined (o :: os)) ++ e) =
        Atom.sourceOfSegments items ++ (Atom.sourceOf (Atom.barred (o :: os)) ++ e) := by
      simp [Atom.sourceOf_barred_cons, Atom.joined, Atom.sourceOf_append]
    have hrest : Atom.sourceOf o ++ (Atom.sourceOf (Atom.barred os) ++ e) =
        Atom.sourceOf (Atom.joined (o :: os)) ++ e := by simp [Atom.joined, Atom.sourceOf_append]
    rw [← htake, Atom.sourceOf_barred_cons, run_sign_cons, hrest, List.length_append,
      Nat.add_sub_cancel, List.take_left]
    rw [if_neg (List.cons_ne_nil o os)] at hk
    rw [hk, Option.some_or]

/-- The choices are the longest row of segments that are choices. -/
theorem run_choicesPart {ss : List (List Atom)} (hss : ∀ s ∈ ss, Atom.All inSegment s) (hne : ss ≠ [])
    (he : Atom.first? e = none) (hk : Accepts e k) :
    choicesPart.run k (Atom.sourceOf (Atom.joined ss) ++ e) g =
      k (Atom.sourceOf (Atom.joined (ss.dropWhile isItem)) ++ e)
        (choiceGroups (ss.takeWhile isItem) (ss.dropWhile isItem) ++ g) := by
  rcases ss with _ | ⟨s, ss⟩
  · exact absurd rfl hne
  · have hs := hss s List.mem_cons_self
    have hmore : ∀ u ∈ ss, Atom.All inSegment u := fun u hu => hss u (List.mem_cons_of_mem s hu)
    have hsource : Atom.sourceOf (Atom.joined (s :: ss)) ++ e =
        Atom.sourceOf s ++ (Atom.sourceOf (Atom.barred ss) ++ e) := by
      simp [Atom.joined, Atom.sourceOf_append]
    cases hitem : isItem s with
    | false =>
      rw [List.takeWhile_cons_of_neg (by simp [hitem]), List.dropWhile_cons_of_neg (by simp [hitem]),
        choicesPart, run_maybe, run_group, run_row_cons, hsource,
        run_choice_of_not hs hitem (after?_barred he ss), Option.none_or]
      rfl
    | true =>
      rw [List.takeWhile_cons_of_pos hitem, List.dropWhile_cons_of_pos hitem]
      have hothers : ∀ u ∈ ss.dropWhile isItem, Atom.All inSegment u :=
        fun u hu => hmore u ((List.dropWhile_suffix _).subset hu)
      rcases hk (Atom.joined (ss.dropWhile isItem))
        (choiceGroups (s :: ss.takeWhile isItem) (ss.dropWhile isItem) ++ g)
        (Atom.written_joined hothers) with ⟨x, hx⟩
      -- the choices, and what follows them
      have htext : Atom.sourceOf (Atom.joined (s :: ss)) ++ e =
          Atom.sourceOfSegments (s :: ss.takeWhile isItem) ++
            (Atom.sourceOf (Atom.barred (ss.dropWhile isItem)) ++ e) := by
        rw [← Atom.sourceOf_joined, ← List.append_assoc, ← Atom.sourceOf_append,
          ← Atom.joined_append (List.cons_ne_nil _ _), List.cons_append,
          List.takeWhile_append_dropWhile]
      have hend := run_choicesEnd (g := g) he hx
      rw [← htext] at hend
      have hchoices := run_choice_of_item hs hitem (after?_barred he ss) (run_moreChoices hmore he hend)
      rw [← hsource] at hchoices
      rw [hx, choicesPart, run_maybe, run_group, run_row_cons, run_row_cons, run_row_cons, run_row_nil,
        hchoices, Option.some_or]

/-! ## The body of a tag -/

/-- What follows the head of a tag: a query, and behind a bar choices and a fallback. -/
def bodyPattern : Regex :=
  .row [.group "query".toList (.several (atomOf inSegment)), .maybe (.row [.sign '|', choicesPart, fallbackPart]),
    .sign '\x7d']

def bodyGroups (query : List Atom) (parts : List (List Atom)) : Groups :=
  fallbackGroups (parts.dropWhile isItem) ++
    (choiceGroups (parts.takeWhile isItem) (parts.dropWhile isItem) ++
      [("query".toList, Atom.sourceOf query)])

/-- The parts behind the query, if there are any. -/
theorem run_parts {parts : List (List Atom)} (hparts : ∀ s ∈ parts, Atom.All inSegment s) {after : Text}
    (hk : ∀ h, ∃ x, k after h = some x) :
    (Regex.maybe (.row [.sign '|', choicesPart, fallbackPart])).run ((sign '\x7d').run k)
        (Atom.sourceOf (Atom.barred parts) ++ '\x7d' :: after) g =
      k after (fallbackGroups (parts.dropWhile isItem) ++
        (choiceGroups (parts.takeWhile isItem) (parts.dropWhile isItem) ++ g)) := by
  have he : Atom.first? ('\x7d' :: after) = none := by simp [Atom.first?]
  have hclose : FitsOnly ['\x7d'] ((sign '\x7d').run k) := fitsOnly_sign _ _
  -- the fallback takes all that is left, whatever it is, so the choices need not give anything back
  have hfallback (as : List Atom) (h : Groups) (has : ∀ a ∈ as, a.Written) :
      fallbackPart.run ((sign '\x7d').run k) (Atom.sourceOf as ++ '\x7d' :: after) h =
        k after (if as = [] then h else ("default".toList, Atom.sourceOf as) :: h) := by
    rw [fallbackPart, run_maybe_atoms _ hclose has he, run_sign_cons]
  cases parts with
  | nil =>
    have hsource : Atom.sourceOf (Atom.barred []) ++ '\x7d' :: after = '\x7d' :: after := rfl
    rw [hsource, run_maybe_of_ne (by simp), run_sign_cons]
    rfl
  | cons s ss =>
    have haccepts : Accepts ('\x7d' :: after) (fallbackPart.run ((sign '\x7d').run k)) := by
      intro as h has
      rw [hfallback as h has]
      exact hk _
    have hothers : ∀ u ∈ (s :: ss).dropWhile isItem, Atom.All inSegment u :=
      fun u hu => hparts u ((List.dropWhile_suffix _).subset hu)
    have hjoined : Atom.sourceOf s ++ (Atom.sourceOf (Atom.barred ss) ++ '\x7d' :: after) =
        Atom.sourceOf (Atom.joined (s :: ss)) ++ '\x7d' :: after := by
      simp [Atom.joined, Atom.sourceOf_append]
    rw [Atom.sourceOf_barred_cons, run_maybe_cons, run_sign_of_ne (by simp), Option.or_none, run_row_cons,
      run_row_cons, run_row_nil, hjoined, run_choicesPart hparts (List.cons_ne_nil s ss) he haccepts,
      hfallback _ _ (Atom.written_joined hothers), fallbackGroups, ← Atom.sourceOf_joined]
    split <;> rfl

/-- The groups of a body take the segments of its atoms. -/
theorem run_body {as : List Atom} (has : ∀ a ∈ as, a.Written) {after : Text}
    (hk : ∀ h, ∃ x, k after h = some x) :
    bodyPattern.run k (Atom.sourceOf as ++ '\x7d' :: after) g =
      match Atom.segments as with
      | (q :: query) :: parts => k after (bodyGroups (q :: query) parts ++ g)
      | _ => none := by
  have hsegments : ∀ s ∈ Atom.segments as, Atom.All inSegment s := fun s hs => Atom.all_inSegment has hs
  rcases hseg : Atom.segments as with _ | ⟨query, parts⟩
  · exact absurd hseg (Atom.segments_ne_nil as)
  · rw [hseg] at hsegments
    have hparts : ∀ s ∈ parts, Atom.All inSegment s := fun s hs => hsegments s (List.mem_cons_of_mem query hs)
    -- the atoms of a tag are its query and, each behind a bar, its parts
    have hatoms : Atom.sourceOf as ++ '\x7d' :: after =
        Atom.sourceOf query ++ (Atom.sourceOf (Atom.barred parts) ++ '\x7d' :: after) := by
      rw [← Atom.joined_segments as, hseg]
      simp [Atom.joined, Atom.sourceOf_append]
    have hstuck : Stuck (Atom.after? inSegment)
        ((Regex.maybe (.row [.sign '|', choicesPart, fallbackPart])).run ((sign '\x7d').run k)) :=
      ((fitsOnly_sign '\x7d' k).maybe '|' _).stuck (by simp [Atom.after?, Atom.first?, Atom.In, inSegment])
    rw [bodyPattern, run_row_cons, hatoms, run_row_cons, run_row_cons, run_row_nil,
      run_group_atoms _ braceless_inSegment hstuck (hsegments query List.mem_cons_self)
        (after?_barred (by simp [Atom.first?]) parts)]
    cases query with
    | nil => rfl
    | cons q query =>
      rw [if_neg (List.cons_ne_nil q query), run_parts hparts hk]
      simp [bodyGroups]

/-! ## Atoms that no brace closes -/

/-- What follows fits no atoms in front of an end. -/
def Refuses (e : Text) (k : Follow β) : Prop :=
  ∀ as g, (∀ a ∈ as, a.Written) → k (Atom.sourceOf as ++ e) g = none

/-- A pattern takes whole atoms, so what fits behind none of them does not fit behind the pattern. -/
def TakesAtoms (a : Regex) : Prop :=
  ∀ {β : Type} {k : Follow β} {e : Text}, Atom.first? e = none → Refuses e k → Refuses e (a.run k)

/-- Atoms are taken as a whole. -/
theorem takesAtoms_atomOf {p : Char → Bool} (hp : Braceless p) : TakesAtoms (atomOf p) := by
  intro β k e he hk as g has
  rw [takes_atomOf hp]
  cases as with
  | nil =>
    rw [show Atom.sourceOf [] ++ e = e from rfl, Atom.after?_eq_none he]
    rfl
  | cons a as =>
    rw [Atom.sourceOf_cons, List.append_assoc, Atom.after?,
      Atom.first?_append (has a List.mem_cons_self), Option.bind_some]
    by_cases ha : a.In p = true
    · simp only [ha, if_true, Option.bind_some]
      exact hk as g fun b hb => has b (List.mem_cons_of_mem a hb)
    · simp [ha]

theorem takesAtoms_char {p : Char → Bool} (hp : Braceless p) : TakesAtoms (char p) := by
  intro β k e he hk as g has
  rw [takes_char]
  -- a character of a class without braces is an atom
  have hatom (c : Char) (u : Text) (hc : p c = true) : Atom.first? (c :: u) = some (.plain c, u) := by
    have hopen : c ≠ '\x7b' := fun h => by rw [h, hp.1] at hc; cases hc
    have hclose : c ≠ '\x7d' := fun h => by rw [h, hp.2] at hc; cases hc
    exact Atom.first?_append (a := .plain c) ⟨hopen, hclose⟩ u
  rcases hsource : Atom.sourceOf as ++ e with _ | ⟨c, u⟩
  · rfl
  · by_cases hc : p c = true
    · rw [oneOf, if_pos hc, Option.bind_some]
      have hfirst := hatom c u hc
      rw [← hsource] at hfirst
      cases as with
      | nil =>
        rw [show Atom.sourceOf [] ++ e = e from rfl, he] at hfirst
        cases hfirst
      | cons a as =>
        rw [Atom.sourceOf_cons, List.append_assoc, Atom.first?_append (has a List.mem_cons_self)] at hfirst
        cases hfirst
        exact hk as g fun b hb => has b (List.mem_cons_of_mem _ hb)
    · rw [oneOf, if_neg hc]
      rfl

theorem takesAtoms_row {ps : List Regex} (h : ∀ p ∈ ps, TakesAtoms p) : TakesAtoms (row ps) := by
  induction ps with
  | nil => exact fun _ hk => hk
  | cons p ps ih =>
    intro β k e he hk
    have hmore : TakesAtoms (row ps) := ih fun q hq => h q (List.mem_cons_of_mem p hq)
    exact h p List.mem_cons_self he (hmore he hk)

theorem takesAtoms_maybe {p : Regex} (h : TakesAtoms p) : TakesAtoms (Regex.maybe p) := by
  intro β k e he hk as g has
  rw [run_maybe, h he hk as g has, hk as g has]
  rfl

theorem takesAtoms_group {p : Regex} (h : TakesAtoms p) (name : Text) : TakesAtoms (group name p) := by
  intro β k e he hk as g has
  rw [run_group]
  refine h he ?_ as g has
  exact fun bs h' hbs => hk bs _ hbs

/-- Taking many times takes atoms as a whole. -/
theorem takesAtoms_many {p : Regex} (h : TakesAtoms p) : TakesAtoms (many p) := by
  intro β k e he hk as g has
  have hrepeated (fuel : Nat) : Refuses e (Regex.repeated p.run k fuel) := by
    induction fuel with
    | zero => exact hk
    | succ fuel ih =>
      intro bs h' hbs
      rw [repeated_succ, h he ih bs h' hbs, hk bs h' hbs]
      rfl
  exact hrepeated _ as g has

theorem takesAtoms_several {p : Regex} (h : TakesAtoms p) : TakesAtoms (several p) := by
  intro β k e he hk
  exact h he (takesAtoms_many h he hk)

theorem takesAtoms_sign {c : Char} (h : noBrace c = true) : TakesAtoms (sign c) := by
  simp only [noBrace, Bool.and_eq_true, decide_eq_true_eq] at h
  exact takesAtoms_char ⟨decide_eq_false (Ne.symm h.1), decide_eq_false (Ne.symm h.2)⟩

theorem takesAtoms_choice : TakesAtoms choicePattern :=
  takesAtoms_row (by
    simp only [List.forall_mem_cons]
    exact ⟨takesAtoms_several (takesAtoms_atomOf braceless_inLabel), takesAtoms_sign (by decide),
      takesAtoms_several (takesAtoms_atomOf braceless_inSegment), List.forall_mem_nil _⟩)

theorem takesAtoms_choicesPart : TakesAtoms choicesPart :=
  takesAtoms_maybe (takesAtoms_group (takesAtoms_row (by
    simp only [List.forall_mem_cons]
    exact ⟨takesAtoms_choice,
      takesAtoms_many (takesAtoms_row (by
        simp only [List.forall_mem_cons]
        exact ⟨takesAtoms_sign (by decide), takesAtoms_choice, List.forall_mem_nil _⟩)),
      takesAtoms_maybe (takesAtoms_sign (by decide)), List.forall_mem_nil _⟩)) _)

theorem takesAtoms_parts : TakesAtoms (Regex.maybe (.row [.sign '|', choicesPart, fallbackPart])) :=
  takesAtoms_maybe (takesAtoms_row (by
    simp only [List.forall_mem_cons]
    exact ⟨takesAtoms_sign (by decide), takesAtoms_choicesPart,
      takesAtoms_maybe (takesAtoms_group (takesAtoms_several (takesAtoms_atomOf braceless_noBrace)) _),
      List.forall_mem_nil _⟩))

/-- Atoms that no brace closes, or behind whose closing brace nothing fits, are no body. -/
theorem run_body_of_unclosed {as : List Atom} (has : ∀ a ∈ as, a.Written) {e : Text}
    (he : Atom.first? e = none) (hk : ∀ h, (sign '\x7d').run k e h = none) :
    bodyPattern.run k (Atom.sourceOf as ++ e) g = none := by
  have hclose : Refuses e ((sign '\x7d').run k) := by
    intro bs h hbs
    cases bs with
    | nil => exact hk h
    | cons b bs =>
      apply run_sign_of_ne
      intro hhead
      rcases List.head?_eq_some_iff.1 hhead with ⟨u, hu⟩
      have hfirst := Atom.first?_append (hbs b List.mem_cons_self) (Atom.sourceOf bs ++ e)
      rw [← List.append_assoc, ← Atom.sourceOf_cons, hu] at hfirst
      simp [Atom.first?] at hfirst
  have hquery : TakesAtoms (.group "query".toList (.several (atomOf inSegment))) :=
    takesAtoms_group (takesAtoms_several (takesAtoms_atomOf braceless_inSegment)) _
  exact hquery he (takesAtoms_parts he hclose) as g has

end Prompt

end TabletopChat
