import TabletopChat.Proofs.Arithmetic.Boundaries

/-!
# Proofs/Arithmetic/Cuts — what a line is cut into in front of a place

If a line is cut at a form feed or at an opening bracket, then what stands in front of it is cut in the
same way whatever stands there instead, as long as that joins nothing. The exception is a place inside of a
comment, where it does not matter at all what stands there.

- `Skipped`        : what passing over lines that hold nothing but comments comes to
- `LineStep`       : what one step of cutting a line can be
- `CutsTo`         : how the text in front of a place is cut, step by step
- `lineTokens_cut` : what a line is cut into, at a place in it
- `CutsTo.lines`   : the same with something else at the place
-/

namespace TabletopChat

namespace Arithmetic

/-! ## Lines without an expression -/

/-- What begins with a character that ends no line. -/
def Inline (t : Text) : Prop := ∃ c ∈ t.head?, c ≠ '\n'

/-- What a text begins with stays the same in front of another one. -/
theorem exists_head_append {p : Char → Prop} {t : Text} (h : ∃ c ∈ t.head?, p c) (u : Text) :
    ∃ c ∈ (t ++ u).head?, p c := by
  obtain ⟨c, hc, hp⟩ := h
  obtain ⟨cs, rfl⟩ := List.head?_eq_some_iff.1 hc
  exact ⟨c, rfl, hp⟩

theorem Breaks.append {t : Text} (h : Breaks t) (u : Text) : Breaks (t ++ u) := exists_head_append h u

theorem Breaks.inline {t : Text} (h : Breaks t) : Inline t := by
  obtain ⟨c, hc, hbreak⟩ := h
  refine ⟨c, hc, ?_⟩
  rintro rfl
  cases hbreak

theorem Inline.append {t : Text} (h : Inline t) (u : Text) : Inline (t ++ u) := exists_head_append h u

/-- Whether a backslash joins lines does not depend on what stands behind the text, as long as there is something. -/
theorem joinedLine?_append (cs : Text) :
    (∃ more, cs = '\n' :: more ∧ ∀ ⦃x⦄, Inline x → joinedLine? (cs ++ x) = some (more ++ x)) ∨
      ∀ ⦃x⦄, Inline x → joinedLine? (cs ++ x) = none := by
  cases cs with
  | nil =>
      refine .inr fun x hx => ?_
      obtain ⟨c, hc, hline⟩ := hx
      obtain ⟨ds, rfl⟩ := List.head?_eq_some_iff.1 hc
      unfold joinedLine?
      split
      · rename_i heq
        exact absurd (List.cons.inj heq).1 hline
      · rfl
  | cons c cs =>
      by_cases hc : c = '\n'
      · subst hc
        refine .inl ⟨cs, rfl, fun x hx => ?_⟩
        obtain ⟨d, hd, -⟩ := hx
        obtain ⟨ds, rfl⟩ := List.head?_eq_some_iff.1 hd
        cases cs <;> rfl
      · refine .inr fun x _ => ?_
        unfold joinedLine?
        split
        · rename_i heq
          exact absurd (List.cons.inj heq).1 hc
        · rfl

/-- Joining lines only drops characters at the beginning. -/
theorem joinedLine?_suffix {t rest : Text} (h : joinedLine? t = some rest) : rest <:+ t := by
  unfold joinedLine? at h
  split at h
  · cases h
    exact List.suffix_cons _ _
  · cases h

/-- Where a comment ends. -/
theorem dropWhile_comment (cs x : Text) :
    ('\n' ∈ cs ∧ (cs ++ x).dropWhile (· ≠ '\n') = cs.dropWhile (· ≠ '\n') ++ x) ∨
      ('\n' ∉ cs ∧ (cs ++ x).dropWhile (· ≠ '\n') = x.dropWhile (· ≠ '\n')) := by
  by_cases hline : '\n' ∈ cs
  · refine .inl ⟨hline, ?_⟩
    rw [List.dropWhile_append, if_neg]
    intro hempty
    have hall := List.dropWhile_eq_nil_iff.1 (List.isEmpty_iff.1 hempty) _ hline
    simp at hall
  · refine .inr ⟨hline, List.dropWhile_append_of_pos fun c hc => ?_⟩
    simp only [ne_eq, decide_not, Bool.not_eq_true', decide_eq_false_iff_not]
    rintro rfl
    exact hline hc

/-- A comment goes on over everything on its line. -/
theorem dropWhile_in_comment {cs z : Text} (hcs : '\n' ∉ cs) (hz : '\n' ∉ z) (y : Text) :
    (cs ++ (z ++ y)).dropWhile (· ≠ '\n') = y.dropWhile (· ≠ '\n') := by
  obtain ⟨hin, -⟩ | ⟨-, hdrop⟩ := dropWhile_comment (cs ++ z) y
  · rw [List.mem_append] at hin
    exact absurd hin (not_or.2 ⟨hcs, hz⟩)
  · rw [← List.append_assoc, hdrop]

/-- With enough fuel the number of rounds does not matter. -/
theorem skipLines_fuel {fuel fuel' : Nat} {column fixed : Bool} {t : Text} (h : t.length < fuel)
    (h' : t.length < fuel') : skipLines fuel column fixed t = skipLines fuel' column fixed t := by
  induction fuel generalizing fuel' column fixed t with
  | zero => exact absurd h (Nat.not_lt_zero _)
  | succ fuel ih =>
      obtain ⟨n, rfl⟩ : ∃ n, fuel' = n + 1 := ⟨fuel' - 1, by omega⟩
      cases t with
      | nil => rfl
      | cons c cs =>
          rw [List.length_cons] at h h'
          have hsuffix {column fixed : Bool} {rest : Text} (hrest : rest <:+ cs) :
              skipLines fuel column fixed rest = skipLines n column fixed rest := by
            have hlength := hrest.length_le
            exact ih (by omega) (by omega)
          have hjoined : ((joinedLine? cs).bind fun rest => skipLines fuel column (fixed || column) rest) =
              (joinedLine? cs).bind fun rest => skipLines n column (fixed || column) rest :=
            Option.bind_congr fun rest hrest => hsuffix (joinedLine?_suffix hrest)
          simp only [skipLines, hjoined, hsuffix (List.suffix_refl cs), hsuffix (List.dropWhile_suffix _)]

def skip (column fixed : Bool) (t : Text) : Option (Bool × Text) :=
  skipLines (t.length + 1) column fixed t

theorem skipLines_eq_skip {fuel : Nat} {t : Text} (h : t.length < fuel) (column fixed : Bool) :
    skipLines fuel column fixed t = skip column fixed t :=
  skipLines_fuel h (Nat.lt_succ_self _)

/-- One step of skipping, told by the first letter. -/
theorem skip_cons (column fixed : Bool) (c : Char) (cs : Text) :
    skip column fixed (c :: cs) =
      if c = ' ' || c = '\t' then skip true fixed cs
      else if c = '\x0c' then skip false fixed cs
      else if c = '\n' then skip false false cs
      else if c = '#' then skip false false (cs.dropWhile (· ≠ '\n'))
      else if c = '\\' then (joinedLine? cs).bind fun rest => skip column (fixed || column) rest
      else some (column || fixed, c :: cs) := by
  have hsuffix {rest : Text} (hrest : rest <:+ cs) (column fixed : Bool) :
      skipLines (cs.length + 1) column fixed rest = skip column fixed rest :=
    skipLines_eq_skip (Nat.lt_succ_of_le hrest.length_le) column fixed
  have hjoined : ((joinedLine? cs).bind fun rest => skipLines (cs.length + 1) column (fixed || column) rest) =
      (joinedLine? cs).bind fun rest => skip column (fixed || column) rest :=
    Option.bind_congr fun rest hrest => hsuffix (joinedLine?_suffix hrest) _ _
  show skipLines (cs.length + 1 + 1) column fixed (c :: cs) = _
  simp only [skipLines, hjoined, hsuffix (List.suffix_refl cs), hsuffix (List.dropWhile_suffix _)]

/-- What passing over the lines of a text comes to, before it is known what stands behind the text. -/
inductive Skipped
  /-- all of it is passed over -/
  | through (column fixed : Bool)
  /-- something stands there -/
  | stopped (indented : Bool) (left : Text)
  /-- it ends inside of a comment -/
  | commented
  /-- a backslash joins nothing -/
  | broken

def Skipped.Says (column fixed : Bool) (u : Text) : Skipped → Prop
  | through column' fixed' => ∀ ⦃x⦄, Inline x → skip column fixed (u ++ x) = skip column' fixed' x
  | stopped indented left =>
    left ≠ [] ∧ left <:+ u ∧ ∀ ⦃x⦄, Inline x → skip column fixed (u ++ x) = some (indented, left ++ x)
  | commented =>
    '#' ∈ u ∧ ∀ ⦃x⦄, Inline x → '\n' ∉ x → ∀ y,
      skip column fixed (u ++ (x ++ y)) = skip false false (y.dropWhile (· ≠ '\n'))
  | broken => ∀ ⦃x⦄, Inline x → skip column fixed (u ++ x) = none

/-- An outcome stays the same in front of what is passed over first. -/
theorem Skipped.Says.step {column fixed column' fixed' : Bool} {u u' : Text} (hsuffix : u' <:+ u)
    (hstep : ∀ ⦃x⦄, Inline x → skip column fixed (u ++ x) = skip column' fixed' (u' ++ x)) {r : Skipped}
    (h : r.Says column' fixed' u') : r.Says column fixed u := by
  cases r with
  | through _ _ => exact fun x hx => (hstep hx).trans (h hx)
  | stopped _ _ => exact ⟨h.1, h.2.1.trans hsuffix, fun x hx => (hstep hx).trans (h.2.2 hx)⟩
  | commented => exact ⟨hsuffix.mem h.1, fun x hx hline y => (hstep (hx.append y)).trans (h.2 hx hline y)⟩
  | broken => exact fun x hx => (hstep hx).trans (h hx)

/-- Passing over lines has one of these outcomes. By induction on the length of the text. -/
theorem exists_skipped (column fixed : Bool) (u : Text) : ∃ r : Skipped, r.Says column fixed u := by
  induction hlength : u.length using Nat.strongRecOn generalizing column fixed u with
  | _ n ih =>
    cases u with
    | nil => exact ⟨.through column fixed, fun _ _ => rfl⟩
    | cons c cs =>
        have hstep {u' : Text} (column' fixed' : Bool) (hsuffix : u' <:+ cs)
            (heq : ∀ ⦃x⦄, Inline x → skip column fixed (c :: cs ++ x) = skip column' fixed' (u' ++ x)) :
            ∃ r : Skipped, r.Says column fixed (c :: cs) := by
          have hshort : u'.length < n := by
            rw [← hlength, List.length_cons]
            exact Nat.lt_succ_of_le hsuffix.length_le
          obtain ⟨r, hr⟩ := ih _ hshort column' fixed' u' rfl
          exact ⟨r, hr.step (hsuffix.trans (List.suffix_cons c cs)) heq⟩
        -- the order of the cases is that of the tests in skip: a character that passes one is not tried for the next
        by_cases hblank : (decide (c = ' ') || decide (c = '\t')) = true
        · exact hstep true fixed (List.suffix_refl cs) fun x _ => by
            rw [List.cons_append, skip_cons, if_pos hblank]
        by_cases hfeed : c = '\x0c'
        · exact hstep false fixed (List.suffix_refl cs) fun x _ => by
            rw [List.cons_append, skip_cons, if_neg hblank, if_pos hfeed]
        by_cases hline : c = '\n'
        · exact hstep false false (List.suffix_refl cs) fun x _ => by
            rw [List.cons_append, skip_cons, if_neg hblank, if_neg hfeed, if_pos hline]
        by_cases hhash : c = '#'
        · have heq (x : Text) : skip column fixed (c :: cs ++ x) =
              skip false false ((cs ++ x).dropWhile (· ≠ '\n')) := by
            rw [List.cons_append, skip_cons, if_neg hblank, if_neg hfeed, if_neg hline, if_pos hhash]
          by_cases hends : '\n' ∈ cs
          · refine hstep false false (List.dropWhile_suffix (· ≠ '\n')) fun x _ => (heq x).trans ?_
            obtain ⟨-, hdrop⟩ | ⟨hnot, -⟩ := dropWhile_comment cs x
            · rw [hdrop]
            · exact absurd hends hnot
          -- a comment that the text does not end reaches into what follows
          · refine ⟨.commented, hhash ▸ List.mem_cons_self, fun x _ hx y => (heq (x ++ y)).trans ?_⟩
            rw [dropWhile_in_comment hends hx y]
        by_cases hjoin : c = '\\'
        · have heq (x : Text) : skip column fixed (c :: cs ++ x) =
              (joinedLine? (cs ++ x)).bind fun rest => skip column (fixed || column) rest := by
            rw [List.cons_append, skip_cons, if_neg hblank, if_neg hfeed, if_neg hline, if_neg hhash, if_pos hjoin]
          obtain ⟨more, rfl, hjoined⟩ | hnone := joinedLine?_append cs
          · exact hstep column (fixed || column) (List.suffix_cons _ more) fun x hx => by
              rw [heq x, hjoined hx, Option.bind_some]
          · exact ⟨.broken, fun x hx => by rw [heq x, hnone hx, Option.bind_none]⟩
        · refine ⟨.stopped (column || fixed) (c :: cs), List.cons_ne_nil c cs, List.suffix_refl _, fun x _ => ?_⟩
          rw [List.cons_append, skip_cons, if_neg hblank, if_neg hfeed, if_neg hline, if_neg hhash, if_neg hjoin]

/-! ## Lines -/

open Plain (Lines startsToken)

section Steps

variable {depth : Nat} {t : Text} {toks : List Token}

/-- A line that begins with something that is passed over has the tokens of what follows it. -/
theorem lines_step {c : Char} {cs : Text} (hsuffix : t <:+ cs)
    (hstep : ∀ fuel, lineTokens (fuel + 1) depth (c :: cs) = lineTokens fuel depth t) (h : Lines depth t toks) :
    Lines depth (c :: cs) toks := by
  intro fuel hfuel
  obtain ⟨n, rfl⟩ : ∃ n, fuel = n + 1 := ⟨fuel - 1, by omega⟩
  have hlength := hsuffix.length_le
  rw [List.length_cons] at hfuel
  rw [hstep n]
  exact h n (by omega)

theorem lines_comment {cs : Text} (h : Lines depth (cs.dropWhile (· ≠ '\n')) toks) :
    Lines depth ('#' :: cs) toks :=
  lines_step (List.dropWhile_suffix _) (fun _ => rfl) h

theorem lines_joined {cs : Text} (hjoined : joinedLine? cs = some t) (h : Lines depth t toks) :
    Lines depth ('\\' :: cs) toks := by
  refine lines_step (joinedLine?_suffix hjoined) (fun fuel => ?_) h
  show (joinedLine? cs).bind _ = _
  rw [hjoined, Option.bind_some]

theorem lines_newline {cs : Text} (hdepth : depth ≠ 0) (h : Lines depth cs toks) :
    Lines depth ('\n' :: cs) toks := by
  refine lines_step (List.suffix_refl _) (fun fuel => ?_) h
  show (if depth = 0 then _ else _) = _
  rw [if_neg hdepth]

theorem lines_end {cs : Text} {indented : Bool} (h : skip false false cs = some (indented, [])) :
    Lines 0 ('\n' :: cs) [] := by
  intro fuel hfuel
  obtain ⟨n, rfl⟩ : ∃ n, fuel = n + 1 := ⟨fuel - 1, by omega⟩
  unfold skip at h
  rw [lineTokens, if_neg (by decide), if_neg (by decide), if_neg (by decide), if_pos rfl, if_pos rfl, h]

/-- One step of cutting a line: what it passes over, or the token that it finds, and what is cut behind that with less
fuel. -/
inductive LineStep (fuel depth : Nat) : Text → List Token → Prop
  | nil : depth = 0 → LineStep fuel depth [] []
  | gap {c : Char} {cs : Text} {toks : List Token} :
      isGap c = true → lineTokens fuel depth cs = some toks → LineStep fuel depth (c :: cs) toks
  | comment {cs : Text} {toks : List Token} :
      lineTokens fuel depth (cs.dropWhile (· ≠ '\n')) = some toks → LineStep fuel depth ('#' :: cs) toks
  | joined {cs rest : Text} {toks : List Token} :
      joinedLine? cs = some rest → lineTokens fuel depth rest = some toks → LineStep fuel depth ('\\' :: cs) toks
  | finish {cs : Text} {indented : Bool} :
      depth = 0 → skip false false cs = some (indented, []) → LineStep fuel depth ('\n' :: cs) []
  | newline {cs : Text} {toks : List Token} :
      depth ≠ 0 → lineTokens fuel depth cs = some toks → LineStep fuel depth ('\n' :: cs) toks
  | token {c : Char} {cs rest : Text} {tok : Token} {depth' : Nat} {more : List Token} :
      startsToken c = true → token? (c :: cs) = some (tok, rest) → depthAfter depth tok = some depth' →
      lineTokens fuel depth' rest = some more → LineStep fuel depth (c :: cs) (tok :: more)

/-- Each way to go on in a line is one of the listed steps. -/
theorem lineTokens_step {fuel : Nat} (h : lineTokens (fuel + 1) depth t = some toks) : LineStep fuel depth t toks := by
  cases t with
  | nil =>
      rw [lineTokens] at h
      split at h <;> cases h
      exact .nil ‹_›
  | cons c cs =>
      rw [lineTokens] at h
      split at h
      · exact .gap ‹_› h
      rename_i hgap
      split at h
      · rename_i hhash
        exact hhash ▸ .comment h
      rename_i hhash
      split at h
      · rename_i hjoin
        obtain ⟨rest, hjoined, h⟩ := Option.bind_eq_some_iff.1 h
        exact hjoin ▸ .joined hjoined h
      rename_i hjoin
      split at h
      · rename_i hline
        subst hline
        split at h
        · split at h <;> cases h
          exact .finish ‹_› ‹_›
        · exact .newline ‹_› h
      rename_i hline
      -- nothing else is left: a token begins here
      obtain ⟨⟨tok, rest⟩, htok, h⟩ := Option.bind_eq_some_iff.1 h
      obtain ⟨depth', hdepth, h⟩ := Option.bind_eq_some_iff.1 h
      obtain ⟨more, hmore, rfl⟩ := Option.map_eq_some_iff.1 h
      exact .token (by simp [startsToken, hgap, hhash, hjoin, hline]) htok hdepth hmore

/-- What a line is cut into does not depend on how much fuel there is beyond what it takes. -/
theorem lines_of_lineTokens {fuel : Nat} (h : lineTokens fuel depth t = some toks)
    (hparts : ∀ tok ∈ toks, tok.isPart = true) : Lines depth t toks := by
  induction fuel generalizing depth t toks with
  | zero => cases h
  | succ fuel ih =>
      cases lineTokens_step h with
      | nil hdepth => exact hdepth ▸ Plain.lines_nil
      | gap hgap h => exact (ih h hparts).gap hgap
      | comment h => exact lines_comment (ih h hparts)
      | joined hjoined h => exact lines_joined hjoined (ih h hparts)
      | finish hdepth hskip => exact hdepth ▸ lines_end hskip
      | newline hdepth h => exact lines_newline hdepth (ih h hparts)
      | @token c _ _ _ _ _ hstart htok hdepth hmore =>
          -- a part takes at least one character, and what it takes stands in front of the rest
          obtain ⟨htokPart, hmoreParts⟩ := List.forall_mem_cons.1 hparts
          obtain ⟨body, rfl⟩ := token?_shorter htok htokPart
          exact Plain.Lines.token (u := c :: body) ⟨c, rfl, hstart⟩ htok hdepth (ih hmore hmoreParts)

/-- A line that begins with a token is cut behind it. -/
theorem exists_of_lineTokens {fuel : Nat} (hstart : ∃ c ∈ t.head?, startsToken c = true)
    (h : lineTokens fuel depth t = some toks) :
    ∃ fuel' tok rest depth' more, token? t = some (tok, rest) ∧ depthAfter depth tok = some depth' ∧
      lineTokens fuel' depth' rest = some more ∧ toks = tok :: more := by
  obtain ⟨c, hc, hstart⟩ := hstart
  obtain ⟨cs, rfl⟩ := List.head?_eq_some_iff.1 hc
  cases fuel with
  | zero => cases h
  | succ fuel =>
      cases lineTokens_step h with
      | gap hgap => simp [startsToken, hgap] at hstart
      | comment | joined | finish | newline => exact absurd hstart (by decide)
      | token _ htok hdepth hmore => exact ⟨fuel, _, _, _, _, htok, hdepth, hmore, rfl⟩

end Steps

/-! ## In front of a place -/

/-- How `u` is cut in front of `v` at a bracket depth: into which tokens, and how deep the brackets are then. -/
inductive CutsTo (v : Text) : Nat → Text → List Token → Nat → Prop
  | nil {depth : Nat} : CutsTo v depth [] [] depth
  | gap {depth depth' : Nat} {c : Char} {u : Text} {A : List Token} :
      isGap c = true → CutsTo v depth u A depth' → CutsTo v depth (c :: u) A depth'
  | comment {depth depth' : Nat} {u : Text} {A : List Token} :
      '\n' ∈ u → CutsTo v depth (u.dropWhile (· ≠ '\n')) A depth' → CutsTo v depth ('#' :: u) A depth'
  | joined {depth depth' : Nat} {u : Text} {A : List Token} :
      CutsTo v depth u A depth' → CutsTo v depth ('\\' :: '\n' :: u) A depth'
  | newline {depth depth' : Nat} {u : Text} {A : List Token} :
      depth ≠ 0 → CutsTo v depth u A depth' → CutsTo v depth ('\n' :: u) A depth'
  | token {depth depth₁ depth' : Nat} {c : Char} {body left : Text} {tok : Token} {A : List Token} :
      startsToken c = true → tok.isPart = true → token? (c :: (body ++ left) ++ v) = some (tok, left ++ v) →
      depthAfter depth tok = some depth₁ → CutsTo v depth₁ left A depth' →
      CutsTo v depth (c :: (body ++ left)) (tok :: A) depth'

/-- What may stand behind `u` in place of `v`. -/
structure Continues (v u w : Text) : Prop where
  joint : ∃ c ∈ w.head?, isJoint c = true
  point : '.' ∈ u → ∀ c ∈ w.head?, c.isDigit = false
  breaks : Breaks w ∨ ∀ u' tok, u' <:+ u → token? (u' ++ v) = some (tok, v) → tok.isPart = true →
    beginsNumber u' = false ∧ beginsWord u' = false

theorem Breaks.continues {w : Text} (h : Breaks w) (v u : Text) : Continues v u w where
  joint := (h.joins u []).joint
  point := (h.joins u []).point
  breaks := .inl h

section Places

variable {v u w : Text} {depth depth' : Nat} {A B toks : List Token}

theorem Continues.mono {u' : Text} (h : Continues v u w) (hsuffix : u' <:+ u) : Continues v u' w where
  joint := h.joint
  point hmem := h.point (hsuffix.mem hmem)
  breaks := h.breaks.imp id fun hends u'' tok hu'' => hends u'' tok (hu''.trans hsuffix)

theorem Continues.inline (h : Continues v u w) : Inline w := by
  obtain ⟨c, hc, hjoint⟩ := h.joint
  refine ⟨c, hc, ?_⟩
  rintro rfl
  cases hjoint

/-- What goes on in the same way joins what stands in front of it. -/
theorem Continues.joins (h : Continues v u w) {tok : Token} {left : Text} (hpart : tok.isPart = true)
    (htok : token? (u ++ v) = some (tok, left ++ v)) : Joins u left w where
  joint := h.joint
  point := h.point
  breaks hleft := by
    obtain hbreaks | hends := h.breaks
    · exact .inr hbreaks
    · subst hleft
      exact .inl (hends u tok (List.suffix_refl u) htok hpart)

/-- In front of something else the text is cut in the same way. By induction on how it is cut. -/
theorem CutsTo.lines (h : CutsTo v depth u A depth') (hv : Breaks v) (hw : Continues v u w)
    (hlines : Lines depth' w B) : Lines depth (u ++ w) (A ++ B) := by
  induction h with
  | nil => exact hlines
  | gap hgap _ ih => exact (ih (hw.mono (List.suffix_cons _ _)) hlines).gap hgap
  | @comment _ _ u _ hline _ ih =>
      -- a comment reaches up to its line end, which is in the front
      obtain ⟨-, hdrop⟩ | ⟨hnot, -⟩ := dropWhile_comment u w
      · rw [List.cons_append]
        refine lines_comment ?_
        rw [hdrop]
        exact ih (hw.mono ((List.dropWhile_suffix _).trans (List.suffix_cons _ _))) hlines
      · exact absurd hline hnot
  | @joined _ _ u _ _ ih =>
      obtain ⟨more, heq, hjoined⟩ | hnone := joinedLine?_append ('\n' :: u)
      · cases heq
        exact lines_joined (hjoined hw.inline) (ih (hw.mono ⟨['\\', '\n'], rfl⟩) hlines)
      · exact absurd (hnone hv.inline) (by
          obtain ⟨c, cs, rfl, -⟩ := hv.exists_cons
          cases u <;> exact nofun)
  | newline hdepth _ ih => exact lines_newline hdepth (ih (hw.mono (List.suffix_cons _ _)) hlines)
  | @token _ _ _ c body left tok _ hstart hpart htok hdepth _ ih =>
      -- a token is read as before, since nothing that follows joins it
      obtain ⟨left', hleft, -, hsame⟩ := token?_stops (List.cons_ne_nil c (body ++ left)) hv htok hpart
      cases List.append_cancel_right hleft
      have hread := hsame (hw.joins hpart htok)
      have hrest := ih (hw.mono ((List.suffix_append _ _).trans (List.suffix_cons _ _))) hlines
      have hall := Plain.Lines.token (u := c :: body) ⟨c, rfl, hstart⟩
        (by simpa only [List.cons_append, List.append_assoc] using hread) hdepth hrest
      simpa only [List.cons_append, List.append_assoc] using hall

end Places

/-- The brackets that are open behind tokens. -/
theorem CutsTo.depth_eq {v u : Text} {depth depth' : Nat} {A : List Token} (h : CutsTo v depth u A depth') :
    A.foldlM depthAfter depth = some depth' := by
  induction h with
  | nil => rfl
  | token _ _ _ hdepth _ ih =>
      rw [List.foldlM_cons, hdepth]
      exact ih
  | _ => assumption

/-- How a text is cut at a place in it where `x` stands in front of `y`: either the place is inside of a comment, so
that something else may stand there on the same line, or the text is cut there. -/
def CutAt (x y : Text) (depth : Nat) (u : Text) (toks : List Token) : Prop :=
  ('#' ∈ u ∧ ∀ z, Breaks z → '\n' ∉ z → Lines depth (u ++ (z ++ y)) toks) ∨
    ∃ A B depth' fuel, toks = A ++ B ∧ CutsTo (x ++ y) depth u A depth' ∧
      lineTokens fuel depth' (x ++ y) = some B

/-- Nothing changes if something is passed over first. -/
theorem CutAt.step {x y u u' : Text} {depth : Nat} {toks : List Token} (hsuffix : u' <:+ u)
    (hlines : ∀ w, Inline w → Lines depth (u' ++ w) toks → Lines depth (u ++ w) toks)
    (hcuts : ∀ A depth', CutsTo (x ++ y) depth u' A depth' → CutsTo (x ++ y) depth u A depth')
    (h : CutAt x y depth u' toks) : CutAt x y depth u toks := by
  obtain ⟨hhash, hz⟩ | ⟨A, B, depth', fuel, htoks, hcut, hrest⟩ := h
  · exact .inl ⟨hsuffix.mem hhash, fun z hbreaks hline => hlines _ (hbreaks.inline.append y) (hz z hbreaks hline)⟩
  · exact .inr ⟨A, B, depth', fuel, htoks, hcuts A depth' hcut, hrest⟩

/-- Nothing changes either if a token is read first: it ends in front of the place, whatever stands there. -/
theorem CutAt.token {x y left : Text} {c : Char} {cs : Text} {depth depth₁ : Nat} {tok : Token} {toks : List Token}
    (hbreaks : Breaks (x ++ y)) (hstart : startsToken c = true) (hpart : tok.isPart = true)
    (htok : token? (c :: (cs ++ (x ++ y))) = some (tok, left ++ (x ++ y)))
    (hdepth : depthAfter depth tok = some depth₁) (h : CutAt x y depth₁ left toks) :
    CutAt x y depth (c :: cs) (tok :: toks) := by
  obtain ⟨left', heq, hleft, hsame⟩ := token?_stops (List.cons_ne_nil c cs) hbreaks htok hpart
  cases List.append_cancel_right heq
  -- a token takes one letter at least
  have hshort : left <:+ cs := by
    have hlength := (token?_shorter htok hpart).length_le
    simp only [List.length_append] at hlength
    refine (List.suffix_cons_iff.1 hleft).resolve_left fun heq => ?_
    rw [heq, List.length_cons] at hlength
    omega
  obtain ⟨body, rfl⟩ := hshort
  obtain ⟨hhash, hz⟩ | ⟨A, B, depth', fuel, rfl, hcut, hrest⟩ := h
  · refine .inl ⟨hleft.mem hhash, fun z hbreak hnot => ?_⟩
    have htok' := hsame ((hbreak.append y).joins (c :: (body ++ left)) left)
    have hall := Plain.Lines.token (u := c :: body) ⟨c, rfl, hstart⟩
      (by simpa only [List.cons_append, List.append_assoc] using htok') hdepth (hz z hbreak hnot)
    simpa only [List.cons_append, List.append_assoc] using hall
  · exact .inr ⟨tok :: A, B, depth', fuel, rfl, .token hstart hpart htok hdepth hcut, hrest⟩

/-- A comment in front of a place goes on over it, or ends on a line in front of it. -/
theorem CutAt.comment {x y cs : Text} {depth : Nat} {toks : List Token} (hline : '\n' ∉ x)
    (hlines : Lines depth ((cs ++ (x ++ y)).dropWhile (· ≠ '\n')) toks)
    (h : ∀ u, (cs ++ (x ++ y)).dropWhile (· ≠ '\n') = u ++ (x ++ y) → CutAt x y depth u toks) :
    CutAt x y depth ('#' :: cs) toks := by
  by_cases hends : '\n' ∈ cs
  · have hdrop (w : Text) : (cs ++ w).dropWhile (· ≠ '\n') = cs.dropWhile (· ≠ '\n') ++ w :=
      (dropWhile_comment cs w).elim And.right fun hnot => absurd hends hnot.1
    refine (h _ (hdrop _)).step ((List.dropWhile_suffix _).trans (List.suffix_cons '#' cs)) (fun w _ hw => ?_)
      fun A depth' hcut => .comment hends hcut
    exact lines_comment ((hdrop w).symm ▸ hw)
  · rw [dropWhile_in_comment hends hline y] at hlines
    refine .inl ⟨List.mem_cons_self, fun z _ hz => ?_⟩
    rw [List.cons_append]
    refine lines_comment ?_
    rw [dropWhile_in_comment hends hz y]
    exact hlines

/-- A line that ends in front of a place is the last one only if the place is inside of a comment. -/
theorem CutAt.finish {x y cs : Text} {indented : Bool} (hx : Inline x) (hline : '\n' ∉ x)
    (hsolid : ∀ column fixed indented, skip column fixed (x ++ y) ≠ some (indented, []))
    (hskip : skip false false (cs ++ (x ++ y)) = some (indented, [])) : CutAt x y 0 ('\n' :: cs) [] := by
  obtain ⟨r, hr⟩ := exists_skipped false false cs
  cases r with
  | through column fixed => exact absurd ((hr (hx.append y)).symm.trans hskip) (hsolid _ _ _)
  | stopped _ left =>
      rw [hr.2.2 (hx.append y)] at hskip
      have hleft := (Prod.mk.inj (Option.some.inj hskip)).2
      exact absurd (List.append_eq_nil_iff.1 hleft).1 hr.1
  | commented =>
      refine .inl ⟨List.mem_cons_of_mem _ hr.1, fun z hz hnot => ?_⟩
      rw [hr.2 hx hline y, ← hr.2 hz.inline hnot y] at hskip
      exact lines_end hskip
  | broken =>
      rw [hr (hx.append y)] at hskip
      cases hskip

/-- What a line is cut into, at a place in it. By induction on the fuel; the text in front of the place gets shorter
with every step. -/
theorem lineTokens_cut {x y : Text} (hx : Breaks x) (hline : '\n' ∉ x)
    (hsolid : ∀ column fixed indented, skip column fixed (x ++ y) ≠ some (indented, [])) {fuel depth : Nat}
    {u : Text} {toks : List Token} (h : lineTokens fuel depth (u ++ (x ++ y)) = some toks)
    (hparts : ∀ tok ∈ toks, tok.isPart = true) : CutAt x y depth u toks := by
  have hinline : Inline (x ++ y) := hx.inline.append y
  have hbreaks : Breaks (x ++ y) := hx.append y
  induction fuel generalizing depth u toks with
  | zero => cases h
  | succ fuel ih =>
      cases u with
      | nil => exact .inr ⟨[], toks, depth, fuel + 1, rfl, .nil, h⟩
      | cons c cs =>
          have hsuffix := List.suffix_cons c cs
          rw [List.cons_append] at h
          cases lineTokens_step h with
          | gap hgap h =>
              exact (ih h hparts).step hsuffix (fun w _ hw => hw.gap hgap) fun A depth' hcut => .gap hgap hcut
          | comment hrest =>
              -- the line break that ends the comment is in front of the place, or the place is inside the comment
              exact .comment hline (lines_of_lineTokens hrest hparts) fun u hu => ih (hu ▸ hrest) hparts
          | joined hrest h =>
              obtain ⟨more, rfl, hjoined⟩ | hnone := joinedLine?_append cs
              · rw [hjoined hinline] at hrest
                cases hrest
                refine (ih h hparts).step ⟨['\\', '\n'], rfl⟩ (fun w hw hlines => ?_) fun A depth' hcut => .joined hcut
                exact lines_joined (hjoined hw) hlines
              · -- no line is joined across the place, for what follows it does not begin with a line break
                rw [hnone hinline] at hrest
                cases hrest
          | finish hdepth hskip =>
              subst hdepth
              exact .finish hx.inline hline hsolid hskip
          | newline hdepth h =>
              exact (ih h hparts).step hsuffix (fun w _ hw => lines_newline hdepth hw)
                fun A depth' hcut => .newline hdepth hcut
          | token hstart htok hdepth hmore =>
              -- no token reaches across the place, since the text behind it breaks one off
              obtain ⟨htokPart, hmoreParts⟩ := List.forall_mem_cons.1 hparts
              obtain ⟨left, rfl, -, -⟩ := token?_stops (List.cons_ne_nil c cs) hbreaks htok htokPart
              exact .token hbreaks hstart htokPart htok hdepth (ih hmore hmoreParts)

end Arithmetic

end TabletopChat
