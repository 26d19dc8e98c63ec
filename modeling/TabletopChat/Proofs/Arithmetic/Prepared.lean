import TabletopChat.Proofs.Arithmetic.Cuts

/-!
# Proofs/Arithmetic/Prepared — the tokens of an expression around a place

Before an expression is cut into tokens, blanks are taken off its ends, powers are written with two stars, and its
line ends are made the same. What stands at a place in the expression stays as it is if it has no blanks and no
power, and what stands around it does not depend on it.

- `lead`, `trail`     : what becomes of the text around a place
- `readied_around`    : an expression that is ready to be cut, around a place
- `Ready`             : what is cut into tokens, and when it has any
- `outcome_of_reads`  : expressions whose tokens are read in the same way have the same value
-/

namespace TabletopChat

namespace Text

/-! ## Powers and line ends -/

abbrev powers (t : Text) : Text := replaceAll ['^'] ['*', '*'] t

/-- Writing powers with two stars works character by character. -/
theorem powers_eq (t : Text) : powers t = t.flatMap fun c => if c = '^' then ['*', '*'] else [c] := by
  have hfrom : replaceFrom ['^'] ['*', '*'] 0 t = t.flatMap fun c => if c = '^' then ['*', '*'] else [c] := by
    induction t with
    | nil => rfl
    | cons c cs ih =>
        rw [replaceFrom, List.flatMap_cons]
        by_cases hc : c = '^'
        · subst hc
          simp [startsWith, ih]
        · have hne : ¬ '^' = c := fun h => hc h.symm
          simp [startsWith, ih, hc, hne]
  rw [powers, replaceAll, if_neg (List.cons_ne_nil _ _), hfrom]

theorem powers_append (t u : Text) : powers (t ++ u) = powers t ++ powers u := by
  simp only [powers_eq, List.flatMap_append]

/-- A text without the sign for powers is prepared as it is. -/
theorem powers_of_not_mem {t : Text} (h : '^' ∉ t) : powers t = t := by
  rw [powers_eq]
  induction t with
  | nil => rfl
  | cons c cs ih =>
      rw [List.mem_cons, not_or] at h
      rw [List.flatMap_cons, ih h.2, if_neg fun hc => h.1 hc.symm, List.singleton_append]

/-- Line ends are unified on both sides of a cut that is not inside of one. -/
theorem unifyLineEnds_append (t : Text) {u : Text} (hu : ∀ c ∈ u.head?, c ≠ '\n') :
    unifyLineEnds (t ++ u) = unifyLineEnds t ++ unifyLineEnds u := by
  fun_induction unifyLineEnds t with
  | case1 => rfl
  | case2 cs ih => rw [List.cons_append, List.cons_append, unifyLineEnds, ih, List.cons_append]
  | case3 cs hcs ih =>
      -- no line feed comes behind the carriage return, neither in the text nor after it
      have hnext : ∀ more, cs ++ u = '\n' :: more → False := by
        intro more hmore
        cases cs with
        | nil => exact hu '\n' (by rw [← List.nil_append u, hmore]; rfl) rfl
        | cons d ds => exact hcs ds (by rw [(List.cons.inj hmore).1])
      rw [List.cons_append, unifyLineEnds.eq_3 _ hnext, ih, List.cons_append]
  | case4 c cs hc hcs ih => rw [List.cons_append, unifyLineEnds.eq_4 _ _ (fun _ h _ => hcs h) hcs, ih, List.cons_append]

/-- Line ends in front do not depend on what follows them. -/
theorem unifyLineEnds_append_of_not_mem {t : Text} (h : '\r' ∉ t) (u : Text) :
    unifyLineEnds (t ++ u) = t ++ unifyLineEnds u := by
  induction t with
  | nil => rfl
  | cons c cs ih =>
      rw [List.mem_cons, not_or] at h
      have hc : c = '\r' → False := fun hc => h.1 hc.symm
      rw [List.cons_append, unifyLineEnds.eq_4 _ _ (fun _ hr _ => hc hr) hc, ih h.2, List.cons_append]

/-- Unifying line ends never makes a text longer. -/
theorem length_unifyLineEnds_le (t : Text) : (unifyLineEnds t).length ≤ t.length := by
  fun_induction unifyLineEnds t with
  | case1 => rfl
  | case2 cs ih =>
      simp only [List.length_cons]
      omega
  | case3 cs _ ih => exact Nat.succ_le_succ ih
  | case4 c cs _ _ ih => exact Nat.succ_le_succ ih

end Text

namespace Arithmetic

open Text

/-! ## An expression around a place -/

/-- A text that is no different when an expression is made ready. -/
structure Kept (x : Text) : Prop where
  ne_nil : x ≠ []
  solid : ∀ c ∈ x, isBlank c = false
  power : '^' ∉ x

def lead (a : Text) : Text := unifyLineEnds (powers (a.dropWhile isBlank))

def trail (b : Text) : Text := unifyLineEnds (powers (b.reverse.dropWhile isBlank).reverse)

section Around

variable {x : Text}

theorem Kept.notBefore (h : Kept x) (b : Text) : NotBefore isBlank (x ++ b) := by
  obtain ⟨d, cs, rfl⟩ := List.exists_cons_of_ne_nil h.ne_nil
  intro c hc
  cases hc
  exact h.solid d List.mem_cons_self

theorem Kept.reverse (h : Kept x) : Kept x.reverse where
  ne_nil := fun hnil => h.ne_nil (List.reverse_eq_nil_iff.1 hnil)
  solid c hc := h.solid c (List.mem_reverse.1 hc)
  power hmem := h.power (List.mem_reverse.1 hmem)

/-- Blanks at the ends are removed around a part that is kept. -/
theorem strip_around (h : Kept x) (a b : Text) :
    strip (a ++ (x ++ b)) = a.dropWhile isBlank ++ (x ++ (b.reverse.dropWhile isBlank).reverse) := by
  have hfirst := (takeWhile_append_of_notBefore (u := a) fun _ => h.notBefore b).2
  have hlast := (takeWhile_append_of_notBefore (u := b.reverse) fun _ =>
    h.reverse.notBefore (a.dropWhile isBlank).reverse).2
  rw [strip, stripBy, hfirst, List.reverse_append, List.reverse_append, List.append_assoc, hlast]
  simp only [List.reverse_append, List.reverse_reverse, List.append_assoc]

/-- An expression that is ready to be cut, around a place. -/
theorem readied_around (h : Kept x) (a b : Text) :
    unifyLineEnds (prepared (a ++ (x ++ b))) = lead a ++ (x ++ trail b) := by
  have hreturn : '\r' ∉ x := fun hmem => absurd (h.solid _ hmem) (by decide)
  have hline : ∀ (u : Text), ∀ c ∈ (x ++ u).head?, c ≠ '\n' := by
    rintro u c hc rfl
    exact absurd (h.notBefore u _ hc) (by decide)
  show unifyLineEnds (powers (strip (a ++ (x ++ b)))) = _
  rw [strip_around h, powers_append, powers_append, powers_of_not_mem h.power, unifyLineEnds_append _ (hline _),
    unifyLineEnds_append_of_not_mem hreturn]
  rfl

/-- A form feed in front of a place is kept, unless nothing stands in front of it. -/
theorem lead_feed (a : Text) :
    ∃ f, lead (a ++ ['\x0c']) = lead a ++ f ∧ (f = ['\x0c'] ∨ f = [] ∧ lead a = []) := by
  rcases hdrop : a.dropWhile isBlank with - | ⟨c, cs⟩
  · refine ⟨[], ?_, .inr ⟨rfl, ?_⟩⟩
    · rw [lead, lead, List.dropWhile_append, hdrop]
      rfl
    · rw [lead, hdrop]
      rfl
  · refine ⟨['\x0c'], ?_, .inl rfl⟩
    have hfeed : powers ['\x0c'] = ['\x0c'] := rfl
    rw [lead, lead, List.dropWhile_append, hdrop, List.isEmpty_cons, if_neg Bool.false_ne_true, powers_append, hfeed,
      unifyLineEnds_append _ (by simp)]
    rfl

/-- A blank behind a place is kept, unless nothing stands behind it. -/
theorem trail_blank (b : Text) :
    ∃ g, trail (' ' :: b) = g ++ trail b ∧ (g = [' '] ∨ g = [] ∧ trail b = []) := by
  rcases hdrop : b.reverse.dropWhile isBlank with - | ⟨c, cs⟩
  · refine ⟨[], ?_, .inr ⟨rfl, ?_⟩⟩
    · rw [trail, trail, List.reverse_cons, List.dropWhile_append, hdrop]
      rfl
    · rw [trail, hdrop]
      rfl
  · refine ⟨[' '], ?_, .inl rfl⟩
    have hblank : powers [' '] = [' '] := rfl
    rw [trail, trail, List.reverse_cons, List.dropWhile_append, hdrop, List.isEmpty_cons, if_neg Bool.false_ne_true,
      List.reverse_append, List.reverse_singleton, powers_append, hblank, unifyLineEnds_append_of_not_mem (by simp)]

theorem kept_ofNat (n : Nat) : Kept (ofNat n) where
  ne_nil := ofNat_ne_nil n
  solid _ hc := isBlank_of_isDigit (isDigit_of_mem_ofNat hc)
  power hmem := absurd (isDigit_of_mem_ofNat hmem) (by decide)

/-- A kept text in brackets. -/
theorem kept_round (hx : Kept x) : Kept ('(' :: (x ++ [')'])) where
  ne_nil := List.cons_ne_nil _ _
  solid c hc := by
    rw [List.mem_cons, List.mem_append, List.mem_singleton] at hc
    obtain rfl | hc | rfl := hc
    · decide
    · exact hx.solid c hc
    · decide
  power hmem := by simpa using hx.power (by simpa using hmem)

end Around

/-! ## The tokens of an expression -/

open Plain (Lines)

/-- Skipping lines only drops characters at the beginning. -/
theorem skipLines_suffix {fuel : Nat} {column fixed indented : Bool} {t rest : Text}
    (h : skipLines fuel column fixed t = some (indented, rest)) : rest <:+ t := by
  induction fuel generalizing column fixed t with
  | zero => cases h
  | succ fuel ih =>
      cases t with
      | nil =>
          cases h
          exact List.suffix_refl _
      | cons c cs =>
          rw [skipLines] at h
          split at h
          · exact (ih h).trans (List.suffix_cons c cs)
          split at h
          · exact (ih h).trans (List.suffix_cons c cs)
          split at h
          · exact (ih h).trans (List.suffix_cons c cs)
          split at h
          · exact ((ih h).trans (List.dropWhile_suffix _)).trans (List.suffix_cons c cs)
          split at h
          · obtain ⟨more, hmore, h⟩ := Option.bind_eq_some_iff.1 h
            exact ((ih h).trans (joinedLine?_suffix hmore)).trans (List.suffix_cons c cs)
          · cases h
            exact List.suffix_refl _

/-- Every token takes fuel. -/
theorem length_lt_of_lineTokens {fuel depth : Nat} {t : Text} {toks : List Token}
    (h : lineTokens fuel depth t = some toks) : toks.length < fuel := by
  induction fuel generalizing depth t toks with
  | zero => cases h
  | succ fuel ih =>
      cases lineTokens_step h with
      | nil | finish => exact Nat.succ_pos fuel
      | gap _ h | comment h | joined _ h | newline _ h => exact Nat.lt_succ_of_lt (ih h)
      | token _ _ _ hmore => exact Nat.succ_lt_succ (ih hmore)

section Starts

open Plain (startsToken)

/-- In front of a token nothing is skipped. -/
theorem skip_startsToken {t : Text} (h : ∃ c ∈ t.head?, startsToken c = true) (column fixed : Bool) :
    skip column fixed t = some (column || fixed, t) := by
  obtain ⟨c, hc, hstart⟩ := h
  obtain ⟨cs, rfl⟩ := List.head?_eq_some_iff.1 hc
  simp only [startsToken, isGap, Bool.and_eq_true, Bool.not_eq_true', bne_iff_ne, Bool.or_eq_false_iff,
    decide_eq_false_iff_not] at hstart
  obtain ⟨⟨⟨⟨⟨hblank, htab⟩, hfeed⟩, hhash⟩, hjoin⟩, hline⟩ := hstart
  simp [skip_cons, hblank, htab, hfeed, hhash, hjoin, hline]

/-- A token that a text begins with is not passed over. -/
theorem skip_ne_nil {t : Text} (h : ∃ c ∈ t.head?, startsToken c = true) (column fixed indented : Bool) :
    skip column fixed t ≠ some (indented, []) := by
  rw [skip_startsToken h]
  rintro ⟨⟩
  obtain ⟨c, hc, -⟩ := h
  cases hc

theorem inline_of_startsToken {t : Text} (h : ∃ c ∈ t.head?, startsToken c = true) : Inline t := by
  obtain ⟨c, hc, hstart⟩ := h
  refine ⟨c, hc, ?_⟩
  rintro rfl
  cases hstart

theorem not_newline_mem_ofNat (n : Nat) : '\n' ∉ ofNat n := fun hmem =>
  absurd (isDigit_of_mem_ofNat hmem) (by decide)

end Starts

section Tokens

variable {t : Text} {toks : List Token}

def Ready (t : Text) (toks : List Token) : Prop :=
  ∃ rest, skip false false t = some (false, rest) ∧ Lines 0 rest toks

/-- A text that is ready is cut into its tokens. -/
theorem Ready.tokens? (h : Ready (unifyLineEnds t) toks) : tokens? t = some toks := by
  obtain ⟨rest, hskip, hlines⟩ := h
  unfold Arithmetic.tokens? skip at *
  dsimp only
  rw [hskip]
  exact hlines _ (Nat.lt_succ_self _)

/-- The tokens of a text are cut from what is left when lines without any are skipped. -/
theorem exists_of_tokens? (h : tokens? t = some toks) :
    ∃ rest, skip false false (unifyLineEnds t) = some (false, rest) ∧
      lineTokens (rest.length + 1) 0 rest = some toks := by
  unfold Arithmetic.tokens? at h
  dsimp only at h
  split at h
  · rename_i rest hskip
    exact ⟨rest, hskip, h⟩
  · cases h

theorem ready_of_tokens? (h : tokens? t = some toks) (hparts : ∀ tok ∈ toks, tok.isPart = true) :
    Ready (unifyLineEnds t) toks := by
  obtain ⟨rest, hskip, h⟩ := exists_of_tokens? h
  exact ⟨rest, hskip, lines_of_lineTokens h hparts⟩

/-- Each token takes a character at least. -/
theorem length_le_of_tokens? (h : tokens? t = some toks) : toks.length ≤ t.length := by
  obtain ⟨rest, hskip, h⟩ := exists_of_tokens? h
  have hrest := (skipLines_suffix hskip).length_le
  have hunified := length_unifyLineEnds_le t
  have htoks := length_lt_of_lineTokens h
  omega

end Tokens

/-! ## The value of an expression -/

/-- If an expression has a value, then it is cut into tokens that are read, and what is read has this value. -/
theorem reads_of_outcome {t : Text} {v : Number} (h : outcome t = .number v) :
    NulFree t ∧ ∃ toks p, tokens? (prepared t) = some toks ∧ Reads .expression toks p [] ∧ p.expr.eval = .ok v := by
  unfold outcome at h
  split at h
  · cases h
  rename_i hnul
  split at h
  · rename_i w hvalue
    cases h
    refine ⟨fun hmem => hnul (List.contains_iff_mem.2 hmem), ?_⟩
    unfold evaluate at hvalue
    dsimp only at hvalue
    split at hvalue
    · cases hvalue
    split at hvalue
    · cases hvalue
    · rename_i e hparse
      obtain ⟨toks, p, htoks, hread, rfl⟩ := reads_of_parse? hparse (e.valued_of_eval hvalue)
      exact ⟨toks, p, htoks, hread, hvalue⟩
  · cases h

/-- An expression whose tokens are read has the value of what is read. -/
theorem outcome_of_reads {t : Text} {toks : List Token} {p : Parsed} {v : Number} (hnul : NulFree t)
    (htoks : tokens? (prepared t) = some toks) (hread : Reads .expression toks p []) (hvalue : p.expr.eval = .ok v) :
    outcome t = .number v := by
  have hne : prepared t ≠ [] := by
    intro hempty
    have hlength := length_le_of_tokens? htoks
    have hstart := hread.startsOperand (.inr (.inl rfl))
    rw [hempty, List.length_nil, Nat.le_zero, List.length_eq_zero_iff] at hlength
    rw [hlength] at hstart
    cases hstart
  have hevaluate : evaluate t = .ok v := by
    rw [evaluate, if_neg hne, parse?_of_reads htoks (length_le_of_tokens? htoks) hread]
    exact hvalue
  rw [outcome, if_neg fun h => hnul (List.contains_iff_mem.1 h), hevaluate]

def shown? : Outcome → Option Text
  | .number v => some v.display
  | _ => none

theorem exists_of_shown? {o : Outcome} {t : Text} (h : shown? o = some t) : ∃ v, o = .number v ∧ v.display = t := by
  cases o with
  | number v => exact ⟨v, rfl, Option.some.inj h⟩
  | _ => cases h

theorem ne_number_of_shown? {o : Outcome} (h : shown? o = none) (v : Number) : o ≠ .number v := by
  rintro rfl
  cases h

end Arithmetic

end TabletopChat
