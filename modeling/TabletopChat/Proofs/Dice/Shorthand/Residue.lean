import Mathlib
import TabletopChat.Proofs.Dice.Plain.Agreement
import TabletopChat.Proofs.Arithmetic.Prepared
import TabletopChat.Proofs.Dice.Shorthand.Rounds

/-!
# Proofs/Dice/Shorthand/Residue — the total of a group as one operand of what is left

When a group of dice is rolled, the digits of its total take its place, and what is left is read as a whole. If the
total is a token of its own there, then the value is the same as with the total in brackets. It is no token of
its own where it makes a numeral longer, as behind a decimal point. Brackets also need to be nested less deep
than they may be.

- `Alone`        : a total joins nothing that stands next to it
- `Shallow`      : one more bracket may be opened in the place of a group
- `Around`       : what the tokens around a total say about the place
- `total_is_operand` : the value of what is left
-/

namespace TabletopChat

open Arithmetic Text

namespace Shorthand

/-! ## Totals -/

/-- A group that can be rolled has no more faces than its digits allow. -/
theorem Pattern.faces_of_plan {p : Pattern} {plan : Plan} (h : p.plan = .ok plan) : plan.faces < 10 ^ 100 := by
  have hfaces : p.faces.length ≤ 100 ∧ plan.faces = digitsValue p.faces := by
    unfold Pattern.plan at h
    grind [maxDigits]
  rw [hfaces.2]
  exact Nat.lt_of_lt_of_le (digitsValue_lt p.faces) (Nat.pow_le_pow_right (by decide) hfaces.1)

/-- The total of a group is a number that is read, if the dice keep to their bounds. -/
theorem exists_groupTotal {p : Pattern} {plan : Plan} {results : List Int} {d d' : Dice} (hplan : p.plan = .ok plan)
    (hd : d.InRange) (h : (plan.rollDice plan.count).run d = (.ok results, d')) :
    ∃ n : Nat, DieGroup.total ⟨.faces plan.faces, results⟩ = n ∧ n < 10 ^ Arithmetic.maxDigits := by
  obtain ⟨dice, hlength, rfl, hall⟩ := rollsAll_of_rollDice h
  obtain ⟨hfaces, hcount⟩ := p.bounds_of_plan hplan
  have hobeys := (hall.obeys hfaces hd).2
  have hshown : ∀ v ∈ dice.map Die.kept, 1 ≤ v ∧ v ≤ (plan.faces : Int) := by
    intro v hv
    obtain ⟨x, hx, rfl⟩ := List.mem_map.1 hv
    exact ⟨(hobeys x hx).low, (hobeys x hx).high⟩
  obtain ⟨n, hn, hle⟩ := Plain.exists_total ((List.length_map _).trans hlength) hshown
  refine ⟨n, hn, ?_⟩
  calc n ≤ plan.count * plan.faces := hle
    _ ≤ 1000 * 10 ^ 100 := Nat.mul_le_mul hcount (Nat.le_of_lt (Pattern.faces_of_plan hplan))
    _ < 10 ^ 200 := by decide
    _ ≤ 10 ^ Arithmetic.maxDigits := Nat.pow_le_pow_right (by decide) (by decide)

/-! ## The place of a total -/

/-- A total joins nothing that stands next to it: the tokens stay the same with blanks around it. A form feed is the
blank that never indents a line. -/
def Alone (before total rest : Text) : Prop :=
  tokens? (prepared (before ++ '\x0c' :: (total ++ ' ' :: rest))) = tokens? (prepared (before ++ (total ++ rest)))

/-- One more bracket may be opened in the place of a group, which is where the word `d` is read if nothing else is
left of the group. -/
def Shallow (before rest : Text) : Prop :=
  ∀ A B, tokens? (prepared (before ++ '\x0c' :: 'd' :: ' ' :: rest)) = some (A ++ .word ['d'] :: B) →
    ∀ depth ∈ A.foldlM depthAfter 0, depth < maxDepth

/-- Every token opens at most one bracket. -/
theorem depth_le_of_foldlM {A : List Token} {depth depth' : Nat} (h : A.foldlM depthAfter depth = some depth') :
    depth' ≤ depth + A.length := by
  induction A generalizing depth with
  | nil =>
      cases h
      exact Nat.le_refl _
  | cons tok A ih =>
      obtain ⟨mid, hmid, h⟩ := Option.bind_eq_some_iff.1 h
      have hstep : mid ≤ depth + 1 := by
        unfold depthAfter at hmid
        grind
      have hrest := ih h
      rw [List.length_cons]
      omega

/-- In a short expression no brackets are nested too deep. -/
theorem shallow_of_length {before rest : Text}
    (h : (prepared (before ++ '\x0c' :: 'd' :: ' ' :: rest)).length ≤ maxDepth) : Shallow before rest := by
  intro A B htoks depth hdepth
  have hlength := length_le_of_tokens? htoks
  have hle := depth_le_of_foldlM (Option.mem_def.1 hdepth)
  rw [List.length_append, List.length_cons] at hlength
  omega

section Place

open Plain (Lines startsToken)

variable {n depth fuel : Nat} {f g u y : Text} {toks B : List Token}

/-- A blank, which may only be missing in front of nothing. -/
def Apart (g y : Text) : Prop := g = [' '] ∨ g = [] ∧ y = []

theorem Apart.after (h : Apart g y) : Plain.After (g ++ y) := by
  obtain rfl | ⟨rfl, rfl⟩ := h
  · rintro c ⟨⟩
    decide
  · nofun

theorem Apart.lines (h : Apart g y) (hlines : Lines depth y B) : Lines depth (g ++ y) B := by
  obtain rfl | ⟨rfl, -⟩ := h
  · exact hlines.gap rfl
  · exact hlines

theorem Apart.of_lines (h : Apart g y) (hlines : Lines depth (g ++ y) B) : Lines depth y B := by
  obtain rfl | ⟨rfl, -⟩ := h
  · exact fun fuel hfuel => hlines (fuel + 1) (Nat.succ_lt_succ hfuel)
  · exact hlines

theorem Apart.not_newline_mem (h : Apart g y) : '\n' ∉ g := by
  obtain rfl | ⟨rfl, -⟩ := h
  · decide
  · exact List.not_mem_nil

/-- A form feed, which may only be missing behind nothing. -/
def Front (f u : Text) : Prop := f = ['\x0c'] ∨ f = [] ∧ u = []

theorem Front.not_newline_mem (h : Front f u) : '\n' ∉ f := by
  obtain rfl | ⟨rfl, -⟩ := h
  · decide
  · exact List.not_mem_nil

theorem Front.inline (hf : Front f u) {t : Text} (h : ∃ c ∈ t.head?, startsToken c = true) : Inline (f ++ t) := by
  obtain rfl | ⟨rfl, -⟩ := hf
  · exact ⟨'\x0c', rfl, by decide⟩
  · exact inline_of_startsToken h

theorem Front.skip (hf : Front f u) {t : Text} (h : ∃ c ∈ t.head?, startsToken c = true) :
    skip false false (f ++ t) = some (false, t) := by
  obtain rfl | ⟨rfl, -⟩ := hf
  · rw [List.singleton_append, skip_cons]
    exact skip_startsToken h false false
  · exact skip_startsToken h false false

/-- A total that is followed by a blank is a token of its own. -/
theorem exists_int (hn : n < 10 ^ Arithmetic.maxDigits) (hg : Apart g y)
    (h : lineTokens fuel depth (ofNat n ++ (g ++ y)) = some toks) (hparts : ∀ tok ∈ toks, tok.isPart = true) :
    ∃ B, toks = .int n :: B ∧ Lines depth y B := by
  obtain ⟨fuel', tok, rest, depth', B, htok, hdepth, hrest, rfl⟩ :=
    exists_of_lineTokens (exists_head_append (Plain.startsToken_ofNat n) _) h
  rw [Plain.token?_ofNat hn hg.after] at htok
  cases htok
  cases hdepth
  exact ⟨B, rfl, hg.of_lines (lines_of_lineTokens hrest (List.forall_mem_cons.1 hparts).2)⟩

/-- A total in brackets. -/
theorem lines_bracketed (hn : n < 10 ^ Arithmetic.maxDigits) (hdepth : depth < maxDepth) (h : Lines depth y B) :
    Lines depth ('(' :: (ofNat n ++ ')' :: y)) (openRound :: .int n :: closeRound :: B) := by
  have hclose : Lines (depth + 1) ([')'] ++ y) (closeRound :: B) :=
    h.token ⟨')', rfl, by decide⟩ (Plain.token?_closing y) rfl
  have hafter : Plain.After ([')'] ++ y) := by
    rintro c ⟨⟩
    decide
  have hint : Lines (depth + 1) (ofNat n ++ ([')'] ++ y)) (.int n :: closeRound :: B) :=
    hclose.token (Plain.startsToken_ofNat n) (Plain.token?_ofNat hn hafter) rfl
  exact hint.token (u := ['(']) ⟨'(', rfl, by decide⟩ (Plain.token?_opening _) (if_pos hdepth)

/-- A bare word in the place of a group. -/
theorem lines_word (hg : Apart g y) (h : Lines depth y B) : Lines depth ('d' :: (g ++ y)) (.word ['d'] :: B) := by
  refine (hg.lines h).token (u := ['d']) ⟨'d', rfl, by decide⟩ ?_ rfl
  obtain rfl | ⟨rfl, rfl⟩ := hg <;> rfl

/-- What the tokens around a total say about its place: either it is inside of a comment, or the total is one of them,
and something else can stand there. -/
inductive Around (n : Nat) (u f g y : Text) (toks : List Token) : Prop
  | ignored : Ready (u ++ ('(' :: (ofNat n ++ ')' :: y))) toks → Around n u f g y toks
  | cut (A B : List Token) (depth : Nat) :
      toks = A ++ .int n :: B → A.foldlM depthAfter 0 = some depth →
      Ready (u ++ (f ++ 'd' :: (g ++ y))) (A ++ .word ['d'] :: B) →
      (depth < maxDepth →
        Ready (u ++ ('(' :: (ofNat n ++ ')' :: y))) (A ++ openRound :: .int n :: closeRound :: B)) →
      Around n u f g y toks

theorem exists_head_word (g y : Text) : ∃ c ∈ ('d' :: (g ++ y)).head?, startsToken c = true := ⟨'d', rfl, by decide⟩

theorem exists_head_round (t : Text) : ∃ c ∈ ('(' :: t).head?, startsToken c = true := ⟨'(', rfl, by decide⟩

theorem exists_head_total (n : Nat) (y : Text) : ∃ c ∈ (ofNat n ++ y).head?, startsToken c = true :=
  exists_head_append (Plain.startsToken_ofNat n) y

/-- Where the text in front of a total is passed over, its place is where the tokens begin. -/
theorem around_first (hn : n < 10 ^ Arithmetic.maxDigits) (hf : Front f u) (hg : Apart g y)
    (hskip : ∀ ⦃t⦄, Inline t → skip false false (u ++ t) = skip false false t)
    (hspaced : Ready (u ++ (f ++ (ofNat n ++ (g ++ y)))) toks) (hparts : ∀ tok ∈ toks, tok.isPart = true) :
    Around n u f g y toks := by
  have hready {t : Text} (ht : ∃ c ∈ t.head?, startsToken c = true) :
      skip false false (u ++ (f ++ t)) = some (false, t) := by
    rw [hskip (hf.inline ht), hf.skip ht]
  obtain ⟨rest, hrest, hlines⟩ := hspaced
  rw [hready (exists_head_total n _)] at hrest
  cases hrest
  obtain ⟨B, rfl, hB⟩ := exists_int hn hg (hlines _ (Nat.lt_succ_self _)) hparts
  have hround := exists_head_round (ofNat n ++ ')' :: y)
  exact .cut [] B 0 rfl rfl ⟨_, hready (exists_head_word g y), lines_word hg hB⟩ fun hdepth =>
    ⟨_, (hskip (inline_of_startsToken hround)).trans (skip_startsToken hround false false), lines_bracketed hn hdepth hB⟩

/-- Where something stands in front of a total, the line is cut at its place, unless this is inside of a comment. -/
theorem around_behind {left : Text} (hn : n < 10 ^ Arithmetic.maxDigits) (hg : Apart g y)
    (hskip : ∀ ⦃t⦄, Inline t → skip false false (u ++ t) = some (false, left ++ t))
    (hread : lineTokens fuel 0 (left ++ '\x0c' :: (ofNat n ++ (g ++ y))) = some toks)
    (hparts : ∀ tok ∈ toks, tok.isPart = true) : Around n u ['\x0c'] g y toks := by
  have hline := not_newline_mem_ofNat n
  have hround := inline_of_startsToken (exists_head_round (ofNat n ++ ')' :: y))
  have hsolid (column fixed indented : Bool) :
      skip column fixed ('\x0c' :: (ofNat n ++ g) ++ y) ≠ some (indented, []) := by
    rw [List.cons_append, List.append_assoc, skip_cons]
    exact skip_ne_nil (exists_head_total n _) false fixed indented
  rw [← List.append_assoc (ofNat n), ← List.cons_append] at hread
  obtain ⟨-, hz⟩ | ⟨A, B', depth, fuel, rfl, hcuts, hrest⟩ :=
    lineTokens_cut ⟨'\x0c', rfl, rfl⟩ (by simp [hline, hg.not_newline_mem]) hsolid hread hparts
  -- the place is inside of a comment, so what stands there is passed over
  · have hlines := hz ('(' :: (ofNat n ++ [')'])) ⟨'(', rfl, rfl⟩ (by simp [hline])
    exact .ignored ⟨_, hskip hround, by simpa using hlines⟩
  · have hrest' : lineTokens (fuel - 1) depth (ofNat n ++ (g ++ y)) = some B' := by
      cases fuel with
      | zero => cases hrest
      | succ fuel => simpa [lineTokens, isGap] using hrest
    obtain ⟨B, rfl, hB⟩ := exists_int hn hg hrest' (List.forall_mem_append.1 hparts).2
    have hbreaks : Breaks ('\x0c' :: (ofNat n ++ g) ++ y) := ⟨'\x0c', rfl, rfl⟩
    have hcontinues {w : Text} (hw : Breaks w) {C : List Token} (hC : Lines depth w C) :
        Lines 0 (left ++ w) (A ++ C) :=
      hcuts.lines hbreaks (hw.continues _ _) hC
    have hword : Inline ('\x0c' :: 'd' :: (g ++ y)) := ⟨'\x0c', rfl, by decide⟩
    exact .cut A B depth rfl hcuts.depth_eq
      ⟨_, hskip hword, hcontinues ⟨'\x0c', rfl, rfl⟩ ((lines_word hg hB).gap rfl)⟩ fun hdepth =>
      ⟨_, hskip hround, hcontinues ⟨'(', rfl, rfl⟩ (lines_bracketed hn hdepth hB)⟩

theorem around (hn : n < 10 ^ Arithmetic.maxDigits) (hf : Front f u) (hg : Apart g y)
    (hplain : Ready (u ++ (ofNat n ++ y)) toks) (hspaced : Ready (u ++ (f ++ (ofNat n ++ (g ++ y)))) toks)
    (hparts : ∀ tok ∈ toks, tok.isPart = true) : Around n u f g y toks := by
  have hspaced' := hspaced
  obtain ⟨rest, hskip, hlines⟩ := hspaced
  have htotal := exists_head_total n
  obtain ⟨r, hr⟩ := exists_skipped false false u
  cases r with
  | through column fixed =>
      obtain ⟨rest', hskip', -⟩ := hplain
      rw [hr (inline_of_startsToken (htotal y)), skip_startsToken (htotal y)] at hskip'
      have hboth : column = false ∧ fixed = false := by simpa using (Prod.mk.inj (Option.some.inj hskip')).1
      obtain ⟨rfl, rfl⟩ := hboth
      exact around_first hn hf hg hr hspaced' hparts
  | stopped indented left =>
      obtain ⟨hne, hsuffix, hsame⟩ := hr
      have hu : u ≠ [] := fun h => hne (List.suffix_nil.1 (h ▸ hsuffix))
      obtain rfl : f = ['\x0c'] := hf.resolve_right fun h => hu h.2
      rw [hsame (hf.inline (htotal _))] at hskip
      cases hskip
      exact around_behind hn hg hsame (hlines _ (Nat.lt_succ_self _)) hparts
  | commented =>
      obtain ⟨-, hsame⟩ := hr
      have hline := not_newline_mem_ofNat n
      have hspaced := hsame (x := f ++ (ofNat n ++ g)) (hf.inline (htotal g))
        (by simp [hline, hg.not_newline_mem, hf.not_newline_mem]) y
      have hround := hsame (x := '(' :: (ofNat n ++ [')'])) ⟨'(', rfl, by decide⟩ (by simp [hline]) y
      simp only [List.append_assoc, List.cons_append, List.nil_append] at hspaced hround
      exact .ignored ⟨rest, hround.trans (hspaced.symm.trans hskip), hlines⟩
  -- a line that cannot be joined to the next one is not cut at all
  | broken =>
      rw [hr (hf.inline (htotal _))] at hskip
      cases hskip

end Place

/-- A text that is ready to be cut, around a place. -/
theorem readied_at (before rest : Text) :
    ∃ f g, Front f (lead before) ∧ Apart g (trail rest) ∧ ∀ {x : Text}, Kept x →
      unifyLineEnds (prepared (before ++ '\x0c' :: (x ++ ' ' :: rest))) =
        lead before ++ (f ++ (x ++ (g ++ trail rest))) := by
  obtain ⟨f, hf, hfront⟩ := lead_feed before
  obtain ⟨g, hg, hback⟩ := trail_blank rest
  refine ⟨f, g, hfront, hback, fun {x} hx => ?_⟩
  have hready := readied_around hx (before ++ ['\x0c']) (' ' :: rest)
  rw [hf, hg] at hready
  simpa only [List.append_assoc, List.singleton_append] using hready

/-- A total that is a token of its own may be put into brackets. -/
theorem outcome_bracketed {n : Nat} {before rest : Text} {v : Number} (hn : n < 10 ^ Arithmetic.maxDigits)
    (hvalue : outcome (before ++ (ofNat n ++ rest)) = .number v) (halone : Alone before (ofNat n) rest)
    (hshallow : Shallow before rest) : outcome (before ++ ('(' :: (ofNat n ++ ')' :: rest))) = .number v := by
  obtain ⟨hnul, toks, p, htoks, hread, heval⟩ := reads_of_outcome hvalue
  have hparts := hread.parts
  -- the same tokens, once with gaps around the number and once with brackets there
  obtain ⟨f, g, hf, hg, hready⟩ := readied_at before rest
  have hplain := ready_of_tokens? htoks hparts
  have hspaced := ready_of_tokens? (halone.trans htoks) hparts
  have hround := readied_around (kept_round (kept_ofNat n)) before rest
  rw [readied_around (kept_ofNat n)] at hplain
  rw [hready (kept_ofNat n)] at hspaced
  rw [List.cons_append, List.append_assoc, List.singleton_append, List.cons_append, List.append_assoc,
    List.singleton_append] at hround
  have hnul' : NulFree (before ++ ('(' :: (ofNat n ++ ')' :: rest))) := by
    simpa [NulFree] using hnul
  cases around hn hf hg hplain hspaced hparts with
  | ignored h => exact outcome_of_reads hnul' (Ready.tokens? (hround ▸ h)) hread heval
  | cut A B depth htoks hdepth hword hbracket =>
      -- the number stands between two parts, and brackets are cut off there, too
      subst htoks
      have hword' : tokens? (prepared (before ++ '\x0c' :: 'd' :: ' ' :: rest)) = some (A ++ .word ['d'] :: B) :=
        Ready.tokens? (hready ⟨List.cons_ne_nil 'd' [], List.forall_mem_singleton.2 rfl, by decide⟩ ▸ hword)
      have hbracket' := hbracket (hshallow A B hword' depth hdepth)
      exact outcome_of_reads hnul' (Ready.tokens? (hround ▸ hbracket')) hread.bracketed heval

/-! ## Expressions with one group -/

/-- If an expression has one group of dice, and what is left of it with the total of the group has a value, then this
is what is shown, and it is the value of the expression with the total in brackets. The total has to be a token
of its own, and one more bracket has to be allowed where it stands. -/
theorem total_is_operand {expression before rest : Text} {p : Pattern} {d d' : Dice} {r : Rolled} {g : DieGroup}
    {v : Number} (hletters : letters expression = 1)
    (hfirst : firstPattern? (strip expression) = some (before, p, rest)) (hd : d.InRange)
    (hroll : (roll expression).run d = (.ok r, d')) (hgroup : r.groups = [g])
    (hvalue : outcome (before ++ ofInt g.total ++ rest) = .number v) (halone : Alone before (ofInt g.total) rest)
    (hshallow : Shallow before rest) :
    r.text = v.display ∧ outcome (before ++ '(' :: ofInt g.total ++ ')' :: rest) = .number v := by
  have hone : letters (strip expression) = 1 := by
    have hle := letters_strip_le expression
    have hlt := letters_of_firstPattern? hfirst
    omega
  unfold roll at hroll
  dsimp only at hroll
  split at hroll
  · cases hroll
    cases hgroup
  rw [hone] at hroll
  -- one letter allows for one round, behind which the text is finished
  unfold rollGroups at hroll
  rw [hfirst] at hroll
  dsimp only at hroll
  split at hroll
  · cases hroll
    cases hgroup
  rename_i plan hplan
  obtain ⟨results, e, hdice, hrest⟩ := Act.exists_of_run_bind hroll
  obtain ⟨n, htotal, hn⟩ := exists_groupTotal hplan hd hdice
  have hfinish : (finish expression (before ++ ofInt (DieGroup.total ⟨.faces plan.faces, results⟩) ++ rest)
      [⟨.faces plan.faces, results⟩]).run e = (.ok r, d') := hrest
  obtain ⟨hgroups, -⟩ := groups_of_finish hfinish
  rw [hgroup] at hgroups
  cases hgroups
  have hnumeral : ofInt (DieGroup.total ⟨.faces plan.faces, results⟩) = ofNat n := by rw [htotal]; rfl
  refine ⟨?_, ?_⟩
  · rw [finish_unlimited, hvalue] at hfinish
    cases hfinish
    rfl
  · rw [hnumeral] at hvalue halone ⊢
    have hbracket := outcome_bracketed hn (by rwa [← List.append_assoc]) halone hshallow
    simpa only [List.append_assoc, List.cons_append] using hbracket

/-- A total between operators of higher and of lower precedence. -/
theorem total_is_operand_power :
    let expression := "10-2*(1d6+1)^2".toList
    let before := "10-2*(".toList
    let rest := "+1)^2".toList
    let d : Dice := .fixed 3
    letters expression = 1 ∧ d.InRange ∧
      (∃ p, firstPattern? (strip expression) = some (before, p, rest)) ∧ Alone before ['3'] rest ∧ Shallow before rest ∧
      ∃ r d' g v, (roll expression).run d = (.ok r, d') ∧ r.groups = [g] ∧ g.total = 3 ∧
        outcome (before ++ ofInt g.total ++ rest) = .number v ∧ v.display = "-22".toList ∧
        r.text = v.display ∧ outcome (before ++ '(' :: ofInt g.total ++ ')' :: rest) = .number v := by
  intro expression before rest d
  have hletters : letters expression = 1 := by decide +kernel
  have hd : d.InRange := Plain.inRange_fixed 3
  have hfirst : firstPattern? (strip expression) = some (before, ⟨"1d6".toList, ['1'], ['6'], none, none⟩, rest) := by
    decide +kernel
  have halone : Alone "10-2*(".toList ['3'] "+1)^2".toList := by
    unfold Alone
    cbv
  have hshallow : Shallow before rest := shallow_of_length (by decide +kernel)
  obtain ⟨v, hvalue, hdisplay⟩ := exists_of_shown? (o := outcome (before ++ ofInt 3 ++ rest)) (t := "-22".toList)
    (by decide +kernel)
  obtain ⟨r, d', hrun⟩ := Act.exists_of_run (a := roll expression) (s := d) (by decide +kernel)
  have hgroups : r.groups = [⟨.faces 6, [3]⟩] := Act.eq_of_run hrun (by decide +kernel)
  have hboth := total_is_operand hletters hfirst hd hrun hgroups hvalue halone hshallow
  exact ⟨hletters, hd, ⟨_, hfirst⟩, halone, hshallow, r, d', _, v, hrun, hgroups, rfl, hvalue, hdisplay,
    hboth.1, hboth.2⟩

/-- Where the only group of an expression is rolled and what is left has a value, this is the result. -/
theorem roll_of_group {expression before rest : Text} {p : Pattern} {plan : Plan} {results : List Int} {d d' : Dice}
    {v : Number} (hwell : isMalformed (strip expression) = false) (hletters : letters (strip expression) = 1)
    (hfirst : firstPattern? (strip expression) = some (before, p, rest)) (hplan : p.plan = .ok plan)
    (hdice : (plan.rollDice plan.count).run d = (.ok results, d'))
    (hvalue : outcome (before ++ ofInt (DieGroup.total ⟨.faces plan.faces, results⟩) ++ rest) = .number v) :
    (roll expression).run d = (.ok ⟨v.display, [⟨.faces plan.faces, results⟩], none⟩, d') := by
  have hgroups : roll expression = rollGroups expression 1 [] (strip expression) := by
    unfold roll
    rw [if_neg (by simp [hwell]), hletters]
  rw [hgroups, rollGroups, hfirst]
  dsimp only
  rw [hplan]
  dsimp only
  rw [Act.run_bind_of_ok hdice, rollGroups, finish_unlimited, hvalue]
  rfl

/-- Behind a decimal point the total joins a numeral; inside of 200 brackets no other bracket may be opened. -/
theorem total_joins_point :
    let d : Dice := .fixed 3
    let opened := List.replicate 200 '('
    let closed := List.replicate 200 ')'
    d.InRange ∧
      (letters "1.1d6".toList = 1 ∧ (∃ p, firstPattern? "1.1d6".toList = some ("1.".toList, p, [])) ∧
        (∃ r d', (roll "1.1d6".toList).run d = (.ok r, d') ∧ r.groups = [⟨.faces 6, [3]⟩] ∧ r.text = "1.3".toList) ∧
        (∃ v, outcome ("1.".toList ++ ofInt 3) = .number v) ∧
        ∀ v, outcome ("1.".toList ++ '(' :: ofInt 3 ++ [')']) ≠ .number v) ∧
      letters (opened ++ "1d6".toList ++ closed) = 1 ∧
      (∃ p, firstPattern? (opened ++ "1d6".toList ++ closed) = some (opened, p, closed)) ∧
      (∃ r d', (roll (opened ++ "1d6".toList ++ closed)).run d = (.ok r, d') ∧ r.groups = [⟨.faces 6, [3]⟩] ∧
        r.text = ['3']) ∧
      (∃ v, outcome (opened ++ ofInt 3 ++ closed) = .number v) ∧
      ∀ v, outcome (opened ++ '(' :: ofInt 3 ++ ')' :: closed) ≠ .number v := by
  intro d opened closed
  have hd : d.InRange := Plain.inRange_fixed 3
  obtain ⟨r, e, hrun, hr⟩ := Act.exists_of_run_map (a := roll "1.1d6".toList) (s := d)
    (f := fun r => (r.groups, r.text)) (y := ([⟨.faces 6, [3]⟩], "1.3".toList)) (by decide +kernel)
  obtain ⟨v, hv, -⟩ := exists_of_shown? (o := outcome ("1.".toList ++ ofInt 3)) (t := "1.3".toList) (by decide +kernel)
  -- inside of the brackets, what is left is read once, which takes long
  obtain ⟨v', hv', hdisplay⟩ := exists_of_shown? (o := outcome (opened ++ ofInt 3 ++ closed)) (t := ['3'])
    (by decide +kernel)
  have hfirst : firstPattern? (strip (opened ++ "1d6".toList ++ closed)) =
      some (opened, ⟨"1d6".toList, ['1'], ['6'], none, none⟩, closed) := by decide +kernel
  have hrun' := roll_of_group (d := d) (by decide +kernel) (by decide +kernel) hfirst rfl rfl hv'
  exact ⟨hd, ⟨by decide +kernel, ⟨⟨"1d6".toList, ['1'], ['6'], none, none⟩, by decide +kernel⟩,
    ⟨r, e, hrun, congrArg Prod.fst hr, congrArg Prod.snd hr⟩, ⟨v, hv⟩, ne_number_of_shown? (by decide +kernel)⟩,
    by decide +kernel, ⟨⟨"1d6".toList, ['1'], ['6'], none, none⟩, by decide +kernel⟩,
    ⟨_, _, hrun', rfl, hdisplay⟩, ⟨v', hv'⟩, ne_number_of_shown? (by decide +kernel)⟩

end Shorthand

end TabletopChat
