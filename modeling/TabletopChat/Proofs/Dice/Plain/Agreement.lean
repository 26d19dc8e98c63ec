import Mathlib.Algebra.Order.BigOperators.Group.List
import Mathlib.Algebra.Order.Group.Nat
import TabletopChat.Evaluation.Evaluate
import TabletopChat.Proofs.Dice.Plain.Replacing
import TabletopChat.Proofs.Dice.Plain.Value

/-!
# Proofs/Dice/Plain/Agreement — both ways to roll agree on plain expressions

Rolling in place and rolling in dice notation draw the same dice for a plain expression, in the same
order, and evaluate the same expression: the one without gaps, the other with gaps around operators.

- `shorthand_run`, `extended_run` : one expression, rolled in each way
- `rollers_agree`                 : a roll node in a message
-/

namespace TabletopChat

open Act

def Evaluation.Records.groups (r : Records) : List (Text × List DieGroup) :=
  r.entries.map fun e => (e.1, e.2.groups)

namespace Plain

open Evaluation

/-! ## Rolled expressions -/

theorem sound_of_fits {e : Expression Term} (h : e.Fits) : ∀ t ∈ e.leaves, t.Sound := by
  intro t ht
  refine ⟨h.terms t ht, ?_⟩
  have hsum : t.rolls ≤ rollsOf e.leaves := List.le_sum_of_mem (List.mem_map_of_mem ht)
  exact Nat.le_trans hsum h.rolls

def Shown.value (a : Shown) : Nat := Text.digitsValue a.text

/-- Numbers that fit are shown as numerals that are read back. -/
theorem Shown.numeric {as : List Shown} (h : ∀ a ∈ as, a.Small) :
    Numeric Shown.text Shown.value as := by
  intro a ha
  rcases h a ha with ⟨n, htext, hn⟩
  have hvalue : a.value = n := by rw [Shown.value, htext, Text.digitsValue_ofNat]
  have hdigits : 10 ^ 200 ≤ 10 ^ Arithmetic.maxDigits := Nat.pow_le_pow_right (by decide) (by decide)
  rw [hvalue]
  exact ⟨htext, Nat.lt_of_lt_of_le hn hdigits⟩

/-- The dice of the terms are those of the pieces. -/
theorem groupsOf_map_term (qs : List (Piece Shown)) :
    Notation.groupsOf (qs.map Piece.term) = groupsAmong qs := by
  induction qs with
  | nil => rfl
  | cons q qs ih =>
    cases q with
    | leaf a =>
      cases a with
      | number n => exact ih
      | dice g => exact congrArg (g :: ·) ih
    | _ => exact ih

/-- With totals for dice, the terms are the text of the pieces, with blanks around the operators. -/
theorem arithmeticOf_map_term (qs : List (Piece Shown)) :
    Notation.arithmeticOf (qs.map Piece.term) = textOf [' '] Shown.text qs := by
  induction qs with
  | nil => rfl
  | cons q qs ih =>
    rw [textOf_cons, ← ih]
    cases q with
    | leaf a => cases a <;> rfl
    | _ => rfl

def shownText : Arithmetic.Outcome → Text
  | .number v => v.display
  | .fault why => why
  | .unreadable => []

/-- A rolled expression has a value or a fault. -/
theorem Rolls.outcome_ne_unreadable {depth : Nat} {qs : List (Piece Shown)} (h : Rolls depth qs)
    {gap : Text} (hgap : isGapText gap) :
    Arithmetic.outcome (textOf gap Shown.text qs) ≠ .unreadable := by
  rcases h with ⟨f, rfl, -, hsmall⟩
  exact Plain.outcome_ne_unreadable hgap (Shown.numeric hsmall)

/-- With gaps, a rolled expression is worth the same, if it is not nested too deep. -/
theorem Rolls.outcome_eq {depth : Nat} {qs : List (Piece Shown)} (h : Rolls depth qs)
    (hdepth : depth ≤ Arithmetic.maxDepth) :
    Arithmetic.outcome (textOf [' '] Shown.text qs) = Arithmetic.outcome (textOf [] Shown.text qs) := by
  rcases h with ⟨f, rfl, rfl, hsmall⟩
  exact outcome_textOf (.inr rfl) (Shown.numeric hsmall) hdepth

/-! ## One expression -/

/-- What is left of a roll says what arithmetic makes of it, and draws nothing. -/
theorem finish_run {expression residue : Text} (h : Arithmetic.outcome residue ≠ .unreadable)
    (groups : List DieGroup) (d : Dice) :
    ∃ warning, (Shorthand.finish expression residue groups).run d =
      (.ok ⟨shownText (Arithmetic.outcome residue), groups, warning⟩, d) := by
  rw [Shorthand.finish_unlimited]
  cases hresult : Arithmetic.outcome residue with
  | number v => exact ⟨none, rfl⟩
  | fault why => exact ⟨_, rfl⟩
  | unreadable => exact absurd hresult h

/-- The shorthand dice add at most a remark. -/
theorem rollShorthand_run {expression : Text} {s : State} {text : Text} {groups : List DieGroup}
    {warning : Option Text} {d : Dice}
    (h : (Shorthand.roll expression).run s.dice = (.ok ⟨text, groups, warning⟩, d)) :
    ∃ journal, (rollShorthand expression).run s =
      (.ok ⟨text, groups⟩, { s with dice := d, journal := journal }) := by
  have hzoom : ((Shorthand.roll expression).zoom State.dice fun d s => { s with dice := d }).run s =
      (.ok ⟨text, groups, warning⟩, { s with dice := d }) := by
    have hstep : Shorthand.roll expression none s.dice = (.ok ⟨text, groups, warning⟩, d) := h
    simp only [Act.run, Act.zoom, hstep]
  rw [rollShorthand, run_bind_of_ok hzoom]
  cases warning with
  | none => exact ⟨s.journal, rfl⟩
  | some w => exact ⟨_, rfl⟩

/-- An expression that fits is rolled with shorthand dice as its pieces are, and what is left is evaluated
without blanks. -/
theorem shorthand_run {e : Expression Term} (h : e.Fits) {s : State} (hs : s.dice.InRange) :
    ∃ journal, (rollShorthand e.write).run s =
      match (rollPieces e.pieces).run s.dice with
      | (.ok qs, d) =>
        (.ok ⟨shownText (Arithmetic.outcome (textOf [] Shown.text qs)), groupsAmong qs⟩,
          { s with dice := d, journal := journal })
      | (.error a, d) => (.error a, { s with dice := d, journal := journal }) := by
  have hroll := roll_write (sound_of_fits h) s.dice hs
  have hrolled := (rollPieces_ensures e (sound_of_fits h)) s.dice hs
  rcases hrun : (rollPieces e.pieces).run s.dice with ⟨a | qs, d⟩
  · rw [run_bind_of_error hrun] at hroll
    have hstep : Shorthand.roll e.write none s.dice = (.error a, d) := hroll
    refine ⟨s.journal, run_bind_of_error ?_⟩
    simp only [Act.run, Act.zoom, hstep]
  · rw [hrun] at hrolled
    have hreadable := (hrolled.2 qs rfl).outcome_ne_unreadable (.inl rfl)
    rcases finish_run hreadable (groupsAmong qs) d with ⟨warning, hfinish⟩
    rw [run_bind_of_ok hrun, hfinish] at hroll
    exact rollShorthand_run hroll

/-- With an empty cache, a text is read by the rules of dice notation. -/
theorem readText_run {e : Expression Term} (h : e.Fits) (d : Dice) :
    ∃ x cache, (Notation.readText e.write).run ⟨d, []⟩ = (.ok x, ⟨d, cache⟩) ∧ Spells x e.pieces := by
  rcases parse_write h.terms with ⟨x, hparse, hx⟩
  refine ⟨x, [(Notation.cacheKey e.write, x)], ?_, hx⟩
  simp only [Act.run, Notation.readText, Notation.parseCached, List.find?_nil, hparse]
  rfl

/-- In dice notation its pieces are rolled as well, in the same order. -/
theorem notation_run {e : Expression Term} (h : e.Fits) (d : Dice) :
    ∃ cache, match (rollPieces e.pieces).run d with
      | (.ok qs, d') => ∃ r, (Notation.roll e.write).run ⟨d, []⟩ =
          (.ok ⟨r, qs.map Piece.term⟩, ⟨d', cache⟩)
      | (.error a, d') => (Notation.roll e.write).run ⟨d, []⟩ = (.error (.abort a), ⟨d', cache⟩) := by
  rcases readText_run h d with ⟨x, cache, hread, hx⟩
  have hcarries := spells_carries hx h.terms d 0 (by rw [Nat.zero_add]; exact h.rolls)
  refine ⟨cache, ?_⟩
  rw [Notation.roll, run_bind_of_ok hread]
  rcases hrun : (rollPieces e.pieces).run d with ⟨a | qs, d'⟩
  · rw [hrun] at hcarries
    rcases hcarries with ⟨r', hroll⟩
    have hstep : x.roll ⟨d, 0⟩ = (.error (.abort a), ⟨d', r'⟩) := hroll
    refine run_bind_of_error ?_
    simp only [Notation.rollTree, Act.run, Act.zoom, hstep]
  · rw [hrun] at hcarries
    rcases hcarries with ⟨r, hroll, hflatten⟩
    have hstep : x.roll ⟨d, 0⟩ = (.ok r, ⟨d', _⟩) := hroll
    have htree : (Notation.rollTree x).run ⟨d, cache⟩ = (.ok r, ⟨d', cache⟩) := by
      simp only [Notation.rollTree, Act.run, Act.zoom, hstep]
    have hterms : Notation.termsOf r = pure (qs.map Piece.term) := by
      rw [Notation.termsOf, hflatten]
    refine ⟨r, ?_⟩
    rw [run_bind_of_ok htree, hterms]
    rfl

/-- Arithmetic gives what is shown, and changes nothing but what is said. -/
theorem arithmetic_run {expression : Text} (h : Arithmetic.outcome expression ≠ .unreadable)
    (s : State) :
    ∃ journal, (arithmetic expression).run s =
      (.ok (shownText (Arithmetic.outcome expression)), { s with journal := journal }) := by
  rw [arithmetic_unlimited]
  cases hresult : Arithmetic.outcome expression with
  | number v => exact ⟨s.journal, rfl⟩
  | fault why => exact ⟨_, rfl⟩
  | unreadable => exact absurd hresult h

/-- In dice notation what is left is evaluated with blanks. -/
theorem extended_run {e : Expression Term} (h : e.Fits) {s : State} (hs : s.dice.InRange)
    (hcache : s.cache = []) :
    ∃ cache journal, (evaluateNotation e.write).run s =
      match (rollPieces e.pieces).run s.dice with
      | (.ok qs, d) =>
        (.ok ⟨shownText (Arithmetic.outcome (textOf [' '] Shown.text qs)), groupsAmong qs⟩,
          { s with dice := d, cache := cache, journal := journal })
      | (.error a, d) => (.error a, { s with dice := d, cache := cache, journal := journal }) := by
  rcases notation_run h s.dice with ⟨cache, hroll⟩
  have hrolled := (rollPieces_ensures e (sound_of_fits h)) s.dice hs
  rcases hrun : (rollPieces e.pieces).run s.dice with ⟨a | qs, d⟩
  · rw [hrun] at hroll
    have hnotation : (rollNotation e.write).run s =
        (.error a, { s with dice := d, cache := cache }) := by
      have hstep : (Notation.roll e.write).run ⟨s.dice, s.cache⟩ = (.error (.abort a), ⟨d, cache⟩) := by
        rw [hcache]
        exact hroll
      rw [Act.run, rollNotation, hstep]
    exact ⟨cache, s.journal, run_bind_of_error hnotation⟩
  · rw [hrun] at hroll hrolled
    rcases hroll with ⟨r, hroll⟩
    have hnotation : (rollNotation e.write).run s =
        (.ok (.ok ⟨r, qs.map Piece.term⟩), { s with dice := d, cache := cache }) := by
      have hstep : (Notation.roll e.write).run ⟨s.dice, s.cache⟩ =
          (.ok ⟨r, qs.map Piece.term⟩, ⟨d, cache⟩) := by
        rw [hcache]
        exact hroll
      rw [Act.run, rollNotation, hstep]
    -- what is left of an expression once its dice are rolled can be read, so that arithmetic has an outcome
    have hreadable := (hrolled.2 qs rfl).outcome_ne_unreadable (.inr rfl)
    rcases arithmetic_run hreadable { s with dice := d, cache := cache } with ⟨journal, hvalue⟩
    refine ⟨cache, journal, ?_⟩
    rw [evaluateNotation, run_bind_of_ok hnotation]
    simp only [groupsOf_map_term, arithmeticOf_map_term]
    rw [run_bind_of_ok hvalue]
    rfl

/-! ## Roll nodes -/

/-- An expression begins neither with a name nor with a blank. -/
theorem exists_write (e : Expression Term) :
    ∃ c cs, e.write = c :: cs ∧ c ≠ '@' ∧ Text.isBlank c = false := by
  rcases e.exists_first with ⟨p, ps, hps, hp⟩
  have hwrite : e.write = p.text [] Term.text ++ textOf [] Term.text ps := by
    rw [Expression.write, hps, textOf_cons]
  cases p with
  | leaf t =>
      rcases exists_text t with ⟨c, cs, htext, hc⟩
      refine ⟨c, cs ++ textOf [] Term.text ps, by simp [hwrite, Piece.text, htext], ?_, ?_⟩
      · rintro rfl
        exact absurd hc (by decide)
      · exact (solid_term t).not_blank c (by simp [htext])
  | sign n => cases n <;> exact ⟨_, _, hwrite, by decide, by decide⟩
  | opening => exact ⟨_, _, hwrite, by decide, by decide⟩
  | closing => exact ⟨_, _, hwrite, by decide, by decide⟩
  | operator op => cases hp

/-- A plain expression has no name in front. -/
theorem explicitName_write (e : Expression Term) : explicitName e.write = (none, e.write) := by
  rcases exists_write e with ⟨c, cs, hwrite, hc, -⟩
  rw [hwrite]
  unfold explicitName
  split
  · rename_i heq
    exact absurd (List.cons.inj heq).1 hc
  · rfl

theorem allBlank_write (e : Expression Term) : Text.allBlank e.write = false := by
  rcases exists_write e with ⟨c, cs, hwrite, -, hc⟩
  simp [Text.allBlank, hwrite, hc]

/-- A roll node that is written with an expression takes the next name and is rolled. -/
theorem evaluateNode_eq (roller : Roller) (e : Expression Term) (closed : Bool)
    (inner outer : Markup.Span) (s : State) :
    (evaluateNode roller (.roll .roll closed [.text e.write inner] outer)).run s =
      (do
        let rec ← produce roller e.write .roll
        record .roll s.records.nextName.1 e.write rec
        pure rec.result : Step Text).run { s with records := s.records.nextName.2 } := by
  have hnode : evaluateNode roller (.roll .roll closed [.text e.write inner] outer) =
      interpret roller (.node .roll) e.write := by
    simp [evaluateNode, evaluateNodes]
  rw [hnode, interpret, explicitName_write]
  simp only [allBlank_write]
  rfl

section Node

variable (roller : Roller) {e : Expression Term} (closed : Bool) (inner outer : Markup.Span)
  {s t : State}

theorem evaluateNode_of_error {a : Abort}
    (h : (produce roller e.write .roll).run { s with records := s.records.nextName.2 } =
      (.error a, t)) :
    (evaluateNode roller (.roll .roll closed [.text e.write inner] outer)).run s = (.error a, t) := by
  rw [evaluateNode_eq, run_bind_of_error h]

theorem evaluateNode_of_ok {rec : Record}
    (h : (produce roller e.write .roll).run { s with records := s.records.nextName.2 } =
      (.ok rec, t)) :
    ∃ journal, (evaluateNode roller (.roll .roll closed [.text e.write inner] outer)).run s =
      (.ok rec.result, { t with
        records := t.records.insert s.records.nextName.1 rec
        journal := journal }) := by
  rw [evaluateNode_eq, run_bind_of_ok h]
  exact ⟨_, rfl⟩

end Node

/-- The dice under a name do not depend on the result there. -/
theorem groups_insert (name a b : Text) (groups : List DieGroup) (r : Records) :
    (r.insert name ⟨a, groups⟩).groups = (r.insert name ⟨b, groups⟩).groups := by
  rcases r with ⟨entries, counter⟩
  simp only [Records.insert, Records.groups]
  induction entries with
  | nil => simp [Entries.insert]
  | cons entry entries ih =>
    simp only [Entries.insert]
    split
    · simp
    · simp only [List.map_cons, ih]

/-- Rolling a plain expression in place and in dice notation draws the same dice and groups them in the
same way, and stops for the same reason if the dice run out. If the brackets are not nested deeper
than arithmetic allows, the results are the same as well. -/
theorem rollers_agree {e : Expression Term} (h : e.Fits) {s : State} (hdice : s.dice.InRange)
    (hcache : s.cache = []) (closed : Bool) (inner outer : Markup.Span) :
    let node : Markup.Node := .roll .roll closed [.text e.write inner] outer
    let short := (evaluateNode .shorthand node).run s
    let extended := (evaluateNode .extended node).run s
    short.2.dice = extended.2.dice ∧
      short.2.records.groups = extended.2.records.groups ∧
      short.1.map (fun _ => ()) = extended.1.map (fun _ => ()) ∧
      (e.depth ≤ 200 → short.1 = extended.1 ∧ short.2.records = extended.2.records) := by
  intro node short extended
  -- a name is taken for the record before the expression is rolled
  let t : State := { s with records := s.records.nextName.2 }
  have ht : t.dice.InRange := hdice
  rcases shorthand_run h ht with ⟨j₁, hrun₁⟩
  rcases extended_run h ht hcache with ⟨cache, j₂, hrun₂⟩
  have hrolled := (rollPieces_ensures e (sound_of_fits h)) t.dice ht
  rcases hrun : (rollPieces e.pieces).run t.dice with ⟨a | qs, d⟩
  · -- the dice have run out at the same draw
    rw [hrun] at hrun₁ hrun₂
    have hshort : short = _ := evaluateNode_of_error .shorthand closed inner outer hrun₁
    have hextended : extended = _ :=
      evaluateNode_of_error .extended closed inner outer hrun₂
    rw [hshort, hextended]
    exact ⟨rfl, rfl, rfl, fun _ => ⟨rfl, rfl⟩⟩
  · rw [hrun] at hrun₁ hrun₂ hrolled
    rcases evaluateNode_of_ok .shorthand closed inner outer hrun₁ with ⟨j₃, hrun₃⟩
    rcases evaluateNode_of_ok .extended closed inner outer hrun₂ with ⟨j₄, hrun₄⟩
    have hshort : short = _ := hrun₃
    have hextended : extended = _ := hrun₄
    rw [hshort, hextended]
    -- the dice agree at any depth; only the two ways to work out the value need the bound on it
    refine ⟨rfl, groups_insert _ _ _ _ _, rfl, ?_⟩
    intro hdepth
    have hvalue := (hrolled.2 qs rfl).outcome_eq hdepth
    rw [hvalue]
    exact ⟨rfl, rfl⟩

def rollNode (e : Expression Term) : Markup.Node :=
  .roll .roll true [.text e.write ⟨.start, .start⟩] ⟨.start, .start⟩

def freshState (d : Dice) : State := ⟨d, [], .empty, []⟩

theorem inRange_fixed (n : Int) : (Dice.fixed n).InRange := by
  intro i a b v hab hv
  cases hv
  omega

/-- `2d6+(3-d4)*2` with dice that show three. -/
theorem rollers_agree_threes :
    let e : Expression Term :=
      .more (.leaf (.dice (some 2) 6)) .add
        (.more (.group (.more (.leaf (.number 3)) .sub (.last (.leaf (.dice none 4))))) .mul
          (.last (.leaf (.number 2))))
    let s := freshState (.fixed 3)
    e.Fits ∧ s.dice.InRange ∧ s.cache = [] ∧ e.depth ≤ 200 ∧
      ((evaluateNode .shorthand (rollNode e)).run s).1 =
        ((evaluateNode .extended (rollNode e)).run s).1 := by
  intro e s
  have hfits : e.Fits := by decide
  have hdepth : e.depth ≤ 200 := by decide
  have hagree := rollers_agree hfits (s := s) (inRange_fixed 3) rfl true ⟨.start, .start⟩ ⟨.start, .start⟩
  exact ⟨hfits, inRange_fixed 3, rfl, hdepth, (hagree.2.2.2 hdepth).1⟩

def brackets : Nat → Expression Term → Expression Term
  | 0, e => e
  | n + 1, e => .last (.group (brackets n e))

def resultText : Except Abort Text → Text
  | .ok t => t
  | .error _ => []

/-- In brackets that are nested too deep, an expression has no value, and what is said about it repeats
it with gaps or without. A die that shows less than asked for is rolled again in place, but not in
dice notation. -/
theorem rollers_differ :
    (let e := brackets 201 (.more (.leaf (.number 1)) .add (.last (.leaf (.number 2))))
      let s := freshState (.fixed 3)
      e.Fits ∧ s.dice.InRange ∧ s.cache = [] ∧
        ((evaluateNode .shorthand (rollNode e)).run s).1 ≠
          ((evaluateNode .extended (rollNode e)).run s).1) ∧
      (let e : Expression Term := .last (.leaf (.dice (some 1) 6))
        let s := freshState (.listed #[0, 3])
        e.Fits ∧ s.cache = [] ∧
          ((evaluateNode .shorthand (rollNode e)).run s).1 ≠
            ((evaluateNode .extended (rollNode e)).run s).1 ∧
          ((evaluateNode .shorthand (rollNode e)).run s).2.dice.drawn ≠
            ((evaluateNode .extended (rollNode e)).run s).2.dice.drawn) := by
  refine ⟨⟨by decide +kernel, inRange_fixed 3, rfl, ?_⟩, by decide +kernel, rfl, ?_, by decide +kernel⟩
  · intro h
    exact absurd (congrArg resultText h) (by decide +kernel)
  · intro h
    exact absurd (congrArg resultText h) (by decide +kernel)

end Plain

end TabletopChat
