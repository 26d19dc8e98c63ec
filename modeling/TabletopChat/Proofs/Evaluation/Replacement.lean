import TabletopChat.Proofs.Dice.Shorthand.Rounds
import TabletopChat.Proofs.Evaluation.Postorder

/-!
# Proofs/Evaluation/Replacement — what takes the place of rolls and of references

Whatever is wrong with a roll, with inline math or with a reference is dealt with where it stands. A roll
that cannot be rolled is called invalid, and what cannot be calculated is replaced by what is said about
it. A reference to a result that is not known stays, and one that is malformed leaves nothing.

- `Visit.Explained` : what is written down for a roll, and why
- `Record.Malformed`, `Records.Shows` : what a reference shows
- `Replaced`        : a message with its rolls and references replaced
- `replaced_of_run` : the result of an evaluation
-/

namespace TabletopChat

namespace Evaluation

open Text Markup Diagnostics

/-! ## Rolls -/

/-- What is written down for a roll that was evaluated: nothing if it is blank, and otherwise what its
expression says as inline math, or gives when its dice are rolled. -/
inductive Visit.Explained : Visit → Prop
  | blank {kind : Kind} {source : Text} (h : allBlank (explicitName source).2 = true) :
      Visit.Explained ⟨kind, source, none⟩
  | math {source name result : Text} (hlive : allBlank (explicitName source).2 = false)
      (h : Arithmetic.Says (explicitName source).2 result) :
      Visit.Explained ⟨.math, source, some (name, ⟨result, []⟩)⟩
  | roll {source name : Text} {rec : Record} (hlive : allBlank (explicitName source).2 = false)
      (h : Shorthand.Gives (explicitName source).2 rec.result rec.groups) :
      Visit.Explained ⟨.roll, source, some (name, rec)⟩

variable {s s' : State} {v : Visit} {vs : List Visit}

/-- Inline math says what its expression does. -/
theorem says_of_arithmetic {expression result : Text}
    (h : (arithmetic expression).run s = (.ok result, s')) : Arithmetic.Says expression result := by
  rw [arithmetic_unlimited] at h
  split at h
  · rename_i hvalue
    cases h
    exact Arithmetic.says_of_number hvalue
  · rename_i hwhy
    cases h
    exact Arithmetic.says_of_fault hwhy
  · cases h

/-- A roll gives what its expression does. -/
theorem gives_of_rollShorthand {expression : Text} {rec : Record}
    (h : (rollShorthand expression).run s = (.ok rec, s')) :
    Shorthand.Gives expression rec.result rec.groups := by
  obtain ⟨r, t, hzoom, hrest⟩ := Act.exists_of_run_bind h
  rcases hroll : (Shorthand.roll expression).run s.dice with ⟨result, d⟩
  have hstep : Shorthand.roll expression none s.dice = (result, d) := hroll
  simp only [Act.run, Act.zoom, hstep] at hzoom
  cases hzoom
  have hgives := Shorthand.gives_of_roll hroll
  -- a remark changes nothing about the result
  split at hrest <;> cases hrest <;> exact hgives

/-- A roll that was evaluated is explained by its expression. -/
theorem Visit.Runs.explained (h : v.Runs .shorthand s s') : v.Explained := by
  cases h with
  | blank hblank => exact .blank hblank
  | @live kind expression name rec _ _ _ _ hlive _ hproduce =>
      cases kind with
      | roll => exact .roll hlive (gives_of_rollShorthand hproduce)
      | math =>
          obtain ⟨result, _, harithmetic, hrest⟩ := Act.exists_of_run_bind hproduce
          cases hrest
          exact .math hlive (says_of_arithmetic harithmetic)

theorem Chain.explained (h : Chain .shorthand s vs s') : ∀ v ∈ vs, v.Explained := by
  induction h with
  | nil => exact List.forall_mem_nil _
  | cons hruns _ ih => exact List.forall_mem_cons.2 ⟨hruns.explained, ih⟩

/-! ## References -/

/-- A view of a result that is not asked for as it has to be: the mode is not known, the options are not
those of the mode, the group of dice does not exist, or the threshold is no integer. -/
structure Record.Malformed (rec : Record) (mode : Text) (options : List Text) : Prop where
  result : mode ≠ "result".toList
  crit : mode = "crit".toList → ∀ index threshold, options = [index, threshold] →
    rec.group? index = none ∨ toInt? (strip threshold) = none
  fumble : mode = "fumble".toList → ∀ index, options = [index] → rec.group? index = none

/-- A view that is malformed is empty. -/
theorem Record.view_of_malformed {rec : Record} {mode : Text} {options : List Text}
    (h : rec.Malformed mode options) : rec.view mode options = [] := by
  unfold Record.view
  rw [if_neg h.result]
  split
  · rename_i hcrit
    split
    · rename_i index threshold
      rcases h.crit hcrit index threshold rfl with hgroup | hthreshold
      · rw [hgroup]
      · rw [hthreshold]
        cases rec.group? index <;> rfl
    · rfl
  · split
    · rename_i hfumble
      split
      · rename_i index
        rw [h.fumble hfumble index rfl]
      · rfl
    · rfl

/-- What stands in place of a reference. -/
inductive Records.Shows (r : Records) (ref : Reference) (source : Text) : Text → Prop
  | unknown (h : r.get? ref.name = none) : Records.Shows r ref source source
  | malformed {rec : Record} (hrec : r.get? ref.name = some rec)
      (h : rec.Malformed ref.mode ref.options) : Records.Shows r ref source []
  | view {rec : Record} (hrec : r.get? ref.name = some rec)
      (h : ¬ rec.Malformed ref.mode ref.options) :
      Records.Shows r ref source (rec.view ref.mode ref.options)

/-- A reference shows what it should. -/
theorem Records.shows_resolve (r : Records) (ref : Reference) (source : Text) :
    r.Shows ref source (r.resolve ref source) := by
  unfold Records.resolve
  split
  · rename_i rec hrec
    by_cases hmalformed : rec.Malformed ref.mode ref.options
    · rw [Record.view_of_malformed hmalformed]
      exact .malformed hrec hmalformed
    · exact .view hrec hmalformed
  · rename_i hnone
    exact .unknown hnone

/-! ## Messages -/

/-- A message with its rolls and references replaced. The rolls go from the inside out, where the results
of inner rolls are a part of the expression around them, and what is written down for them is what
references refer to. -/
inductive Replaced (inlineMath tooltips : Bool) (message : Text) : Text → Prop
  | intro {es : List Evaluated} {records : Records} {t : Text}
      (hnodes : nodesOf es = (parse inlineMath message).children)
      (hvisits : ∀ v ∈ visitsOf es, v.Explained)
      (hrecords : records.entries = Entries.update [] ((visitsOf es).filterMap Visit.made))
      (hshown : Woven records.Shows
        (tagPieces reference? (es.flatMap (Evaluated.shown (tooltips && !isCommand message)))) t) :
      Replaced inlineMath tooltips message t

/-- The result of an evaluation is a message with its rolls and references replaced. -/
theorem replaced_of_run {inlineMath tooltips : Bool} {message t : Text} (hfresh : s.records = .empty)
    (hrun : (do
      let t ← evaluateRolls ⟨.shorthand, tooltips, inlineMath⟩ message
      substituteReferences t).run s = (.ok t, s')) : Replaced inlineMath tooltips message t := by
  obtain ⟨u, w, hrolls, hreferences⟩ := Act.exists_of_run_bind hrun
  cases hreferences
  obtain ⟨es, hnodes, rfl, hchain⟩ := evaluateTop_chain _ _ hrolls
  have hrecords : w.records.entries = Entries.update [] ((visitsOf es).filterMap Visit.made) := by
    rw [hchain.entries_eq, hfresh]
    rfl
  exact .intro hnodes hchain.explained hrecords (woven_replaceTags w.records.shows_resolve _ _)

end Evaluation

end TabletopChat
