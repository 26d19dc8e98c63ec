import TabletopChat.Evaluation.Evaluate
import TabletopChat.Proofs.Dice.Endless
import TabletopChat.Proofs.Markup.Placement

/-!
# Proofs/Evaluation/Returning — rolls that always have a result

An expression without a value is replaced by what is said about it. With dice that never run out, and
texts without null characters, nothing is left that could stop the rolls of a message.

- `Evaluates`               : a part of an evaluation that has a result
- `evaluateRolls_evaluates` : the rolls of a message
-/

namespace TabletopChat

open Text Act

/-! ## Rolls -/

namespace Evaluation

open Markup Dice

def State.withLimit (l : Nat) (s : State) : State := { s with dice := s.dice.withLimit l }

abbrev Evaluates {α : Type} (Q : α → Prop) (a : Step α) : Prop :=
  Succeeds State.withLimit (fun s => s.dice.Endless) Q a

theorem modify_evaluates {f : State → State} (hlimit : ∀ l s, f (s.withLimit l) = (f s).withLimit l)
    (hdice : ∀ s, (f s).dice = s.dice) : Evaluates (fun _ => True) (Act.modify f : Step Unit) :=
  .modify hlimit fun s hs => by rwa [hdice s]

/-- Arithmetic has a result for every text without null characters. -/
theorem arithmetic_evaluates {expression : Text} (h : NulFree expression) :
    Evaluates NulFree (arithmetic expression) := by
  rw [arithmetic_unlimited]
  rcases Arithmetic.outcome_nulFree h with ⟨v, hv⟩ | ⟨why, hwhy, hfree⟩
  · rw [hv]
    exact .pure v.nulFree_display
  · rw [hwhy]
    exact .bind (modify_evaluates (fun _ _ => rfl) fun _ => rfl) fun _ _ => .pure hfree

/-- So has a roll with shorthand dice. -/
theorem rollShorthand_evaluates {expression : Text} (h : NulFree expression) :
    Evaluates (fun rec => NulFree rec.result) (rollShorthand expression) := by
  have hroll : Evaluates (fun r => NulFree r.text)
      ((Shorthand.roll expression).zoom State.dice fun d s => { s with dice := d }) :=
    (Shorthand.roll_succeeds h).zoom (fun _ _ => rfl) (fun _ _ _ => rfl) (fun _ hs => hs)
      fun _ _ _ ht => ht
  refine hroll.bind fun r hr => ?_
  split
  · exact .bind (modify_evaluates (fun _ _ => rfl) fun _ => rfl) fun _ _ => .pure hr
  · exact .pure hr

theorem produce_evaluates {expression : Text} (h : NulFree expression) (kind : Kind) :
    Evaluates (fun rec => NulFree rec.result) (produce .shorthand expression kind) := by
  cases kind with
  | roll => exact rollShorthand_evaluates h
  | math => exact (arithmetic_evaluates h).bind fun _ hr => .pure hr

/-- An expression without its name is free of null characters. -/
theorem nulFree_explicitName {source : Text} (h : NulFree source) :
    NulFree (explicitName source).2 := by
  unfold explicitName
  split
  · rename_i t
    have hcut := (nulFree_cons.1 h).2.cutAt ':'
    split
    · rename_i heq
      rw [heq] at hcut
      exact hcut.2 _ rfl
    · exact h
  · exact h

/-- A roll with its name has a result, too. -/
theorem interpret_evaluates {source : Text} (h : NulFree source) (kind : LeafKind) :
    Evaluates NulFree (interpret .shorthand kind source) := by
  have hname (name : Option Text) : Evaluates (fun _ => True) (chooseName name) := by
    cases name with
    | some name => exact .pure trivial
    | none =>
        intro s hs
        exact ⟨s.records.nextName.1, { s with records := s.records.nextName.2 }, 0, trivial, hs,
          fun _ _ => rfl⟩
  have hexpression := nulFree_explicitName h
  unfold interpret
  dsimp only
  split
  · exact .pure nulFree_nil
  · refine (hname _).bind fun name _ => ?_
    cases kind with
    | other => exact .pure hexpression
    | node kind =>
        refine (produce_evaluates hexpression kind).bind fun rec hrec => ?_
        exact .bind (modify_evaluates (fun _ _ => rfl) fun _ => rfl) fun _ _ => .pure hrec

mutual

/-- A roll has a result, whatever is inside of it. -/
theorem evaluateNode_evaluates (n : Node) (h : NulFree n.source) :
    Evaluates NulFree (evaluateNode .shorthand n) := by
  cases n with
  | text t span =>
      rw [Node.source] at h
      exact .pure h
  | roll kind closed children span =>
      simp only [Node.source, nulFree_append] at h
      exact (evaluateNodes_evaluates children h.1.2).bind fun _ ht => interpret_evaluates ht _

/-- Nodes without null characters have a result. -/
theorem evaluateNodes_evaluates (ns : List Node) (h : NulFree (sourceOf ns)) :
    Evaluates NulFree (evaluateNodes .shorthand ns) := by
  cases ns with
  | nil => exact .pure nulFree_nil
  | cons n ns =>
      simp only [sourceOf, nulFree_append] at h
      refine (evaluateNode_evaluates n h.1).bind fun _ ht => ?_
      exact (evaluateNodes_evaluates ns h.2).bind fun _ hts => .pure (nulFree_append.2 ⟨ht, hts⟩)

end

/-- The top level of a message has a result. -/
theorem evaluateTop_evaluates (tooltips : Bool) {ns : List Node} (h : NulFree (sourceOf ns)) :
    Evaluates (fun _ => True) (evaluateTop .shorthand tooltips ns) := by
  induction ns with
  | nil => exact .pure trivial
  | cons n ns ih =>
      simp only [sourceOf, nulFree_append] at h
      exact (evaluateNode_evaluates n h.1).bind fun _ _ => (ih h.2).bind fun _ _ => .pure trivial

/-- The rolls of a message without null characters have results. -/
theorem evaluateRolls_evaluates (tooltips inlineMath : Bool) {message : Text} (h : NulFree message) :
    Evaluates (fun _ => True) (evaluateRolls ⟨.shorthand, tooltips, inlineMath⟩ message) := by
  refine evaluateTop_evaluates _ ?_
  rwa [(parse_children inlineMath message).2]

theorem substituteReferences_evaluates (message : Text) :
    Evaluates (fun _ => True) (substituteReferences message) := by
  intro s hs
  exact ⟨substitute message s.records,
    { s with journal := unresolved message s.records ++ s.journal }, 0, trivial, hs, fun _ _ => rfl⟩

end Evaluation

end TabletopChat
