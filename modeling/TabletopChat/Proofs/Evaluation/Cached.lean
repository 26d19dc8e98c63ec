import TabletopChat.Evaluation.Evaluate
import TabletopChat.Proofs.Dice.Notation.Shape

/-!
# Proofs/Evaluation/Cached — dice notation that was read during an evaluation

Whatever is evaluated, the cache of dice notation is only ever filled by reading one text after the other,
also when an evaluation stops early.

- `KeepsCache`               : an action that fills the cache in no other way
- `evaluateRolls_keepsCache` : the rolls of a message
-/

namespace TabletopChat

namespace Evaluation

open Act Markup

variable {α β : Type}

/-- An action that leads from caches that reading texts leads to, to such caches. -/
def KeepsCache (a : Step α) : Prop := Always (fun s s' => s.cache.Reached → s'.cache.Reached) a

theorem KeepsCache.bind {a : Step α} {f : α → Step β} (ha : KeepsCache a) (hf : ∀ x, KeepsCache (f x)) :
    KeepsCache (a >>= f) := by
  refine Always.bind (fun hst htu => ?_) ha hf
  intro hs
  exact htu (hst hs)

/-- Most actions do not touch the cache. -/
theorem KeepsCache.of_eq {a : Step α} (h : ∀ s, (a.run s).2.cache = s.cache) : KeepsCache a := by
  intro s hs
  rwa [h s]

theorem keepsCache_pure (x : α) : KeepsCache (pure x : Step α) := .of_eq fun _ => rfl

/-! ## Expressions -/

theorem arithmetic_keepsCache (expression : Text) (calls : Option Nat) :
    KeepsCache (arithmetic expression calls) := by
  have hensure : KeepsCache (ensure (Arithmetic.affordable calls expression) .callsTooDeep) := by
    refine .of_eq fun s => ?_
    rw [run_ensure]
  refine hensure.bind fun _ => ?_
  split
  · exact keepsCache_pure _
  · exact KeepsCache.bind (.of_eq fun _ => rfl) fun _ => keepsCache_pure _
  · exact .of_eq fun _ => rfl

theorem rollShorthand_keepsCache (expression : Text) (calls : Option Nat) :
    KeepsCache (rollShorthand expression calls) := by
  refine KeepsCache.bind (.of_eq fun _ => rfl) fun r => ?_
  split
  · exact KeepsCache.bind (.of_eq fun _ => rfl) fun _ => keepsCache_pure _
  · exact keepsCache_pure _

/-- Only rolling in dice notation reads a text into the cache. -/
theorem rollNotation_keepsCache (expression : Text) : KeepsCache (rollNotation expression) := by
  intro s hs
  have hroll := Notation.roll_keeps expression ⟨s.dice, s.cache⟩ hs
  rcases hrun : (Notation.roll expression).run ⟨s.dice, s.cache⟩ with ⟨r, t⟩
  rw [hrun] at hroll
  simp only [rollNotation, Act.run] at hrun ⊢
  rw [hrun]
  cases r with
  | ok o => exact hroll
  | error h => cases h <;> exact hroll

theorem evaluateNotation_keepsCache (expression : Text) (calls : Option Nat) :
    KeepsCache (evaluateNotation expression calls) := by
  refine (rollNotation_keepsCache expression).bind fun rolled => ?_
  cases rolled with
  | ok o => exact (arithmetic_keepsCache _ _).bind fun _ => keepsCache_pure _
  | error f => exact KeepsCache.bind (.of_eq fun _ => rfl) fun _ => keepsCache_pure _

theorem produce_keepsCache (roller : Roller) (expression : Text) (kind : Kind) :
    KeepsCache (produce roller expression kind) := by
  cases kind with
  | math => exact (arithmetic_keepsCache expression _).bind fun _ => keepsCache_pure _
  | roll =>
      cases roller with
      | shorthand calls => exact rollShorthand_keepsCache expression calls
      | extended calls => exact evaluateNotation_keepsCache expression calls

theorem interpret_keepsCache (roller : Roller) (kind : LeafKind) (source : Text) :
    KeepsCache (interpret roller kind source) := by
  have hname (explicit : Option Text) : KeepsCache (chooseName explicit) := by
    cases explicit <;> exact .of_eq fun _ => rfl
  unfold interpret
  dsimp only
  split
  · exact keepsCache_pure _
  · refine (hname _).bind fun name => ?_
    cases kind with
    | other => exact keepsCache_pure _
    | node kind =>
        refine (produce_keepsCache roller _ kind).bind fun rec => ?_
        exact KeepsCache.bind (.of_eq fun _ => rfl) fun _ => keepsCache_pure _

/-! ## Messages -/

mutual

theorem evaluateNode_keepsCache (roller : Roller) (n : Node) : KeepsCache (evaluateNode roller n) := by
  cases n with
  | text t span => exact keepsCache_pure t
  | roll kind closed children span =>
      exact (evaluateNodes_keepsCache roller children).bind fun _ => interpret_keepsCache roller _ _

theorem evaluateNodes_keepsCache (roller : Roller) (ns : List Node) :
    KeepsCache (evaluateNodes roller ns) := by
  cases ns with
  | nil => exact keepsCache_pure _
  | cons n ns =>
      exact (evaluateNode_keepsCache roller n).bind fun _ =>
        (evaluateNodes_keepsCache roller ns).bind fun _ => keepsCache_pure _

end

theorem evaluateTop_keepsCache (roller : Roller) (tooltips : Bool) (ns : List Node) :
    KeepsCache (evaluateTop roller tooltips ns) := by
  induction ns with
  | nil => exact keepsCache_pure _
  | cons n ns ih =>
      exact (evaluateNode_keepsCache roller n).bind fun _ => ih.bind fun _ => keepsCache_pure _

/-- Whatever rolls there are in a message, the cache is filled by reading texts only. -/
theorem evaluateRolls_keepsCache (settings : Settings) (message : Text) :
    KeepsCache (evaluateRolls settings message) :=
  evaluateTop_keepsCache _ _ _

theorem substituteReferences_keepsCache (message : Text) : KeepsCache (substituteReferences message) :=
  .of_eq fun _ => rfl

end Evaluation

end TabletopChat
