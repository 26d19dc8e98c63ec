import TabletopChat.Evaluation.Evaluate

/-!
# Proofs/Evaluation/CallLimit — hosts that do not allow calls to be nested

A host may limit how many calls are open at once while arithmetic is evaluated. Such a limit changes no
result. Where it is too low for an expression the evaluation stops, and for each evaluation there is a
depth from which on no limit is too low.

- `Act.Refines`          : the same end as without a limit, or a stop below some depth
- `produce_refines`      : one expression
- `evaluateRolls_refines` : a whole message
-/

namespace TabletopChat

/-! ## Actions with a limit -/

namespace Act

variable {σ τ α β : Type}

/-- From every state an action with a limit ends as the one without a limit does, unless the limit is
below some depth and calls are nested too deep for it. -/
def Refines (b : Nat → Act Abort σ α) (a : Act Abort σ α) : Prop :=
  ∀ s, ∃ depth, ∀ n, (b n).run s = a.run s ∨
    n < depth ∧ ((b n).run s).1 = .error .callsTooDeep

theorem Refines.refl (a : Act Abort σ α) : Refines (fun _ => a) a := fun _ => ⟨0, fun _ => .inl rfl⟩

/-- Where a limit changes nothing in two actions, it changes nothing in the one after the other. -/
theorem Refines.bind {b : Nat → Act Abort σ α} {a : Act Abort σ α} {g : Nat → α → Act Abort σ β}
    {f : α → Act Abort σ β} (ha : Refines b a) (hf : ∀ x, Refines (g · x) (f x)) :
    Refines (fun n => b n >>= g n) (a >>= f) := by
  intro s
  obtain ⟨m, hm⟩ := ha s
  have hstop {n : Nat} (h : ((b n).run s).1 = .error .callsTooDeep) :
      ((b n >>= g n).run s).1 = .error .callsTooDeep := by
    have hrun : (b n).run s = (.error .callsTooDeep, ((b n).run s).2) := Prod.ext h rfl
    rw [run_bind_of_error hrun]
  rcases hrun : a.run s with ⟨result, t⟩
  cases result with
  | error e =>
      refine ⟨m, fun n => ?_⟩
      rcases hm n with hsame | ⟨hlt, htoo⟩
      · rw [hrun] at hsame
        exact .inl (by rw [run_bind_of_error hsame, run_bind_of_error hrun])
      · exact .inr ⟨hlt, hstop htoo⟩
  | ok x =>
      -- behind the first action, the depth of the second counts as well
      obtain ⟨k, hk⟩ := hf x t
      refine ⟨max m k, fun n => ?_⟩
      rcases hm n with hsame | ⟨hlt, htoo⟩
      · rw [hrun] at hsame
        rw [run_bind_of_ok hsame, run_bind_of_ok hrun]
        exact (hk n).imp_right fun ⟨hlt, htoo⟩ => ⟨by omega, htoo⟩
      · exact .inr ⟨by omega, hstop htoo⟩

/-- An action on a part of a state. -/
theorem Refines.zoom {b : Nat → Act Abort τ α} {a : Act Abort τ α} (h : Refines b a) (view : σ → τ)
    (update : τ → σ → σ) : Refines (fun n => (b n).zoom view update) (a.zoom view update) := by
  intro s
  obtain ⟨m, hm⟩ := h (view s)
  refine ⟨m, fun n => (hm n).imp (fun hsame => ?_) fun ⟨hlt, htoo⟩ => ⟨hlt, htoo⟩⟩
  have hstep : b n (view s) = a (view s) := hsame
  simp only [Act.run, Act.zoom, hstep]

/-- A text needs a number of calls, and each limit below it is too low. -/
theorem ensure_refines (expression : Text) :
    Refines (σ := σ) (fun n => ensure (Arithmetic.affordable (some n) expression) .callsTooDeep)
      (ensure (Arithmetic.affordable none expression) .callsTooDeep) := by
  intro s
  refine ⟨Arithmetic.callsOf expression, fun n => ?_⟩
  rw [run_ensure, run_ensure]
  by_cases hn : Arithmetic.callsOf expression ≤ n
  · exact .inl (by simp [Arithmetic.affordable, hn])
  · exact .inr ⟨by omega, by simp [Arithmetic.affordable, hn]⟩

end Act

open Act

/-! ## Rolling dice in place -/

namespace Shorthand

theorem finish_refines (expression residue : Text) (groups : List DieGroup) :
    Refines (fun n => finish expression residue groups (some n)) (finish expression residue groups) :=
  (ensure_refines residue).bind fun _ => .refl _

/-- Rolling group after group: a limit matters only for the text that is left in the end. -/
theorem rollGroups_refines (expression : Text) (fuel : Nat) (groups : List DieGroup) (t : Text) :
    Refines (fun n => rollGroups expression fuel groups t (some n)) (rollGroups expression fuel groups t) := by
  induction fuel generalizing groups t with
  | zero => exact finish_refines expression t groups
  | succ fuel ih =>
      unfold rollGroups
      split
      · exact finish_refines expression t groups
      · split
        · exact .refl _
        · exact (Refines.refl _).bind fun _ => ih _ _

/-- A roll with a limit on open calls is the roll without one, or stops because of the limit. -/
theorem roll_refines (expression : Text) :
    Refines (fun n => roll expression (some n)) (roll expression) := by
  unfold roll
  dsimp only
  split
  · exact .refl _
  · exact rollGroups_refines _ _ _ _

end Shorthand

namespace Evaluation

open Markup

/-! ## Expressions -/

theorem arithmetic_refines (expression : Text) :
    Refines (fun n => arithmetic expression (some n)) (arithmetic expression) :=
  (ensure_refines expression).bind fun _ => .refl _

/-- One expression, however it is read. -/
theorem produce_refines (roller : Roller) (expression : Text) (kind : Kind) :
    Refines (fun n => produce (roller.within (some n)) expression kind)
      (produce (roller.within none) expression kind) := by
  cases kind with
  | math =>
      cases roller <;> exact (arithmetic_refines expression).bind fun _ => .refl _
  | roll =>
      cases roller with
      | shorthand =>
          exact ((Shorthand.roll_refines expression).zoom _ _).bind fun _ => .refl _
      | extended =>
          refine (Refines.refl (rollNotation expression)).bind fun rolled => ?_
          cases rolled with
          | ok o => exact (arithmetic_refines _).bind fun _ => .refl _
          | error f => exact .refl _

/-- A name is chosen before anything is calculated. -/
theorem interpret_refines (roller : Roller) (kind : LeafKind) (source : Text) :
    Refines (fun n => interpret (roller.within (some n)) kind source)
      (interpret (roller.within none) kind source) := by
  unfold interpret
  dsimp only
  split
  · exact .refl _
  · refine (Refines.refl _).bind fun name => ?_
    cases kind with
    | other => exact .refl _
    | node kind => exact (produce_refines roller _ kind).bind fun _ => .refl _

/-! ## Messages -/

mutual

theorem evaluateNode_refines (roller : Roller) (n : Node) :
    Refines (fun calls => evaluateNode (roller.within (some calls)) n)
      (evaluateNode (roller.within none) n) := by
  cases n with
  | text t span => exact .refl _
  | roll kind closed children span =>
      exact (evaluateNodes_refines roller children).bind fun _ => interpret_refines roller _ _

/-- And so are several nodes. -/
theorem evaluateNodes_refines (roller : Roller) (ns : List Node) :
    Refines (fun calls => evaluateNodes (roller.within (some calls)) ns)
      (evaluateNodes (roller.within none) ns) := by
  cases ns with
  | nil => exact .refl _
  | cons n ns =>
      exact (evaluateNode_refines roller n).bind fun _ =>
        (evaluateNodes_refines roller ns).bind fun _ => .refl _

end

theorem evaluateTop_refines (roller : Roller) (tooltips : Bool) (ns : List Node) :
    Refines (fun calls => evaluateTop (roller.within (some calls)) tooltips ns)
      (evaluateTop (roller.within none) tooltips ns) := by
  induction ns with
  | nil => exact .refl _
  | cons n ns ih =>
      exact (evaluateNode_refines roller n).bind fun _ => ih.bind fun _ => .refl _

/-- The rolls of a message have the results that they have without a limit, or calls are nested too deep
for the limit. -/
theorem evaluateRolls_refines (roller : Roller) (tooltips inlineMath : Bool) (message : Text) :
    Refines (fun calls => evaluateRolls ⟨roller.within (some calls), tooltips, inlineMath⟩ message)
      (evaluateRolls ⟨roller.within none, tooltips, inlineMath⟩ message) :=
  evaluateTop_refines roller (tooltips && !isCommand message) (parse inlineMath message).children

end Evaluation

end TabletopChat
