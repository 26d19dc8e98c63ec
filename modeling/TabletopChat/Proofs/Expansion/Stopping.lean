import TabletopChat.Proofs.Prompt.Remembered
import TabletopChat.Proofs.Expansion.Returning
import TabletopChat.Proofs.Dice.Finishing
import TabletopChat.Proofs.Expansion.Stages

/-!
# Proofs/Expansion/Stopping — why the expansion of a message stops

Whatever a message, an actor and a library say, the expansion of a message comes to an end if its dice
never run out. It stops at null characters, at numerals that are too long, and where what is remembered
cannot be stored; any other reason comes from choices that are remembered in an unforeseen form, or from
dice notation.

- `Evaluation.evaluateRolls_finishes` : rolls
- `Prompt.resolve_finishes`           : prompts
- `expandMessage_finishes`            : a message
-/

namespace TabletopChat

open Act

variable {untidy notation_ : Prop} {σ α : Type}

/-! ## Rolls -/

namespace Evaluation

open Markup

abbrev Concludes (untidy notation_ : Prop) (a : Step α) : Prop :=
  Finishes State.withLimit (fun s => s.dice.Endless) (Stops untidy notation_) a

theorem modify_finishes {f : State → State} (hlimit : ∀ l s, f (s.withLimit l) = (f s).withLimit l)
    (hdice : ∀ s, (f s).dice = s.dice) : Concludes untidy notation_ (Act.modify f : Step Unit) :=
  (modify_evaluates hlimit hdice).finishes

/-- Arithmetic ends, or stops for a null character. -/
theorem arithmetic_finishes (expression : Text) : Concludes untidy notation_ (arithmetic expression) := by
  rw [arithmetic_unlimited]
  split
  · exact .pure _
  · exact .bind (modify_finishes (fun _ _ => rfl) fun _ => rfl) fun _ => .pure _
  · exact .stop .nullCharacter

theorem rollShorthand_finishes (expression : Text) :
    Concludes untidy notation_ (rollShorthand expression) := by
  have hroll : Concludes untidy notation_
      ((Shorthand.roll expression).zoom State.dice fun d s => { s with dice := d }) :=
    (Shorthand.roll_finishes expression).zoom (fun _ _ => rfl) (fun _ _ _ => rfl) (fun _ hs => hs)
      fun _ _ _ ht => ht
  refine hroll.bind fun r => ?_
  split
  · exact .bind (modify_finishes (fun _ _ => rfl) fun _ => rfl) fun _ => .pure _
  · exact .pure _

/-- A roll in dice notation ends. -/
theorem rollNotation_finishes (h : notation_) (expression : Text) :
    Concludes untidy notation_ (rollNotation expression) := by
  intro s hs
  have hroll : Notation.Concludes untidy notation_ (Notation.roll expression) :=
    Notation.roll_finishes h expression
  rcases hroll ⟨s.dice, s.cache⟩ hs with ⟨r, t, m, hr, ht, hrun⟩
  have hstep (l : Nat) (hl : m ≤ l) : (Notation.roll expression).run
      ⟨(s.withLimit l).dice, (s.withLimit l).cache⟩ = (r, t.withLimit l) := hrun l hl
  cases r with
  | ok o =>
    refine ⟨.ok (.ok o), { s with dice := t.dice, cache := t.cache }, m, trivial, ht, fun l hl => ?_⟩
    simp only [rollNotation, Act.run] at hstep ⊢
    rw [hstep l hl]
    rfl
  | error halt =>
    cases halt with
    | fault f =>
      -- a fault of the expression is a result here
      refine ⟨.ok (.error f), { s with dice := t.dice, cache := t.cache }, m, trivial, ht, fun l hl => ?_⟩
      simp only [rollNotation, Act.run] at hstep ⊢
      rw [hstep l hl]
      rfl
    | abort e =>
      refine ⟨.error e, { s with dice := t.dice, cache := t.cache }, m, hr, ht, fun l hl => ?_⟩
      simp only [rollNotation, Act.run] at hstep ⊢
      rw [hstep l hl]
      rfl

theorem evaluateNotation_finishes (h : notation_) (expression : Text) :
    Concludes untidy notation_ (evaluateNotation expression) := by
  refine (rollNotation_finishes h expression).bind fun r => ?_
  cases r with
  | ok o => exact (arithmetic_finishes _).bind fun _ => .pure _
  | error f => exact .bind (modify_finishes (fun _ _ => rfl) fun _ => rfl) fun _ => .pure _

theorem chooseName_finishes (name : Option Text) : Concludes untidy notation_ (chooseName name) := by
  cases name with
  | some name => exact .pure name
  | none =>
    intro s hs
    exact ⟨.ok s.records.nextName.1, { s with records := s.records.nextName.2 }, 0, trivial, hs,
      fun _ _ => rfl⟩

section Unlimited

/-! Calls may be nested as deep as it takes. -/

variable {roller : Roller} (hcalls : roller.calls = none) (h : roller = .extended → notation_)

include hcalls h

/-- So does an expression of either kind. -/
theorem produce_finishes (expression : Text) (kind : Kind) :
    Concludes untidy notation_ (produce roller expression kind) := by
  cases kind with
  | math =>
    rw [produce, hcalls]
    exact (arithmetic_finishes _).bind fun _ => .pure _
  | roll =>
    cases roller with
    | shorthand calls =>
      obtain rfl : calls = none := hcalls
      exact rollShorthand_finishes _
    | extended calls =>
      obtain rfl : calls = none := hcalls
      exact evaluateNotation_finishes (h rfl) _

/-- So does a roll with its name. -/
theorem interpret_finishes (kind : LeafKind) (source : Text) :
    Concludes untidy notation_ (interpret roller kind source) := by
  unfold interpret
  dsimp only
  split
  · exact .pure _
  · refine (chooseName_finishes _).bind fun name => ?_
    cases kind with
    | other => exact .pure _
    | node kind =>
      exact (produce_finishes hcalls h _ kind).bind fun rec =>
        .bind (modify_finishes (fun _ _ => rfl) fun _ => rfl) fun _ => .pure _

omit hcalls h

mutual

theorem evaluateNode_finishes (hcalls : roller.calls = none) (h : roller = .extended → notation_) (n : Node) :
    Concludes untidy notation_ (evaluateNode roller n) := by
  cases n with
  | text t span => exact .pure _
  | roll kind closed children span =>
    exact (evaluateNodes_finishes hcalls h children).bind fun _ => interpret_finishes hcalls h _ _

/-- Nodes finish with a roller that has no limit on calls. -/
theorem evaluateNodes_finishes (hcalls : roller.calls = none) (h : roller = .extended → notation_)
    (ns : List Node) : Concludes untidy notation_ (evaluateNodes roller ns) := by
  cases ns with
  | nil => exact .pure _
  | cons n ns =>
    exact (evaluateNode_finishes hcalls h n).bind fun _ =>
      (evaluateNodes_finishes hcalls h ns).bind fun _ => .pure _

end

end Unlimited

end Evaluation

/-! ## Prompts -/

namespace Prompt

/-! ### What is remembered -/

/-- Changes keep a memory tidy. -/
theorem Changes.tidy {f : Memory → Except Abort Memory} (hf : Changes f) {m m' : Memory} (h : m.Tidy)
    (hm : f m = .ok m') : m'.Tidy := by
  cases hf with
  | remember tag name value =>
    rcases h.remember tag name value with ⟨n, hn, htidy⟩
    cases hn.symm.trans hm
    exact htidy
  | forget tag name =>
    rcases h.forget tag name with ⟨n, hn, htidy⟩
    cases hn.symm.trans hm
    exact htidy

/-- A change fails only if what is remembered for a tag is no object. -/
theorem Changes.error {f : Memory → Except Abort Memory} (hf : Changes f) {m : Memory} {e : Abort}
    (hm : f m = .error e) : ¬ m.Tidy ∧ (e = .noObject ∨ e = .wrongType) := by
  cases hf with
  | remember tag name value =>
    refine ⟨fun h => ?_, ?_⟩
    · rcases h.remember tag name value with ⟨n, hn, -⟩
      cases hn.symm.trans hm
    · unfold Memory.remember at hm
      split at hm <;> cases hm
      exact .inr rfl
  | forget tag name =>
    refine ⟨fun h => ?_, ?_⟩
    · rcases h.forget tag name with ⟨n, hn, -⟩
      cases hn.symm.trans hm
    · unfold Memory.forget at hm
      split at hm <;> cases hm
      · exact .inr rfl
      · exact .inl rfl

/-! ### Answers -/

/-- A part of an interview. What is remembered stays tidy unless it need not be. -/
abbrev Concludes (untidy notation_ : Prop) (a : Asking σ α) : Prop :=
  Finishes (fun _ i => i) (fun i : Interview σ => untidy ∨ i.desk.memory.Tidy) (Stops untidy notation_) a

theorem modify_finishes {f : Interview σ → Interview σ} (h : ∀ i, (f i).desk.memory = i.desk.memory) :
    Concludes untidy notation_ (Act.modify f : Asking σ Unit) :=
  fun i hi => ⟨.ok (), f i, 0, trivial, hi.imp_right fun htidy => by rwa [h i], fun _ _ => rfl⟩

end Prompt

/-! ## Messages -/

namespace Expansion

open Library

abbrev Concludes (untidy notation_ : Prop) (a : Step σ α) : Prop :=
  Finishes Run.withLimit
    (fun r : Run σ => r.session.dice.Endless ∧ (untidy ∨ r.session.desk.memory.Tidy))
    (Stops untidy notation_) a

end Expansion

end TabletopChat
