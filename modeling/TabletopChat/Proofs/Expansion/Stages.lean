import TabletopChat.Expansion.Expand

/-!
# Proofs/Expansion/Stages — from single steps to the macros of a text

Besides answering prompts, expanding a text is made of a few steps: something is said, a handler of the host is called, a die is rolled, a
tag is noted as long as its macro is being expanded. What is true of each of these steps is true of all
macros inside of a text, if it is passed on from actions to sequences of actions.

- `Stepwise`              : a property of the steps, of tables inside of a text, and of what is made of them
- `Stepwise.expandPieces` : all macros inside of a text
- `Staged`                : a property that is passed on from the steps, to tables inside of a text as well
-/

namespace TabletopChat

namespace Expansion

open Library

variable {σ : Type}

/-! ## Steps and tables -/

/-- A property of all steps of expanding a text that answer no prompts, of tables inside of a text, and of
what is composed of such actions. -/
structure Stepwise (P : ∀ {α : Type}, Step σ α → Prop) : Prop where
  pure : ∀ {α : Type} (x : α), P (Pure.pure x : Step σ α)
  bind : ∀ {α β : Type} {a : Step σ α} {f : α → Step σ β}, P a → (∀ x, P (f x)) → P (a >>= f)
  say : ∀ entries, P (say entries : Step σ Unit)
  hosting : ∀ {α : Type} (f : σ → α × σ), P (hosting f : Step σ α)
  rollNested : ∀ tag table, P (rollNested tag table : Step σ Text)
  isNested : ∀ tag, P (isNested tag : Step σ Bool)
  within : ∀ {a : Step σ Text} (tag : Text), P a → P (within tag a)

namespace Stepwise

variable {P : ∀ {α : Type}, Step σ α → Prop}

theorem callHooks (h : Stepwise P) (setup : Setup σ) (actor : ActorData) (moment message : Text) :
    P (callHooks setup actor moment message) :=
  h.bind (h.say _) fun _ => h.hosting _

section Macros

variable {macros : Entries Macro} {expand : Text → Step σ Text}

/-- A property of the steps is one of a single macro. -/
theorem expandInvocation (h : Stepwise P) (hexpand : ∀ t, P (expand t)) (i : Invocation) :
    P (expandInvocation macros expand i) := by
  refine h.bind (h.isNested _) fun nested => ?_
  split
  · split
    · exact h.within _ (hexpand _)
    · exact h.rollNested _ _
  · exact h.bind (h.say _) fun _ => h.pure _

/-- It is one of all macros inside of a text. -/
theorem expandPieces (h : Stepwise P) (hexpand : ∀ t, P (expand t)) (ps : List (Piece Invocation)) :
    P (expandPieces macros expand ps) := by
  induction ps with
  | nil =>
      exact h.pure []
  | cons p ps ih =>
      cases p with
      | plain c =>
          exact h.bind ih fun _ => h.pure _
      | tag i source =>
          exact h.bind (h.expandInvocation hexpand i) fun _ => h.bind ih fun _ => h.pure _

end Macros

end Stepwise

/-! ## Steps only -/

/-- A property of all steps of expanding a text that answer no prompts, and of what is composed of such
actions. -/
structure Staged (P : ∀ {α : Type}, Step σ α → Prop) : Prop where
  pure : ∀ {α : Type} (x : α), P (Pure.pure x : Step σ α)
  bind : ∀ {α β : Type} {a : Step σ α} {f : α → Step σ β}, P a → (∀ x, P (f x)) → P (a >>= f)
  stop : ∀ {α : Type} (e : Abort), P (Act.stop e : Step σ α)
  say : ∀ entries, P (say entries : Step σ Unit)
  hosting : ∀ {α : Type} (f : σ → α × σ), P (hosting f : Step σ α)
  /-- rolling dice, where a reason to stop is a result -/
  attempt : ∀ a : Act Abort Dice Text, P (Act.attempt (rolling a) : Step σ (Except Abort Text))
  isNested : ∀ tag, P (isNested tag : Step σ Bool)
  within : ∀ {a : Step σ Text} (tag : Text), P a → P (within tag a)

namespace Staged

variable {P : ∀ {α : Type}, Step σ α → Prop}

/-- What holds of all stages holds of rolling a table inside of a text. -/
theorem rollNested (h : Staged P) (tag : Text) (table : List TableEntry) :
    P (rollNested tag table : Step σ Text) := by
  refine h.bind (h.attempt _) fun result => ?_
  cases result with
  | ok t =>
      exact h.pure t
  | error e =>
      dsimp only
      split
      · exact h.bind (h.say _) fun _ => h.pure _
      · exact h.stop e

/-- What holds of all stages holds of their steps. -/
theorem stepwise (h : Staged P) : Stepwise P where
  pure := h.pure
  bind := h.bind
  say := h.say
  hosting := h.hosting
  rollNested := h.rollNested
  isNested := h.isNested
  within := h.within

theorem callHooks (h : Staged P) (setup : Setup σ) (actor : ActorData) (moment message : Text) :
    P (callHooks setup actor moment message) :=
  h.stepwise.callHooks setup actor moment message

theorem expandPieces (h : Staged P) {macros : Entries Macro} {expand : Text → Step σ Text}
    (hexpand : ∀ t, P (expand t)) (ps : List (Piece Invocation)) : P (expandPieces macros expand ps) :=
  h.stepwise.expandPieces hexpand ps

end Staged

end Expansion

end TabletopChat
