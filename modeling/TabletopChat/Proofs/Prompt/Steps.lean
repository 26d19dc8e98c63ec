import TabletopChat.Prompt.Resolve

/-!
# Proofs/Prompt/Steps — from single steps to whole answers

Answering a tag is made of a few steps: something is said, an answer is written down, the memory
changes, a question is asked. What is true of each of these steps is true of all that is made of them, if
it is passed on from actions to sequences of actions. So it is with what the steps do to an interview, in
the sense of a relation that can be composed.

- `Picking`, `Choosing`, `Composed` : a property that is passed on from the steps
- `Picking.choose`     : making choices
- `Composed.answerTag` : answering a tag
- `Composed.resolveFrom` : answering the tags of a text
- `Steady`             : a relation that every step respects which asks nothing
- `Steady.save`        : storing what is remembered
- `steady_store`       : until then the store is as it was
-/

namespace TabletopChat

namespace Prompt

open Act

variable {σ α : Type}

/-- Making any number of choices, after those made last time were forgotten. -/
def chooseListed (tag : Tag) (chosen : List Choice) : Asking σ Text := do
  chooseEach tag chosen
  let joined := Text.joinWith tag.delimiter (chosen.map Choice.mainPart)
  select tag.query [joined]
  pure joined

theorem chooseMany_eq (tag : Tag) (chosen : List Choice) :
    (chooseMany tag chosen : Asking σ Text) =
      if tag.kind = .checkbox then forgetAll tag tag.choices >>= fun _ => chooseListed tag chosen
      else chooseListed tag chosen := by
  unfold chooseMany
  split
  · rfl
  · rfl

inductive Changes : (Memory → Except Abort Memory) → Prop
  | remember (tag name value : Text) : Changes (Memory.remember tag name value)
  | forget (tag name : Text) : Changes (Memory.forget tag name)

/-- What is remembered keeps its place in the store. -/
theorem Changes.place_eq {f : Memory → Except Abort Memory} (hf : Changes f) {m m' : Memory}
    (h : f m = .ok m') : m'.place = m.place := by
  cases hf with
  | remember tag name value =>
    unfold Memory.remember at h
    split at h <;> cases h <;> rfl
  | forget tag name =>
    unfold Memory.forget at h
    split at h <;> cases h <;> rfl

/-- A property of all steps of answering a tag that neither ask nor consult the memory, and of what is
composed of such actions. -/
structure Choosing (P : ∀ {α : Type}, Asking σ α → Prop) : Prop where
  pure : ∀ {α : Type} (x : α), P (Pure.pure x : Asking σ α)
  bind : ∀ {α β : Type} {a : Asking σ α} {f : α → Asking σ β}, P a → (∀ x, P (f x)) → P (a >>= f)
  /-- looking for answers that were given before -/
  look : ∀ {α : Type} {f : Interview σ → Asking σ α},
    (∀ i j, i.selections = j.selections → f i = f j) → (∀ i, P (f i)) → P (Act.get >>= f)
  say : ∀ entries, P (say entries : Asking σ Unit)
  select : ∀ name parts, P (select name parts : Asking σ Unit)
  change : ∀ {f}, Changes f → P (change f : Asking σ Unit)

/-- A property of all steps of answering a tag that ask nothing, and of what is composed of such actions. -/
structure Composed (P : ∀ {α : Type}, Asking σ α → Prop) : Prop extends Choosing P where
  /-- looking up which choices were made before -/
  consult : ∀ tag, P (consult fun m => preselectAll tag m tag.choices : Asking σ (List Choice))

/-- A property of the steps of making choices of one tag, and of what is composed of such steps. -/
structure Picking (tag : Tag) (P : ∀ {α : Type}, Asking σ α → Prop) : Prop where
  pure : ∀ {α : Type} (x : α), P (Pure.pure x : Asking σ α)
  bind : ∀ {α β : Type} {a : Asking σ α} {f : α → Asking σ β}, P a → (∀ x, P (f x)) → P (a >>= f)
  select : ∀ name parts, P (select name parts : Asking σ Unit)
  remember : ∀ name value, P (change (Memory.remember tag.source name value) : Asking σ Unit)
  forget : ∀ name, P (change (Memory.forget tag.source name) : Asking σ Unit)

/-! ## Choices -/

namespace Picking

variable {P : ∀ {α : Type}, Asking σ α → Prop} {tag : Tag}

theorem chooseNothing (h : Picking tag P) : P (chooseNothing tag : Asking σ Text) :=
  h.bind (h.select _ _) fun _ => h.pure _

theorem chooseOne (h : Picking tag P) (c : Choice) : P (chooseOne tag c : Asking σ Text) :=
  h.bind (h.remember _ _) fun _ => h.bind (h.select _ _) fun _ => h.bind (h.select _ _) fun _ => h.pure _

/-- Forgetting all choices has the property. -/
theorem forgetAll (h : Picking tag P) (cs : List Choice) : P (forgetAll tag cs : Asking σ Unit) := by
  induction cs with
  | nil =>
      exact h.pure ()
  | cons c cs ih =>
      exact h.bind (h.forget _) fun _ => ih

/-- What holds of the steps of picking holds of picking each choice. -/
theorem chooseEach (h : Picking tag P) (cs : List Choice) : P (chooseEach tag cs : Asking σ Unit) := by
  induction cs with
  | nil =>
      exact h.pure ()
  | cons c cs ih =>
      exact h.bind (h.select _ _) fun _ => h.bind (h.remember _ _) fun _ => ih

/-- Making several choices has it. -/
theorem chooseMany (h : Picking tag P) (chosen : List Choice) :
    P (chooseMany tag chosen : Asking σ Text) := by
  have hlisted : P (chooseListed tag chosen : Asking σ Text) :=
    h.bind (h.chooseEach _) fun _ => h.bind (h.select _ _) fun _ => h.pure _
  rw [chooseMany_eq]
  split
  · exact h.bind (h.forgetAll _) fun _ => hlisted
  · exact hlisted

/-- Making any choice has it. -/
theorem choose (h : Picking tag P) (chosen : Option (List Choice)) :
    P (choose tag chosen : Asking σ Text) := by
  cases chosen with
  | none =>
      exact h.chooseNothing
  | some cs =>
      simp only [Prompt.choose]
      split
      · exact h.chooseNothing
      · exact h.chooseOne _
      · exact h.chooseMany _

end Picking

namespace Choosing

variable {P : ∀ {α : Type}, Asking σ α → Prop}

theorem picking (h : Choosing P) (tag : Tag) : Picking tag P where
  pure := h.pure
  bind := h.bind
  select := h.select
  remember _ _ := h.change (.remember _ _ _)
  forget _ := h.change (.forget _ _)

theorem choose (h : Choosing P) (tag : Tag) (chosen : Option (List Choice)) :
    P (choose tag chosen : Asking σ Text) :=
  (h.picking tag).choose chosen

/-! ## Questions -/

section Asked

variable {a : Answerer σ}

theorem askText (h : Choosing P) {tag : Tag}
    (hask : P (ask (.text tag.query tag.fallback) (a.text tag.query tag.fallback))) : P (askText a tag) :=
  h.bind hask fun _ => h.bind (h.select _ _) fun _ => h.pure _

/-- A tag is answered by a choice or by a text. -/
theorem answerTag (h : Choosing P) {tag : Tag} (hchoice : P (askChoice a tag))
    (htext : P (Prompt.askText a tag)) : P (answerTag a tag) := by
  refine h.look (fun i j hij => by rw [hij]) fun i => ?_
  split
  · exact h.pure _
  · split
    · exact hchoice
    · exact htext

/-- A property of answering single tags is one of answering all of them. -/
theorem resolveFrom (h : Choosing P) (htag : ∀ tag, P (Prompt.answerTag a tag)) (fuel : Nat)
    (done rest : Text) : P (resolveFrom a fuel done rest) := by
  induction fuel generalizing done rest with
  | zero =>
      exact h.bind (h.say _) fun _ => h.pure _
  | succ fuel ih =>
      unfold Prompt.resolveFrom
      split
      · exact h.pure _
      · refine h.bind (htag _) fun answer => h.bind (h.say _) fun _ => ?_
        split
        · exact ih _ _
        · exact ih _ _

end Asked

end Choosing

namespace Composed

variable {P : ∀ {α : Type}, Asking σ α → Prop}
  (hask : ∀ {α : Type} (q : Question) (reply : σ → Reply σ α), P (ask q reply))

include hask

theorem askChoice (h : Composed P) (a : Answerer σ) (tag : Tag) : P (askChoice a tag) :=
  h.bind (h.consult _) fun _ => h.bind (hask _ _) fun _ => h.choose tag _

theorem answerTag (h : Composed P) (a : Answerer σ) (tag : Tag) : P (answerTag a tag) :=
  h.toChoosing.answerTag (h.askChoice hask a tag) (h.askText (hask _ _))

theorem resolveFrom (h : Composed P) (a : Answerer σ) (fuel : Nat) (done rest : Text) :
    P (resolveFrom a fuel done rest) :=
  h.toChoosing.resolveFrom (h.answerTag hask a) fuel done rest

end Composed

/-! ## Relations -/

/-- A relation between interviews that can be composed and that holds for each step of making a
choice. -/
structure Steady (R : Interview σ → Interview σ → Prop) : Prop where
  refl : ∀ i, R i i
  trans : ∀ {i j k}, R i j → R j k → R i k
  say : ∀ entries, Always R (say entries)
  select : ∀ name parts, Always R (select name parts)
  change : ∀ {f}, Changes f → Always R (change f)

namespace Steady

variable {R : Interview σ → Interview σ → Prop}

/-- A relation that each step respects is respected by all that is composed of them. -/
theorem composed (h : Steady R) : Composed (Always R) where
  pure _ := h.refl
  bind ha hf := .bind h.trans ha hf
  look _ hf := .bind h.trans h.refl hf
  consult _ := h.refl
  say := h.say
  select := h.select
  change := h.change

theorem forgetAll (h : Steady R) (tag : Tag) (cs : List Choice) :
    Always R (forgetAll tag cs : Asking σ Unit) :=
  (h.composed.picking tag).forgetAll cs

theorem chooseEach (h : Steady R) (tag : Tag) (cs : List Choice) :
    Always R (chooseEach tag cs : Asking σ Unit) :=
  (h.composed.picking tag).chooseEach cs

def Asked (R : Interview σ → Interview σ → Prop) : Prop :=
  ∀ {α : Type} (q : Question) (reply : σ → Reply σ α), Always R (ask q reply)

theorem answerTag (h : Steady R) (hask : Asked R) (a : Answerer σ) (tag : Tag) :
    Always R (answerTag a tag) :=
  h.composed.answerTag hask a tag

theorem resolveFrom (h : Steady R) (hask : Asked R) (a : Answerer σ) (fuel : Nat)
    (done rest : Text) : Always R (resolveFrom a fuel done rest) :=
  h.composed.resolveFrom hask a fuel done rest

/-! ## Storing -/

def Stored (R : Interview σ → Interview σ → Prop) : Prop :=
  ∀ (i : Interview σ) (store : Store), R i { i with desk := { i.desk with store := store } }

theorem save (h : Steady R) (hstore : Stored R) : Always R (save : Asking σ Unit) := by
  refine .bind h.trans h.refl fun i => .bind h.trans (h.say _) fun _ => ?_
  split
  · exact fun j => hstore j _
  · exact h.refl

end Steady

/-- Until what is remembered is stored, the store is as it was. -/
theorem steady_store : Steady fun i j : Interview σ => j.desk.store = i.desk.store where
  refl _ := rfl
  trans h h' := h'.trans h
  say _ _ := rfl
  select _ _ _ := rfl
  change hf := by
    intro i
    simp only [change, Act.run]
    split <;> rfl

end Prompt

end TabletopChat
