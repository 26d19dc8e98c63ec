import TabletopChat.Proofs.Prompt.Answering
import TabletopChat.Proofs.Prompt.FixedPoint
import TabletopChat.Proofs.Store.Settings

/-!
# Proofs/Prompt/Lockstep — what is remembered only preselects

The choices that are remembered are looked up for one purpose: some of the choices that are offered are
selected. Interviews that differ in what they remember go on in step with each other, if it makes no
difference to whoever answers which choices are selected. The same questions are asked, up to the choices
that are selected, and the same answers and the same text come of them.

- `Act.Lockstep`          : two actions that go on in step with each other
- `Question.unselected`   : a question, whatever is selected
- `Answerer.Indifferent`  : answers that do not depend on what is selected
- `SameButMemory`         : interviews that differ in what is remembered
- `memory_only_preselects` : whole messages
-/

namespace TabletopChat

/-! ## Two actions at once -/

namespace Act

variable {ε σ α β γ δ : Type} {R : σ → σ → Prop} {V : α → β → Prop} {W : γ → δ → Prop}

/-- Two actions in step with each other: from states that are related by `R` both have results, which are
related by `V`, and leave such states behind. -/
def Lockstep (R : σ → σ → Prop) (V : α → β → Prop) (a : Act ε σ α) (b : Act ε σ β) : Prop :=
  ∀ s t, R s t → ∃ x y s' t', a.run s = (.ok x, s') ∧ b.run t = (.ok y, t') ∧ V x y ∧ R s' t'

theorem lockstep_pure {x : α} {y : β} (h : V x y) : Lockstep R V (pure x : Act ε σ α) (pure y) :=
  fun s t hst => ⟨x, y, s, t, rfl, rfl, h, hst⟩

theorem Lockstep.bind {a : Act ε σ α} {b : Act ε σ β} {f : α → Act ε σ γ} {g : β → Act ε σ δ}
    (h : Lockstep R V a b) (hf : ∀ x y, V x y → Lockstep R W (f x) (g y)) :
    Lockstep R W (a >>= f) (b >>= g) := by
  intro s t hst
  obtain ⟨x, y, s', t', ha, hb, hxy, hst'⟩ := h s t hst
  rw [run_bind_of_ok ha, run_bind_of_ok hb]
  exact hf x y hxy s' t' hst'

theorem lockstep_modify {f : σ → σ} (h : ∀ s t, R s t → R (f s) (f t)) :
    Lockstep R Eq (modify f : Act ε σ Unit) (modify f) :=
  fun s t hst => ⟨(), (), f s, f t, rfl, rfl, rfl, h s t hst⟩

end Act

namespace Prompt

open Act

variable {σ α : Type}

/-! ## Whatever is selected -/

def Choice.unselected (c : Choice) : Choice := { c with selected := false }

def Question.unselected : Question → Question
  | .text query fallback => .text query fallback
  | .choice query kind choices => .choice query kind (choices.map Choice.unselected)

/-- Choices that differ at most in which of them are selected. -/
def SameChoices (cs ds : List Choice) : Prop := cs.map Choice.unselected = ds.map Choice.unselected

/-- Confirmed choices that differ at most in which of them are selected. -/
def SameChosen (chosen chosen' : Option (List Choice)) : Prop :=
  chosen.map (List.map Choice.unselected) = chosen'.map (List.map Choice.unselected)

theorem sameChoices_offer (m m' : Memory) (tag : Tag) :
    SameChoices (tag.choices.map (m.offer tag)) (tag.choices.map (m'.offer tag)) := by
  rw [SameChoices, List.map_map, List.map_map]
  rfl

/-- Which choices are selected does not matter for what is chosen. -/
theorem chooseEach_unselected (tag : Tag) (cs : List Choice) :
    chooseEach tag (cs.map Choice.unselected) = (chooseEach tag cs : Asking σ Unit) := by
  induction cs with
  | nil => rfl
  | cons c cs ih =>
      rw [List.map_cons, chooseEach, chooseEach, ih]
      rfl

theorem chooseMany_unselected (tag : Tag) (cs : List Choice) :
    chooseMany tag (cs.map Choice.unselected) = (chooseMany tag cs : Asking σ Text) := by
  have hlisted : chooseListed tag (cs.map Choice.unselected) = (chooseListed tag cs : Asking σ Text) := by
    rw [chooseListed, chooseListed, chooseEach_unselected, List.map_map]
    rfl
  rw [chooseMany_eq, chooseMany_eq, hlisted]

/-- Making choices does not depend on whether they were selected. -/
theorem choose_unselected (tag : Tag) (chosen : Option (List Choice)) :
    choose tag (chosen.map (List.map Choice.unselected)) = (choose tag chosen : Asking σ Text) := by
  cases chosen with
  | none => rfl
  | some cs =>
      cases cs with
      | nil => rfl
      | cons c cs =>
          have hmany := chooseMany_unselected (σ := σ) tag (c :: cs)
          rw [List.map_cons] at hmany
          rw [Option.map_some, List.map_cons]
          cases hkind : tag.kind with
          | list =>
              simp only [choose, hkind]
              rfl
          | checkbox | radio | other _ =>
              simp only [choose, hkind]
              exact hmany

theorem SameChosen.choose_eq {chosen chosen' : Option (List Choice)} (h : SameChosen chosen chosen')
    (tag : Tag) : choose tag chosen = (choose tag chosen' : Asking σ Text) := by
  rw [← choose_unselected tag chosen, ← choose_unselected tag chosen', show _ = _ from h]

/-! ## Interviews in step -/

/-- Whoever answers does not care which choices are selected. States that differ in what was selected
before are related by `R`: they give the same answers, and states that are related. -/
structure Answerer.Indifferent (a : Answerer σ) (R : σ → σ → Prop) : Prop where
  text : ∀ query fallback s t, R s t →
    (a.text query fallback s).answer = (a.text query fallback t).answer ∧
      R (a.text query fallback s).next (a.text query fallback t).next
  choice : ∀ query kind cs ds s t, R s t → SameChoices cs ds →
    SameChosen (a.choice query kind cs s).answer (a.choice query kind ds t).answer ∧
      R (a.choice query kind cs s).next (a.choice query kind ds t).next

/-- Interviews that differ in what they remember by tag and name, and so in the choices that were selected
when they were offered. -/
structure SameButMemory (R : σ → σ → Prop) (i j : Interview σ) : Prop where
  answerer : R i.desk.answerer j.desk.answerer
  asked : i.desk.asked.map Question.unselected = j.desk.asked.map Question.unselected
  selections : i.selections = j.selections
  memory : i.desk.memory.Tidy ∧ j.desk.memory.Tidy

section Lockstep

variable {R : σ → σ → Prop}

/-- Changes keep two runs in lockstep. -/
theorem lockstep_change {f : Memory → Except Abort Memory}
    (hf : ∀ m : Memory, m.Tidy → ∃ m', f m = .ok m' ∧ m'.Tidy) :
    Lockstep (SameButMemory R) Eq (change f) (change f) := by
  intro i j hij
  obtain ⟨m, hm, htidy⟩ := hf _ hij.memory.1
  obtain ⟨n, hn, htidy'⟩ := hf _ hij.memory.2
  refine ⟨(), (), { i with desk := { i.desk with memory := m } },
    { j with desk := { j.desk with memory := n } }, ?_, ?_, rfl, ?_⟩
  · simp only [change, Act.run, hm]
  · simp only [change, Act.run, hn]
  · exact ⟨hij.answerer, hij.asked, hij.selections, htidy, htidy'⟩

/-- The steps of answering a tag that neither ask nor consult the memory do the same in both interviews. -/
theorem choosing_lockstep : Choosing (σ := σ) fun a => Lockstep (SameButMemory R) Eq a a where
  pure x := lockstep_pure rfl
  bind ha hf := ha.bind fun x _ hxy => hxy ▸ hf x
  look hsame hf := by
    intro i j hij
    rw [run_bind_of_ok (run_get i), run_bind_of_ok (run_get j), hsame i j hij.selections]
    exact hf j i j hij
  say entries := lockstep_modify fun i j h => ⟨h.answerer, h.asked, h.selections, h.memory⟩
  select name parts := lockstep_modify fun i j h =>
    ⟨h.answerer, h.asked, congrArg (Entries.insert name parts) h.selections, h.memory⟩
  change {f} hf := by
    cases hf with
    | remember tag name value => exact lockstep_change fun m hm => hm.remember tag name value
    | forget tag name => exact lockstep_change fun m hm => hm.forget tag name

/-- Looking up what is remembered gives the same choices, up to those that are selected. -/
theorem lockstep_consult (tag : Tag) :
    Lockstep (SameButMemory R) SameChoices (consult fun m => preselectAll tag m tag.choices)
      (consult fun m => preselectAll tag m tag.choices) := by
  intro i j hij
  refine ⟨_, _, i, j, ?_, ?_, sameChoices_offer i.desk.memory j.desk.memory tag, hij⟩
  · simp only [consult, Act.run, hij.memory.1.preselectAll tag]
  · simp only [consult, Act.run, hij.memory.2.preselectAll tag]

/-- Questions that differ at most in what is selected are asked in step, if the answers to them agree. -/
theorem lockstep_ask {q q' : Question} {reply reply' : σ → Reply σ α}
    {V : Option α → Option α → Prop} (hq : q.unselected = q'.unselected)
    (hreply : ∀ s t, R s t → V (reply s).answer (reply' t).answer ∧ R (reply s).next (reply' t).next) :
    Lockstep (SameButMemory R) V (ask q reply) (ask q' reply') := by
  intro i j hij
  obtain ⟨hanswer, hnext⟩ := hreply _ _ hij.answerer
  refine ⟨_, _, _, _, rfl, rfl, hanswer, hnext, ?_, hij.selections, hij.memory⟩
  rw [List.map_cons, List.map_cons, hq, hij.asked]

variable {a : Answerer σ} (ha : a.Indifferent R)

include ha

/-- What the memory tells goes into the question, and no further. -/
theorem lockstep_askChoice (tag : Tag) :
    Lockstep (SameButMemory R) Eq (askChoice a tag) (askChoice a tag) := by
  refine (lockstep_consult tag).bind fun cs ds hsame => ?_
  have hquestion : (Question.choice tag.query tag.kind cs).unselected =
      (Question.choice tag.query tag.kind ds).unselected := congrArg (Question.choice _ _) hsame
  refine (lockstep_ask hquestion fun s t hst => ha.choice _ _ cs ds s t hst hsame).bind
    fun chosen chosen' hchosen => ?_
  rw [hchosen.choose_eq tag]
  exact choosing_lockstep.choose tag chosen'

theorem lockstep_answerTag (tag : Tag) :
    Lockstep (SameButMemory R) Eq (answerTag a tag) (answerTag a tag) :=
  choosing_lockstep.answerTag (lockstep_askChoice ha tag)
    (choosing_lockstep.askText (lockstep_ask rfl fun s t hst => ha.text _ _ s t hst))

theorem lockstep_resolveFrom (fuel : Nat) (done rest : Text) :
    Lockstep (SameButMemory R) Eq (resolveFrom a fuel done rest) (resolveFrom a fuel done rest) :=
  choosing_lockstep.resolveFrom (lockstep_answerTag ha) fuel done rest

end Lockstep

/-! ## Messages -/

instance : DecidablePred Store.Writable
  | .memory _ => isTrue trivial
  | .file f => inferInstanceAs (Decidable (f.writable = true))

/-- When the tags of a message have been answered, nothing but the store decides whether its text is
returned. -/
theorem exists_run_resolve {a : Answerer σ} {message t : Text} {i j : Interview σ}
    (h : (resolveFrom a answerLimit [] message).run i = (.ok t, j)) :
    ∃ journal store, (resolve a message).run i =
      (if i.desk.store.Writable then .ok t else .error .notWritable,
        { j with desk := { j.desk with journal := journal, store := store } }) := by
  -- no answer changes the store: it is written at the end of a run
  have hstore : j.desk.store = i.desk.store := by
    have hsteady := steady_store.resolveFrom (fun _ _ _ => rfl) a answerLimit [] message i
    rwa [h] at hsteady
  have hwritable := Store.exists_set?_iff (s := i.desk.store) j.desk.memory.place Memory.key
    j.desk.memory.render
  rw [resolve, run_bind_of_ok h, run_bind, run_save, hstore]
  cases hsave : j.desk.memory.save? i.desk.store with
  | none =>
      have hnot : ¬ i.desk.store.Writable := fun hyes => by
        obtain ⟨store, hset⟩ := hwritable.2 hyes
        cases hset.symm.trans hsave
      rw [if_neg hnot]
      exact ⟨_, _, rfl⟩
  | some store =>
      rw [if_pos (hwritable.1 ⟨store, hsave⟩)]
      exact ⟨_, _, rfl⟩

/-- Two interviews about one message that differ in what they remember give the same text, unless a store
cannot be written to, and end with the same answers, after the same questions but for the choices that were
selected. This holds if whoever answers does not care which choices are selected. -/
theorem memory_only_preselects {R : σ → σ → Prop} {a : Answerer σ} (ha : a.Indifferent R)
    {i j : Interview σ} (hij : SameButMemory R i j) (message : Text) :
    ∃ t i' j', SameButMemory R i' j' ∧
      (resolve a message).run i = (if i.desk.store.Writable then .ok t else .error .notWritable, i') ∧
      (resolve a message).run j = (if j.desk.store.Writable then .ok t else .error .notWritable, j') := by
  obtain ⟨t, _, i', j', hi, hj, rfl, hend⟩ := lockstep_resolveFrom ha answerLimit [] message i j hij
  obtain ⟨_, _, hrun⟩ := exists_run_resolve hi
  obtain ⟨_, _, hrun'⟩ := exists_run_resolve hj
  refine ⟨t, _, _, ?_, hrun, hrun'⟩
  exact ⟨hend.answerer, hend.asked, hend.selections, hend.memory⟩

/-- Confirms all choices but the first one, and keeps what was offered. -/
def allButFirst : Answerer (List Choice) where
  text _ fallback s := ⟨some fallback, [], s⟩
  choice _ _ choices s := ⟨some (choices.drop 1), [], choices ++ s⟩

theorem allButFirst_indifferent : allButFirst.Indifferent SameChoices where
  text _ _ _ _ h := ⟨rfl, h⟩
  choice _ _ cs ds s t h hsame := by
    refine ⟨?_, ?_⟩
    · simp only [SameChosen, allButFirst, Option.map_some, List.map_drop, show _ = _ from hsame]
    · simp only [SameChoices, allButFirst, List.map_append, show _ = _ from hsame, show _ = _ from h]

/-- A box and a choice from a list that were made before, and neither of them. -/
theorem memory_only_preselects_boxes :
    let boxes := "?\x7b[checkbox|;]Loot|a,1|b,2|c,3\x7d".toList
    let message := boxes ++ " ?\x7bQ|x,y|z,w\x7d".toList
    let interview : Entries Json → Interview (List Choice) := fun tags =>
      ⟨⟨[], [], ⟨"choices".toList, tags⟩, .memory [], []⟩, []⟩
    let i := interview []
    let j := interview [(boxes, .object [("a".toList, .text "1".toList)]),
      ("?\x7bQ|x,y|z,w\x7d".toList, .object [("value".toList, .text "y".toList)])]
    allButFirst.Indifferent SameChoices ∧ SameButMemory SameChoices i j ∧
      ∃ i' j', SameButMemory SameChoices i' j' ∧
        (resolve allButFirst message).run i = (.ok "2;3 w".toList, i') ∧
        (resolve allButFirst message).run j = (.ok "2;3 w".toList, j') := by
  intro boxes message interview i j
  have htidy : j.desk.memory.Tidy := by
    intro e he
    simp only [j, interview, List.mem_cons, List.not_mem_nil, or_false] at he
    rcases he with rfl | rfl
    · exact ⟨_, rfl⟩
    · exact ⟨_, rfl⟩
  have hij : SameButMemory SameChoices i j := ⟨rfl, rfl, rfl, List.forall_mem_nil _, htidy⟩
  have hok : ((resolve allButFirst message).run i).1.toOption = some "2;3 w".toList := by decide +kernel
  obtain ⟨t, i', j', hend, hi, hj⟩ := memory_only_preselects allButFirst_indifferent hij message
  have hwritable : i.desk.store.Writable ∧ j.desk.store.Writable := ⟨trivial, trivial⟩
  rw [if_pos hwritable.1] at hi
  rw [if_pos hwritable.2] at hj
  rw [hi] at hok
  cases hok
  exact ⟨allButFirst_indifferent, hij, i', j', hend, hi, hj⟩

end Prompt

end TabletopChat
