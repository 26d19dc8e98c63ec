import TabletopChat.Proofs.Expansion.Asking
import TabletopChat.Proofs.Expansion.Sessions
import TabletopChat.Proofs.Prompt.Remembered
import TabletopChat.Proofs.Prompt.Repeating

/-!
# Proofs/Prompt/Preselected — what was chosen is selected the next time

What is remembered of a tag changes only when the tag asks, which it does once in a message. Choices that
were confirmed are loaded from the store with the next memory, and selected when the same tag asks again:
boxes by their labels, and a choice that excludes the others by its value. Where another choice has this
value, it is selected as well.

- `Memory.find_of_applyAll` : what is remembered after changes of one tag
- `Tag.changes`             : the changes that are made when choices are confirmed
- `visits`                  : the tags that are answered in a run
- `answerTag_keeps`         : answering a tag leaves what is remembered of others
- `chosen_are_selected`     : two messages with the same tag
-/

namespace TabletopChat

namespace Prompt

open Act

variable {σ τ α β : Type}

/-! ## Changes of one tag -/

namespace Memory

def Change.source : Change → Text
  | .remember source _ _ => source
  | .forget source _ => source

def Change.after (name : Text) (old : Option Json) : Change → Option Json
  | .remember _ changed value => if name = changed then some (.text value) else old
  | .forget _ changed => if name = changed then none else old

/-- Changes are made one after the other. -/
theorem applyAll_append (cs ds : List Change) (m : Memory) :
    applyAll (cs ++ ds) m = (applyAll cs m).bind (applyAll ds) := by
  induction cs generalizing m with
  | nil => rfl
  | cons c cs ih =>
      rw [List.cons_append, applyAll, applyAll]
      cases c.apply m with
      | error e => rfl
      | ok n => exact ih n

/-- Applying two lists of changes is applying one after the other. -/
theorem exists_of_applyAll_append {cs ds : List Change} {m m' : Memory}
    (h : applyAll (cs ++ ds) m = .ok m') : ∃ n, applyAll cs m = .ok n ∧ applyAll ds n = .ok m' := by
  rw [applyAll_append] at h
  cases hn : applyAll cs m with
  | error e =>
      rw [hn] at h
      cases h
  | ok n =>
      rw [hn] at h
      exact ⟨n, rfl, h⟩

/-- A change of a tag leaves what is remembered of others. -/
theorem get?_of_apply {c : Change} {m m' : Memory} {source : Text} (h : c.apply m = .ok m')
    (hc : c.source ≠ source) : Entries.get? source m'.tags = Entries.get? source m.tags := by
  cases c with
  | remember tag name value =>
      simp only [Change.apply, Memory.remember] at h
      split at h <;> cases h <;> exact Entries.get?_insert_of_ne _ _ hc
  | forget tag name =>
      simp only [Change.apply, Memory.forget] at h
      split at h <;> cases h
      · rfl
      · exact Entries.get?_insert_of_ne _ _ hc

/-- Changes for other tags leave what is remembered of a tag. -/
theorem get?_of_applyAll {cs : List Change} {m m' : Memory} {source : Text}
    (h : applyAll cs m = .ok m') (hcs : ∀ c ∈ cs, c.source ≠ source) :
    Entries.get? source m'.tags = Entries.get? source m.tags := by
  induction cs generalizing m with
  | nil =>
      cases h
      rfl
  | cons c cs ih =>
      rw [List.forall_mem_cons] at hcs
      obtain ⟨n, hn, hrest⟩ := exists_of_applyAll_cons h
      exact (ih hrest hcs.2).trans (get?_of_apply hn hcs.1)

/-- Where a change of a tag is made, what is remembered of the tag can be looked up before and after. -/
theorem Readable.find_of_apply {c : Change} {m m' : Memory} (hm : m.Readable) (h : c.apply m = .ok m')
    (name : Text) : ∃ old, m.find c.source name = .ok old ∧ m'.find c.source name = .ok (c.after name old) := by
  cases c with
  | remember tag changed value =>
      simp only [Change.apply, Memory.remember] at h
      simp only [Change.source, Change.after, Memory.find]
      split at h
      · rename_i hnone
        cases h
        refine ⟨none, rfl, ?_⟩
        rw [Entries.get?_insert_self]
        simp only [Entries.get?, eq_comm]
      · rename_i names hnames
        cases h
        refine ⟨Entries.get? name names, rfl, ?_⟩
        rw [Entries.get?_insert_self]
        simp only [Entries.get?_insert]
      · cases h
  | forget tag changed =>
      simp only [Change.apply, Memory.forget] at h
      simp only [Change.source, Change.after, Memory.find]
      split at h
      · rename_i hnone
        cases h
        refine ⟨none, by rw [hnone], ?_⟩
        rw [hnone, ite_self]
      · rename_i names hnames
        cases h
        -- a name is gone after it was erased only because it stood there once
        have hnodup := (Json.Readable.get? hm hnames).nodup_keys
        refine ⟨Entries.get? name names, by rw [hnames], ?_⟩
        rw [Entries.get?_insert_self]
        simp only [Entries.get?_erase hnodup]
      · cases h
      · cases h

/-- What is remembered of a tag after some changes of it. -/
theorem Readable.find_of_applyAll {cs : List Change} {m m' : Memory} {source : Text} (hm : m.Readable)
    (h : Memory.applyAll cs m = .ok m') (hcs : ∀ c ∈ cs, c.source = source) {name : Text} {old : Option Json}
    (hold : m.find source name = .ok old) :
    m'.find source name = .ok (cs.foldl (Change.after name) old) := by
  induction cs generalizing m old with
  | nil =>
      cases h
      exact hold
  | cons c cs ih =>
      rw [List.forall_mem_cons] at hcs
      obtain ⟨rfl, hcs⟩ := hcs
      obtain ⟨n, hn, hrest⟩ := exists_of_applyAll_cons h
      obtain ⟨was, hwas, hafter⟩ := hm.find_of_apply hn name
      obtain rfl : was = old := Except.ok.inj (hwas.symm.trans hold)
      exact ih (hm.changes c.changes hn) hrest hcs hafter

/-- Names that are forgotten are not remembered afterwards. -/
theorem foldl_forget (source name : Text) (names : List Text) (old : Option Json) :
    (names.map (Change.forget source)).foldl (Change.after name) old = if name ∈ names then none else old := by
  induction names generalizing old with
  | nil => rfl
  | cons n names ih =>
      rw [List.map_cons, List.foldl_cons, ih]
      by_cases hn : name = n
      · simp [Change.after, hn]
      · simp [Change.after, hn]

/-- Values under one name, if they are all the same. -/
theorem foldl_remember (source name value : Text) {es : Entries Text}
    (h : ∀ e ∈ es, e.1 = name → e.2 = value) (old : Option Json) :
    (es.map fun e => Change.remember source e.1 e.2).foldl (Change.after name) old =
      if name ∈ es.keys then some (.text value) else old := by
  induction es generalizing old with
  | nil => rfl
  | cons e es ih =>
      rw [List.forall_mem_cons] at h
      have hkeys : name ∈ Entries.keys (e :: es) ↔ name = e.1 ∨ name ∈ Entries.keys es := List.mem_cons
      rw [List.map_cons, List.foldl_cons, ih h.2, Change.after]
      by_cases he : name = e.1
      · rw [if_pos he, h.1 he.symm, ite_self, if_pos (hkeys.2 (.inl he))]
      · rw [if_neg he]
        simp only [hkeys, he, false_or]

/-- Where changes of a tag are made, what is remembered of it can be looked up. -/
theorem Readable.exists_find {cs : List Change} {m m' : Memory} {source : Text} (hm : m.Readable)
    (h : Memory.applyAll cs m = .ok m') (hcs : ∀ c ∈ cs, c.source = source) (hne : cs ≠ []) (name : Text) :
    ∃ old, m.find source name = .ok old := by
  cases cs with
  | nil => exact absurd rfl hne
  | cons c cs =>
      obtain ⟨n, hn, -⟩ := exists_of_applyAll_cons h
      obtain ⟨old, hold, -⟩ := hm.find_of_apply hn name
      exact ⟨old, hcs c List.mem_cons_self ▸ hold⟩

end Memory

/-! ## Choices that are confirmed -/

def Tag.changes (tag : Tag) (chosen : List Choice) : List Memory.Change :=
  (if tag.kind = .checkbox then tag.choices.map (rememberedName tag) else []).map (.forget tag.source) ++
    ((if tag.kind = .list then chosen.take 1 else chosen).map fun c => (rememberedName tag c, c.value)).map
      fun e => .remember tag.source e.1 e.2

/-- All changes for a tag are for the tag. -/
theorem Tag.source_of_mem_changes {tag : Tag} {chosen : List Choice} {c : Memory.Change}
    (h : c ∈ tag.changes chosen) : c.source = tag.source := by
  rcases List.mem_append.1 h with h | h
  · obtain ⟨name, -, rfl⟩ := List.mem_map.1 h
    rfl
  · obtain ⟨e, -, rfl⟩ := List.mem_map.1 h
    rfl

/-- An action that makes changes to the memory, if it has a result. -/
def Makes (cs : List Memory.Change) (a : Asking σ α) : Prop :=
  ∀ i x j, a.run i = (.ok x, j) → Memory.applyAll cs i.desk.memory = .ok j.desk.memory

theorem Makes.bind {cs ds : List Memory.Change} {a : Asking σ α} {f : α → Asking σ β} (ha : Makes cs a)
    (hf : ∀ x, Makes ds (f x)) : Makes (cs ++ ds) (a >>= f) := by
  intro i y j hrun
  obtain ⟨x, k, hfirst, hrest⟩ := exists_of_run_bind hrun
  rw [Memory.applyAll_append, ha i x k hfirst]
  exact hf x k y j hrest

theorem makes_pure (x : α) : Makes [] (pure x : Asking σ α) := by
  intro i y j hrun
  cases hrun
  rfl

theorem makes_select (name : Text) (parts : List Text) : Makes [] (select name parts : Asking σ Unit) := by
  intro i x j hrun
  cases hrun
  rfl

theorem makes_change (c : Memory.Change) : Makes [c] (change c.apply : Asking σ Unit) := by
  intro i x j hrun
  simp only [change, Act.run] at hrun
  rw [Memory.applyAll]
  cases hc : c.apply i.desk.memory with
  | error e =>
      rw [hc] at hrun
      cases hrun
  | ok m =>
      rw [hc] at hrun
      cases hrun
      rfl

theorem makes_forgetAll (tag : Tag) (cs : List Choice) :
    Makes ((cs.map (rememberedName tag)).map (.forget tag.source)) (forgetAll tag cs : Asking σ Unit) := by
  induction cs with
  | nil => exact makes_pure ()
  | cons c cs ih => exact (makes_change (.forget _ _)).bind fun _ => ih

/-- Choosing several remembers each of them. -/
theorem makes_chooseEach {tag : Tag} (h : tag.kind ≠ .list) (cs : List Choice) :
    Makes ((cs.map fun c => (rememberedName tag c, c.value)).map fun e => .remember tag.source e.1 e.2)
      (chooseEach tag cs : Asking σ Unit) := by
  induction cs with
  | nil => exact makes_pure ()
  | cons c cs ih =>
      have hname : selectionName tag c = rememberedName tag c := by
        cases hkind : tag.kind with
        | list => exact absurd hkind h
        | checkbox | radio | other _ => simp only [selectionName, rememberedName, hkind]
      have hremember := makes_change (σ := σ) (.remember tag.source (rememberedName tag c) c.value)
      rw [chooseEach, hname]
      exact (makes_select _ _).bind fun _ => hremember.bind fun _ => ih

theorem makes_chooseNothing (tag : Tag) : Makes [] (chooseNothing tag : Asking σ Text) :=
  (makes_select _ _).bind fun _ => makes_pure _

/-- Making a choice makes its changes, and no others. -/
theorem makes_choose (tag : Tag) (chosen : List Choice) :
    Makes (tag.changes chosen) (choose tag (some chosen) : Asking σ Text) := by
  have hlisted (h : tag.kind ≠ .list) := (makes_chooseEach (σ := σ) h chosen).bind fun _ =>
    (makes_select tag.query [Text.joinWith tag.delimiter (chosen.map Choice.mainPart)]).bind fun _ =>
      makes_pure (Text.joinWith tag.delimiter (chosen.map Choice.mainPart))
  rw [List.append_nil, List.append_nil] at hlisted
  cases hkind : tag.kind with
  | list =>
      cases chosen with
      | nil =>
          simp only [Tag.changes, choose, hkind]
          exact makes_chooseNothing tag
      | cons c cs =>
          simp only [Tag.changes, choose, hkind]
          exact (makes_change (.remember _ _ _)).bind fun _ => (makes_select _ _).bind fun _ =>
            (makes_select _ _).bind fun _ => makes_pure _
  | checkbox =>
      have hmany : (choose tag (some chosen) : Asking σ Text) = chooseMany tag chosen := by
        simp only [choose, hkind]
      rw [hmany, chooseMany_eq, if_pos hkind, Tag.changes, if_pos hkind, if_neg (by simp [hkind])]
      -- boxes are forgotten before they are ticked again, so that those which are not ticked stay forgotten
      exact (makes_forgetAll tag tag.choices).bind fun _ => hlisted (by simp [hkind])
  | radio | other _ =>
      have hmany : (choose tag (some chosen) : Asking σ Text) = chooseMany tag chosen := by
        simp only [choose, hkind]
      rw [hmany, chooseMany_eq, if_neg (by simp [hkind]), Tag.changes, if_neg (by simp [hkind]),
        if_neg (by simp [hkind])]
      exact hlisted (by simp [hkind])

/-- A tag asks, and some of the choices that it offers are confirmed. -/
structure Confirmed (a : Answerer σ) (tag : Tag) (chosen : List Choice) (i : Interview σ) : Prop where
  new : Entries.get? tag.query i.selections = none
  isChoice : tag.isChoice = true
  confirmed : ∃ offered, preselectAll tag i.desk.memory tag.choices = .ok offered ∧
    (a.choice tag.query tag.kind offered i.desk.answerer).answer = some chosen ∧ ∀ c ∈ chosen, c ∈ offered

/-- When a tag asks for a choice, its choices are offered as the memory tells, and what is confirmed is
chosen. -/
theorem run_answerTag {a : Answerer σ} {tag : Tag} {i : Interview σ} {offered : List Choice}
    (hnew : Entries.get? tag.query i.selections = none) (hchoice : tag.isChoice = true)
    (hoffered : preselectAll tag i.desk.memory tag.choices = .ok offered) :
    ∃ k, (answerTag a tag).run i =
        (choose tag (a.choice tag.query tag.kind offered i.desk.answerer).answer).run k ∧
      k.desk.memory = i.desk.memory ∧
      k.desk.asked = .choice tag.query tag.kind offered :: i.desk.asked := by
  have hconsult : (consult fun m => preselectAll tag m tag.choices : Asking σ (List Choice)).run i =
      (.ok offered, i) := by
    simp only [consult, Act.run, hoffered]
  rw [answerTag, run_bind_of_ok (run_get i), hnew]
  simp only [hchoice, if_true]
  rw [askChoice, run_bind_of_ok hconsult]
  exact ⟨_, rfl, rfl, rfl⟩

theorem Confirmed.makes {a : Answerer σ} {tag : Tag} {chosen : List Choice} {i j : Interview σ} {t : Text}
    (h : Confirmed a tag chosen i) (hrun : (answerTag a tag).run i = (.ok t, j)) :
    Memory.applyAll (tag.changes chosen) i.desk.memory = .ok j.desk.memory := by
  obtain ⟨offered, hoffered, hanswer, -⟩ := h.confirmed
  obtain ⟨k, hk, hmemory, -⟩ := run_answerTag h.new h.isChoice hoffered
  rw [hk, hanswer] at hrun
  exact hmemory ▸ makes_choose tag chosen k t j hrun

/-- Whatever is asked, answering a tag makes no changes but its own. -/
theorem exists_changes {a : Answerer σ} {tag : Tag} {i j : Interview σ} {t : Text}
    (hrun : (answerTag a tag).run i = (.ok t, j)) :
    ∃ cs, (∀ c ∈ cs, Memory.Change.source c = tag.source) ∧
      Memory.applyAll cs i.desk.memory = .ok j.desk.memory := by
  have hnone : ∀ c ∈ ([] : List Memory.Change), c.source = tag.source := List.forall_mem_nil _
  have hsame (h : i.desk.memory = j.desk.memory) : ∃ cs, (∀ c ∈ cs, Memory.Change.source c = tag.source) ∧
      Memory.applyAll cs i.desk.memory = .ok j.desk.memory := ⟨[], hnone, congrArg Except.ok h⟩
  have hwhole := hrun
  rw [answerTag, run_bind_of_ok (run_get i)] at hrun
  -- only a tag with choices that has no answer yet changes what is remembered
  cases hknown : Entries.get? tag.query i.selections with
  | some parts =>
      rw [hknown] at hrun
      cases hrun
      exact hsame rfl
  | none =>
      rw [hknown] at hrun
      cases hchoice : tag.isChoice with
      | false =>
          simp only [hchoice] at hrun
          cases hrun
          exact hsame rfl
      | true =>
          simp only [hchoice, if_true] at hrun
          obtain ⟨offered, k, hconsult, -⟩ := exists_of_run_bind hrun
          have hoffered : preselectAll tag i.desk.memory tag.choices = .ok offered :=
            congrArg Prod.fst hconsult
          obtain ⟨l, hl, hmemory, -⟩ := run_answerTag (a := a) hknown hchoice hoffered
          rw [hl] at hwhole
          cases hanswer : (a.choice tag.query tag.kind offered i.desk.answerer).answer with
          | none =>
              rw [hanswer] at hwhole
              exact ⟨[], hnone, hmemory ▸ makes_chooseNothing tag l t j hwhole⟩
          | some chosen =>
              rw [hanswer] at hwhole
              exact ⟨tag.changes chosen, fun c => Tag.source_of_mem_changes,
                hmemory ▸ makes_choose tag chosen l t j hwhole⟩

/-! ## What is selected -/

/-- Some choices that a tag with different labels offers; only one if they exclude each other. -/
structure Tag.Admits (tag : Tag) (chosen : List Choice) : Prop where
  labels : (tag.choices.map Choice.label).Nodup
  offered : ∀ s ∈ chosen, ∃ d ∈ tag.choices, s.label = d.label ∧ s.value = d.value
  single : tag.kind ≠ .checkbox → ∃ s, chosen = [s]

/-- A choice with the label of one that was chosen has its value as well. -/
theorem Tag.Admits.value_eq {tag : Tag} {chosen : List Choice} (h : tag.Admits chosen) {s c : Choice}
    (hs : s ∈ chosen) (hc : c ∈ tag.choices) (hlabel : c.label = s.label) : s.value = c.value := by
  obtain ⟨d, hd, hsame, hvalue⟩ := h.offered s hs
  obtain rfl : c = d := List.inj_on_of_nodup_map h.labels hc hd (hlabel.trans hsame)
  exact hvalue

theorem Tag.Admits.changes_ne_nil {tag : Tag} {chosen : List Choice} (h : tag.Admits chosen)
    (hchoices : tag.choices ≠ []) : tag.changes chosen ≠ [] := by
  by_cases hbox : tag.kind = .checkbox
  · simp [Tag.changes, hbox, hchoices]
  · obtain ⟨s, rfl⟩ := h.single hbox
    simp [Tag.changes]

/-- What is remembered of a box after some choices were confirmed: its value if it was one of them. -/
theorem foldl_changes_box {tag : Tag} {chosen : List Choice} (h : tag.Admits chosen)
    (hbox : tag.kind = .checkbox) {c : Choice} (hc : c ∈ tag.choices) (old : Option Json) :
    (tag.changes chosen).foldl (Memory.Change.after (rememberedName tag c)) old =
      if c.label ∈ chosen.map Choice.label then some (.text c.value) else none := by
  have hname (d : Choice) : rememberedName tag d = d.label := by simp only [rememberedName, hbox]
  have hvalue : ∀ e ∈ chosen.map fun d => (rememberedName tag d, d.value),
      e.1 = rememberedName tag c → e.2 = c.value := by
    intro e he hlabel
    obtain ⟨s, hs, rfl⟩ := List.mem_map.1 he
    rw [hname, hname] at hlabel
    exact h.value_eq hs hc hlabel.symm
  rw [Tag.changes, if_pos hbox, if_neg (by simp [hbox]), List.foldl_append, Memory.foldl_forget,
    if_pos (List.mem_map_of_mem hc), Memory.foldl_remember _ _ _ hvalue]
  simp only [Entries.keys, List.map_map, hname, Function.comp_def]

/-- Without boxes, the value of the choice that was confirmed is remembered of every choice. -/
theorem foldl_changes_single {tag : Tag} (hbox : tag.kind ≠ .checkbox) (s c : Choice) (old : Option Json) :
    (tag.changes [s]).foldl (Memory.Change.after (rememberedName tag c)) old = some (.text s.value) := by
  have hname : rememberedName tag c = rememberedName tag s := by
    unfold rememberedName
    split
    · rfl
    · contradiction
    · rfl
  simp [Tag.changes, hbox, hname, Memory.Change.after]

/-- Whether a choice is selected after some choices were confirmed: if it is one of them, or cannot be told
apart from the one that excludes it. -/
def Tag.selects (tag : Tag) (chosen : List Choice) (c : Choice) : Bool :=
  c.label ∈ chosen.map Choice.label ∨ tag.kind ≠ .checkbox ∧ c.value ∈ chosen.map Choice.value

/-- After a choice, those that were made are marked, and no others. -/
theorem marks_of_changes {tag : Tag} {chosen : List Choice} {m m' : Memory} (hm : m.Readable)
    (h : Memory.applyAll (tag.changes chosen) m = .ok m') (hchosen : tag.Admits chosen)
    {c : Choice} (hc : c ∈ tag.choices) :
    (∃ answer, m'.find tag.source (rememberedName tag c) = .ok answer) ∧
      m'.marks tag c = tag.selects chosen c := by
  have hsources : ∀ c ∈ tag.changes chosen, c.source = tag.source := fun _ => Tag.source_of_mem_changes
  have hchanges := hchosen.changes_ne_nil (List.ne_nil_of_mem hc)
  obtain ⟨old, hold⟩ := hm.exists_find h hsources hchanges (rememberedName tag c)
  have hfind := hm.find_of_applyAll h hsources hold
  refine ⟨⟨_, hfind⟩, ?_⟩
  -- each box is remembered under its label; other choices share one place for their tag
  by_cases hbox : tag.kind = .checkbox
  · rw [foldl_changes_box hchosen hbox hc] at hfind
    by_cases hmem : c.label ∈ chosen.map Choice.label
    · rw [if_pos hmem] at hfind
      rw [Memory.marks, hfind]
      simp [Tag.selects, hmem]
    · rw [if_neg hmem] at hfind
      rw [Memory.marks, hfind]
      simp [Tag.selects, hmem, hbox]
  · obtain ⟨s, rfl⟩ := hchosen.single hbox
    rw [foldl_changes_single hbox] at hfind
    have hlabel (hlabel : c.label = s.label) : s.value = c.value :=
      hchosen.value_eq List.mem_cons_self hc hlabel
    rw [Memory.marks, hfind]
    simp only [Tag.selects, List.map_cons, List.map_nil, List.mem_singleton]
    exact decide_eq_decide.2 ⟨fun hvalue => .inr ⟨hbox, hvalue.symm⟩, fun hsel =>
      hsel.elim hlabel fun hvalue => hvalue.2.symm⟩

/-! ## Runs -/

/-- The tags that are answered in a run, and the interviews in which it is their turn. -/
def visits (a : Answerer σ) : Nat → Text → Text → Interview σ → List (Tag × Interview σ)
  | 0, _, _, _ => []
  | fuel + 1, done, rest, i =>
    match Tag.first? rest with
    | none => []
    | some (before, tag, after) =>
      (tag, i) ::
        match (answerTag a tag).run i with
        | (.error _, _) => []
        | (.ok answer, j) =>
          let k := ((say (answerRemark tag answer)).run j).2
          if answer = tag.source then visits a fuel (done ++ before ++ answer) after k
          else visits a fuel [] (done ++ before ++ answer ++ after) k

/-- What is known of the answers and of what is remembered whenever a tag was answered. -/
def Lasts (a : Answerer σ) (I : Selections → Memory → Prop) : Prop :=
  ∀ tag t rest i answer j, Tag.read? t = some (tag, rest) → I i.selections i.desk.memory →
    (answerTag a tag).run i = (.ok answer, j) → I j.selections j.desk.memory

section Run

variable {a : Answerer σ} {I : Selections → Memory → Prop} {fuel : Nat} {done rest t : Text}
  {i j k : Interview σ} {tag : Tag}

/-- What is known whenever a tag was answered is known where the next one is met. -/
theorem Lasts.visits (h : Lasts a I) (hi : I i.selections i.desk.memory)
    (hvisit : (tag, k) ∈ visits a fuel done rest i) : I k.selections k.desk.memory := by
  induction fuel generalizing done rest i with
  | zero => cases hvisit
  | succ fuel ih =>
      unfold Prompt.visits at hvisit
      split at hvisit
      · cases hvisit
      · rename_i before first after hfirst
        rcases List.mem_cons.1 hvisit with heq | hvisit
        · cases heq
          exact hi
        · split at hvisit
          · cases hvisit
          · rename_i answer l hanswer
            have hl := h _ _ _ _ _ _ (Tag.first?_source hfirst).2 hi hanswer
            dsimp only at hvisit
            split at hvisit
            · refine ih ?_ hvisit
              exact hl
            · refine ih ?_ hvisit
              exact hl

/-- What is known whenever a tag was answered is known in the end. -/
theorem Lasts.resolveFrom (h : Lasts a I) (hi : I i.selections i.desk.memory)
    (hrun : (resolveFrom a fuel done rest).run i = (.ok t, j)) : I j.selections j.desk.memory := by
  induction fuel generalizing done rest i with
  | zero =>
      cases hrun
      exact hi
  | succ fuel ih =>
      unfold Prompt.resolveFrom at hrun
      split at hrun
      · cases hrun
        exact hi
      · rename_i before first after hfirst
        obtain ⟨answer, l, hanswer, hsaid⟩ := exists_of_run_bind hrun
        obtain ⟨_, l', hsay, hrest⟩ := exists_of_run_bind hsaid
        have hl := h _ _ _ _ _ _ (Tag.first?_source hfirst).2 hi hanswer
        have hl : I l'.selections l'.desk.memory := by
          cases hsay
          exact hl
        split at hrest
        · exact ih hl hrest
        · exact ih hl hrest

/-- A run that comes to a tag answers it, and what is known then lasts until the end. -/
theorem exists_of_visit (hvisit : (tag, k) ∈ visits a fuel done rest i)
    (hrun : (resolveFrom a fuel done rest).run i = (.ok t, j)) :
    (∃ u after, Tag.read? u = some (tag, after)) ∧ ∃ answer l, (answerTag a tag).run k = (.ok answer, l) ∧
      ∀ I, Lasts a I → I l.selections l.desk.memory → I j.selections j.desk.memory := by
  induction fuel generalizing done rest i with
  | zero => cases hvisit
  | succ fuel ih =>
      unfold visits at hvisit
      unfold resolveFrom at hrun
      split at hvisit
      · cases hvisit
      · rename_i before first after hfirst
        rw [hfirst] at hrun
        obtain ⟨answer, l, hanswer, hsaid⟩ := exists_of_run_bind hrun
        obtain ⟨_, l', hsay, hrest⟩ := exists_of_run_bind hsaid
        obtain rfl : l' = (run (say (answerRemark first answer)) l).2 := (congrArg Prod.snd hsay).symm
        rcases List.mem_cons.1 hvisit with heq | hvisit
        -- the tag is answered here: what is known from now on is kept by every later tag
        · cases heq
          refine ⟨⟨_, _, (Tag.first?_source hfirst).2⟩, answer, l, hanswer, fun I hI hl => ?_⟩
          split at hrest
          · refine hI.resolveFrom ?_ hrest
            exact hl
          · refine hI.resolveFrom ?_ hrest
            exact hl
        -- it is answered later, on the way that the run takes too
        · rw [hanswer] at hvisit
          dsimp only at hvisit
          split at hvisit
          · rename_i hstays
            rw [if_pos hstays] at hrest
            exact ih hvisit hrest
          · rename_i hgoes
            rw [if_neg hgoes] at hrest
            exact ih hvisit hrest

theorem mem_visits_first {before after : Text} (h : Tag.first? rest = some (before, tag, after)) :
    (tag, i) ∈ visits a (fuel + 1) done rest i := by
  rw [visits, h]
  exact List.mem_cons_self

end Run

/-! ## What lasts -/

section Lasting

variable {a : Answerer σ} {i j k : Interview σ} {tag other : Tag} {t : Text}

/-- A query that was answered stays answered. -/
theorem answered_of_answerTag (h : Entries.has tag.query i.selections = true)
    (hrun : (answerTag a other).run i = (.ok t, j)) : Entries.has tag.query j.selections = true := by
  obtain ⟨new, hasks, -⟩ := answerTag_asks a other i
  rw [hrun] at hasks
  exact hasks.kept _ h

/-- What is remembered of a tag changes only when its query is asked. -/
theorem answerTag_keeps {u v after rest : Text} (htag : Tag.read? u = some (tag, after))
    (hother : Tag.read? v = some (other, rest)) (hrun : (answerTag a other).run i = (.ok t, j)) :
    Entries.get? tag.source j.desk.memory.tags = Entries.get? tag.source i.desk.memory.tags ∨
      Entries.has tag.query i.selections = false ∧ Entries.has tag.query j.selections = true := by
  by_cases hsource : other.source = tag.source
  · obtain rfl := Tag.eq_of_source hother htag hsource
    cases hknown : Entries.get? other.query i.selections with
    | some parts =>
        rw [answerTag, run_bind_of_ok (run_get i), hknown] at hrun
        cases hrun
        exact .inl rfl
    | none =>
        refine .inr ⟨by rw [Entries.has, hknown]; rfl, ?_⟩
        rw [Entries.has, answerTag_settles hknown hrun]
        rfl
  · obtain ⟨cs, hcs, hchanges⟩ := exists_changes hrun
    exact .inl (Memory.get?_of_applyAll hchanges fun c hc => hcs c hc ▸ hsource)

theorem lasts_fits (a : Answerer σ) (place : Text) : Lasts a fun _ m => m.Fits place := by
  intro tag t rest i answer j _ hi hrun
  have hsteady := (steady_fits place).answerTag (asked_fits place) a tag i hi
  rwa [hrun] at hsteady

/-- Once the query of a tag is answered, what is remembered of the tag stays. -/
theorem lasts_answered {u after : Text} (htag : Tag.read? u = some (tag, after)) (v : Option Json) :
    Lasts a fun s m => Entries.has tag.query s = true ∧ Entries.get? tag.source m.tags = v := by
  rintro other w rest i answer j hother ⟨hanswered, hv⟩ hrun
  refine ⟨answered_of_answerTag hanswered hrun, ?_⟩
  rcases answerTag_keeps htag hother hrun with hsame | ⟨hnew, -⟩
  · exact hsame.trans hv
  · rw [hanswered] at hnew
    cases hnew

/-- Until the query of a tag is answered, what is remembered of the tag stays. -/
theorem lasts_unanswered {u after : Text} (htag : Tag.read? u = some (tag, after)) (v : Option Json) :
    Lasts a fun s m => Entries.has tag.query s = false → Entries.get? tag.source m.tags = v := by
  intro other w rest i answer j hother hi hrun hnew
  have hbefore : Entries.has tag.query i.selections = false := by
    by_contra hanswered
    have hyes := answered_of_answerTag (eq_true_of_ne_false hanswered) hrun
    rw [hnew] at hyes
    cases hyes
  rcases answerTag_keeps htag hother hrun with hsame | ⟨-, hyes⟩
  · exact hsame.trans (hi hbefore)
  · rw [hnew] at hyes
    cases hyes

end Lasting

/-! ## Two messages -/

/-- What can be looked up of a tag depends on nothing but what is remembered of the tag. -/
theorem find_congr {m n : Memory} {source : Text}
    (h : Entries.get? source m.tags = Entries.get? source n.tags) (name : Text) :
    m.find source name = n.find source name := by
  rw [Memory.find, Memory.find, h]

/-- A tag asks with the choices that it offers. -/
theorem asked_of_answerTag {a : Answerer σ} {tag : Tag} {i : Interview σ} {offered : List Choice}
    (hnew : Entries.get? tag.query i.selections = none) (hchoice : tag.isChoice = true)
    (hoffered : preselectAll tag i.desk.memory tag.choices = .ok offered) :
    ((answerTag a tag).run i).2.desk.asked = .choice tag.query tag.kind offered :: i.desk.asked := by
  obtain ⟨k, hk, -, hasked⟩ := run_answerTag (a := a) hnew hchoice hoffered
  rw [hk, (steady_quiet.composed.choose tag _ k).asked]
  exact hasked

/-- Where what is remembered of a tag is what it was after choices were confirmed, they are selected. -/
theorem preselectAll_of_changes {tag : Tag} {chosen : List Choice} {m m' n : Memory} (hm : m.Readable)
    (h : Memory.applyAll (tag.changes chosen) m = .ok m') (hchosen : tag.Admits chosen)
    (hsame : Entries.get? tag.source n.tags = Entries.get? tag.source m'.tags) :
    preselectAll tag n tag.choices =
      .ok (tag.choices.map fun c => { c with selected := tag.selects chosen c }) := by
  have hmarks (c : Choice) (hc : c ∈ tag.choices) := marks_of_changes hm h hchosen hc
  have hfind (c : Choice) (hc : c ∈ tag.choices) :
      ∃ answer, n.find tag.source (rememberedName tag c) = .ok answer := by
    rw [find_congr hsame]
    exact (hmarks c hc).1
  have hoffer (c : Choice) (hc : c ∈ tag.choices) :
      n.offer tag c = { c with selected := tag.selects chosen c } := by
    rw [Memory.offer, Memory.marks, find_congr hsame, ← (hmarks c hc).2]
    rfl
  rw [preselectAll_of_find hfind, List.map_congr_left hoffer]

theorem memory_of_save {i j : Interview σ} {u : Unit} (hrun : (save : Asking σ Unit).run i = (.ok u, j)) :
    j.desk.memory = i.desk.memory := by
  rw [run_save] at hrun
  split at hrun <;> cases hrun
  rfl

/-- Choices that were confirmed in one message are selected when the same tag asks in the next one with a
memory that was loaded anew, and no others are, except that of choices which exclude each other those with
the same value are. The labels of the tag are different, and only one choice is confirmed of those that
exclude each other. -/
theorem chosen_are_selected {a : Answerer σ} {b : Answerer τ} {place message message' t : Text}
    {remarks : Journal} {i j k : Interview σ} {i' k' : Interview τ} {tag : Tag} {chosen : List Choice}
    (hi : i.desk.memory.Fits place) (hvisit : (tag, k) ∈ visits a answerLimit [] message i)
    (hconfirmed : Confirmed a tag chosen k) (hrun : (resolve a message).run i = (.ok t, j))
    (hlabels : (tag.choices.map Choice.label).Nodup)
    (hsingle : tag.kind ≠ .checkbox → ∃ s, chosen = [s])
    (hload : Memory.load place j.desk.store = .ok (i'.desk.memory, remarks))
    (hvisit' : (tag, k') ∈ visits b answerLimit [] message' i')
    (hnew' : Entries.get? tag.query k'.selections = none) :
    ((answerTag b tag).run k').2.desk.asked = .choice tag.query tag.kind (tag.choices.map fun c =>
      { c with selected := decide (c.label ∈ chosen.map Choice.label ∨
        tag.kind ≠ .checkbox ∧ c.value ∈ chosen.map Choice.value) }) :: k'.desk.asked := by
  obtain ⟨u, k₁, hfrom, hrest⟩ := exists_of_run_bind hrun
  obtain ⟨_, k₂, hsave, hdone⟩ := exists_of_run_bind hrest
  obtain rfl : k₂ = j := congrArg Prod.snd hdone
  obtain ⟨⟨v, after, htag⟩, answer, l, hanswer, hlast⟩ := exists_of_visit hvisit hfrom
  obtain ⟨offered, hoffered, -, hsubset⟩ := hconfirmed.confirmed
  have hchosen : tag.Admits chosen :=
    ⟨hlabels, fun s hs => exists_of_preselectAll hoffered (hsubset s hs), hsingle⟩
  have hchanges := hconfirmed.makes hanswer
  -- what the tag left behind is still there when the run ends, and is stored
  have hanswered : Entries.has tag.query l.selections = true := by
    rw [Entries.has, answerTag_settles hconfirmed.new hanswer]
    rfl
  obtain ⟨-, hkept⟩ := hlast _ (lasts_answered htag _) ⟨hanswered, rfl⟩
  have hmemory : i'.desk.memory = k₁.desk.memory := by
    have hstored : Memory.load place k₂.desk.store = .ok (k₂.desk.memory, []) := resolve_inStore hi hrun
    rw [hload, Except.ok.injEq, Prod.mk.injEq] at hstored
    exact hstored.1.trans (memory_of_save hsave)
  -- it has not changed either when the tag asks again
  have hunanswered : Entries.has tag.query k'.selections = false := by
    rw [Entries.has, hnew']
    rfl
  have hagain := (lasts_unanswered (a := b) htag _).visits (fun _ => hmemory ▸ hkept) hvisit' hunanswered
  have hreadable := ((lasts_fits a place).visits hi hvisit).2
  exact asked_of_answerTag hnew' hconfirmed.isChoice
    (preselectAll_of_changes hreadable hchanges hchosen hagain)

def preparedChoices : Script where
  texts := []
  choices := [("Loot".toList, some (.positions [1, 3])), ("Q".toList, some (.positions [1]))]

/-- The interview about the next message, in which nothing was answered yet. -/
def nextInterview (m : Memory) (s : Store) : Interview Unit := ⟨⟨(), [], m, s, []⟩, []⟩

/-- Two of three boxes, one of which has the value of the third. -/
theorem chosen_are_selected_boxes :
    let a := preparedChoices.answerer
    let source := "?\x7b[checkbox]Loot|a,1|b,1|c,2\x7d".toList
    let box (label value : String) (selected : Bool) : Choice := ⟨label.toList, value.toList, selected⟩
    let tag : Tag := ⟨source, .checkbox, "Loot".toList, [box "a" "1" false, box "b" "1" false,
      box "c" "2" false], [], standardDelimiter⟩
    ∃ t j m, (resolve a ("Go ".toList ++ source)).run unanswered = (.ok t, j) ∧
      Memory.load "choices".toList j.desk.store = .ok (m, []) ∧
      ((answerTag a tag).run (nextInterview m j.desk.store)).2.desk.asked =
        [.choice "Loot".toList .checkbox [box "a" "1" true, box "b" "1" false, box "c" "2" true]] := by
  intro a source box tag
  have hi : unanswered.desk.memory.Fits "choices".toList := ⟨rfl, Json.Readable.empty⟩
  have hfirst : Tag.first? ("Go ".toList ++ source) = some ("Go ".toList, tag, []) := by decide +kernel
  have hsource : Tag.first? source = some ([], tag, []) := by decide +kernel
  have hconfirmed : Confirmed a tag [box "a" "1" false, box "c" "2" false] unanswered :=
    ⟨rfl, rfl, _, rfl, rfl, by decide⟩
  have hok : ((resolve a ("Go ".toList ++ source)).run unanswered).1.toOption.isSome = true := by
    decide +kernel
  obtain ⟨t, j, hrun⟩ := exists_of_run hok
  -- the second run starts from what the first one saved
  let i' := nextInterview j.desk.memory j.desk.store
  have hload : Memory.load "choices".toList j.desk.store = .ok (i'.desk.memory, []) :=
    resolve_inStore hi hrun
  have hvisit : (tag, unanswered) ∈ visits a (999 + 1) [] ("Go ".toList ++ source) unanswered :=
    mem_visits_first hfirst
  have hvisit' : (tag, i') ∈ visits a (999 + 1) [] source i' := mem_visits_first hsource
  exact ⟨t, j, i'.desk.memory, hrun, hload, chosen_are_selected hi hvisit hconfirmed hrun (by decide)
    (fun hbox => absurd rfl hbox) hload hvisit' rfl⟩

/-- Of two choices from a list with the same value one is confirmed, and both are selected the next time. -/
theorem same_value_is_selected :
    let a := preparedChoices.answerer
    let source := "?\x7bQ|A,1|B,1\x7d".toList
    let choice (label : String) (selected : Bool) : Choice := ⟨label.toList, "1".toList, selected⟩
    let tag : Tag := ⟨source, .list, "Q".toList, [choice "A" false, choice "B" false], [],
      standardDelimiter⟩
    Tag.read? source = some (tag, []) ∧ (tag.choices.map Choice.label).Nodup ∧
      Confirmed a tag [choice "A" false] unanswered ∧
      ∃ t j m, (resolve a source).run unanswered = (.ok t, j) ∧
        Memory.load "choices".toList j.desk.store = .ok (m, []) ∧
        ((answerTag a tag).run (nextInterview m j.desk.store)).2.desk.asked =
          [.choice "Q".toList .list [choice "A" true, choice "B" true]] := by
  intro a source choice tag
  have hi : unanswered.desk.memory.Fits "choices".toList := ⟨rfl, Json.Readable.empty⟩
  have hok : ((resolve a source).run unanswered).1.toOption.isSome = true := by decide +kernel
  have hasked : ((answerTag a tag).run
      (nextInterview ((resolve a source).run unanswered).2.desk.memory
        ((resolve a source).run unanswered).2.desk.store)).2.desk.asked =
        [.choice "Q".toList .list [choice "A" true, choice "B" true]] := by decide +kernel
  obtain ⟨t, j, hrun⟩ := exists_of_run hok
  have hload : Memory.load "choices".toList j.desk.store = .ok (j.desk.memory, []) :=
    resolve_inStore hi hrun
  rw [hrun] at hasked
  exact ⟨by decide +kernel, by decide, ⟨rfl, rfl, _, rfl, rfl, by decide⟩, t, j, j.desk.memory, hrun, hload,
    hasked⟩

end Prompt

end TabletopChat
