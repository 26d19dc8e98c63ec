import TabletopChat.Proofs.Json.Overlong
import TabletopChat.Proofs.Prompt.Lockstep
import TabletopChat.Proofs.Prompt.Preselected

/-!
# Proofs/Prompt/Unreadable — what is remembered in a form that nobody wrote

The text in which choices are remembered may have been changed by others. A text that is no JSON, or no
object, counts as nothing remembered; only an integer that is too long cannot be loaded. Of an object, the
value under a tag is looked at when the tag asks for a choice, and an answer stops there if that value is no
object. Nothing else stops it, and everything that cannot be read counts as nothing remembered.

- `Memory.load_fails_iff` : texts that cannot be loaded
- `Memory.chosen?`        : what is remembered under a name
- `Memory.legible`        : the choices that can be read
- `Stumbles`, `answerTag_stops_iff` : tags that cannot be answered
- `Mirrors`               : runs that are the same with other memories
- `unreadable_is_forgotten` : messages
- `text_blocks_tag`       : a text in the place of choices
-/

namespace TabletopChat

namespace Prompt

open Act

variable {σ α β : Type}

/-! ## Loading -/

namespace Memory

def stored (place : Text) (s : Store) : Text := (s.get? place key).getD []

/-- Choices cannot be loaded exactly if an integer in their text is too long. -/
theorem load_fails_iff {place : Text} {s : Store} {e : Abort} :
    load place s = .error e ↔ e = .numeralTooLong ∧ Json.parse (stored place s) = .error .numeralTooLong := by
  unfold load parse stored
  by_cases hnil : (s.get? place key).getD [] = []
  · rw [if_pos hnil, hnil]
    exact ⟨nofun, fun h => nomatch h.2⟩
  · rw [if_neg hnil]
    cases hparse : Json.parse ((s.get? place key).getD []) with
    | ok v => cases v <;> simp
    | error fault => cases fault <;> simp [eq_comm]

/-- What is no object counts as nothing remembered. -/
theorem tags_of_load {place : Text} {s : Store} {m : Memory} {remarks : Journal}
    (h : load place s = .ok (m, remarks)) :
    Json.parse (stored place s) = .ok (.object m.tags) ∨
      m.tags = [] ∧ ∀ tags, Json.parse (stored place s) ≠ .ok (.object tags) := by
  unfold load parse at h
  unfold stored
  by_cases hnil : (s.get? place key).getD [] = []
  · rw [if_pos hnil] at h
    cases h
    rw [hnil]
    exact .inr ⟨rfl, nofun⟩
  · rw [if_neg hnil] at h
    cases hparse : Json.parse ((s.get? place key).getD []) with
    | ok v =>
      rw [hparse] at h
      cases v with
      | object tags =>
        cases h
        exact .inl rfl
      | _ =>
        cases h
        exact .inr ⟨rfl, nofun⟩
    | error fault =>
      rw [hparse] at h
      cases fault <;> cases h
      exact .inr ⟨rfl, nofun⟩

/-! ## Choices that can be read -/

/-- The choice that is remembered under a name for a tag, if it can be read. -/
def chosen? (tag name : Text) (m : Memory) : Option Text :=
  match m.find tag name with
  | .ok answer => answer.bind Json.text?
  | .error _ => none

theorem chosen?_of_find {tag name : Text} {m : Memory} {answer : Option Json}
    (h : m.find tag name = .ok answer) : m.chosen? tag name = answer.bind Json.text? := by
  rw [chosen?, h]

/-- Whether a choice is marked, told by what was chosen. -/
theorem marks_eq (m : Memory) (tag : Tag) (c : Choice) :
    m.marks tag c = decide (m.chosen? tag.source (rememberedName tag c) = some c.value) := by
  unfold marks chosen?
  rcases m.find tag.source (rememberedName tag c) with e | (- | v)
  · rfl
  · rfl
  · cases v <;> simp [Json.text?]

/-- After a change of a tag, what was remembered before matters only if it can be read. -/
theorem after_text? (c : Change) (name : Text) {old old' : Option Json}
    (h : old.bind Json.text? = old'.bind Json.text?) :
    (c.after name old).bind Json.text? = (c.after name old').bind Json.text? := by
  cases c <;> simp only [Change.after] <;> split <;> first | rfl | exact h

/-- A memory and another one, which is tidy, and in which the same choices can be read. -/
structure Legibly (m n : Memory) : Prop where
  readable : m.Readable ∧ n.Readable
  tidy : n.Tidy
  chosen : ∀ tag name, n.chosen? tag name = m.chosen? tag name

/-- Changes that can be made in one of them can be made in the other. -/
theorem Legibly.apply {m m' n : Memory} (h : Legibly m n) {c : Change} (hm : c.apply m = .ok m') :
    ∃ n', c.apply n = .ok n' ∧ Legibly m' n' := by
  obtain ⟨n', hn, htidy⟩ := h.tidy.apply c
  refine ⟨n', hn, ⟨h.readable.1.changes c.changes hm, h.readable.2.changes c.changes hn⟩, htidy,
    fun tag name => ?_⟩
  by_cases htag : c.source = tag
  · subst htag
    obtain ⟨old, hold, hafter⟩ := h.readable.1.find_of_apply hm name
    obtain ⟨old', hold', hafter'⟩ := h.readable.2.find_of_apply hn name
    rw [chosen?_of_find hafter, chosen?_of_find hafter']
    have hsame := h.chosen c.source name
    rw [chosen?_of_find hold, chosen?_of_find hold'] at hsame
    exact after_text? c name hsame
  · have hsame := h.chosen tag name
    unfold chosen? at hsame ⊢
    rwa [find_congr (get?_of_apply hm htag), find_congr (get?_of_apply hn htag)]

/-- What is offered in one of them is offered in the other. -/
theorem Legibly.preselectAll {m n : Memory} (h : Legibly m n) {tag : Tag} {ds : List Choice}
    (hm : preselectAll tag m tag.choices = .ok ds) : Prompt.preselectAll tag n tag.choices = .ok ds := by
  rw [h.tidy.preselectAll, preselectAll_eq hm]
  have hoffer : n.offer tag = m.offer tag := funext fun c => by
    rw [offer, offer, marks_eq, marks_eq, h.chosen]
  rw [hoffer]

/-! ### Leaving out the rest -/

def legibleTag : Json → Option Json
  | .object names => some (.object (Entries.filterMap (fun v => v.text?.map .text) names))
  | _ => none

def legible (m : Memory) : Memory := { m with tags := Entries.filterMap legibleTag m.tags }

/-- What can be read of a tag can be written. -/
theorem readable_of_legibleTag {v w : Json} (hv : Json.Readable v) (h : legibleTag v = some w) :
    Json.Readable w := by
  unfold legibleTag at h
  split at h <;> cases h
  refine .object (Entries.nodup_filterMap _ hv.nodup_keys) fun e he => ?_
  obtain ⟨u, -, hu⟩ := List.mem_filterMap.1 he
  obtain ⟨w, hw, rfl⟩ := Option.map_eq_some_iff.1 hu
  obtain ⟨t, -, rfl⟩ := Option.map_eq_some_iff.1 hw
  exact .text t

/-- Everything that can be read is kept, and nothing else. -/
theorem legibly_legible {m : Memory} (h : m.Readable) : Legibly m m.legible := by
  have hkeys := Json.Readable.nodup_keys h
  -- a tag that is kept is found in both, with the part of its choices that can be read
  have hvalue {tag : Text} {w : Json} (he : (tag, w) ∈ m.legible.tags) :
      ∃ v, Entries.get? tag m.tags = some v ∧ legibleTag v = some w := by
    have hfound : Entries.get? tag m.legible.tags = some w :=
      (Entries.get?_eq_some_iff (Entries.nodup_filterMap _ hkeys)).2 he
    rw [legible, Entries.get?_filterMap _ hkeys] at hfound
    exact Option.bind_eq_some_iff.1 hfound
  refine ⟨⟨h, .object (Entries.nodup_filterMap _ hkeys) ?_⟩, ?_, fun tag name => ?_⟩
  · rintro ⟨tag, w⟩ he
    obtain ⟨v, hv, hlegible⟩ := hvalue he
    exact readable_of_legibleTag (Json.Readable.get? h hv) hlegible
  · rintro ⟨tag, w⟩ he
    obtain ⟨v, -, hlegible⟩ := hvalue he
    unfold legibleTag at hlegible
    split at hlegible <;> cases hlegible
    exact ⟨_, rfl⟩
  · unfold chosen? find
    rw [legible, Entries.get?_filterMap _ hkeys]
    cases hv : Entries.get? tag m.tags with
    | none => rfl
    | some v =>
      cases v with
      | object names =>
        have hnames := (Json.Readable.get? h hv).nodup_keys
        simp only [Option.bind_some, legibleTag, Entries.get?_filterMap _ hnames]
        cases Entries.get? name names with
        | none => rfl
        | some u => cases u <;> rfl
      | _ => rfl

/-! ## Where something else is remembered -/

/-- Something else than choices is remembered of a tag. -/
def Garbled (m : Memory) (tag : Text) : Prop :=
  ∃ v, Entries.get? tag m.tags = some v ∧ ∀ names, v ≠ .object names

theorem not_garbled_iff {m : Memory} {tag : Text} :
    ¬ m.Garbled tag ↔
      Entries.get? tag m.tags = none ∨ ∃ names, Entries.get? tag m.tags = some (.object names) := by
  unfold Garbled
  cases hv : Entries.get? tag m.tags with
  | none => simp
  | some v => cases v <;> simp

/-- Looking into a garbled tag fails. -/
theorem find_of_garbled {m : Memory} {tag : Text} (h : m.Garbled tag) (name : Text) :
    m.find tag name = .error .noObject := by
  obtain ⟨v, hv, hno⟩ := h
  rw [find, hv]
  cases v with
  | object names => exact absurd rfl (hno names)
  | _ => rfl

theorem exists_find_of_clear {m : Memory} {tag : Text} (h : ¬ m.Garbled tag) (name : Text) :
    ∃ answer, m.find tag name = .ok answer := by
  rw [find]
  rcases not_garbled_iff.1 h with hv | ⟨names, hv⟩ <;> rw [hv] <;> exact ⟨_, rfl⟩

/-- Where choices are remembered of a tag, they can be changed, and choices are remembered afterwards. -/
theorem exists_apply_of_clear {m : Memory} (c : Change) (h : ¬ m.Garbled c.source) :
    ∃ m', c.apply m = .ok m' ∧ ¬ m'.Garbled c.source := by
  have hwritten (names : Entries Json) :
      ¬ ({ m with tags := Entries.insert c.source (.object names) m.tags } : Memory).Garbled c.source :=
    not_garbled_iff.2 (.inr ⟨names, Entries.get?_insert_self _ _ _⟩)
  cases c with
  | remember tag name value =>
    simp only [Change.apply, remember, Change.source] at h hwritten ⊢
    rcases not_garbled_iff.1 h with hv | ⟨names, hv⟩ <;> rw [hv] <;> exact ⟨_, rfl, hwritten _⟩
  | forget tag name =>
    simp only [Change.apply, forget, Change.source] at h hwritten ⊢
    rcases not_garbled_iff.1 h with hv | ⟨names, hv⟩ <;> rw [hv]
    · exact ⟨m, rfl, h⟩
    · exact ⟨_, rfl, hwritten _⟩

end Memory

/-! ## Tags that cannot be answered -/

/-- A tag asks for a choice, but something else is remembered of it. -/
structure Stumbles (tag : Tag) (i : Interview σ) : Prop where
  new : Entries.get? tag.query i.selections = none
  isChoice : tag.isChoice = true
  garbled : i.desk.memory.Garbled tag.source

/-- Where something else than choices is remembered, preselecting stops. -/
theorem preselectAll_of_garbled {tag : Tag} {m : Memory} (h : m.Garbled tag.source)
    (hchoice : tag.isChoice = true) : preselectAll tag m tag.choices = .error .noObject := by
  cases hcs : tag.choices with
  | nil => simp [Tag.isChoice, hcs] at hchoice
  | cons c cs =>
    have hfirst : preselect tag m c = .error .noObject := by rw [preselect, Memory.find_of_garbled h]
    rw [preselectAll, hfirst]
    rfl

/-- Choices of a tag can be made where nothing else is remembered of it. -/
theorem picking_clear (tag : Tag) : Picking (σ := σ) tag fun a =>
    ∀ i, ¬ i.desk.memory.Garbled tag.source →
      ∃ x j, a.run i = (.ok x, j) ∧ ¬ j.desk.memory.Garbled tag.source := by
  have hchange (c : Memory.Change) (i : Interview σ) (h : ¬ i.desk.memory.Garbled c.source) :
      ∃ x j, (change c.apply).run i = (.ok x, j) ∧ ¬ j.desk.memory.Garbled c.source := by
    obtain ⟨m, hm, hclear⟩ := Memory.exists_apply_of_clear c h
    exact ⟨(), { i with desk := { i.desk with memory := m } }, by simp only [change, Act.run, hm], hclear⟩
  refine ⟨fun x i h => ⟨x, i, rfl, h⟩, fun ha hf i h => ?_, fun _ _ i h => ⟨(), _, rfl, h⟩,
    fun name value => hchange (.remember tag.source name value), fun name => hchange (.forget tag.source name)⟩
  obtain ⟨x, j, hfirst, hj⟩ := ha i h
  obtain ⟨y, k, hrest, hk⟩ := hf x j hj
  exact ⟨y, k, (run_bind_of_ok hfirst).trans hrest, hk⟩

/-- A tag that stumbles stops at once, and changes nothing. -/
theorem run_answerTag_of_stumbles (a : Answerer σ) {tag : Tag} {i : Interview σ} (h : Stumbles tag i) :
    (answerTag a tag).run i = (.error .noObject, i) := by
  have hconsult : (consult fun m => preselectAll tag m tag.choices : Asking σ (List Choice)).run i =
      (.error .noObject, i) := by
    simp only [consult, Act.run, preselectAll_of_garbled h.garbled h.isChoice]
  rw [answerTag, run_bind_of_ok (run_get i), h.new]
  simp only [h.isChoice, if_true]
  rw [askChoice, run_bind_of_error hconsult]

/-- Any other tag is answered. -/
theorem exists_run_answerTag (a : Answerer σ) {tag : Tag} {i : Interview σ} (h : ¬ Stumbles tag i) :
    ∃ answer j, (answerTag a tag).run i = (.ok answer, j) := by
  cases hnew : Entries.get? tag.query i.selections with
  | some parts =>
    rw [answerTag, run_bind_of_ok (run_get i), hnew]
    exact ⟨_, _, rfl⟩
  | none =>
    cases hchoice : tag.isChoice with
    | false =>
      rw [answerTag, run_bind_of_ok (run_get i), hnew]
      simp only [hchoice]
      exact ⟨_, _, rfl⟩
    | true =>
      have hclear : ¬ i.desk.memory.Garbled tag.source := fun hgarbled => h ⟨hnew, hchoice, hgarbled⟩
      have hoffered := preselectAll_of_find fun c (_ : c ∈ tag.choices) =>
        Memory.exists_find_of_clear hclear (rememberedName tag c)
      obtain ⟨k, hk, hmemory, -⟩ := run_answerTag (a := a) hnew hchoice hoffered
      obtain ⟨answer, j, hrun, -⟩ := (picking_clear tag).choose _ k (hmemory.symm ▸ hclear)
      exact ⟨answer, j, hk.trans hrun⟩

/-- Answering a tag stops exactly where the tag asks for a choice and something else is remembered of it. -/
theorem answerTag_stops_iff {a : Answerer σ} {tag : Tag} {i : Interview σ} {e : Abort} :
    ((answerTag a tag).run i).1 = .error e ↔ Stumbles tag i ∧ e = .noObject := by
  by_cases h : Stumbles tag i
  · rw [run_answerTag_of_stumbles a h]
    simp [h, eq_comm]
  · obtain ⟨answer, j, hrun⟩ := exists_run_answerTag a h
    rw [hrun]
    simp [h]

/-! ## Messages that stop -/

section Run

variable {a : Answerer σ} {fuel : Nat} {done rest message t : Text} {i j k : Interview σ} {tag : Tag}
  {e : Abort}

/-- The tags that are answered are read from texts. -/
theorem read_of_mem_visits (h : (tag, k) ∈ visits a fuel done rest i) :
    ∃ u after, Tag.read? u = some (tag, after) := by
  induction fuel generalizing done rest i with
  | zero => cases h
  | succ fuel ih =>
    unfold visits at h
    split at h
    · cases h
    · rename_i before first after hfirst
      rcases List.mem_cons.1 h with heq | h
      · cases heq
        exact ⟨_, _, (Tag.first?_source hfirst).2⟩
      · split at h
        · cases h
        · dsimp only at h
          split at h
          · exact ih h
          · exact ih h

/-- The answering of tags stops exactly where it comes to a tag that cannot be answered. -/
theorem resolveFrom_stops_iff : ((resolveFrom a fuel done rest).run i).1 = .error e ↔
    ∃ tag k, (tag, k) ∈ visits a fuel done rest i ∧ ((answerTag a tag).run k).1 = .error e := by
  induction fuel generalizing done rest i with
  | zero =>
    refine iff_of_false (fun h => ?_) (by simp [visits])
    cases h
  | succ fuel ih =>
    rw [resolveFrom, visits]
    cases hfirst : Tag.first? rest with
    | none =>
      refine iff_of_false (fun h => ?_) (by simp)
      cases h
    | some found =>
      obtain ⟨before, tag, after⟩ := found
      dsimp only
      rcases hanswer : (answerTag a tag).run i with ⟨e' | answer, l⟩
      · rw [run_bind_of_error hanswer]
        simp [hanswer]
      · -- the tag in front does not stop, so that one behind it has to
        have hbehind (vs : List (Tag × Interview σ)) :
            (∃ t k, (t, k) ∈ (tag, i) :: vs ∧ ((answerTag a t).run k).1 = .error e) ↔
              ∃ t k, (t, k) ∈ vs ∧ ((answerTag a t).run k).1 = .error e := by
          simp [or_and_right, exists_or, hanswer]
        have hsay : (say (answerRemark tag answer)).run l =
            (.ok (), ((say (answerRemark tag answer)).run l).2) := rfl
        rw [run_bind_of_ok hanswer, run_bind_of_ok hsay, hbehind]
        by_cases hstays : answer = tag.source
        · simp only [if_pos hstays, ih]
        · simp only [if_neg hstays, ih]

/-- Until a tag asks, the same is remembered of it as at the beginning. -/
theorem garbled_of_visit (hvisit : (tag, k) ∈ visits a fuel done rest i)
    (hnew : Entries.get? tag.query k.selections = none) :
    k.desk.memory.Garbled tag.source ↔ i.desk.memory.Garbled tag.source := by
  obtain ⟨u, after, htag⟩ := read_of_mem_visits hvisit
  have hunanswered : Entries.has tag.query k.selections = false := by
    rw [Entries.has, hnew]
    rfl
  have hsame := (lasts_unanswered (a := a) htag (Entries.get? tag.source i.desk.memory.tags)).visits
    (fun _ => rfl) hvisit hunanswered
  rw [Memory.Garbled, Memory.Garbled, hsame]

/-- In a message a tag asks for a choice of which something else was remembered at the beginning. -/
def Trips (a : Answerer σ) (message : Text) (i : Interview σ) : Prop :=
  ∃ tag k, (tag, k) ∈ visits a answerLimit [] message i ∧ Entries.get? tag.query k.selections = none ∧
    tag.isChoice = true ∧ i.desk.memory.Garbled tag.source

/-- Answering a message stops exactly if it trips. -/
theorem resolveFrom_trips_iff :
    ((resolveFrom a answerLimit [] message).run i).1 = .error e ↔ Trips a message i ∧ e = .noObject := by
  rw [resolveFrom_stops_iff]
  constructor
  · rintro ⟨tag, k, hvisit, hstop⟩
    obtain ⟨hstumbles, rfl⟩ := answerTag_stops_iff.1 hstop
    exact ⟨⟨tag, k, hvisit, hstumbles.new, hstumbles.isChoice,
      (garbled_of_visit hvisit hstumbles.new).1 hstumbles.garbled⟩, rfl⟩
  · rintro ⟨⟨tag, k, hvisit, hnew, hchoice, hgarbled⟩, rfl⟩
    exact ⟨tag, k, hvisit, answerTag_stops_iff.2
      ⟨⟨hnew, hchoice, (garbled_of_visit hvisit hnew).2 hgarbled⟩, rfl⟩⟩

/-- A message is answered unless it trips, and what is remembered then is stored if the store can be written
to. -/
theorem resolve_stops_iff : ((resolve a message).run i).1 = .error e ↔
    Trips a message i ∧ e = .noObject ∨
      ¬ Trips a message i ∧ ¬ i.desk.store.Writable ∧ e = .notWritable := by
  rcases hrun : (resolveFrom a answerLimit [] message).run i with ⟨e' | t, j⟩
  · obtain ⟨htrips, rfl⟩ := resolveFrom_trips_iff.1 (congrArg Prod.fst hrun)
    rw [resolve, run_bind_of_error hrun]
    simp [htrips, eq_comm]
  · have hsafe : ¬ Trips a message i := fun htrips => by
      have hstop := resolveFrom_trips_iff.2 ⟨htrips, rfl⟩
      rw [hrun] at hstop
      cases hstop
    obtain ⟨journal, store, hresolve⟩ := exists_run_resolve hrun
    rw [hresolve]
    by_cases hwritable : i.desk.store.Writable <;> simp [hsafe, hwritable, eq_comm]

end Run

/-! ## Runs with the rest left out -/

/-- Interviews that differ at most in what cannot be read of what is remembered. -/
structure SameButUnreadable (i j : Interview σ) : Prop where
  answerer : i.desk.answerer = j.desk.answerer
  asked : i.desk.asked = j.desk.asked
  store : i.desk.store = j.desk.store
  journal : i.desk.journal = j.desk.journal
  selections : i.selections = j.selections
  memory : i.desk.memory.Legibly j.desk.memory

/-- What has a result has the same result where only what can be read is remembered. -/
def Mirrors (a : Asking σ α) : Prop :=
  ∀ i j x i', SameButUnreadable i j → a.run i = (.ok x, i') →
    ∃ j', a.run j = (.ok x, j') ∧ SameButUnreadable i' j'

theorem mirrors_modify {f : Interview σ → Interview σ}
    (hf : ∀ i j, SameButUnreadable i j → SameButUnreadable (f i) (f j)) :
    Mirrors (Act.modify f : Asking σ Unit) := by
  rintro i j x i' hij ⟨⟩
  exact ⟨f j, rfl, hf i j hij⟩

/-- Changes are the same to what can be read. -/
theorem mirrors_change (c : Memory.Change) : Mirrors (change c.apply : Asking σ Unit) := by
  intro i j x i' hij hrun
  simp only [change, Act.run] at hrun
  cases hm : c.apply i.desk.memory with
  | error e =>
    rw [hm] at hrun
    cases hrun
  | ok m =>
    rw [hm] at hrun
    cases hrun
    obtain ⟨n, hn, hmemory⟩ := hij.memory.apply hm
    refine ⟨{ j with desk := { j.desk with memory := n } }, by simp only [change, Act.run, hn], ?_⟩
    exact ⟨hij.answerer, hij.asked, hij.store, hij.journal, hij.selections, hmemory⟩

/-- Each step of answering a tag has the same result where only what can be read is remembered. -/
theorem composed_mirrors : Composed (σ := σ) fun a => Mirrors a where
  pure x := by
    rintro i j y i' hij ⟨⟩
    exact ⟨j, rfl, hij⟩
  bind ha hf := by
    intro i j y i' hij hrun
    obtain ⟨x, k, hfirst, hrest⟩ := exists_of_run_bind hrun
    obtain ⟨k', hfirst', hkk⟩ := ha i j x k hij hfirst
    obtain ⟨j', hrest', hend⟩ := hf x k k' y i' hkk hrest
    exact ⟨j', (run_bind_of_ok hfirst').trans hrest', hend⟩
  look hsame hf := by
    intro i j x i' hij hrun
    rw [run_bind_of_ok (run_get i)] at hrun
    -- what is looked at are the selections only
    rw [run_bind_of_ok (run_get j), ← hsame i j hij.selections]
    exact hf i i j x i' hij hrun
  say entries := mirrors_modify fun i j h =>
    ⟨h.answerer, h.asked, h.store, congrArg (entries ++ ·) h.journal, h.selections, h.memory⟩
  select name parts := mirrors_modify fun i j h =>
    ⟨h.answerer, h.asked, h.store, h.journal, congrArg (Entries.insert name parts) h.selections, h.memory⟩
  change {f} hf := by
    cases hf with
    | remember tag name value => exact mirrors_change (.remember tag name value)
    | forget tag name => exact mirrors_change (.forget tag name)
  consult tag := by
    intro i j ds i' hij hrun
    have hoffered : preselectAll tag i.desk.memory tag.choices = .ok ds := congrArg Prod.fst hrun
    obtain rfl : i = i' := congrArg Prod.snd hrun
    exact ⟨j, by simp only [consult, Act.run, hij.memory.preselectAll hoffered], hij⟩

/-- Asking a question looks at no memory. -/
theorem mirrors_ask (q : Question) (reply : σ → Reply σ α) : Mirrors (ask q reply) := by
  rintro i j x i' hij ⟨⟩
  have hrun : (ask q reply).run j = (.ok (reply i.desk.answerer).answer, ((ask q reply).run j).2) := by
    simp only [ask, Act.run, hij.answerer]
  refine ⟨_, hrun, congrArg (fun s => (reply s).next) hij.answerer, congrArg (q :: ·) hij.asked, hij.store,
    ?_, hij.selections, hij.memory⟩
  simp only [ask, Act.run, hij.answerer, hij.journal]

/-- Where only what can be read is remembered, a message that does not trip has the same result, after the
same questions. -/
theorem resolve_legible {a : Answerer σ} {message : Text} {i : Interview σ}
    (hi : i.desk.memory.Readable) (hsafe : ¬ Trips a message i) :
    ∃ r i' j', (resolve a message).run i = (r, i') ∧
      (resolve a message).run { i with desk := { i.desk with memory := i.desk.memory.legible } } = (r, j') ∧
      i'.desk.answerer = j'.desk.answerer ∧ i'.desk.asked = j'.desk.asked ∧
      i'.selections = j'.selections ∧ i'.desk.memory.Legibly j'.desk.memory := by
  rcases hrun : (resolveFrom a answerLimit [] message).run i with ⟨e | t, i'⟩
  · exact absurd (resolveFrom_trips_iff.1 (congrArg Prod.fst hrun)).1 hsafe
  · have hmirrors : Mirrors (resolveFrom a answerLimit [] message) :=
      composed_mirrors.resolveFrom mirrors_ask a answerLimit [] message
    obtain ⟨j', hrun', hend⟩ := hmirrors i { i with desk := { i.desk with memory := i.desk.memory.legible } }
      t i' ⟨rfl, rfl, rfl, rfl, rfl, Memory.legibly_legible hi⟩ hrun
    obtain ⟨_, _, hresolve⟩ := exists_run_resolve hrun
    obtain ⟨_, _, hresolve'⟩ := exists_run_resolve hrun'
    exact ⟨_, _, _, hresolve, hresolve', hend.answerer, hend.asked, hend.selections, hend.memory⟩

/-! ## Messages -/

/-- Whatever is stored in the place of choices, it cannot be loaded only if an integer in it is too long, and
what is no object counts as nothing remembered. A message then stops in two cases only: it asks for a choice
of a tag under which something else is stored, or the store cannot be written to. In all other cases, it has
the result that it has, and asks the questions that it asks, with only those choices remembered that can be
read. -/
theorem unreadable_is_forgotten (a : Answerer σ) (message place : Text) (store : Store) :
    (∀ e, Memory.load place store = .error e ↔
      e = .numeralTooLong ∧ Json.parse (Memory.stored place store) = .error .numeralTooLong) ∧
    (Json.parse (Memory.stored place store) = .error .numeralTooLong →
      Json.Overlong (Memory.stored place store)) ∧
    ∀ (i : Interview σ) (remarks : Journal), Memory.load place store = .ok (i.desk.memory, remarks) →
      (Json.parse (Memory.stored place store) = .ok (.object i.desk.memory.tags) ∨
        i.desk.memory.tags = [] ∧ ∀ tags, Json.parse (Memory.stored place store) ≠ .ok (.object tags)) ∧
      (∀ e, ((resolve a message).run i).1 = .error e ↔
        Trips a message i ∧ e = .noObject ∨
          ¬ Trips a message i ∧ ¬ i.desk.store.Writable ∧ e = .notWritable) ∧
      (¬ Trips a message i → ∃ r i' j', (resolve a message).run i = (r, i') ∧
        (resolve a message).run { i with desk := { i.desk with memory := i.desk.memory.legible } } =
          (r, j') ∧
        i'.desk.answerer = j'.desk.answerer ∧ i'.desk.asked = j'.desk.asked ∧
        i'.selections = j'.selections ∧ i'.desk.memory.Legibly j'.desk.memory) :=
  ⟨fun _ => Memory.load_fails_iff, Json.overlong_of_parse, fun _ _ hload =>
    ⟨Memory.tags_of_load hload, fun _ => resolve_stops_iff,
      resolve_legible (Memory.readable_of_load hload).2⟩⟩

def storing (t : String) : Store := .memory [("chatmacro".toList, [(Memory.key, t.toList)])]

/-- A list in the place of a value, and a text in the place of the choices of a tag that is not asked. -/
theorem unreadable_is_forgotten_unasked :
    let a := preparedChoices.answerer
    let message := "?\x7bQ|A,1|B,2\x7d".toList
    let store :=
      storing "\x7b\"?\x7bQ|A,1|B,2\x7d\": \x7b\"value\": []\x7d, \"?\x7bR|C,3\x7d\": \"3\"\x7d"
    ∃ m, Memory.load "chatmacro".toList store = .ok (m, []) ∧
      m.Garbled "?\x7bR|C,3\x7d".toList ∧ ¬ Trips a message (nextInterview m store) ∧
      ∃ i' j', (resolve a message).run (nextInterview m store) = (.ok "1".toList, i') ∧
        (resolve a message).run (nextInterview m.legible store) = (.ok "1".toList, j') ∧
        i'.desk.asked = j'.desk.asked := by
  intro a message store
  let m : Memory := ⟨"chatmacro".toList, [(message, .object [("value".toList, .list [])]),
    ("?\x7bR|C,3\x7d".toList, .text "3".toList)]⟩
  have hload : Memory.load "chatmacro".toList store = .ok (m, []) := by cbv
  have hgarbled : m.Garbled "?\x7bR|C,3\x7d".toList := ⟨_, rfl, fun names h => by cases h⟩
  obtain ⟨-, hstops, hsame⟩ :=
    (unreadable_is_forgotten a message "chatmacro".toList store).2.2 (nextInterview m store) [] hload
  -- the run comes to a text, so it did not trip
  have hok : ((resolve a message).run (nextInterview m store)).1.toOption = some "1".toList := by
    decide +kernel
  have hsafe : ¬ Trips a message (nextInterview m store) := fun htrips => by
    have hstop := (hstops .noObject).2 (.inl ⟨htrips, rfl⟩)
    rw [hstop] at hok
    cases hok
  obtain ⟨r, i', j', hrun, hrun', -, hasked, -⟩ := hsame hsafe
  rw [hrun] at hok
  cases r with
  | error e => cases hok
  | ok t =>
    cases hok
    exact ⟨m, hload, hgarbled, hsafe, i', j', hrun, hrun', hasked⟩

/-- A text in the place of the choices of a tag that is asked. -/
theorem text_blocks_tag :
    let store := storing "\x7b\"?\x7bQ|A,1\x7d\": \"1\"\x7d"
    store.Writable ∧ ∃ m, Memory.load "chatmacro".toList store = .ok (m, []) ∧
      ((resolve preparedChoices.answerer "?\x7bQ|A,1\x7d".toList).run (nextInterview m store)).1 =
        .error .noObject := by
  intro store
  have hload : Memory.load "chatmacro".toList store =
      .ok (⟨"chatmacro".toList, [("?\x7bQ|A,1\x7d".toList, .text "1".toList)]⟩, []) := by cbv
  exact ⟨trivial, _, hload, by decide +kernel⟩

end Prompt

end TabletopChat
