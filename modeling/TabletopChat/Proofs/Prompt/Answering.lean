import TabletopChat.Proofs.Entries
import TabletopChat.Proofs.Dice.Endless
import TabletopChat.Proofs.Prompt.Steps

/-!
# Proofs/Prompt/Answering — prompts that are answered without stopping

Answering a prompt stops only if what is remembered has another form than choices by tag and name, or
if it cannot be stored. If the answers hold no null characters, neither does the text they are put
into.

- `Tag.NulFree`     : tags that say nothing with a null character
- `Calm`            : interviews in which no answer can go wrong
- `resolve_answers` : answering all tags of a text
-/

namespace TabletopChat

open Text

namespace Prompt

/-! ## Tags -/

def Choice.NulFree (c : Choice) : Prop := Text.NulFree c.label ∧ Text.NulFree c.value

structure Tag.NulFree (tag : Tag) : Prop where
  source : Text.NulFree tag.source
  query : Text.NulFree tag.query
  fallback : Text.NulFree tag.fallback
  delimiter : Text.NulFree tag.delimiter
  choices : ∀ c ∈ tag.choices, c.NulFree

theorem Atom.nulFree_sourceOf {as s : List Atom} (h : Text.NulFree (sourceOf as)) (hs : s ⊆ as) :
    Text.NulFree (sourceOf s) :=
  nulFree_flatMap fun a ha => h.of_subset fun _ hc => List.mem_flatMap.2 ⟨a, hs ha, hc⟩

theorem Atom.nulFree_sourceOfSegments {as : List Atom} {ss : List (List Atom)}
    (h : Text.NulFree (sourceOf as)) (hss : ∀ s ∈ ss, s ⊆ as) :
    Text.NulFree (sourceOfSegments ss) := by
  refine NulFree.joinWith (by simp) fun t ht => ?_
  rcases List.mem_map.1 ht with ⟨s, hs, rfl⟩
  exact nulFree_sourceOf h (hss s hs)

/-- Choices that are read from a text without null characters have none. -/
theorem Choice.nulFree_ofItems {items : Text} (h : Text.NulFree items) :
    ∀ c ∈ Choice.ofItems items, c.NulFree := by
  intro c hc
  rcases List.mem_map.1 hc with ⟨item, hitem, rfl⟩
  have hcut := (h.pieces (List.mem_filter.1 hitem).1).cutAt ','
  unfold Choice.ofItem
  split
  · rename_i heq
    rw [heq] at hcut
    exact ⟨hcut.1.strip, (hcut.2 _ rfl).strip⟩
  · rename_i heq
    rw [heq] at hcut
    exact ⟨hcut.1.strip, nulFree_nil⟩

/-- A head keeps null characters out of its delimiter and of the rest. -/
theorem head?_nulFree {t : Text} (h : Text.NulFree t) :
    Gives (fun x => Text.NulFree x.1.delimiter ∧ Text.NulFree x.2) (head? t) := by
  have hstandard : Text.NulFree standardDelimiter := nulFree_of_ofList rfl (by decide)
  unfold head?
  split
  · rename_i t
    have hrest {kind : Kind} {rest : Text} (hkind : kind? t = some (kind, rest)) :
        Text.NulFree rest := by
      rcases kind?_source hkind with ⟨name, heq, -⟩
      exact (nulFree_append.1 (heq ▸ (nulFree_cons.1 h).2)).2
    split
    · rename_i hkind
      exact gives_some ⟨hstandard, (nulFree_cons.1 (hrest hkind)).2⟩
    · rename_i more hkind
      have hcut := (nulFree_cons.1 (hrest hkind)).2.cutAt ']'
      split
      · rename_i heq
        rw [heq] at hcut
        exact gives_some ⟨hcut.1, hcut.2 _ rfl⟩
      · exact gives_none
    · exact gives_none
  · exact gives_none

/-- A tag that is read from a text without null characters has none. -/
theorem Tag.ofAtoms?_nulFree {head : Head} {source : Text} {as : List Atom}
    (hhead : Text.NulFree head.delimiter) (hsource : Text.NulFree source)
    (h : Text.NulFree (Atom.sourceOf as)) : Gives Tag.NulFree (Tag.ofAtoms? head source as) := by
  unfold Tag.ofAtoms?
  split
  · rename_i q query rest heq
    have hpart {s : List Atom} (hs : s ∈ (q :: query) :: rest) : s ⊆ as := fun a ha =>
      Atom.mem_of_segments (heq ▸ hs) ha
    have hrest {ss : List (List Atom)} (hss : ss ⊆ rest) :
        Text.NulFree (Atom.sourceOfSegments ss) :=
      Atom.nulFree_sourceOfSegments h fun s hs => hpart (List.mem_cons_of_mem _ (hss hs))
    exact gives_some {
      source := hsource
      query := (Atom.nulFree_sourceOf h (hpart List.mem_cons_self)).strip
      fallback := (hrest (List.dropWhile_subset _)).strip
      delimiter := hhead
      choices := Choice.nulFree_ofItems (hrest (List.takeWhile_subset _)) }
  · exact gives_none

/-- The tag in a text without null characters has none. -/
theorem Tag.ofInner?_nulFree {source inner : Text} (hsource : Text.NulFree source)
    (h : Text.NulFree inner) : Gives Tag.NulFree (Tag.ofInner? source inner) := by
  -- the atoms of a text are made of its letters
  have hatoms {head : Head} {t : Text} (hhead : Text.NulFree head.delimiter) (ht : Text.NulFree t) :
      Gives Tag.NulFree ((Atom.all? t).bind (Tag.ofAtoms? head source)) := by
    refine Gives.bind (P := fun as => Text.NulFree (Atom.sourceOf as)) ?_ fun as has =>
      Tag.ofAtoms?_nulFree hhead hsource has
    intro as has
    rwa [← Atom.all?_source has]
  have hheaded : Gives Tag.NulFree (Tag.headed? source inner) := by
    unfold Tag.headed?
    split
    · rename_i heq
      have hhead := head?_nulFree h _ heq
      exact hatoms hhead.1 hhead.2
    · exact gives_none
  unfold Tag.ofInner?
  refine gives_ite gives_none ?_
  split
  · rename_i heq
    exact gives_some (hheaded _ heq)
  · exact hatoms (nulFree_of_ofList rfl (by decide)) h

/-- And neither has a tag that is read from it. -/
theorem Tag.read?_nulFree {t : Text} (h : Text.NulFree t) :
    Gives (fun x => x.1.NulFree ∧ Text.NulFree x.2) (Tag.read? t) := by
  unfold Tag.read?
  split
  · rename_i as rest heq
    rw [Atom.inBraces?_source heq] at h
    simp only [List.cons_append, nulFree_cons, nulFree_append] at h
    have hinner : Text.NulFree (Atom.sourceOf as) := h.2.2.1
    refine (Tag.ofInner?_nulFree ?_ hinner).map fun tag htag => ⟨htag, h.2.2.2.2⟩
    simp [hinner]
  · exact gives_none

/-- The first tag of a text, and what stands before and after it. -/
theorem Tag.first?_nulFree {t : Text} (h : Text.NulFree t) :
    Gives (fun x => Text.NulFree x.1 ∧ x.2.1.NulFree ∧ Text.NulFree x.2.2) (Tag.first? t) := by
  induction t with
  | nil =>
      exact gives_none
  | cons c cs ih =>
      unfold Tag.first?
      split
      · rename_i heq
        have hread := Tag.read?_nulFree h _ heq
        exact gives_some ⟨nulFree_nil, hread.1, hread.2⟩
      · rw [nulFree_cons] at h
        exact (ih h.2).map fun _ hx => ⟨nulFree_cons.2 ⟨h.1, hx.1⟩, hx.2⟩

/-! ## Interviews -/

variable {σ α : Type}

def Memory.Tidy (m : Memory) : Prop := m.tags.Every fun v => ∃ names, v = .object names

def Selections.NulFree (s : Selections) : Prop := Entries.Every (fun ts => ∀ t ∈ ts, Text.NulFree t) s

/-- An interview in which no answer can go wrong. -/
structure Calm (i : Interview σ) : Prop where
  memory : i.desk.memory.Tidy
  store : ∃ sections, i.desk.store = .memory sections
  selections : i.selections.NulFree

abbrev Answers (Q : α → Prop) (a : Asking σ α) : Prop := Act.Succeeds (fun _ i => i) Calm Q a

/-- Answers to questions without null characters that hold none either. -/
def Answerer.NulFree (a : Answerer σ) : Prop :=
  ∀ query fallback s t, Text.NulFree query → Text.NulFree fallback →
    (a.text query fallback s).answer = some t → Text.NulFree t

theorem say_answers (entries : Journal) : Answers (fun _ => True) (say entries : Asking σ Unit) :=
  .modify (fun _ _ => rfl) fun _ h => ⟨h.memory, h.store, h.selections⟩

theorem select_answers (name : Text) {parts : List Text} (h : ∀ t ∈ parts, Text.NulFree t) :
    Answers (fun _ => True) (select name parts : Asking σ Unit) :=
  .modify (fun _ _ => rfl) fun _ hi =>
    ⟨hi.memory, hi.store, hi.selections.insert name h⟩

theorem ask_answers (q : Question) (reply : σ → Reply σ α) :
    Answers (fun answer => ∃ s, (reply s).answer = answer) (ask q reply) := by
  intro i hi
  refine ⟨_, _, 0, ⟨i.desk.answerer, rfl⟩, ?_, fun _ _ => rfl⟩
  exact ⟨hi.memory, hi.store, hi.selections⟩

/-- A change that always succeeds has an answer. -/
theorem change_answers {f : Memory → Except Abort Memory}
    (hf : ∀ m : Memory, m.Tidy → ∃ m', f m = .ok m' ∧ m'.Tidy) :
    Answers (fun _ => True) (change f : Asking σ Unit) := by
  intro i hi
  rcases hf _ hi.memory with ⟨m, hm, htidy⟩
  refine ⟨(), { i with desk := { i.desk with memory := m } }, 0, trivial, ?_, fun _ _ => ?_⟩
  · exact ⟨htidy, hi.store, hi.selections⟩
  · simp only [change, Act.run, hm]

/-! ## What is remembered -/

theorem Memory.Tidy.insert {m : Memory} (h : m.Tidy) (tag : Text) (names : Entries Json) :
    ({ m with tags := Entries.insert tag (.object names) m.tags } : Memory).Tidy :=
  Entries.Every.insert h tag ⟨names, rfl⟩

/-- What is remembered for a tag. -/
theorem Memory.Tidy.get? {m : Memory} (h : m.Tidy) (tag : Text) :
    Entries.get? tag m.tags = none ∨ ∃ names, Entries.get? tag m.tags = some (.object names) := by
  cases hv : Entries.get? tag m.tags with
  | none => exact .inl rfl
  | some v =>
      rcases Entries.Every.get? h hv with ⟨names, rfl⟩
      exact .inr ⟨names, rfl⟩

theorem Memory.Tidy.remember {m : Memory} (h : m.Tidy) (tag name value : Text) :
    ∃ m', m.remember tag name value = .ok m' ∧ m'.Tidy := by
  unfold Memory.remember
  rcases h.get? tag with hv | ⟨names, hv⟩ <;> rw [hv]
  · exact ⟨_, rfl, h.insert _ _⟩
  · exact ⟨_, rfl, h.insert _ _⟩

theorem Memory.Tidy.forget {m : Memory} (h : m.Tidy) (tag name : Text) :
    ∃ m', m.forget tag name = .ok m' ∧ m'.Tidy := by
  unfold Memory.forget
  rcases h.get? tag with hv | ⟨names, hv⟩ <;> rw [hv]
  · exact ⟨m, rfl, h⟩
  · exact ⟨_, rfl, h.insert _ _⟩

/-- Where choices are remembered by tag and name, every choice can be looked up. -/
theorem Memory.Tidy.find {m : Memory} (h : m.Tidy) (tag name : Text) :
    ∃ answer, m.find tag name = .ok answer := by
  rw [Memory.find]
  rcases h.get? tag with hnone | ⟨names, hnames⟩
  · rw [hnone]
    exact ⟨none, rfl⟩
  · rw [hnames]
    exact ⟨Entries.get? name names, rfl⟩

def Memory.marks (m : Memory) (tag : Tag) (c : Choice) : Bool :=
  match m.find tag.source (rememberedName tag c) with
  | .ok (some (.text value)) => value = c.value
  | _ => false

def Memory.offer (m : Memory) (tag : Tag) (c : Choice) : Choice := { c with selected := m.marks tag c }

/-- A choice is offered as the memory says. -/
theorem preselect_eq {m : Memory} {tag : Tag} {c d : Choice} (h : preselect tag m c = .ok d) :
    d = m.offer tag c := by
  unfold preselect at h
  unfold Memory.offer Memory.marks
  split at h <;> cases h
  · rename_i hfind
    rw [hfind]
  · rename_i hother hfind
    rw [hfind]
    split
    · rename_i v heq
      cases heq
      exact absurd rfl (hother v)
    · rfl

/-- The choices that are offered are those of the tag, marked where they are remembered. -/
theorem preselectAll_eq {m : Memory} {tag : Tag} {cs ds : List Choice}
    (h : preselectAll tag m cs = .ok ds) : ds = cs.map (m.offer tag) := by
  induction cs generalizing ds with
  | nil =>
    cases h
    rfl
  | cons c cs ih =>
    simp only [preselectAll, bind, Except.bind] at h
    split at h
    · cases h
    · rename_i d hd
      split at h
      · cases h
      · rename_i others hothers
        cases h
        rw [List.map_cons, ← preselect_eq hd, ← ih hothers]

/-- What is offered has the label and the value of a choice of the tag. -/
theorem exists_of_preselectAll {tag : Tag} {m : Memory} {cs ds : List Choice}
    (h : preselectAll tag m cs = .ok ds) {d : Choice} (hd : d ∈ ds) :
    ∃ c ∈ cs, d.label = c.label ∧ d.value = c.value := by
  rw [preselectAll_eq h] at hd
  obtain ⟨c, hc, rfl⟩ := List.mem_map.1 hd
  exact ⟨c, hc, rfl, rfl⟩

/-- Choices that can be looked up are offered, those selected that are remembered. -/
theorem preselectAll_of_find {m : Memory} {tag : Tag} {cs : List Choice}
    (h : ∀ c ∈ cs, ∃ answer, m.find tag.source (rememberedName tag c) = .ok answer) :
    preselectAll tag m cs = .ok (cs.map (m.offer tag)) := by
  induction cs with
  | nil => rfl
  | cons c cs ih =>
      rw [List.forall_mem_cons] at h
      rcases h.1 with ⟨answer, hanswer⟩
      have hfirst : preselect tag m c = .ok (m.offer tag c) := by
        rw [preselect, Memory.offer, Memory.marks, hanswer]
        rcases answer with - | v
        · rfl
        · cases v <;> rfl
      simp only [preselectAll, hfirst, ih h.2]
      rfl

theorem Memory.Tidy.preselectAll {m : Memory} (h : m.Tidy) (tag : Tag) :
    Prompt.preselectAll tag m tag.choices = .ok (tag.choices.map (m.offer tag)) :=
  preselectAll_of_find fun c _ => h.find tag.source (rememberedName tag c)

theorem remember_answers (tag name value : Text) :
    Answers (fun _ => True) (change (Memory.remember tag name value) : Asking σ Unit) :=
  change_answers fun _ h => h.remember tag name value

theorem forget_answers (tag name : Text) :
    Answers (fun _ => True) (change (Memory.forget tag name) : Asking σ Unit) :=
  change_answers fun _ h => h.forget tag name

/-! ## Choices -/

theorem Choice.NulFree.parts {c : Choice} (h : c.NulFree) : ∀ t ∈ c.parts, Text.NulFree t :=
  fun _ ht => h.2.pieces ht

theorem Choice.NulFree.mainPart {c : Choice} (h : c.NulFree) : Text.NulFree c.mainPart := by
  have hparts := h.parts
  unfold Choice.mainPart
  cases hc : c.parts with
  | nil => exact nulFree_nil
  | cons p ps => exact hparts p (by simp [hc])

theorem chooseNothing_answers (tag : Tag) :
    Answers Text.NulFree (chooseNothing tag : Asking σ Text) :=
  (select_answers _ (by simp)).bind fun _ _ => .pure nulFree_nil

theorem chooseOne_answers (tag : Tag) {c : Choice} (h : c.NulFree) :
    Answers Text.NulFree (chooseOne tag c : Asking σ Text) := by
  refine (remember_answers _ _ _).bind fun _ _ => (select_answers _ h.parts).bind fun _ _ => ?_
  exact (select_answers _ (by simpa using h.mainPart)).bind fun _ _ => .pure h.mainPart

theorem forgetAll_answers (tag : Tag) (cs : List Choice) :
    Answers (fun _ => True) (forgetAll tag cs : Asking σ Unit) := by
  induction cs with
  | nil => exact .pure trivial
  | cons c cs ih => exact (forget_answers _ _).bind fun _ _ => ih

/-- Every choice in turn can be made. -/
theorem chooseEach_answers (tag : Tag) {cs : List Choice} (h : ∀ c ∈ cs, c.NulFree) :
    Answers (fun _ => True) (chooseEach tag cs : Asking σ Unit) := by
  induction cs with
  | nil => exact .pure trivial
  | cons c cs ih =>
      rw [List.forall_mem_cons] at h
      refine (select_answers _ h.1.parts).bind fun _ _ => (remember_answers _ _ _).bind fun _ _ => ?_
      exact ih h.2

/-- Several choices can be made at once. -/
theorem chooseMany_answers {tag : Tag} (htag : tag.NulFree) {cs : List Choice}
    (h : ∀ c ∈ cs, c.NulFree) : Answers Text.NulFree (chooseMany tag cs : Asking σ Text) := by
  have hjoined : Text.NulFree (joinWith tag.delimiter (cs.map Choice.mainPart)) := by
    refine htag.delimiter.joinWith fun t ht => ?_
    rcases List.mem_map.1 ht with ⟨c, hc, rfl⟩
    exact (h c hc).mainPart
  have hlisted : Answers Text.NulFree (chooseListed tag cs : Asking σ Text) :=
    (chooseEach_answers tag h).bind fun _ _ =>
      (select_answers _ (by simpa using hjoined)).bind fun _ _ => .pure hjoined
  rw [chooseMany_eq]
  split
  · exact (forgetAll_answers _ _).bind fun _ _ => hlisted
  · exact hlisted

/-- Choosing has a text as its answer, which has no null characters. -/
theorem choose_answers {tag : Tag} (htag : tag.NulFree) {chosen : Option (List Choice)}
    (h : ∀ cs ∈ chosen, ∀ c ∈ cs, c.NulFree) :
    Answers Text.NulFree (choose tag chosen : Asking σ Text) := by
  unfold choose
  split
  · exact chooseNothing_answers tag
  · rename_i cs
    have hcs := h cs rfl
    split
    · exact chooseNothing_answers tag
    · exact chooseOne_answers tag (hcs _ List.mem_cons_self)
    · exact chooseMany_answers htag hcs

/-! ## Messages -/

section Resolve

variable {a : Answerer σ} (hfaithful : a.Faithful) (hfree : a.NulFree)

include hfree in
/-- Asking for a text gives one without null characters. -/
theorem askText_answers {tag : Tag} (h : tag.NulFree) : Answers Text.NulFree (askText a tag) := by
  refine (ask_answers _ _).bind fun answer hanswer => ?_
  have htext : Text.NulFree (answer.getD []) := by
    rcases hanswer with ⟨s, hs⟩
    cases answer with
    | none => exact nulFree_nil
    | some t => exact hfree _ _ s t h.query h.fallback hs
  exact (select_answers _ (by simpa using htext)).bind fun _ _ => .pure htext

include hfaithful in
/-- Asking for a choice gives a text without null characters. -/
theorem askChoice_answers {tag : Tag} (h : tag.NulFree) :
    Answers Text.NulFree (askChoice a tag) := by
  have hconsult : Answers (fun ds => ∀ d ∈ ds, d.NulFree)
      (consult fun m => preselectAll tag m tag.choices : Asking σ _) := by
    intro i hi
    refine ⟨tag.choices.map (i.desk.memory.offer tag), i, 0, ?_, hi, fun _ _ => ?_⟩
    · intro d hd
      rcases List.mem_map.1 hd with ⟨c, hc, rfl⟩
      exact h.choices c hc
    · simp only [consult, Act.run, hi.memory.preselectAll tag]
  refine hconsult.bind fun ds hds => (ask_answers _ _).bind fun chosen hchosen => ?_
  rcases hchosen with ⟨s, hs⟩
  refine choose_answers h fun cs hcs c hc => hds c ?_
  exact hfaithful _ _ _ s cs (hs.trans hcs) c hc

include hfaithful hfree

/-- A tag can always be answered. -/
theorem answerTag_answers {tag : Tag} (h : tag.NulFree) :
    Answers Text.NulFree (answerTag a tag) := by
  refine .get_bind (fun _ _ => rfl) fun i hi => ?_
  split
  · rename_i parts heq
    have hparts : ∀ t ∈ parts, Text.NulFree t := Entries.Every.get? hi.selections heq
    refine .pure (NulFree.joinWith ?_ hparts)
    split
    · exact h.delimiter
    · simp
  · split
    · exact askChoice_answers hfaithful h
    · exact askText_answers hfree h

/-- All tags of a message can be answered. -/
theorem resolveFrom_answers (fuel : Nat) {done rest : Text} (hdone : Text.NulFree done)
    (hrest : Text.NulFree rest) : Answers Text.NulFree (resolveFrom a fuel done rest) := by
  induction fuel generalizing done rest with
  | zero =>
      exact (say_answers _).bind fun _ _ => .pure (nulFree_append.2 ⟨hdone, hrest⟩)
  | succ fuel ih =>
      unfold resolveFrom
      split
      · exact .pure (nulFree_append.2 ⟨hdone, hrest⟩)
      · rename_i before tag after heq
        rcases Tag.first?_nulFree hrest _ heq with ⟨hbefore, htag, hafter⟩
        refine (answerTag_answers hfaithful hfree htag).bind fun answer hanswer => ?_
        refine (say_answers _).bind fun _ _ => ?_
        split
        · exact ih (by simp [hdone, hbefore, hanswer]) hafter
        · exact ih nulFree_nil (by simp [hdone, hbefore, hanswer, hafter])

omit hfaithful hfree in
/-- What is remembered can always be stored in memory. -/
theorem save_answers : Answers (fun _ => True) (save : Asking σ Unit) := by
  intro i hi
  rcases hi.store with ⟨sections, hsections⟩
  have hsave : ∃ sections', i.desk.memory.save? i.desk.store = some (.memory sections') := by
    rw [hsections]
    exact ⟨_, rfl⟩
  rcases hsave with ⟨sections', hsave⟩
  refine ⟨(), { i with desk := { i.desk with
    store := .memory sections'
    journal := i.desk.store.remarks ++ i.desk.journal } }, 0, trivial, ?_, fun _ _ => ?_⟩
  · exact ⟨hi.memory, ⟨sections', rfl⟩, hi.selections⟩
  · rw [save, Act.run_bind_of_ok (Act.run_get i), say, Act.run_bind_of_ok (Act.run_modify _ _), hsave,
      Act.run_modify]

/-- A text whose tags are answered holds no null character, if neither it nor the answers do. -/
theorem resolve_answers {message : Text} (h : Text.NulFree message) :
    Answers Text.NulFree (resolve a message) :=
  (resolveFrom_answers hfaithful hfree _ nulFree_nil h).bind fun _ ht =>
    save_answers.bind fun _ _ => .pure ht

end Resolve

end Prompt

end TabletopChat
