import TabletopChat.Proofs.Evaluation.Replacement
import TabletopChat.Proofs.Evaluation.Returning
import TabletopChat.Proofs.Expansion.Nesting
import TabletopChat.Proofs.Expansion.NulFree

/-!
# Proofs/Expansion/Returning — messages that always have a result

Whatever goes wrong in a message is replaced where it stands: a table that has no entry and a macro that is
not known by nothing, a roll without a value by what is said about it. With dice that never run out, and
texts without null characters, nothing is left that could stop a message.

- `Prepared`           : what the stages before the macros make of a text
- `Leaves`             : what stands in place of macros, told by rules
- `Accounted`          : a whole message, stage by stage
- `expandText_returns` : the stages before the rolls have a result that keeps to the rules
- `expandRun_returns`  : and so has a message
-/

namespace TabletopChat

open Text Act

/-! ## What stands in place of tags -/

/-- What stands in place of a reference to an answer: nothing if there is no such part. -/
inductive Prompt.Selections.Shows (s : Prompt.Selections) (ref : Prompt.Reference) : Text → Prop
  | missing (h : ∀ parts n t, Entries.get? ref.label s = some parts → ref.index = .ofNat (n + 1) →
      parts[n]? ≠ some t) : Shows s ref []
  | part {parts : List Text} {n : Nat} {t : Text} (hparts : Entries.get? ref.label s = some parts)
      (hindex : ref.index = .ofNat (n + 1)) (ht : parts[n]? = some t) : Shows s ref t

/-- A reference to an answer shows what it should. -/
theorem Prompt.Selections.shows_resolve (s : Prompt.Selections) (ref : Prompt.Reference) :
    s.Shows ref (s.resolve ref) := by
  unfold Prompt.Selections.resolve
  split
  · rename_i parts n hparts hindex
    rw [List.getD_eq_getElem?_getD]
    cases ht : parts[n]? with
    | some t => exact .part hparts hindex ht
    | none =>
        refine .missing fun parts' n' t hparts' hindex' => ?_
        rw [hparts] at hparts'
        rw [hindex] at hindex'
        cases hparts'
        cases hindex'
        rw [ht]
        exact nofun
  · rename_i hno
    exact .missing fun parts n t hparts hindex => (hno parts n hparts hindex).elim

/-- What stands in place of a table inside of a text: nothing if no entry has a weight, and otherwise one
of the entries that have. -/
inductive Library.Drawn (table : List Library.TableEntry) : Text → Prop
  | broken (h : ∀ e ∈ table, e.weight ≤ 0) : Drawn table []
  | entry {e : Library.TableEntry} (he : e ∈ table) (hweight : 0 < e.weight) : Drawn table e.value

namespace Expansion

open Library Prompt

variable {σ α : Type}

/-- What the handlers of a moment make of a message, in some state of the host. -/
def Handled (setup : Setup σ) (actor : ActorData) (moment message t : Text) : Prop :=
  ∃ s s', Hooks.call moment message [actorArgument actor] setup.hooks s = (t, s')

/-- What the stages before the macros make of a text: its prompts are answered, references are replaced by
parts of the answers, and handlers and the data of the actor are applied. -/
inductive Prepared (setup : Setup σ) (actor : ActorData) (t : Text) : Text → Prop
  | intro {answered referred handled : Text} {i i' : Interview σ}
      (hanswered : (resolve setup.answerer t).run i = (.ok answered, i'))
      (hreferred : Woven (fun ref _ value => i'.selections.Shows ref value)
        (tagPieces reference? answered) referred)
      (hhandled : Handled setup actor Hooks.afterPrompts referred handled) :
      Prepared setup actor t (withActorData actor handled)

/-- What is left of a task when its macros are expanded, while the macros of a stack are being expanded.
A macro that is not known or is on the stack leaves nothing. -/
inductive Leaves (setup : Setup σ) (actor : ActorData) (macros : Entries Macro) :
    List Text → Task → Text → Prop
  | text {nested : List Text} {t u v : Text} (ht : Prepared setup actor t u)
      (h : Leaves setup actor macros nested (.pieces (tagPieces invocation? u)) v) :
      Leaves setup actor macros nested (.text t) v
  | done {nested : List Text} : Leaves setup actor macros nested (.pieces []) []
  | plain {nested : List Text} {c : Char} {ps : List (Piece Invocation)} {v : Text}
      (h : Leaves setup actor macros nested (.pieces ps) v) :
      Leaves setup actor macros nested (.pieces (.plain c :: ps)) (c :: v)
  | tag {nested : List Text} {i : Invocation} {source t v : Text} {ps : List (Piece Invocation)}
      (hi : Leaves setup actor macros nested (.invocation i) t)
      (h : Leaves setup actor macros nested (.pieces ps) v) :
      Leaves setup actor macros nested (.pieces (.tag i source :: ps)) (t ++ v)
  | dropped {nested : List Text} {i : Invocation}
      (h : Entries.get? i.tag macros = none ∨ i.tag ∈ nested) :
      Leaves setup actor macros nested (.invocation i) []
  | table {nested : List Text} {i : Invocation} {m : Macro} {v : Text}
      (hm : Entries.get? i.tag macros = some m) (hnot : i.tag ∉ nested) (hkind : m.kind ≠ .custom)
      (h : Drawn m.table v) : Leaves setup actor macros nested (.invocation i) v
  | custom {nested : List Text} {i : Invocation} {m : Macro} {v : Text}
      (hm : Entries.get? i.tag macros = some m) (hnot : i.tag ∉ nested) (hkind : m.kind = .custom)
      (h : Leaves setup actor macros (i.tag :: nested) (.text m.content) v) :
      Leaves setup actor macros nested (.invocation i) v

/-- What a message comes to, stage by stage: handlers, the stages before the rolls, the rolls and the
references to their results, and handlers again. -/
inductive Accounted (setup : Setup σ) (actor : ActorData) (tooltips : Bool) (message : Text) : Text → Prop
  | intro {begun expanded replaced t : Text} (hbegun : Handled setup actor Hooks.atBegin message begun)
      (hexpanded : Leaves setup actor (lookup (actorId actor) setup.library) [] (.text begun) expanded)
      (hreplaced : Evaluation.Replaced setup.inlineMath tooltips expanded replaced)
      (hended : Handled setup actor Hooks.atEnd replaced t) : Accounted setup actor tooltips message t

/-! ## Runs without anything that could stop them -/

def Session.withLimit (l : Nat) (s : Session σ) : Session σ := { s with dice := s.dice.withLimit l }

/-- A session in which nothing can stop a message: dice that never run out, choices remembered by tag
and name, and a store in memory. -/
structure Session.Sound (s : Session σ) : Prop where
  dice : s.dice.Endless
  memory : s.desk.memory.Tidy
  store : ∃ sections, s.desk.store = .memory sections

/-- What a message may depend on: shorthand dice, an answerer that chooses from what is offered, and
texts without null characters. -/
structure Setup.Sound (setup : Setup σ) : Prop where
  roller : setup.roller = .shorthand
  faithful : setup.answerer.Faithful
  answers : setup.answerer.NulFree
  hooks : setup.hooks.NulFree
  library : ∀ m ∈ setup.library, m.NulFree

/-- A run in which nothing can stop, while the macros of a stack are being expanded. -/
structure Run.Sound (nested : List Text) (r : Run σ) : Prop where
  calm : Calm (⟨r.session.desk, r.selections⟩ : Interview σ)
  dice : r.session.dice.Endless
  nested : r.nested = nested

def highest : Dice := ⟨fun _ _ b => some b, 0, 0⟩

theorem highest_endless : highest.Endless where
  answers _ _ b h := ⟨b, rfl, h, Int.le_refl b⟩
  passes _ again faces h := ⟨0, faces, rfl, by omega⟩

def Run.withLimit (l : Nat) (r : Run σ) : Run σ := { r with session := r.session.withLimit l }

abbrev Returns (nested : List Text) (Q : α → Prop) (a : Step σ α) : Prop :=
  Succeeds Run.withLimit (Run.Sound nested) Q a

variable {nested : List Text} {Q : α → Prop}

theorem asking_returns {a : Asking σ α} (h : Answers Q a) : Returns nested Q (asking a) :=
  h.zoom (fun _ _ => rfl) (fun _ _ _ => rfl) (fun _ hr => hr.calm) fun _ _ hr hi =>
    ⟨hi, hr.dice, hr.nested⟩

theorem rolling_returns {a : Act Abort Dice α} (h : Succeeds Dice.withLimit Dice.Endless Q a) :
    Returns nested Q (rolling a : Step σ α) :=
  h.zoom (fun _ _ => rfl) (fun _ _ _ => rfl) (fun _ hr => hr.dice) fun _ _ hr hd =>
    ⟨hr.calm, hd, hr.nested⟩

theorem evaluating_returns {a : Evaluation.Step α} (h : Evaluation.Evaluates Q a) :
    Returns nested Q (evaluating a : Step σ α) :=
  h.zoom (fun _ _ => rfl) (fun _ _ _ => rfl) (fun _ hr => hr.dice) fun _ _ hr hs =>
    ⟨⟨hr.calm.memory, hr.calm.store, hr.calm.selections⟩, hs, hr.nested⟩

theorem say_returns (entries : Journal) : Returns nested (fun _ => True) (say entries : Step σ Unit) :=
  asking_returns (say_answers entries)

/-- The tag of a macro is off the stack again when its text was expanded. -/
theorem within_returns {a : Step σ α} {tag : Text} (h : Returns (tag :: nested) Q a) :
    Returns nested Q (within tag a) := by
  intro r hr
  rcases h { r with nested := tag :: r.nested } ⟨hr.calm, hr.dice, by rw [hr.nested]⟩ with
    ⟨x, r', m, hx, hr', hrun⟩
  have hnested : r'.nested.tail = nested := by rw [hr'.nested, List.tail_cons]
  refine ⟨x, { r' with nested := r'.nested.tail }, m, hx, ⟨hr'.calm, hr'.dice, hnested⟩, ?_⟩
  intro l hl
  have hstep : a { r.withLimit l with nested := tag :: r.nested } = (.ok x, r'.withLimit l) :=
    hrun l hl
  simp only [Act.run, within, Run.withLimit] at hstep ⊢
  rw [hstep]

theorem hosting_returns {f : σ → α × σ} (h : ∀ s, Q (f s).1) : Returns nested Q (hosting f) := by
  intro r hr
  let desk := { r.session.desk with answerer := (f r.session.desk.answerer).2 }
  refine ⟨(f r.session.desk.answerer).1, { r with session := { r.session with desk := desk } }, 0, h _,
    ?_, fun _ _ => rfl⟩
  exact ⟨⟨hr.calm.memory, hr.calm.store, hr.calm.selections⟩, hr.dice, hr.nested⟩

/-! ### Handlers -/

variable {setup : Setup σ} {actor : ActorData}

theorem callHooks_returns (moment message : Text) :
    Returns nested (Handled setup actor moment message) (callHooks setup actor moment message) :=
  (say_returns _).bind fun _ _ => hosting_returns fun s => ⟨s, _, rfl⟩

theorem Handled.nulFree {moment message t : Text} (h : Handled setup actor moment message t)
    (hhooks : setup.hooks.NulFree) (hmessage : Text.NulFree message) : Text.NulFree t := by
  obtain ⟨s, s', hcall⟩ := h
  have hfree := Hooks.nulFree_call hhooks moment hmessage [actorArgument actor] s
  rwa [hcall] at hfree

/-! ### Before macros -/

def answering (setup : Setup σ) (t : Text) : Asking σ (Text × Selections) := do
  let u ← resolve setup.answerer t
  let i ← Act.get
  pure (u, i.selections)

theorem answering_answers (hsetup : setup.Sound) {t : Text} (h : Text.NulFree t) :
    Answers (fun p => Text.NulFree p.1 ∧ p.2.NulFree) (answering setup t) :=
  (resolve_answers hsetup.faithful hsetup.answers h).bind fun _ ht =>
    .get_bind (fun _ _ => rfl) fun _ hi => .pure ⟨ht, hi.selections⟩

/-- The references in a text are those to the answers that were given until then. -/
theorem prepare_eq (setup : Setup σ) (actor : ActorData) (t : Text) : prepare setup actor t = (do
    let p ← asking (answering setup t)
    let u ← callHooks setup actor Hooks.afterPrompts (Prompt.substitute p.1 p.2)
    pure (withActorData actor u)) := by
  refine funext fun r => ?_
  change (prepare setup actor t).run r = Act.run _ r
  rcases hresolve : resolve setup.answerer t ⟨r.session.desk, r.selections⟩ with ⟨result, i⟩
  let r' : Run σ := { r with session := { r.session with desk := i.desk }, selections := i.selections }
  have hleft : (asking (resolve setup.answerer t)).run r = (result, r') := by
    simp only [asking, Act.run, Act.zoom, hresolve, r']
  cases result with
  | ok u =>
      have hanswering : answering setup t ⟨r.session.desk, r.selections⟩ = (.ok (u, i.selections), i) :=
        (run_bind_of_ok hresolve).trans rfl
      have hright : (asking (answering setup t)).run r = (.ok (u, i.selections), r') := by
        simp only [asking, Act.run, Act.zoom, hanswering, r']
      rw [prepare, run_bind_of_ok hleft, run_bind_of_ok hright]
      rfl
  | error e =>
      have hanswering : answering setup t ⟨r.session.desk, r.selections⟩ = (.error e, i) :=
        run_bind_of_error hresolve
      have hright : (asking (answering setup t)).run r = (.error e, r') := by
        simp only [asking, Act.run, Act.zoom, hanswering, r']
      rw [prepare, run_bind_of_error hleft, run_bind_of_error hright]

/-- The stages before the macros have a result, whatever the answers are. -/
theorem prepare_returns (hsetup : setup.Sound) (hactor : actor.NulFree) {t : Text} (h : Text.NulFree t) :
    Returns nested (fun u => Text.NulFree u ∧ Prepared setup actor t u) (prepare setup actor t) := by
  have hanswers := (answering_answers hsetup h).traced
  rw [prepare_eq]
  refine (asking_returns hanswers).bind ?_
  rintro ⟨answered, selections⟩ ⟨⟨hfree, hselections⟩, i, i', hrun⟩
  obtain ⟨u, j, hresolve, hrest⟩ := exists_of_run_bind hrun
  cases hrest
  have hreferred := woven_replaceTags (fun ref _ => i'.selections.shows_resolve ref) reference? answered
  refine (callHooks_returns _ _).bind fun handled hhandled => .pure ⟨?_, .intro hresolve hreferred hhandled⟩
  have hhandledFree := hhandled.nulFree hsetup.hooks (nulFree_substitute hfree hselections)
  cases actor with
  | none => exact hhandledFree
  | some data => exact Actor.nulFree_substitute hhandledFree (Actor.nulFree_flatten (hactor data rfl) [])

/-! ### Macros -/

/-- Every number up to the total weight falls to an entry that has a weight. -/
theorem pick_of_le {es : List TableEntry} {n : Int} (h : n ≤ totalWeight es) (hn : 1 ≤ n) :
    ∃ e ∈ es, 0 < e.weight ∧ pick n es = some e.value := by
  induction es generalizing n with
  | nil =>
      simp only [totalWeight] at h
      omega
  | cons e es ih =>
      simp only [totalWeight] at h
      unfold pick
      split
      · rename_i hweight
        rw [if_pos hweight] at h
        split
        · exact ⟨e, List.mem_cons_self, hweight, rfl⟩
        · rcases ih (n := n - e.weight) (by omega) (by omega) with ⟨f, hf, hpositive, hpick⟩
          exact ⟨f, List.mem_cons_of_mem _ hf, hpositive, hpick⟩
      · rename_i hweight
        rw [if_neg hweight] at h
        rcases ih h hn with ⟨f, hf, hpositive, hpick⟩
        exact ⟨f, List.mem_cons_of_mem _ hf, hpositive, hpick⟩

/-- Weights below zero count as none. -/
theorem totalWeight_nonneg (es : List TableEntry) : 0 ≤ totalWeight es := by
  induction es with
  | nil => exact Int.le_refl 0
  | cons e es ih =>
      simp only [totalWeight]
      split <;> omega

/-- A table without a total has no entry with a weight. -/
theorem weight_le_of_totalWeight {es : List TableEntry} (h : ¬ 0 < totalWeight es) :
    ∀ e ∈ es, e.weight ≤ 0 := by
  induction es with
  | nil => exact List.forall_mem_nil _
  | cons e es ih =>
      have hrest := totalWeight_nonneg es
      simp only [totalWeight] at h
      split at h
      · omega
      · exact List.forall_mem_cons.2 ⟨by omega, ih h⟩

/-- A table with weights gives one of its entries. -/
theorem rollTable_returns {table : List TableEntry} (h : ∀ e ∈ table, Text.NulFree e.value)
    (htotal : 0 < totalWeight table) :
    Succeeds Dice.withLimit Dice.Endless (fun v => Text.NulFree v ∧ Drawn table v) (rollTable table) := by
  rw [rollTable, if_pos htotal]
  refine (Dice.draw_succeeds (by omega)).bind fun n hn => ?_
  rcases pick_of_le hn.2 hn.1 with ⟨e, he, hweight, hpick⟩
  rw [hpick]
  exact .pure ⟨h e he, .entry he hweight⟩

/-- A table inside of a text gives an entry, or nothing if none has a weight. -/
theorem rollNested_returns (tag : Text) {table : List TableEntry} (h : ∀ e ∈ table, Text.NulFree e.value) :
    Returns nested (fun v => Text.NulFree v ∧ Drawn table v) (rollNested tag table : Step σ Text) := by
  by_cases htotal : 0 < totalWeight table
  · have hrolled : Returns nested (fun result => ∃ v, result = .ok v ∧ Text.NulFree v ∧ Drawn table v)
        (Act.attempt (rolling (rollTable table)) : Step σ (Except Abort Text)) :=
      (rolling_returns (rollTable_returns h htotal)).attempt
    refine hrolled.bind fun result hresult => ?_
    rcases hresult with ⟨t, rfl, ht⟩
    exact .pure ht
  · -- a table without weights stops, and that is caught
    have hstop : Returns nested (fun result => result = .error .noWeights)
        (Act.attempt (rolling (rollTable table)) : Step σ (Except Abort Text)) := by
      intro r hr
      refine ⟨_, r, 0, rfl, hr, fun l _ => ?_⟩
      simp only [rollTable, if_neg htotal]
      rfl
    refine hstop.bind fun result hresult => ?_
    subst hresult
    exact (say_returns _).bind fun _ _ => .pure ⟨nulFree_nil, .broken (weight_le_of_totalWeight htotal)⟩

variable {macros : Entries Macro}

/-- What replaces the tag of a macro keeps to the rules, if the texts of macros do that are not expanded
yet. -/
theorem expandInvocation_returns (hmacros : macros.Every Macro.NulFree) {expand : Text → Step σ Text}
    (i : Invocation)
    (hexpand : ∀ m, Entries.get? i.tag macros = some m → i.tag ∉ nested →
      Returns (i.tag :: nested)
        (fun v => Text.NulFree v ∧ Leaves setup actor macros (i.tag :: nested) (.text m.content) v)
        (expand m.content)) :
    Returns nested (fun v => Text.NulFree v ∧ Leaves setup actor macros nested (.invocation i) v)
      (expandInvocation macros expand i) := by
  have hstack : Returns nested (· = decide (i.tag ∈ nested)) (isNested i.tag : Step σ Bool) :=
    fun r hr => ⟨decide (i.tag ∈ r.nested), r, 0, by simp only [hr.nested], hr, fun _ _ => rfl⟩
  have hdropped (h : Entries.get? i.tag macros = none ∨ i.tag ∈ nested) :
      Returns nested (fun v => Text.NulFree v ∧ Leaves setup actor macros nested (.invocation i) v)
        (do say (dropRemark i); pure [] : Step σ Text) :=
    (say_returns _).bind fun _ _ => .pure ⟨nulFree_nil, .dropped h⟩
  refine hstack.bind fun known hknown => ?_
  subst hknown
  -- a tag is dropped unless its macro is found and is not on the stack
  cases hm : Entries.get? i.tag macros with
  | none => exact hdropped (.inl hm)
  | some m =>
      by_cases hmem : i.tag ∈ nested
      · rw [decide_eq_true hmem]
        exact hdropped (.inr hmem)
      · rw [decide_eq_false hmem]
        have hfree := hmacros.get? hm
        dsimp only
        split
        · rename_i hkind
          exact (within_returns (hexpand m hm hmem)).imp fun _ hv => ⟨hv.1, .custom hm hmem hkind hv.2⟩
        · rename_i hkind
          exact (rollNested_returns _ hfree.2).imp fun _ hv => ⟨hv.1, .table hm hmem hkind hv.2⟩

/-- The pieces of a text have results if the texts of their macros do. -/
theorem expandPieces_returns (hmacros : macros.Every Macro.NulFree) {expand : Text → Step σ Text}
    (hexpand : ∀ tag m, Entries.get? tag macros = some m → tag ∉ nested →
      Returns (tag :: nested)
        (fun v => Text.NulFree v ∧ Leaves setup actor macros (tag :: nested) (.text m.content) v)
        (expand m.content))
    {ps : List (Piece Invocation)} (h : ∀ p ∈ ps, Text.NulFree p.source) :
    Returns nested (fun v => Text.NulFree v ∧ Leaves setup actor macros nested (.pieces ps) v)
      (expandPieces macros expand ps) := by
  induction ps with
  | nil =>
      exact .pure ⟨nulFree_nil, .done⟩
  | cons p ps ih =>
      rcases List.forall_mem_cons.1 h with ⟨hp, hps⟩
      cases p with
      | plain c =>
          exact (ih hps).bind fun rest hrest => .pure ⟨nulFree_append.2 ⟨hp, hrest.1⟩, .plain hrest.2⟩
      | tag i source =>
          refine (expandInvocation_returns hmacros i (hexpand i.tag)).bind fun t ht => ?_
          exact (ih hps).bind fun rest hrest =>
            .pure ⟨nulFree_append.2 ⟨ht.1, hrest.1⟩, .tag ht.2 hrest.2⟩

/-- A text is prepared, and then its macros are expanded. -/
theorem text_returns (hsetup : setup.Sound) (hactor : actor.NulFree) (hmacros : macros.Every Macro.NulFree)
    {expand : Text → Step σ Text} {t : Text} (h : Text.NulFree t)
    (hexpand : ∀ tag m, Entries.get? tag macros = some m → tag ∉ nested →
      Returns (tag :: nested)
        (fun v => Text.NulFree v ∧ Leaves setup actor macros (tag :: nested) (.text m.content) v)
        (expand m.content)) :
    Returns nested (fun v => Text.NulFree v ∧ Leaves setup actor macros nested (.text t) v) (do
      let u ← prepare setup actor t
      expandPieces macros expand (tagPieces invocation? u)) := by
  refine (prepare_returns hsetup hactor h).bind fun u hu => ?_
  have hpieces := nulFree_tagPieces leavesPart_invocation? hu.1
  exact (expandPieces_returns hmacros hexpand hpieces).imp fun _ hv => ⟨hv.1, .text hu.2 hv.2⟩

/-- The stages before the rolls lead to a text by the rules, with a bound as large as the number of macros
that are not on the stack. -/
theorem expandText_returns (hsetup : setup.Sound) (hactor : actor.NulFree)
    (hmacros : macros.Every Macro.NulFree) {depth : Nat} (hdepth : unused macros nested ≤ depth) {t : Text}
    (h : Text.NulFree t) :
    Returns nested (fun v => Text.NulFree v ∧ Leaves setup actor macros nested (.text t) v)
      (expandText setup actor macros depth t) := by
  induction depth generalizing nested t with
  | zero =>
      refine text_returns hsetup hactor hmacros h fun tag m hm hnot => ?_
      -- all macros are on the stack
      have hlt := unused_push_lt (Entries.mem_keys_of_get? hm) hnot
      omega
  | succ depth ih =>
      refine text_returns hsetup hactor hmacros h fun tag m hm hnot => ?_
      have hlt := unused_push_lt (Entries.mem_keys_of_get? hm) hnot
      exact ih (by omega) (hmacros.get? hm).1

/-! ## Messages -/

/-- Rolls and references to their results, which no earlier results are mixed into. -/
theorem evaluating_replaces (tooltips : Bool) {t : Text} (h : Text.NulFree t) :
    Returns nested (Evaluation.Replaced setup.inlineMath tooltips t)
      (evaluating (do
        let t ← Evaluation.evaluateRolls ⟨.shorthand, tooltips, setup.inlineMath⟩ t
        Evaluation.substituteReferences t) : Step σ Text) := by
  have hrolls := (Evaluation.evaluateRolls_evaluates tooltips setup.inlineMath h).bind fun t _ =>
    Evaluation.substituteReferences_evaluates t
  refine (evaluating_returns hrolls).traced.imp fun v ⟨_, r, r', hrun⟩ => ?_
  have hresult := congrArg Prod.fst hrun
  exact Evaluation.replaced_of_run rfl (Prod.ext hresult rfl)

/-- A message has a result, and each stage of it is accounted for. -/
theorem expandRun_returns (hsetup : setup.Sound) (hactor : actor.NulFree) (tooltips : Bool) {message : Text}
    (h : Text.NulFree message) :
    Returns [] (Accounted setup actor tooltips message) (expandRun setup actor tooltips message) := by
  have hmacros := nulFree_lookup hsetup.library (actorId actor)
  refine (callHooks_returns _ _).bind fun begun hbegun => ?_
  refine (expandText_returns hsetup hactor hmacros (unused_le _ _)
    (hbegun.nulFree hsetup.hooks h)).bind fun expanded hexpanded => ?_
  rw [hsetup.roller]
  refine (evaluating_replaces tooltips hexpanded.1).bind fun replaced hreplaced => ?_
  -- the handlers at the end may see any text
  exact (callHooks_returns _ _).imp fun t ht => .intro hbegun hexpanded.2 hreplaced ht

end Expansion

end TabletopChat
