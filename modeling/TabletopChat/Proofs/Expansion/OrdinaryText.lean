import TabletopChat.Expansion.Expand
import TabletopChat.Proofs.Prompt.FixedPoint
import TabletopChat.Proofs.Markup.Placement
import TabletopChat.Proofs.Store.Settings

/-!
# Proofs/Expansion/OrdinaryText — text that says nothing to the program

Whatever a stage reads begins with two characters of its own: `?{` a prompt or a reference to an answer,
`{{` data of an actor, `#{` a macro, `[[` a roll, `<<` inline math, `@{` a reference to a result. Where
these do not occur, no stage finds anything, and a message is its own expansion, whatever else is in it.

- `Text.Heralds`      : what the tags that a reader reads begin with
- `Text.tagPieces_eq` : a text without tags
- `children_isText`   : a message without rolls
- `run_prepare`       : a text that prompts, answers and actors leave alone
- `Ordinary`, `ordinary_text_stays` : messages that are their own expansion
-/

namespace TabletopChat

/-! ## Tags -/

namespace Text

variable {α : Type} {herald : Text} {tag? : Text → Option (α × Text)}

/-- Every tag that is read begins with `herald`. -/
def Heralds (herald : Text) (tag? : Text → Option (α × Text)) : Prop :=
  ∀ t x, tag? t = some x → herald <+: t

/-- A text that begins otherwise begins with no tag. -/
theorem Heralds.eq_none_of_not_prefix (h : Heralds herald tag?) {t : Text} (ht : ¬ herald <+: t) : tag? t = none := by
  cases hread : tag? t with
  | none => rfl
  | some x => exact absurd (h t x hread) ht

theorem Heralds.eq_none (h : Heralds herald tag?) {t : Text} (ht : ¬ herald <:+: t) : tag? t = none :=
  h.eq_none_of_not_prefix fun hbegins => ht hbegins.isInfix

/-- A text in which no tag can begin consists of plain characters. -/
theorem tagPieces_eq (h : Heralds herald tag?) {t : Text} (ht : ¬ herald <:+: t) :
    tagPieces tag? t = t.map .plain := by
  -- the fuel of `tagPieces` is the length of the text, and each character takes one unit of it
  have hfrom (fuel : Nat) (u : Text) (hu : ¬ herald <:+: u) (hfuel : u.length ≤ fuel) :
      tagPiecesFrom tag? fuel u = u.map .plain := by
    induction fuel generalizing u with
    | zero =>
      rw [List.length_eq_zero_iff.1 (Nat.le_zero.1 hfuel)]
      rfl
    | succ fuel ih =>
      cases u with
      | nil => rfl
      | cons c cs =>
        have hcs : ¬ herald <:+: cs := fun hin => hu (List.infix_cons hin)
        rw [tagPiecesFrom, h.eq_none hu]
        simp only [List.map_cons, ih cs hcs (Nat.le_of_succ_le_succ hfuel)]
  exact hfrom t.length t ht le_rfl

/-- A text in which no tag can begin stays as it is. -/
theorem replaceTags_eq (h : Heralds herald tag?) (value : α → Text → Text) {t : Text}
    (ht : ¬ herald <:+: t) : replaceTags tag? value t = t := by
  rw [replaceTags, tagPieces_eq h ht, List.flatMap_map]
  exact List.flatMap_singleton' t

end Text

open Text

/-- A text begins with its first two characters. -/
theorem heralds_two {c d : Char} {t u : Text} (h : u = c :: d :: t) : [c, d] <+: u :=
  ⟨t, h.symm⟩

/-! ## Prompts -/

namespace Prompt

variable {σ : Type}

theorem heralds_read? : Heralds ['?', '\x7b'] Tag.read? := by
  intro t x h
  unfold Tag.read? at h
  split at h
  · rename_i as rest hbraces
    unfold Atom.inBraces? at hbraces
    split at hbraces
    · exact heralds_two rfl
    · cases hbraces
  · cases h

theorem heralds_reference? : Heralds ['?', '\x7b'] reference? := by
  intro t x h
  unfold reference? at h
  split at h
  · exact heralds_two rfl
  · cases h

/-- Without an opener there is no tag. -/
theorem Tag.first?_eq_none {t : Text} (h : ¬ ['?', '\x7b'] <:+: t) : Tag.first? t = none := by
  induction t with
  | nil => rfl
  | cons c cs ih =>
    have hcs : ¬ ['?', '\x7b'] <:+: cs := fun hin => h (List.infix_cons hin)
    rw [Tag.first?, heralds_read?.eq_none h, ih hcs]
    rfl

def Desk.stored (store : Store) (d : Desk σ) : Desk σ :=
  { d with
    store := store
    journal := d.store.remarks ++ d.journal }

/-- A text without prompts is its own answer. What is remembered is stored all the same. -/
theorem run_resolve (a : Answerer σ) {t : Text} (ht : ¬ ['?', '\x7b'] <:+: t) {i : Interview σ}
    {store : Store} (hsave : i.desk.memory.save? i.desk.store = some store) :
    (resolve a t).run i = (.ok t, { i with desk := i.desk.stored store }) := by
  have hfrom : (resolveFrom a answerLimit [] t).run i = (.ok t, i) := by
    rw [answerLimit, resolveFrom, Tag.first?_eq_none ht]
    rfl
  have hsaved : save.run i = (.ok (), { i with desk := i.desk.stored store }) := by
    rw [run_save, hsave]
    rfl
  rw [resolve, Act.run_bind_of_ok hfrom, Act.run_bind_of_ok hsaved]
  rfl

theorem substitute_eq {t : Text} (ht : ¬ ['?', '\x7b'] <:+: t) (s : Selections) : substitute t s = t :=
  replaceTags_eq heralds_reference? _ ht

end Prompt

/-! ## Actors and macros -/

theorem Actor.heralds_tag? : Heralds ['\x7b', '\x7b'] Actor.tag? := by
  intro t x h
  unfold Actor.tag? at h
  split at h
  · exact heralds_two rfl
  · cases h

theorem Library.heralds_invocation? : Heralds ['#', '\x7b'] Library.invocation? := by
  intro t x h
  unfold Library.invocation? at h
  split at h
  · exact heralds_two rfl
  · cases h

/-! ## Rolls -/

namespace Markup

/-- Where inline math is off, nothing opens it. -/
theorem inlineMath_of_mathOpen {inlineMath : Bool} {m : Mode} {t : Text}
    (h : .delimiter .mathOpen ∈ lexemes inlineMath m t) : inlineMath = true := by
  have hpair {m : Mode} {c d : Char}
      (hk : Delimiter.ofPair? inlineMath m c d = some .mathOpen) : inlineMath = true := by
    cases m with
    | math => grind [Delimiter.ofPair?]
    | ordinary => grind [Delimiter.ofPair?]
  have hcons {c : Char} {ls : List Lexeme} (hin : .delimiter .mathOpen ∈ consChar c ls) :
      .delimiter .mathOpen ∈ ls := by
    unfold consChar at hin
    split at hin <;> simpa using hin
  fun_induction lexemes inlineMath m t with
  | case1 => cases h
  | case2 => simp at h
  | case3 m c d cs k hk ih =>
    rcases List.mem_cons.1 h with hhead | htail
    · cases hhead
      exact hpair hk
    · exact ih htail
  | case4 m c d cs hk ih => exact ih (hcons h)

/-- What a lexeme is written like occurs in the text. -/
theorem source_occurs {inlineMath : Bool} {m : Mode} {t : Text} {l : Lexeme}
    (h : l ∈ lexemes inlineMath m t) : l.source <:+: t := by
  rcases List.append_of_mem h with ⟨before, after, hsplit⟩
  refine ⟨before.flatMap Lexeme.source, after.flatMap Lexeme.source, ?_⟩
  rw [← flatMap_source_lexemes inlineMath m t, hsplit]
  simp

/-- A message in which nothing opens a roll or inline math. -/
structure Unopened (inlineMath : Bool) (t : Text) : Prop where
  roll : ¬ ['[', '['] <:+: t
  math : inlineMath = true → ¬ ['<', '<'] <:+: t

/-- What is read outside of all rolls, as long as there is only text. -/
def Stack.Flat (s : Stack) : Prop := s.frames = [] ∧ ∀ n ∈ s.outer, n.isText = true

/-- A text opens no roll. -/
theorem Stack.Flat.pushText {s : Stack} (h : s.Flat) (t : Text) (span : Span) :
    (s.modify (Markup.pushText t span)).Flat := by
  rcases s with ⟨outer, frames⟩
  rcases h with ⟨rfl, houter⟩
  refine ⟨rfl, ?_⟩
  simp only [Stack.modify]
  unfold Markup.pushText
  split
  · exact List.forall_mem_cons.2 ⟨rfl, (List.forall_mem_cons.1 houter).2⟩
  · exact List.forall_mem_cons.2 ⟨rfl, houter⟩

/-- Of all lexemes only those that open a roll are no text outside of rolls. -/
theorem Stack.Flat.takes {s s' : Stack} {tok : Token} (h : s.Flat) (htakes : s.Takes tok s')
    (hopen : ∀ kind : Kind, tok.lexeme ≠ .delimiter kind.opener) : s'.Flat := by
  cases htakes with
  | finish => exact h
  | text t span => exact h.pushText t span
  | opens kind => exact absurd rfl (hopen kind)
  | closes _ hstack =>
    subst hstack
    exact absurd h.1 (List.cons_ne_nil _ _)
  | unaccepted span => exact h.pushText _ span

/-- Reading a message in which no roll opens leaves no roll open. -/
theorem Stack.Flat.readAll {s : Stack} (h : s.Flat) {p : Position} {ls : List Lexeme}
    (hopen : ∀ kind : Kind, .delimiter kind.opener ∉ ls) : ((place p ls).foldl Stack.read s).Flat := by
  induction ls generalizing s p with
  | nil => exact h
  | cons l ls ih =>
    refine ih (h.takes (s.takes_read _) fun kind heq => ?_) fun kind hin => ?_
    · exact hopen kind (List.mem_cons.2 (.inl heq.symm))
    · exact hopen kind (List.mem_cons_of_mem l hin)

/-- Without an opening delimiter a message has no rolls; closing delimiters are text. -/
theorem children_isText {inlineMath : Bool} {t : Text} (h : Unopened inlineMath t) :
    ∀ n ∈ (parse inlineMath t).children, n.isText = true := by
  have hopen (kind : Kind) : .delimiter kind.opener ∉ lexemes inlineMath .ordinary t ++ [.finish] := by
    simp only [List.mem_append, List.mem_singleton, reduceCtorEq, or_false]
    intro hin
    cases kind with
    | roll => exact h.roll (source_occurs hin)
    | math => exact h.math (inlineMath_of_mathOpen hin) (source_occurs hin)
  have hempty : Stack.Flat ⟨[], []⟩ := ⟨rfl, List.forall_mem_nil _⟩
  have hflat := hempty.readAll (p := .start) hopen
  intro n hn
  simp only [parse, parseTokens, tokens] at hn
  rw [hflat.1, finishFrames, List.nil_append, List.mem_reverse] at hn
  exact hflat.2 n hn

end Markup

namespace Evaluation

open Markup

theorem heralds_reference? : Heralds ['@', '\x7b'] reference? := by
  intro t x h
  unfold reference? at h
  split at h
  · exact heralds_two rfl
  · cases h

/-- Texts are their own results. -/
theorem run_evaluateTop (roller : Roller) (tooltips : Bool) {ns : List Node}
    (h : ∀ n ∈ ns, n.isText = true) (s : State) :
    (evaluateTop roller tooltips ns).run s = (.ok (sourceOf ns), s) := by
  induction ns with
  | nil => rfl
  | cons n ns ih =>
    rcases List.forall_mem_cons.1 h with ⟨hn, hns⟩
    cases n with
    | roll _ _ _ _ => cases hn
    | text t span =>
      have hnode : (evaluateNode roller (.text t span)).run s = (.ok t, s) := rfl
      rw [evaluateTop, Act.run_bind_of_ok hnode, Act.run_bind_of_ok (ih hns)]
      rfl

/-- A message without rolls is its own result, and nothing is rolled. -/
theorem run_evaluateRolls (settings : Settings) {t : Text} (h : Unopened settings.inlineMath t)
    (s : State) : (evaluateRolls settings t).run s = (.ok t, s) := by
  have htop := run_evaluateTop settings.roller (settings.tooltips && !isCommand t) (children_isText h) s
  rwa [(parse_children settings.inlineMath t).2] at htop

/-- A message without references stays as it is, and nothing is said about it. -/
theorem run_substituteReferences {t : Text} (ht : ¬ ['@', '\x7b'] <:+: t) (s : State) :
    (substituteReferences t).run s = (.ok t, s) := by
  have hpieces := tagPieces_eq heralds_reference? ht
  have hremarks : unresolved t s.records = [] := by
    rw [unresolved, hpieces, List.reverse_eq_nil_iff, List.filterMap_eq_nil_iff]
    intro p hp
    rcases List.mem_map.1 hp with ⟨c, -, rfl⟩
    rfl
  have hsame : substitute t s.records = t := replaceTags_eq heralds_reference? _ ht
  have hrun : (substituteReferences t).run s = (.ok (substitute t s.records),
      { s with journal := unresolved t s.records ++ s.journal }) := rfl
  rw [hrun, hremarks, hsame, List.nil_append]

end Evaluation

/-! ## Messages -/

namespace Expansion

open Act Prompt Library

variable {σ : Type}

def Run.stored (store : Store) (r : Run σ) : Run σ :=
  { r with session := { r.session with desk := r.session.desk.stored store } }

/-- Nothing is done where no handler was added. -/
theorem run_callHooks {setup : Setup σ} {moment : Text} (h : Hooks.handlers moment setup.hooks = [])
    (actor : ActorData) (message : Text) (r : Run σ) :
    (callHooks setup actor moment message).run r = (.ok message, r) := by
  have hcall : Hooks.call moment message [actorArgument actor] setup.hooks = fun s => (message, s) := by
    funext s
    rw [Hooks.call, h, List.foldl_nil]
  have hremarks : Hooks.remarks moment setup.hooks = [] := by
    rw [Hooks.remarks, h]
    rfl
  rw [callHooks, hcall, hremarks]
  rfl

structure Unprepared (t : Text) : Prop where
  prompt : ¬ ['?', '\x7b'] <:+: t
  actor : ¬ ['\x7b', '\x7b'] <:+: t

theorem withActorData_eq {t : Text} (h : Unprepared t) (actor : ActorData) : withActorData actor t = t := by
  cases actor with
  | none => rfl
  | some data => exact replaceTags_eq Actor.heralds_tag? _ h.actor

/-- A text without anything to prepare passes through the stages before the macros. -/
theorem run_prepare {setup : Setup σ} (hhooks : Hooks.handlers Hooks.afterPrompts setup.hooks = [])
    (actor : ActorData) {t : Text} (h : Unprepared t) {r : Run σ} {store : Store}
    (hsave : r.session.desk.memory.save? r.session.desk.store = some store) :
    (prepare setup actor t).run r = (.ok t, r.stored store) := by
  have hresolve : (asking (resolve setup.answerer t)).run r = (.ok t, r.stored store) := by
    have hrun := run_resolve setup.answerer h.prompt (i := ⟨r.session.desk, r.selections⟩) hsave
    simp only [asking, Act.run, Act.zoom] at hrun ⊢
    rw [hrun]
    rfl
  rw [prepare, run_bind_of_ok hresolve, run_bind_of_ok (run_get _), substitute_eq h.prompt,
    run_bind_of_ok (run_callHooks hhooks actor t _), withActorData_eq h]
  rfl

/-- Plain characters stay as they are. -/
theorem run_expandPieces_plain (macros : Entries Macro) (expand : Text → Step σ Text) (t : Text)
    (r : Run σ) : (expandPieces macros expand (t.map .plain)).run r = (.ok t, r) := by
  induction t with
  | nil => rfl
  | cons c cs ih =>
    rw [List.map_cons, expandPieces, run_bind_of_ok ih]
    rfl

/-- A text without macros. -/
theorem run_expandText {setup : Setup σ} (hhooks : Hooks.handlers Hooks.afterPrompts setup.hooks = [])
    (actor : ActorData) (macros : Entries Macro) (depth : Nat) {t : Text} (h : Unprepared t)
    (hplain : ¬ ['#', '\x7b'] <:+: t) {r : Run σ} {store : Store}
    (hsave : r.session.desk.memory.save? r.session.desk.store = some store) :
    (expandText setup actor macros depth t).run r = (.ok t, r.stored store) := by
  have hprepare := run_prepare hhooks actor h hsave
  have hpieces := tagPieces_eq heralds_invocation? hplain
  cases depth with
  | zero =>
    rw [expandText, run_bind_of_ok hprepare, hpieces]
    exact run_expandPieces_plain macros _ t _
  | succ depth =>
    rw [expandText, run_bind_of_ok hprepare, hpieces]
    exact run_expandPieces_plain macros _ t _

/-- An evaluation that does nothing. -/
theorem run_evaluating {a : Evaluation.Step Text} {t : Text} (h : ∀ s, a.run s = (.ok t, s)) {r : Run σ} :
    (evaluating a).run r = (.ok t, r) := by
  have hrun := h ⟨r.session.dice, r.session.cache, .empty, r.session.desk.journal⟩
  simp only [evaluating, Act.run, Act.zoom] at hrun ⊢
  rw [hrun]

/-- Text in which nothing that a stage reads can begin. -/
structure Ordinary (inlineMath : Bool) (t : Text) : Prop where
  prepared : Unprepared t
  invocation : ¬ ['#', '\x7b'] <:+: t
  rolls : Markup.Unopened inlineMath t
  reference : ¬ ['@', '\x7b'] <:+: t

/-- Without handlers an ordinary message comes out of all stages as it went in. Nothing is asked, nothing
is rolled, and what is remembered stays the same; it is only stored again, where it is found as it is. -/
theorem ordinary_text_stays {setup : Setup σ} (hhooks : ∀ moment, Hooks.handlers moment setup.hooks = [])
    {t : Text} (ht : Ordinary setup.inlineMath t) (actor : ActorData) (tooltips : Bool) {s : Session σ}
    (hwritable : s.desk.store.Writable) :
    ∃ s', (expandMessage setup actor tooltips t).run s = (.ok t, s') ∧
      s'.desk.asked = s.desk.asked ∧ s'.desk.answerer = s.desk.answerer ∧
      s'.dice = s.dice ∧ s'.cache = s.cache ∧ s'.desk.memory = s.desk.memory ∧
      s.desk.memory.save? s.desk.store = some s'.desk.store ∧
      (s.desk.memory.Readable →
        Memory.load s.desk.memory.place s'.desk.store = .ok (s.desk.memory, [])) := by
  rcases (Store.exists_set?_iff s.desk.memory.place Memory.key s.desk.memory.render).2 hwritable with
    ⟨store, hsave⟩
  let r : Run σ := ⟨s, [], []⟩
  let macros := lookup (actorId actor) setup.library
  -- each of the stages gives back the text that it is given
  have hexpand := run_expandText (hhooks Hooks.afterPrompts) actor macros macros.length ht.prepared
    ht.invocation (r := r) hsave
  have hevaluate : (evaluating (do
      let t ← Evaluation.evaluateRolls ⟨setup.roller, tooltips, setup.inlineMath⟩ t
      Evaluation.substituteReferences t)).run (r.stored store) = (.ok t, r.stored store) := by
    refine run_evaluating fun e => ?_
    have hrolls := Evaluation.run_evaluateRolls ⟨setup.roller, tooltips, setup.inlineMath⟩ ht.rolls e
    rw [run_bind_of_ok hrolls, Evaluation.run_substituteReferences ht.reference]
  refine ⟨(r.stored store).session, ?_, rfl, rfl, rfl, rfl, rfl, hsave, 
    fun h => Memory.load_of_save? h hsave⟩
  have hrun : (expandRun setup actor tooltips t).run r = (.ok t, r.stored store) := by
    rw [expandRun, run_bind_of_ok (run_callHooks (hhooks _) actor t r), run_bind_of_ok hexpand,
      run_bind_of_ok hevaluate, run_callHooks (hhooks _)]
  simp only [expandMessage, inSession, Act.run, Act.zoom] at hrun ⊢
  rw [hrun]

/-- Marks that belong together but stand apart, and closing delimiters that close nothing. -/
theorem ordinary_text_stays_html :
    let setup : Setup Unit := ⟨(⟨[], []⟩ : Script).answerer, .extended, [], [], true⟩
    let t := "\x7b<b a=\"#\">]] [1d6] >> \x7dx\x7d? \x7b@ <i>&lt;</i>?".toList
    let actor := some [("x".toList, Json.int 3)]
    let s : Session Unit := ⟨⟨(), [], ⟨"choices".toList, [("?".toList, .object [])]⟩,
      .file ⟨[], none, true⟩, []⟩, ⟨fun _ _ _ => none, 0, 0⟩, []⟩
    (∀ moment, Hooks.handlers moment setup.hooks = []) ∧ Ordinary setup.inlineMath t ∧
    s.desk.store.Writable ∧
    ∃ s', (expandMessage setup actor true t).run s = (.ok t, s') ∧
      s'.desk.asked = s.desk.asked ∧ s'.desk.answerer = s.desk.answerer ∧
      s'.dice = s.dice ∧ s'.cache = s.cache ∧ s'.desk.memory = s.desk.memory ∧
      s.desk.memory.save? s.desk.store = some s'.desk.store ∧
      (s.desk.memory.Readable →
        Memory.load s.desk.memory.place s'.desk.store = .ok (s.desk.memory, [])) := by
  intro setup t actor s
  have hhooks : ∀ moment, Hooks.handlers moment setup.hooks = [] := fun _ => rfl
  have ht : Ordinary setup.inlineMath t := by
    refine ⟨⟨?_, ?_⟩, ?_, ⟨?_, fun _ => ?_⟩, ?_⟩ <;> decide
  have hwritable : s.desk.store.Writable := rfl
  exact ⟨hhooks, ht, hwritable, ordinary_text_stays hhooks ht actor true hwritable⟩

end Expansion

end TabletopChat
