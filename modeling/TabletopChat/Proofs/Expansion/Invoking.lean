import TabletopChat.Proofs.Expansion.Nesting
import TabletopChat.Proofs.Expansion.OrdinaryText
import TabletopChat.Proofs.Library.Slugs
import TabletopChat.Proofs.Expansion.JournalBlind

/-!
# Proofs/Expansion/Invoking — a stored macro and a message that is its tag

A stored macro can be run, or a message can invoke it by nothing but its tag. In the message the stages
find the tag alone, store what is remembered, and expand the text of the macro as a nested one. So this
text passes through the same stages both ways, and both ways the macro cannot be invoked inside of itself.
Only what was said differs, and what is noted as being expanded, and nothing depends on either.

- `unprepared_tag`      : the tag of a macro says nothing to the stages before the macros
- `expandText_depth`    : the bound of the expansion makes no difference
- `run_expandText_tag`  : a message that is the tag of a macro
- `invoked_by_tag_alike` : both ways of invoking a macro
-/

namespace TabletopChat

open Act

/-! ## Tags -/

namespace Library

/-- The tag of a macro keeps no mark of its label with which prompts or data of an actor begin. -/
theorem notMem_slug {label : Text} {d : Char} (hd : d = '?' ∨ d = '\x7b') : d ∉ slug label := by
  intro h
  rcases inSlug_or_dot_of_mem_slug h with hin | ⟨hdot, -⟩
  · rcases hd with rfl | rfl <;> exact absurd hin (by decide)
  · rcases hd with rfl | rfl <;> exact absurd hdot (by decide)

/-- A tag has one opening brace, and nothing in it asks a question. -/
theorem unprepared_tag (label : Text) : Expansion.Unprepared (tagOf Kind.custom.name label) := by
  have htag : tagOf Kind.custom.name label =
      '#' :: '\x7b' :: ("custom|".toList ++ slug label ++ ['\x7d']) := rfl
  have hrest {d : Char} (hd : d = '?' ∨ d = '\x7b') :
      d ∉ "custom|".toList ++ slug label ++ ['\x7d'] := by
    have hends : d ∉ "custom|".toList ∧ d ≠ '\x7d' := by rcases hd with rfl | rfl <;> decide
    simp [notMem_slug hd, List.mem_append, hends.2]
    simpa using hends.1
  refine ⟨fun hin => ?_, fun hin => ?_⟩
  · have hmem : '?' ∈ tagOf Kind.custom.name label := hin.subset List.mem_cons_self
    rw [htag] at hmem
    simp only [List.mem_cons, Char.reduceEq, false_or] at hmem
    exact hrest (.inl rfl) hmem
  · -- the brace behind the number sign is the only one
    rw [htag] at hin
    rcases List.infix_cons_iff.1 hin with hfirst | hin
    · simp at hfirst
    · rcases List.infix_cons_iff.1 hin with hsecond | hin
      · rcases hsecond with ⟨u, hu⟩
        have hmem : '\x7b' ∈ "custom|".toList ++ slug label ++ ['\x7d'] := by
          rw [← (List.cons.inj hu).2]
          exact List.mem_cons_self
        exact hrest (.inr rfl) hmem
      · exact hrest (.inr rfl) (hin.subset List.mem_cons_self)

/-- A text that is read as one tag. -/
theorem tagPieces_tag {t : Text} {i : Invocation} (h : invocation? t = some (i, [])) :
    Text.tagPieces invocation? t = [.tag i t] := by
  cases t with
  | nil => cases h
  | cons c cs =>
    have hrest (fuel : Nat) : Text.tagPiecesFrom invocation? fuel [] = [] := by cases fuel <;> rfl
    rw [Text.tagPieces, List.length_cons, Text.tagPiecesFrom, h]
    simp [hrest]

end Library

/-! ## Storing -/

namespace Prompt

variable {σ : Type}

/-- Tags are only answered where the store can be written to. -/
theorem writable_of_resolve {a : Answerer σ} {t u : Text} {i j : Interview σ}
    (h : (resolve a t).run i = (.ok u, j)) : i.desk.store.Writable := by
  have hstore := steady_store.resolveFrom (fun _ _ _ => rfl) a answerLimit [] t i
  rcases exists_of_run_bind h with ⟨v, k, hfrom, h⟩
  rw [hfrom] at hstore
  rcases exists_of_run_bind h with ⟨_, l, hsave, -⟩
  rw [run_save] at hsave
  split at hsave
  · rename_i store hset
    rw [hstore] at hset
    exact (Store.exists_set?_iff _ _ _).1 ⟨store, hset⟩
  · cases hsave

end Prompt

/-! ## Both ways -/

namespace Expansion

open Prompt Library

variable {σ : Type} {setup : Setup σ} {actor : ActorData} {macros : Entries Macro}

/-- When a text was expanded, the store can be written to. -/
theorem writable_of_expandText {depth : Nat} {t u : Text} {r q : Run σ}
    (h : (expandText setup actor macros depth t).run r = (.ok u, q)) :
    r.session.desk.store.Writable := by
  have hprepare : ∃ v p, (prepare setup actor t).run r = (.ok v, p) := by
    cases depth with
    | zero =>
      rcases exists_of_run_bind h with ⟨v, p, hv, -⟩
      exact ⟨v, p, hv⟩
    | succ depth =>
      rcases exists_of_run_bind h with ⟨v, p, hv, -⟩
      exact ⟨v, p, hv⟩
  rcases hprepare with ⟨v, p, hv⟩
  rcases exists_of_run_bind hv with ⟨w, o, hresolve, -⟩
  rcases hrun : (resolve setup.answerer t).run ⟨r.session.desk, r.selections⟩ with ⟨result, j⟩
  have hstep : resolve setup.answerer t ⟨r.session.desk, r.selections⟩ = (result, j) := hrun
  simp only [asking, Act.run, Act.zoom, hstep] at hresolve
  cases hresolve
  exact writable_of_resolve hrun

/-- Any bound that is large enough gives the same expansion. -/
theorem expandText_depth {depth depth' : Nat} {r : Run σ} (h : unused macros r.nested ≤ depth)
    (h' : unused macros r.nested ≤ depth') (t : Text) :
    (expandText setup actor macros depth t).run r = (expandText setup actor macros depth' t).run r := by
  rcases expandText_expands setup actor macros depth t r h with ⟨visited, hvisited⟩
  rcases expandText_expands setup actor macros depth' t r h' with ⟨visited', hvisited'⟩
  exact (hvisited'.unique hvisited).2

/-- The tag is on the stack during the action. -/
theorem run_within (tag : Text) (a : Step σ Text) (r : Run σ) :
    (within tag a).run r = ((a.run { r with nested := tag :: r.nested }).1,
      { (a.run { r with nested := tag :: r.nested }).2 with
        nested := (a.run { r with nested := tag :: r.nested }).2.nested.tail }) := rfl

theorem run_within_congr {tag : Text} {a b : Step σ Text} {r : Run σ}
    (h : a.run { r with nested := tag :: r.nested } = b.run { r with nested := tag :: r.nested }) :
    (within tag a).run r = (within tag b).run r := by
  rw [run_within, run_within, h]

/-- A custom macro whose tag is read as it is written and leads to this macro. -/
structure Invokes (macros : Entries Macro) (m : Macro) (i : Invocation) : Prop where
  kind : m.kind = .custom
  found : Entries.get? m.tag macros = some m
  read : invocation? m.tag = some (i, [])
  tag : i.tag = m.tag

/-- Where there is only one tag, it is replaced and nothing is added. -/
theorem run_expandPieces_tag (expand : Text → Step σ Text) (i : Invocation) (source : Text) (r : Run σ) :
    (expandPieces macros expand [.tag i source]).run r = (expandInvocation macros expand i).run r := by
  rcases h : (expandInvocation macros expand i).run r with ⟨result, q⟩
  rw [expandPieces]
  cases result with
  | error e => rw [run_bind_of_error h]
  | ok t =>
    rw [run_bind_of_ok h]
    have hend : (expandPieces macros expand []).run q = (.ok [], q) := rfl
    rw [run_bind_of_ok hend, run_pure, List.append_nil]

/-- A text that is the tag of a macro is expanded like the text of the macro inside of the macro, after
what is remembered was stored. -/
theorem run_expandText_tag (hhooks : Hooks.handlers Hooks.afterPrompts setup.hooks = []) {m : Macro}
    {i : Invocation} (h : Invokes macros m i) {r : Run σ} (hnot : m.tag ∉ r.nested) {store : Store}
    (hsave : r.session.desk.memory.save? r.session.desk.store = some store) :
    (expandText setup actor macros macros.length m.tag).run r =
      (within m.tag (expandText setup actor macros macros.length m.content)).run (r.stored store) := by
  have hunprepared : Unprepared m.tag := by
    rw [Macro.tag, h.kind]
    exact unprepared_tag m.label
  have hprepare := run_prepare hhooks actor hunprepared hsave
  have hfound : Entries.get? i.tag macros = some m := by rw [h.tag, h.found]
  have hoff : i.tag ∉ (r.stored store).nested := by rwa [h.tag]
  -- inside of the macro one level less is left, which is enough
  let inner : Run σ := { r.stored store with nested := m.tag :: r.nested }
  have hless : unused macros inner.nested < macros.length :=
    Nat.lt_of_lt_of_le (unused_push_lt (Entries.mem_keys_of_get? h.found) hnot)
      (unused_le macros r.nested)
  rcases Nat.exists_eq_add_of_lt hless with ⟨more, hlength⟩
  have hinside : (within m.tag (expandText setup actor macros
      (unused macros inner.nested + more) m.content)).run (r.stored store) =
        (within m.tag (expandText setup actor macros macros.length m.content)).run (r.stored store) :=
    run_within_congr (expandText_depth (r := inner) (Nat.le_add_right _ more) hless.le m.content)
  rw [← hinside, hlength, expandText, run_bind_of_ok hprepare, tagPieces_tag h.read,
    run_expandPieces_tag, run_expandInvocation_found hfound hoff, if_pos h.kind, h.tag]

/-- The stages behind the macros of a message, where nobody handles them. -/
def evaluateText (setup : Setup σ) (tooltips : Bool) (t : Text) : Step σ Text :=
  evaluating (do
    let t ← Evaluation.evaluateRolls ⟨setup.roller, tooltips, setup.inlineMath⟩ t
    Evaluation.substituteReferences t)

theorem blind_evaluateText (setup : Setup σ) (tooltips : Bool) (t : Text) :
    Blind Run.SameSession Run.SameSession (evaluateText setup tooltips t) :=
  blind_evaluating ((Evaluation.unheard_evaluateRolls _ t).bind fun u =>
    Evaluation.unheard_substituteReferences u)

/-- Without handlers a message passes through two stages. -/
theorem run_expandRun (hhooks : ∀ moment, Hooks.handlers moment setup.hooks = []) (tooltips : Bool)
    (t : Text) (r : Run σ) :
    let macros := lookup (actorId actor) setup.library
    (expandRun setup actor tooltips t).run r =
      (expandText setup actor macros macros.length t >>= evaluateText setup tooltips).run r := by
  intro macros
  rw [expandRun, run_bind_of_ok (run_callHooks (hhooks _) actor t r)]
  rcases htext : (expandText setup actor macros macros.length t).run r with ⟨result, q⟩
  cases result with
  | error e => rw [run_bind_of_error htext, run_bind_of_error htext]
  | ok u =>
    rw [run_bind_of_ok htext, run_bind_of_ok htext]
    rcases hvalue : (evaluateText setup tooltips u).run q with ⟨result, p⟩
    cases result with
    | error e => exact run_bind_of_error hvalue
    | ok v => exact (run_bind_of_ok hvalue).trans (run_callHooks (hhooks _) actor v p)

/-- Messages are only expanded where the store can be written to. -/
theorem writable_of_expandRun (hhooks : ∀ moment, Hooks.handlers moment setup.hooks = []) {tooltips : Bool}
    {t : Text} {r : Run σ} (h : ∃ u, ((expandRun setup actor tooltips t).run r).1 = .ok u) :
    r.session.desk.store.Writable := by
  rcases h with ⟨u, hu⟩
  rw [run_expandRun hhooks] at hu
  rcases exists_of_run_bind (Prod.ext hu rfl) with ⟨v, q, hv, -⟩
  exact writable_of_expandText hv

/-- The text of a macro inside of the macro, and on its own with the macro on the stack, from desks that
differ in what was said and in how what is remembered was stored. -/
theorem sameOutcome_within {depth : Nat} {tag : Text} (t : Text) {r : Run σ} {d : Desk σ}
    (hd : r.session.desk.Near d) :
    SameOutcome Run.SameSession
      ((expandText setup actor macros depth t).run { r with nested := tag :: r.nested })
      ((within tag (expandText setup actor macros depth t)).run
        { r with session := { r.session with desk := d } }) := by
  have hnear : Run.At Desk.Near { r with nested := tag :: r.nested }
      { r with
        session := { r.session with desk := d }
        nested := tag :: r.nested } := ⟨d, rfl, hd⟩
  rcases blind_expandText setup actor macros depth t _ _ hnear with ⟨hresult, hnext⟩
  rw [run_within]
  refine ⟨hresult, fun u hu => ?_⟩
  rcases hnext u hu with ⟨desk, hsame, htold⟩
  exact ⟨desk, by rw [hsame], htold⟩

/-- The macro is run, and it is invoked by a message: the result is the same, and then the sessions differ
in nothing but what was said. -/
theorem sameOutcome_tag (hhooks : ∀ moment, Hooks.handlers moment setup.hooks = []) {m : Macro}
    {i : Invocation} (h : Invokes (lookup (actorId actor) setup.library) m i) (tooltips : Bool)
    {s : Session σ} (hwritable : s.desk.store.Writable) :
    SameOutcome Run.SameSession ((expandRun setup actor tooltips m.content).run ⟨s, [], [m.tag]⟩)
      ((expandRun setup actor tooltips m.tag).run ⟨s, [], []⟩) := by
  let macros := lookup (actorId actor) setup.library
  let r : Run σ := ⟨s, [], []⟩
  rcases (Store.exists_set?_iff s.desk.memory.place Memory.key s.desk.memory.render).2 hwritable with
    ⟨store, hsave⟩
  -- the tag expands to the text of the macro, after the store is written once more
  have htag : (expandText setup actor macros macros.length m.tag).run r =
      (within m.tag (expandText setup actor macros macros.length m.content)).run (r.stored store) :=
    run_expandText_tag (hhooks _) h List.not_mem_nil hsave
  have hnear : r.session.desk.Near (r.session.desk.stored store) :=
    ⟨store, _, rfl, fun t => Store.set?_set? hsave t⟩
  have htext : SameOutcome Run.SameSession
      ((expandText setup actor macros macros.length m.content).run ⟨s, [], [m.tag]⟩)
      ((expandText setup actor macros macros.length m.tag).run r) := by
    rw [htag]
    exact sameOutcome_within m.content hnear
  rw [run_expandRun hhooks, run_expandRun hhooks]
  exact htext.bind fun t => blind_evaluateText setup tooltips t

/-- A custom macro whose tag leads to it can be run, or invoked by a message that is its tag. Without
handlers the results are the same, if there is one either way; and so are the questions that were asked,
with the choices that were preselected, what is remembered and stored, and the dice. -/
theorem invoked_by_tag_alike (hhooks : ∀ moment, Hooks.handlers moment setup.hooks = []) {m : Macro}
    {i : Invocation} (h : Invokes (lookup (actorId actor) setup.library) m i) (tooltips : Bool)
    (s : Session σ)
    (hreturns : (∃ t, ((expandMessage setup actor tooltips m.tag).run s).1 = .ok t) ∨
      ∃ t, ((runMacro setup actor tooltips m).run s).1 = .ok t) :
    ∃ t s' s'', (expandMessage setup actor tooltips m.tag).run s = (.ok t, s') ∧
      (runMacro setup actor tooltips m).run s = (.ok t, s'') ∧
      s'.desk.asked = s''.desk.asked ∧ s'.desk.answerer = s''.desk.answerer ∧
      s'.desk.memory = s''.desk.memory ∧ s'.desk.store = s''.desk.store ∧
      s'.dice = s''.dice ∧ s'.cache = s''.cache := by
  rcases hmessage : (expandRun setup actor tooltips m.tag).run ⟨s, [], []⟩ with ⟨result, r⟩
  rcases hstored : (expandRun setup actor tooltips m.content).run ⟨s, [], [m.tag]⟩ with ⟨result', q⟩
  have hexpand : (expandMessage setup actor tooltips m.tag).run s = (result, r.session) := by
    have hstep : expandRun setup actor tooltips m.tag ⟨s, [], []⟩ = (result, r) := hmessage
    simp only [expandMessage, inSession, Act.run, Act.zoom, hstep]
  have hrun : (runMacro setup actor tooltips m).run s = (result', q.session) := by
    have htext : (macroText m : Step σ Text) = pure m.content := by
      rw [macroText, h.kind]
      rfl
    have hstep : (macroText m >>= expandRun setup actor tooltips) ⟨s, [], [m.tag]⟩ = (result', q) := by
      rw [htext]
      exact hstored
    simp only [runMacro, inSession, Act.run, Act.zoom, hstep]
  rw [hexpand, hrun] at hreturns
  -- whichever of the two has a result, it has stored something, so the store accepts what is written
  have hwritable : s.desk.store.Writable := by
    rcases hreturns with hok | hok
    · exact writable_of_expandRun hhooks (r := ⟨s, [], []⟩) (by rwa [hmessage])
    · exact writable_of_expandRun hhooks (r := ⟨s, [], [m.tag]⟩) (by rwa [hstored])
  rcases sameOutcome_tag hhooks h tooltips hwritable with ⟨hsame, hsession⟩
  rw [hmessage, hstored] at hsame hsession
  cases hsame
  rcases or_self_iff.1 hreturns with ⟨t, rfl⟩
  -- the runs differ in the tags that are open and in the journal only
  rcases hsession t rfl with ⟨_, hq, journal, rfl⟩
  refine ⟨t, r.session, q.session, hexpand, hrun, ?_⟩
  rw [hq]
  exact ⟨rfl, rfl, rfl, rfl, rfl, rfl⟩

def fireball : Macro :=
  ⟨"Fire Ball!".toList, .custom, "?\x7bBoost|yes,2|no,0\x7d #\x7bcustom|fire-ball\x7d [[1d6]]".toList, [],
    .all, none⟩

/-- An expansion that knows the macro and takes the first of all choices. -/
def fireballSetup : Setup Unit where
  answerer := Script.answerer ⟨[], [("Boost".toList, some (.positions [1]))]⟩
  roller := .shorthand
  library := [fireball]
  hooks := []
  inlineMath := false

/-- A macro with a prompt, a roll and its own tag in it. -/
theorem invoked_by_tag_alike_fireball :
    let i : Invocation := ⟨"custom".toList, "fire-ball".toList⟩
    let s : Session Unit := ⟨⟨(), [], ⟨"choices".toList, []⟩, .memory [], []⟩, .fixed 4, []⟩
    (∀ moment, Hooks.handlers moment fireballSetup.hooks = []) ∧
    Invokes (lookup (actorId none) fireballSetup.library) fireball i ∧
    ((∃ t, ((expandMessage fireballSetup none true fireball.tag).run s).1 = .ok t) ∨
      ∃ t, ((runMacro fireballSetup none true fireball).run s).1 = .ok t) ∧
    ∃ t s' s'', (expandMessage fireballSetup none true fireball.tag).run s = (.ok t, s') ∧
      (runMacro fireballSetup none true fireball).run s = (.ok t, s'') ∧
      s'.desk.asked = s''.desk.asked ∧ s'.desk.answerer = s''.desk.answerer ∧
      s'.desk.memory = s''.desk.memory ∧ s'.desk.store = s''.desk.store ∧
      s'.dice = s''.dice ∧ s'.cache = s''.cache := by
  intro i s
  have hhooks : ∀ moment, Hooks.handlers moment fireballSetup.hooks = [] := fun _ => rfl
  have hinvokes : Invokes (lookup (actorId none) fireballSetup.library) fireball i :=
    ⟨rfl, by decide +kernel, by decide +kernel, by decide +kernel⟩
  have hreturns : ∃ t, ((runMacro fireballSetup none true fireball).run s).1 = .ok t :=
    exists_of_toOption (by decide +kernel)
  exact ⟨hhooks, hinvokes, .inr hreturns,
    invoked_by_tag_alike hhooks hinvokes true s (.inr hreturns)⟩

end Expansion

end TabletopChat
