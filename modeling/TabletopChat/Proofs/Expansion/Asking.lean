import TabletopChat.Proofs.Expansion.Stages
import TabletopChat.Proofs.Prompt.Steps

/-!
# Proofs/Expansion/Asking — no query is asked twice

While one message is expanded, macros inside of macros included, a query is asked at most once, and a
query that is a key of the selections is not asked at all. What carries this is that every query that
was asked is a key of the selections afterwards, unless the expansion stops, and that keys are never
removed.

- `Asks`, `Thrifty`         : the questions between two interviews; actions that ask nothing twice
- `Quiet`, `Settles`        : actions that ask nothing; actions that write an answer down
- `answerTag_asks`          : one tag
- `queries_are_asked_once`  : whole messages, and every point on the way
-/

namespace TabletopChat

namespace Prompt

variable {σ τ α β : Type}

/-! ## Questions between two interviews -/

/-- `new` are the questions, the latest first, that were asked on the way from one interview to a later
one: no query twice, and none that had an answer before. Answers are kept. -/
structure Asks (new : List Question) (i j : Interview σ) : Prop where
  asked : j.desk.asked = new ++ i.desk.asked
  distinct : (new.map Question.query).Nodup
  unknown : ∀ q ∈ new, Entries.has q.query i.selections = false
  kept : ∀ k, Entries.has k i.selections = true → Entries.has k j.selections = true

def Answered (new : List Question) (i : Interview σ) : Prop :=
  ∀ q ∈ new, Entries.has q.query i.selections = true

/-- What two steps ask is asked in their order. -/
theorem Asks.trans {new late : List Question} {i j k : Interview σ} (h : Asks new i j)
    (hknown : Answered new j) (h' : Asks late j k) : Asks (late ++ new) i k := by
  refine ⟨by rw [h'.asked, h.asked, List.append_assoc], ?_, ?_, fun key hk => h'.kept key (h.kept key hk)⟩
  · rw [List.map_append, List.nodup_append]
    refine ⟨h'.distinct, h.distinct, ?_⟩
    intro x hx y hy hxy
    rcases List.mem_map.1 hx with ⟨q, hq, rfl⟩
    rcases List.mem_map.1 hy with ⟨r, hr, rfl⟩
    -- what was asked first is known when the rest is asked
    have hyes := hknown r hr
    rw [← hxy, h'.unknown q hq] at hyes
    cases hyes
  · intro q hq
    rcases List.mem_append.1 hq with hlate | hnew
    · have hstill := h'.unknown q hlate
      cases hyes : Entries.has q.query i.selections with
      | false =>
          rfl
      | true =>
          rw [h.kept q.query hyes] at hstill
          cases hstill
    · exact h.unknown q hnew

theorem Answered.kept {new late : List Question} {i j : Interview σ} (h : Answered new i)
    (h' : Asks late i j) : Answered new j := by
  intro q hq
  exact h'.kept q.query (h q hq)

/-- An action that asks no query twice and none that has an answer; unless it stops, all it asked has an
answer afterwards. `view` shows the interview in its state. -/
def Thrifty (view : τ → Interview σ) (a : Act Abort τ α) : Prop :=
  ∀ s, ∃ new, Asks new (view s) (view (a.run s).2) ∧
    ∀ x, (a.run s).1 = .ok x → Answered new (view (a.run s).2)

/-- Actions that ask for nothing twice, one after the other, do so together. -/
theorem Thrifty.bind {view : τ → Interview σ} {a : Act Abort τ α} {f : α → Act Abort τ β}
    (ha : Thrifty view a) (hf : ∀ x, Thrifty view (f x)) : Thrifty view (a >>= f) := by
  intro s
  rcases ha s with ⟨new, hasks, hanswered⟩
  rcases h : a.run s with ⟨result, s'⟩
  rw [h] at hasks hanswered
  cases result with
  | error e =>
      rw [Act.run_bind_of_error h]
      exact ⟨new, hasks, fun x hx => nomatch hx⟩
  | ok x =>
      rw [Act.run_bind_of_ok h]
      -- what the first action asked has an answer, so the second one does not ask it
      have hknown := hanswered x rfl
      rcases hf x s' with ⟨late, hlate, hrest⟩
      refine ⟨late ++ new, hasks.trans hknown hlate, ?_⟩
      intro y hy q hq
      rcases List.mem_append.1 hq with hq | hq
      · exact hrest y hy q hq
      · exact hknown.kept hlate q hq

/-! ## Actions that ask nothing -/

/-- An action that asks nothing and removes no answer. -/
def Quiet (view : τ → Interview σ) (a : Act Abort τ α) : Prop :=
  Act.Always (fun s s' => Asks [] (view s) (view s')) a

theorem Asks.none {i j : Interview σ} (hasked : j.desk.asked = i.desk.asked)
    (hkept : ∀ k, Entries.has k i.selections = true → Entries.has k j.selections = true) :
    Asks [] i j :=
  ⟨hasked, List.nodup_nil, fun _ hq => (List.not_mem_nil hq).elim, hkept⟩

theorem Quiet.thrifty {view : τ → Interview σ} {a : Act Abort τ α} (h : Quiet view a) :
    Thrifty view a := by
  intro s
  exact ⟨[], h s, fun _ _ _ hq => (List.not_mem_nil hq).elim⟩

theorem Quiet.bind {view : τ → Interview σ} {a : Act Abort τ α} {f : α → Act Abort τ β}
    (ha : Quiet view a) (hf : ∀ x, Quiet view (f x)) : Quiet view (a >>= f) :=
  Act.Always.bind (fun h h' => h.trans (fun _ hq => (List.not_mem_nil hq).elim) h') ha hf

/-- An action that does nothing is quiet, in particular one that only looks or stops. -/
theorem quiet_of_eq {view : τ → Interview σ} {a : Act Abort τ α}
    (h : ∀ s, view (a.run s).2 = view s) : Quiet view a := by
  intro s
  simp only [h s]
  exact .none rfl fun _ hk => hk

theorem quiet_pure (view : τ → Interview σ) (x : α) : Quiet view (pure x) :=
  quiet_of_eq fun _ => rfl

theorem quiet_change (f : Memory → Except Abort Memory) : Quiet id (change f : Asking σ Unit) := by
  intro i
  simp only [change, Act.run]
  split <;> exact .none rfl fun _ hk => hk

/-- The steps of making a choice ask nothing. -/
theorem steady_quiet : Steady fun i j : Interview σ => Asks [] i j where
  refl i := .none rfl fun _ hk => hk
  trans h h' := h.trans (fun _ hq => (List.not_mem_nil hq).elim) h'
  say entries := fun _ => .none rfl fun _ hk => hk
  select name parts := by
    intro i
    refine .none rfl fun k hk => ?_
    simp [select, Entries.has_insert, hk]
  change _ := quiet_change _

theorem quiet_select (name : Text) (parts : List Text) :
    Quiet id (select name parts : Asking σ Unit) :=
  steady_quiet.select name parts

theorem quiet_say (entries : Journal) : Quiet id (say entries : Asking σ Unit) :=
  steady_quiet.say entries

theorem quiet_save : Quiet id (save : Asking σ Unit) :=
  steady_quiet.save fun _ _ => .none rfl fun _ hk => hk

/-! ## Actions that write an answer down -/

/-- An action that asks nothing and, unless it stops, leaves an answer under `key`. -/
def Settles (key : Text) (a : Asking σ α) : Prop :=
  Quiet id a ∧ ∀ i x, (a.run i).1 = .ok x → Entries.has key (a.run i).2.selections = true

theorem settles_select (name : Text) (parts : List Text) :
    Settles name (select name parts : Asking σ Unit) := by
  refine ⟨quiet_select name parts, ?_⟩
  intro i x _
  simp [select, Entries.has_insert]

/-- What is settled stays settled through a quiet step. -/
theorem Settles.bind_quiet {key : Text} {a : Asking σ α} {f : α → Asking σ β} (ha : Settles key a)
    (hf : ∀ x, Quiet id (f x)) : Settles key (a >>= f) := by
  refine ⟨ha.1.bind hf, fun i y hy => ?_⟩
  obtain ⟨x, j, hrun, -⟩ := Act.exists_of_run_bind (y := y) (Prod.ext hy rfl)
  have hkey := ha.2 i x (by rw [hrun])
  rw [hrun] at hkey
  rw [Act.run_bind_of_ok hrun]
  exact (hf x j).kept key hkey

theorem Quiet.bind_settles {key : Text} {a : Asking σ α} {f : α → Asking σ β} (ha : Quiet id a)
    (hf : ∀ x, Settles key (f x)) : Settles key (a >>= f) := by
  refine ⟨ha.bind fun x => (hf x).1, fun i y hy => ?_⟩
  obtain ⟨x, j, hrun, hrest⟩ := Act.exists_of_run_bind (y := y) (Prod.ext hy rfl)
  rw [Act.run_bind_of_ok hrun]
  exact (hf x).2 j y (by rw [hrest])

theorem settles_chooseNothing (tag : Tag) : Settles tag.query (chooseNothing tag : Asking σ Text) :=
  (settles_select _ _).bind_quiet fun _ => quiet_pure id _

theorem settles_chooseOne (tag : Tag) (c : Choice) :
    Settles tag.query (chooseOne tag c : Asking σ Text) :=
  (quiet_change _).bind_settles fun _ => (quiet_select _ _).bind_settles fun _ =>
    (settles_select _ _).bind_quiet fun _ => quiet_pure id _

/-- A choice of several settles its query. -/
theorem settles_chooseMany (tag : Tag) (chosen : List Choice) :
    Settles tag.query (chooseMany tag chosen : Asking σ Text) := by
  have hlisted : Settles tag.query (chooseListed tag chosen : Asking σ Text) :=
    Quiet.bind_settles (steady_quiet.chooseEach _ _) fun _ =>
      (settles_select _ _).bind_quiet fun _ => quiet_pure id _
  rw [chooseMany_eq]
  split
  · exact Quiet.bind_settles (steady_quiet.forgetAll _ _) fun _ => hlisted
  · exact hlisted

/-- Whatever was chosen, the query of the tag has an answer afterwards. -/
theorem settles_choose (tag : Tag) (chosen : Option (List Choice)) :
    Settles tag.query (choose tag chosen : Asking σ Text) := by
  cases chosen with
  | none =>
      exact settles_chooseNothing tag
  | some cs =>
      simp only [choose]
      split
      · exact settles_chooseNothing tag
      · exact settles_chooseOne tag _
      · exact settles_chooseMany tag _

/-! ## One tag -/

/-- A question whose query has no answer, with what writes its answer down. -/
theorem ask_asks (q : Question) (reply : σ → Reply σ α) {f : Option α → Asking σ β}
    (hf : ∀ x, Settles q.query (f x)) {i : Interview σ}
    (hi : Entries.has q.query i.selections = false) :
    Asks [q] i ((ask q reply >>= f).run i).2 ∧
      ∀ y, ((ask q reply >>= f).run i).1 = .ok y →
        Answered [q] ((ask q reply >>= f).run i).2 := by
  rcases h : (ask q reply).run i with ⟨result, j⟩
  have hj : result = .ok (reply i.desk.answerer).answer ∧ j.selections = i.selections ∧
      j.desk.asked = q :: i.desk.asked := by
    simp only [ask, Act.run, Prod.mk.injEq] at h
    rcases h with ⟨hresult, rfl⟩
    exact ⟨hresult.symm, rfl, rfl⟩
  rcases hj with ⟨rfl, hselections, hasked⟩
  rw [Act.run_bind_of_ok h]
  -- what comes after the question asks nothing more
  rcases hf (reply i.desk.answerer).answer with ⟨hquiet, hsettles⟩
  have hrest : Asks [] j ((f (reply i.desk.answerer).answer).run j).2 := hquiet j
  refine ⟨⟨by rw [hrest.asked]; exact hasked, by simp, by simpa using hi, ?_⟩, ?_⟩
  · intro k hk
    exact hrest.kept k (by rwa [hselections])
  · intro y hy r hr
    rw [List.mem_singleton.1 hr]
    exact hsettles j y hy

/-- Answering a tag asks at most one question, the one of the tag, and only if its query has no answer
at that time. -/
theorem answerTag_asks (a : Answerer σ) (tag : Tag) (i : Interview σ) :
    ∃ new, Asks new i ((answerTag a tag).run i).2 ∧
      (∀ x, ((answerTag a tag).run i).1 = .ok x → Answered new ((answerTag a tag).run i).2) ∧
      new.length ≤ 1 ∧ ∀ q ∈ new, q.query = tag.query := by
  rw [answerTag, Act.run_bind_of_ok (Act.run_get i)]
  cases hknown : Entries.get? tag.query i.selections with
  | some parts =>
      exact ⟨[], .none rfl fun _ h => h, fun _ _ _ hq => (List.not_mem_nil hq).elim, by simp, by simp⟩
  | none =>
      have hnew : Entries.has tag.query i.selections = false := by simp [Entries.has, hknown]
      by_cases hchoice : tag.isChoice
      · simp only [hchoice, if_true]
        rcases hconsult : (consult fun m => preselectAll tag m tag.choices : Asking σ _).run i with
          ⟨result, j⟩
        have hj : j = i := congrArg Prod.snd hconsult.symm
        subst hj
        cases result with
        | error e =>
            -- the memory holds something that cannot be looked at, and nothing is asked
            refine ⟨[], ?_, ?_, by simp, by simp⟩
            · rw [askChoice, Act.run_bind_of_error hconsult]
              exact .none rfl fun _ h => h
            · intro _ _ _ hq
              exact (List.not_mem_nil hq).elim
        | ok choices =>
            rw [askChoice, Act.run_bind_of_ok hconsult]
            rcases ask_asks (.choice tag.query tag.kind choices)
              (a.choice tag.query tag.kind choices) (settles_choose tag) hnew with
              ⟨hasks, hanswered⟩
            exact ⟨_, hasks, hanswered, by simp, by simp [Question.query]⟩
      · simp only [hchoice]
        have hrest (answer : Option Text) : Settles tag.query (do
            select tag.query [answer.getD []]
            pure (answer.getD []) : Asking σ Text) :=
          (settles_select _ _).bind_quiet fun _ => quiet_pure id _
        rcases ask_asks (.text tag.query tag.fallback) (a.text tag.query tag.fallback) hrest hnew with
          ⟨hasks, hanswered⟩
        exact ⟨_, hasks, hanswered, by simp, by simp [Question.query]⟩

theorem thrifty_answerTag (a : Answerer σ) (tag : Tag) : Thrifty id (answerTag a tag) := by
  intro i
  rcases answerTag_asks a tag i with ⟨new, hasks, hanswered, _⟩
  exact ⟨new, hasks, hanswered⟩

/-! ## Whole texts -/

/-- While tags are answered, nothing is asked twice. -/
theorem thrifty_resolveFrom (a : Answerer σ) (fuel : Nat) (done rest : Text) :
    Thrifty id (resolveFrom a fuel done rest) := by
  induction fuel generalizing done rest with
  | zero =>
      exact (quiet_say _).thrifty.bind fun _ => (quiet_pure id _).thrifty
  | succ fuel ih =>
      unfold resolveFrom
      split
      · exact (quiet_pure id _).thrifty
      · refine (thrifty_answerTag a _).bind fun answer => (quiet_say _).thrifty.bind fun _ => ?_
        split
        · exact ih _ _
        · exact ih _ _

theorem thrifty_resolve (a : Answerer σ) (message : Text) : Thrifty id (resolve a message) :=
  (thrifty_resolveFrom a answerLimit [] message).bind fun _ =>
    quiet_save.thrifty.bind fun _ => (quiet_pure id _).thrifty

end Prompt

namespace Expansion

open Prompt Library

variable {σ α : Type}

/-! ## Macros inside of a message -/

def Run.interview (r : Run σ) : Interview σ := ⟨r.session.desk, r.selections⟩

theorem thrifty_asking {a : Asking σ α} (h : Thrifty id a) : Thrifty Run.interview (asking a) :=
  fun r => h r.interview

theorem quiet_expansionSay (entries : Journal) : Quiet Run.interview (say entries : Step σ Unit) :=
  fun r => quiet_say entries r.interview

theorem quiet_hosting (f : σ → α × σ) : Quiet Run.interview (hosting f : Step σ α) :=
  fun _ => .none rfl fun _ h => h

theorem quiet_rolling (a : Act Abort Dice α) : Quiet Run.interview (rolling a : Step σ α) :=
  quiet_of_eq fun _ => rfl

theorem quiet_evaluating (a : Evaluation.Step α) : Quiet Run.interview (evaluating a : Step σ α) :=
  fun _ => .none rfl fun _ h => h

theorem quiet_callHooks (setup : Setup σ) (actor : ActorData) (moment message : Text) :
    Quiet Run.interview (callHooks setup actor moment message) :=
  (quiet_expansionSay _).bind fun _ => quiet_hosting _

theorem thrifty_within {a : Step σ α} (h : Thrifty Run.interview a) (tag : Text) :
    Thrifty Run.interview (within tag a) :=
  fun r => h { r with nested := tag :: r.nested }

/-- The steps of expanding a text that answer no prompts ask no query twice, since they ask nothing. -/
theorem staged_thrifty : Staged (σ := σ) fun a => Thrifty Run.interview a where
  pure x := (quiet_pure _ x).thrifty
  bind ha hf := ha.bind hf
  stop _ := (quiet_of_eq fun _ => rfl).thrifty
  say entries := (quiet_expansionSay entries).thrifty
  hosting f := (quiet_hosting f).thrifty
  attempt a := Quiet.thrifty fun r => quiet_rolling a r
  isNested _ := (quiet_of_eq fun _ => rfl).thrifty
  within tag h := thrifty_within h tag

theorem thrifty_expandPieces {macros : Entries Macro} {expand : Text → Step σ Text}
    (h : ∀ t, Thrifty Run.interview (expand t)) (ps : List (Piece Invocation)) :
    Thrifty Run.interview (expandPieces macros expand ps) :=
  staged_thrifty.expandPieces h ps

theorem thrifty_prepare (setup : Setup σ) (actor : ActorData) (t : Text) :
    Thrifty Run.interview (prepare setup actor t) := by
  have hget : Quiet Run.interview (Act.get : Step σ (Run σ)) := quiet_of_eq fun _ => rfl
  exact (thrifty_asking (thrifty_resolve setup.answerer t)).bind fun _ => hget.thrifty.bind fun _ =>
    (quiet_callHooks _ _ _ _).thrifty.bind fun _ => (quiet_pure _ _).thrifty

/-- While macros are expanded, nothing is asked twice. -/
theorem thrifty_expandText (setup : Setup σ) (actor : ActorData) (macros : Entries Macro) (depth : Nat)
    (t : Text) : Thrifty Run.interview (expandText setup actor macros depth t) := by
  induction depth generalizing t with
  | zero =>
      -- macros inside of the text leave nothing here
      exact (thrifty_prepare setup actor t).bind fun _ =>
        thrifty_expandPieces (fun _ => (quiet_pure _ _).thrifty) _
  | succ depth ih =>
      exact (thrifty_prepare setup actor t).bind fun _ => thrifty_expandPieces ih _

theorem thrifty_expandRun (setup : Setup σ) (actor : ActorData) (tooltips : Bool) (message : Text) :
    Thrifty Run.interview (expandRun setup actor tooltips message) :=
  (quiet_callHooks _ _ _ _).thrifty.bind fun _ => (thrifty_expandText _ _ _ _ _).bind fun _ =>
    (quiet_evaluating _).thrifty.bind fun _ => (quiet_callHooks _ _ _ _).thrifty

theorem thrifty_macroText (m : Macro) : Thrifty Run.interview (macroText m : Step σ Text) := by
  unfold macroText
  split
  · exact (quiet_rolling _).thrifty.bind fun _ => (quiet_pure _ _).thrifty
  · exact (quiet_pure _ _).thrifty

/-! ## No query twice -/

/-- On the way from a desk to a later one no query was asked twice, and none that is a key of the
selections known at the beginning. -/
def AskedOnce (known : Selections) (before after : Desk σ) : Prop :=
  ∃ new, after.asked = new ++ before.asked ∧ (new.map Question.query).Nodup ∧
    ∀ q ∈ new, Entries.get? q.query known = none

/-- Thrifty actions ask each question once. -/
theorem askedOnce_of_thrifty {τ : Type} {view : τ → Interview σ} {a : Act Abort τ α}
    (h : Thrifty view a) (s : τ) :
    AskedOnce (view s).selections (view s).desk (view (a.run s).2).desk := by
  rcases h s with ⟨new, hasks, _⟩
  refine ⟨new, hasks.asked, hasks.distinct, ?_⟩
  intro q hq
  have hunknown := hasks.unknown q hq
  simpa [Entries.has] using hunknown

/-- Expanding a message or a stored macro asks no query twice, whatever the answerer, the macros, the
hooks and the memory are, and also if it stops. From any point on, in the middle of a message, of a
nested macro or of a text whose tags are being answered, no query is asked that is a key of the
selections at this point; and a tag asks at most its own query, when it is no key. -/
theorem queries_are_asked_once (setup : Setup σ) (actor : ActorData) :
    (∀ tooltips message (s : Session σ),
      AskedOnce [] s.desk ((expandMessage setup actor tooltips message).run s).2.desk) ∧
    (∀ tooltips m (s : Session σ),
      AskedOnce [] s.desk ((runMacro setup actor tooltips m).run s).2.desk) ∧
    (∀ macros depth text (r : Run σ),
      AskedOnce r.selections r.session.desk
        ((expandText setup actor macros depth text).run r).2.session.desk) ∧
    (∀ macros depth pieces (r : Run σ),
      AskedOnce r.selections r.session.desk
        ((expandPieces macros (expandText setup actor macros depth) pieces).run r).2.session.desk) ∧
    (∀ fuel done rest (i : Interview σ),
      AskedOnce i.selections i.desk ((resolveFrom setup.answerer fuel done rest).run i).2.desk) ∧
    (∀ message (i : Interview σ),
      AskedOnce i.selections i.desk ((resolve setup.answerer message).run i).2.desk) ∧
    (∀ tag (i : Interview σ), ∃ new,
      ((answerTag setup.answerer tag).run i).2.desk.asked = new ++ i.desk.asked ∧ new.length ≤ 1 ∧
        ∀ q ∈ new, q.query = tag.query ∧ Entries.get? tag.query i.selections = none) := by
  refine ⟨?_, ?_, ?_, ?_, ?_, ?_, ?_⟩
  · intro tooltips message s
    exact askedOnce_of_thrifty (thrifty_expandRun setup actor tooltips message) ⟨s, [], []⟩
  · intro tooltips m s
    -- rolling on the table comes first, and asks nothing
    have hrun := (thrifty_macroText m).bind fun t => thrifty_expandRun setup actor tooltips t
    exact askedOnce_of_thrifty hrun ⟨s, [], [m.tag]⟩
  · intro macros depth text r
    exact askedOnce_of_thrifty (thrifty_expandText setup actor macros depth text) r
  · intro macros depth pieces r
    exact askedOnce_of_thrifty
      (thrifty_expandPieces (thrifty_expandText setup actor macros depth) pieces) r
  · intro fuel done rest i
    exact askedOnce_of_thrifty (thrifty_resolveFrom setup.answerer fuel done rest) i
  · intro message i
    exact askedOnce_of_thrifty (thrifty_resolve setup.answerer message) i
  · intro tag i
    rcases answerTag_asks setup.answerer tag i with ⟨new, hasks, _, hlength, hquery⟩
    refine ⟨new, hasks.asked, hlength, fun q hq => ⟨hquery q hq, ?_⟩⟩
    have hunknown := hasks.unknown q hq
    rw [hquery q hq] at hunknown
    simpa [Entries.has] using hunknown

end Expansion

end TabletopChat
