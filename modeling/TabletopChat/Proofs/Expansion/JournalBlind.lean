import TabletopChat.Proofs.Prompt.FixedPoint
import TabletopChat.Proofs.Expansion.Stages

/-!
# Proofs/Expansion/JournalBlind — what was said makes no difference

Nothing that is done depends on what was said before. Nor does it depend on how the choices that are
remembered were stored before, as long as storing them again gives the same store; and the stages before
the macros of a text always store them again.

- `Act.SameOutcome`, `Act.Blind` : actions that do not see how two states differ
- `Prompt.Desk.Told`, `Prompt.Desk.Near` : desks that differ in what was said, and in the store
- `Evaluation.unheard_evaluateRolls` : evaluating rolls
- `Prompt.blind_resolve` : answering tags, after which the stores are the same
- `Expansion.blind_expandText`, `Expansion.blind_evaluating` : the stages of a message
-/

namespace TabletopChat

/-! ## Actions that do not see a difference -/

namespace Act

variable {ε σ α β : Type} {R R' Q S : σ → σ → Prop}

/-- Outcomes with the same result. If there is one, and no reason to stop, the states are related. -/
def SameOutcome (Q : σ → σ → Prop) (o o' : Except ε α × σ) : Prop :=
  o.1 = o'.1 ∧ ∀ x, o.1 = .ok x → Q o.2 o'.2

/-- From two states that are related by `R` an action has the same outcome, up to `Q`. -/
def Blind (R Q : σ → σ → Prop) (a : Act ε σ α) : Prop :=
  ∀ s t, R s t → SameOutcome Q (a.run s) (a.run t)

theorem SameOutcome.error (e : ε) (s t : σ) :
    SameOutcome Q ((.error e, s) : Except ε α × σ) (.error e, t) :=
  ⟨rfl, fun _ hx => nomatch hx⟩

/-- What comes next has the same outcome if it does not see how the states differ. -/
theorem SameOutcome.bind {a b : Act ε σ α} {f : α → Act ε σ β} {s t : σ}
    (h : SameOutcome R (a.run s) (b.run t)) (hf : ∀ x, Blind R Q (f x)) :
    SameOutcome Q ((a >>= f).run s) ((b >>= f).run t) := by
  rcases h with ⟨hresult, hnext⟩
  rcases hs : a.run s with ⟨result, s'⟩
  rcases ht : b.run t with ⟨result', t'⟩
  rw [hs, ht] at hresult hnext
  cases hresult
  cases result with
  | error e =>
    rw [run_bind_of_error hs, run_bind_of_error ht]
    exact .error e s' t'
  | ok x =>
    rw [run_bind_of_ok hs, run_bind_of_ok ht]
    exact hf x s' t' (hnext x rfl)

theorem blind_pure (x : α) : Blind R R (pure x : Act ε σ α) :=
  fun _ _ h => ⟨rfl, fun _ _ => h⟩

theorem blind_stop (e : ε) : Blind R Q (stop e : Act ε σ α) :=
  fun s t _ => .error e s t

theorem Blind.of_imp {a : Act ε σ α} (h : Blind R Q a) (hR : ∀ s t, R' s t → R s t) : Blind R' Q a :=
  fun s t hst => h s t (hR s t hst)

theorem Blind.bind {a : Act ε σ α} {f : α → Act ε σ β} (ha : Blind R Q a) (hf : ∀ x, Blind Q S (f x)) :
    Blind R S (a >>= f) :=
  fun s t hst => (ha s t hst).bind hf

/-- Looking at what two states have in common. -/
theorem Blind.look {f : σ → Act ε σ α} (hf : ∀ s, Blind R Q (f s)) (h : ∀ s t, R s t → f s = f t) :
    Blind R Q (Act.get >>= f) := by
  intro s t hst
  rw [run_bind_of_ok (run_get s), run_bind_of_ok (run_get t), ← h s t hst]
  exact hf s s t hst

theorem blind_modify {f : σ → σ} (h : ∀ s t, R s t → Q (f s) (f t)) :
    Blind R Q (modify f : Act ε σ Unit) :=
  fun s t hst => ⟨rfl, fun _ _ => h s t hst⟩

end Act

open Act

/-! ## Rolls -/

namespace Evaluation

/-- States that differ at most in what was said. -/
def Told (s t : State) : Prop := ∃ journal, t = { s with journal := journal }

/-- An action during an evaluation that does not depend on what was said. -/
abbrev Unheard {α : Type} (a : Step α) : Prop := Blind Told Told a

theorem unheard_modify {f : State → State}
    (h : ∀ s journal, ∃ journal', f { s with journal := journal } = { f s with journal := journal' }) :
    Unheard (Act.modify f) := by
  refine blind_modify ?_
  rintro s t ⟨journal, rfl⟩
  exact h s journal

theorem unheard_warn (message : Text) : Unheard (Act.modify (State.warn message)) :=
  unheard_modify fun _ _ => ⟨_, rfl⟩

theorem unheard_ensure (p : Bool) (e : Abort) : Unheard (Act.ensure p e) := by
  cases p with
  | true => exact blind_pure ()
  | false => exact blind_stop e

theorem unheard_arithmetic (expression : Text) (calls : Option Nat) :
    Unheard (arithmetic expression calls) := by
  refine (unheard_ensure _ _).bind fun _ => ?_
  split
  · exact blind_pure _
  · exact (unheard_warn _).bind fun _ => blind_pure _
  · exact blind_stop _

theorem unheard_rollShorthand (expression : Text) (calls : Option Nat) :
    Unheard (rollShorthand expression calls) := by
  have hroll : Unheard
      ((Shorthand.roll expression calls).zoom State.dice fun d s => { s with dice := d }) := by
    rintro s t ⟨journal, rfl⟩
    exact ⟨rfl, fun _ _ => ⟨journal, rfl⟩⟩
  refine hroll.bind fun r => ?_
  cases r.warning with
  | none => exact blind_pure _
  | some w => exact (unheard_modify fun _ _ => ⟨_, rfl⟩).bind fun _ => blind_pure _

/-- Rolling dice notation does not depend on what was said. -/
theorem unheard_rollNotation (expression : Text) : Unheard (rollNotation expression) := by
  rintro s t ⟨journal, rfl⟩
  simp only [rollNotation, Act.run]
  split
  · exact ⟨rfl, fun _ _ => ⟨journal, rfl⟩⟩
  · exact ⟨rfl, fun _ _ => ⟨journal, rfl⟩⟩
  · exact ⟨rfl, fun _ _ => ⟨journal, rfl⟩⟩

/-- Nor does the result of an expression. -/
theorem unheard_produce (roller : Roller) (expression : Text) (kind : Markup.Kind) :
    Unheard (produce roller expression kind) := by
  have hnotation (calls : Option Nat) : Unheard (evaluateNotation expression calls) := by
    refine (unheard_rollNotation expression).bind fun r => ?_
    cases r with
    | ok o => exact (unheard_arithmetic _ _).bind fun _ => blind_pure _
    | error f => exact (unheard_warn _).bind fun _ => blind_pure _
  cases kind with
  | math => exact (unheard_arithmetic expression _).bind fun _ => blind_pure _
  | roll =>
    cases roller with
    | shorthand calls => exact unheard_rollShorthand expression calls
    | extended calls => exact hnotation calls

theorem unheard_interpret (roller : Roller) (kind : LeafKind) (source : Text) :
    Unheard (interpret roller kind source) := by
  have hname (name : Option Text) : Unheard (chooseName name) := by
    cases name with
    | some name => exact blind_pure name
    | none =>
      rintro s t ⟨journal, rfl⟩
      exact ⟨rfl, fun _ _ => ⟨journal, rfl⟩⟩
  have hrecord (kind : Markup.Kind) (name expression : Text) (rec : Record) :
      Unheard (record kind name expression rec) :=
    unheard_modify fun _ _ => ⟨_, rfl⟩
  unfold interpret
  dsimp only
  split
  · exact blind_pure []
  · refine (hname _).bind fun name => ?_
    cases kind with
    | other => exact blind_pure _
    | node kind =>
      exact (unheard_produce roller _ kind).bind fun rec => (hrecord kind name _ rec).bind fun _ =>
        blind_pure _

mutual

theorem unheard_evaluateNode (roller : Roller) (n : Markup.Node) : Unheard (evaluateNode roller n) := by
  cases n with
  | text t span => exact blind_pure t
  | roll kind closed children span =>
    exact (unheard_evaluateNodes roller children).bind fun t => unheard_interpret roller _ t

/-- Nodes do not hear what was said before. -/
theorem unheard_evaluateNodes (roller : Roller) (ns : List Markup.Node) :
    Unheard (evaluateNodes roller ns) := by
  cases ns with
  | nil => exact blind_pure []
  | cons n ns =>
    exact (unheard_evaluateNode roller n).bind fun _ => (unheard_evaluateNodes roller ns).bind fun _ =>
      blind_pure _

end

/-- Nor does a whole message. -/
theorem unheard_evaluateRolls (settings : Settings) (message : Text) :
    Unheard (evaluateRolls settings message) := by
  have htop (tooltips : Bool) (ns : List Markup.Node) :
      Unheard (evaluateTop settings.roller tooltips ns) := by
    induction ns with
    | nil => exact blind_pure []
    | cons n ns ih =>
      exact (unheard_evaluateNode settings.roller n).bind fun _ => ih.bind fun _ => blind_pure _
  exact htop _ _

theorem unheard_substituteReferences (message : Text) : Unheard (substituteReferences message) := by
  rintro s t ⟨journal, rfl⟩
  exact ⟨rfl, fun _ _ => ⟨_, rfl⟩⟩

end Evaluation

/-! ## Prompts -/

namespace Prompt

variable {σ α : Type}

def Desk.Told (d e : Desk σ) : Prop := ∃ journal, e = { d with journal := journal }

/-- Desks that differ at most in what was said, and in their stores as long as nothing is remembered in
them. -/
def Desk.Near (d e : Desk σ) : Prop :=
  ∃ store journal, e = { d with store := store, journal := journal } ∧
    ∀ t, store.set? d.memory.place Memory.key t = d.store.set? d.memory.place Memory.key t

theorem Desk.Told.near {d e : Desk σ} (h : d.Told e) : d.Near e := by
  rcases h with ⟨journal, rfl⟩
  exact ⟨d.store, journal, rfl, fun _ => rfl⟩

def Interview.At (D : Desk σ → Desk σ → Prop) (i j : Interview σ) : Prop :=
  ∃ desk, j = { i with desk := desk } ∧ D i.desk desk

/-- No step of answering a tag looks at the store or at what was said. -/
theorem composed_blind :
    Composed (σ := σ) fun a => Blind (Interview.At Desk.Near) (Interview.At Desk.Near) a where
  pure x := blind_pure x
  bind ha hf := ha.bind hf
  look hsame hf := .look hf fun i j ⟨desk, hj, _⟩ => hsame i j (by rw [hj])
  consult _ := by
    rintro i j ⟨_, rfl, store, journal, rfl, hstore⟩
    exact ⟨rfl, fun _ _ => ⟨_, rfl, store, journal, rfl, hstore⟩⟩
  say entries := by
    rintro i j ⟨_, rfl, store, journal, rfl, hstore⟩
    exact ⟨rfl, fun _ _ => ⟨_, rfl, store, entries ++ journal, rfl, hstore⟩⟩
  select name parts := by
    rintro i j ⟨_, rfl, store, journal, rfl, hstore⟩
    exact ⟨rfl, fun _ _ => ⟨_, rfl, store, journal, rfl, hstore⟩⟩
  change {f} hf := by
    rintro i j ⟨_, rfl, store, journal, rfl, hstore⟩
    simp only [change, Act.run]
    cases hm : f i.desk.memory with
    | error e => exact .error e _ _
    | ok m =>
      -- what is remembered now would be stored where it was stored before
      refine ⟨rfl, fun _ _ => ⟨_, rfl, store, journal, rfl, fun t => ?_⟩⟩
      simp only [hf.place_eq hm]
      exact hstore t

theorem blind_ask (q : Question) (reply : σ → Reply σ α) :
    Blind (Interview.At Desk.Near) (Interview.At Desk.Near) (ask q reply) := by
  rintro i j ⟨_, rfl, store, journal, rfl, hstore⟩
  exact ⟨rfl, fun _ _ => ⟨_, rfl, store, _, rfl, hstore⟩⟩

/-- When what is remembered has been stored, it makes no difference what was stored before. -/
theorem blind_save :
    Blind (Interview.At Desk.Near) (Interview.At Desk.Told) (save : Asking σ Unit) := by
  rintro i j ⟨_, rfl, store, journal, rfl, hstore⟩
  have hsave : i.desk.memory.save? store = i.desk.memory.save? i.desk.store := hstore _
  simp only [run_save, hsave]
  cases i.desk.memory.save? i.desk.store with
  | none => exact .error _ _ _
  | some s => exact ⟨rfl, fun _ _ => ⟨_, rfl, _, rfl⟩⟩

theorem blind_resolve (a : Answerer σ) (message : Text) :
    Blind (Interview.At Desk.Near) (Interview.At Desk.Told) (resolve a message) :=
  (composed_blind.resolveFrom blind_ask a answerLimit [] message).bind fun _ =>
    blind_save.bind fun _ => blind_pure _

end Prompt

/-! ## Messages -/

namespace Expansion

open Prompt Library

variable {σ α : Type}

def Run.At (D : Desk σ → Desk σ → Prop) (r q : Run σ) : Prop :=
  ∃ desk, q = { r with session := { r.session with desk := desk } } ∧ D r.session.desk desk

def Run.SameSession (r q : Run σ) : Prop :=
  ∃ desk, q.session = { r.session with desk := desk } ∧ r.session.desk.Told desk

/-- A part of a run that does not depend on what was said. -/
abbrev Unheard (a : Step σ α) : Prop := Blind (Run.At Desk.Told) (Run.At Desk.Told) a

/-- What answering prompts does not depend on, it does not depend on as a part of a run. -/
theorem blind_asking {D E : Desk σ → Desk σ → Prop} {a : Asking σ α}
    (h : Blind (Interview.At D) (Interview.At E) a) : Blind (Run.At D) (Run.At E) (asking a) := by
  rintro r q ⟨desk, rfl, hdesk⟩
  rcases h ⟨r.session.desk, r.selections⟩ _ ⟨desk, rfl, hdesk⟩ with ⟨hresult, hnext⟩
  refine ⟨hresult, fun x hx => ?_⟩
  rcases hnext x hx with ⟨desk', hdesk', hE⟩
  refine ⟨desk', ?_, hE⟩
  simp only [asking, Act.zoom, Act.run] at hdesk' ⊢
  rw [hdesk']

/-- No step of expanding a text looks at what was said. -/
theorem staged_unheard : Staged (σ := σ) fun a => Unheard a where
  pure x := blind_pure x
  bind ha hf := ha.bind hf
  stop e := blind_stop e
  say entries := by
    rintro r q ⟨_, rfl, journal, rfl⟩
    exact ⟨rfl, fun _ _ => ⟨_, rfl, _, rfl⟩⟩
  hosting f := by
    rintro r q ⟨_, rfl, journal, rfl⟩
    exact ⟨rfl, fun _ _ => ⟨_, rfl, journal, rfl⟩⟩
  attempt a := by
    rintro r q ⟨_, rfl, journal, rfl⟩
    exact ⟨rfl, fun _ _ => ⟨_, rfl, journal, rfl⟩⟩
  isNested tag := by
    rintro r q ⟨desk, rfl, hdesk⟩
    exact ⟨rfl, fun _ _ => ⟨desk, rfl, hdesk⟩⟩
  within {a} tag h := by
    rintro r q ⟨desk, rfl, hdesk⟩
    rcases h { r with nested := tag :: r.nested } _ ⟨desk, rfl, hdesk⟩ with ⟨hresult, hnext⟩
    refine ⟨hresult, fun x hx => ?_⟩
    rcases hnext x hx with ⟨desk', hdesk', htold⟩
    refine ⟨desk', ?_, htold⟩
    simp only [within, Act.run] at hdesk' ⊢
    rw [hdesk']

/-- After the stages before the macros of a text it makes no difference how what is remembered was stored
before. -/
theorem blind_prepare (setup : Setup σ) (actor : ActorData) (t : Text) :
    Blind (Run.At Desk.Near) (Run.At Desk.Told) (prepare setup actor t) := by
  refine (blind_asking (blind_resolve _ _)).bind fun u => .look ?_ fun r q ⟨desk, hq, _⟩ => by rw [hq]
  exact fun r => (staged_unheard.callHooks _ _ _ _).bind fun _ => blind_pure _

/-- Macros inside of a text are expanded alike, since each text is prepared first. -/
theorem blind_expandText (setup : Setup σ) (actor : ActorData) (macros : Entries Macro) (depth : Nat)
    (t : Text) : Blind (Run.At Desk.Near) (Run.At Desk.Told) (expandText setup actor macros depth t) := by
  have htold (r q : Run σ) : r.At Desk.Told q → r.At Desk.Near q :=
    fun ⟨desk, hq, h⟩ => ⟨desk, hq, h.near⟩
  induction depth generalizing t with
  | zero =>
    exact (blind_prepare setup actor t).bind fun _ =>
      staged_unheard.expandPieces (fun _ => blind_pure []) _
  | succ depth ih =>
    -- the first text is stored; for the macros inside of it the stores are the same from there on
    exact (blind_prepare setup actor t).bind fun _ =>
      staged_unheard.expandPieces (fun u => (ih u).of_imp htold) _

/-- The rolls of a message depend on the session alone. -/
theorem blind_evaluating {a : Evaluation.Step α} (h : Evaluation.Unheard a) :
    Blind Run.SameSession Run.SameSession (evaluating a : Step σ α) := by
  rintro r q ⟨_, hq, journal, rfl⟩
  rcases q with ⟨session, selections, nested⟩
  cases hq
  rcases h ⟨r.session.dice, r.session.cache, .empty, r.session.desk.journal⟩ _ ⟨journal, rfl⟩ with
    ⟨hresult, hnext⟩
  refine ⟨hresult, fun x hx => ?_⟩
  rcases hnext x hx with ⟨journal', hstate⟩
  refine ⟨_, ?_, journal', rfl⟩
  simp only [evaluating, Act.zoom, Act.run] at hstate ⊢
  rw [hstate]

end Expansion

end TabletopChat
