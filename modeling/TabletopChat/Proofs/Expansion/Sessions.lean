import TabletopChat.Proofs.Store.Saved
import TabletopChat.Proofs.Expansion.Stages

/-!
# Proofs/Expansion/Sessions — a session that lasts is like a session for each message

Between two messages a session remembers choices, and nothing else that is not outside of it as well.
When a message has been expanded, what is remembered is what is stored; so a new session over the same
store begins where the last one ended.

- `Host`, `afresh`    : what sessions share, and an action in a session of its own
- `Call`, `actAll`    : messages and stored macros one after the other
- `Leads`             : what is remembered and stored before and after an action
- `Call.act_inStore`  : after a message, all that is remembered is stored
- `lasting_session_agrees` : one session for all messages, and one for each
-/

namespace TabletopChat

/-! ## What is remembered and stored -/

namespace Prompt

open Act

variable {σ α : Type}

/-- What is remembered comes from a section of the store and can be written. -/
def Memory.Fits (place : Text) (m : Memory) : Prop := m.place = place ∧ m.Readable

/-- What is remembered is what would be loaded from the store, and nothing would be said about it. -/
def Memory.InStore (place : Text) (m : Memory) (s : Store) : Prop := Memory.load place s = .ok (m, [])

theorem Memory.InStore.fits {place : Text} {m : Memory} {s : Store} (h : m.InStore place s) :
    m.Fits place := readable_of_load h

/-- Making choices keeps what is remembered writable. -/
theorem steady_fits (place : Text) :
    Steady fun i j : Interview σ => i.desk.memory.Fits place → j.desk.memory.Fits place where
  refl _ := id
  trans h h' := fun hi => h' (h hi)
  say _ := fun _ => id
  select _ _ := fun _ => id
  change {f} hf := by
    intro i hi
    simp only [change, Act.run]
    cases hm : f i.desk.memory with
    | error e => exact hi
    | ok m =>
      exact ⟨(hf.place_eq hm).trans hi.1, hi.2.changes hf hm⟩

theorem asked_fits (place : Text) :
    Steady.Asked fun i j : Interview σ => i.desk.memory.Fits place → j.desk.memory.Fits place :=
  fun _ _ _ => id

/-- What was saved is in the store. -/
theorem save_inStore {place : Text} {i j : Interview σ} (hi : i.desk.memory.Fits place)
    (h : (save : Asking σ Unit).run i = (.ok (), j)) : j.desk.memory.InStore place j.desk.store := by
  rcases exists_of_run_bind h with ⟨_, _, hget, h⟩
  cases hget
  rcases exists_of_run_bind h with ⟨_, k, hsay, h⟩
  cases hsay
  split at h
  · rename_i store hstore
    cases h
    have hload := Memory.load_of_save? hi.2 hstore
    rwa [hi.1] at hload
  · cases h

/-- When the tags of a text have been answered, what is remembered is in the store. -/
theorem resolve_inStore {place : Text} {a : Answerer σ} {t u : Text} {i j : Interview σ}
    (hi : i.desk.memory.Fits place) (h : (resolve a t).run i = (.ok u, j)) :
    j.desk.memory.InStore place j.desk.store := by
  rcases exists_of_run_bind h with ⟨v, k, hresolve, h⟩
  rcases exists_of_run_bind h with ⟨_, l, hsave, h⟩
  cases h
  have hfits := (steady_fits place).resolveFrom (asked_fits place) a answerLimit [] t i hi
  rw [hresolve] at hfits
  exact save_inStore hfits hsave

end Prompt

namespace Expansion

open Act Prompt Library

variable {σ α β : Type}

/-! ## Actions during a message -/

/-- What holds for the memory and the store before and after an action that has a result. -/
def Leads (P Q : Memory → Store → Prop) (a : Step σ α) : Prop :=
  ∀ r x r', P r.session.desk.memory r.session.desk.store → a.run r = (.ok x, r') →
    Q r'.session.desk.memory r'.session.desk.store

theorem Leads.bind {P Q R : Memory → Store → Prop} {a : Step σ α} {f : α → Step σ β}
    (ha : Leads P Q a) (hf : ∀ x, Leads Q R (f x)) : Leads P R (a >>= f) := by
  intro r y r' hr h
  rcases exists_of_run_bind h with ⟨x, s, hx, h⟩
  exact hf x s y r' (ha r x s hr hx) h

theorem Leads.of_imp {P P' Q : Memory → Store → Prop} {a : Step σ α} (h : Leads P Q a)
    (hP : ∀ m s, P' m s → P m s) : Leads P' Q a :=
  fun r x r' hr => h r x r' (hP _ _ hr)

def Idle (a : Step σ α) : Prop :=
  ∀ r, (a.run r).2.session.desk.memory = r.session.desk.memory ∧
    (a.run r).2.session.desk.store = r.session.desk.store

theorem Idle.leads {a : Step σ α} (h : Idle a) (P : Memory → Store → Prop) : Leads P P a := by
  intro r x r' hr hrun
  have hsame := h r
  rw [hrun] at hsame
  rwa [hsame.1, hsame.2]

theorem idle_pure (x : α) : Idle (pure x : Step σ α) := fun _ => ⟨rfl, rfl⟩

theorem idle_say (entries : Journal) : Idle (say entries : Step σ Unit) := fun _ => ⟨rfl, rfl⟩

theorem idle_hosting (f : σ → α × σ) : Idle (hosting f) := fun _ => ⟨rfl, rfl⟩

theorem idle_rolling (a : Act Abort Dice α) : Idle (rolling a : Step σ α) := fun _ => ⟨rfl, rfl⟩

theorem idle_evaluating (a : Evaluation.Step α) : Idle (evaluating a : Step σ α) :=
  fun _ => ⟨rfl, rfl⟩

/-- What holds for the memory and the store is kept by the steps of expanding a text that answer no
prompts. -/
theorem staged_leads (P : Memory → Store → Prop) : Staged (σ := σ) fun a => Leads P P a where
  pure x := (idle_pure x).leads P
  bind ha hf := ha.bind hf
  stop _ := fun _ _ _ _ h => nomatch h
  say entries := (idle_say entries).leads P
  hosting f := (idle_hosting f).leads P
  attempt a := by
    have hattempt : Idle (Act.attempt (rolling a) : Step σ (Except Abort Text)) :=
      fun r => idle_rolling a r
    exact hattempt.leads P
  isNested _ := Idle.leads (fun _ => ⟨rfl, rfl⟩) P
  within {a} tag h := by
    -- the tag that is noted in the meantime is no part of what is remembered
    intro r x r' hr hrun
    rcases hinner : a.run { r with nested := tag :: r.nested } with ⟨result, s⟩
    have hstep : a { r with nested := tag :: r.nested } = (result, s) := hinner
    simp only [within, Act.run, hstep] at hrun
    cases hrun
    exact h { r with nested := tag :: r.nested } x s hr hinner

section Stages

variable (place : Text)

/-- What can be written, before the first tags of a message are answered. -/
abbrev fits : Memory → Store → Prop := fun m _ => m.Fits place

abbrev inStore : Memory → Store → Prop := fun m s => m.InStore place s

/-- After its prompts, what is remembered of a text is in the store. -/
theorem leads_prepare (setup : Setup σ) (actor : ActorData) (t : Text) :
    Leads (fits place) (inStore place) (prepare setup actor t) := by
  have hresolve : Leads (fits place) (inStore place) (asking (resolve setup.answerer t)) := by
    intro r u r' hr h
    rcases hrun : (resolve setup.answerer t).run ⟨r.session.desk, r.selections⟩ with ⟨result, j⟩
    have hstep : resolve setup.answerer t ⟨r.session.desk, r.selections⟩ = (result, j) := hrun
    simp only [asking, Act.run, Act.zoom, hstep] at h
    cases h
    exact resolve_inStore (i := ⟨r.session.desk, r.selections⟩) hr hrun
  have hget : Idle (Act.get : Step σ (Run σ)) := fun _ => ⟨rfl, rfl⟩
  refine hresolve.bind fun u => (hget.leads _).bind fun r => ?_
  exact ((staged_leads _).callHooks setup actor _ _).bind fun v => (idle_pure _).leads _

/-- Before the rolls of a text are evaluated, all that is remembered is in the store, whatever macros
are nested in the text. -/
theorem leads_expandText (setup : Setup σ) (actor : ActorData) (macros : Entries Macro) (depth : Nat)
    (t : Text) : Leads (fits place) (inStore place) (expandText setup actor macros depth t) := by
  induction depth generalizing t with
  | zero =>
    refine (leads_prepare place setup actor t).bind fun u => ?_
    exact (staged_leads _).expandPieces (fun _ => (idle_pure _).leads _) _
  | succ depth ih =>
    refine (leads_prepare place setup actor t).bind fun u => ?_
    exact (staged_leads _).expandPieces (fun v => (ih v).of_imp fun _ _ hm => hm.fits) _

theorem leads_expandRun (setup : Setup σ) (actor : ActorData) (tooltips : Bool) (message : Text) :
    Leads (fits place) (inStore place) (expandRun setup actor tooltips message) :=
  ((staged_leads _).callHooks setup actor _ _).bind fun _ =>
    (leads_expandText place setup actor _ _ _).bind fun _ =>
      ((idle_evaluating _).leads _).bind fun _ => (staged_leads _).callHooks setup actor _ _

theorem leads_macroText (m : Macro) : Leads (fits place) (fits place) (macroText m : Step σ Text) := by
  unfold macroText
  split
  · exact ((idle_rolling _).leads _).bind fun _ => (idle_pure _).leads _
  · exact (idle_pure _).leads _

end Stages

/-! ## Calls -/

/-- A message or a stored macro that is to be expanded. -/
inductive Call
  | message (actor : ActorData) (tooltips : Bool) (text : Text)
  | stored (actor : ActorData) (tooltips : Bool) (m : Macro)

def Call.act (setup : Setup σ) : Call → Act Abort (Session σ) Text
  | .message actor tooltips t => expandMessage setup actor tooltips t
  | .stored actor tooltips m => runMacro setup actor tooltips m

/-- When a call has a result, all that is remembered is in the store. -/
theorem Call.act_inStore {place : Text} {setup : Setup σ} {c : Call} {s s' : Session σ} {t : Text}
    (hs : s.desk.memory.Fits place) (h : (c.act setup).run s = (.ok t, s')) :
    s'.desk.memory.InStore place s'.desk.store := by
  have hsession (nested : List Text) {a : Step σ Text} (ha : Leads (fits place) (inStore place) a)
      (h : (inSession nested a).run s = (.ok t, s')) :
      s'.desk.memory.InStore place s'.desk.store := by
    rcases hrun : a.run ⟨s, [], nested⟩ with ⟨result, r⟩
    have hstep : a ⟨s, [], nested⟩ = (result, r) := hrun
    simp only [inSession, Act.run, Act.zoom, hstep] at h
    cases h
    exact ha ⟨s, [], nested⟩ t r hs hrun
  cases c with
  | message actor tooltips u => exact hsession [] (leads_expandRun place setup actor tooltips u) h
  | stored actor tooltips m =>
    have hmacro := (leads_macroText place m).bind fun u => leads_expandRun place setup actor tooltips u
    exact hsession [m.tag] hmacro h

/-- Calls one after the other, up to the first one that stops. -/
def actAll {τ : Type} (act : Call → Act Abort τ Text) : List Call → Act Abort τ (List Text)
  | [] => pure []
  | c :: cs => do
    let t ← act c
    let ts ← actAll act cs
    pure (t :: ts)

/-! ## Sessions -/

/-- What sessions share: whoever answers questions and the questions that were asked, the store, the
dice, the dice notation that was read, and what was said. -/
structure Host (σ : Type) where
  answerer : σ
  asked : List Question
  store : Store
  dice : Dice
  cache : Notation.Cache
  journal : Journal

def Host.newSession (place : Text) (h : Host σ) : Except Abort (Session σ) :=
  (Session.start h.answerer h.dice place h.store).map fun s =>
    { s with
      desk := { s.desk with asked := h.asked, journal := s.desk.journal ++ h.journal }
      cache := h.cache }

def Session.host (s : Session σ) : Host σ :=
  ⟨s.desk.answerer, s.desk.asked, s.desk.store, s.dice, s.cache, s.desk.journal⟩

def afresh (place : Text) (a : Act Abort (Session σ) α) : Act Abort (Host σ) α := fun h =>
  match h.newSession place with
  | .ok s =>
    let (result, s') := a s
    (result, s'.host)
  | .error e => (.error e, h)

/-- What a new session remembers can be written. -/
theorem newSession_fits {place : Text} {h : Host σ} {s : Session σ}
    (hs : h.newSession place = .ok s) : s.desk.memory.Fits place := by
  unfold Host.newSession Session.start at hs
  cases hload : Memory.load place h.store with
  | error e =>
    rw [hload] at hs
    cases hs
  | ok loaded =>
    rw [hload] at hs
    cases hs
    exact Memory.readable_of_load hload

/-- Where all that is remembered is in the store, a new session is the old one. -/
theorem newSession_host {place : Text} {s : Session σ}
    (hs : s.desk.memory.InStore place s.desk.store) : s.host.newSession place = .ok s := by
  have hload : Memory.load place s.host.store = .ok (s.desk.memory, []) := hs
  unfold Host.newSession Session.start
  rw [hload]
  rfl

section Sequences

variable {place : Text} {setup : Setup σ} {c : Call} {cs : List Call} {h : Host σ} {s : Session σ}

def shared (r : Except Abort α × Session σ) : Except Abort α × Host σ := (r.1, r.2.host)

theorem run_afresh (hs : h.newSession place = .ok s) (a : Act Abort (Session σ) α) :
    (afresh place a).run h = shared (a.run s) := by
  simp only [Act.run, afresh, hs]
  rfl

/-- If the calls behind the first one can be made in sessions of their own, all of them can. -/
theorem actAll_cons (hs : h.newSession place = .ok s)
    (hrest : ∀ s' : Session σ, s'.desk.memory.InStore place s'.desk.store →
      (actAll (fun c => afresh place (c.act setup)) cs).run s'.host =
        shared ((actAll (Call.act setup) cs).run s')) :
    (actAll (fun c => afresh place (c.act setup)) (c :: cs)).run h =
      shared ((actAll (Call.act setup) (c :: cs)).run s) := by
  have hfirst := run_afresh hs (c.act setup)
  rcases hrun : (c.act setup).run s with ⟨result, s'⟩
  rw [hrun] at hfirst
  cases result with
  | error e =>
    have hstop : (afresh place (c.act setup)).run h = (.error e, s'.host) := hfirst
    rw [actAll, actAll, run_bind_of_error hstop, run_bind_of_error hrun]
    rfl
  | ok t =>
    -- the next session begins where this one has come to
    have hgo : (afresh place (c.act setup)).run h = (.ok t, s'.host) := hfirst
    have hnext := hrest s' (Call.act_inStore (newSession_fits hs) hrun)
    rw [actAll, actAll, run_bind_of_ok hgo, run_bind_of_ok hrun, run_bind_pure, run_bind_pure, hnext]
    rfl

/-- From a session whose memory is in the store, calls in sessions of their own are like calls in this
session. -/
theorem actAll_host (cs : List Call) (hs : s.desk.memory.InStore place s.desk.store) :
    (actAll (fun c => afresh place (c.act setup)) cs).run s.host =
      shared ((actAll (Call.act setup) cs).run s) := by
  induction cs generalizing s with
  | nil => rfl
  | cons c cs ih => exact actAll_cons (newSession_host hs) fun s' hs' => ih hs'

end Sequences

/-- One session for all calls gives the same results as a session for each call. Nothing else that is
shared differs either: the questions that were asked, with the choices that were preselected, the dice,
the store, and what was said. This holds up to the first call that stops, and also for it. -/
theorem lasting_session_agrees (setup : Setup σ) (place : Text) (c : Call) (cs : List Call)
    (h : Host σ) :
    (afresh place (actAll (Call.act setup) (c :: cs))).run h =
      (actAll (fun c => afresh place (c.act setup)) (c :: cs)).run h := by
  cases hs : h.newSession place with
  | error e =>
    -- what is stored cannot be read, so that no session begins
    have hstop {β : Type} (a : Act Abort (Session σ) β) : (afresh place a).run h = (.error e, h) := by
      simp only [Act.run, afresh, hs]
    rw [hstop]
    exact (run_bind_of_error (hstop (c.act setup))).symm
  | ok s =>
    rw [run_afresh hs]
    exact (actAll_cons hs fun s' hs' => actAll_host cs hs').symm

end Expansion

end TabletopChat
