import TabletopChat.Proofs.Evaluation.Cached
import TabletopChat.Proofs.Expansion.Sessions

/-!
# Proofs/Expansion/Cached — dice notation that was read in a session

The cache of a session holds nothing but dice notation that was read, one text after the other, since the
session began: so it is with every call, whatever is nested in its message and wherever it stops. What is
known of rolls after a cache that was filled in this way is therefore known of all rolls of a session.

- `expandRun_keepsCache` : a message
- `cache_reached`        : any number of calls in a session
-/

namespace TabletopChat

namespace Expansion

open Act Library Prompt

variable {σ α β : Type}

/-- An action during a message that fills the cache only by reading texts. -/
def KeepsCache (a : Step σ α) : Prop :=
  Always (fun r r' => r.session.cache.Reached → r'.session.cache.Reached) a

theorem KeepsCache.bind {a : Step σ α} {f : α → Step σ β} (ha : KeepsCache a)
    (hf : ∀ x, KeepsCache (f x)) : KeepsCache (a >>= f) := by
  refine Always.bind (fun hrs hst => ?_) ha hf
  intro hr
  exact hst (hrs hr)

theorem KeepsCache.of_eq {a : Step σ α} (h : ∀ r, (a.run r).2.session.cache = r.session.cache) :
    KeepsCache a := by
  intro r hr
  rwa [h r]

theorem keepsCache_pure (x : α) : KeepsCache (pure x : Step σ α) := .of_eq fun _ => rfl

theorem asking_keepsCache (a : Asking σ α) : KeepsCache (asking a) := .of_eq fun _ => rfl

theorem rolling_keepsCache (a : Act Abort Dice α) : KeepsCache (rolling a : Step σ α) :=
  .of_eq fun _ => rfl

theorem evaluating_keepsCache {a : Evaluation.Step α} (h : Evaluation.KeepsCache a) :
    KeepsCache (evaluating a : Step σ α) :=
  fun r hr => h ⟨r.session.dice, r.session.cache, .empty, r.session.desk.journal⟩ hr

/-- Before the rolls are evaluated, nothing is read as dice notation at all. -/
theorem staged_keepsCache : Staged (σ := σ) fun a => KeepsCache a where
  pure x := keepsCache_pure x
  bind ha hf := ha.bind hf
  stop _ := .of_eq fun _ => rfl
  say _ := .of_eq fun _ => rfl
  hosting _ := .of_eq fun _ => rfl
  attempt _ := .of_eq fun _ => rfl
  isNested _ := .of_eq fun _ => rfl
  within tag h := fun r hr => h { r with nested := tag :: r.nested } hr

theorem prepare_keepsCache (setup : Setup σ) (actor : ActorData) (t : Text) :
    KeepsCache (prepare setup actor t) := by
  refine (asking_keepsCache _).bind fun u => KeepsCache.bind (.of_eq fun _ => rfl) fun r => ?_
  exact (staged_keepsCache.callHooks setup actor _ _).bind fun v => keepsCache_pure _

/-- Expanding a text keeps the cache a reached one. -/
theorem expandText_keepsCache (setup : Setup σ) (actor : ActorData) (macros : Entries Macro)
    (depth : Nat) (t : Text) : KeepsCache (expandText setup actor macros depth t) := by
  induction depth generalizing t with
  | zero =>
      refine (prepare_keepsCache setup actor t).bind fun u => ?_
      exact staged_keepsCache.expandPieces (fun _ => keepsCache_pure _) _
  | succ depth ih =>
      refine (prepare_keepsCache setup actor t).bind fun u => ?_
      exact staged_keepsCache.expandPieces ih _

/-- A message fills the cache by reading texts only. -/
theorem expandRun_keepsCache (setup : Setup σ) (actor : ActorData) (tooltips : Bool) (message : Text) :
    KeepsCache (expandRun setup actor tooltips message) := by
  have hrolls (t : Text) := evaluating_keepsCache (σ := σ)
    ((Evaluation.evaluateRolls_keepsCache ⟨setup.roller, tooltips, setup.inlineMath⟩ t).bind
      Evaluation.substituteReferences_keepsCache)
  refine (staged_keepsCache.callHooks setup actor _ _).bind fun t => ?_
  refine (expandText_keepsCache setup actor _ _ t).bind fun t => (hrolls t).bind fun t => ?_
  exact staged_keepsCache.callHooks setup actor _ _

theorem macroText_keepsCache (m : Macro) : KeepsCache (macroText m : Step σ Text) := by
  unfold macroText
  split
  · exact (rolling_keepsCache _).bind fun _ => keepsCache_pure _
  · exact keepsCache_pure _

/-! ## Sessions -/

/-- Every call keeps the cache a reached one. -/
theorem Call.act_cache (setup : Setup σ) (c : Call) :
    Always (fun s s' => s.cache.Reached → s'.cache.Reached) (c.act setup) := by
  intro s hs
  cases c with
  | message actor tooltips t => exact expandRun_keepsCache setup actor tooltips t ⟨s, [], []⟩ hs
  | stored actor tooltips m =>
      have hmacro := (macroText_keepsCache m).bind fun t => expandRun_keepsCache setup actor tooltips t
      exact hmacro ⟨s, [], [m.tag]⟩ hs

/-- And so do several calls, one after the other. -/
theorem actAll_cache (setup : Setup σ) (cs : List Call) :
    Always (fun s s' => s.cache.Reached → s'.cache.Reached) (actAll (Call.act setup) cs) := by
  induction cs with
  | nil => exact fun _ hs => hs
  | cons c cs ih =>
      have htrans {s t u : Session σ} (h : s.cache.Reached → t.cache.Reached)
          (h' : t.cache.Reached → u.cache.Reached) (hs : s.cache.Reached) : u.cache.Reached := h' (h hs)
      refine Always.bind htrans (Call.act_cache setup c) fun t => ?_
      exact Always.bind htrans ih fun _ _ hs => hs

/-- After any calls in a session, the cache is one that reading texts leads to. -/
theorem cache_reached {answerer : σ} {dice : Dice} {place : Text} {store : Store} {s : Session σ}
    (hs : Session.start answerer dice place store = .ok s) (setup : Setup σ) (cs : List Call) :
    ((actAll (Call.act setup) cs).run s).2.cache.Reached := by
  refine actAll_cache setup cs s ?_
  unfold Session.start at hs
  split at hs <;> cases hs
  exact .empty

end Expansion

end TabletopChat
