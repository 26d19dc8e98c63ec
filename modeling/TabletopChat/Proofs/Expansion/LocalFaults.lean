import TabletopChat.Prompt.Script
import TabletopChat.Proofs.Evaluation.CallLimit
import TabletopChat.Proofs.Expansion.Returning

/-!
# Proofs/Expansion/LocalFaults — what is wrong with a message stays where it is

A message has a result, whatever is wrong in it, and the result says of each stage what stands in place of
what. Only a host that limits how deep calls are nested can stop it, at arithmetic that is nested deeper.

- `Setup.within`           : a setup for a host with a limit
- `expandMessage_refines`  : such a limit changes no result
- `message_returns`        : messages without null characters, with dice that never run out
- `deep_arithmetic_stops`  : arithmetic that is nested too deep for a host
-/

namespace TabletopChat

namespace Expansion

open Library Prompt Act

variable {σ : Type}

/-! ## Hosts with a limit -/

/-- The same setup for a host that allows only so many calls to be open at once. -/
def Setup.within (calls : Option Nat) (setup : Setup σ) : Setup σ :=
  { setup with roller := setup.roller.within calls }

theorem Setup.within_none {setup : Setup σ} (h : setup.roller.calls = none) : setup.within none = setup := by
  rcases setup with ⟨answerer, roller, library, hooks, inlineMath⟩
  cases roller <;> cases h <;> rfl

/-- The stages before the rolls calculate nothing. -/
theorem expandText_within (calls : Option Nat) (setup : Setup σ) (actor : ActorData) (macros : Entries Macro)
    (depth : Nat) : expandText (setup.within calls) actor macros depth = expandText setup actor macros depth := by
  induction depth with
  | zero => rfl
  | succ depth ih =>
      funext t
      rw [expandText, expandText, ih]
      rfl

/-- Only the rolls of a message depend on the limit. -/
theorem expandRun_within (calls : Option Nat) (setup : Setup σ) (actor : ActorData) (tooltips : Bool)
    (message : Text) : expandRun (setup.within calls) actor tooltips message = (do
      let macros := lookup (actorId actor) setup.library
      let t ← callHooks setup actor Hooks.atBegin message
      let t ← expandText setup actor macros macros.length t
      let t ← evaluating (do
        let t ← Evaluation.evaluateRolls ⟨setup.roller.within calls, tooltips, setup.inlineMath⟩ t
        Evaluation.substituteReferences t)
      callHooks setup actor Hooks.atEnd t) := by
  unfold expandRun
  simp only [expandText_within]
  rfl

/-- Each stage ends as it does without a limit, or the rolls need more calls. -/
theorem expandRun_refines (setup : Setup σ) (actor : ActorData) (tooltips : Bool) (message : Text) :
    Refines (fun n => expandRun (setup.within (some n)) actor tooltips message)
      (expandRun (setup.within none) actor tooltips message) := by
  have hrolls (t : Text) := (Evaluation.evaluateRolls_refines setup.roller tooltips setup.inlineMath t).bind
    fun u => .refl (Evaluation.substituteReferences u)
  simp only [expandRun_within]
  refine (Refines.refl _).bind fun t => (Refines.refl _).bind fun t => ?_
  exact ((hrolls t).zoom _ _).bind fun t => .refl _

/-- A message ends as it does without a limit, or calls are nested too deep for the limit. -/
theorem expandMessage_refines {setup : Setup σ} (h : setup.roller.calls = none) (actor : ActorData)
    (tooltips : Bool) (message : Text) :
    Refines (fun n => expandMessage (setup.within (some n)) actor tooltips message)
      (expandMessage setup actor tooltips message) := by
  have hrun := expandRun_refines setup actor tooltips message
  rw [Setup.within_none h] at hrun
  exact hrun.zoom (fun s => ⟨s, [], []⟩) fun r _ => r.session

/-! ## Messages -/

/-- A message without null characters has a result, whatever is wrong in it, as soon as enough dice may be
drawn, and each stage of it is accounted for. A table without weights and a macro that is not known leave
nothing; a roll that cannot be rolled is called invalid, and arithmetic without a value, also because a
number is too large, is replaced by what is said about it; a malformed reference leaves nothing. A host
that limits how many calls are open at once changes nothing about the result, unless the limit is below
some depth and the message stops because its arithmetic is nested deeper. -/
theorem message_returns {setup : Setup σ} (hsetup : setup.Sound) {actor : ActorData}
    (hactor : actor.NulFree) (tooltips : Bool) {message : Text} (h : Text.NulFree message) {s : Session σ}
    (hs : s.Sound) :
    ∃ t s' bound, Accounted setup actor tooltips message t ∧ ∀ l, bound ≤ l →
      (expandMessage setup actor tooltips message).run (s.withLimit l) = (.ok t, Session.withLimit l s') ∧
      ∃ depth, ∀ calls,
        let limited := (expandMessage (setup.within (some calls)) actor tooltips message).run (s.withLimit l)
        limited = (.ok t, Session.withLimit l s') ∨ calls < depth ∧ limited.1 = .error .callsTooDeep := by
  have hrun : Run.Sound [] (⟨s, [], []⟩ : Run σ) :=
    ⟨⟨hs.memory, hs.store, List.forall_mem_nil _⟩, hs.dice, rfl⟩
  obtain ⟨t, r', bound, haccounted, -, hruns⟩ := expandRun_returns hsetup hactor tooltips h _ hrun
  refine ⟨t, r'.session, bound, haccounted, fun l hl => ?_⟩
  -- the session of a run is all that is left of it
  have hresult : (expandMessage setup actor tooltips message).run (s.withLimit l) =
      (.ok t, r'.session.withLimit l) := by
    have hstep : expandRun setup actor tooltips message ⟨s.withLimit l, [], []⟩ = (.ok t, r'.withLimit l) :=
      hruns l hl
    simp only [expandMessage, inSession, Act.run, Act.zoom, hstep]
    rfl
  have hcalls : setup.roller.calls = none := by rw [hsetup.roller]; rfl
  obtain ⟨depth, hdepth⟩ := expandMessage_refines hcalls actor tooltips message (s.withLimit l)
  rw [hresult] at hdepth
  exact ⟨hresult, depth, hdepth⟩

/-- A message with a prompt, a roll, a division by zero, a number that is too large, a die without faces, a
table without weights, a macro that is not known, and a reference to a group of dice that was not rolled. -/
def faulty : Text :=
  ("?\x7bName\x7d [[1d6+2]] [[1/0]] [[9^9^9]] [[1d0]] #\x7btable|empty\x7d #\x7btable|gone\x7d ".toList ++
    "@\x7b1|crit|2|5\x7d".toList)

/-- A setup with one table, in which nothing has a weight, and without prepared answers and handlers. -/
def faultySetup : Setup Unit where
  answerer := (⟨[], []⟩ : Script).answerer
  roller := .shorthand
  library := [⟨"empty".toList, .table, [], [⟨0, "never".toList⟩], .all, none⟩]
  hooks := []
  inlineMath := false

def faultySession : Session Unit := ⟨⟨(), [], ⟨"choices".toList, []⟩, .memory [], []⟩, highest, []⟩

/-- A cancelled prompt, a division by zero, a number that is too large, dice without faces, a table without
weights, an unknown table and a reference that is out of range. -/
theorem message_returns_faulty :
    ∃ t s' bound, Accounted faultySetup none false faulty t ∧ ∀ l, bound ≤ l →
      (expandMessage faultySetup none false faulty).run (faultySession.withLimit l) =
        (.ok t, Session.withLimit l s') ∧
      ∃ depth, ∀ calls,
        let limited :=
          (expandMessage (faultySetup.within (some calls)) none false faulty).run (faultySession.withLimit l)
        limited = (.ok t, Session.withLimit l s') ∨ calls < depth ∧ limited.1 = .error .callsTooDeep := by
  have hsetup : faultySetup.Sound := {
    roller := rfl
    faithful := Script.answerer_faithful _
    answers := by
      intro query fallback s t _ hfallback ht
      cases ht
      exact hfallback
    hooks := List.forall_mem_nil _
    library := by
      refine List.forall_mem_singleton.2 ⟨Text.nulFree_nil, List.forall_mem_singleton.2 ?_⟩
      exact Text.nulFree_of_ofList rfl (by decide) }
  have hsession : faultySession.Sound := {
    dice := highest_endless
    memory := List.forall_mem_nil _
    store := ⟨[], rfl⟩ }
  have hactor : ActorData.NulFree none := by
    intro data hdata
    cases hdata
  have hmessage : Text.NulFree faulty := by
    unfold Text.NulFree
    decide +kernel
  exact message_returns hsetup hactor false hmessage hsession

/-- A thousand signs in front of a number are a thousand calls that are open at once. A host that allows
no more than that stops at a message that is worth one. -/
theorem deep_arithmetic_stops :
    let message := "[[".toList ++ (List.replicate 1000 '-' ++ "1]]".toList)
    '\x00' ∉ message ∧
      ((expandMessage faultySetup none false message).run faultySession).1.toOption = some "1".toList ∧
      fault? ((expandMessage (faultySetup.within (some 1000)) none false message).run
        faultySession).1 = some .callsTooDeep := by
  decide +kernel

end Expansion

end TabletopChat
