import TabletopChat.Evaluation.Evaluate
import TabletopChat.Expansion.Hooks
import TabletopChat.Library.Lookup
import TabletopChat.Prompt.Resolve

/-!
# Expansion/Session — what messages share, and what belongs to one

- `Setup`   : what an expansion depends on
- `Session` : what outlives a message
- `Run`     : a session during one message
- `Step`    : an action during one message
-/

namespace TabletopChat

namespace Expansion

open Prompt

variable {σ α : Type}

/-- What an expansion depends on. -/
structure Setup (σ : Type) where
  answerer : Answerer σ
  roller : Evaluation.Roller
  library : Library.Macros
  hooks : Hooks σ
  inlineMath : Bool

/-- What outlives a message: the prompts' desk, the dice, and the dice notation that was read. -/
structure Session (σ : Type) where
  desk : Desk σ
  dice : Dice
  cache : Notation.Cache

/-- A session at its beginning, with the choices that are remembered in a section of a store. -/
def Session.start (answerer : σ) (dice : Dice) (place : Text) (store : Store) :
    Except Abort (Session σ) :=
  match Memory.load place store with
  | .ok (memory, remarks) => .ok ⟨⟨answerer, [], memory, store, remarks⟩, dice, []⟩
  | .error e => .error e

/-- A session during one message: the answers that were given for it, and the tags of the macros that
are being expanded, the innermost first. -/
structure Run (σ : Type) where
  session : Session σ
  selections : Selections
  nested : List Text

/-- An action during one message. -/
abbrev Step (σ : Type) := Act Abort (Run σ)

def asking (a : Asking σ α) : Step σ α :=
  Act.zoom (fun r => ⟨r.session.desk, r.selections⟩)
    (fun (i : Interview σ) r =>
      { r with session := { r.session with desk := i.desk }, selections := i.selections }) a

def rolling (a : Act Abort Dice α) : Step σ α :=
  Act.zoom (fun r => r.session.dice) (fun d r => { r with session := { r.session with dice := d } }) a

/-- Evaluating rolls as a part of a run, where no results are known at first. -/
def evaluating (a : Evaluation.Step α) : Step σ α :=
  Act.zoom
    (fun r => ⟨r.session.dice, r.session.cache, .empty, r.session.desk.journal⟩)
    (fun (s : Evaluation.State) r =>
      { r with session := {
        desk := { r.session.desk with journal := s.journal }
        dice := s.dice
        cache := s.cache } }) a

def say (entries : Journal) : Step σ Unit := asking (Prompt.say entries)

def hosting (f : σ → α × σ) : Step σ α :=
  Act.zoom (fun r => r.session.desk.answerer)
    (fun s r => { r with session := { r.session with desk := { r.session.desk with answerer := s } } })
    fun s => ((.ok (f s).1 : Except Abort α), (f s).2)

def isNested (tag : Text) : Step σ Bool := fun r => (.ok (decide (tag ∈ r.nested)), r)

/-- An action during the expansion of the macro with a tag, which ends with the action, whether it has
a result or stops. -/
def within (tag : Text) (a : Step σ α) : Step σ α := fun r =>
  match a { r with nested := tag :: r.nested } with
  | (result, r') => (result, { r' with nested := r'.nested.tail })

end Expansion

end TabletopChat
