import TabletopChat.Actor.Data
import TabletopChat.Expansion.Session

/-!
# Expansion/Expand — whole messages

The stages of a message, in order: prompts, references to answers, data of the actor, macros inside of
it, rolls, references to results. The text of a macro passes through the stages before the rolls on its
own.

- `expandPieces`  : the macros inside of a text
- `expandText`    : the stages before the rolls
- `expandMessage` : all stages
- `runMacro`      : all stages for a stored macro
-/

namespace TabletopChat

namespace Expansion

open Library

variable {σ : Type}

/-! ## Actors -/

/-- The data of the actor for whom a message is expanded, if there is one. -/
abbrev ActorData := Option (Entries Json)

def actorId (actor : ActorData) : Option Text :=
  match actor.bind (Entries.get? "id".toList) with
  | none | some .null => none
  | some v => some v.toText

def actorArgument : ActorData → Json
  | some data => .object data
  | none => .null

def withActorData (actor : ActorData) (t : Text) : Text :=
  match actor with
  | some data => Actor.substitute t (Actor.flatten [] data)
  | none => t

/-! ## Hooks -/

def callHooks (setup : Setup σ) (actor : ActorData) (moment message : Text) : Step σ Text := do
  say (Hooks.remarks moment setup.hooks)
  hosting (Hooks.call moment message [actorArgument actor] setup.hooks)

/-! ## Macros inside of a text -/

/-- An entry of a table inside of a text; a table that has none to give leaves nothing. -/
def rollNested (tag : Text) (table : List TableEntry) : Step σ Text := do
  match ← Act.attempt (rolling (rollTable table)) with
  | .ok t => pure t
  | .error e =>
    match tableFault? e with
    | some why => do
      say (Journal.warn .pipeline (tag ++ ": ".toList ++ why) [])
      pure []
    | none => Act.stop e

/-- What stands in place of the tag of a macro. A macro that is not known, or that is being expanded
already, leaves nothing. -/
def expandInvocation (macros : Entries Macro) (expand : Text → Step σ Text) (i : Invocation) :
    Step σ Text := do
  let nested ← isNested i.tag
  match Entries.get? i.tag macros, nested with
  | some m, false =>
    if m.kind = .custom then within i.tag (expand m.content) else rollNested i.tag m.table
  | _, _ => do
    say (Journal.detail .pipeline ("dropping nested macro ".toList ++ i.tag) [])
    pure []

def expandPieces (macros : Entries Macro) (expand : Text → Step σ Text) :
    List (Piece Invocation) → Step σ Text
  | [] => pure []
  | .plain c :: ps => do
    let rest ← expandPieces macros expand ps
    pure (c :: rest)
  | .tag i _ :: ps => do
    let t ← expandInvocation macros expand i
    let rest ← expandPieces macros expand ps
    pure (t ++ rest)

def prepare (setup : Setup σ) (actor : ActorData) (t : Text) : Step σ Text := do
  let t ← asking (Prompt.resolve setup.answerer t)
  let r ← Act.get
  let t ← callHooks setup actor Hooks.afterPrompts (Prompt.substitute t r.selections)
  pure (withActorData actor t)

/-- The stages of a text before its rolls; macros are nested at most `depth` deep. -/
def expandText (setup : Setup σ) (actor : ActorData) (macros : Entries Macro) :
    Nat → Text → Step σ Text
  | 0, t => do
    let t ← prepare setup actor t
    expandPieces macros (fun _ => pure []) (Text.tagPieces invocation? t)
  | depth + 1, t => do
    let t ← prepare setup actor t
    expandPieces macros (expandText setup actor macros depth) (Text.tagPieces invocation? t)

/-! ## Messages -/

/-- All stages of a message. A macro is never expanded inside of itself, so macros are nested at most
as deep as there are macros. -/
def expandRun (setup : Setup σ) (actor : ActorData) (tooltips : Bool) (message : Text) :
    Step σ Text := do
  let macros := lookup (actorId actor) setup.library
  let t ← callHooks setup actor Hooks.atBegin message
  let t ← expandText setup actor macros macros.length t
  let t ← evaluating (do
    let t ← Evaluation.evaluateRolls ⟨setup.roller, tooltips, setup.inlineMath⟩ t
    Evaluation.substituteReferences t)
  callHooks setup actor Hooks.atEnd t

def inSession {α : Type} (nested : List Text) (a : Step σ α) : Act Abort (Session σ) α :=
  Act.zoom (fun s => ⟨s, [], nested⟩) (fun (r : Run σ) _ => r.session) a

def expandMessage (setup : Setup σ) (actor : ActorData) (tooltips : Bool) (message : Text) :
    Act Abort (Session σ) Text :=
  inSession [] (expandRun setup actor tooltips message)

def tableText (label entry : Text) : Text :=
  "<strong>".toList ++ label ++ "</strong><br />".toList ++ entry

def macroText (m : Macro) : Step σ Text :=
  if m.kind = .table then do
    let entry ← rolling (rollTable m.table)
    pure (tableText m.label entry)
  else pure m.content

def runMacro (setup : Setup σ) (actor : ActorData) (tooltips : Bool) (m : Macro) :
    Act Abort (Session σ) Text :=
  inSession [m.tag] (do
    let t ← macroText m
    expandRun setup actor tooltips t)

end Expansion

end TabletopChat
