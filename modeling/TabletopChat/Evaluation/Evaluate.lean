import TabletopChat.Dice.Notation.Roll
import TabletopChat.Dice.Shorthand
import TabletopChat.Evaluation.Reference
import TabletopChat.Markup.Parser
import TabletopChat.Markup.Tooltip

/-!
# Evaluation — rolls and inline math in a message

The rolls of a message are evaluated from the inside out and from left to right. The results of inner
rolls become part of the expression around them.

- `Settings`, `State` : what an evaluation depends on, and what it changes
- `interpret`         : one expression without rolls inside of it
- `evaluateNode`      : a roll with all rolls inside of it
- `evaluateRolls`     : a whole message
-/

namespace TabletopChat

namespace Evaluation

open Markup

/-! ## Settings and state -/

/-- How rolls are read, and how many calls may be open at once while arithmetic is evaluated, if the host
has a limit for them. -/
inductive Roller
  | shorthand (calls : Option Nat := none)
  | extended (calls : Option Nat := none)
  deriving DecidableEq, Repr

def Roller.calls : Roller → Option Nat
  | .shorthand calls => calls
  | .extended calls => calls

def Roller.within (calls : Option Nat) : Roller → Roller
  | .shorthand _ => .shorthand calls
  | .extended _ => .extended calls

/-- What an evaluation depends on. -/
structure Settings where
  roller : Roller
  tooltips : Bool
  inlineMath : Bool
  deriving Repr

/-- What an evaluation changes: the dice, the dice notation that was read, the results, and what is
said. -/
structure State where
  dice : Dice
  cache : Notation.Cache
  records : Records
  journal : Journal

def State.warn (message : Text) (s : State) : State :=
  { s with journal := s.journal.warn .evaluation message }

/-- An action during an evaluation. -/
abbrev Step := Act Abort State

/-! ## Expressions -/

/-- The kind of an expression: a roll, inline math, or a kind that is not evaluated. -/
inductive LeafKind
  | node (kind : Kind)
  | other
  deriving DecidableEq, Repr

/-- An expression without the name in front of it, and the name. -/
def explicitName (expression : Text) : Option Text × Text :=
  match expression with
  | '@' :: t =>
    match Text.cutAt ':' t with
    | (c :: cs, some rest) => (some (c :: cs), rest)
    | _ => (none, expression)
  | _ => (none, expression)

def chooseName : Option Text → Step Text
  | some name => pure name
  | none => fun s =>
    let (name, records) := s.records.nextName
    (.ok name, { s with records := records })

def arithmetic (expression : Text) (calls : Option Nat := none) : Step Text := do
  Act.ensure (Arithmetic.affordable calls expression) .callsTooDeep
  match Arithmetic.outcome expression with
  | .number v => pure v.display
  | .fault why => do
    Act.modify (State.warn (Shorthand.valueRemark expression why))
    pure why
  | .unreadable => Act.stop .nullCharacter

/-- Without a limit for calls nothing but a null character is in the way of a text. -/
theorem arithmetic_unlimited (expression : Text) : arithmetic expression =
    match Arithmetic.outcome expression with
    | .number v => pure v.display
    | .fault why => do
      Act.modify (State.warn (Shorthand.valueRemark expression why))
      pure why
    | .unreadable => Act.stop .nullCharacter := rfl

def rollShorthand (expression : Text) (calls : Option Nat := none) : Step Record := do
  let r ← (Shorthand.roll expression calls).zoom State.dice fun d s => { s with dice := d }
  if let some w := r.warning then
    Act.modify fun s => { s with journal := s.journal.warn .dice w }
  pure ⟨r.text, r.groups⟩

/-- Rolls an expression in dice notation, and stops only for reasons that are not the expression's. -/
def rollNotation (expression : Text) : Step (Except Notation.Fault Notation.Outcome) := fun s =>
  let (r, t) := (Notation.roll expression).run ⟨s.dice, s.cache⟩
  let s := { s with dice := t.dice, cache := t.cache }
  match r with
  | .ok o => (.ok (.ok o), s)
  | .error (.fault f) => (.ok (.error f), s)
  | .error (.abort e) => (.error e, s)

def evaluateNotation (expression : Text) (calls : Option Nat := none) : Step Record := do
  match ← rollNotation expression with
  | .ok o => do
    let result ← arithmetic (Notation.arithmeticOf o.terms) calls
    pure ⟨result, Notation.groupsOf o.terms⟩
  | .error f => do
    Act.modify (State.warn (Shorthand.invalidRemark expression (some f.message)))
    pure ⟨Shorthand.invalidDice, []⟩

def produce (roller : Roller) (expression : Text) : Kind → Step Record
  | .math => do
    let result ← arithmetic expression roller.calls
    pure ⟨result, []⟩
  | .roll =>
    match roller with
    | .shorthand calls => rollShorthand expression calls
    | .extended calls => evaluateNotation expression calls

def resultRemark (kind : Kind) (name expression result : Text) : Text :=
  kind.name ++ " node ".toList ++ name ++ ": ".toList ++ Text.quoted expression ++
    " -> ".toList ++ result

def record (kind : Kind) (name expression : Text) (rec : Record) : Step Unit :=
  Act.modify fun s =>
    { s with
      records := s.records.insert name rec
      journal := s.journal.detail .evaluation (resultRemark kind name expression rec.result) }

/-- Evaluates an expression and writes its result down. A blank expression has no result; one of
another kind is its own result and is not written down, but takes a name. -/
def interpret (roller : Roller) (kind : LeafKind) (source : Text) : Step Text :=
  let (explicit, expression) := explicitName source
  if Text.allBlank expression then pure []
  else do
    let name ← chooseName explicit
    match kind with
    | .other => pure expression
    | .node kind => do
      let rec ← produce roller expression kind
      record kind name expression rec
      pure rec.result

/-! ## Messages -/

mutual

/-- Evaluates a roll: first the rolls inside of it, then the expression they are part of. A text is
itself. -/
def evaluateNode (roller : Roller) : Node → Step Text
  | .text t _ => pure t
  | .roll kind _ children _ => do
    let expression ← evaluateNodes roller children
    interpret roller (.node kind) expression

def evaluateNodes (roller : Roller) : List Node → Step Text
  | [] => pure []
  | n :: ns => do
    let t ← evaluateNode roller n
    let ts ← evaluateNodes roller ns
    pure (t ++ ts)

end

/-- A result with a tooltip, unless it is empty. -/
def decorate (tooltips : Bool) (node : Node) (value : Text) : Text :=
  match node with
  | .text _ _ => value
  | .roll _ _ children _ =>
    if tooltips && !value.isEmpty then tooltip (tooltipOf children) value else value

def evaluateTop (roller : Roller) (tooltips : Bool) : List Node → Step Text
  | [] => pure []
  | n :: ns => do
    let t ← evaluateNode roller n
    let ts ← evaluateTop roller tooltips ns
    pure (decorate tooltips n t ++ ts)

def isCommand (message : Text) : Bool := message.head? = some '/'

/-- A message with all rolls and inline math replaced by their results. The results of a command get no
tooltips. -/
def evaluateRolls (settings : Settings) (message : Text) : Step Text :=
  evaluateTop settings.roller (settings.tooltips && !isCommand message)
    (parse settings.inlineMath message).children

def substituteReferences (message : Text) : Step Text := fun s =>
  (.ok (substitute message s.records),
    { s with journal := unresolved message s.records ++ s.journal })

end Evaluation

end TabletopChat
