import TabletopChat.Prompt.Answerer
import TabletopChat.Prompt.Memory
import TabletopChat.Prompt.Reference
import TabletopChat.Text.Quoted

/-!
# Prompt/Resolve — questions asked and answered

Tags are answered one after the other, the first one first. An answer takes the place of its tag, where
it may complete or be another tag; so the search starts again at the beginning, unless the answer is the
tag itself. A query is asked once and has the same answer afterwards.

- `Desk`, `Interview` : what answering changes
- `answerTag`         : one tag
- `resolve`           : a whole message
-/

namespace TabletopChat

namespace Prompt

/-! ## State -/

/-- What answering changes and what outlives a message: the state of the answerer, the questions that
were asked, the latest first, the choices that are remembered, where they are stored, and what is
said. -/
structure Desk (σ : Type) where
  answerer : σ
  asked : List Question
  memory : Memory
  store : Store
  journal : Journal

/-- A desk and the answers that were given for one message. -/
structure Interview (σ : Type) where
  desk : Desk σ
  selections : Selections

abbrev Asking (σ : Type) := Act Abort (Interview σ)

variable {σ : Type}

def say (entries : Journal) : Asking σ Unit :=
  Act.modify fun s => { s with desk := { s.desk with journal := entries ++ s.desk.journal } }

def select (name : Text) (parts : List Text) : Asking σ Unit :=
  Act.modify fun s => { s with selections := Entries.insert name parts s.selections }

def consult {α : Type} (f : Memory → Except Abort α) : Asking σ α := fun s =>
  (f s.desk.memory, s)

def change (f : Memory → Except Abort Memory) : Asking σ Unit := fun s =>
  match f s.desk.memory with
  | .ok memory => (.ok (), { s with desk := { s.desk with memory := memory } })
  | .error e => (.error e, s)

def ask {α : Type} (question : Question) (reply : σ → Reply σ α) : Asking σ (Option α) := fun s =>
  let r := reply s.desk.answerer
  let shown : Journal := if r.shown = [] then [] else [.shown r.shown]
  (.ok r.answer, { s with desk := { s.desk with
    answerer := r.next
    asked := question :: s.desk.asked
    journal := shown ++ s.desk.journal } })

/-! ## Texts -/

def askText (a : Answerer σ) (tag : Tag) : Asking σ Text := do
  let answer ← ask (.text tag.query tag.fallback) (a.text tag.query tag.fallback)
  let text := answer.getD []
  select tag.query [text]
  pure text

/-! ## Choices -/

def rememberedName (tag : Tag) (c : Choice) : Text :=
  match tag.kind with
  | .list => "value".toList
  | .checkbox => c.label
  | _ => tag.query

/-- A choice that is selected if its value is the one that is remembered. -/
def preselect (tag : Tag) (m : Memory) (c : Choice) : Except Abort Choice :=
  match m.find tag.source (rememberedName tag c) with
  | .ok (some (.text value)) => .ok { c with selected := decide (value = c.value) }
  | .ok _ => .ok { c with selected := false }
  | .error e => .error e

def preselectAll (tag : Tag) (m : Memory) : List Choice → Except Abort (List Choice)
  | [] => .ok []
  | c :: cs => do
    let d ← preselect tag m c
    let ds ← preselectAll tag m cs
    .ok (d :: ds)

def Choice.parts (c : Choice) : List Text := Text.pieces ',' c.value

def Choice.mainPart (c : Choice) : Text := c.parts.headD []

def chooseNothing (tag : Tag) : Asking σ Text := do
  select tag.query [[]]
  pure []

def chooseOne (tag : Tag) (c : Choice) : Asking σ Text := do
  change (Memory.remember tag.source (rememberedName tag c) c.value)
  select c.label c.parts
  select tag.query [c.mainPart]
  pure c.mainPart

def forgetAll (tag : Tag) : List Choice → Asking σ Unit
  | [] => pure ()
  | c :: cs => do
    change (Memory.forget tag.source (rememberedName tag c))
    forgetAll tag cs

/-- The name under which the parts of a choice can be referred to: its label where several choices may
be made, and the query where they exclude each other. -/
def selectionName (tag : Tag) (c : Choice) : Text :=
  match tag.kind with
  | .checkbox => c.label
  | _ => tag.query

def chooseEach (tag : Tag) : List Choice → Asking σ Unit
  | [] => pure ()
  | c :: cs => do
    select (selectionName tag c) c.parts
    change (Memory.remember tag.source (selectionName tag c) c.value)
    chooseEach tag cs

def chooseMany (tag : Tag) (chosen : List Choice) : Asking σ Text := do
  if tag.kind = .checkbox then forgetAll tag tag.choices
  chooseEach tag chosen
  let joined := Text.joinWith tag.delimiter (chosen.map Choice.mainPart)
  select tag.query [joined]
  pure joined

def choose (tag : Tag) : Option (List Choice) → Asking σ Text
  | none => chooseNothing tag
  | some chosen =>
    match tag.kind, chosen with
    | .list, [] => chooseNothing tag
    | .list, c :: _ => chooseOne tag c
    | _, _ => chooseMany tag chosen

def askChoice (a : Answerer σ) (tag : Tag) : Asking σ Text := do
  let choices ← consult fun m => preselectAll tag m tag.choices
  let chosen ← ask (.choice tag.query tag.kind choices) (a.choice tag.query tag.kind choices)
  choose tag chosen

/-! ## Messages -/

def repeated (tag : Tag) (parts : List Text) : Text :=
  Text.joinWith (if tag.isChoice then tag.delimiter else [',']) parts

/-- Answers a tag: as before if its query has an answer, else by asking. -/
def answerTag (a : Answerer σ) (tag : Tag) : Asking σ Text := do
  let s ← Act.get
  match Entries.get? tag.query s.selections with
  | some parts => pure (repeated tag parts)
  | none => if tag.isChoice then askChoice a tag else askText a tag

def answerRemark (tag : Tag) (answer : Text) : Journal :=
  Journal.detail .prompts ("prompt ".toList ++ Text.quoted tag.query ++ " -> ".toList ++
    Text.quoted answer) []

def answerLimit : Nat := 1000

def limitRemark : Journal :=
  Journal.warn .prompts ("gave up resolving prompts after ".toList ++ Text.ofNat answerLimit ++
    " substitutions".toList) []

/-- Answers at most `fuel` tags of `rest`, which follows `done`, where no tag is to be answered. -/
def resolveFrom (a : Answerer σ) : Nat → Text → Text → Asking σ Text
  | 0, done, rest => do
    say limitRemark
    pure (done ++ rest)
  | fuel + 1, done, rest =>
    match Tag.first? rest with
    | none => pure (done ++ rest)
    | some (before, tag, after) => do
      let answer ← answerTag a tag
      say (answerRemark tag answer)
      if answer = tag.source then resolveFrom a fuel (done ++ before ++ answer) after
      else resolveFrom a fuel [] (done ++ before ++ answer ++ after)

def save : Asking σ Unit := do
  let s ← Act.get
  say s.desk.store.remarks
  match s.desk.memory.save? s.desk.store with
  | some store => Act.modify fun s => { s with desk := { s.desk with store := store } }
  | none => Act.stop .notWritable

def resolve (a : Answerer σ) (message : Text) : Asking σ Text := do
  let t ← resolveFrom a answerLimit [] message
  save
  pure t

end Prompt

end TabletopChat
