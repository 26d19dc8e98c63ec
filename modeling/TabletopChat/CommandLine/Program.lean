import TabletopChat.Actor.Reader
import TabletopChat.CommandLine.Help
import TabletopChat.CommandLine.Options
import TabletopChat.Expansion.Expand
import TabletopChat.Library.Reader
import TabletopChat.Markup.Excerpt
import TabletopChat.Markup.Outline
import TabletopChat.Prompt.Terminal

/-!
# CommandLine/Program — a whole run of the program

- `Request` : what a run starts from
- `Outcome` : what it leaves behind
- `Failure` : why it ends without an outcome
- `run`     : a run
-/

namespace TabletopChat

namespace CommandLine

/-! ## Requests and outcomes -/

/-- What a run starts from: the command line, the files, the input, and the dice. -/
structure Request where
  arguments : List Text
  files : Files
  input : Text
  dice : Dice

/-- What a run leaves behind: a code, what it writes, what it says meanwhile, the files, and the input
that it did not read. -/
structure Outcome where
  code : Nat
  output : Text
  said : Text
  files : Files
  input : Text

/-- Why a run ends without an outcome. -/
inductive Failure
  /-- a file that is needed is no text -/
  | undecodable
  /-- an integer in the configuration has too many digits -/
  | numeralTooLong
  /-- the expansion stops -/
  | stopped (e : Abort)
  /-- the library has a form that is not foreseen -/
  | library (f : Library.Fault)
  /-- the output cannot be written -/
  | output (f : Files.Fault)
  deriving DecidableEq, Repr

def refusal (r : Request) (why : Text) : Outcome :=
  ⟨refusalCode, [], "error: ".toList ++ why ++ ['\n'], r.files, []⟩

def faultCode : Nat := 1

/-! ## Reading -/

/-- Why something cannot be read: the run refuses, or it ends without an outcome. -/
inductive Obstacle
  | refused (why : Text)
  | failed (f : Failure)

def about (p : Path) (why : String) : Text := p.toText ++ ": ".toList ++ why.toList

def contentAt (p : Path) (fs : Files) : Except Obstacle Content :=
  match fs.look p with
  | .file c => .ok c
  | .directory => .error (.refused (about p "is a directory"))
  | .nothing => .error (.refused (about p "no such file"))

def readSource (o : Options) (fs : Files) (input : Text) : Except Obstacle (Text × Text) :=
  match o.message, o.input with
  | some t, _ => .ok (t, input)
  | none, none => .ok (input, [])
  | none, some p => do
    match ← contentAt p fs with
    | .text t => .ok (Text.unifyLineEnds t, input)
    | .undecodable => .error (.failed .undecodable)

def readLibrary (o : Options) (fs : Files) : Except Obstacle Library.Macros :=
  match o.library with
  | none => .ok []
  | some p => do
    match ← contentAt p fs with
    | .undecodable => .error (.refused (about p "no text"))
    | .text t =>
      match Library.read t with
      | .ok macros => .ok macros
      | .error .malformed => .error (.refused (about p "no JSON"))
      | .error .numeralTooLong => .error (.refused (about p "integer with too many digits"))
      | .error .noList => .error (.refused (Library.noListMessage p.toText))
      | .error .noLabel => .error (.refused (about p "macro without a label"))
      | .error .noInteger => .error (.refused (about p "weight is no integer"))
      | .error fault => .error (.failed (.library fault))

def readActor (o : Options) (fs : Files) : Except Obstacle Expansion.ActorData :=
  match o.actor with
  | none => .ok none
  | some p => do
    match ← contentAt p fs with
    | .undecodable => .error (.refused (about p "no text"))
    | .text t =>
      match Actor.read t with
      | .ok data => .ok (some data)
      | .error .malformed => .error (.refused (about p "no JSON"))
      | .error .numeralTooLong => .error (.refused (about p "integer with too many digits"))
      | .error .noObject => .error (.refused (Actor.noObjectMessage p.toText))

def storeBefore (o : Options) (fs : Files) : Store :=
  match o.store with
  | none => .memory []
  | some p =>
    let content := match fs.look p with
      | .file c => some c
      | _ => none
    .file ⟨p.toText, content, (fs.placeToMake? p).isSome⟩

def filesAfter (o : Options) (store : Store) (fs : Files) : Files :=
  match o.store, store with
  | some p, .file f =>
    match fs.placeToMake? p, f.content with
    | some place, some c => fs.put place c
    | _, _ => fs
  | _, _ => fs

/-! ## Running -/

def stopMessage? : Abort → Option Text
  | .nullCharacter => some "null character in an expression".toList
  | .numeralTooLong => some "integer with too many digits".toList
  | .notWritable => some "store cannot be written".toList
  | _ => none

/-- What stands in the way if an expansion stops. -/
def obstacleOf (e : Abort) : Obstacle :=
  match stopMessage? e with
  | some why => .refused why
  | none => .failed (.stopped e)

def expand (o : Options) (r : Request) (source input : Text) :
    Except Obstacle (Text × Expansion.Session Text) := do
  let library ← readLibrary o r.files
  let actor ← readActor o r.files
  let setup : Expansion.Setup Text := ⟨Prompt.terminal, o.roller.roller, library, [], o.inlineMath⟩
  match Expansion.Session.start input r.dice o.place (storeBefore o r.files) with
  | .error e => .error (obstacleOf e)
  | .ok s =>
    match (Expansion.expandMessage setup actor o.tooltips source).run s with
    | (.ok t, s) => .ok (t, s)
    | (.error e, _) => .error (obstacleOf e)

/-- The outcome after a source was expanded; `said` was said before. -/
def deliver (o : Options) (r : Request) (said : Text) (text : Text) (s : Expansion.Session Text) :
    Except Failure Outcome :=
  let said := said ++ s.desk.journal.render o.verbose
  let files := filesAfter o s.desk.store r.files
  match o.output with
  | none => .ok ⟨0, text, said, files, s.desk.answerer⟩
  | some p =>
    match files.write p (.text text) with
    | .ok files => .ok ⟨0, [], said, files, s.desk.answerer⟩
    | .error fault => .error (.output fault)

/-- The tree of a source, which has to be free of faults if the run is to check it. -/
def readTree (o : Options) (source : Text) : Except Markup.Fault Markup.Message :=
  if o.check then Markup.parseStrict o.inlineMath source
  else .ok (Markup.parse o.inlineMath source)

def meet (r : Request) : Obstacle → Except Failure Outcome
  | .refused why => .ok (refusal r why)
  | .failed f => .error f

def runWith (o : Options) (r : Request) : Except Failure Outcome :=
  match readSource o r.files (Text.unifyLineEnds r.input) with
  | .error obstacle => meet r obstacle
  | .ok (source, input) =>
    match readTree o source with
    | .error fault =>
      .ok ⟨faultCode, [], fault.report o.sourceName source ++ ['\n'], r.files, input⟩
    | .ok tree =>
      let said := if o.debug then tree.outline else []
      if o.check then .ok ⟨0, [], said, r.files, input⟩
      else
        match expand o r source input with
        | .error obstacle => meet r obstacle
        | .ok (text, s) => deliver o r said text s

def endEarly (r : Request) (code : Nat) : Outcome :=
  if code = helpCode then ⟨code, help, [], r.files, r.input⟩
  else { refusal r "cannot read the command line".toList with code := code }

def run (r : Request) : Except Failure Outcome :=
  match Arguments.ofList r.arguments with
  | .error code => .ok (endEarly r code)
  | .ok a =>
    match Options.resolve a r.files with
    | .ok o => runWith o r
    | .error .undecodable => .error .undecodable
    | .error .numeralTooLong => .error .numeralTooLong
    | .error fault => .ok (refusal r fault.message)

end CommandLine

end TabletopChat
