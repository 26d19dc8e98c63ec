import TabletopChat.CommandLine.Words
import TabletopChat.Evaluation.Evaluate

/-!
# CommandLine/Arguments — what the command line says

- `Flag`             : the options of the program
- `Arguments`        : what they say
- `Arguments.ofList` : reading the command line
- `checkerFlags?`    : reading the command line of the checker for documents
-/

namespace TabletopChat

namespace CommandLine

open Evaluation (Roller)

/-! ## Options -/

inductive Flag
  | help
  | message | output | config
  | tooltips | noTooltips | inlineMath
  | engine | seed
  | store | library | actor
  | check | debug | verbose
  deriving DecidableEq, Repr

def Flag.takesValue : Flag → Bool
  | .message | .output | .config | .engine | .seed | .store | .library | .actor => true
  | _ => false

def Flag.names : List (Text × Flag) := [
  ("-h".toList, .help), ("--help".toList, .help),
  ("-m".toList, .message), ("--message".toList, .message),
  ("-o".toList, .output), ("--output".toList, .output),
  ("--config".toList, .config),
  ("--tooltips".toList, .tooltips), ("--no-tooltips".toList, .noTooltips),
  ("--legacy-math".toList, .inlineMath),
  ("--engine".toList, .engine),
  ("--seed".toList, .seed),
  ("--store".toList, .store),
  ("--library".toList, .library),
  ("--actor".toList, .actor),
  ("--check".toList, .check),
  ("--debug".toList, .debug),
  ("-v".toList, .verbose), ("--verbose".toList, .verbose)]

def vocabulary : Vocabulary Flag := ⟨Flag.names, Flag.takesValue⟩

/-! ## Ways to roll -/

inductive Engine
  | shorthand
  | extended
  deriving DecidableEq, Repr

namespace Engine

def name : Engine → Text
  | .extended => "d20".toList
  | .shorthand => "standalone".toList

def named? (name : Text) : Option Engine := [extended, shorthand].find? fun e => decide (e.name = name)

/-- How rolls are read; on a command line calls may be nested as deep as it takes. -/
def roller : Engine → Roller
  | .extended => .extended
  | .shorthand => .shorthand

end Engine

/-! ## Arguments -/

/-- What the command line says; what it does not mention is missing. -/
structure Arguments where
  input : Option Text
  message : Option Text
  output : Option Text
  config : Option Text
  tooltips : Option Bool
  inlineMath : Bool
  roller : Option Engine
  seed : Option Int
  store : Option Text
  library : Option Text
  actor : Option Text
  check : Bool
  debug : Bool
  verbose : Bool
  deriving Repr

def Arguments.empty : Arguments :=
  ⟨none, none, none, none, none, false, none, none, none, none, none, false, false, false⟩

def helpCode : Nat := 0

/-- The code with which the program ends if it cannot do what it is asked to do. -/
def refusalCode : Nat := 2

/-- The name of a file that an option gives; an empty name is none. -/
def fileName (value : Option Text) : Option Text :=
  match value with
  | some (c :: cs) => some (c :: cs)
  | _ => none

/-- What the command line says after one more option, or the code with which the program ends. -/
def Arguments.add (a : Arguments) (s : Setting Flag) : Except Nat Arguments :=
  let (flag, value) := s
  match flag with
  | .help => .error helpCode
  | .message => .ok { a with message := some (value.getD []) }
  | .output => .ok { a with output := fileName value }
  | .config => .ok { a with config := fileName value }
  | .tooltips => .ok { a with tooltips := some true }
  | .noTooltips => .ok { a with tooltips := some false }
  | .inlineMath => .ok { a with inlineMath := true }
  | .engine =>
    match value.bind Engine.named? with
    | some r => .ok { a with roller := some r }
    | none => .error refusalCode
  | .seed =>
    match value.bind Text.toInt? with
    | some n => .ok { a with seed := some n }
    | none => .error refusalCode
  | .store => .ok { a with store := fileName value }
  | .library => .ok { a with library := fileName value }
  | .actor => .ok { a with actor := fileName value }
  | .check => .ok { a with check := true }
  | .debug => .ok { a with debug := true }
  | .verbose => .ok { a with verbose := true }

def Arguments.addAll (a : Arguments) : List (Setting Flag) → Except Nat Arguments
  | [] => .ok a
  | s :: ss =>
    match a.add s with
    | .ok b => b.addAll ss
    | .error code => .error code

/-- What a list of arguments says, or the code with which the program ends. -/
def Arguments.ofList (args : List Text) : Except Nat Arguments :=
  match read vocabulary args with
  | none => .error refusalCode
  | some r =>
    match Arguments.empty.addAll r.settings with
    | .error code => .error code
    | .ok a => if r.faulty || r.surplus then .error refusalCode else .ok { a with input := r.operand }

/-! ## The checker for documents -/

def checkerVocabulary : Vocabulary Flag :=
  ⟨Flag.names.filter fun (_, f) => f = .help || f = .inlineMath, Flag.takesValue⟩

/-- Whether the command line of the checker asks for inline math, or the code with which the checker
ends. -/
def checkerFlags? (args : List Text) : Except Nat Bool :=
  match read checkerVocabulary args with
  | none => .error refusalCode
  | some r =>
    match Arguments.empty.addAll r.settings with
    | .error code => .error code
    | .ok a =>
      if r.faulty || r.surplus || r.operand.isSome then .error refusalCode else .ok a.inlineMath

end CommandLine

end TabletopChat
