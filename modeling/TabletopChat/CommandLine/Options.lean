import TabletopChat.CommandLine.Arguments
import TabletopChat.Files.Tree
import TabletopChat.Toml.Parser

/-!
# CommandLine/Options — arguments and configuration together

What the command line says takes precedence over what a configuration says. Names of files in a
configuration are relative to the directory of the input.

- `Options`         : all options of a run
- `Fault`           : why there are none
- `Options.resolve` : options from arguments and files
-/

namespace TabletopChat

namespace CommandLine

/-! ## Options and faults -/

structure Options where
  input : Option Path
  message : Option Text
  output : Option Path
  tooltips : Bool
  inlineMath : Bool
  roller : Engine
  seed : Option Int
  store : Option Path
  place : Text
  library : Option Path
  actor : Option Path
  check : Bool
  debug : Bool
  verbose : Bool
  deriving Repr

def Options.sourceName (o : Options) : Text :=
  match o.input, o.message with
  | some p, _ => p.toText
  | none, some _ => "<message>".toList
  | none, none => "<stdin>".toList

def Options.paths (o : Options) : List Path :=
  [o.input, o.output, o.store, o.library, o.actor].filterMap id

/-- Why there are no options. -/
inductive Fault
  /-- both an input file and a message are given -/
  | twoSources
  /-- the configuration gives a value that cannot be used -/
  | unusable (about value : Text)
  /-- the configuration has the wrong form -/
  | malformed
  /-- an integer in the configuration has too many digits -/
  | numeralTooLong
  /-- the configuration is no text -/
  | undecodable
  deriving DecidableEq, Repr

def Fault.message : Fault → Text
  | .twoSources => "give either an input file or --message, not both".toList
  | .unusable about value => about ++ ": ".toList ++ value
  | .malformed => "invalid configuration".toList
  | .numeralTooLong => "integer with too many digits".toList
  | .undecodable => "configuration is no text".toList

/-! ## Configuration -/

/-- The name of a configuration that is found without being asked for. -/
def configName : Path := .ofText "chatmacro.toml".toList

/-- The path of the input file; a single hyphen means that there is none. -/
def Arguments.inputPath (a : Arguments) : Option Path :=
  match a.input with
  | some ['-'] | none => none
  | some t => some (.ofText t)

def Arguments.directory (a : Arguments) : Path := (a.inputPath.map Path.parent).getD .here

def Arguments.configPath (a : Arguments) : Path :=
  match a.config with
  | some t => .ofText t
  | none => a.directory.join configName

/-- The configuration at a path; where there is no file it says nothing. -/
def readConfig (p : Path) (fs : Files) : Except Fault Toml.Table :=
  match fs.look p with
  | .file (.text t) =>
    match Toml.parse t with
    | .ok table => .ok table
    | .error .malformed => .error .malformed
    | .error .numeralTooLong => .error .numeralTooLong
  | .file .undecodable => .error .undecodable
  | .directory | .nothing => .ok []

/-- The members of a section; what is no table has none. -/
def sectionOf (name : String) (config : Toml.Table) : Toml.Table :=
  match Entries.get? name.toList config with
  | some (.table members) => members
  | _ => []

def saysYes (key : String) (s : Toml.Table) : Bool := (Entries.get? key.toList s).any Toml.Value.isTrue

def pathFrom (argument : Option Text) (s : Toml.Table) (base : Path) : Except Fault (Option Path) :=
  match argument, Entries.get? "path".toList s with
  | some t, _ => .ok (some (.ofText t))
  | none, none => .ok none
  | none, some (.text t) => .ok (some (base.join (.ofText t)))
  | none, some v => .error (.unusable "invalid path in config".toList v.literal)

def rollerFrom (argument : Option Engine) (s : Toml.Table) : Except Fault Engine :=
  match argument, Entries.get? "engine".toList s with
  | some r, _ => .ok r
  | none, none => .ok .extended
  | none, some v =>
    let unknown := Fault.unusable "unknown dice engine".toList v.literal
    match v with
    | .text name => (Engine.named? name).elim (.error unknown) .ok
    | _ => .error unknown

def seedFrom (argument : Option Int) (s : Toml.Table) : Except Fault (Option Int) :=
  match argument, Entries.get? "seed".toList s with
  | some n, _ => .ok (some n)
  | none, none => .ok none
  | none, some (.int n) => .ok (some n)
  | none, some v => .error (.unusable "seed must be an integer".toList v.literal)

/-- The section of the store where choices are remembered if nothing else is said. -/
def standardPlace : Text := "chatmacro".toList

/-! ## Both together -/

def Options.from (a : Arguments) (config : Toml.Table) : Except Fault Options := do
  let rolls := sectionOf "parser" config
  let storing := sectionOf "store" config
  let roller ← rollerFrom a.roller rolls
  let seed ← seedFrom a.seed rolls
  let store ← pathFrom a.store storing a.directory
  let library ← pathFrom a.library (sectionOf "library" config) a.directory
  let actor ← pathFrom a.actor (sectionOf "actor" config) a.directory
  .ok {
    input := a.inputPath
    message := a.message
    output := a.output.map .ofText
    tooltips := a.tooltips.getD (saysYes "tooltips" rolls)
    inlineMath := a.inlineMath || saysYes "legacy_math" rolls
    roller := roller
    seed := seed
    store := store
    place := ((Entries.get? "namespace".toList storing).map Toml.Value.toText).getD standardPlace
    library := library
    actor := actor
    check := a.check
    debug := a.debug
    verbose := a.verbose }

def Options.resolve (a : Arguments) (fs : Files) : Except Fault Options :=
  if a.input.isSome && a.message.isSome then .error .twoSources
  else
    match readConfig a.configPath fs with
    | .ok config => Options.from a config
    | .error fault => .error fault

end CommandLine

end TabletopChat
