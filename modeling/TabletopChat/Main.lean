import TabletopChat.CommandLine.Program

/-!
# Main — the program

Reads the files that a run needs, runs, and writes what the run leaves behind. Lines of the input are
read one at a time, and only as many as the run asks for: the run is done again with each line that is
added, with the same dice.
-/

namespace TabletopChat

namespace Main

open CommandLine

/-! ## Files -/

def nameOf (place : Place) : String :=
  match place with
  | ('/' :: root) :: names =>
    String.ofList ('/' :: root ++ Text.joinWith ['/'] names)
  | _ => String.ofList (Text.joinWith ['/'] place)

def survey (fs : Files) (place : Place) : IO Files := do
  try
    let bytes ← IO.FS.readBinFile (nameOf place)
    pure (fs.put place (.ofBytes bytes))
  catch
    | .inappropriateType .. => pure { fs with directories := place :: fs.directories }
    | _ => pure fs

def explore (fs : Files) (p : Path) : IO Files :=
  (List.range p.place.length).foldlM (fun fs i => survey fs (p.place.take (i + 1))) fs

def save (f : File) : IO Unit := do
  if let some c := f.place.dropLast.getLast? then
    unless c.isEmpty do IO.FS.createDirAll (nameOf f.place.dropLast)
  match f.content with
  | .text t => IO.FS.writeFile (nameOf f.place) (String.ofList t)
  | .undecodable => pure ()

/-! ## Runs -/

def prepare (args : List Text) : IO (Option Options × Files) := do
  match Arguments.ofList args with
  | .error _ => pure (none, .empty)
  | .ok a => do
    let fs ← explore .empty a.configPath
    match Options.resolve a fs with
    | .error _ => pure (none, fs)
    | .ok o => do
      let fs ← o.paths.foldlM explore fs
      pure (some o, fs)

def chooseDice (o : Option Options) : IO Dice := do
  match o.bind Options.seed with
  | some n => pure (.generated n.natAbs)
  | none => do
    let n ← IO.rand 0 (Nat.pow 2 64 - 1)
    pure (.generated n)

/-- All that is left of the input. -/
partial def readAll (input : IO.FS.Stream) (before : String) : IO String := do
  let line ← input.getLine
  if line.isEmpty then pure before else readAll input (before ++ line)

/-- Writes the part of `text` that follows its first `shown` characters. -/
def showMore (shown : Nat) (text : Text) : IO Nat := do
  let errors ← IO.getStderr
  errors.putStr (String.ofList (text.drop shown))
  errors.flush
  pure (max shown text.length)

/-- Runs again with one more line as long as the run reads all that it is given. A line end is added to
see whether it would read on. -/
partial def converse (r : Request) (input : IO.FS.Stream) (shown : Nat) (lines : Text) :
    IO (Except Failure Outcome × Nat) := do
  match run { r with input := lines ++ ['\n'] } with
  | .ok o =>
    if o.input.isEmpty && o.code = 0 then do
      let waiting := run { r with input := lines }
      let shown ← match waiting with
        | .ok w => showMore shown w.said
        | .error _ => pure shown
      let line ← input.getLine
      if line.isEmpty then pure (waiting, shown)
      else converse r input shown (lines ++ line.toList)
    else pure (.ok o, shown)
  | .error f => pure (.error f, shown)

def failureText : Failure → String
  | .undecodable => "input is no text"
  | .numeralTooLong => "integer with too many digits"
  | .stopped _ => "the expansion stopped"
  | .library _ => "the library is malformed"
  | .output _ => "the output cannot be written"

def finish (before : Files) (shown : Nat) : Except Failure Outcome → IO UInt32
  | .error f => do
    IO.eprintln ("error: " ++ failureText f)
    pure 1
  | .ok o => do
    let _ ← showMore shown o.said
    (before.changedSince o.files).forM save
    IO.print (String.ofList o.output)
    pure o.code.toUInt32

end Main

end TabletopChat

open TabletopChat in
def main (args : List String) : IO UInt32 := do
  let args := args.map String.toList
  let (o, fs) ← Main.prepare args
  let dice ← Main.chooseDice o
  let r : CommandLine.Request := ⟨args, fs, [], dice⟩
  let input ← IO.getStdin
  match o with
  | some options =>
    if options.message.isSome || options.input.isSome then do
      let (result, shown) ← Main.converse r input 0 []
      Main.finish fs shown result
    else do
      let text ← Main.readAll input ""
      Main.finish fs 0 (CommandLine.run { r with input := text.toList })
  | none => Main.finish fs 0 (CommandLine.run r)
