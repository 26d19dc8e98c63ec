import TabletopChat.Files.Content
import TabletopChat.Files.Path

/-!
# Files/Tree — files and directories

- `Place`          : where a file is
- `Files`          : files by their places
- `Files.locate`   : the place that a path leads to
- `Files.look`     : what is found there
- `Files.write`    : writing a file
-/

namespace TabletopChat

/-! ## Places -/

/-- Where a file is: the names of the directories on the way from the working directory, and its own. A
place that does not start there begins with a root or with two dots. -/
abbrev Place := List Text

def aboveName : Text := ['.', '.']

def Place.above (place : Place) : Place :=
  match place.getLast? with
  | none => [aboveName]
  | some name =>
    if name = aboveName then place ++ [aboveName]
    else if name.head? = some '/' then place
    else place.dropLast

def Path.startPlace (p : Path) : Place := if p.root = [] then [] else [p.root]

/-- The place that a path leads to if there are no two dots in it. -/
def Path.place (p : Path) : Place := p.startPlace ++ p.parts

/-! ## Files -/

structure File where
  place : Place
  content : Content
  deriving DecidableEq, Repr

/-- Files, and directories that are known to be there. The directories of a file are there, too. -/
structure Files where
  files : List File
  directories : List Place
  deriving Repr

namespace Files

/-- Nothing but the working directory. -/
def empty : Files := ⟨[], []⟩

/-- Why nothing can be written to a path. -/
inductive Fault
  | missing
  | isDirectory
  | notDirectory
  deriving DecidableEq, Repr

def content? (place : Place) (fs : Files) : Option Content :=
  (fs.files.find? fun f => f.place = place).map File.content

def isDirectory (place : Place) (fs : Files) : Bool :=
  place.isEmpty || fs.directories.contains place ||
    fs.files.any fun f => place.isPrefixOf f.place && decide (place.length < f.place.length)

/-- The place that names lead to from another one, each but the last the name of a directory. -/
def walk (fs : Files) (place : Place) : List Text → Except Fault Place
  | [] => .ok place
  | name :: names =>
    if (fs.content? place).isSome then .error .notDirectory
    else if !fs.isDirectory place then .error .missing
    else if name = aboveName then walk fs place.above names
    else walk fs (place ++ [name]) names

def locate (p : Path) (fs : Files) : Except Fault Place := walk fs p.startPlace p.parts

inductive Found
  | file (c : Content)
  | directory
  | nothing
  deriving Repr

def look (p : Path) (fs : Files) : Found :=
  match fs.locate p with
  | .error _ => .nothing
  | .ok place =>
    match fs.content? place with
    | some c => .file c
    | none => if fs.isDirectory place then .directory else .nothing

def putFile (f : File) : List File → List File
  | [] => [f]
  | g :: gs => if g.place = f.place then f :: gs else g :: putFile f gs

def put (place : Place) (c : Content) (fs : Files) : Files :=
  { fs with files := putFile ⟨place, c⟩ fs.files }

def write (p : Path) (c : Content) (fs : Files) : Except Fault Files :=
  match fs.locate p with
  | .error fault => .error fault
  | .ok place => if fs.isDirectory place then .error .isDirectory else .ok (fs.put place c)

/-- The place at which a file can be written when missing directories may be made on the way to it. -/
def placeToMake? (p : Path) (fs : Files) : Option Place :=
  match fs.locate p with
  | .ok place => if fs.isDirectory place then none else some place
  | .error .missing => if p.parts.contains aboveName then none else some p.place
  | .error _ => none

def changedSince (before after : Files) : List File :=
  after.files.filter fun f => before.content? f.place ≠ some f.content

end Files

end TabletopChat
