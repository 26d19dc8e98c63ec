import TabletopChat.Text.Basic

/-!
# Files/Path — names of files

- `Path`        : the directories on the way to a file, and its name
- `Path.ofText` : reading a path
- `Path.toText` : writing it
- `Path.parent`, `Path.join` : moving between directories
-/

namespace TabletopChat

/-- A path: what it starts from, which is nothing for a path that starts at the working directory, and
its parts. -/
structure Path where
  root : Text
  parts : List Text
  deriving DecidableEq, Repr

namespace Path

def here : Path := ⟨[], []⟩

/-- What a path starts from: exactly two slashes are not the same as one. -/
def rootOf (t : Text) : Text :=
  match t.takeWhile (· = '/') with
  | [] => []
  | ['/', '/'] => ['/', '/']
  | _ => ['/']

/-- The path that a text writes; empty parts and single dots do not count. -/
def ofText (t : Text) : Path :=
  ⟨rootOf t, (Text.pieces '/' t).filter fun part => part ≠ [] && part ≠ ['.']⟩

def toText (p : Path) : Text :=
  if p.root = [] && p.parts.isEmpty then ['.'] else p.root ++ Text.joinWith ['/'] p.parts

def parent (p : Path) : Path := { p with parts := p.parts.dropLast }

/-- A path that starts from the directory `base`, unless it has a start of its own. -/
def join (base p : Path) : Path :=
  if p.root = [] then { base with parts := base.parts ++ p.parts } else p

end Path

end TabletopChat
