import TabletopChat.Actor.Tag
import TabletopChat.Arithmetic.Number
import TabletopChat.Json.Display
import TabletopChat.Text.Blank
import TabletopChat.Text.Piece

/-!
# Actor/Data — data of an actor in a message

The data of an actor is a tree of objects and lists. Each of its leaves has a path: the keys and the
positions that lead to it, with dots between them.

- `Actor.leaves`     : the leaves of a tree with their paths
- `Actor.flatten`    : their texts by path
- `Actor.substitute` : every tag replaced that names a path
-/

namespace TabletopChat

namespace Actor

/-- A path with one more segment. A path without characters counts as none. -/
def extend (path segment : Text) : Text :=
  if path = [] then segment else path ++ '.' :: segment

def leafText : Json → Text
  | .float x => (Arithmetic.Number.real x).display
  | v => v.toText

mutual

/-- The leaves of a value that is reached by a path; empty values are no leaves. -/
def leaves (path : Text) : Json → List (Text × Text)
  | .object members => memberLeaves path members
  | .list items => itemLeaves path 0 items
  | .null => []
  | v => [(path, leafText v)]

def memberLeaves (path : Text) : List (Text × Json) → List (Text × Text)
  | [] => []
  | (k, v) :: ms => leaves (extend path k) v ++ memberLeaves path ms

/-- The leaves of the items of a list, whose segments are their positions from `i` on. -/
def itemLeaves (path : Text) (i : Nat) : List Json → List (Text × Text)
  | [] => []
  | v :: vs => leaves (extend path (Text.ofNat i)) v ++ itemLeaves path (i + 1) vs

end

/-- The texts of the leaves of an actor by path. Of two leaves with one path the later one counts. -/
def flatten (path : Text) (data : Entries Json) : Entries Text :=
  Entries.update [] (memberLeaves path data)

/-- Every tag that names a path replaced by the text under it; other tags stay. -/
def substitute (message : Text) (values : Entries Text) : Text :=
  Text.replaceTags tag? (fun name source => (Entries.get? (Text.strip name) values).getD source) message

end Actor

end TabletopChat
