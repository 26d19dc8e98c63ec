import TabletopChat.Json.Parser

/-!
# Actor/Reader — data of an actor from a file

- `Fault` : why a file is refused
- `read`  : the data in the text of a file
-/

namespace TabletopChat

namespace Actor

/-- Why a file is refused: it holds no JSON, a number with too many digits, or no object. -/
inductive Fault
  | malformed
  | numeralTooLong
  | noObject
  deriving DecidableEq, Repr

/-- What is said about the file at `path` if it holds no object. -/
def noObjectMessage (path : Text) : Text :=
  path ++ ": expected a JSON object of actor data".toList

def read (t : Text) : Except Fault (Entries Json) :=
  match Json.parse t with
  | .error (.malformed _ _) => .error .malformed
  | .error .numeralTooLong => .error .numeralTooLong
  | .ok (.object data) => .ok data
  | .ok _ => .error .noObject

end Actor

end TabletopChat
