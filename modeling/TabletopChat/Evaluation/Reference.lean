import TabletopChat.Evaluation.Record
import TabletopChat.Journal
import TabletopChat.Text.Piece

/-!
# Evaluation/Reference — references to results in a message

- `Reference`   : a name, and how its result is shown
- `reference?`  : reading a reference
- `substitute`  : every reference to a known result replaced
-/

namespace TabletopChat

namespace Evaluation

structure Reference where
  name : Text
  mode : Text
  options : List Text
  deriving DecidableEq, Repr

/-- How a result is shown if nothing else is said. -/
def standardMode : Text := "result".toList

/-- The mode and the options in the inside of a reference behind its name. A mode is followed by
options that are not empty, or by nothing; what does not have that form consists of options only. -/
def modeAndOptions (body : Text) : Text × List Text :=
  match Text.cutAt '|' body with
  | (c :: cs, none) => (Text.strip (c :: cs), [[]])
  | (c :: cs, some (d :: ds)) => (Text.strip (c :: cs), Text.pieces '|' (d :: ds))
  | _ => (standardMode, Text.pieces '|' body)

def reference? : Text → Option (Reference × Text)
  | '@' :: '\x7b' :: t =>
    let inName := fun c => c ≠ '|' && c ≠ '\x7d'
    let name := t.takeWhile inName
    if name = [] then none
    else
      match t.dropWhile inName with
      | '\x7d' :: rest => some (⟨Text.strip name, standardMode, [[]]⟩, rest)
      | '|' :: rest =>
        let body := rest.takeWhile (· ≠ '\x7d')
        match body, rest.dropWhile (· ≠ '\x7d') with
        | _ :: _, _ :: after =>
          let (mode, options) := modeAndOptions body
          some (⟨Text.strip name, mode, options⟩, after)
        | _, _ => none
      | _ => none
  | _ => none

/-- What stands in place of a reference: a view of the result, or the reference itself if there is no
such result. -/
def Records.resolve (r : Records) (ref : Reference) (source : Text) : Text :=
  match r.get? ref.name with
  | some rec => rec.view ref.mode ref.options
  | none => source

def substitute (message : Text) (r : Records) : Text :=
  Text.replaceTags reference? r.resolve message

def unresolved (message : Text) (r : Records) : Journal :=
  ((Text.tagPieces reference? message).filterMap fun
    | .tag ref source =>
      if (r.get? ref.name).isNone then
        some (.remark .detail .references ("unresolved roll reference ".toList ++ source))
      else none
    | .plain _ => none).reverse

end Evaluation

end TabletopChat
