import TabletopChat.Text.Basic

/-!
# Actor/Tag — tags that name data of an actor

- `Actor.tag?` : the tag `{{name}}` at the beginning of a text
-/

namespace TabletopChat

namespace Actor

/-- The name in the tag at the beginning of a text, and what follows the tag. A name holds no closing
brace and may be empty. -/
def tag? : Text → Option (Text × Text)
  | '\x7b' :: '\x7b' :: t =>
    match t.dropWhile (· ≠ '\x7d') with
    | '\x7d' :: '\x7d' :: rest => some (t.takeWhile (· ≠ '\x7d'), rest)
    | _ => none
  | _ => none

end Actor

end TabletopChat
