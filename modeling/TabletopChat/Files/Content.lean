import TabletopChat.Text.Basic

/-!
# Files/Content — what a file holds

- `Content`         : a text, or bytes that are no text
- `Content.ofBytes` : the content of a file from its bytes
-/

namespace TabletopChat

inductive Content
  | text (t : Text)
  | undecodable
  deriving DecidableEq, Repr

def Content.ofBytes (bytes : ByteArray) : Content :=
  match String.fromUTF8? bytes with
  | some s => .text s.toList
  | none => .undecodable

end TabletopChat
