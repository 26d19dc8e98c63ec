import TabletopChat.Json.Basic
import TabletopChat.Decimal.Display
import TabletopChat.Text.Quoted

/-!
# Json/Display — values shown as text

Where a plain text is expected, a string stands for itself and any other value is shown by a
literal: `True`, `None`, `1.5`, `[1, 'x']`.

- `Json.literal` : the literal of a value
- `Json.toText`  : a string as it is, any other value by its literal
-/

namespace TabletopChat

namespace Json

mutual

def literal : Json → Text
  | .null => "None".toList
  | .bool b => (if b then "True" else "False").toList
  | .int n => Text.ofInt n
  | .float x => Decimal.write .number x
  | .text t => Text.quoted t
  | .list items => '[' :: Text.joinWith ", ".toList (literalItems items) ++ [']']
  | .object members => '{' :: Text.joinWith ", ".toList (literalMembers members) ++ ['}']

def literalItems : List Json → List Text
  | [] => []
  | v :: vs => literal v :: literalItems vs

def literalMembers : List (Text × Json) → List Text
  | [] => []
  | (k, v) :: ms => (Text.quoted k ++ ": ".toList ++ literal v) :: literalMembers ms

end

def toText : Json → Text
  | .text t => t
  | v => literal v

end Json

end TabletopChat
