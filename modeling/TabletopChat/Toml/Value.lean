import TabletopChat.Decimal.Display
import TabletopChat.Entries
import TabletopChat.Text.Quoted
import TabletopChat.Toml.Moment

/-!
# Toml/Value — the values of a configuration

- `Value`         : a value
- `Value.isTrue`  : whether a value counts as yes
- `Value.literal` : an expression for a value
- `Value.toText`  : its text
-/

namespace TabletopChat

namespace Toml

inductive Value
  | text (t : Text)
  | int (n : Int)
  | float (x : Float)
  | bool (b : Bool)
  | moment (m : Moment)
  | list (items : List Value)
  | table (members : List (Text × Value))

abbrev Table := Entries Value

namespace Value

/-- Whether a value counts as yes: all but zeros and what is empty. -/
def isTrue : Value → Bool
  | .text t => !t.isEmpty
  | .int n => decide (n ≠ 0)
  | .float x => !(x == 0)
  | .bool b => b
  | .moment _ => true
  | .list items => !items.isEmpty
  | .table members => !members.isEmpty

mutual

def literal : Value → Text
  | .text t => Text.quoted t
  | .int n => Text.ofInt n
  | .float x => Decimal.write .number x
  | .bool b => (if b then "True" else "False").toList
  | .moment m => m.literal
  | .list items => '[' :: Text.joinWith ", ".toList (literalItems items) ++ [']']
  | .table members => '\x7b' :: Text.joinWith ", ".toList (literalMembers members) ++ ['\x7d']

def literalItems : List Value → List Text
  | [] => []
  | v :: vs => literal v :: literalItems vs

def literalMembers : List (Text × Value) → List Text
  | [] => []
  | (k, v) :: ms => (Text.quoted k ++ ": ".toList ++ literal v) :: literalMembers ms

end

def toText : Value → Text
  | .text t => t
  | .moment m => m.toText
  | v => literal v

end Value

end Toml

end TabletopChat
