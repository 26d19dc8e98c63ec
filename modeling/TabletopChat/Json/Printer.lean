import TabletopChat.Json.Basic
import TabletopChat.Decimal.Display

/-!
# Json/Printer — writing JSON in ASCII

- `Json.render`       : on one line, members in their order
- `Json.renderSorted` : over several lines, members sorted by key
-/

namespace TabletopChat

namespace Json

/-! ## Strings and numbers -/

def unitEscape (n : Nat) : Text := '\\' :: 'u' :: Text.hex 4 n

/-- A character inside a string. What is not a visible ASCII character is escaped, as a surrogate
pair where one escape is too short. -/
def renderChar (c : Char) : Text :=
  if c = '"' then ['\\', '"']
  else if c = '\\' then ['\\', '\\']
  else if c = '\n' then ['\\', 'n']
  else if c = '\r' then ['\\', 'r']
  else if c = '\t' then ['\\', 't']
  else if c.toNat = 12 then ['\\', 'f']
  else if c.toNat = 8 then ['\\', 'b']
  else if 32 ≤ c.toNat ∧ c.toNat < 127 then [c]
  else if c.toNat < 0x10000 then unitEscape c.toNat
  else
    unitEscape (0xD800 + (c.toNat - 0x10000) / 1024) ++
      unitEscape (0xDC00 + (c.toNat - 0x10000) % 1024)

def renderText (t : Text) : Text := '"' :: t.flatMap renderChar ++ ['"']

/-- A double; the three values that are no numbers are words. -/
def renderFloat (x : Float) : Text :=
  match Decimal.shape x with
  | .nan => "NaN".toList
  | .infinite neg => (if neg then "-Infinity" else "Infinity").toList
  | .finite _ _ => Decimal.write .number x

/-! ## One line -/

mutual

def render : Json → Text
  | .null => "null".toList
  | .bool b => (if b then "true" else "false").toList
  | .int n => Text.ofInt n
  | .float x => renderFloat x
  | .text t => renderText t
  | .list items => '[' :: renderItems items ++ [']']
  | .object members => '{' :: renderMembers members ++ ['}']

def renderItems : List Json → Text
  | [] => []
  | [v] => render v
  | v :: w :: vs => render v ++ ", ".toList ++ renderItems (w :: vs)

def renderMembers : List (Text × Json) → Text
  | [] => []
  | [(k, v)] => renderText k ++ ": ".toList ++ render v
  | (k, v) :: m :: ms =>
    renderText k ++ ": ".toList ++ render v ++ ", ".toList ++ renderMembers (m :: ms)

end

/-! ## Several lines -/

def keyLe (a b : Text) : Bool :=
  match a, b with
  | [], _ => true
  | _ :: _, [] => false
  | c :: cs, d :: ds =>
    if c.toNat < d.toNat then true
    else if d.toNat < c.toNat then false
    else keyLe cs ds

def newLine (depth : Nat) : Text := '\n' :: List.replicate (2 * depth) ' '

/-- Puts a member where it belongs among members that are sorted by key. -/
def placeMember (m : Text × Text) : List (Text × Text) → List (Text × Text)
  | [] => [m]
  | n :: ns => if keyLe m.1 n.1 then m :: n :: ns else n :: placeMember m ns

def sortMembers (ms : List (Text × Text)) : List (Text × Text) := ms.foldr placeMember []

mutual

/-- A value over several lines at a nesting depth: two blanks for each level, members sorted by
key. -/
def renderSortedAt (depth : Nat) : Json → Text
  | .list [] => "[]".toList
  | .list (v :: vs) =>
    '[' :: newLine (depth + 1) ++
      Text.joinWith (',' :: newLine (depth + 1)) (renderSortedItems (depth + 1) (v :: vs)) ++
      newLine depth ++ [']']
  | .object [] => ['{', '}']
  | .object (m :: ms) =>
    let rendered := sortMembers (renderSortedMembers (depth + 1) (m :: ms))
    '{' :: newLine (depth + 1) ++
      Text.joinWith (',' :: newLine (depth + 1))
        (rendered.map fun (k, v) => renderText k ++ ": ".toList ++ v) ++
      newLine depth ++ ['}']
  | v => render v

def renderSortedItems (depth : Nat) : List Json → List Text
  | [] => []
  | v :: vs => renderSortedAt depth v :: renderSortedItems depth vs

def renderSortedMembers (depth : Nat) : List (Text × Json) → List (Text × Text)
  | [] => []
  | (k, v) :: ms => (k, renderSortedAt depth v) :: renderSortedMembers depth ms

end

def renderSorted (v : Json) : Text := renderSortedAt 0 v

end Json

end TabletopChat
