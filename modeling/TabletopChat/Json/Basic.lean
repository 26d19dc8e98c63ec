import TabletopChat.Entries

/-!
# Json — JSON values

- `Json` : a value; objects keep their members in the order of first writing
-/

namespace TabletopChat

/-- A JSON value. Integers are exact; numbers with a fraction or an exponent are doubles. -/
inductive Json
  | null
  | bool (b : Bool)
  | int (n : Int)
  | float (x : Float)
  | text (t : Text)
  | list (items : List Json)
  | object (members : List (Text × Json))

namespace Json

instance : Inhabited Json := ⟨.null⟩

def members? : Json → Option (Entries Json)
  | .object ms => some ms
  | _ => none

def text? : Json → Option Text
  | .text t => some t
  | _ => none

def member? (k : Text) : Json → Option Json
  | .object ms => Entries.get? k ms
  | _ => none

end Json

end TabletopChat
