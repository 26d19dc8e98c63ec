import TabletopChat.Decimal.Binary
import TabletopChat.Json.Display
import TabletopChat.Json.Parser
import TabletopChat.Library.Lookup
import TabletopChat.Text.Digit

/-!
# Library/Reader — macros read from JSON

- `Fault`     : why a library is refused
- `readMacro` : one macro
- `read`      : a whole library from the text of a file
-/

namespace TabletopChat

namespace Library

/-- Why a library is refused. -/
inductive Fault
  /-- the file holds no JSON -/
  | malformed
  /-- a number in the file has too many digits -/
  | numeralTooLong
  /-- the file holds no list -/
  | noList
  /-- a macro or an entry of a table is no object -/
  | noObject
  /-- a macro has no label -/
  | noLabel
  /-- a table cannot be gone through, or a weight is no number -/
  | wrongType
  /-- a weight is a text or a number that is no integer -/
  | noInteger
  /-- a weight is infinite -/
  | infinite
  deriving DecidableEq, Repr

def noListMessage (path : Text) : Text := path ++ ": expected a list of macros".toList

/-- The text of the member of an object under a key, or another text if there is none. -/
def textUnder (key other : Text) (members : Entries Json) : Text :=
  match Entries.get? key members with
  | some v => v.toText
  | none => other

def readWeight : Json → Except Fault Int
  | .int n => .ok n
  | .bool b => .ok (if b then 1 else 0)
  | .float x =>
    match Decimal.trunc? x with
    | some n => .ok n
    | none => .error (if x.isNaN then .noInteger else .infinite)
  | .text t =>
    match Text.toInt? t with
    | some n => .ok n
    | none => .error .noInteger
  | .null | .list _ | .object _ => .error .wrongType

/-- An entry of a table; without a weight it has the weight one. -/
def readEntry : Json → Except Fault TableEntry
  | .object members => do
    let weight ← readWeight ((Entries.get? "weight".toList members).getD (.int 1))
    .ok ⟨weight, textUnder "value".toList [] members⟩
  | _ => .error .noObject

def readEntries : List Json → Except Fault (List TableEntry)
  | [] => .ok []
  | v :: vs => do
    let e ← readEntry v
    let es ← readEntries vs
    .ok (e :: es)

/-- A table. A text or an object without parts counts as a table without entries. -/
def readTable : Json → Except Fault (List TableEntry)
  | .list vs => readEntries vs
  | .text [] | .object [] => .ok []
  | .text _ | .object _ => .error .noObject
  | .null | .bool _ | .int _ | .float _ => .error .wrongType

def readMacro : Json → Except Fault Macro
  | .object members => do
    let table ← readTable ((Entries.get? "table".toList members).getD (.list []))
    match Entries.get? "label".toList members with
    | none => .error .noLabel
    | some label =>
      .ok {
        label := label.toText
        kind := .ofName (textUnder "type".toList Kind.custom.name members)
        content := textUnder "content".toList [] members
        table := table
        scope := .ofName (textUnder "scope".toList Scope.all.name members)
        owner := match Entries.get? "actor_id".toList members with
          | none | some .null => none
          | some v => some v.toText }
  | _ => .error .noObject

def readMacros : List Json → Except Fault Macros
  | [] => .ok []
  | v :: vs => do
    let m ← readMacro v
    let ms ← readMacros vs
    .ok (m :: ms)

def read (t : Text) : Except Fault Macros :=
  match Json.parse t with
  | .error (.malformed _ _) => .error .malformed
  | .error .numeralTooLong => .error .numeralTooLong
  | .ok (.list vs) => readMacros vs
  | .ok _ => .error .noList

end Library

end TabletopChat
