import TabletopChat.Text.Basic
import TabletopChat.Toml.Scalar
import TabletopChat.Toml.Table

/-!
# Toml/Parser — reading a configuration

- `readKey`   : a key, which may be dotted
- `readValue` : a value
- `parse`     : a whole configuration
-/

namespace TabletopChat

namespace Toml

/-! ## Blanks and comments -/

def skipSpaces (t : Text) : Text := t.dropWhile isSpace

def skipComment (t : Text) : Except Fault Text :=
  match t with
  | '#' :: cs =>
    if (cs.takeWhile (· ≠ '\n')).all isAllowed then .ok (cs.dropWhile (· ≠ '\n'))
    else .error .malformed
  | _ => .ok t

/-- Skips blanks, line ends and at most `fuel` comments. -/
def skipGap : Nat → Text → Except Fault Text
  | 0, t => .ok t
  | fuel + 1, t =>
    match t.dropWhile fun c => isSpace c || c = '\n' with
    | '#' :: cs => do
      let rest ← skipComment ('#' :: cs)
      skipGap fuel rest
    | rest => .ok rest

def skipAll (t : Text) : Except Fault Text := skipGap (t.length + 1) t

/-! ## Keys -/

def isBare (c : Char) : Bool := c.isAlphanum || c = '-' || c = '_'

def readKeyPart (t : Text) : Except Fault (Text × Text) :=
  match t with
  | '"' :: cs => readLine '"' cs
  | '\'' :: cs => readLine '\'' cs
  | _ =>
    match t.takeWhile isBare with
    | [] => .error .malformed
    | part => .ok (part, t.dropWhile isBare)

/-- A key of at most `fuel` parts, and what follows it after spaces. -/
def readKeyParts : Nat → Text → Except Fault (Key × Text)
  | 0, _ => .error .malformed
  | fuel + 1, t => do
    let (part, rest) ← readKeyPart t
    match skipSpaces rest with
    | '.' :: rest => do
      let (parts, rest) ← readKeyParts fuel (skipSpaces rest)
      .ok (part :: parts, rest)
    | rest => .ok ([part], rest)

def readKey (t : Text) : Except Fault (Key × Text) := readKeyParts (t.length + 1) t

def readKeySign (t : Text) : Except Fault (Key × Text) := do
  let (key, rest) ← readKey t
  match rest with
  | '=' :: rest => .ok (key, skipSpaces rest)
  | _ => .error .malformed

/-! ## Values -/

def readScalar (t : Text) : Except Fault (Value × Text) :=
  match t with
  | '"' :: cs => (readString '"' cs).map fun (v, rest) => (.text v, rest)
  | '\'' :: cs => (readString '\'' cs).map fun (v, rest) => (.text v, rest)
  | _ =>
    match Text.afterWord? "true".toList t, Text.afterWord? "false".toList t with
    | some rest, _ => .ok (.bool true, rest)
    | _, some rest => .ok (.bool false, rest)
    | _, _ =>
      match readMoment? t with
      | some r => r.map fun (m, rest) => (.moment m, rest)
      | none => (readNumber? t).getD (.error .malformed)

mutual

def readValue : Nat → Text → Except Fault (Value × Text)
  | 0, _ => .error .malformed
  | fuel + 1, t =>
    match t with
    | '[' :: cs => do
      let cs ← skipAll cs
      let (items, rest) ← readItems fuel cs
      .ok (.list items, rest)
    | '\x7b' :: cs =>
      match skipSpaces cs with
      | '\x7d' :: rest => .ok (.table [], rest)
      | cs => do
        let (table, rest) ← readMembers fuel [] ⟨[], []⟩ cs
        .ok (.table table, rest)
    | _ => readScalar t

def readItems : Nat → Text → Except Fault (List Value × Text)
  | 0, _ => .error .malformed
  | fuel + 1, t =>
    match t with
    | ']' :: rest => .ok ([], rest)
    | _ => do
      let (item, rest) ← readValue fuel t
      let rest ← skipAll rest
      match rest with
      | ']' :: rest => .ok ([item], rest)
      | ',' :: rest => do
        let rest ← skipAll rest
        let (items, rest) ← readItems fuel rest
        .ok (item :: items, rest)
      | _ => .error .malformed

/-- The members of a table up to its closing brace, after those that were read before. -/
def readMembers : Nat → Table → Marks → Text → Except Fault (Table × Text)
  | 0, _, _, _ => .error .malformed
  | fuel + 1, table, marks, t => do
    let (key, rest) ← readKeySign t
    let (value, rest) ← readValue fuel rest
    if marks.isComplete key then .error .malformed
    else
      match define? false key value table, skipSpaces rest with
      | some table, '\x7d' :: rest => .ok (table, rest)
      | some table, ',' :: rest =>
        readMembers fuel table (marks.addValue key value) (skipSpaces rest)
      | _, _ => .error .malformed

end

/-! ## Statements -/

def accept (d : Option Document) (rest : Text) : Except Fault (Document × Text) :=
  match d with
  | some d => .ok (d, rest)
  | none => .error .malformed

/-- A statement at the beginning of a text: a header, or a key and its value. -/
def readStatement (d : Document) (t : Text) : Except Fault (Document × Text) :=
  match t with
  | '[' :: '[' :: cs => do
    let (key, rest) ← readKey (skipSpaces cs)
    match rest with
    | ']' :: ']' :: rest => accept (d.openItem? key) rest
    | _ => .error .malformed
  | '[' :: cs => do
    let (key, rest) ← readKey (skipSpaces cs)
    match rest with
    | ']' :: rest => accept (d.openTable? key) rest
    | _ => .error .malformed
  | _ => do
    let (key, rest) ← readKeySign t
    let (value, rest) ← readValue (rest.length + 1) rest
    accept (d.define? key value) rest

/-- At most `fuel` lines, each of which holds at most one statement and a comment. -/
def readDocument : Nat → Document → Text → Except Fault Document
  | 0, d, _ => .ok d
  | fuel + 1, d, t => do
    let t := skipSpaces t
    let (d, rest) ← match t with
      | [] | '\n' :: _ | '#' :: _ => .ok (d, t)
      | _ => readStatement d t
    let rest ← skipComment (skipSpaces rest)
    match rest with
    | [] => .ok d
    | '\n' :: rest => readDocument fuel d rest
    | _ => .error .malformed

def unifyLines : Text → Text
  | [] => []
  | '\r' :: '\n' :: cs => '\n' :: unifyLines cs
  | c :: cs => c :: unifyLines cs

def parse (t : Text) : Except Fault Table :=
  (readDocument (t.length + 1) .empty (unifyLines t)).map Document.table

end Toml

end TabletopChat
