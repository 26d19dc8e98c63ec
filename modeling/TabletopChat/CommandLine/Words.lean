import TabletopChat.Text.Digit

/-!
# CommandLine/Words — options and operands in a list of arguments

An option is written by one of its names. A long name begins with two hyphens and may be cut short as
long as one name only begins like that; its value follows after an equals sign or as the next argument.
A short name is a hyphen and a letter; its value follows at once, after an equals sign or as the next
argument, and short names without values may be written together. After `--` there are only operands.

- `Vocabulary` : the names of options, and which of them take a value
- `Word`       : what an argument is
- `wordOf`     : the word that an argument writes
- `Reading`    : the options and the operand of a command line
- `read`       : reading all arguments
-/

namespace TabletopChat

namespace CommandLine

/-! ## Words -/

structure Vocabulary (α : Type) where
  names : List (Text × α)
  takesValue : α → Bool

/-- What an argument is: an operand or a value, the mark after which there are only operands, an option
that is written by a name and may have a value attached, or an option that is not known. -/
inductive Word (α : Type)
  | plain (t : Text)
  | mark
  | option (name : Text) (o : α) (attached : Option Text)
  | unknown (t : Text)
  deriving Repr

variable {α : Type}

namespace Vocabulary

def find? (v : Vocabulary α) (name : Text) : Option α :=
  v.names.findSome? fun (n, o) => if n = name then some o else none

def longWords (v : Vocabulary α) (t : Text) : List (Word α) :=
  let (start, attached) := Text.cutAt '=' t
  v.names.filterMap fun (name, o) =>
    if Text.startsWith start name then some (.option name o attached) else none

def shortWords (v : Vocabulary α) (t : Text) : List (Word α) :=
  v.names.filterMap fun (name, o) =>
    if name = t.take 2 then some (.option name o (some (t.drop 2)))
    else if Text.startsWith t name then some (.option name o none)
    else none

/-- The words that an argument which is no whole name may mean. -/
def guesses (v : Vocabulary α) (t : Text) : List (Word α) :=
  if Text.startsWith ['-', '-'] t then v.longWords t else v.shortWords t

end Vocabulary

def looksNegative (t : Text) : Bool :=
  match t with
  | '-' :: ds =>
    let ds := if ds.getLast? = some '\n' then ds.dropLast else ds
    let fraction := (ds.dropWhile Text.isDigit).drop 1
    match ds.dropWhile Text.isDigit with
    | [] => !ds.isEmpty
    | '.' :: _ => !fraction.isEmpty && fraction.all Text.isDigit
    | _ => false
  | _ => false

/-- The word that an argument writes, or nothing if it may mean several options. -/
def wordOf (v : Vocabulary α) (t : Text) : Option (Word α) :=
  if t.head? ≠ some '-' || t = ['-'] then some (.plain t)
  else
    match v.find? t with
    | some o => some (.option t o none)
    | none =>
      match Text.cutAt '=' t with
      | (name, some value) =>
        match v.find? name with
        | some o => some (.option name o (some value))
        | none => guess (v.guesses t)
      | (_, none) => guess (v.guesses t)
where
  /-- The only word that is possible. -/
  guess : List (Word α) → Option (Word α)
    | [] =>
      if looksNegative t || t.contains ' ' then some (.plain t) else some (.unknown t)
    | [w] => some w
    | _ => none

def wordsOf (v : Vocabulary α) : List Text → Option (List (Word α))
  | [] => some []
  | t :: ts =>
    if t = ['-', '-'] then some (.mark :: ts.map .plain)
    else
      match wordOf v t, wordsOf v ts with
      | some w, some ws => some (w :: ws)
      | _, _ => none

/-! ## Reading -/

abbrev Setting (α : Type) := α × Option Text

/-- What a command line says: options in their order, up to the first fault, an operand, and whether
there is something that cannot be used. -/
structure Reading (α : Type) where
  settings : List (Setting α)
  operand : Option Text
  faulty : Bool
  surplus : Bool
  deriving Repr

/-- The value that is attached to an option. The mark of the end of options is not a value. -/
def attachedValue (t : Text) : Option Text := if t = ['-', '-'] then none else some t

/-- The options of short names that are written together, the first of which has `attached` behind it,
and what follows them. -/
def readShort (v : Vocabulary α) (rest : List (Word α)) :
    α → Text → Option (List (Setting α) × List (Word α))
  | o, [] =>
    if v.takesValue o then
      match rest with
      | .plain value :: rest => some ([(o, some value)], rest)
      | _ => none
    else some ([(o, none)], rest)
  | o, c :: cs =>
    if v.takesValue o then some ([(o, attachedValue (c :: cs))], rest)
    else
      match v.find? ['-', c] with
      | some p => (readShort v rest p cs).map fun (ss, rest) => ((o, none) :: ss, rest)
      | none => none

def readOption (v : Vocabulary α) (rest : List (Word α)) (name : Text) (o : α) :
    Option Text → Option (List (Setting α) × List (Word α))
  | none => readShort v rest o []
  | some value =>
    if v.takesValue o then some ([(o, attachedValue value)], rest)
    else if value = [] || Text.startsWith ['-', '-'] name then none
    else readShort v rest o value

/-- Reads words, of which there are at most `fuel`, with at most one operand. -/
def readWords (v : Vocabulary α) : Nat → Option Text → Bool → List (Word α) → Reading α
  | 0, operand, _, _ => ⟨[], operand, false, false⟩
  | _ + 1, operand, _, [] => ⟨[], operand, false, false⟩
  | fuel + 1, operand, used, .option name o attached :: rest =>
    match readOption v rest name o attached with
    | some (ss, rest) =>
      let r := readWords v fuel operand used rest
      { r with settings := ss ++ r.settings }
    | none => ⟨[], operand, true, false⟩
  | fuel + 1, operand, used, .unknown _ :: rest =>
    { readWords v fuel operand used rest with surplus := true }
  | fuel + 1, operand, true, .plain _ :: rest | fuel + 1, operand, true, .mark :: rest =>
    { readWords v fuel operand true rest with surplus := true }
  | fuel + 1, _, false, .plain t :: .mark :: rest
  | fuel + 1, _, false, .mark :: .plain t :: rest
  | fuel + 1, _, false, .plain t :: rest => readWords v fuel (some t) true rest
  | fuel + 1, operand, false, .mark :: rest => readWords v fuel operand true rest

/-- Reads arguments; nothing is read if one of them may mean several options. -/
def read (v : Vocabulary α) (args : List Text) : Option (Reading α) :=
  (wordsOf v args).map fun ws => readWords v (ws.length + 1) none false ws

end CommandLine

end TabletopChat
