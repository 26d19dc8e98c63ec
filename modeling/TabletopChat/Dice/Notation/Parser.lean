import TabletopChat.Decimal.Reader
import TabletopChat.Dice.Notation.Tree

/-!
# Dice/Notation/Parser — reading dice notation

The notation is that of the d20 roller, by the grammar that is documented for it:

    expr     : (expr ("==" | ">=" | "<=" | "!=" | "<" | ">"))? sum
    sum      : (sum ("+" | "-"))? product
    product  : (product ("*" | "//" | "/" | "%"))? operand
    operand  : ("+" | "-") operand | (dice | set | literal) note*
    dice     : INT? "d" (INT | "%") (("k" | "p" | "rr" | "ro" | "ra" | "e" | "mi" | "ma") selector)*
    set      : "(" (expr ("," expr)* ","?)? ")" (("k" | "p") selector)*
    selector : ("l" | "h" | "<" | ">")? INT
    literal  : INT | INT "." INT? | "." INT
    note     : "[" as little as possible, without line ends "]"

Blanks may stand behind operators, commas, operands and opening brackets, but not at the beginning and not
inside of a term. One expression in brackets without a comma is a group, everything else in brackets is a
set. The operators of one line of the grammar bind to the left: this is what `climb` and `climbRest` do,
with the levels that `binary?` gives. An integer of more than 4300 digits is refused as a count, as faces
and in a selector; as a literal it is a real number.

- `Unread` : why a text is not read
- `parse`  : the expression of a text
-/

namespace TabletopChat

namespace Notation

open Arithmetic

/-- Why a text is not read. -/
inductive Unread
  /-- it is not dice notation -/
  | malformed
  /-- a number has too many digits -/
  | numeralTooLong
  deriving DecidableEq, Repr

abbrev Reader (α : Type) := Text → Except Unread (α × Text)

/-! ## Parts of terms -/

def isGap (c : Char) : Bool := c = ' ' || c = '\t' || c = '\x0c' || c = '\r' || c = '\n'

def skipGap (t : Text) : Text := t.dropWhile isGap

def numeral (ds : Text) : Nat := ds.foldl (fun n c => 10 * n + (c.toNat - 48)) 0

/-- The most digits that an integer is written with. -/
def maxDigits : Nat := 4300

def integer : Reader Nat := fun t =>
  match t.takeWhile Char.isDigit with
  | [] => .error .malformed
  | ds =>
    if ds.length > maxDigits then .error .numeralTooLong
    else .ok (numeral ds, t.dropWhile Char.isDigit)

def selector : Reader Selector := fun t =>
  let (category, rest) : Selector.Category × Text :=
    match t with
    | 'l' :: rest => (.lowest, rest)
    | 'h' :: rest => (.highest, rest)
    | '<' :: rest => (.less, rest)
    | '>' :: rest => (.greater, rest)
    | rest => (.equal, rest)
  match integer rest with
  | .ok (n, rest) => .ok (⟨category, n⟩, rest)
  | .error e => .error e

/-- The action that a text begins with; sets of terms know two of them only. -/
def action? (onDice : Bool) : Text → Option (Action × Text)
  | 'k' :: rest => some (.keep, rest)
  | 'p' :: rest => some (.drop, rest)
  | 'r' :: 'r' :: rest => if onDice then some (.reroll, rest) else none
  | 'r' :: 'o' :: rest => if onDice then some (.rerollOnce, rest) else none
  | 'r' :: 'a' :: rest => if onDice then some (.explodeOnce, rest) else none
  | 'm' :: 'i' :: rest => if onDice then some (.minimum, rest) else none
  | 'm' :: 'a' :: rest => if onDice then some (.maximum, rest) else none
  | 'e' :: rest => if onDice then some (.explode, rest) else none
  | _ => none

/-- The operations behind a set or dice; `fuel` bounds their number. -/
def operationsFrom (onDice : Bool) : Nat → Reader (List Operation)
  | 0, t => .ok ([], t)
  | fuel + 1, t =>
    match action? onDice t with
    | none => .ok ([], t)
    | some (a, rest) =>
      match selector rest with
      | .error e => .error e
      | .ok (s, rest) =>
        match operationsFrom onDice fuel rest with
        | .error e => .error e
        | .ok (os, rest) => .ok (⟨a, [s]⟩ :: os, rest)

/-- The operations behind a set or dice, those of one kind that follow each other joined. -/
def operations (onDice : Bool) : Reader (List Operation) := fun t =>
  match operationsFrom onDice t.length t with
  | .error e => .error e
  | .ok (os, rest) => .ok ((joinOperations [] os).reverse, rest)

/-- The notes behind a term; each ends at the first closing bracket of its line. -/
def skipNotes : Nat → Text → Text
  | 0, t => t
  | fuel + 1, '[' :: cs =>
    match (cs.takeWhile (· ≠ '\n')).contains ']' with
    | true => skipNotes fuel (skipGap ((cs.dropWhile (· ≠ ']')).drop 1))
    | false => '[' :: cs
  | _ + 1, t => t

def afterTerm (t : Text) : Text :=
  let t := skipGap t
  skipNotes t.length t

/-- A number with a point, or an integer that is too long to be kept exactly. -/
def realLiteral (source : Text) : Tree :=
  .literal (.real ((Decimal.ofText? source).getD 0))

def sides : Reader Sides
  | '%' :: rest => .ok (.percent, rest)
  | t =>
    match integer t with
    | .ok (n, rest) => .ok (.faces n, rest)
    | .error e => .error e

def diceTerm (count : Text) : Reader Tree := fun t =>
  if count.length > maxDigits then .error .numeralTooLong
  else
    match sides t with
    | .error e => .error e
    | .ok (s, rest) =>
      match operations true rest with
      | .error e => .error e
      | .ok (os, rest) => .ok (.dice (if count = [] then 1 else numeral count) s os, rest)

def plainTerm : Reader Tree := fun t =>
  let whole := t.takeWhile Char.isDigit
  match whole, t.dropWhile Char.isDigit with
  | whole, 'd' :: rest => diceTerm whole rest
  | [], '.' :: rest =>
    match rest.takeWhile Char.isDigit with
    | [] => .error .malformed
    | fraction => .ok (realLiteral ('.' :: fraction), rest.dropWhile Char.isDigit)
  | [], _ => .error .malformed
  | whole, '.' :: rest =>
    .ok (realLiteral (whole ++ '.' :: rest.takeWhile Char.isDigit), rest.dropWhile Char.isDigit)
  | whole, rest =>
    if whole.length > maxDigits then .ok (realLiteral whole, rest)
    else .ok (.literal (.int (numeral whole)), rest)

/-! ## The grammar -/

inductive Rule
  | climb (level : Nat)
  | climbRest (level : Nat) (left : Tree)
  | operand
  | members (before : List Tree)

def binary? : Text → Option (Nat × Binary × Text)
  | '=' :: '=' :: rest => some (0, .equal, rest)
  | '>' :: '=' :: rest => some (0, .greaterEqual, rest)
  | '<' :: '=' :: rest => some (0, .lessEqual, rest)
  | '!' :: '=' :: rest => some (0, .notEqual, rest)
  | '<' :: rest => some (0, .less, rest)
  | '>' :: rest => some (0, .greater, rest)
  | '+' :: rest => some (1, .arithmetic .add, rest)
  | '-' :: rest => some (1, .arithmetic .sub, rest)
  | '*' :: rest => some (2, .arithmetic .mul, rest)
  | '/' :: '/' :: rest => some (2, .arithmetic .floorDiv, rest)
  | '/' :: rest => some (2, .arithmetic .div, rest)
  | '%' :: rest => some (2, .arithmetic .mod, rest)
  | _ => none

section Grammar

variable (self : Rule → Reader Tree)

def closeBracket (make : List Operation → Tree) (t : Text) : Except Unread (Tree × Text) :=
  match operations false t with
  | .ok (os, rest) => .ok (make os, rest)
  | .error e => .error e

/-- The members of a set after those before, up to the closing bracket. A single member without a
comma behind it makes a group. -/
def members (before : List Tree) : Reader Tree := fun t =>
  match self (.climb 0) t with
  | .error e => .error e
  | .ok (m, rest) =>
    match skipGap rest with
    | ',' :: rest =>
      match skipGap rest with
      | ')' :: rest => closeBracket (.set (before ++ [m])) rest
      | rest => self (.members (before ++ [m])) rest
    | ')' :: rest =>
      closeBracket (match before with | [] => .group m | _ => .set (before ++ [m])) rest
    | _ => .error .malformed

def term : Reader Tree
  | '(' :: rest =>
    match skipGap rest with
    | ')' :: rest => closeBracket (.set []) rest
    | rest => self (.members []) rest
  | t => plainTerm t

def operand : Reader Tree
  | '+' :: rest =>
    match self .operand (skipGap rest) with
    | .ok (x, rest) => .ok (.signed false x, rest)
    | .error e => .error e
  | '-' :: rest =>
    match self .operand (skipGap rest) with
    | .ok (x, rest) => .ok (.signed true x, rest)
    | .error e => .error e
  | t =>
    match term self t with
    | .ok (x, rest) => .ok (x, afterTerm rest)
    | .error e => .error e

/-- Operators that bind at least as tightly as `level`, behind a left operand. -/
def climbRest (level : Nat) (left : Tree) : Reader Tree := fun t =>
  match binary? t with
  | none => .ok (left, t)
  | some (k, op, rest) =>
    if level ≤ k then
      match self (.climb (k + 1)) (skipGap rest) with
      | .error e => .error e
      | .ok (right, rest) => self (.climbRest level (.binary op left right)) rest
    else .ok (left, t)

def apply : Rule → Reader Tree
  | .climb level => fun t =>
    match self .operand t with
    | .error e => .error e
    | .ok (x, rest) => self (.climbRest level x) rest
  | .climbRest level left => climbRest self level left
  | .operand => operand self
  | .members before => members self before

end Grammar

/-- Reads by a rule, nesting at most `fuel` rules. -/
def read : Nat → Rule → Reader Tree
  | 0, _ => fun _ => .error .malformed
  | fuel + 1, rule => apply (read fuel) rule

def parse (t : Text) : Except Unread Tree :=
  match read (4 * (t.length + 2)) (.climb 0) t with
  | .error e => .error e
  | .ok (x, []) => .ok x
  | .ok (_, _) => .error .malformed

end Notation

end TabletopChat
