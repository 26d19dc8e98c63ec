import TabletopChat.Act
import TabletopChat.Arithmetic.Call
import TabletopChat.Dice.Notation.Tree

/-!
# Dice/Notation/Rolled — expressions with their dice rolled

Members of sets and single dice can be dropped; what is dropped counts as zero. A group of dice is worth
the sum of the dice that are kept, and a set the sum of its members that are, added up from left to right;
a comparison is worth one or zero. These values are found when they are asked for: a division by zero
inside of a set is not noticed before an operation selects from the set or the set is written as a term.

- `Die`, `Rolled`     : rolled dice and expressions
- `Rolled.total`      : what an expression is worth
- `Rolled.members`    : what an operation on an expression selects from
- `Rolled.flatten`    : an expression as a list of terms
-/

namespace TabletopChat

namespace Notation

open Arithmetic

/-! ## Rolled expressions -/

structure Die where
  value : Int
  kept : Bool
  deriving DecidableEq, Repr

/-- An expression with its dice rolled. A group remembers whether an operation was carried out on
it. -/
inductive Rolled
  | literal (v : Number) (kept : Bool)
  | dice (sides : Sides) (dice : List Die) (kept : Bool)
  | group (inner : Rolled) (operated : Bool) (kept : Bool)
  | set (members : List Rolled) (kept : Bool)
  | signed (negative : Bool) (operand : Rolled) (kept : Bool)
  | binary (op : Binary) (left right : Rolled) (kept : Bool)

def Rolled.kept : Rolled → Bool
  | .literal _ k => k
  | .dice _ _ k => k
  | .group _ _ k => k
  | .set _ k => k
  | .signed _ _ k => k
  | .binary _ _ _ k => k

def Rolled.drop : Rolled → Rolled
  | .literal v _ => .literal v false
  | .dice s ds _ => .dice s ds false
  | .group x o _ => .group x o false
  | .set xs _ => .set xs false
  | .signed n x _ => .signed n x false
  | .binary op l r _ => .binary op l r false

/-! ## Values -/

def keptValues (ds : List Die) : List Int := (ds.filter Die.kept).map Die.value

def truth (b : Bool) : Number := .int (if b then 1 else 0)

def compareBy (op : Binary) (o : Option Ordering) : Number :=
  match op with
  | .less => truth (o == some .lt)
  | .greater => truth (o == some .gt)
  | .lessEqual => truth (o == some .lt || o == some .eq)
  | .greaterEqual => truth (o == some .gt || o == some .eq)
  | .equal => truth (o == some .eq)
  | .notEqual => truth (o != some .eq)
  | .arithmetic _ => truth false

def Binary.value (op : Binary) (a b : Number) : Except Fault Number :=
  match op with
  | .arithmetic f => f.apply a b
  | op => .ok (compareBy op (compareNumbers a b))

def signedValue (negative : Bool) : Number → Number
  | .int n => .int (if negative then -n else n)
  | .real x => .real (if negative then -x else x)
  | .complex z => .complex (if negative then z.neg else z)

mutual

/-- What an expression is worth: zero if it is dropped. -/
def Rolled.total : Rolled → Except Fault Number
  | .literal v k => .ok (if k then v else .int 0)
  | .dice _ ds k => .ok (.int (if k then (keptValues ds).foldr (· + ·) 0 else 0))
  | .group x _ k => if k then x.total else .ok (.int 0)
  | .set xs k => if k then totalOf (.int 0) xs else .ok (.int 0)
  | .signed n x k =>
    if k then
      match x.total with
      | .ok v => .ok (signedValue n v)
      | .error f => .error f
    else .ok (.int 0)
  | .binary op l r k =>
    if k then
      match l.total with
      | .error f => .error f
      | .ok a =>
        match r.total with
        | .error f => .error f
        | .ok b => op.value a b
    else .ok (.int 0)

def totalOf (sum : Number) : List Rolled → Except Fault Number
  | [] => .ok sum
  | x :: xs =>
    if x.kept then
      match x.total with
      | .error f => .error f
      | .ok v =>
        match Operator.add.apply sum v with
        | .error f => .error f
        | .ok s => totalOf s xs
    else totalOf sum xs

end

/-! ## Members -/

/-- A member of a set, as far as selectors see it: nothing if it is dropped, and otherwise what it is
worth. -/
abbrev Member := Option (Except Fault Number)

def Die.member (d : Die) : Member := if d.kept then some (.ok (.int d.value)) else none

def Rolled.member (x : Rolled) : Member := if x.kept then some x.total else none

/-- What an operation on an expression selects from: the members of a set, the dice of a group of
dice, and otherwise the expression itself. -/
def Rolled.members : Rolled → List Member
  | .dice _ ds _ => ds.map Die.member
  | .set xs _ => xs.map Rolled.member
  | .group x _ _ => x.members
  | x => [x.member]

def dropAt {α : Type} (drop : α → α) (gone : Nat → Bool) (xs : List α) : List α :=
  xs.mapIdx fun i x => if gone i then drop x else x

def Rolled.dropMembers (gone : Nat → Bool) : Rolled → Rolled
  | .dice s ds k => .dice s (dropAt (fun d => { d with kept := false }) gone ds) k
  | .set xs k => .set (dropAt Rolled.drop gone xs) k
  | .group x o k => .group (x.dropMembers gone) o k
  | x => if gone 0 then x.drop else x

/-! ## Terms -/

/-- A piece of a rolled expression: text, or dice that were rolled together. -/
inductive Term
  | text (t : Text)
  | dice (g : DieGroup)
  deriving DecidableEq, Repr

def maxWritten : Nat := 4300

/-- Why an expression has no terms. -/
inductive Unwritten
  /-- a division by zero -/
  | division
  /-- an integer with too many digits -/
  | tooLong
  /-- an integer that is too large to be combined with a double -/
  | tooLarge
  deriving DecidableEq, Repr

def worth (r : Except Fault Number) : Except Unwritten Text :=
  match r with
  | .ok (.int n) =>
    if n.natAbs ≥ Nat.pow 10 maxWritten then .error .tooLong else .ok (Text.ofInt n)
  | .ok v => .ok v.display
  | .error .divisionByZero => .error .division
  | .error _ => .error .tooLarge

/-- An expression as a list of terms, in the order in which it is written. Sets, and groups that were
operated on, are written as what they are worth. -/
def Rolled.flatten : Rolled → Except Unwritten (List Term)
  | .dice s ds _ => .ok [.dice ⟨s, keptValues ds⟩]
  | .binary op l r _ =>
    match l.flatten with
    | .error e => .error e
    | .ok ls =>
      match r.flatten with
      | .error e => .error e
      | .ok rs => .ok (ls ++ .text (' ' :: op.sign ++ [' ']) :: rs)
  | .signed n x _ =>
    match x.flatten with
    | .error e => .error e
    | .ok ts => .ok (.text [if n then '-' else '+'] :: ts)
  | .group x false _ =>
    match x.flatten with
    | .error e => .error e
    | .ok ts => .ok (.text ['('] :: ts ++ [.text [')']])
  | x =>
    match worth x.total with
    | .error e => .error e
    | .ok t => .ok [.text t]

def groupsOf (ts : List Term) : List DieGroup :=
  ts.filterMap fun
    | .dice g => some g
    | .text _ => none

def arithmeticOf (ts : List Term) : Text :=
  ts.flatMap fun
    | .dice g => Text.ofInt g.total
    | .text t => t

end Notation

end TabletopChat
