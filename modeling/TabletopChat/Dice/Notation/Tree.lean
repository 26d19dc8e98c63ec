import TabletopChat.Arithmetic.Operation
import TabletopChat.Dice.Group

/-!
# Dice/Notation/Tree — dice notation as it is written

The operations behind dice and sets are those of the d20 roller: `k` keeps what is selected, `p` drops it,
`rr` rolls it again as long as it is selected, `ro` does so once, `ra` adds one die for the first that is
selected, `e` adds a die for each that is selected until none is new, `mi` and `ma` move dice to a bound.
Neighbouring operations of one kind share their selectors, but for the last two.

- `Selector`  : which members of a set are meant
- `Action`, `Operation` : what is done with them
- `Binary`    : the operators between two terms
- `Tree`      : an expression
-/

namespace TabletopChat

namespace Notation

open Arithmetic

/-! ## Operations on sets -/

inductive Selector.Category
  | lowest | highest | less | greater | equal
  deriving DecidableEq, Repr

/-- Which members of a set are meant: a number of the lowest or highest ones, or those that compare
with the number. -/
structure Selector where
  category : Selector.Category
  number : Nat
  deriving DecidableEq, Repr

def Selector.Category.sign : Selector.Category → Text
  | .lowest => ['l']
  | .highest => ['h']
  | .less => ['<']
  | .greater => ['>']
  | .equal => []

def Selector.source (s : Selector) : Text := s.category.sign ++ Text.ofNat s.number

/-- What is done with selected members. Only dice can be rolled again, exploded or bounded. -/
inductive Action
  | keep | drop | reroll | rerollOnce | explodeOnce | explode | minimum | maximum
  deriving DecidableEq, Repr

/-- Actions that are carried out one by one: two of them that follow each other are not joined. -/
def Action.isImmediate : Action → Bool
  | .minimum => true
  | .maximum => true
  | _ => false

/-- An action and the selectors of the members that it is for. -/
structure Operation where
  action : Action
  selectors : List Selector
  deriving DecidableEq, Repr

/-- Joins operations of one kind that follow each other; the result is in reverse order. -/
def joinOperations : List Operation → List Operation → List Operation
  | done, [] => done
  | [], o :: os => joinOperations [o] os
  | last :: done, o :: os =>
    if o.action = last.action ∧ o.action.isImmediate = false then
      joinOperations ({ last with selectors := last.selectors ++ o.selectors } :: done) os
    else joinOperations (o :: last :: done) os

/-! ## Expressions -/

inductive Binary
  | arithmetic (op : Operator)
  | less | greater | lessEqual | greaterEqual | equal | notEqual

def Binary.sign : Binary → Text
  | .arithmetic op => op.sign
  | .less => ['<']
  | .greater => ['>']
  | .lessEqual => ['<', '=']
  | .greaterEqual => ['>', '=']
  | .equal => ['=', '=']
  | .notEqual => ['!', '=']

/-- An expression. A term in brackets with a comma is a set, without one it is a group. -/
inductive Tree
  | literal (v : Number)
  | dice (count : Nat) (sides : Sides) (operations : List Operation)
  | group (inner : Tree) (operations : List Operation)
  | set (members : List Tree) (operations : List Operation)
  | signed (negative : Bool) (operand : Tree)
  | binary (op : Binary) (left right : Tree)

end Notation

end TabletopChat
