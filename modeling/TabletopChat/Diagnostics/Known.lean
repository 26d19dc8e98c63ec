import TabletopChat.Evaluation.Evaluate

/-!
# Diagnostics/Known — names that an evaluation will give

Without evaluating a message, the names of its results are known: those that its rolls write, and the
numbers that the other rolls get.

- `explicitNames`  : the names that rolls write
- `numberedCount`  : how many rolls get a number
- `knownNames`     : all of them
-/

namespace TabletopChat

namespace Diagnostics

open Markup

/-- The name that a roll with these children writes, if its first child is a text. -/
def ownName? : List Node → Option Text
  | .text t _ :: _ => (Evaluation.explicitName t).1
  | _ => none

/-- Whether a roll with these children has neither rolls inside of it nor anything but blanks. -/
def isBlankRoll (children : List Node) : Bool :=
  children.all fun
    | .text t _ => Text.allBlank t
    | .roll .. => false

mutual

def explicitNames : Node → List Text
  | .text _ _ => []
  | .roll _ _ children _ => (ownName? children).toList ++ explicitNamesOf children

def explicitNamesOf : List Node → List Text
  | [] => []
  | n :: ns => explicitNames n ++ explicitNamesOf ns

end

mutual

/-- How many rolls of a node get a number: those that write no name, except blank ones. -/
def numberedCount : Node → Nat
  | .text _ _ => 0
  | .roll _ _ children _ =>
    (if (ownName? children).isNone && !isBlankRoll children then 1 else 0) +
      numberedCountOf children

def numberedCountOf : List Node → Nat
  | [] => 0
  | n :: ns => numberedCount n + numberedCountOf ns

end

def knownNames (m : Message) : List Text :=
  explicitNamesOf m.children ++
    (List.range (numberedCountOf m.children)).map fun i => Text.ofNat (i + 1)

end Diagnostics

end TabletopChat
