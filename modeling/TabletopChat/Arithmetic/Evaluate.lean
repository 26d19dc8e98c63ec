import TabletopChat.Arithmetic.Call
import TabletopChat.Arithmetic.Parser
import TabletopChat.Text.Blank

/-!
# Arithmetic/Evaluate — the value of an expression

- `Expr.eval`  : the value of an expression that has been read
- `Expr.calls` : how many calls are open at once on the way to it
- `evaluate`   : the value of a text
- `Outcome`    : a number, a fault, or a text that cannot be read at all
-/

namespace TabletopChat

namespace Arithmetic

/-! ## Limits -/

/-- Exponents are not larger than this. -/
def maxExponent : Nat := 1000

def checked : Number → Except Fault Number
  | .int n => if Number.bits n > Number.maxBits then .error .tooLarge else .ok (.int n)
  | v => .ok v

def powerTooLarge : Number → Number → Bool
  | .int a, .int b => decide ((Number.bits a : Int) * b > Number.maxBits)
  | _, _ => false

def guardPower (left right : Number) : Except Fault Unit :=
  match absolute right with
  | .error f => .error f
  | .ok size =>
    if exceeds maxExponent size then .error (.exponentTooLarge right.write)
    else if powerTooLarge left right then .error .tooLarge
    else .ok ()

def operate (op : Operator) (left right : Number) : Except Fault Number :=
  match if op = .pow then guardPower left right else .ok () with
  | .error f => .error f
  | .ok () =>
    match op.apply left right with
    | .error f => .error f
    | .ok v => checked v

def applySign (negative : Bool) : Number → Number
  | .int n => .int (if negative then -n else n)
  | .real x => .real (if negative then -x else x)
  | .complex z => .complex (if negative then z.neg else z)

/-! ## Values -/

def constant? (name : Text) : Option Number :=
  if name = "pi".toList then some (.real 3.141592653589793)
  else if name = "e".toList then some (.real 2.718281828459045)
  else none

/-- The function of a call, unless it is not known or an argument is given by name. -/
def callee (function : Option Text) (named : Bool) : Except Fault Function :=
  match function with
  | none => .error (.unknownFunction none)
  | some name =>
    match Function.named? name with
    | none => .error (.unknownFunction (some name))
    | some f => if named then .error (.namedArguments name) else .ok f

mutual

def Expr.eval : Expr → Except Fault Number
  | .number v => checked v
  | .literal v => .error (.unsupportedValue v.display)
  | .symbol name =>
    match constant? name with
    | some v => .ok v
    | none => .error (.undefinedSymbol name)
  | .signed negative e =>
    match e.eval with
    | .error f => .error f
    | .ok v => checked (applySign negative v)
  | .binary op left right =>
    match left.eval with
    | .error f => .error f
    | .ok a =>
      match right.eval with
      | .error f => .error f
      | .ok b => operate op a b
  | .call function named args =>
    match callee function named with
    | .error f => .error f
    | .ok fn =>
      match evalAll args with
      | .error f => .error f
      | .ok vs =>
        match fn.apply vs with
        | .error f => .error f
        | .ok v => checked v
  | .form f => .error (.unsupportedForm f)

def evalAll : List Expr → Except Fault (List Number)
  | [] => .ok []
  | e :: es =>
    match e.eval with
    | .error f => .error f
    | .ok v =>
      match evalAll es with
      | .error f => .error f
      | .ok vs => .ok (v :: vs)

end

/-! ## Calls

An expression is evaluated by a function that calls itself for each operand. A host may allow only so many
calls to be open at once. -/

mutual

/-- How many calls are open at once while an expression is evaluated, up to its first fault. The last one
checks the size of a number or reports a fault. -/
def Expr.calls : Expr → Nat
  | .number v =>
    match checked v with
    | .error _ => 3
    | .ok _ => 2
  | .symbol name => if (constant? name).isSome then 1 else 2
  | .literal _ | .form _ => 2
  | .signed _ e => e.calls + 1
  | .binary _ left right =>
    match left.eval with
    | .error _ => left.calls + 1
    | .ok _ => max left.calls right.calls + 1
  | .call function named args =>
    match callee function named with
    | .error _ => 2
    | .ok _ => callsAll args + 2

def callsAll : List Expr → Nat
  | [] => 0
  | e :: es =>
    match e.eval with
    | .error _ => e.calls
    | .ok _ => max e.calls (callsAll es)

end

/-! ## Texts -/

/-- What evaluating a text can lead to. A text with a null character is refused as a whole. -/
inductive Outcome
  | number (v : Number)
  | fault (message : Text)
  | unreadable

/-- An expression as it is read: without blanks at its ends, and with `^` for powers. -/
def prepared (expression : Text) : Text :=
  Text.replaceAll ['^'] ['*', '*'] (Text.strip expression)

def evaluate (expression : Text) : Except Fault Number :=
  let t := prepared expression
  if t = [] then .error .empty
  else
    match parse? t with
    | none => .error .invalid
    | some e => e.eval

/-- How many calls are open at once while a text is evaluated; one that cannot be read is not. -/
def callsOf (expression : Text) : Nat :=
  if expression.contains '\x00' then 0 else ((parse? (prepared expression)).map Expr.calls).getD 0

/-- Whether a text is evaluated with no more calls open at once than the host allows. -/
def affordable (calls : Option Nat) (expression : Text) : Bool :=
  calls.all fun n => decide (callsOf expression ≤ n)

def outcome (expression : Text) : Outcome :=
  if expression.contains '\x00' then .unreadable
  else
    match evaluate expression with
    | .ok v => .number v
    | .error f => .fault (f.message (Text.strip expression))

end Arithmetic

end TabletopChat
