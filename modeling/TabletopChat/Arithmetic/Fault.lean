import TabletopChat.Arithmetic.Number

/-!
# Arithmetic/Fault — why an expression has no value

- `Form`    : the kinds of expressions that are read but not evaluated
- `Cause`   : what goes wrong inside of an operation or a function
- `Fault`   : why an expression has no value
- `Fault.message` : the wording, which may repeat the expression
-/

namespace TabletopChat

namespace Arithmetic

/-! ## Forms -/

/-- The kinds of expressions that are recognised but have no value here. -/
inductive Form
  | unary | binary | boolean | comparison | conditional | lambda | assignment
  | tuple | list | set | dict
  | listComprehension | setComprehension | dictComprehension | generator
  | await | yield | yieldFrom | attribute | subscript | starred | template
  deriving DecidableEq, Repr

def Form.name : Form → Text
  | .unary => "UnaryOp".toList
  | .binary => "BinOp".toList
  | .boolean => "BoolOp".toList
  | .comparison => "Compare".toList
  | .conditional => "IfExp".toList
  | .lambda => "Lambda".toList
  | .assignment => "NamedExpr".toList
  | .tuple => "Tuple".toList
  | .list => "List".toList
  | .set => "Set".toList
  | .dict => "Dict".toList
  | .listComprehension => "ListComp".toList
  | .setComprehension => "SetComp".toList
  | .dictComprehension => "DictComp".toList
  | .generator => "GeneratorExp".toList
  | .await => "Await".toList
  | .yield => "Yield".toList
  | .yieldFrom => "YieldFrom".toList
  | .attribute => "Attribute".toList
  | .subscript => "Subscript".toList
  | .starred => "Starred".toList
  | .template => "JoinedStr".toList

/-! ## Functions -/

inductive Function
  | abs | ceil | floor | round | sqrt | min | max
  deriving DecidableEq, Repr

def Function.name : Function → Text
  | .abs => "abs".toList
  | .ceil => "ceil".toList
  | .floor => "floor".toList
  | .round => "round".toList
  | .sqrt => "sqrt".toList
  | .min => "min".toList
  | .max => "max".toList

def Function.all : List Function := [.abs, .ceil, .floor, .round, .sqrt, .min, .max]

def Function.named? (name : Text) : Option Function := Function.all.find? fun f => f.name == name

/-! ## Causes -/

inductive Cause
  | quotientTooLarge
  | integerTooLarge
  | powerTooLarge
  | complexPowerTooLarge
  | absoluteTooLarge
  | roundedTooLarge
  | outsideDomain
  | infinityToInteger
  | undefinedToInteger
  | operands (op : Text) (left right : Number.Kind)
  | order (less : Bool) (left right : Number.Kind)
  | notReal
  | notRoundable
  | notIterable (kind : Number.Kind)
  | notIndex (kind : Number.Kind)
  | arity (f : Function) (given : Nat)
  deriving DecidableEq, Repr

/-- The wording for a function that is called with the wrong number of arguments. -/
def arityMessage (f : Function) (given : Nat) : Text :=
  let one (name : String) : Text :=
    name.toList ++ "() takes exactly one argument (".toList ++ Text.ofNat given ++
      " given)".toList
  match f with
  | .abs => one "abs"
  | .ceil => one "math.ceil"
  | .floor => one "math.floor"
  | .sqrt => one "math.sqrt"
  | .round =>
    if given = 0 then "round() missing required argument 'number' (pos 1)".toList
    else "round() takes at most 2 arguments (".toList ++ Text.ofNat given ++ " given)".toList
  | .min => "min expected at least 1 argument, got 0".toList
  | .max => "max expected at least 1 argument, got 0".toList

def Cause.message : Cause → Text
  | .quotientTooLarge => "integer division result too large for a float".toList
  | .integerTooLarge => "int too large to convert to float".toList
  | .powerTooLarge => "(34, 'Numerical result out of range')".toList
  | .complexPowerTooLarge => "complex exponentiation".toList
  | .absoluteTooLarge => "absolute value too large".toList
  | .roundedTooLarge => "rounded value too large to represent".toList
  | .outsideDomain => "math domain error".toList
  | .infinityToInteger => "cannot convert float infinity to integer".toList
  | .undefinedToInteger => "cannot convert float NaN to integer".toList
  | .operands op left right =>
    "unsupported operand type(s) for ".toList ++ op ++ ": '".toList ++ left.name ++
      "' and '".toList ++ right.name ++ ['\'']
  | .order less left right =>
    ['\'', if less then '<' else '>'] ++ "' not supported between instances of '".toList ++
      left.name ++ "' and '".toList ++ right.name ++ ['\'']
  | .notReal => "must be real number, not complex".toList
  | .notRoundable => "type complex doesn't define __round__ method".toList
  | .notIterable kind => '\'' :: kind.name ++ "' object is not iterable".toList
  | .notIndex kind => '\'' :: kind.name ++ "' object cannot be interpreted as an integer".toList
  | .arity f given => arityMessage f given

/-! ## Faults -/

/-- Why an expression has no value. -/
inductive Fault
  | empty
  | invalid
  | divisionByZero
  | impossible (cause : Cause)
  | unsupportedValue (literal : Text)
  | unsupportedForm (form : Form)
  | undefinedSymbol (name : Text)
  | unknownFunction (name : Option Text)
  | namedArguments (name : Text)
  | exponentTooLarge (exponent : Text)
  | tooLarge
  deriving DecidableEq, Repr

/-- The wording of a fault in the trimmed expression `source`. -/
def Fault.message (source : Text) : Fault → Text
  | .empty => "empty expression".toList
  | .invalid => "invalid expression: ".toList ++ source
  | .divisionByZero => "division by zero".toList
  | .impossible cause => "cannot evaluate ".toList ++ source ++ ": ".toList ++ cause.message
  | .unsupportedValue literal => "unsupported value: ".toList ++ literal
  | .unsupportedForm form => "unsupported syntax: ".toList ++ form.name
  | .undefinedSymbol name => "undefined symbol: ".toList ++ name
  | .unknownFunction name => "unknown function: ".toList ++ name.getD ['?']
  | .namedArguments name => "keyword arguments are not supported: ".toList ++ name
  | .exponentTooLarge exponent => "exponent too large: ".toList ++ exponent
  | .tooLarge => "result too large".toList

end Arithmetic

end TabletopChat
