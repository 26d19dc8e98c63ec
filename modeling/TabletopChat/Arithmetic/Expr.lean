import TabletopChat.Arithmetic.Literal
import TabletopChat.Arithmetic.Operation

/-!
# Arithmetic/Expr — expressions

- `Expr` : numbers, signs, operators and calls; everything else that can be read is a form
-/

namespace TabletopChat

namespace Arithmetic

/-- An expression. Parts of a form are not kept, because a form has no value. In a call, `function`
is the name if a name is called, and `named` tells whether an argument is given by name. -/
inductive Expr
  | number (v : Number)
  | literal (v : Literal)
  | symbol (name : Text)
  | signed (negative : Bool) (operand : Expr)
  | binary (op : Operator) (left right : Expr)
  | call (function : Option Text) (named : Bool) (arguments : List Expr)
  | form (f : Form)

def Expr.name? : Expr → Option Text
  | .symbol name => some name
  | _ => none

end Arithmetic

end TabletopChat
