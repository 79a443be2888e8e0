import GameScript.Double
import GameScript.Text.Escape

/-! Expressions. -/

namespace GameScript

/-- Binary operators. `unknown` stands for an operator outside the table; it has no spelling and
binds weaker than all others. -/
inductive BinaryOp where
  | or
  | and
  | equal
  | notEqual
  | less
  | lessEqual
  | greater
  | greaterEqual
  | bitOr
  | bitXor
  | bitAnd
  | shiftLeft
  | shiftRight
  | intDiv
  | intMod
  | plus
  | minus
  | times
  | divide
  | percent
  | power
  | unknown
deriving DecidableEq, Repr

namespace BinaryOp

def text : BinaryOp → String
  | or => "||"
  | and => "&&"
  | equal => "=="
  | notEqual => "!="
  | less => "<"
  | lessEqual => "<="
  | greater => ">"
  | greaterEqual => ">="
  | bitOr => "|"
  | bitXor => "^"
  | bitAnd => "&"
  | shiftLeft => "<<"
  | shiftRight => ">>"
  | intDiv => "div"
  | intMod => "mod"
  | plus => "+"
  | minus => "-"
  | times => "*"
  | divide => "/"
  | percent => "%"
  | power => "**"
  | unknown => ""

end BinaryOp

/-! How strongly the forms of expressions bind, weakest first. -/

namespace Precedence

def pipe : Nat := 1
def ternary : Nat := 2

def ofBinary : BinaryOp → Nat
  | .unknown => 0
  | .or => 3
  | .and => 4
  | .equal | .notEqual | .less | .lessEqual | .greater | .greaterEqual => 5
  | .bitOr => 6
  | .bitXor => 7
  | .bitAnd => 8
  | .shiftLeft | .shiftRight => 9
  | .intDiv | .intMod => 10
  | .plus | .minus => 11
  | .times | .divide | .percent => 12
  | .power => 13

def value : Nat := 14

end Precedence

inductive UnaryOp where
  | negate
  | not
  | complement
deriving DecidableEq, Repr

inductive Literal where
  | number (value : Double)
  | bool (value : Bool)
  | string (body : String)
  | char (value : Char)
  | undefined
deriving DecidableEq, Repr

def Literal.ofText (text : String) : Literal :=
  .string (Text.escape '"' text)

/-- Expressions. A pipe feeds its input to the call `name(args)`. A hole is an empty place in a
tree that was not parsed. -/
inductive Expr where
  | binary (op : BinaryOp) (left right : Expr)
  | ternary (test yes no : Expr)
  | pipe (input : Expr) (name : String) (args : List Expr)
  | paren (inner : Expr)
  | call (name : String) (args : List Expr)
  | ident (name : String)
  | unary (op : UnaryOp) (operand : Expr)
  | literal (value : Literal)
  | hole
deriving Inhabited, Repr

end GameScript
