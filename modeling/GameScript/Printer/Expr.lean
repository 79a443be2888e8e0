import GameScript.Double.Shortest
import GameScript.Tree.Expr

/-!
The text of expressions. Parentheses are added where the reader would otherwise group the parts
differently.
-/

namespace GameScript

/-- What the printed text is for. The plain dialect expresses the extended forms by calls, and the
extended one reads back as the same tree. Any other target has the arguments of the plain dialect and
the expressions of the extended one. -/
inductive Dialect where
  | plain
  | extended
  | other
deriving DecidableEq, Repr

def Literal.text (dialect : Dialect) : Literal → String
  | .number value => value.text
  | .bool value => if value then "true" else "false"
  | .string body => "\"" ++ body ++ "\""
  | .char value =>
      Text.enquote (if dialect = .plain then '"' else '\'') (String.singleton value)
  | .undefined => "undefined"

namespace Expr

def isNegative : Expr → Bool
  | literal (.number value) => value.printsNegative
  | _ => false

def precedence (dialect : Dialect) : Expr → Nat
  | binary op _ _ =>
      if op = .power && dialect = .plain then Precedence.value else Precedence.ofBinary op
  | ternary _ _ _ => Precedence.ternary
  | pipe _ _ _ => if dialect = .plain then Precedence.value else Precedence.pipe
  | _ => Precedence.value

def isPipe : Expr → Bool
  | pipe _ _ _ => true
  | _ => false

def pipeOnLeft (dialect : Dialect) : Expr → Bool
  | pipe _ _ _ => dialect != .plain
  | binary op left _ =>
      dialect != .plain &&
        (left.isPipe || Precedence.ofBinary op ≤ left.precedence dialect) &&
        left.pipeOnLeft dialect
  | _ => false

def parens (text : String) : String := "(" ++ text ++ ")"

def operand (dialect : Dialect) (x : Expr) (text : String) (least : Nat) : String :=
  if x.precedence dialect < least || x.isNegative then parens text else text

/-- An operand on the right. A pipe on its left edge would take the operator before it as its
input. -/
def rightOperand (dialect : Dialect) (x : Expr) (text : String) (least : Nat) : String :=
  if x.pipeOnLeft dialect then parens text else operand dialect x text least

/-- An operand on the left. A pipe takes only what stands before it, while a ternary would take
what follows into its last branch. -/
def leftOperand (dialect : Dialect) (x : Expr) (text : String) (least : Nat) : String :=
  match x with
  | pipe _ _ _ => text
  | ternary _ _ _ => parens text
  | x => operand dialect x text least

def unaryText (op : UnaryOp) (operand : String) : String :=
  match op with
  | .not => "!" ++ operand
  | .complement => "~" ++ operand
  | .negate => if operand.toList.head? = some '-' then "- " ++ operand else "-" ++ operand

def callText (name : String) (args : List String) : String :=
  name ++ "(" ++ String.intercalate ", " args ++ ")"

mutual

/-- The text of an expression. In the plain dialect a pipe is a call with its input as first
argument, and a power is a call of `power`. -/
def text (dialect : Dialect) : Expr → String
  | binary op left right =>
      if op = .power && dialect = .plain then
        callText "power" [left.text dialect, right.text dialect]
      else
        leftOperand dialect left (left.text dialect) (Precedence.ofBinary op) ++ " " ++ op.text ++
          " " ++ rightOperand dialect right (right.text dialect) (Precedence.ofBinary op + 1)
  | ternary test yes no =>
      leftOperand dialect test (test.text dialect) (Precedence.ternary + 1) ++ " ? " ++
        yes.text dialect ++ " : " ++ no.text dialect
  | pipe input name args =>
      if dialect = .plain then callText name (input.text dialect :: texts dialect args)
      else
        leftOperand dialect input (input.text dialect) Precedence.pipe ++ " |> " ++
          callText name (texts dialect args)
  | paren inner => parens (inner.text dialect)
  | call name args => callText name (texts dialect args)
  | ident name => name
  | unary op operand =>
      unaryText op
        (if operand.isNegative then parens (operand.text dialect) else operand.text dialect)
  | literal value => value.text dialect
  | hole => ""

def texts (dialect : Dialect) : List Expr → List String
  | [] => []
  | x :: rest => x.text dialect :: texts dialect rest

end

end Expr

end GameScript
