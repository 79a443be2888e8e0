import GameScript.Tree.Stmt

/-! Scripts: doc lines, formal arguments and statements. -/

namespace GameScript

/-- How an argument is passed. A defaulted or an optional one may be left out, for a value or for
`undefined`; a variadic one takes all that are left, as an array. `unknown` is a kind outside the table. -/
inductive Passing where
  | required
  | defaulted (value : Option Expr)
  | optional
  | variadic
  | unknown
deriving Repr

structure Argument where
  name : String
  passing : Passing
deriving Repr

structure Script where
  doc : List String
  args : List Argument
  body : List Stmt
deriving Repr

def Script.empty : Script := ⟨[], [], []⟩

end GameScript
