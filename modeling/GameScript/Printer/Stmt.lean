import GameScript.Printer.Expr
import GameScript.Tree.Stmt

/-! Styles, and the texts that statements are made of. -/

namespace GameScript

structure Style where
  indent : String
  dialect : Dialect
deriving DecidableEq, Repr

namespace Style

def ofOptions (indent : String) (dialect : Dialect) : Style :=
  ⟨if indent = "" then "    " else indent, dialect⟩

/-- The blank at the start of a line. There is none at level zero and below. -/
def margin (style : Style) (level : Int) : String :=
  String.join (List.replicate level.toNat style.indent)

end Style

def optionalText (dialect : Dialect) : Option Expr → String
  | some value => value.text dialect
  | none => ""

def Assignment.text (dialect : Dialect) (assignment : Assignment) : String :=
  if assignment.op.isStep then assignment.target ++ assignment.op.text
  else if assignment.op = .power && dialect = .plain then
    assignment.target ++ " = " ++
      Expr.callText "power" [assignment.target, optionalText dialect assignment.value]
  else
    assignment.target ++ " " ++ assignment.op.text ++ " " ++ optionalText dialect assignment.value

def Declaration.text (dialect : Dialect) (declaration : Declaration) : String :=
  (if declaration.global then "globalvar " else "var ") ++ declaration.name ++
    match declaration.value with
    | some value => " = " ++ value.text dialect
    | none => ""

namespace Stmt

def clauseText (dialect : Dialect) : Stmt → String
  | assign assignment => assignment.text dialect
  | expr value => value.text dialect
  | declare declaration => declaration.text dialect
  | _ => ""

def forHeader (dialect : Dialect) (init : Stmt) (test : Option Expr) (update : Stmt) : String :=
  let space (text : String) : String := " " ++ text
  "for (" ++ init.clauseText dialect ++ ";" ++
    (match test with
      | some test => space (test.text dialect)
      | none => "") ++ ";" ++
    (if update.clauseText dialect = "" then "" else space (update.clauseText dialect)) ++ ")"

/-- Where a statement stands: on lines of its own, after the header that it is the body of, or after
`else` on the same line. -/
inductive Place where
  | line
  | body
  | chained

def staysOnLine : Stmt → Bool
  | block _ | noop | hole => true
  | _ => false

def lineClose (body : Stmt) : String :=
  if body.staysOnLine then "\n" else ""

def loopHead (dialect : Dialect) (kind : LoopKind) (test : Expr) : String :=
  (match kind with
    | .whileLoop | .doWhile => "while "
    | .untilLoop | .doUntil => "until ") ++ Expr.parens (test.text dialect)

def testsFirst : LoopKind → Bool
  | .whileLoop | .untilLoop => true
  | .doWhile | .doUntil => false

end Stmt

end GameScript
