import GameScript.Printer.Writer
import GameScript.Tree.Script

/-!
The text of scripts. The extended dialect declares arguments; the other ones read them from the
actual arguments in a prologue.
-/

namespace GameScript

/-- The commands of a prologue, which binds arguments in the plain dialect. An optional argument takes
the actual one at its index or a value, `undefined` if none is given; a variadic one allocates an array
and copies the actual arguments from its index on. -/
inductive PrologueCommand where
  | take (name : String) (index : Nat)
  | declare (name : String)
  | takeOr (name : String) (index : Nat) (value : Option Expr)
  | allocate (name : String) (first : Nat)
  | copyRest (name counter : String) (first : Nat)
deriving Repr

namespace PrologueCommand

def lines (dialect : Dialect) : PrologueCommand → List String
  | take name index => ["var " ++ name ++ " = argument[" ++ toString index ++ "];"]
  | declare name => ["var " ++ name ++ ";"]
  | takeOr name index value =>
      ["if (argument_count > " ++ toString index ++ ") " ++ name ++ " = argument[" ++
         toString index ++ "];",
       "else " ++ name ++ " = " ++
         (match value with
           | some value => value.text dialect
           | none => "undefined") ++ ";"]
  | allocate name first =>
      ["var " ++ name ++ " = array_create(max(0, argument_count - " ++ toString first ++ "));"]
  | copyRest name i first =>
      ["for (var " ++ i ++ " = " ++ toString first ++ "; " ++ i ++ " < argument_count; " ++ i ++
         "++) " ++ name ++ "[" ++ i ++ " - " ++ toString first ++ "] = argument[" ++ i ++ "];"]

end PrologueCommand

namespace Argument

def declarationText (dialect : Dialect) (argument : Argument) : String :=
  match argument.passing with
  | .defaulted value => "argument " ++ argument.name ++ " = " ++ optionalText dialect value
  | .optional => "argument " ++ argument.name ++ "?"
  | .variadic => "argument ..." ++ argument.name
  | .required | .unknown => "argument " ++ argument.name

def counter (argument : Argument) : String := "_" ++ argument.name ++ "_i"

def prologue (index : Nat) (argument : Argument) : List PrologueCommand :=
  match argument.passing with
  | .required => [.take argument.name index]
  | .defaulted value => [.declare argument.name, .takeOr argument.name index value]
  | .optional => [.declare argument.name, .takeOr argument.name index none]
  | .variadic =>
      [.allocate argument.name index, .copyRest argument.name argument.counter index]
  | .unknown => []

end Argument

namespace Script

def prologueFrom (index : Nat) : List Argument → List PrologueCommand
  | [] => []
  | argument :: rest => argument.prologue index ++ prologueFrom (index + 1) rest

def argumentLines (dialect : Dialect) (args : List Argument) : List String :=
  if dialect = .extended then args.map (·.declarationText dialect)
  else (prologueFrom 0 args).flatMap (·.lines dialect)

def pen (dialect : Dialect) (script : Script) : Pen :=
  Stmt.docPen 0 script.doc ++ Pen.lines 0 (argumentLines dialect script.args) ++
    Stmt.penAll dialect 0 script.body

def print (style : Style) (script : Script) : Output :=
  (script.pen style.dialect (Writer.fresh style)).1

/-- The text of a script; none if a list of statements has a hole. -/
def render? (style : Style) (script : Script) : Option String :=
  let output := script.print style
  if output.stopped then none else some output.text

end Script

end GameScript
