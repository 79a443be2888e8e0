import GameScript.Parser.Script
import GameScript.Printer.Script

/-! Compiling a text: parsing it and printing the script in some style. -/

namespace GameScript

inductive CompileError where
  | malformed (reason : SourceError)
  | incomplete
deriving DecidableEq, Repr

def CompileError.message : CompileError → String
  | .malformed reason => reason.message
  | .incomplete => "unknown statement: <nil>"

def Script.render (style : Style) (script : Script) : Except CompileError String :=
  match script.render? style with
  | some text => .ok text
  | none => .error .incomplete

def compile (style : Style) (chars : List Char) : Except CompileError String :=
  match parse chars with
  | .ok script => script.render style
  | .error reason => .error (.malformed reason)

end GameScript
