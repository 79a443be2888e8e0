import GameScript.Tree.Script

/-! Structural checks: faults that a parser lets through, each with its location in the tree. -/

namespace GameScript

inductive LocationStep where
  | item (index : Nat)
  | body
  | otherwise
deriving DecidableEq, Repr

structure Location where
  inArgs : Bool
  steps : List LocationStep
deriving DecidableEq, Repr

namespace Location

def below (location : Location) (step : LocationStep) : Location :=
  { location with steps := location.steps ++ [step] }

def scriptBody : Location := ⟨false, []⟩

def argument (index : Nat) : Location := ⟨true, [.item index]⟩

/-- A location in writing, such as `body[2].else`. -/
def text (location : Location) : String :=
  (if location.inArgs then "args" else "body") ++
    String.join (location.steps.map fun
      | .item index => "[" ++ toString index ++ "]"
      | .body => ".body"
      | .otherwise => ".else")

end Location

inductive Fault where
  | duplicateArgument (name : String)
  | argumentOrder (name : String)
  | unreachable
  | emptyLoop
deriving DecidableEq, Repr

namespace Fault

def code : Fault → String
  | duplicateArgument _ => "duplicate_argument"
  | argumentOrder _ => "argument_order"
  | unreachable => "unreachable"
  | emptyLoop => "empty_loop"

def message : Fault → String
  | duplicateArgument name => "duplicate argument " ++ name
  | argumentOrder name => "required argument " ++ name ++ " after optional argument"
  | unreachable => "unreachable statement"
  | emptyLoop => "loop body is empty"

def level : Fault → String
  | duplicateArgument _ => "error"
  | _ => "warning"

end Fault

structure Issue where
  fault : Fault
  location : Location
deriving DecidableEq, Repr

structure CheckOptions where
  skipUnreachable : Bool := false
  skipEmptyLoop : Bool := false
deriving DecidableEq, Repr

namespace Argument

def mayBeLeftOut (argument : Argument) : Bool :=
  match argument.passing with
  | .defaulted _ | .optional => true
  | _ => false

def isRequired (argument : Argument) : Bool :=
  match argument.passing with
  | .required => true
  | _ => false

def issues (earlier : List Argument) (index : Nat) (argument : Argument) : List Issue :=
  (if earlier.any (·.name = argument.name) then
    [⟨.duplicateArgument argument.name, Location.argument index⟩] else []) ++
  (if argument.isRequired && earlier.any mayBeLeftOut then
    [⟨.argumentOrder argument.name, Location.argument index⟩] else [])

def listIssues (earlier : List Argument) : List Argument → List Issue
  | [] => []
  | argument :: rest =>
      argument.issues earlier earlier.length ++ listIssues (earlier ++ [argument]) rest

end Argument

namespace Stmt

def jumps : Stmt → Bool
  | ret _ | exitScript | breakLoop | continueLoop => true
  | _ => false

def isIdle : Stmt → Bool
  | doc _ | noop => true
  | _ => false

def emptyLoopIssues (options : CheckOptions) (location : Location) (body : Stmt) : List Issue :=
  if body.isNoop && !options.skipEmptyLoop then [⟨.emptyLoop, location⟩] else []

mutual

def issues (options : CheckOptions) (location : Location) : Stmt → List Issue
  | block body => listIssues options (location.below .body) 0 false false body
  | branch _ yes no =>
      yes.issues options (location.below .body) ++ no.issues options (location.below .otherwise)
  | loop _ _ body | repeats _ body | forLoop _ _ _ body =>
      emptyLoopIssues options location body ++ body.issues options (location.below .body)
  | withTarget _ body => body.issues options (location.below .body)
  | _ => []

/-- The issues of a list from an index on. Only the first statement behind a jump is reported:
`dead` tells whether a jump came before, `reported` whether that statement did. -/
def listIssues (options : CheckOptions) (location : Location) (index : Nat)
    (dead reported : Bool) : List Stmt → List Issue
  | [] => []
  | statement :: rest =>
      let here := location.below (.item index)
      let found := dead && !reported && !options.skipUnreachable && !statement.isIdle
      (if found then [⟨.unreachable, here⟩] else []) ++ statement.issues options here ++
        listIssues options location (index + 1) (dead || statement.jumps) (reported || found) rest

end

end Stmt

def Script.issues (options : CheckOptions) (script : Script) : List Issue :=
  Argument.listIssues [] script.args ++
    Stmt.listIssues options Location.scriptBody 0 false false script.body

end GameScript
