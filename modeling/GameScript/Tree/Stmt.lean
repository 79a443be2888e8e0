import GameScript.Tree.Expr

/-! Statements. -/

namespace GameScript

inductive AssignOp where
  | assign
  | add
  | subtract
  | multiply
  | divide
  | remainder
  | power
  | bitAnd
  | bitOr
  | bitXor
  | shiftLeft
  | shiftRight
  | increment
  | decrement
  | unknown
deriving DecidableEq, Repr

namespace AssignOp

def text : AssignOp → String
  | assign => "="
  | add => "+="
  | subtract => "-="
  | multiply => "*="
  | divide => "/="
  | remainder => "%="
  | power => "**="
  | bitAnd => "&="
  | bitOr => "|="
  | bitXor => "^="
  | shiftLeft => "<<="
  | shiftRight => ">>="
  | increment => "++"
  | decrement => "--"
  | unknown => ""

def isStep : AssignOp → Bool
  | increment | decrement => true
  | _ => false

end AssignOp

/-- `target op value`; a step such as `target++` has no value. -/
structure Assignment where
  target : String
  op : AssignOp
  value : Option Expr
deriving Repr

structure Declaration where
  name : String
  global : Bool
  value : Option Expr
deriving Repr

inductive LoopKind where
  | whileLoop
  | untilLoop
  | doWhile
  | doUntil
deriving DecidableEq, Repr

/-- Statements. A hole is an empty place: an absent `else` branch, or a gap in a tree that was not
parsed. -/
inductive Stmt where
  | noop
  | assign (assignment : Assignment)
  | expr (value : Expr)
  | declare (declaration : Declaration)
  | branch (test : Expr) (yes no : Stmt)
  | loop (kind : LoopKind) (test : Expr) (body : Stmt)
  | repeats (count : Expr) (body : Stmt)
  | withTarget (target : Expr) (body : Stmt)
  | forLoop (init : Stmt) (test : Option Expr) (update : Stmt) (body : Stmt)
  | block (body : List Stmt)
  | ret (value : Option Expr)
  | breakLoop
  | continueLoop
  | exitScript
  | doc (lines : List String)
  | hole
deriving Inhabited, Repr

namespace Stmt

def isBranch : Stmt → Bool
  | branch _ _ _ => true
  | _ => false

def isHole : Stmt → Bool
  | hole => true
  | _ => false

def isNoop : Stmt → Bool
  | noop => true
  | _ => false

end Stmt

end GameScript
