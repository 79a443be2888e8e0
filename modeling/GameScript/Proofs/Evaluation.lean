import GameScript.Proofs.Command
import GameScript.Proofs.Quoting
import GameScript.Proofs.Rewriting

/-!
What expressions come to. A variable that has been declared hides all else of its name, whether it
holds a value or not. Main statements: an expression depends on the names in it only, and its plain
form comes to the same unless a variable hides a name that the plain form adds.
-/

namespace GameScript

/-- Names that keep their meaning, whatever is declared. -/
def isReserved (name : String) : Bool :=
  name = "argument_count" || name = "array_create" || name = "max"

def Memory.held? {α : Type} (memory : Memory α) (name : String) : Option (Option (Value α)) :=
  if name ∈ memory.declared ∧ isReserved name = false then some (memory.values name) else none

/-- What a call finds around it: names from outside, constants, operators and functions. What names
from outside stand for, and what functions come to, may depend on the arrays. -/
structure Host (α : Type) where
  outer : List (List (Value α)) → String → Value α
  unset : Value α
  number : Double → Value α
  bool : Bool → Value α
  string : String → Value α
  truth : Value α → Bool
  unary : UnaryOp → Value α → Value α
  binary : BinaryOp → Value α → Value α → Value α
  /-- What an operator comes to by its left operand alone. -/
  decided? : BinaryOp → Value α → Option (Value α)
  function : String → List (Value α) → StateM (List (List (Value α))) (Value α)
  invoke : Value α → List (Value α) → StateM (List (List (Value α))) (Value α)
  outer_infinity : ∀ arrays,
    outer arrays "infinity" = number (.ofMagnitude false Double.infiniteMagnitude)
  decided?_power : ∀ base, decided? .power base = none
  function_power : ∀ base exponent,
    function "power" [base, exponent] = pure (binary .power base exponent)

namespace Host

variable {α : Type} (host : Host α) (actuals : List (Value α)) (memory : Memory α)

def constant : Literal → Value α
  | .number value => host.number value
  | .bool value => host.bool value
  | .string body => host.string (Text.unescape body)
  | .char value => host.string (String.singleton value)
  | .undefined => .undefined

def read (name : String) : StateM (List (List (Value α))) (Value α) := do
  match memory.held? name with
  | some held => return held.getD host.unset
  | none =>
      if name = "argument_count" then return .number actuals.length
      else return host.outer (← get) name

def apply (name : String) (values : List (Value α)) :
    StateM (List (List (Value α))) (Value α) :=
  match memory.held? name with
  | some held => host.invoke (held.getD host.unset) values
  | none => host.function name values

mutual

/-- The value of an expression, its parts from left to right. A pipe is a call with its input as the
first argument. -/
def eval : Expr → StateM (List (List (Value α))) (Value α)
  | .binary op left right => do
      let first ← eval left
      match host.decided? op first with
      | some value => return value
      | none => return host.binary op first (← eval right)
  | .ternary test yes no => do
      let value ← eval test
      if host.truth value then eval yes else eval no
  | .pipe input name args => do
      let first ← eval input
      let others ← evalAll args
      host.apply memory name (first :: others)
  | .paren inner => eval inner
  | .call name args => do
      let values ← evalAll args
      host.apply memory name values
  | .ident name => host.read actuals memory name
  | .unary op operand => do
      let value ← eval operand
      return host.unary op value
  | .literal value => return host.constant value
  | .hole => return .undefined

def evalAll : List Expr → StateM (List (List (Value α))) (List (Value α))
  | [] => return []
  | x :: rest => do
      let first ← eval x
      let others ← evalAll rest
      return first :: others

end

def call : Call α where
  actuals
  evaluate memory x := (host.eval actuals memory x).run memory.arrays

theorem valueOf_call (x : Expr) :
    (host.call actuals).valueOf memory x = (host.eval actuals memory x).run memory.arrays := by
  unfold Call.valueOf
  split
  · simp [eval, constant]
    rfl
  · rfl

end Host

namespace Expr

mutual

def names : Expr → List String
  | binary _ left right => left.names ++ right.names
  | ternary test yes no => test.names ++ (yes.names ++ no.names)
  | pipe input name args => name :: (input.names ++ namesAll args)
  | paren inner => inner.names
  | call name args => name :: namesAll args
  | ident name => [name]
  | unary _ operand => operand.names
  | literal _ | hole => []

def namesAll : List Expr → List String
  | [] => []
  | x :: rest => x.names ++ namesAll rest

end

mutual

/-- The names that the plain form of an expression has besides. -/
def addedNames : Expr → List String
  | binary op left right =>
      (if op = .power then ["power"] else []) ++ (left.addedNames ++ right.addedNames)
  | ternary test yes no => test.addedNames ++ (yes.addedNames ++ no.addedNames)
  | pipe input _ args => input.addedNames ++ addedNamesAll args
  | paren inner => inner.addedNames
  | call _ args => addedNamesAll args
  | ident _ => []
  | unary _ operand => operand.addedNames
  | literal (.number value) => if value.isInfinite then ["infinity"] else []
  | literal _ | hole => []

def addedNamesAll : List Expr → List String
  | [] => []
  | x :: rest => x.addedNames ++ addedNamesAll rest

end

end Expr

namespace Host

variable {α : Type} (host : Host α) (actuals : List (Value α)) {memory other : Memory α}

theorem read_congr {name : String} (same : memory.held? name = other.held? name) :
    host.read actuals memory name = host.read actuals other name := by
  rw [read, read, same]

theorem apply_congr {name : String} (same : memory.held? name = other.held? name)
    (values : List (Value α)) : host.apply memory name values = host.apply other name values := by
  rw [apply, apply, same]

mutual

theorem eval_congr : (x : Expr) →
    (∀ name ∈ x.names, memory.held? name = other.held? name) →
    host.eval actuals memory x = host.eval actuals other x
  | .binary op left right, same => by
      simp only [Expr.names, List.forall_mem_append] at same
      rw [eval, eval, eval_congr left same.1, eval_congr right same.2]
  | .ternary test yes no, same => by
      simp only [Expr.names, List.forall_mem_append] at same
      rw [eval, eval, eval_congr test same.1, eval_congr yes same.2.1, eval_congr no same.2.2]
  | .pipe input name args, same => by
      simp only [Expr.names, List.forall_mem_cons, List.forall_mem_append] at same
      rw [eval, eval, eval_congr input same.2.1, evalAll_congr args same.2.2]
      simp only [host.apply_congr same.1]
  | .paren inner, same => by
      rw [eval, eval]
      exact eval_congr inner same
  | .call name args, same => by
      simp only [Expr.names, List.forall_mem_cons] at same
      rw [eval, eval, evalAll_congr args same.2]
      simp only [host.apply_congr same.1]
  | .ident name, same => by
      rw [eval, eval]
      exact host.read_congr actuals (same name (by simp [Expr.names]))
  | .unary op operand, same => by
      rw [eval, eval, eval_congr operand same]
  | .literal value, _ => rfl
  | .hole, _ => rfl

theorem evalAll_congr : (args : List Expr) →
    (∀ name ∈ Expr.namesAll args, memory.held? name = other.held? name) →
    host.evalAll actuals memory args = host.evalAll actuals other args
  | [], _ => rfl
  | x :: rest, same => by
      simp only [Expr.namesAll, List.forall_mem_append] at same
      rw [evalAll, evalAll, eval_congr x same.1, evalAll_congr rest same.2]

end

theorem evalAll_plain {args : List Expr}
    (each : ∀ arg ∈ args, (∀ name ∈ arg.addedNames, memory.held? name = none) →
      host.eval actuals memory arg.lower.nameInfinity = host.eval actuals memory arg)
    (clear : ∀ name ∈ Expr.addedNamesAll args, memory.held? name = none) :
    host.evalAll actuals memory ((args.map Expr.lower).map Expr.nameInfinity) =
      host.evalAll actuals memory args := by
  induction args with
  | nil => rfl
  | cons first others ih =>
      simp only [Expr.addedNamesAll, List.forall_mem_append] at clear
      have firstSame := each first (by simp) clear.1
      have othersSame := ih (fun arg member => each arg (by simp [member])) clear.2
      rw [List.map_cons, List.map_cons, evalAll, firstSame, othersSame, evalAll]

/-- The plain form of an expression comes to what the expression does, where no variable hides a name
that the plain form adds. -/
theorem eval_plain {x : Expr} (wellFormed : x.WellFormed Double.Unsigned)
    (clear : ∀ name ∈ x.addedNames, memory.held? name = none) :
    host.eval actuals memory x.lower.nameInfinity = host.eval actuals memory x := by
  induction wellFormed with
  | @binary op l r _ _ _ left right =>
      simp only [Expr.addedNames, List.forall_mem_append] at clear
      obtain ⟨here, leftClear, rightClear⟩ := clear
      by_cases power : op = .power
      · subst power
        have called : memory.held? "power" = none := here "power" (by simp)
        calc host.eval actuals memory (Expr.binary .power l r).lower.nameInfinity
            = host.eval actuals memory
                (.call "power" [l.lower.nameInfinity, r.lower.nameInfinity]) := rfl
          _ = host.eval actuals memory (.binary .power l r) := by
              simp [eval, evalAll, apply, called, host.function_power, host.decided?_power,
                left leftClear, right rightClear]
      · calc host.eval actuals memory (Expr.binary op l r).lower.nameInfinity
            = host.eval actuals memory (.binary op l.lower.nameInfinity r.lower.nameInfinity) := by
              rw [Expr.lower_binary power]
              rfl
          _ = host.eval actuals memory (.binary op l r) := by
              rw [eval, eval, left leftClear, right rightClear]
  | @ternary t y n _ _ _ test yes no =>
      simp only [Expr.addedNames, List.forall_mem_append] at clear
      calc host.eval actuals memory (Expr.ternary t y n).lower.nameInfinity
          = host.eval actuals memory
              (.ternary t.lower.nameInfinity y.lower.nameInfinity n.lower.nameInfinity) := rfl
        _ = host.eval actuals memory (.ternary t y n) := by
            rw [eval, eval, test clear.1, yes clear.2.1, no clear.2.2]
  | @pipe i name args _ _ _ input each =>
      simp only [Expr.addedNames, List.forall_mem_append] at clear
      calc host.eval actuals memory (Expr.pipe i name args).lower.nameInfinity
          = host.eval actuals memory (.call name
              (i.lower.nameInfinity :: (args.map Expr.lower).map Expr.nameInfinity)) := by
            rw [Expr.lower_pipe, Expr.nameInfinity_call, List.map_cons]
        _ = host.eval actuals memory (.pipe i name args) := by
            simp only [eval, evalAll, input clear.1, evalAll_plain host actuals each clear.2,
              bind_assoc, pure_bind]
  | paren _ inner => exact inner clear
  | call _ _ each =>
      rw [Expr.lower_call, Expr.nameInfinity_call, eval, evalAll_plain host actuals each clear, eval]
  | ident => rfl
  | @unary op o _ _ operand =>
      calc host.eval actuals memory (Expr.unary op o).lower.nameInfinity
          = host.eval actuals memory (.unary op o.lower.nameInfinity) := rfl
        _ = host.eval actuals memory (.unary op o) := by rw [eval, eval, operand clear]
  | @literal value good =>
      cases value with
      | number value =>
          cases infinite : value.isInfinite with
          | false =>
              simp [Expr.lower, Expr.rewrite, Expr.lowerForm, Expr.nameInfinity, Expr.nameInfinite,
                infinite]
          | true =>
              have named : memory.held? "infinity" = none :=
                clear "infinity" (by simp [Expr.addedNames, infinite])
              have whole : value = .ofMagnitude false Double.infiniteMagnitude := by
                have same := Double.ofMagnitude_magnitude (Double.Unsigned.not_negative good)
                rw [of_decide_eq_true infinite] at same
                exact same.symm
              calc host.eval actuals memory (Expr.literal (.number value)).lower.nameInfinity
                  = host.eval actuals memory (.ident "infinity") := by
                    simp [Expr.lower, Expr.rewrite, Expr.lowerForm, Expr.nameInfinity,
                      Expr.nameInfinite, infinite]
                _ = host.eval actuals memory (.literal (.number value)) := by
                    simp [eval, read, named, host.outer_infinity, constant, whole]
      | char value =>
          have text := Text.unescape_escape (Or.inl rfl) (String.singleton value)
          calc host.eval actuals memory (Expr.literal (.char value)).lower.nameInfinity
              = host.eval actuals memory (.literal (.ofText (String.singleton value))) := rfl
            _ = host.eval actuals memory (.literal (.char value)) := by
                simp [eval, constant, Literal.ofText, text]
      | bool | string | undefined => rfl

theorem eval_plain_declare {x : Expr} {own : String} (wellFormed : x.WellFormed Double.Unsigned)
    (unnamed : own ∉ x.names)
    (clear : ∀ name ∈ x.addedNames, name ∉ memory.declared ∧ name ≠ own) :
    host.eval actuals (memory.declare own none) x.lower.nameInfinity =
      host.eval actuals memory x := by
  have kept {name : String} (apart : name ≠ own) :
      (memory.declare own none).held? name = memory.held? name := by
    simp [Memory.held?, Memory.declare, apart]
  calc host.eval actuals (memory.declare own none) x.lower.nameInfinity
      = host.eval actuals (memory.declare own none) x := by
        apply eval_plain host actuals wellFormed
        intro name added
        rw [kept (clear name added).2]
        simp [Memory.held?, (clear name added).1]
    _ = host.eval actuals memory x :=
        host.eval_congr actuals x fun name named => kept fun same => unnamed (same ▸ named)

end Host

end GameScript
