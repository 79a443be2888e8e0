import GameScript.Parser.Expr
import GameScript.Scanner
import Mathlib.Logic.Function.Basic

/-!
Commands of the plain dialect that bind arguments: how they are read from a text, and what running
them does to the variables and the arrays of a call.
-/

namespace GameScript

inductive Quantity where
  | number (value : Nat)
  | named (name : String)
  | count
  | minus (left right : Quantity)
  | max (left right : Quantity)
deriving DecidableEq, Repr

inductive Test where
  | less (left right : Quantity)
  | greater (left right : Quantity)
deriving DecidableEq, Repr

inductive Operand where
  | actual (index : Quantity)
  | fresh (size : Quantity)
  | value (x : Expr)
deriving Repr

inductive SimpleCommand where
  | declare (name : String)
  | declareAs (name : String) (operand : Operand)
  | assign (name : String) (operand : Operand)
  | store (array : String) (index : Quantity) (operand : Operand)
deriving Repr

/-- Commands. A loop declares its counter, and counts it up by one after each round. -/
inductive Command where
  | simple (command : SimpleCommand)
  | branch (test : Test) (yes no : SimpleCommand)
  | loop (counter : String) (first : Quantity) (test : Test) (body : SimpleCommand)
deriving Repr

/-! Reading. Positions play no part, so all tokens are moved to one place before. -/

def Token.unplaced (token : Token) : Token := { token with position := Position.first }

def upTo {α : Type} (sign : Symbol) : Option (α × List Token) → Option (α × List Token)
  | some (value, token :: rest) => if token.kind = .symbol sign then some (value, rest) else none
  | _ => none

namespace Quantity

def atom? (token : Token) : Option Quantity :=
  match token.kind with
  | .decimal =>
      if token.lit.toList.all Char.isDigit then
        some (.number (Nat.ofDigitChars 10 token.lit.toList 0))
      else none
  | .ident => some (if token.lit = "argument_count" then .count else .named token.lit)
  | _ => none

def difference? : List Token → Option (Quantity × List Token)
  | left :: ⟨.symbol .minus, _, _⟩ :: right :: rest => do
      let left ← atom? left
      let right ← atom? right
      return (.minus left right, rest)
  | token :: rest => do
      let atom ← atom? token
      return (atom, rest)
  | [] => none

def read? : List Token → Option (Quantity × List Token)
  | function :: ⟨.symbol .leftParen, _, _⟩ :: rest =>
      if function.kind = .ident ∧ function.lit = "max" then do
        let (left, rest) ← upTo .comma (difference? rest)
        let (right, rest) ← upTo .rightParen (difference? rest)
        return (.max left right, rest)
      else none
  | tokens => difference? tokens

end Quantity

def Test.read? : List Token → Option (Test × List Token)
  | left :: ⟨.symbol .less, _, _⟩ :: right :: rest => do
      let left ← Quantity.atom? left
      let right ← Quantity.atom? right
      return (.less left right, rest)
  | left :: ⟨.symbol .greater, _, _⟩ :: right :: rest => do
      let left ← Quantity.atom? left
      let right ← Quantity.atom? right
      return (.greater left right, rest)
  | _ => none

namespace Operand

def actual? : List Token → Option (Operand × List Token)
  | ⟨.keyword .argument_, _, _⟩ :: ⟨.symbol .leftBracket, _, _⟩ :: rest => do
      let (index, rest) ← upTo .rightBracket (Quantity.read? rest)
      return (.actual index, rest)
  | _ => none

def fresh? : List Token → Option (Operand × List Token)
  | function :: ⟨.symbol .leftParen, _, _⟩ :: rest =>
      if function.kind = .ident ∧ function.lit = "array_create" then do
        let (size, rest) ← upTo .rightParen (Quantity.read? rest)
        return (.fresh size, rest)
      else none
  | _ => none

def value? (tokens : List Token) : Option (Operand × List Token) :=
  match Parser.expression (Cursor.ofTokens tokens) with
  | .ok x after => some (.value x, after.rest)
  | .error _ _ => none

end Operand

def SimpleCommand.read? : List Token → Option (SimpleCommand × List Token)
  | ⟨.keyword .var_, _, _⟩ :: ⟨.ident, name, _⟩ :: ⟨.symbol .semicolon, _, _⟩ :: rest =>
      some (.declare name, rest)
  | ⟨.keyword .var_, _, _⟩ :: ⟨.ident, name, _⟩ :: ⟨.symbol .assign, _, _⟩ :: rest => do
      let (operand, rest) ← upTo .semicolon (Operand.actual? rest <|> Operand.fresh? rest)
      return (.declareAs name operand, rest)
  | ⟨.ident, name, _⟩ :: ⟨.symbol .assign, _, _⟩ :: rest => do
      let (operand, rest) ← upTo .semicolon (Operand.actual? rest <|> Operand.value? rest)
      return (.assign name operand, rest)
  | ⟨.ident, array, _⟩ :: ⟨.symbol .leftBracket, _, _⟩ :: rest => do
      let (index, rest) ← upTo .assign (upTo .rightBracket (Quantity.read? rest))
      let (operand, rest) ← upTo .semicolon (Operand.actual? rest)
      return (.store array index operand, rest)
  | _ => none

namespace Command

def otherwise? (tokens : List Token) : Option (SimpleCommand × List Token) :=
  match tokens.dropWhile (·.kind = .lineEnd) with
  | ⟨.keyword .else_, _, _⟩ :: rest => SimpleCommand.read? rest
  | _ => none

def step? (counter : String) : List Token → Option (Unit × List Token)
  | ⟨.ident, name, _⟩ :: ⟨.symbol .increment, _, _⟩ :: rest =>
      if name = counter then some ((), rest) else none
  | _ => none

def read? : List Token → Option (Command × List Token)
  | ⟨.keyword .if_, _, _⟩ :: ⟨.symbol .leftParen, _, _⟩ :: rest => do
      let (test, rest) ← upTo .rightParen (Test.read? rest)
      let (yes, rest) ← SimpleCommand.read? rest
      let (no, rest) ← otherwise? rest
      return (.branch test yes no, rest)
  | ⟨.keyword .for_, _, _⟩ :: ⟨.symbol .leftParen, _, _⟩ :: ⟨.keyword .var_, _, _⟩ ::
      ⟨.ident, counter, _⟩ :: ⟨.symbol .assign, _, _⟩ :: rest => do
      let (first, rest) ← upTo .semicolon (Quantity.read? rest)
      let (test, rest) ← upTo .semicolon (Test.read? rest)
      let (_, rest) ← upTo .rightParen (step? counter rest)
      let (body, rest) ← SimpleCommand.read? rest
      return (.loop counter first test body, rest)
  | tokens => do
      let (command, rest) ← SimpleCommand.read? tokens
      return (.simple command, rest)

def readAll? : (fuel : Nat) → List Token → Option (List Command)
  | 0, _ => none
  | _ + 1, [] => none
  | fuel + 1, token :: rest =>
      if token.kind = .finish then some []
      else if token.kind = .lineEnd then readAll? fuel rest
      else do
        let (command, rest) ← read? (token :: rest)
        let commands ← readAll? fuel rest
        return command :: commands

def ofText? (text : String) : Option (List Command) :=
  match tokenize text.toList with
  | .ok tokens => readAll? tokens.length (tokens.tail.map Token.unplaced)
  | .error _ => none

end Command

/-! Running. -/

/-- Values of the plain dialect. An array is known by its place. -/
inductive Value (α : Type) where
  | undefined
  | number (value : Int)
  | array (place : Nat)
  | other (value : α)
deriving DecidableEq, Repr

/-- The variables that a call has declared, what they hold, and all arrays. A variable without a
value has been declared all the same. -/
structure Memory (α : Type) where
  declared : List String
  values : String → Option (Value α)
  arrays : List (List (Value α))

def Memory.start {α : Type} (arrays : List (List (Value α))) : Memory α :=
  ⟨[], fun _ => none, arrays⟩

/-- A call: the actual arguments, and what expressions come to. An expression may change arrays. -/
structure Call (α : Type) where
  actuals : List (Value α)
  evaluate : Memory α → Expr → Value α × List (List (Value α))

section Running

variable {α : Type} (call : Call α)

def Call.valueOf (memory : Memory α) : Expr → Value α × List (List (Value α))
  | .literal .undefined => (.undefined, memory.arrays)
  | x => call.evaluate memory x

namespace Memory

def declare (name : String) (value : Option (Value α)) (memory : Memory α) : Memory α :=
  { memory with
    values := Function.update memory.values name value
    declared := memory.declared ++ [name] }

def assign (name : String) (value : Value α) (memory : Memory α) : Option (Memory α) :=
  if name ∈ memory.declared then
    some { memory with values := Function.update memory.values name (some value) }
  else none

def store (name : String) (index : Nat) (value : Value α) (memory : Memory α) :
    Option (Memory α) :=
  match memory.values name with
  | some (.array place) => do
      let items ← memory.arrays[place]?
      if index < items.length then
        some { memory with arrays := memory.arrays.set place (items.set index value) }
      else none
  | _ => none

def increment (name : String) (memory : Memory α) : Option (Memory α) :=
  match memory.values name with
  | some (.number value) => memory.assign name (.number (value + 1))
  | _ => none

end Memory

def Quantity.eval (memory : Memory α) : Quantity → Option Int
  | .number value => some value
  | .named name =>
      match memory.values name with
      | some (.number value) => some value
      | _ => none
  | .count => some call.actuals.length
  | .minus left right => do
      let left ← left.eval memory
      let right ← right.eval memory
      return left - right
  | .max left right => do
      let left ← left.eval memory
      let right ← right.eval memory
      return Max.max left right

def Test.eval (memory : Memory α) : Test → Option Bool
  | .less left right => do
      let left ← left.eval call memory
      let right ← right.eval call memory
      return left < right
  | .greater left right => do
      let left ← left.eval call memory
      let right ← right.eval call memory
      return right < left

/-- The value, and the arrays after it was made. There is no actual argument, and no array, outside
of the bounds. -/
def Operand.eval (memory : Memory α) : Operand → Option (Value α × List (List (Value α)))
  | .actual index => do
      let index ← (← index.eval call memory).toNat?
      let value ← call.actuals[index]?
      return (value, memory.arrays)
  | .fresh size => do
      let size ← (← size.eval call memory).toNat?
      return (.array memory.arrays.length,
        memory.arrays ++ [List.replicate size (.number 0)])
  | .value x => some (call.valueOf memory x)

def SimpleCommand.run (memory : Memory α) : SimpleCommand → Option (Memory α)
  | .declare name => some (memory.declare name none)
  | .declareAs name operand => do
      let (value, arrays) ← operand.eval call memory
      return { memory with arrays }.declare name (some value)
  | .assign name operand => do
      let (value, arrays) ← operand.eval call memory
      { memory with arrays }.assign name value
  | .store array index operand => do
      let (value, arrays) ← operand.eval call memory
      let index ← (← index.eval call memory).toNat?
      { memory with arrays }.store array index value

namespace Command

def repeatWhile (counter : String) (test : Test) (body : SimpleCommand) :
    (fuel : Nat) → Memory α → Option (Memory α)
  | 0, _ => none
  | fuel + 1, memory => do
      if ← test.eval call memory then
        let memory ← body.run call memory
        let memory ← memory.increment counter
        repeatWhile counter test body fuel memory
      else return memory

def run (fuel : Nat) (memory : Memory α) : Command → Option (Memory α)
  | .simple command => command.run call memory
  | .branch test yes no => do
      if ← test.eval call memory then yes.run call memory else no.run call memory
  | .loop counter first test body => do
      let first ← first.eval call memory
      repeatWhile call counter test body fuel (memory.declare counter (some (.number first)))

def runAll (fuel : Nat) (memory : Memory α) (commands : List Command) : Option (Memory α) :=
  commands.foldlM (run call fuel) memory

end Command

end Running

end GameScript
