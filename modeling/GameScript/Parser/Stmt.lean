import GameScript.Parser.Expr
import GameScript.Tree.Stmt

/-!
Statements. A statement that matches no form leaves a note on why it is no expression statement;
notes are kept whatever comes of the run.
-/

namespace GameScript

/-- A statement that did not match: its first token, and why it is no expression statement. -/
structure Mismatch where
  token : Token
  cause : SourceError
deriving DecidableEq, Repr

def NotingParser (α : Type) : Type := Cursor → List Mismatch × Reply α

namespace NotingParser

def give {α : Type} (value : α) : NotingParser α := fun cursor => ([], .ok value cursor)

def andThen {α β : Type} (first : NotingParser α) (next : α → NotingParser β) :
    NotingParser β := fun cursor =>
  match first cursor with
  | (notes, .ok value after) =>
      let (later, reply) := next value after
      (notes ++ later, reply)
  | (notes, .error reason after) => (notes, .error reason after)

instance : Monad NotingParser where
  pure := give
  bind := andThen

def quiet {α : Type} (parser : Parser α) : NotingParser α := fun cursor => ([], parser cursor)

instance : MonadLift Parser NotingParser where
  monadLift := quiet

def atomic {α : Type} (parser : NotingParser α) : NotingParser α := fun cursor =>
  match parser cursor with
  | (notes, .ok value after) => (notes, .ok value after)
  | (notes, .error reason _) => (notes, .error reason cursor)

end NotingParser

def Symbol.assignOp? : Symbol → Option AssignOp
  | .assign => some .assign
  | .plusAssign => some .add
  | .minusAssign => some .subtract
  | .starAssign => some .multiply
  | .slashAssign => some .divide
  | .percentAssign => some .remainder
  | .powerAssign => some .power
  | .bitAndAssign => some .bitAnd
  | .bitOrAssign => some .bitOr
  | .bitXorAssign => some .bitXor
  | .shiftLeftAssign => some .shiftLeft
  | .shiftRightAssign => some .shiftRight
  | .increment => some .increment
  | .decrement => some .decrement
  | _ => none

def TokenKind.assignOp? : TokenKind → Option AssignOp
  | .symbol sign => sign.assignOp?
  | _ => none

namespace Parser

/-- The end of a statement: `;` with the line end after it, `;` or a line end alone, or the end of
the text, which is not passed. -/
def terminator : Parser Unit := fun cursor =>
  match cursor.peek.kind with
  | .symbol .semicolon =>
      if cursor.second.kind = .lineEnd then .ok () cursor.advance.advance
      else .ok () cursor.advance
  | .lineEnd => .ok () cursor.advance
  | .finish => .ok () cursor
  | _ => .error (cursor.peek.fault .expectedTerminator) cursor

def assignment : Parser Assignment := atomic do
  let target ← identifier
  let token ← next
  match token.kind.assignOp? with
  | none => failAt token .expectedStatement
  | some op =>
      if op.isStep then return ⟨target, op, none⟩
      else
        skipLineEnds
        let value ← expression
        return ⟨target, op, some value⟩

def initialValue : Parser (Option Expr) := do
  let token ← peek
  if token.kind = .symbol .assign then
    skip
    skipLineEnds
    let value ← expression
    return some value
  else return none

def declaration : Parser Declaration := atomic do
  let word ← next
  let declared ← identifier
  let value ← initialValue
  return ⟨declared, word.kind = .keyword .globalvar_, value⟩

def returned : Parser (Option Expr) := fun cursor =>
  match terminator cursor with
  | .ok _ after => .ok none after
  | .error _ _ => (do
      let value ← expression
      terminator
      return some value : Parser (Option Expr)) cursor

def simple : Parser Stmt :=
  orElse
    (do
      let value ← expression
      terminator
      return .expr value)
    (do
      let assigned ← assignment
      terminator
      return .assign assigned)

def clause (first : Bool) : Parser Stmt := do
  let token ← peek
  if token.kind = .symbol .semicolon then return .noop
  else if first && (token.kind = .keyword .var_ || token.kind = .keyword .globalvar_) then
    return .declare (← declaration)
  else
    -- Without an end to check, the target of an assignment alone would do as an expression: the
    -- assignment comes first.
    orElse (do return .assign (← assignment)) (do return .expr (← expression))

def separator : Parser Unit := do
  skipLineEnds
  symbol .semicolon .expectedTerminator
  skipLineEnds

def forTest : Parser (Option Expr) := do
  let token ← peek
  if token.kind = .symbol .semicolon then return none
  else return some (← expression)

def forUpdate : Parser Stmt := do
  let token ← peek
  if token.kind = .symbol .rightParen then return .noop else clause false

def optionalTerminator : Parser Unit := do
  let token ← peek
  if token.kind = .symbol .semicolon || token.kind = .lineEnd then terminator

def loopTail : Parser (LoopKind × Expr) := do
  skipLineEnds
  let token ← next
  let kind ← match token.kind with
    | .keyword .while_ => give LoopKind.doWhile
    | .keyword .until_ => give LoopKind.doUntil
    | _ => failAt token .expectedKeyword
  let test ← parenthesized
  optionalTerminator
  return (kind, test)

end Parser

namespace NotingParser

open GameScript.Parser (peek skip skipBlank skipLineEnds next symbol failAt terminator declaration
  returned clause separator forTest forUpdate loopTail parenthesized simple)

def noted : NotingParser Stmt := fun cursor =>
  match simple cursor with
  | .ok statement after => ([], .ok statement after)
  | .error cause _ =>
      -- The failure tells only that there is no statement; why there is none goes into the note.
      ([⟨cursor.peek, cause⟩], .error (cursor.peek.fault .expectedStatement) cursor)

def untilBrace (statement : NotingParser Stmt) : (fuel : Nat) → NotingParser (List Stmt)
  | 0 => do failAt (← peek) .expectedStatement
  | fuel + 1 => do
      skipBlank
      let token ← peek
      match token.kind with
      | .symbol .rightBrace =>
          skip
          return []
      | .finish => failAt token .mismatchedParentheses
      | _ =>
          let first ← statement
          let others ← untilBrace statement fuel
          return first :: others

def blockFrom (statement : NotingParser Stmt) : NotingParser Stmt := atomic do
  symbol .leftBrace .expectedStatement
  let body ← fun cursor => untilBrace statement (cursor.rest.length + 1) cursor
  return .block body

def elseFrom (statement : NotingParser Stmt) : NotingParser Stmt := fun cursor =>
  let ahead := cursor.skipLineEnds
  if ahead.peek.kind = .keyword .else_ then statement ahead.advance else ([], .ok .hole cursor)

def branchFrom (statement : NotingParser Stmt) : NotingParser Stmt := atomic do
  skip
  let test ← parenthesized
  let yes ← statement
  let no ← elseFrom statement
  return .branch test yes no

def doLoopFrom (statement : NotingParser Stmt) : NotingParser Stmt := atomic do
  skip
  let body ← statement
  let (kind, test) ← loopTail
  return .loop kind test body

/-- A statement with one head: the keyword decides which, and every other token counts as
`while`. -/
def headedFrom (statement : NotingParser Stmt) : NotingParser Stmt := atomic do
  let word ← next
  let head ← parenthesized
  let body ← statement
  return match word.kind with
    | .keyword .repeat_ => .repeats head body
    | .keyword .with_ => .withTarget head body
    | .keyword .until_ => .loop .untilLoop head body
    | _ => .loop .whileLoop head body

def forLoopFrom (statement : NotingParser Stmt) : NotingParser Stmt := atomic do
  skip
  symbol .leftParen .expectedParentheses
  skipLineEnds
  let init ← clause true
  separator
  let test ← forTest
  separator
  let update ← forUpdate
  skipLineEnds
  symbol .rightParen .mismatchedParentheses
  let body ← statement
  return .forLoop init test update body

def begunFrom (statement : NotingParser Stmt) : NotingParser Stmt := do
  let token ← peek
  match token.kind with
  | .symbol .semicolon =>
      terminator
      return .noop
  | .symbol .leftBrace => blockFrom statement
  | .keyword .var_ | .keyword .globalvar_ =>
      let declared ← declaration
      terminator
      return .declare declared
  | .keyword .if_ => branchFrom statement
  | .keyword .do_ => doLoopFrom statement
  | .keyword .for_ => forLoopFrom statement
  | .keyword .repeat_ | .keyword .while_ | .keyword .until_ | .keyword .with_ =>
      headedFrom statement
  | .keyword .break_ =>
      skip
      terminator
      return .breakLoop
  | .keyword .continue_ =>
      skip
      terminator
      return .continueLoop
  | .keyword .exit_ =>
      skip
      terminator
      return .exitScript
  | .keyword .return_ =>
      skip
      return .ret (← returned)
  | _ => noted

/-- A statement with its end. The body of a statement stands behind at least one token, so the
number of tokens that are left bounds the nesting. -/
def statementFrom : (fuel : Nat) → NotingParser Stmt
  | 0 => do failAt (← peek) .expectedStatement
  | fuel + 1 => atomic do
      skipBlank
      begunFrom (statementFrom fuel)

def statement : NotingParser Stmt := fun cursor =>
  statementFrom (cursor.rest.length + 1) cursor

def block : NotingParser Stmt := blockFrom statement

def branch : NotingParser Stmt := branchFrom statement

def doLoop : NotingParser Stmt := doLoopFrom statement

def headed : NotingParser Stmt := headedFrom statement

def forLoop : NotingParser Stmt := forLoopFrom statement

end NotingParser

end GameScript
