import GameScript.Proofs.Backtracking

/-!
The grammar by plain recursion. Each call of a production from another one, and each round of a loop,
goes one level deeper. A run that would go deeper than it may has no outcome, neither a value nor a
failure; so a run that never ends has none at any depth.
-/

namespace GameScript

/-- A run over a cursor; `none` stands for one that has gone too deep. A failure leaves no cursor. -/
abbrev Search := StateT Cursor (ExceptT SourceError Option)

abbrev Outcome (α : Type) := Except SourceError (α × Cursor)

def Reply.outcome {α : Type} : Reply α → Outcome α
  | .ok value after => .ok (value, after)
  | .error reason _ => .error reason

def Parser.search {α : Type} (parser : Parser α) : Search α := fun cursor =>
  some (parser cursor).outcome

instance : MonadLift Parser Search where
  monadLift := Parser.search

namespace Search

open GameScript.Parser (peek second skip skipLineEnds skipBlank next failAt symbol name identifier
  literal terminator separator optionalTerminator expect)

def exhausted {α : Type} : Search α := fun _ => none

def relabel {α : Type} (search : Search α) (kind : ErrorKind) : Search α := fun cursor =>
  show Option (Outcome α) from do
    match ← (search cursor).run with
    | .ok read => return .ok read
    | .error _ => return .error (cursor.peek.fault kind)

def orElse {α : Type} (first second : Search α) : Search α := fun cursor =>
  show Option (Outcome α) from do
    match ← (first cursor).run with
    | .ok read => return .ok read
    | .error reason =>
        match ← (second cursor).run with
        | .ok read => return .ok read
        | .error _ => return .error reason

/-- A list from its first item on. Without the item the list is empty and ends at the cursor. -/
def listed {α : Type} (item : Option (Outcome α)) (more : Search (List α)) (cursor : Cursor) :
    Option (Outcome (List α)) := do
  match ← item with
  | .ok (first, after) => (do return first :: (← more) : Search (List α)) after
  | .error _ => return .ok ([], cursor)

/-! Expressions. -/

mutual

def binary : (depth : Nat) → (least : Int) → Search Expr
  | 0, _ => exhausted
  | depth + 1, least => do
      let left ← value depth
      climb depth least left

def value : (depth : Nat) → Search Expr
  | 0 => exhausted
  | depth + 1 => do
      let token ← peek
      match token.kind with
      | .decimal | .hex | .binary | .string | .char | .bool | .undefined =>
          return .literal (← literal)
      | .ident =>
          let after ← second
          if after.kind = .symbol .leftParen then
            let (callee, args) ← call depth
            return .call callee args
          else return .ident (← identifier)
      | .symbol .leftParen => return .paren (← parenthesized depth)
      | .symbol sign =>
          match sign.unaryOp? with
          | some op =>
              skip
              return .unary op (← value depth)
          | none => failAt token .expectedValue
      | _ => failAt token .expectedValue

def climb : (depth : Nat) → (least : Int) → (left : Expr) → Search Expr
  | 0, _, _ => exhausted
  | depth + 1, least, left => do
      let token ← peek
      match token.kind.operator? with
      | none => return left
      | some operator =>
          if operator.precedence < least then return left
          else
            skip
            skipLineEnds
            let joined ← operation depth left operator
            climb depth least joined

def operation : (depth : Nat) → (left : Expr) → Operator → Search Expr
  | 0, _, _ => exhausted
  | depth + 1, left, .pipe => do
      let (callee, args) ← (call depth).relabel .expectedCall
      return .pipe left callee args
  | depth + 1, left, .ternary => do
      let yes ← binary depth Precedence.pipe
      skipLineEnds
      symbol .colon .incompleteTernary
      skipLineEnds
      let no ← binary depth Precedence.pipe
      return .ternary left yes no
  | depth + 1, left, .binary op => do
      let right ← binary depth (Precedence.ofBinary op + 1)
      return .binary op left right

def parenthesized : (depth : Nat) → Search Expr
  | 0 => exhausted
  | depth + 1 => do
      symbol .leftParen .expectedParentheses
      skipLineEnds
      let inner ← binary depth Precedence.pipe
      skipLineEnds
      symbol .rightParen .mismatchedParentheses
      return inner

def call : (depth : Nat) → Search (String × List Expr)
  | 0 => exhausted
  | depth + 1 => do
      let callee ← name .expectedCall
      symbol .leftParen .expectedCall
      let args ← commaList depth
      skipLineEnds
      symbol .rightParen .expectedArgument
      return (callee, args)

def commaList : (depth : Nat) → Search (List Expr)
  | 0 => exhausted
  | depth + 1 => fun cursor =>
      let start := cursor.skipLineEnds
      if start.peek.kind = .symbol .rightParen then pure ([], start)
      else listed (binary depth Precedence.pipe start) (moreItems depth) start

def moreItems : (depth : Nat) → Search (List Expr)
  | 0 => exhausted
  | depth + 1 => fun cursor =>
      if cursor.peek.kind = .symbol .comma then
        listed (binary depth Precedence.pipe cursor.advance.skipLineEnds) (moreItems depth) cursor
      else pure ([], cursor)

end

def expression (depth : Nat) : Search Expr := binary depth Precedence.pipe

/-! Clauses. -/

def assignment (depth : Nat) : Search Assignment := do
  let target ← identifier
  let token ← next
  match token.kind.assignOp? with
  | none => failAt token .expectedStatement
  | some op =>
      if op.isStep then return ⟨target, op, none⟩
      else
        skipLineEnds
        let value ← expression depth
        return ⟨target, op, some value⟩

def initialValue (depth : Nat) : Search (Option Expr) := do
  let token ← peek
  if token.kind = .symbol .assign then
    skip
    skipLineEnds
    let value ← expression depth
    return some value
  else return none

def declaration (depth : Nat) : Search Declaration := do
  let word ← next
  let declared ← identifier
  let value ← initialValue depth
  return ⟨declared, word.kind = .keyword .globalvar_, value⟩

def returned (depth : Nat) : Search (Option Expr) := fun cursor =>
  match terminator cursor with
  | .ok _ after => pure (none, after)
  | .error _ _ => (do
      let value ← expression depth
      terminator
      return some value : Search (Option Expr)) cursor

def simple (depth : Nat) : Search Stmt :=
  orElse
    (do
      let value ← expression depth
      terminator
      return .expr value)
    (do
      let assigned ← assignment depth
      terminator
      return .assign assigned)

def clause (depth : Nat) (first : Bool) : Search Stmt := do
  let token ← peek
  if token.kind = .symbol .semicolon then return .noop
  else if first && (token.kind = .keyword .var_ || token.kind = .keyword .globalvar_) then
    return .declare (← declaration depth)
  else
    orElse (do return .assign (← assignment depth)) (do return .expr (← expression depth))

def forTest (depth : Nat) : Search (Option Expr) := do
  let token ← peek
  if token.kind = .symbol .semicolon then return none
  else return some (← expression depth)

def forUpdate (depth : Nat) : Search Stmt := do
  let token ← peek
  if token.kind = .symbol .rightParen then return .noop else clause depth false

def loopTail (depth : Nat) : Search (LoopKind × Expr) := do
  skipLineEnds
  let token ← next
  let kind ← match token.kind with
    | .keyword .while_ => pure LoopKind.doWhile
    | .keyword .until_ => pure LoopKind.doUntil
    | _ => failAt token .expectedKeyword
  let test ← parenthesized depth
  optionalTerminator
  return (kind, test)

/-! Statements. -/

def noted (depth : Nat) : Search Stmt := (simple depth).relabel .expectedStatement

mutual

def statement : (depth : Nat) → Search Stmt
  | 0 => exhausted
  | depth + 1 => do
      skipBlank
      let token ← peek
      match token.kind with
      | .symbol .semicolon =>
          terminator
          return .noop
      | .symbol .leftBrace => block depth
      | .keyword .var_ | .keyword .globalvar_ =>
          let declared ← declaration depth
          terminator
          return .declare declared
      | .keyword .if_ => branch depth
      | .keyword .do_ => doLoop depth
      | .keyword .for_ => forLoop depth
      | .keyword .repeat_ | .keyword .while_ | .keyword .until_ | .keyword .with_ => headed depth
      | .keyword .break_ =>
          skip
          terminator
          return .breakLoop
      | .keyword .continue_ =>
          skip
          terminator
          return .continueLoop
      | .keyword .exit_ =>
          skip
          terminator
          return .exitScript
      | .keyword .return_ =>
          skip
          return .ret (← returned depth)
      | _ => noted depth

def block : (depth : Nat) → Search Stmt
  | 0 => exhausted
  | depth + 1 => do
      symbol .leftBrace .expectedStatement
      let body ← untilBrace depth
      return .block body

def untilBrace : (depth : Nat) → Search (List Stmt)
  | 0 => exhausted
  | depth + 1 => do
      skipBlank
      let token ← peek
      match token.kind with
      | .symbol .rightBrace =>
          skip
          return []
      | .finish => failAt token .mismatchedParentheses
      | _ =>
          let first ← statement depth
          let others ← untilBrace depth
          return first :: others

def otherwise : (depth : Nat) → Search Stmt
  | 0 => exhausted
  | depth + 1 => fun cursor =>
      let ahead := cursor.skipLineEnds
      if ahead.peek.kind = .keyword .else_ then statement depth ahead.advance
      else pure (.hole, cursor)

def branch : (depth : Nat) → Search Stmt
  | 0 => exhausted
  | depth + 1 => do
      skip
      let test ← parenthesized depth
      let yes ← statement depth
      let no ← otherwise depth
      return .branch test yes no

def doLoop : (depth : Nat) → Search Stmt
  | 0 => exhausted
  | depth + 1 => do
      skip
      let body ← statement depth
      let (kind, test) ← loopTail depth
      return .loop kind test body

def headed : (depth : Nat) → Search Stmt
  | 0 => exhausted
  | depth + 1 => do
      let word ← next
      let head ← parenthesized depth
      let body ← statement depth
      return match word.kind with
        | .keyword .repeat_ => .repeats head body
        | .keyword .with_ => .withTarget head body
        | .keyword .until_ => .loop .untilLoop head body
        | _ => .loop .whileLoop head body

def forLoop : (depth : Nat) → Search Stmt
  | 0 => exhausted
  | depth + 1 => do
      skip
      symbol .leftParen .expectedParentheses
      skipLineEnds
      let init ← clause depth true
      separator
      let test ← forTest depth
      separator
      let update ← forUpdate depth
      skipLineEnds
      symbol .rightParen .mismatchedParentheses
      let body ← statement depth
      return .forLoop init test update body

end

/-! Scripts. -/

def docLines : (depth : Nat) → Search (List String)
  | 0 => exhausted
  | depth + 1 => do
      let token ← peek
      if token.kind = .docComment then
        skip
        skipLineEnds
        let lines ← docLines depth
        return token.lit :: lines
      else return []

def passing (depth : Nat) : Search Passing := do
  let token ← peek
  match token.kind with
  | .symbol .question =>
      skip
      return .optional
  | .symbol .assign =>
      skip
      return .defaulted (some (← expression depth))
  | _ => return .required

def argument (depth : Nat) : Search Argument := do
  let _ ← expect (.keyword .argument_) .expectedArgument
  let token ← peek
  if token.kind = .symbol .ellipsis then
    skip
    let declared ← identifier
    terminator
    return ⟨declared, .variadic⟩
  else
    let declared ← identifier
    let how ← passing depth
    terminator
    return ⟨declared, how⟩

def argumentList : (depth : Nat) → Search (List Argument)
  | 0 => exhausted
  | depth + 1 => do
      let token ← peek
      if token.kind = .keyword .argument_ then
        let first ← argument depth
        skipLineEnds
        match first.passing with
        | .variadic => return [first]
        | _ => return first :: (← argumentList depth)
      else return []

def statements : (depth : Nat) → Search (List Stmt)
  | 0 => exhausted
  | depth + 1 => do
      skipLineEnds
      let token ← peek
      match token.kind with
      | .finish => return []
      | .docComment =>
          let lines ← docLines depth
          let others ← statements depth
          return .doc lines :: others
      | _ =>
          let first ← statement depth
          let others ← statements depth
          return first :: others

def script (depth : Nat) : Search Script := do
  NotingParser.skipStart
  skipLineEnds
  let doc ← docLines depth
  let args ← argumentList depth
  let body ← statements depth
  return ⟨doc, args, body⟩

end Search

/-- A production by plain recursion down to a depth. -/
def Production.search (depth : Nat) : (production : Production) → Search production.Result
  | script => Search.script depth
  | argumentList => Search.argumentList depth
  | argument => Search.argument depth
  | identifier | target => Parser.search Parser.identifier
  | literal => Parser.search Parser.literal
  | value => Search.value depth
  | call => Search.call depth
  | parenthesized => Search.parenthesized depth
  | binary least => Search.binary depth least
  | assignment => Search.assignment depth
  | statements => Search.statements depth
  | block => Search.block depth
  | statement => Search.statement depth
  | declaration => Search.declaration depth
  | branch => Search.branch depth
  | doLoop => Search.doLoop depth
  | headed => Search.headed depth
  | forLoop => Search.forLoop depth
  | clause first => Search.clause depth first
  | terminator => Parser.search Parser.terminator

end GameScript
