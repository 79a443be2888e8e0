import GameScript.Double.Numeral
import GameScript.Parser
import GameScript.Tree.Expr

/-!
Expressions, by precedence climbing. A parser named `...From` takes the parser for nested
expressions as an argument; nested expressions stand behind at least one token, so the number of
tokens that are left bounds the nesting.
-/

namespace GameScript

inductive Operator where
  | pipe
  | ternary
  | binary (op : BinaryOp)
deriving DecidableEq, Repr

def Operator.precedence : Operator → Nat
  | .pipe => Precedence.pipe
  | .ternary => Precedence.ternary
  | .binary op => Precedence.ofBinary op

namespace Symbol

def operator? : Symbol → Option Operator
  | pipe => some .pipe
  | question => some .ternary
  | logicOr => some (.binary .or)
  | logicAnd => some (.binary .and)
  | equal => some (.binary .equal)
  | notEqual => some (.binary .notEqual)
  | less => some (.binary .less)
  | lessEqual => some (.binary .lessEqual)
  | greater => some (.binary .greater)
  | greaterEqual => some (.binary .greaterEqual)
  | bitOr => some (.binary .bitOr)
  | bitXor => some (.binary .bitXor)
  | bitAnd => some (.binary .bitAnd)
  | shiftLeft => some (.binary .shiftLeft)
  | shiftRight => some (.binary .shiftRight)
  | plus => some (.binary .plus)
  | minus => some (.binary .minus)
  | star => some (.binary .times)
  | slash => some (.binary .divide)
  | percent => some (.binary .percent)
  | power => some (.binary .power)
  | _ => none

def unaryOp? : Symbol → Option UnaryOp
  | minus => some .negate
  | bang => some .not
  | bitNot => some .complement
  | _ => none

end Symbol

namespace TokenKind

def operator? : TokenKind → Option Operator
  | symbol sign => sign.operator?
  | keyword .div_ => some (.binary .intDiv)
  | keyword .mod_ => some (.binary .intMod)
  | _ => none

end TokenKind

namespace Token

def literal (token : Token) : Except ErrorKind Literal :=
  match token.kind with
  | .decimal =>
      match Double.ofNumeral? (token.lit.toList.filter (· ≠ '_')) with
      | some value => .ok (.number value)
      | none => .error .expectedLiteral
  | .hex => .ok (.number (Double.ofRadix 16 token.lit.toList))
  | .binary => .ok (.number (Double.ofRadix 2 token.lit.toList))
  | .string => .ok (.string token.lit)
  | .char =>
      match Text.charValue? token.lit with
      | some value => .ok (.char value)
      | none => .error .invalidEscape
  | .bool => .ok (.bool (token.lit = "true"))
  | .undefined => .ok .undefined
  | _ => .error .expectedLiteral

end Token

namespace Parser

def literal : Parser Literal := atomic do
  let token ← next
  match token.literal with
  | .ok value => return value
  | .error kind => failAt token kind

def parenthesizedFrom (nested : Parser Expr) : Parser Expr := atomic do
  symbol .leftParen .expectedParentheses
  skipLineEnds
  let inner ← nested
  skipLineEnds
  symbol .rightParen .mismatchedParentheses
  return inner

/-- The items after the first one, each behind a comma. An item that does not parse ends the list
before its comma. -/
def moreItems (item : Parser Expr) : (fuel : Nat) → Cursor → List Expr × Cursor
  | 0, cursor => ([], cursor)
  | fuel + 1, cursor =>
      if cursor.peek.kind = .symbol .comma then
        match item cursor.advance.skipLineEnds with
        | .ok first after =>
            let (others, last) := moreItems item fuel after
            (first :: others, last)
        | .error _ _ => ([], cursor)
      else ([], cursor)

def items (item : Parser Expr) (cursor : Cursor) : List Expr × Cursor :=
  let start := cursor.skipLineEnds
  if start.peek.kind = .symbol .rightParen then ([], start)
  else
    match item start with
    | .ok first after =>
        let (others, last) := moreItems item after.rest.length after
        (first :: others, last)
    | .error _ _ => ([], start)

def commaListFrom (item : Parser Expr) : Parser (List Expr) := fun cursor =>
  let (list, after) := items item cursor
  .ok list after

def callFrom (nested : Parser Expr) : Parser (String × List Expr) := atomic do
  let callee ← name .expectedCall
  symbol .leftParen .expectedCall
  let args ← commaListFrom nested
  skipLineEnds
  symbol .rightParen .expectedArgument
  return (callee, args)

def valueFrom (nested : Parser Expr) : (fuel : Nat) → Parser Expr
  | 0 => do failAt (← peek) .expectedValue
  | fuel + 1 => atomic do
      let token ← peek
      match token.kind with
      | .decimal | .hex | .binary | .string | .char | .bool | .undefined =>
          return .literal (← literal)
      | .ident =>
          let after ← second
          if after.kind = .symbol .leftParen then
            let (callee, args) ← callFrom nested
            return .call callee args
          else return .ident (← identifier)
      | .symbol .leftParen => return .paren (← parenthesizedFrom nested)
      | .symbol sign =>
          match sign.unaryOp? with
          | some op =>
              skip
              return .unary op (← valueFrom nested fuel)
          | none => failAt token .expectedValue
      | _ => failAt token .expectedValue

def operationFrom (nested : Int → Parser Expr) (left : Expr) : Operator → Parser Expr
  | .pipe => do
      let (callee, args) ← (callFrom (nested Precedence.pipe)).relabel .expectedCall
      return .pipe left callee args
  | .ternary => do
      let yes ← nested Precedence.pipe
      skipLineEnds
      symbol .colon .incompleteTernary
      skipLineEnds
      let no ← nested Precedence.pipe
      return .ternary left yes no
  | .binary op => do
      -- Operators of one level group to the left.
      let right ← nested (Precedence.ofBinary op + 1)
      return .binary op left right

/-- Goes on with operators that bind at least as strongly as `least`. -/
def climbFrom (nested : Int → Parser Expr) (least : Int) : (fuel : Nat) → Expr → Parser Expr
  | 0, left => give left
  | fuel + 1, left => do
      let token ← peek
      match token.kind.operator? with
      | none => return left
      | some operator =>
          if operator.precedence < least then return left
          else
            skip
            skipLineEnds
            let joined ← operationFrom nested left operator
            climbFrom nested least fuel joined

def binaryFrom : (fuel : Nat) → (least : Int) → Parser Expr
  | 0, _ => do failAt (← peek) .expectedValue
  | fuel + 1, least => atomic do
      -- Signs before the value and operators behind it take a token each, which bounds both loops.
      let left ← valueFrom (binaryFrom fuel Precedence.pipe) (fuel + 1)
      climbFrom (binaryFrom fuel) least (fuel + 1) left

def binary (least : Int) : Parser Expr := fun cursor =>
  binaryFrom (cursor.rest.length + 1) least cursor

def expression : Parser Expr := binary Precedence.pipe

def value : Parser Expr := fun cursor =>
  valueFrom expression (cursor.rest.length + 1) cursor

def call : Parser (String × List Expr) := callFrom expression

def parenthesized : Parser Expr := parenthesizedFrom expression

def commaList : Parser (List Expr) := commaListFrom expression

end Parser

end GameScript
