import GameScript.Parser.Stmt
import GameScript.Scanner
import GameScript.Tree.Script

/-! Scripts: a leading doc comment, arguments, and statements up to the end of the text. -/

namespace GameScript

namespace Parser

def docLinesAt : (fuel : Nat) → Cursor → List String × Cursor
  | 0, cursor => ([], cursor)
  | fuel + 1, cursor =>
      if cursor.peek.kind = .docComment then
        let (lines, last) := docLinesAt fuel cursor.advance.skipLineEnds
        (cursor.peek.lit :: lines, last)
      else ([], cursor)

def docLines : Parser (List String) := fun cursor =>
  let (lines, after) := docLinesAt cursor.rest.length cursor
  .ok lines after

def passing : Parser Passing := do
  let token ← peek
  match token.kind with
  | .symbol .question =>
      skip
      return .optional
  | .symbol .assign =>
      skip
      return .defaulted (some (← expression))
  | _ => return .required

def argument : Parser Argument := atomic do
  let _ ← expect (.keyword .argument_) .expectedArgument
  let token ← peek
  if token.kind = .symbol .ellipsis then
    skip
    let declared ← identifier
    terminator
    return ⟨declared, .variadic⟩
  else
    let declared ← identifier
    let how ← passing
    terminator
    return ⟨declared, how⟩

/-- Declarations of arguments; a variadic one is the last. -/
def argumentsFrom : (fuel : Nat) → Parser (List Argument)
  | 0 => give []
  | fuel + 1 => do
      let token ← peek
      if token.kind = .keyword .argument_ then
        let first ← argument
        skipLineEnds
        match first.passing with
        | .variadic => return [first]
        | _ => return first :: (← argumentsFrom fuel)
      else return []

def argumentList : Parser (List Argument) := atomic fun cursor =>
  argumentsFrom (cursor.rest.length + 1) cursor

end Parser

namespace NotingParser

open GameScript.Parser (peek skip skipLineEnds failAt docLines argumentList)

def untilEnd : (fuel : Nat) → NotingParser (List Stmt)
  | 0 => do failAt (← peek) .expectedStatement
  | fuel + 1 => do
      skipLineEnds
      let token ← peek
      match token.kind with
      | .finish => return []
      | .docComment =>
          let lines ← docLines
          let others ← untilEnd fuel
          return .doc lines :: others
      | _ =>
          let first ← statement
          let others ← untilEnd fuel
          return first :: others

def statements : NotingParser (List Stmt) := atomic fun cursor =>
  untilEnd (cursor.rest.length + 1) cursor

def skipStart : Parser Unit := do
  let token ← peek
  if token.kind = .start then skip

def script : NotingParser Script := atomic do
  skipStart
  skipLineEnds
  let doc ← docLines
  let args ← argumentList
  let body ← statements
  return ⟨doc, args, body⟩

end NotingParser

def parseTokens (tokens : List Token) : List Mismatch × Except SourceError Script :=
  match NotingParser.script (Cursor.ofTokens tokens) with
  | (notes, .ok script _) => (notes, .ok script)
  | (notes, .error reason _) => (notes, .error reason)

def Source.parse (source : Source) : List Mismatch × Except ReadError Script :=
  match source.tokens with
  | .error reason => ([], .error reason)
  | .ok tokens =>
      match parseTokens tokens with
      | (notes, .ok script) => (notes, .ok script)
      | (notes, .error reason) => (notes, .error (.malformed reason))

def parse (chars : List Char) : Except SourceError Script := do
  let tokens ← tokenize chars
  (parseTokens tokens).2

end GameScript
