import GameScript.Text.Quoted

/-! What goes wrong in a source text, and how it is told. -/

namespace GameScript

/-- A place in a source text; lines and columns count from 1, columns in characters. -/
structure Position where
  line : Int
  col : Int
deriving DecidableEq, Repr, Inhabited

namespace Position

def first : Position := ⟨1, 1⟩

def nowhere : Position := ⟨0, 0⟩

def advance (position : Position) (c : Char) : Position :=
  if c = '\n' then ⟨position.line + 1, 1⟩ else ⟨position.line, position.col + 1⟩

end Position

/-- The causes of a failure: the first six arise while scanning, the others while parsing. A number
outside the table is kept as it is. -/
inductive ErrorKind where
  | invalidCharacter
  | malformedNumber
  | unexpectedCharacter
  | commentDepth
  | invalidDirective
  | unexpectedEnd
  | expectedValue
  | expectedLiteral
  | expectedIdentifier
  | expectedCall
  | expectedArgument
  | expectedKeyword
  | expectedStatement
  | expectedParentheses
  | mismatchedParentheses
  | incompleteTernary
  | expectedTerminator
  | invalidEscape
  | unlisted (code : Int)
deriving DecidableEq, Repr

namespace ErrorKind

def code : ErrorKind → Int
  | invalidCharacter => 1
  | malformedNumber => 2
  | unexpectedCharacter => 3
  | commentDepth => 4
  | invalidDirective => 5
  | unexpectedEnd => 6
  | expectedValue => 100
  | expectedLiteral => 101
  | expectedIdentifier => 102
  | expectedCall => 103
  | expectedArgument => 104
  | expectedKeyword => 105
  | expectedStatement => 106
  | expectedParentheses => 107
  | mismatchedParentheses => 108
  | incompleteTernary => 109
  | expectedTerminator => 110
  | invalidEscape => 111
  | unlisted code => code

def listed : List ErrorKind :=
  [invalidCharacter, malformedNumber, unexpectedCharacter, commentDepth, invalidDirective,
   unexpectedEnd, expectedValue, expectedLiteral, expectedIdentifier, expectedCall,
   expectedArgument, expectedKeyword, expectedStatement, expectedParentheses,
   mismatchedParentheses, incompleteTernary, expectedTerminator, invalidEscape]

def ofCode (code : Int) : ErrorKind :=
  (listed.find? (·.code = code)).getD (unlisted code)

def description : ErrorKind → String
  | invalidCharacter => "invalid character"
  | malformedNumber => "malformed numeric literal"
  | unexpectedCharacter => "unexpected character"
  | commentDepth => "comment nesting depth exceeded"
  | invalidDirective => "invalid preprocessor directive"
  | unexpectedEnd => "unexpected end of file"
  | expectedValue => "expected value"
  | expectedLiteral => "expected literal"
  | expectedIdentifier => "expected identifier"
  | expectedCall => "expected function call"
  | expectedArgument => "expected argument"
  | expectedKeyword => "expected keyword"
  | expectedStatement => "expected statement"
  | expectedParentheses => "expected parentheses"
  | mismatchedParentheses => "mismatched parentheses"
  | incompleteTernary => "incomplete ternary operator"
  | expectedTerminator => "expected end of statement"
  | invalidEscape => "invalid escape sequence"
  | unlisted code => "error(" ++ toString code ++ ")"

def isLexical : ErrorKind → Bool
  | invalidCharacter | malformedNumber | unexpectedCharacter | commentDepth | invalidDirective
  | unexpectedEnd => true
  | _ => false

end ErrorKind

structure SourceError where
  kind : ErrorKind
  position : Position
  near : String
deriving DecidableEq, Repr

namespace SourceError

def stage (error : SourceError) : String :=
  if error.kind.isLexical then "lex error" else "parse error"

def message (error : SourceError) : String :=
  error.stage ++ " at " ++ toString error.position.line ++ ":" ++ toString error.position.col ++
    ": " ++ error.kind.description ++
    (if error.near = "" then "" else " near " ++ Text.quoted error.near)

end SourceError

end GameScript
