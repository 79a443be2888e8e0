import GameScript.Error

/-! The vocabulary: symbols, keywords, directives and the tokens made of them. -/

namespace GameScript

inductive Symbol where
  | bitAnd
  | bitOr
  | bitXor
  | bitNot
  | shiftLeft
  | shiftRight
  | bitAndAssign
  | bitOrAssign
  | bitXorAssign
  | shiftLeftAssign
  | shiftRightAssign
  | logicAnd
  | logicOr
  | bang
  | plus
  | minus
  | star
  | slash
  | percent
  | power
  | plusAssign
  | minusAssign
  | starAssign
  | slashAssign
  | percentAssign
  | powerAssign
  | increment
  | decrement
  | equal
  | notEqual
  | less
  | lessEqual
  | greater
  | greaterEqual
  | assign
  | hash
  | atSign
  | question
  | colon
  | pipe
  | underscore
  | leftBracket
  | rightBracket
  | leftParen
  | rightParen
  | leftBrace
  | rightBrace
  | comma
  | dot
  | ellipsis
  | semicolon
deriving DecidableEq, Repr

namespace Symbol

def text : Symbol → String
  | bitAnd => "&"
  | bitOr => "|"
  | bitXor => "^"
  | bitNot => "~"
  | shiftLeft => "<<"
  | shiftRight => ">>"
  | bitAndAssign => "&="
  | bitOrAssign => "|="
  | bitXorAssign => "^="
  | shiftLeftAssign => "<<="
  | shiftRightAssign => ">>="
  | logicAnd => "&&"
  | logicOr => "||"
  | bang => "!"
  | plus => "+"
  | minus => "-"
  | star => "*"
  | slash => "/"
  | percent => "%"
  | power => "**"
  | plusAssign => "+="
  | minusAssign => "-="
  | starAssign => "*="
  | slashAssign => "/="
  | percentAssign => "%="
  | powerAssign => "**="
  | increment => "++"
  | decrement => "--"
  | equal => "=="
  | notEqual => "!="
  | less => "<"
  | lessEqual => "<="
  | greater => ">"
  | greaterEqual => ">="
  | assign => "="
  | hash => "#"
  | atSign => "@"
  | question => "?"
  | colon => ":"
  | pipe => "|>"
  | underscore => "_"
  | leftBracket => "["
  | rightBracket => "]"
  | leftParen => "("
  | rightParen => ")"
  | leftBrace => "\x7b"
  | rightBrace => "\x7d"
  | comma => ","
  | dot => "."
  | ellipsis => "..."
  | semicolon => ";"

end Symbol

inductive Keyword where
  | for_
  | do_
  | while_
  | until_
  | repeat_
  | with_
  | if_
  | else_
  | switch_
  | case_
  | default_
  | break_
  | continue_
  | return_
  | exit_
  | var_
  | globalvar_
  | enum_
  | global_
  | div_
  | mod_
  | argument_
deriving DecidableEq, Repr

namespace Keyword

def text : Keyword → String
  | for_ => "for"
  | do_ => "do"
  | while_ => "while"
  | until_ => "until"
  | repeat_ => "repeat"
  | with_ => "with"
  | if_ => "if"
  | else_ => "else"
  | switch_ => "switch"
  | case_ => "case"
  | default_ => "default"
  | break_ => "break"
  | continue_ => "continue"
  | return_ => "return"
  | exit_ => "exit"
  | var_ => "var"
  | globalvar_ => "globalvar"
  | enum_ => "enum"
  | global_ => "global"
  | div_ => "div"
  | mod_ => "mod"
  | argument_ => "argument"

def all : List Keyword :=
  [for_, do_, while_, until_, repeat_, with_, if_, else_, switch_, case_, default_, break_,
   continue_, return_, exit_, var_, globalvar_, enum_, global_, div_, mod_, argument_]

def ofText? (text : String) : Option Keyword :=
  all.find? (·.text = text)

end Keyword

inductive Directive where
  | macroLine
  | pragmaLine
deriving DecidableEq, Repr

namespace Directive

def letters : Directive → List Char
  | macroLine => ['m', 'a', 'c', 'r', 'o']
  | pragmaLine => ['p', 'r', 'a', 'g', 'm', 'a']

def text (directive : Directive) : String :=
  "#" ++ String.ofList directive.letters

end Directive

/-- The classes of tokens. A number outside the table is kept as it is. -/
inductive TokenKind where
  | start
  | finish
  | lineEnd
  | ident
  | decimal
  | hex
  | binary
  | string
  | char
  | bool
  | undefined
  | comment
  | docComment
  | blockComment
  | symbol (sign : Symbol)
  | keyword (word : Keyword)
  | directive (word : Directive)
  | reserved
  | unlisted (code : Int)
deriving DecidableEq, Repr

namespace TokenKind

def name : TokenKind → String
  | start => "BOF"
  | finish => "EOF"
  | lineEnd => "end of line"
  | ident => "identifier"
  | decimal => "number"
  | hex => "hex number"
  | binary => "binary number"
  | string => "string"
  | char => "char"
  | bool => "boolean"
  | undefined => "undefined"
  | comment => "comment"
  | docComment => "doc comment"
  | blockComment => "block comment"
  | symbol sign => sign.text
  | keyword word => word.text
  | directive word => word.text
  | reserved => "reserved word"
  | unlisted code => "token(" ++ toString code ++ ")"

end TokenKind

def reservedWords : List String :=
  ["public", "protected", "private", "let", "const", "property", "method", "function", "local",
   "struct", "class", "trait", "interface", "protocol", "extension", "implementation", "type",
   "data", "in", "is", "of", "typeof", "instanceof", "match", "otherwise", "throw", "catch", "try",
   "unreachable", "null", "bool", "number", "string", "char", "array", "symbol", "void", "never",
   "map", "list", "grid", "object", "room", "sprite", "script", "path", "tileset", "sound", "font",
   "timeline"]

def wordKind (text : String) : TokenKind :=
  match Keyword.ofText? text with
  | some word => .keyword word
  | none =>
      if text = "true" || text = "false" then .bool
      else if text = "undefined" then .undefined
      else if reservedWords.contains text then .reserved
      else .ident

structure Token where
  kind : TokenKind
  lit : String
  position : Position
deriving DecidableEq, Repr

namespace Token

/-- The token as messages show it; apart from line ends and doc comments this is its spelling. -/
def text (token : Token) : String :=
  match token.kind with
  | .ident | .decimal | .bool | .reserved => token.lit
  | .hex => "0x" ++ token.lit
  | .binary => "0b" ++ token.lit
  | .string => "\"" ++ token.lit ++ "\""
  | .char => "'" ++ token.lit ++ "'"
  | .docComment => "///" ++ token.lit
  | kind => kind.name

def first : Token := ⟨.start, "", Position.first⟩

def closing : Token := ⟨.finish, "", Position.nowhere⟩

def fault (token : Token) (kind : ErrorKind) : SourceError :=
  { kind
    position := token.position
    near := if token.kind = .finish || token.kind = .start then "" else token.text }

end Token

end GameScript
