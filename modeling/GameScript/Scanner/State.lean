import GameScript.Text.Blank
import GameScript.Text.Letter
import GameScript.Text.Number
import GameScript.Token

/-!
The state machine that recognises tokens: a mode for what has been read of the current token, and
the nesting depth of block comments.
-/

namespace GameScript

namespace Symbol

def ofChar? : Char → Option Symbol
  | '(' => some leftParen
  | ')' => some rightParen
  | '{' => some leftBrace
  | '}' => some rightBrace
  | '[' => some leftBracket
  | ']' => some rightBracket
  | '+' => some plus
  | '-' => some minus
  | '*' => some star
  | '/' => some slash
  | '%' => some percent
  | '=' => some assign
  | '|' => some bitOr
  | '&' => some bitAnd
  | '^' => some bitXor
  | '~' => some bitNot
  | '<' => some less
  | '>' => some greater
  | '!' => some bang
  | '#' => some hash
  | '@' => some atSign
  | '.' => some dot
  | ',' => some comma
  | ';' => some semicolon
  | '_' => some underscore
  | '?' => some question
  | ':' => some colon
  | _ => none

def extend? : Symbol → Char → Option Symbol
  | plus, '+' => some increment
  | plus, '=' => some plusAssign
  | minus, '-' => some decrement
  | minus, '=' => some minusAssign
  | star, '*' => some power
  | star, '=' => some starAssign
  | power, '=' => some powerAssign
  | slash, '=' => some slashAssign
  | percent, '=' => some percentAssign
  | bitOr, '|' => some logicOr
  | bitOr, '=' => some bitOrAssign
  | bitOr, '>' => some pipe
  | bitAnd, '&' => some logicAnd
  | bitAnd, '=' => some bitAndAssign
  | bitXor, '=' => some bitXorAssign
  | bang, '=' => some notEqual
  | assign, '=' => some equal
  | less, '<' => some shiftLeft
  | less, '=' => some lessEqual
  | shiftLeft, '=' => some shiftLeftAssign
  | greater, '>' => some shiftRight
  | greater, '=' => some greaterEqual
  | shiftRight, '=' => some shiftRightAssign
  | _, _ => none

end Symbol

namespace Scanner

/-- What has been read of the current token. At a mark or a sign digits are still to come; `zero`,
`slashes`, `docSlashes` and `dots` are exactly `0`, `//`, `///` and `..`, the last of which is no token;
inside a block comment half a mark may have been read. -/
inductive Mode where
  | start
  | slashes
  | docSlashes
  | lineComment
  | docComment
  | block
  | blockSlash
  | blockStar
  | zero
  | hexMark
  | binaryMark
  | hex
  | binary
  | decimal
  | fraction
  | exponentMark
  | exponentSign
  | exponent
  | charOpen
  | charBody
  | charEscape
  | charClosed
  | stringBody
  | stringEscape
  | stringClosed
  | symbol (sign : Symbol)
  | dots
  | directive (name : Directive) (missing : List Char)
  | lineEnd
  | word
deriving DecidableEq, Repr

structure State where
  mode : Mode
  depth : UInt8
deriving DecidableEq, Repr

def State.initial : State := ⟨.start, 0⟩

/-- A character belongs to the current token, or the token ends before it, or it is out of place. -/
inductive Step where
  | absorb (next : State)
  | complete
  | reject (kind : ErrorKind)
deriving DecidableEq, Repr

def isAlnum (c : Char) : Bool :=
  Text.isLetter c || Text.isNumber c

def isWordChar (c : Char) : Bool :=
  c = '_' || isAlnum c

def Mode.ofChar? (c : Char) : Option Mode :=
  match Symbol.ofChar? c with
  | some sign => some (.symbol sign)
  | none =>
      if c = '0' then some .zero
      else if c = '\n' then some .lineEnd
      else if c = '\'' then some .charOpen
      else if c = '"' then some .stringBody
      else if Text.isBlank c then some .start
      else if c.isDigit then some .decimal
      else if Text.isLetter c then some .word
      else none

def State.next (state : State) (c : Char) : Step :=
  let enter (mode : Mode) : Step := .absorb ⟨mode, state.depth⟩
  let digitOr (mode : Mode) (otherwise : Step) : Step :=
    if c = '_' || c.isDigit then enter mode else otherwise
  let numeralEnd : Step := if isAlnum c then .reject .malformedNumber else .complete
  match state.mode with
  | .start =>
      match Mode.ofChar? c with
      | some mode => enter mode
      | none => .reject .invalidCharacter
  | .zero =>
      if c = 'x' then enter .hexMark
      else if c = 'b' then enter .binaryMark
      else digitOr .decimal <|
        if c = '.' then enter .fraction else if c = 'e' then enter .exponentMark else numeralEnd
  | .hexMark =>
      if c = '_' then enter .hexMark
      else if Text.isHexDigit c then enter .hex
      else .reject .malformedNumber
  | .hex =>
      if c = '_' || Text.isHexDigit c then enter .hex else numeralEnd
  | .binaryMark =>
      if c = '_' then enter .binaryMark
      else if c = '0' || c = '1' then enter .binary
      else .reject .malformedNumber
  | .binary =>
      if c = '_' || c = '0' || c = '1' then enter .binary else numeralEnd
  | .decimal =>
      digitOr .decimal <|
        if c = '.' then enter .fraction else if c = 'e' then enter .exponentMark else numeralEnd
  | .fraction => digitOr .fraction <| if c = 'e' then enter .exponentMark else numeralEnd
  | .exponentMark =>
      if c = '-' then enter .exponentSign
      else if c.isDigit then enter .exponent
      else .reject .malformedNumber
  | .exponentSign => if c.isDigit then enter .exponent else .reject .malformedNumber
  | .exponent => digitOr .exponent numeralEnd
  | .slashes =>
      if c = '/' then enter .docSlashes else if c = '\n' then .complete else enter .lineComment
  | .docSlashes | .docComment => if c = '\n' then .complete else enter .docComment
  | .lineComment => if c = '\n' then .complete else enter .lineComment
  | .block =>
      -- At depth zero the character before has closed the comment.
      if state.depth = 0 then .complete
      else if c = '/' then enter .blockSlash
      else if c = '*' then enter .blockStar
      else enter .block
  | .blockStar =>
      if c = '/' then .absorb ⟨.block, state.depth - 1⟩
      else if c = '*' then enter .blockStar
      else enter .block
  | .blockSlash =>
      if c = '/' then enter .blockSlash
      else if c = '*' then
        if state.depth = 255 then .reject .commentDepth else .absorb ⟨.block, state.depth + 1⟩
      else enter .block
  | .charOpen =>
      if c = '\\' then enter .charEscape
      else if c = '\'' then .reject .unexpectedCharacter
      else enter .charBody
  | .charBody => if c = '\'' then enter .charClosed else .reject .unexpectedCharacter
  | .charEscape => enter .charBody
  | .stringBody =>
      if c = '"' then enter .stringClosed
      else if c = '\\' then enter .stringEscape
      else enter .stringBody
  | .stringEscape => enter .stringBody
  | .symbol .slash =>
      if c = '/' then enter .slashes
      else if c = '*' then .absorb ⟨.block, 1⟩
      else if c = '=' then enter (.symbol .slashAssign)
      else .complete
  | .symbol .hash =>
      if c = 'm' then enter (.directive .macroLine (Directive.letters .macroLine).tail)
      else if c = 'p' then enter (.directive .pragmaLine (Directive.letters .pragmaLine).tail)
      else .complete
  | .symbol .underscore => if isWordChar c then enter .word else .complete
  | .symbol .dot =>
      if c = '.' then enter .dots else if c.isDigit then enter .fraction else .complete
  | .symbol .ellipsis => if c = '.' then .reject .unexpectedCharacter else .complete
  | .symbol sign =>
      match sign.extend? c with
      | some longer => enter (.symbol longer)
      | none => .complete
  | .dots => if c = '.' then enter (.symbol .ellipsis) else .reject .unexpectedCharacter
  | .directive name (letter :: missing) =>
      if c = letter then enter (.directive name missing) else .reject .invalidDirective
  | .directive _ [] => if isWordChar c then .reject .invalidDirective else .complete
  -- A line break is blank too: empty lines make no token of their own.
  | .lineEnd => if Text.isBlank c then enter .lineEnd else .complete
  | .word => if isWordChar c then enter .word else .complete
  | .charClosed | .stringClosed => .complete

def inner (text : List Char) : List Char :=
  (text.drop 1).dropLast

/-- The line of a doc comment: one blank after the slashes and the carriage returns at the end
are no part of it. -/
def docLine (text : List Char) : List Char :=
  let line := text.drop 3
  let line := if line.head? = some ' ' then line.tail else line
  (line.reverse.dropWhile (· = '\r')).reverse

/-- The class and the kept text of the token that ends in a mode. Plain comments and unfinished
tokens give none. -/
def Mode.token? (mode : Mode) (text : List Char) : Option (TokenKind × String) :=
  match mode with
  | .zero | .decimal | .fraction | .exponent => some (.decimal, String.ofList text)
  | .hex => some (.hex, String.ofList (text.drop 2))
  | .binary => some (.binary, String.ofList (text.drop 2))
  | .stringClosed => some (.string, String.ofList (inner text))
  | .charClosed => some (.char, String.ofList (inner text))
  | .docSlashes | .docComment => some (.docComment, String.ofList (docLine text))
  | .symbol sign => some (.symbol sign, "")
  | .directive name [] => some (.directive name, "")
  | .lineEnd => some (.lineEnd, "")
  | .word => some (wordKind (String.ofList text), String.ofList text)
  | _ => none

end Scanner

end GameScript
