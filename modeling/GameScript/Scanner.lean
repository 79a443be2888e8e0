import GameScript.Scanner.State

/-!
Scanning: characters are fed one by one to the state machine, and a token is emitted when the
character after it arrives or the text ends.
-/

namespace GameScript

structure Scanner where
  state : Scanner.State
  pending : String
  position : Position
  origin : Position
deriving DecidableEq, Repr

namespace Scanner

def initial : Scanner :=
  { state := State.initial, pending := "", position := Position.first, origin := Position.nowhere }

def pendingToken? (scanner : Scanner) : Option Token :=
  (scanner.state.mode.token? scanner.pending.toList).map fun (kind, lit) =>
    { kind, lit, position := scanner.origin }

def absorb (scanner : Scanner) (next : State) (c : Char) : Scanner :=
  { state := next
    -- Blanks before a token are not kept.
    pending := if next.mode = .start then "" else scanner.pending.push c
    position := scanner.position.advance c
    -- A token starts where the machine leaves its start.
    origin :=
      if scanner.state.mode = .start && next.mode != .start then scanner.position
      else scanner.origin }

def reset (scanner : Scanner) : Scanner :=
  { scanner with state := State.initial, pending := "" }

/-- What comes of a character: the token that ended before it, and the scanner after it. -/
structure Fed where
  token : Option Token
  outcome : Except SourceError Scanner

def misplaced (scanner : Scanner) (kind : ErrorKind) (c : Char) : SourceError :=
  { kind, position := scanner.position, near := String.singleton c }

def feed (scanner : Scanner) (c : Char) : Fed :=
  match scanner.state.next c with
  | .absorb next => ⟨none, .ok (scanner.absorb next c)⟩
  | .reject kind => ⟨none, .error (scanner.misplaced kind c)⟩
  | .complete =>
      { token := scanner.pendingToken?
        outcome :=
          -- The character that ends a token is the first one of what follows.
          match Mode.ofChar? c with
          | some mode => .ok (scanner.reset.absorb ⟨mode, 0⟩ c)
          | none => .error (scanner.misplaced .invalidCharacter c) }

def feedAll (scanner : Scanner) : List Char → Except SourceError (List Token × Scanner)
  | [] => .ok ([], scanner)
  | c :: rest =>
      let fed := scanner.feed c
      match fed.outcome with
      | .error reason => .error reason
      | .ok after =>
          match after.feedAll rest with
          | .error reason => .error reason
          | .ok (tokens, last) => .ok (fed.token.toList ++ tokens, last)

def trace (scanner : Scanner) : List Char → List Fed
  | [] => []
  | c :: rest =>
      let fed := scanner.feed c
      match fed.outcome with
      | .error _ => [fed]
      | .ok after => fed :: after.trace rest

def canEnd (scanner : Scanner) : Bool :=
  match scanner.state.mode with
  | .start => true
  | _ =>
      match scanner.state.next '\n' with
      | .absorb next => next.mode = .lineEnd
      | .complete => true
      | .reject _ => false

def finish (scanner : Scanner) : Except SourceError (List Token) :=
  if scanner.canEnd then
    .ok (scanner.pendingToken?.toList ++ [⟨.finish, "", scanner.position⟩])
  else
    .error { kind := .unexpectedEnd, position := scanner.origin, near := "" }

end Scanner

def byteOrderMark : Char := '\ufeff'

def dropMark (chars : List Char) : List Char :=
  if chars.head? = some byteOrderMark then chars.tail else chars

/-- A source text, which may break off with a reading failure after its last character. -/
structure Source where
  chars : List Char
  failure : Option String := none

inductive ReadError where
  | malformed (reason : SourceError)
  | unreadable (text : String)
deriving DecidableEq, Repr

/-- The tokens of a text, between the token that stands before it and the closing one. -/
def tokenize (chars : List Char) : Except SourceError (List Token) := do
  let (tokens, last) ← Scanner.initial.feedAll (dropMark chars)
  let closing ← last.finish
  return Token.first :: tokens ++ closing

def Source.tokens (source : Source) : Except ReadError (List Token) :=
  match source.failure with
  | none =>
      match tokenize source.chars with
      | .ok tokens => .ok tokens
      | .error reason => .error (.malformed reason)
  | some text =>
      match Scanner.initial.feedAll (dropMark source.chars) with
      | .ok _ => .error (.unreadable text)
      | .error reason => .error (.malformed reason)

end GameScript
