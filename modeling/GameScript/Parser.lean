import GameScript.Cursor

/-!
Parsers: functions on a cursor. A reply holds the cursor after the run, also when it failed, so
that a failure that passed tokens can be told from one that did not.
-/

namespace GameScript

inductive Reply (α : Type) where
  | ok (value : α) (cursor : Cursor)
  | error (reason : SourceError) (cursor : Cursor)

def Reply.cursor {α : Type} : Reply α → Cursor
  | .ok _ cursor => cursor
  | .error _ cursor => cursor

def Parser (α : Type) : Type := Cursor → Reply α

namespace Parser

def give {α : Type} (value : α) : Parser α := fun cursor => .ok value cursor

def andThen {α β : Type} (first : Parser α) (next : α → Parser β) : Parser β := fun cursor =>
  match first cursor with
  | .ok value after => next value after
  | .error reason after => .error reason after

instance : Monad Parser where
  pure := give
  bind := andThen

def peek : Parser Token := fun cursor => .ok cursor.peek cursor

def second : Parser Token := fun cursor => .ok cursor.second cursor

def skip : Parser Unit := fun cursor => .ok () cursor.advance

def skipLineEnds : Parser Unit := fun cursor => .ok () cursor.skipLineEnds

def skipBlank : Parser Unit := fun cursor => .ok () cursor.skipBlank

def next : Parser Token := fun cursor => .ok cursor.peek cursor.advance

def failAt {α : Type} (token : Token) (kind : ErrorKind) : Parser α := fun cursor =>
  .error (token.fault kind) cursor

/-- A failure leaves the cursor where it was. -/
def atomic {α : Type} (parser : Parser α) : Parser α := fun cursor =>
  match parser cursor with
  | .ok value after => .ok value after
  | .error reason _ => .error reason cursor

/-- The second parser is tried where the first one fails; if both fail, the first failure counts. -/
def orElse {α : Type} (first second : Parser α) : Parser α := fun cursor =>
  match first cursor with
  | .ok value after => .ok value after
  | .error reason _ =>
      match second cursor with
      | .ok value after => .ok value after
      | .error _ _ => .error reason cursor

def relabel {α : Type} (parser : Parser α) (kind : ErrorKind) : Parser α := fun cursor =>
  match parser cursor with
  | .ok value after => .ok value after
  | .error _ after => .error (after.peek.fault kind) after

def expect (wanted : TokenKind) (kind : ErrorKind) : Parser Token := do
  let token ← peek
  if token.kind = wanted then
    skip
    return token
  else failAt token kind

def symbol (sign : Symbol) (kind : ErrorKind) : Parser Unit := do
  let _ ← expect (.symbol sign) kind

def name (kind : ErrorKind) : Parser String := do
  let token ← expect .ident kind
  return token.lit

def identifier : Parser String := name .expectedIdentifier

end Parser

end GameScript
