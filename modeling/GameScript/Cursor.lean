import GameScript.Token

/-! A place in a list of tokens. Reading past the end gives the last token. -/

namespace GameScript

/-- The tokens before the place, last first, and those from it on. There is at least one token, so
that there is something to read at every place. -/
structure Cursor where
  passed : List Token
  rest : List Token
  inhabited : passed ++ rest ≠ []
deriving DecidableEq, Repr

namespace Cursor

def closed (tokens : List Token) : List Token :=
  if tokens.getLast?.map Token.kind = some .finish then tokens else tokens ++ [Token.closing]

theorem closed_ne_nil (tokens : List Token) : closed tokens ≠ [] := by
  unfold closed
  split
  · rintro rfl
    contradiction
  · simp

def ofTokens (tokens : List Token) : Cursor :=
  ⟨[], closed tokens, closed_ne_nil tokens⟩

def tokens (cursor : Cursor) : List Token :=
  cursor.passed.reverse ++ cursor.rest

theorem tokens_ne_nil (cursor : Cursor) : cursor.tokens ≠ [] := by
  simpa [tokens] using cursor.inhabited

def index (cursor : Cursor) : Nat :=
  cursor.passed.length

/-- The current token, or the last one where all have been passed. -/
def peek (cursor : Cursor) : Token :=
  (cursor.rest ++ cursor.passed).head (by simpa [and_comm] using cursor.inhabited)

def advance (cursor : Cursor) : Cursor :=
  match cursor.rest with
  | token :: rest => ⟨token :: cursor.passed, rest, by simp⟩
  | [] => cursor

def second (cursor : Cursor) : Token :=
  cursor.advance.peek

def passWhile (test : TokenKind → Bool) (cursor : Cursor) : Cursor where
  passed := (cursor.rest.takeWhile (test ·.kind)).reverse ++ cursor.passed
  rest := cursor.rest.dropWhile (test ·.kind)
  inhabited := by
    intro empty
    simp only [List.append_eq_nil_iff, List.reverse_eq_nil_iff] at empty
    refine cursor.inhabited ?_
    rw [← List.takeWhile_append_dropWhile (p := (test ·.kind)) (l := cursor.rest), empty.1.1,
      empty.1.2, empty.2]
    rfl

def skipLineEnds (cursor : Cursor) : Cursor :=
  cursor.passWhile (· = .lineEnd)

def skipBlank (cursor : Cursor) : Cursor :=
  cursor.passWhile fun kind => kind = .lineEnd || kind = .docComment

def seek (cursor : Cursor) (target : Int64) : Cursor :=
  let index := target.toInt.toNat
  ⟨(cursor.tokens.take index).reverse, cursor.tokens.drop index, by
    intro empty
    simp only [List.append_eq_nil_iff, List.reverse_eq_nil_iff] at empty
    have whole := List.take_append_drop index cursor.tokens
    rw [empty.1, empty.2] at whole
    exact cursor.tokens_ne_nil whole.symm⟩

def move (cursor : Cursor) (offset : Int64) : Cursor :=
  cursor.seek (Int64.ofNat cursor.index + offset)

def tokenAt (cursor : Cursor) (offset : Int64) : Token :=
  let index := (Int64.ofNat cursor.index + offset).toInt.toNat
  cursor.tokens.getD index (cursor.tokens.getLast cursor.tokens_ne_nil)

def window (cursor : Cursor) (count : Nat) : List Token :=
  (List.range count).map fun offset => cursor.tokenAt (Int64.ofNat offset)

def startsWith (cursor : Cursor) (kinds : List TokenKind) : Bool :=
  (cursor.window kinds.length).map Token.kind = kinds

end Cursor

end GameScript
