import GameScript.Parser.Stmt
import Mathlib.Data.List.TakeWhile
import Mathlib.Tactic.Simproc.ExistsAndEq
import Mathlib.Tactic.Tauto

/-!
Runs of parsers that succeed, as conditions on the tokens ahead. A list of tokens is closed if it
ends with the closing token; on closed lists a cursor never reads past the end.
-/

namespace GameScript

def Closed (tokens : List Token) : Prop :=
  ∃ inside last, tokens = inside ++ [last] ∧ last.kind = .finish

def headKind : List Token → TokenKind
  | [] => .finish
  | token :: _ => token.kind

def skipEnds (tokens : List Token) : List Token :=
  tokens.dropWhile (·.kind = .lineEnd)

def Passes (tokens rest : List Token) : Prop :=
  ∃ passed, tokens = passed ++ rest ∧ ∀ token ∈ passed, token.kind ≠ .finish

theorem Closed.tail {token : Token} {rest : List Token} (closed : Closed (token :: rest))
    (inner : token.kind ≠ .finish) : Closed rest := by
  obtain ⟨inside, last, shape, finish⟩ := closed
  cases inside with
  | nil =>
      obtain ⟨rfl, rfl⟩ : token = last ∧ rest = [] := by simpa using shape
      exact absurd finish inner
  | cons first inside =>
      obtain ⟨rfl, rfl⟩ : token = first ∧ rest = inside ++ [last] := by simpa using shape
      exact ⟨inside, last, rfl, finish⟩

theorem Closed.exists_cons {tokens : List Token} (closed : Closed tokens) :
    ∃ token rest, tokens = token :: rest := by
  obtain ⟨inside, last, rfl, _⟩ := closed
  cases inside <;> simp

theorem Closed.ne_nil {tokens : List Token} (closed : Closed tokens) : tokens ≠ [] := by
  obtain ⟨token, rest, rfl⟩ := closed.exists_cons
  simp

theorem Closed.append {tokens : List Token} (closed : Closed tokens) (before : List Token) :
    Closed (before ++ tokens) := by
  obtain ⟨inside, last, rfl, finish⟩ := closed
  exact ⟨before ++ inside, last, by simp, finish⟩

namespace Passes

theorem refl (tokens : List Token) : Passes tokens tokens := ⟨[], rfl, by simp⟩

theorem trans {tokens middle rest : List Token} (first : Passes tokens middle)
    (second : Passes middle rest) : Passes tokens rest := by
  obtain ⟨passed, rfl, clean⟩ := first
  obtain ⟨later, rfl, laterClean⟩ := second
  refine ⟨passed ++ later, by simp, ?_⟩
  intro token member
  rcases List.mem_append.mp member with here | there
  · exact clean token here
  · exact laterClean token there

theorem cons {token : Token} {tokens rest : List Token} (inner : token.kind ≠ .finish)
    (passes : Passes tokens rest) : Passes (token :: tokens) rest := by
  obtain ⟨passed, rfl, clean⟩ := passes
  exact ⟨token :: passed, rfl, by simpa using ⟨inner, clean⟩⟩

theorem dropWhile {test : Token → Bool} (skipped : ∀ token, test token = true → token.kind ≠ .finish)
    (tokens : List Token) : Passes tokens (tokens.dropWhile test) :=
  ⟨tokens.takeWhile test, by simp, fun token member => skipped token (List.mem_takeWhile_imp member)⟩

theorem skipEnds (tokens : List Token) : Passes tokens (skipEnds tokens) :=
  dropWhile (by simp +contextual) tokens

theorem ofSkipEnds {token : Token} {tokens rest : List Token}
    (shape : GameScript.skipEnds tokens = token :: rest) (inner : token.kind ≠ .finish) :
    Passes tokens rest :=
  (skipEnds tokens).trans (shape ▸ (refl rest).cons inner)

theorem length_le {tokens rest : List Token} (passes : Passes tokens rest) :
    rest.length ≤ tokens.length := by
  obtain ⟨passed, rfl, _⟩ := passes
  simp

theorem closed {tokens rest : List Token} (passes : Passes tokens rest) (closed : Closed tokens) :
    Closed rest := by
  obtain ⟨passed, rfl, clean⟩ := passes
  induction passed with
  | nil => exact closed
  | cons token passed ih =>
      have inner := clean token (by simp)
      exact ih (fun other member => clean other (by simp [member])) (closed.tail inner)

end Passes

theorem skipEnds_of_headKind {tokens : List Token} (here : headKind tokens ≠ .lineEnd) :
    skipEnds tokens = tokens := by
  cases tokens with
  | nil => rfl
  | cons token rest =>
      have inner : token.kind ≠ .lineEnd := here
      simp [skipEnds, inner]

theorem skipEnds_lineEnd {token : Token} (breaks : token.kind = .lineEnd) (rest : List Token) :
    skipEnds (token :: rest) = skipEnds rest := by
  simp [skipEnds, breaks]

theorem headKind_skipEnds (tokens : List Token) : headKind (skipEnds tokens) ≠ .lineEnd := by
  induction tokens with
  | nil => simp [skipEnds, headKind]
  | cons token rest ih =>
      by_cases lineEnd : token.kind = .lineEnd
      · simpa [skipEnds, List.dropWhile_cons, lineEnd] using ih
      · simp [skipEnds, lineEnd, headKind]

theorem skipEnds_idem (tokens : List Token) : skipEnds (skipEnds tokens) = skipEnds tokens :=
  skipEnds_of_headKind (headKind_skipEnds tokens)

namespace Cursor

theorem rest_skipLineEnds (cursor : Cursor) : cursor.skipLineEnds.rest = skipEnds cursor.rest :=
  rfl

theorem kind_peek {cursor : Cursor} (closed : Closed cursor.rest) :
    cursor.peek.kind = headKind cursor.rest := by
  obtain ⟨token, rest, shape⟩ := closed.exists_cons
  simp [peek, shape, headKind]

theorem peek_of_rest {cursor : Cursor} {token : Token} {rest : List Token}
    (shape : cursor.rest = token :: rest) : cursor.peek = token := by
  simp [peek, shape]

theorem rest_advance {cursor : Cursor} {token : Token} {rest : List Token}
    (shape : cursor.rest = token :: rest) : cursor.advance.rest = rest := by
  simp [advance, shape]

theorem ofTokens_closed {tokens : List Token} (closed : Closed tokens) :
    ofTokens tokens = ⟨[], tokens, closed.ne_nil⟩ := by
  obtain ⟨inside, last, rfl, finish⟩ := closed
  simp [ofTokens, Cursor.closed, finish]

theorem rest_eq_cons {cursor : Cursor} (closed : Closed cursor.rest) :
    cursor.rest = cursor.peek :: cursor.advance.rest := by
  obtain ⟨token, rest, shape⟩ := closed.exists_cons
  rw [peek_of_rest shape, rest_advance shape, shape]

theorem closed_skipLineEnds {cursor : Cursor} (closed : Closed cursor.rest) :
    Closed cursor.skipLineEnds.rest := by
  rw [rest_skipLineEnds]
  exact (Passes.skipEnds _).closed closed

theorem length_skipLineEnds (cursor : Cursor) :
    cursor.skipLineEnds.rest.length ≤ cursor.rest.length := by
  rw [rest_skipLineEnds]
  exact (Passes.skipEnds _).length_le

theorem closed_advance {cursor : Cursor} (closed : Closed cursor.rest)
    (inner : cursor.peek.kind ≠ .finish) : Closed cursor.advance.rest := by
  rw [rest_eq_cons closed] at closed
  exact closed.tail inner

theorem length_advance {cursor : Cursor} (closed : Closed cursor.rest) :
    cursor.advance.rest.length + 1 = cursor.rest.length := by
  conv => rhs; rw [rest_eq_cons closed]
  rfl

theorem kind_skipLineEnds {cursor : Cursor} (closed : Closed cursor.rest) :
    cursor.skipLineEnds.peek.kind = headKind (skipEnds cursor.rest) := by
  rw [kind_peek (closed_skipLineEnds closed), rest_skipLineEnds]

theorem skipEnds_eq_cons {cursor : Cursor} (closed : Closed cursor.rest) :
    skipEnds cursor.rest = cursor.skipLineEnds.peek :: cursor.skipLineEnds.advance.rest := by
  rw [← rest_skipLineEnds]
  exact rest_eq_cons (closed_skipLineEnds closed)

end Cursor

/-- The parser reads the value and leaves the rest. -/
def Gives {α : Type} (parser : Parser α) (cursor : Cursor) (value : α) (rest : List Token) : Prop :=
  ∃ after, parser cursor = .ok value after ∧ after.rest = rest

namespace Parser

section Combinators

variable {α β : Type} {cursor after : Cursor}

@[simp] theorem bind_ok_iff {first : Parser α} {next : α → Parser β} {value : β} :
    (first >>= next) cursor = .ok value after ↔
      ∃ read middle, first cursor = .ok read middle ∧ next read middle = .ok value after := by
  change andThen first next cursor = _ ↔ _
  unfold andThen
  cases ran : first cursor <;> simp

@[simp] theorem pure_ok_iff {given value : α} :
    (pure given : Parser α) cursor = .ok value after ↔ given = value ∧ cursor = after := by
  change Reply.ok given cursor = _ ↔ _
  simp

@[simp] theorem give_ok_iff {given value : α} :
    give given cursor = .ok value after ↔ given = value ∧ cursor = after := by
  simp [give]

@[simp] theorem peek_ok_iff {token : Token} :
    peek cursor = .ok token after ↔ cursor.peek = token ∧ cursor = after := by
  simp [peek]

@[simp] theorem second_ok_iff {token : Token} :
    second cursor = .ok token after ↔ cursor.second = token ∧ cursor = after := by
  simp [second]

@[simp] theorem next_ok_iff {token : Token} :
    next cursor = .ok token after ↔ cursor.peek = token ∧ cursor.advance = after := by
  simp [next]

@[simp] theorem skip_ok_iff {value : Unit} :
    skip cursor = .ok value after ↔ cursor.advance = after := by
  simp [skip]

@[simp] theorem skipLineEnds_ok_iff {value : Unit} :
    skipLineEnds cursor = .ok value after ↔ cursor.skipLineEnds = after := by
  simp [skipLineEnds]

@[simp] theorem skipBlank_ok_iff {value : Unit} :
    skipBlank cursor = .ok value after ↔ cursor.skipBlank = after := by
  simp [skipBlank]

@[simp] theorem not_failAt_ok {token : Token} {kind : ErrorKind} {value : α} :
    failAt token kind cursor ≠ .ok value after := by
  simp [failAt]

@[simp] theorem atomic_ok_iff {parser : Parser α} {value : α} :
    atomic parser cursor = .ok value after ↔ parser cursor = .ok value after := by
  unfold atomic
  cases ran : parser cursor <;> simp

@[simp] theorem relabel_ok_iff {parser : Parser α} {kind : ErrorKind} {value : α} :
    relabel parser kind cursor = .ok value after ↔ parser cursor = .ok value after := by
  unfold relabel
  cases ran : parser cursor <;> simp

theorem orElse_ok_iff {first second : Parser α} {value : α} :
    orElse first second cursor = .ok value after ↔
      first cursor = .ok value after ∨
        (∀ other stopped, first cursor ≠ .ok other stopped) ∧ second cursor = .ok value after := by
  unfold orElse
  cases firstRan : first cursor <;> cases secondRan : second cursor <;> simp

@[simp] theorem expect_ok_iff {wanted : TokenKind} {kind : ErrorKind} {token : Token} :
    expect wanted kind cursor = .ok token after ↔
      cursor.peek.kind = wanted ∧ cursor.peek = token ∧ cursor.advance = after := by
  simp only [expect, bind_ok_iff, peek_ok_iff]
  constructor
  · rintro ⟨_, _, ⟨rfl, rfl⟩, ran⟩
    split at ran
    next found => simpa [found] using ran
    next => simp at ran
  · rintro ⟨found, rfl, rfl⟩
    exact ⟨_, _, ⟨rfl, rfl⟩, by simp [found]⟩

@[simp] theorem symbol_ok_iff {sign : Symbol} {kind : ErrorKind} {value : Unit} :
    symbol sign kind cursor = .ok value after ↔
      cursor.peek.kind = .symbol sign ∧ cursor.advance = after := by
  simp [symbol]

@[simp] theorem name_ok_iff {kind : ErrorKind} {text : String} :
    name kind cursor = .ok text after ↔
      cursor.peek.kind = .ident ∧ cursor.peek.lit = text ∧ cursor.advance = after := by
  simp [name]
  tauto

@[simp] theorem identifier_ok_iff {text : String} :
    identifier cursor = .ok text after ↔
      cursor.peek.kind = .ident ∧ cursor.peek.lit = text ∧ cursor.advance = after :=
  name_ok_iff

end Combinators

end Parser

namespace NotingParser

section Combinators

variable {α β : Type} {cursor after : Cursor}

@[simp] theorem bind_ok_iff {first : NotingParser α} {next : α → NotingParser β} {value : β} :
    ((first >>= next) cursor).2 = .ok value after ↔
      ∃ read middle, (first cursor).2 = .ok read middle ∧ (next read middle).2 = .ok value after := by
  change (andThen first next cursor).2 = _ ↔ _
  unfold andThen
  obtain ⟨notes, reply⟩ := first cursor
  cases reply <;> simp

@[simp] theorem pure_ok_iff {given value : α} :
    ((pure given : NotingParser α) cursor).2 = .ok value after ↔ given = value ∧ cursor = after := by
  change Reply.ok given cursor = _ ↔ _
  simp

@[simp] theorem lift_snd (parser : Parser α) :
    ((liftM parser : NotingParser α) cursor).2 = parser cursor := rfl

@[simp] theorem atomic_ok_iff {parser : NotingParser α} {value : α} :
    (atomic parser cursor).2 = .ok value after ↔ (parser cursor).2 = .ok value after := by
  unfold atomic
  obtain ⟨notes, reply⟩ := parser cursor
  cases reply <;> simp

end Combinators

end NotingParser

end GameScript
