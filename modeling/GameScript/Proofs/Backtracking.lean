import GameScript.Proofs.Outcome

/-!
Backtracking: a production that fails leaves the cursor where it was. A list of items never fails,
and stops right behind the last item that it gives.
-/

namespace GameScript

inductive Production where
  | script
  | argumentList
  | argument
  | identifier
  | target
  | literal
  | value
  | call
  | parenthesized
  | binary (least : Int)
  | assignment
  | statements
  | block
  | statement
  | declaration
  | branch
  | doLoop
  | headed
  | forLoop
  | clause (first : Bool)
  | terminator

namespace Production

def Result : Production → Type
  | script => Script
  | argumentList => List Argument
  | argument => Argument
  | identifier | target => String
  | literal => Literal
  | value | parenthesized | binary _ => Expr
  | call => String × List Expr
  | assignment => Assignment
  | statements => List Stmt
  | declaration => Declaration
  | block | statement | branch | doLoop | headed | forLoop | clause _ => Stmt
  | terminator => Unit

def run : (production : Production) → Cursor → Reply production.Result
  | script => fun cursor => (NotingParser.script cursor).2
  | argumentList => Parser.argumentList
  | argument => Parser.argument
  | identifier | target => Parser.identifier
  | literal => Parser.literal
  | value => Parser.value
  | call => Parser.call
  | parenthesized => Parser.parenthesized
  | binary least => Parser.binary least
  | assignment => Parser.assignment
  | statements => fun cursor => (NotingParser.statements cursor).2
  | block => fun cursor => (NotingParser.block cursor).2
  | statement => fun cursor => (NotingParser.statement cursor).2
  | declaration => Parser.declaration
  | branch => fun cursor => (NotingParser.branch cursor).2
  | doLoop => fun cursor => (NotingParser.doLoop cursor).2
  | headed => fun cursor => (NotingParser.headed cursor).2
  | forLoop => fun cursor => (NotingParser.forLoop cursor).2
  | clause first => Parser.clause first
  | terminator => Parser.terminator

theorem run_keeps (production : Production) (tokens : List Token) :
    Parser.Keeps tokens production.run := by
  cases production with
  | script => exact fun cursor => NotingParser.script_keeps cursor
  | argumentList => exact Parser.argumentList_keeps
  | argument => exact Parser.argument_keeps
  | identifier | target => exact Parser.Stays.name rfl
  | literal => exact Parser.literal_keeps
  | value => exact Parser.value_keeps
  | call => exact Parser.callFrom_keeps Parser.expression_keeps
  | parenthesized => exact Parser.parenthesizedFrom_keeps Parser.expression_keeps
  | binary least => exact Parser.binary_keeps least
  | assignment => exact Parser.assignment_keeps
  | statements => exact fun cursor => NotingParser.statements_keeps cursor
  | block =>
      exact fun cursor => NotingParser.blockFrom_keeps NotingParser.statement_keeps cursor
  | statement => exact fun cursor => NotingParser.statement_keeps cursor
  | declaration => exact Parser.declaration_keeps
  | branch =>
      exact fun cursor => NotingParser.branchFrom_keeps NotingParser.statement_keeps cursor
  | doLoop =>
      exact fun cursor => NotingParser.doLoopFrom_keeps NotingParser.statement_keeps cursor
  | headed =>
      exact fun cursor => NotingParser.headedFrom_keeps NotingParser.statement_keeps cursor
  | forLoop =>
      exact fun cursor => NotingParser.forLoopFrom_keeps NotingParser.statement_keeps cursor
  | clause first => exact Parser.clause_keeps first
  | terminator => exact Parser.terminator_keeps

end Production

def Reply.failed {α : Type} : Reply α → Bool
  | .ok _ _ => false
  | .error _ _ => true

def Reply.FailsAt {α : Type} (cursor : Cursor) : Reply α → Prop
  | .ok _ _ => True
  | .error _ after => after = cursor

theorem Reply.FailsAt.cursor_eq {α : Type} {cursor : Cursor} {reply : Reply α}
    (here : reply.FailsAt cursor) (failed : reply.failed = true) : reply.cursor = cursor := by
  cases reply with
  | ok value after => simp [Reply.failed] at failed
  | error reason after => exact here

namespace Parser

def Restores {α : Type} (parser : Parser α) : Prop :=
  ∀ cursor, (parser cursor).FailsAt cursor

section Combinators

variable {α β : Type}

theorem restores_atomic (parser : Parser α) : (atomic parser).Restores := by
  intro cursor
  unfold atomic
  cases parser cursor with
  | ok value after => trivial
  | error reason after => rfl

theorem restores_orElse (first second : Parser α) : (orElse first second).Restores := by
  intro cursor
  unfold orElse
  cases first cursor with
  | ok value after => trivial
  | error reason after =>
      cases second cursor with
      | ok value last => trivial
      | error later last => rfl

theorem restores_failAt (token : Token) (kind : ErrorKind) : (failAt token kind : Parser α).Restores :=
  fun _ => rfl

theorem restores_pure (value : α) : (pure value : Parser α).Restores :=
  fun _ => trivial

theorem restores_peek {next : Token → Parser α} (each : ∀ token, (next token).Restores) :
    (peek >>= next).Restores :=
  fun cursor => each cursor.peek cursor

theorem Restores.map {first : Parser α} (restores : first.Restores) (give : α → β) :
    (first >>= fun value => pure (give value)).Restores := by
  intro cursor
  have here := restores cursor
  change (andThen first (fun value => pure (give value)) cursor).FailsAt cursor
  unfold andThen
  generalize first cursor = reply at here ⊢
  cases reply with
  | ok value after => trivial
  | error reason after => exact here

theorem restores_expect (wanted : TokenKind) (kind : ErrorKind) : (expect wanted kind).Restores := by
  refine restores_peek fun token => ?_
  split
  · exact fun _ => trivial
  · exact restores_failAt token kind

end Combinators

theorem restores_identifier : identifier.Restores :=
  (restores_expect .ident .expectedIdentifier).map Token.lit

theorem restores_clause (first : Bool) : (clause first).Restores := by
  refine restores_peek fun token => ?_
  split
  · exact restores_pure Stmt.noop
  · split
    · exact (restores_atomic _).map Stmt.declare
    · exact restores_orElse _ _

theorem restores_terminator : terminator.Restores := by
  intro cursor
  unfold terminator
  split
  · split <;> trivial
  · trivial
  · trivial
  · rfl

/-- Items that stand one behind the other: the next one is read behind the comma that follows, and
the cursor ends where the last one does. -/
inductive ItemsFrom (item : Parser Expr) : Cursor → List Expr → Cursor → Prop where
  | last {start after : Cursor} {only : Expr} (read : item start = .ok only after) :
      ItemsFrom item start [only] after
  | more {start middle after : Cursor} {first : Expr} {others : List Expr}
      (read : item start = .ok first middle) (comma : middle.peek.kind = .symbol .comma)
      (goesOn : ItemsFrom item middle.advance.skipLineEnds others after) :
      ItemsFrom item start (first :: others) after

theorem itemsFrom_moreItems {item : Parser Expr} {start after : Cursor} {first : Expr}
    (read : item start = .ok first after) (fuel : Nat) :
    ItemsFrom item start (first :: (moreItems item fuel after).1) (moreItems item fuel after).2 := by
  induction fuel generalizing start after first with
  | zero => exact .last read
  | succ fuel ih =>
      unfold moreItems
      by_cases comma : after.peek.kind = .symbol .comma
      · simp only [comma, if_true]
        split
        next second later ran => exact .more read comma (ih ran)
        next => exact .last read
      · simp only [comma, if_false]
        exact .last read

theorem items_cases (item : Parser Expr) (cursor : Cursor) :
    (items item cursor).1 = [] ∧ (items item cursor).2 = cursor.skipLineEnds ∨
      ItemsFrom item cursor.skipLineEnds (items item cursor).1 (items item cursor).2 := by
  unfold items
  simp only
  split
  · exact Or.inl ⟨rfl, rfl⟩
  · split
    next first after ran => exact Or.inr (itemsFrom_moreItems ran _)
    next => exact Or.inl ⟨rfl, rfl⟩

end Parser

theorem NotingParser.failsAt_atomic {α : Type} (parser : NotingParser α) (cursor : Cursor) :
    (NotingParser.atomic parser cursor).2.FailsAt cursor := by
  unfold NotingParser.atomic
  obtain ⟨notes, reply⟩ := parser cursor
  cases reply with
  | ok value after => trivial
  | error reason after => rfl

theorem Production.run_failsAt (production : Production) (cursor : Cursor) :
    (production.run cursor).FailsAt cursor := by
  cases production with
  | script | statements | block | statement | branch | doLoop | headed | forLoop =>
      exact NotingParser.failsAt_atomic _ cursor
  | identifier | target => exact Parser.restores_identifier cursor
  | clause first => exact Parser.restores_clause first cursor
  | terminator => exact Parser.restores_terminator cursor
  | argumentList | argument | literal | value | call | parenthesized | binary | assignment
  | declaration => exact Parser.restores_atomic _ cursor

theorem Cursor.seek_index {cursor after : Cursor} (same : after.tokens = cursor.tokens)
    (small : cursor.index < 2 ^ 63) : after.seek (Int64.ofNat cursor.index) = cursor := by
  have mark : (Int64.ofNat cursor.index).toInt.toNat = cursor.passed.reverse.length := by
    rw [Int64.toInt_ofNat_of_lt small, Int.toNat_natCast, List.length_reverse]
    rfl
  have sides : after.tokens = cursor.passed.reverse ++ cursor.rest := same
  simp only [seek, sides, mark, List.take_left, List.drop_left, List.reverse_reverse]

theorem Production.seek_back (production : Production) {cursor : Cursor}
    (small : cursor.index < 2 ^ 63) :
    (production.run cursor).cursor.seek (Int64.ofNat cursor.index) = cursor :=
  Cursor.seek_index (production.run_keeps cursor.tokens cursor rfl).tokens_cursor small

/-- A production that fails leaves the cursor as it was, which is where seeking the mark taken at
its start leads. A list of items never fails, and leaves the cursor right behind the last item, or
behind the line ends if there is none. -/
theorem failed_production_stays :
    (∀ (production : Production) (cursor : Cursor),
      (production.run cursor).cursor.tokens = cursor.tokens ∧
        ((production.run cursor).failed = true → (production.run cursor).cursor = cursor) ∧
        (cursor.index < 2 ^ 63 →
          (production.run cursor).cursor.seek (Int64.ofNat cursor.index) = cursor)) ∧
    ∀ cursor : Cursor, ∃ list after, Parser.commaList cursor = .ok list after ∧
      after.tokens = cursor.tokens ∧
      (list = [] ∧ after = cursor.skipLineEnds ∨
        Parser.ItemsFrom Parser.expression cursor.skipLineEnds list after) := by
  constructor
  · intro production cursor
    have kept := (production.run_keeps cursor.tokens cursor rfl).tokens_cursor
    exact ⟨kept, (production.run_failsAt cursor).cursor_eq, production.seek_back⟩
  · intro cursor
    have kept := Parser.tokens_items Parser.expression_keeps cursor rfl
    exact ⟨_, _, rfl, kept, Parser.items_cases Parser.expression cursor⟩

/-- The condition of `if (a ? b) c` is given up five tokens behind the start. -/
theorem failed_production_stays_if :
    let word (text : String) : Token := ⟨.ident, text, Position.first⟩
    let sign (symbol : Symbol) : Token := ⟨.symbol symbol, "", Position.first⟩
    let cursor := Cursor.ofTokens
      [⟨.keyword .if_, "", Position.first⟩, sign .leftParen, word "a", sign .question, word "b",
        sign .rightParen, word "c"]
    (Production.statement.run cursor).failed = true ∧
      (Production.statement.run cursor).cursor = cursor := by
  intro word sign cursor
  have failed : (Production.statement.run cursor).failed = true := by decide +kernel
  exact ⟨failed, (failed_production_stays.1 .statement cursor).2.1 failed⟩

end GameScript
