import GameScript.Proofs.Outcome

/-!
The notes of a run. No production tries a statement again after it has failed, or goes on behind it:
the first note is the last one, and the run fails at the token of that note.
-/

namespace GameScript

/-- The notes that go with a reply over the tokens: none with a value, and at most one with a
failure, which is then the failure at the token of the note. -/
def Reply.Explained {α : Type} (tokens : List Token) (notes : List Mismatch) : Reply α → Prop
  | .ok _ after => after.tokens = tokens ∧ notes = []
  | .error reason _ =>
      notes = [] ∨ ∃ note, notes = [note] ∧ note.token ∈ tokens ∧
        reason = note.token.fault .expectedStatement

namespace NotingParser

def Explains {α : Type} (tokens : List Token) (parser : NotingParser α) : Prop :=
  ∀ cursor : Cursor, cursor.tokens = tokens →
    (parser cursor).2.Explained tokens (parser cursor).1

namespace Explains

variable {α β : Type} {tokens : List Token}

theorem pure {value : α} : Explains tokens (pure value) :=
  fun _ onTokens => ⟨onTokens, rfl⟩

theorem lift {parser : Parser α} {good : α → Prop} (stays : Parser.Stays tokens parser good) :
    Explains tokens (liftM parser) := by
  intro cursor onTokens
  have ended := stays cursor onTokens
  change (parser cursor).Explained tokens []
  generalize parser cursor = reply at ended ⊢
  cases reply with
  | ok value after => exact ⟨ended.1, rfl⟩
  | error reason after => exact Or.inl rfl

theorem failAt {token : Token} {kind : ErrorKind} :
    Explains tokens (liftM (Parser.failAt token kind : Parser α)) :=
  fun _ _ => Or.inl rfl

theorem bind {first : NotingParser α} {next : α → NotingParser β}
    (firstExplains : Explains tokens first)
    (nextExplains : ∀ value, Explains tokens (next value)) : Explains tokens (first >>= next) := by
  intro cursor onTokens
  have ended := firstExplains cursor onTokens
  change (andThen first next cursor).2.Explained tokens (andThen first next cursor).1
  unfold andThen
  generalize first cursor = ran at ended ⊢
  obtain ⟨notes, reply⟩ := ran
  cases reply with
  | ok value after =>
      obtain ⟨stayed, rfl⟩ := ended
      exact nextExplains value after stayed
  | error reason after => exact ended

theorem atomic {parser : NotingParser α} (explains : Explains tokens parser) :
    Explains tokens (atomic parser) := by
  intro cursor onTokens
  have ended := explains cursor onTokens
  unfold NotingParser.atomic
  generalize parser cursor = ran at ended ⊢
  obtain ⟨notes, reply⟩ := ran
  cases reply with
  | ok value after => exact ended
  | error reason after => exact ended

end Explains

section Statements

variable {tokens : List Token}

theorem noted_explains : Explains tokens noted := by
  intro cursor onTokens
  have ended := Parser.simple_keeps cursor onTokens
  unfold noted
  generalize Parser.simple cursor = reply at ended ⊢
  cases reply with
  | ok statement after => exact ⟨ended.1, rfl⟩
  | error cause after => exact Or.inr ⟨_, rfl, onTokens ▸ cursor.peek_mem, rfl⟩

variable {statement : NotingParser Stmt}

theorem untilBrace_explains (statementExplains : Explains tokens statement) (fuel : Nat) :
    Explains tokens (untilBrace statement fuel) := by
  induction fuel with
  | zero => exact (Explains.lift Parser.Stays.peek).bind fun _ => Explains.failAt
  | succ fuel ih =>
      refine (Explains.lift Parser.Stays.skipBlank).bind fun _ => ?_
      refine (Explains.lift Parser.Stays.peek).bind fun token => ?_
      split
      · exact (Explains.lift Parser.Stays.skip).bind fun _ => Explains.pure
      · exact Explains.failAt
      · exact statementExplains.bind fun _ => ih.bind fun _ => Explains.pure

theorem blockFrom_explains (statementExplains : Explains tokens statement) :
    Explains tokens (blockFrom statement) := by
  have inside : Explains tokens fun cursor => untilBrace statement (cursor.rest.length + 1) cursor :=
    fun cursor onTokens => untilBrace_explains statementExplains _ cursor onTokens
  refine Explains.atomic ((Explains.lift (Parser.Stays.symbol rfl)).bind fun _ => ?_)
  exact inside.bind fun _ => Explains.pure

theorem elseFrom_explains (statementExplains : Explains tokens statement) :
    Explains tokens (elseFrom statement) := by
  intro cursor onTokens
  unfold elseFrom
  simp only
  split
  · exact statementExplains _ (by rw [Cursor.tokens_advance, Cursor.tokens_skipLineEnds, onTokens])
  · exact ⟨onTokens, rfl⟩

theorem parenthesized_explains : Explains tokens (liftM Parser.parenthesized) :=
  Explains.lift (Parser.parenthesizedFrom_keeps Parser.expression_keeps)

theorem branchFrom_explains (statementExplains : Explains tokens statement) :
    Explains tokens (branchFrom statement) := by
  refine Explains.atomic ((Explains.lift Parser.Stays.skip).bind fun _ => ?_)
  refine parenthesized_explains.bind fun test => statementExplains.bind fun yes => ?_
  exact (elseFrom_explains statementExplains).bind fun _ => Explains.pure

theorem doLoopFrom_explains (statementExplains : Explains tokens statement) :
    Explains tokens (doLoopFrom statement) := by
  refine Explains.atomic ((Explains.lift Parser.Stays.skip).bind fun _ => ?_)
  refine statementExplains.bind fun body => ?_
  exact (Explains.lift Parser.loopTail_keeps).bind fun _ => Explains.pure

theorem headedFrom_explains (statementExplains : Explains tokens statement) :
    Explains tokens (headedFrom statement) := by
  refine Explains.atomic ((Explains.lift Parser.Stays.next).bind fun word => ?_)
  exact parenthesized_explains.bind fun head => statementExplains.bind fun _ => Explains.pure

theorem forLoopFrom_explains (statementExplains : Explains tokens statement) :
    Explains tokens (forLoopFrom statement) := by
  refine Explains.atomic ((Explains.lift Parser.Stays.skip).bind fun _ => ?_)
  refine (Explains.lift (Parser.Stays.symbol rfl)).bind fun _ => ?_
  refine (Explains.lift Parser.Stays.skipLineEnds).bind fun _ => ?_
  refine (Explains.lift (Parser.clause_keeps true)).bind fun init => ?_
  refine (Explains.lift Parser.separator_keeps).bind fun _ => ?_
  refine (Explains.lift Parser.forTest_keeps).bind fun test => ?_
  refine (Explains.lift Parser.separator_keeps).bind fun _ => ?_
  refine (Explains.lift Parser.forUpdate_keeps).bind fun update => ?_
  refine (Explains.lift Parser.Stays.skipLineEnds).bind fun _ => ?_
  refine (Explains.lift (Parser.Stays.symbol rfl)).bind fun _ => ?_
  exact statementExplains.bind fun _ => Explains.pure

theorem begunFrom_explains (statementExplains : Explains tokens statement) :
    Explains tokens (begunFrom statement) := by
  have ended : Explains tokens (liftM Parser.terminator) := Explains.lift Parser.terminator_keeps
  have jumps (jump : Stmt) : Explains tokens (do
      Parser.skip
      Parser.terminator
      return jump) :=
    (Explains.lift Parser.Stays.skip).bind fun _ => ended.bind fun _ => Explains.pure
  have declares : Explains tokens (do
      let declared ← Parser.declaration
      Parser.terminator
      return Stmt.declare declared) :=
    (Explains.lift Parser.declaration_keeps).bind fun _ => ended.bind fun _ => Explains.pure
  refine (Explains.lift Parser.Stays.peek).bind fun token => ?_
  split
  · exact ended.bind fun _ => Explains.pure
  · exact blockFrom_explains statementExplains
  · exact declares
  · exact declares
  · exact branchFrom_explains statementExplains
  · exact doLoopFrom_explains statementExplains
  · exact forLoopFrom_explains statementExplains
  · exact headedFrom_explains statementExplains
  · exact headedFrom_explains statementExplains
  · exact headedFrom_explains statementExplains
  · exact headedFrom_explains statementExplains
  · exact jumps .breakLoop
  · exact jumps .continueLoop
  · exact jumps .exitScript
  · refine (Explains.lift Parser.Stays.skip).bind fun _ => ?_
    exact (Explains.lift Parser.returned_keeps).bind fun _ => Explains.pure
  · exact noted_explains

theorem statementFrom_explains (fuel : Nat) : Explains tokens (statementFrom fuel) := by
  induction fuel with
  | zero => exact (Explains.lift Parser.Stays.peek).bind fun _ => Explains.failAt
  | succ fuel ih =>
      refine Explains.atomic ((Explains.lift Parser.Stays.skipBlank).bind fun _ => ?_)
      exact begunFrom_explains ih

theorem statement_explains : Explains tokens NotingParser.statement :=
  fun cursor onTokens => statementFrom_explains _ cursor onTokens

theorem untilEnd_explains (fuel : Nat) : Explains tokens (untilEnd fuel) := by
  induction fuel with
  | zero => exact (Explains.lift Parser.Stays.peek).bind fun _ => Explains.failAt
  | succ fuel ih =>
      refine (Explains.lift Parser.Stays.skipLineEnds).bind fun _ => ?_
      refine (Explains.lift Parser.Stays.peek).bind fun token => ?_
      split
      · exact Explains.pure
      · refine (Explains.lift Parser.docLines_keeps).bind fun _ => ih.bind fun _ => ?_
        exact Explains.pure
      · exact statement_explains.bind fun _ => ih.bind fun _ => Explains.pure

theorem statements_explains : Explains tokens statements :=
  Explains.atomic fun cursor onTokens => untilEnd_explains _ cursor onTokens

theorem script_explains : Explains tokens script := by
  refine Explains.atomic ((Explains.lift skipStart_keeps).bind fun _ => ?_)
  refine (Explains.lift Parser.Stays.skipLineEnds).bind fun _ => ?_
  refine (Explains.lift Parser.docLines_keeps).bind fun doc => ?_
  refine (Explains.lift Parser.argumentList_keeps).bind fun args => ?_
  exact statements_explains.bind fun _ => Explains.pure

end Statements

end NotingParser

theorem parseTokens_explained (tokens : List Token) :
    (∃ script, parseTokens tokens = ([], .ok script)) ∨
      (∃ reason, parseTokens tokens = ([], .error reason)) ∨
      ∃ note, note.token ∈ Cursor.closed tokens ∧
        parseTokens tokens = ([note], .error (note.token.fault .expectedStatement)) := by
  have ended := NotingParser.script_explains (Cursor.ofTokens tokens) rfl
  unfold parseTokens
  generalize NotingParser.script (Cursor.ofTokens tokens) = ran at ended ⊢
  obtain ⟨notes, reply⟩ := ran
  cases reply with
  | ok script after =>
      obtain ⟨_, rfl⟩ := ended
      exact Or.inl ⟨script, rfl⟩
  | error reason after =>
      rcases ended with rfl | ⟨note, rfl, member, rfl⟩
      · exact Or.inr (Or.inl ⟨reason, rfl⟩)
      · exact Or.inr (Or.inr ⟨note, member, rfl⟩)

/-- A script that is read leaves no note. A list of tokens that is not read leaves at most one: its
token stands in the list, and the failure is an expected statement at the place of that token. -/
theorem single_note_names_failure (tokens : List Token) :
    ((∃ script, (parseTokens tokens).2 = .ok script) → (parseTokens tokens).1 = []) ∧
      (parseTokens tokens).1.length ≤ 1 ∧
      ∀ note ∈ (parseTokens tokens).1, ∃ reason, (parseTokens tokens).2 = .error reason ∧
        reason.kind = .expectedStatement ∧ reason.position = note.token.position ∧
        ∃ index : Nat, (Cursor.closed tokens)[index]? = some note.token := by
  rcases parseTokens_explained tokens with ⟨script, ran⟩ | ⟨reason, ran⟩ | ⟨note, member, ran⟩
  · simp [ran]
  · simp [ran]
  · refine ⟨by simp [ran], by simp [ran], ?_⟩
    intro other isNote
    obtain rfl : other = note := by simpa [ran] using isNote
    refine ⟨_, by rw [ran], rfl, rfl, ?_⟩
    exact List.mem_iff_getElem?.mp member

/-- In `if (a) { x y }` the statement `x y` is noted once, and neither the block nor the branch
around it changes the failure. -/
theorem single_note_names_failure_nested :
    let token (kind : TokenKind) (lit : String) (col : Int) : Token := ⟨kind, lit, ⟨1, col⟩⟩
    let statement := token .ident "x" 10
    let tokens :=
      [token (.keyword .if_) "if" 1, token (.symbol .leftParen) "" 4, token .ident "a" 5,
        token (.symbol .rightParen) "" 6, token (.symbol .leftBrace) "" 8, statement,
        token .ident "y" 12, token (.symbol .rightBrace) "" 14]
    (parseTokens tokens).1 = [⟨statement, (token .ident "y" 12).fault .expectedTerminator⟩] ∧
      ∃ reason, (parseTokens tokens).2 = .error reason ∧ reason.kind = .expectedStatement ∧
        reason.position = ⟨1, 10⟩ := by
  intro token statement tokens
  have noted : (parseTokens tokens).1 =
      [⟨statement, (token .ident "y" 12).fault .expectedTerminator⟩] := by decide +kernel
  obtain ⟨reason, failed, kind, position, _⟩ :=
    (single_note_names_failure tokens).2.2 ⟨statement, _⟩ (noted ▸ List.mem_singleton_self _)
  exact ⟨noted, reason, failed, kind, position⟩

end GameScript
