import GameScript.Parser.Script

/-!
What every production does, whatever it reads: it ends over the tokens that it started over, a
failure is a syntax error at one of them, and a production that fails has not moved.
-/

namespace GameScript

namespace Cursor

theorem tokens_advance (cursor : Cursor) : cursor.advance.tokens = cursor.tokens := by
  unfold advance
  split
  next token rest shape => simp [tokens, shape]
  next => rfl

theorem tokens_passWhile (test : TokenKind → Bool) (cursor : Cursor) :
    (cursor.passWhile test).tokens = cursor.tokens := by
  simp [tokens, passWhile, List.takeWhile_append_dropWhile]

theorem tokens_skipLineEnds (cursor : Cursor) : cursor.skipLineEnds.tokens = cursor.tokens :=
  tokens_passWhile _ cursor

theorem tokens_skipBlank (cursor : Cursor) : cursor.skipBlank.tokens = cursor.tokens :=
  tokens_passWhile _ cursor

theorem peek_mem (cursor : Cursor) : cursor.peek ∈ cursor.tokens := by
  have member : cursor.peek ∈ cursor.rest ++ cursor.passed := List.head_mem _
  simpa [tokens, or_comm] using member

theorem second_mem (cursor : Cursor) : cursor.second ∈ cursor.tokens :=
  cursor.tokens_advance ▸ cursor.advance.peek_mem

end Cursor

def ErrorKind.isSyntactic (kind : ErrorKind) : Bool :=
  listed.contains kind && !kind.isLexical

def FaultIn (tokens : List Token) (reason : SourceError) : Prop :=
  ∃ token ∈ tokens, ∃ kind : ErrorKind, kind.isSyntactic = true ∧ reason = token.fault kind

/-- The run ended over the given tokens, with a value that satisfies the condition or with a fault
in one of them. -/
def Reply.Over {α : Type} (tokens : List Token) (good : α → Prop) : Reply α → Prop
  | .ok value after => after.tokens = tokens ∧ good value
  | .error reason after => after.tokens = tokens ∧ FaultIn tokens reason

theorem Reply.Over.tokens_cursor {α : Type} {tokens : List Token} {good : α → Prop}
    {reply : Reply α} (onTokens : reply.Over tokens good) : reply.cursor.tokens = tokens := by
  cases reply with
  | ok value after => exact onTokens.1
  | error reason after => exact onTokens.1

namespace Parser

def Stays {α : Type} (tokens : List Token) (parser : Parser α) (good : α → Prop) : Prop :=
  ∀ cursor : Cursor, cursor.tokens = tokens → (parser cursor).Over tokens good

abbrev Keeps {α : Type} (tokens : List Token) (parser : Parser α) : Prop :=
  Stays tokens parser fun _ => True

namespace Stays

variable {α β : Type} {tokens : List Token} {good : α → Prop} {other : β → Prop}

theorem pure {value : α} (holds : good value) : Stays tokens (pure value) good :=
  fun _ onTokens => ⟨onTokens, holds⟩

theorem bind {first : Parser α} {next : α → Parser β} (firstStays : Stays tokens first good)
    (nextStays : ∀ value, good value → Stays tokens (next value) other) :
    Stays tokens (first >>= next) other := by
  intro cursor onTokens
  have ended := firstStays cursor onTokens
  change (andThen first next cursor).Over tokens other
  unfold andThen
  generalize first cursor = reply at ended ⊢
  cases reply with
  | ok value after => exact nextStays value ended.2 after ended.1
  | error reason after => exact ended

theorem peek : Stays tokens peek (· ∈ tokens) := by
  intro cursor onTokens
  exact ⟨onTokens, onTokens ▸ cursor.peek_mem⟩

theorem second : Stays tokens second (· ∈ tokens) := by
  intro cursor onTokens
  exact ⟨onTokens, onTokens ▸ cursor.second_mem⟩

theorem next : Stays tokens next (· ∈ tokens) := by
  intro cursor onTokens
  exact ⟨cursor.tokens_advance.trans onTokens, onTokens ▸ cursor.peek_mem⟩

theorem skip : Keeps tokens skip :=
  fun cursor onTokens => ⟨cursor.tokens_advance.trans onTokens, trivial⟩

theorem skipLineEnds : Keeps tokens skipLineEnds :=
  fun cursor onTokens => ⟨cursor.tokens_skipLineEnds.trans onTokens, trivial⟩

theorem skipBlank : Keeps tokens skipBlank :=
  fun cursor onTokens => ⟨cursor.tokens_skipBlank.trans onTokens, trivial⟩

theorem failAt {token : Token} {kind : ErrorKind} (member : token ∈ tokens)
    (syntactic : kind.isSyntactic = true) : Stays tokens (failAt token kind) good :=
  fun _ onTokens => ⟨onTokens, token, member, kind, syntactic, rfl⟩

theorem atomic {parser : Parser α} (stays : Stays tokens parser good) :
    Stays tokens (atomic parser) good := by
  intro cursor onTokens
  have ended := stays cursor onTokens
  unfold Parser.atomic
  generalize parser cursor = reply at ended ⊢
  cases reply with
  | ok value after => exact ended
  | error reason after => exact ⟨onTokens, ended.2⟩

theorem orElse {first second : Parser α} (firstStays : Stays tokens first good)
    (secondStays : Stays tokens second good) : Stays tokens (orElse first second) good := by
  intro cursor onTokens
  have ended := firstStays cursor onTokens
  have endedToo := secondStays cursor onTokens
  unfold Parser.orElse
  generalize first cursor = reply at ended ⊢
  generalize second cursor = later at endedToo ⊢
  cases reply with
  | ok value after => exact ended
  | error reason after =>
      cases later with
      | ok value last => exact endedToo
      | error _ _ => exact ⟨onTokens, ended.2⟩

theorem relabel {parser : Parser α} {kind : ErrorKind} (stays : Stays tokens parser good)
    (syntactic : kind.isSyntactic = true) : Stays tokens (relabel parser kind) good := by
  intro cursor onTokens
  have ended := stays cursor onTokens
  unfold Parser.relabel
  generalize parser cursor = reply at ended ⊢
  cases reply with
  | ok value after => exact ended
  | error reason after =>
      exact ⟨ended.1, after.peek, ended.1 ▸ after.peek_mem, kind, syntactic, rfl⟩

theorem expect {wanted : TokenKind} {kind : ErrorKind} (syntactic : kind.isSyntactic = true) :
    Stays tokens (expect wanted kind) (· ∈ tokens) := by
  refine peek.bind fun token member => ?_
  split
  · exact skip.bind fun _ _ => pure member
  · exact failAt member syntactic

theorem symbol {sign : Symbol} {kind : ErrorKind} (syntactic : kind.isSyntactic = true) :
    Keeps tokens (symbol sign kind) :=
  (expect syntactic).bind fun _ _ => pure trivial

theorem name {kind : ErrorKind} (syntactic : kind.isSyntactic = true) :
    Keeps tokens (name kind) :=
  (expect syntactic).bind fun _ _ => pure trivial

end Stays

section Expressions

variable {tokens : List Token}

theorem syntactic_of_literal {token : Token} {kind : ErrorKind} (fails : token.literal = .error kind) :
    kind.isSyntactic = true := by
  unfold Token.literal at fails
  repeat' split at fails
  all_goals cases fails <;> rfl

theorem literal_keeps : Keeps tokens literal := by
  refine Stays.atomic (Stays.next.bind fun token member => ?_)
  split
  · exact Stays.pure trivial
  · next kind fails => exact Stays.failAt member (syntactic_of_literal fails)

variable {nested : Parser Expr}

theorem parenthesizedFrom_keeps (nestedKeeps : Keeps tokens nested) :
    Keeps tokens (parenthesizedFrom nested) := by
  refine Stays.atomic ((Stays.symbol rfl).bind fun _ _ => ?_)
  refine Stays.skipLineEnds.bind fun _ _ => nestedKeeps.bind fun inner _ => ?_
  exact Stays.skipLineEnds.bind fun _ _ => (Stays.symbol rfl).bind fun _ _ => Stays.pure trivial

theorem tokens_moreItems (nestedKeeps : Keeps tokens nested) (fuel : Nat)
    (cursor : Cursor) (onTokens : cursor.tokens = tokens) :
    (moreItems nested fuel cursor).2.tokens = tokens := by
  induction fuel generalizing cursor with
  | zero => exact onTokens
  | succ fuel ih =>
      unfold moreItems
      split
      · have ended := nestedKeeps cursor.advance.skipLineEnds
          (by rw [Cursor.tokens_skipLineEnds, Cursor.tokens_advance, onTokens])
        split
        next first after ran =>
          rw [ran] at ended
          exact ih after ended.1
        next => exact onTokens
      · exact onTokens

theorem tokens_items (nestedKeeps : Keeps tokens nested) (cursor : Cursor)
    (onTokens : cursor.tokens = tokens) : (items nested cursor).2.tokens = tokens := by
  have start : cursor.skipLineEnds.tokens = tokens := cursor.tokens_skipLineEnds.trans onTokens
  unfold items
  simp only
  split
  · exact start
  · have ended := nestedKeeps cursor.skipLineEnds start
    split
    next first after ran =>
      rw [ran] at ended
      exact tokens_moreItems nestedKeeps _ after ended.1
    next => exact start

theorem commaListFrom_keeps (nestedKeeps : Keeps tokens nested) :
    Keeps tokens (commaListFrom nested) :=
  fun cursor onTokens => ⟨tokens_items nestedKeeps cursor onTokens, trivial⟩

theorem callFrom_keeps (nestedKeeps : Keeps tokens nested) :
    Keeps tokens (callFrom nested) := by
  refine Stays.atomic ((Stays.name rfl).bind fun callee _ => (Stays.symbol rfl).bind fun _ _ => ?_)
  refine (commaListFrom_keeps nestedKeeps).bind fun args _ => Stays.skipLineEnds.bind fun _ _ => ?_
  exact (Stays.symbol rfl).bind fun _ _ => Stays.pure trivial

theorem valueFrom_keeps (nestedKeeps : Keeps tokens nested) (fuel : Nat) :
    Keeps tokens (valueFrom nested fuel) := by
  induction fuel with
  | zero => exact Stays.peek.bind fun token member => Stays.failAt member rfl
  | succ fuel ih =>
      refine Stays.atomic (Stays.peek.bind fun token member => ?_)
      split
      case h_8 =>
        refine Stays.second.bind fun after _ => ?_
        split
        · exact (callFrom_keeps nestedKeeps).bind fun _ _ => Stays.pure trivial
        · exact (Stays.name rfl).bind fun _ _ => Stays.pure trivial
      case h_9 => exact (parenthesizedFrom_keeps nestedKeeps).bind fun _ _ => Stays.pure trivial
      case h_10 =>
        split
        · exact Stays.skip.bind fun _ _ => ih.bind fun _ _ => Stays.pure trivial
        · exact Stays.failAt member rfl
      case h_11 => exact Stays.failAt member rfl
      all_goals exact literal_keeps.bind fun _ _ => Stays.pure trivial

variable {climbed : Int → Parser Expr}

theorem operationFrom_keeps (climbedKeeps : ∀ least, Keeps tokens (climbed least))
    (left : Expr) (operator : Operator) :
    Keeps tokens (operationFrom climbed left operator) := by
  cases operator with
  | pipe =>
      refine ((callFrom_keeps (climbedKeeps _)).relabel rfl).bind fun _ _ => ?_
      exact Stays.pure trivial
  | ternary =>
      refine (climbedKeeps _).bind fun yes _ => Stays.skipLineEnds.bind fun _ _ => ?_
      refine (Stays.symbol rfl).bind fun _ _ => Stays.skipLineEnds.bind fun _ _ => ?_
      exact (climbedKeeps _).bind fun no _ => Stays.pure trivial
  | binary op => exact (climbedKeeps _).bind fun right _ => Stays.pure trivial

theorem climbFrom_keeps (climbedKeeps : ∀ least, Keeps tokens (climbed least))
    (least : Int) (fuel : Nat) (left : Expr) :
    Keeps tokens (climbFrom climbed least fuel left) := by
  induction fuel generalizing left with
  | zero => exact Stays.pure trivial
  | succ fuel ih =>
      refine Stays.peek.bind fun token _ => ?_
      split
      · exact Stays.pure trivial
      · next operator _ =>
          split
          · exact Stays.pure trivial
          · refine Stays.skip.bind fun _ _ => Stays.skipLineEnds.bind fun _ _ => ?_
            exact (operationFrom_keeps climbedKeeps left operator).bind fun joined _ => ih joined

theorem binaryFrom_keeps (fuel : Nat) (least : Int) :
    Keeps tokens (binaryFrom fuel least) := by
  induction fuel generalizing least with
  | zero => exact Stays.peek.bind fun token member => Stays.failAt member rfl
  | succ fuel ih =>
      refine Stays.atomic ((valueFrom_keeps (ih _) (fuel + 1)).bind fun left _ => ?_)
      exact climbFrom_keeps ih least (fuel + 1) left

theorem binary_keeps (least : Int) : Keeps tokens (binary least) :=
  fun cursor onTokens => binaryFrom_keeps _ least cursor onTokens

theorem expression_keeps : Keeps tokens expression :=
  binary_keeps _

theorem value_keeps : Keeps tokens value :=
  fun cursor onTokens => valueFrom_keeps expression_keeps _ cursor onTokens

end Expressions

section Clauses

variable {tokens : List Token}

theorem terminator_keeps : Keeps tokens terminator := by
  intro cursor onTokens
  have advanced : cursor.advance.tokens = tokens := cursor.tokens_advance.trans onTokens
  unfold terminator
  split
  · split
    · exact ⟨cursor.advance.tokens_advance.trans advanced, trivial⟩
    · exact ⟨advanced, trivial⟩
  · exact ⟨advanced, trivial⟩
  · exact ⟨onTokens, trivial⟩
  · exact ⟨onTokens, cursor.peek, onTokens ▸ cursor.peek_mem, .expectedTerminator, rfl, rfl⟩

theorem assignment_keeps : Keeps tokens assignment := by
  refine Stays.atomic ((Stays.name rfl).bind fun target _ => Stays.next.bind fun token member => ?_)
  split
  · exact Stays.failAt member rfl
  · split
    · exact Stays.pure trivial
    · exact Stays.skipLineEnds.bind fun _ _ => expression_keeps.bind fun _ _ => Stays.pure trivial

theorem initialValue_keeps : Keeps tokens initialValue := by
  refine Stays.peek.bind fun token _ => ?_
  split
  · refine Stays.skip.bind fun _ _ => Stays.skipLineEnds.bind fun _ _ => ?_
    exact expression_keeps.bind fun _ _ => Stays.pure trivial
  · exact Stays.pure trivial

theorem declaration_keeps : Keeps tokens declaration := by
  refine Stays.atomic (Stays.next.bind fun word _ => (Stays.name rfl).bind fun declared _ => ?_)
  exact initialValue_keeps.bind fun value _ => Stays.pure trivial

theorem returned_keeps : Keeps tokens returned := by
  intro cursor onTokens
  have ended := terminator_keeps cursor onTokens
  unfold returned
  split
  next value after ran =>
    rw [ran] at ended
    exact ended
  next =>
    have valued : Keeps tokens (do
        let value ← expression
        terminator
        return some value) :=
      expression_keeps.bind fun _ _ => terminator_keeps.bind fun _ _ => Stays.pure trivial
    exact valued cursor onTokens

theorem simple_keeps : Keeps tokens simple :=
  Stays.orElse
    (expression_keeps.bind fun _ _ => terminator_keeps.bind fun _ _ => Stays.pure trivial)
    (assignment_keeps.bind fun _ _ => terminator_keeps.bind fun _ _ => Stays.pure trivial)

theorem clause_keeps (first : Bool) : Keeps tokens (clause first) := by
  refine Stays.peek.bind fun token _ => ?_
  split
  · exact Stays.pure trivial
  · split
    · exact declaration_keeps.bind fun _ _ => Stays.pure trivial
    · exact Stays.orElse (assignment_keeps.bind fun _ _ => Stays.pure trivial)
        (expression_keeps.bind fun _ _ => Stays.pure trivial)

theorem separator_keeps : Keeps tokens separator :=
  Stays.skipLineEnds.bind fun _ _ => (Stays.symbol rfl).bind fun _ _ => Stays.skipLineEnds

theorem forTest_keeps : Keeps tokens forTest := by
  refine Stays.peek.bind fun token _ => ?_
  split
  · exact Stays.pure trivial
  · exact expression_keeps.bind fun _ _ => Stays.pure trivial

theorem forUpdate_keeps : Keeps tokens forUpdate := by
  refine Stays.peek.bind fun token _ => ?_
  split
  · exact Stays.pure trivial
  · exact clause_keeps false

theorem optionalTerminator_keeps : Keeps tokens optionalTerminator := by
  refine Stays.peek.bind fun token _ => ?_
  split
  · exact terminator_keeps
  · exact Stays.pure trivial

theorem loopTail_keeps : Keeps tokens loopTail := by
  refine Stays.skipLineEnds.bind fun _ _ => Stays.next.bind fun token member => ?_
  have tail (kind : LoopKind) : Keeps tokens (do
      let test ← parenthesized
      optionalTerminator
      return (kind, test)) :=
    (parenthesizedFrom_keeps expression_keeps).bind fun _ _ =>
      optionalTerminator_keeps.bind fun _ _ => Stays.pure trivial
  split
  · exact tail .doWhile
  · exact tail .doUntil
  · have fails : Keeps tokens (failAt token .expectedKeyword : Parser LoopKind) :=
      Stays.failAt member rfl
    exact fails.bind fun kind _ => tail kind

theorem passing_keeps : Keeps tokens passing := by
  refine Stays.peek.bind fun token _ => ?_
  split
  · exact Stays.skip.bind fun _ _ => Stays.pure trivial
  · refine Stays.skip.bind fun _ _ => expression_keeps.bind fun _ _ => ?_
    exact Stays.pure trivial
  · exact Stays.pure trivial

theorem argument_keeps : Keeps tokens argument := by
  refine Stays.atomic ((Stays.expect rfl).bind fun _ _ => Stays.peek.bind fun token _ => ?_)
  split
  · refine Stays.skip.bind fun _ _ => (Stays.name rfl).bind fun declared _ => ?_
    exact terminator_keeps.bind fun _ _ => Stays.pure trivial
  · refine (Stays.name rfl).bind fun declared _ => passing_keeps.bind fun how _ => ?_
    exact terminator_keeps.bind fun _ _ => Stays.pure trivial

theorem argumentsFrom_keeps (fuel : Nat) : Keeps tokens (argumentsFrom fuel) := by
  induction fuel with
  | zero => exact Stays.pure trivial
  | succ fuel ih =>
      refine Stays.peek.bind fun token _ => ?_
      split
      · refine argument_keeps.bind fun first _ => Stays.skipLineEnds.bind fun _ _ => ?_
        split
        · exact Stays.pure trivial
        · exact ih.bind fun _ _ => Stays.pure trivial
      · exact Stays.pure trivial

theorem argumentList_keeps : Keeps tokens argumentList :=
  Stays.atomic fun cursor onTokens => argumentsFrom_keeps _ cursor onTokens

theorem tokens_docLinesAt (fuel : Nat) (cursor : Cursor) :
    (docLinesAt fuel cursor).2.tokens = cursor.tokens := by
  induction fuel generalizing cursor with
  | zero => rfl
  | succ fuel ih =>
      unfold docLinesAt
      split
      · simp only [ih, Cursor.tokens_skipLineEnds, Cursor.tokens_advance]
      · rfl

theorem docLines_keeps : Keeps tokens docLines :=
  fun cursor onTokens => ⟨(tokens_docLinesAt _ cursor).trans onTokens, trivial⟩

end Clauses

end Parser

namespace NotingParser

open GameScript.Parser (terminator_keeps declaration_keeps returned_keeps simple_keeps clause_keeps
  separator_keeps forTest_keeps forUpdate_keeps loopTail_keeps expression_keeps
  parenthesizedFrom_keeps argumentList_keeps docLines_keeps)

def Stays {α : Type} (tokens : List Token) (parser : NotingParser α) (good : α → Prop) : Prop :=
  ∀ cursor : Cursor, cursor.tokens = tokens → (parser cursor).2.Over tokens good

abbrev Keeps {α : Type} (tokens : List Token) (parser : NotingParser α) : Prop :=
  Stays tokens parser fun _ => True

namespace Stays

variable {α β : Type} {tokens : List Token} {good : α → Prop} {other : β → Prop}

theorem lift {parser : Parser α} (stays : Parser.Stays tokens parser good) :
    Stays tokens (liftM parser) good :=
  fun cursor onTokens => stays cursor onTokens

theorem pure {value : α} (holds : good value) : Stays tokens (pure value) good :=
  fun _ onTokens => ⟨onTokens, holds⟩

theorem bind {first : NotingParser α} {next : α → NotingParser β}
    (firstStays : Stays tokens first good)
    (nextStays : ∀ value, good value → Stays tokens (next value) other) :
    Stays tokens (first >>= next) other := by
  intro cursor onTokens
  have ended := firstStays cursor onTokens
  change (andThen first next cursor).2.Over tokens other
  unfold andThen
  generalize first cursor = ran at ended ⊢
  obtain ⟨notes, reply⟩ := ran
  cases reply with
  | ok value after => exact nextStays value ended.2 after ended.1
  | error reason after => exact ended

theorem atomic {parser : NotingParser α} (stays : Stays tokens parser good) :
    Stays tokens (atomic parser) good := by
  intro cursor onTokens
  have ended := stays cursor onTokens
  unfold NotingParser.atomic
  generalize parser cursor = ran at ended ⊢
  obtain ⟨notes, reply⟩ := ran
  cases reply with
  | ok value after => exact ended
  | error reason after => exact ⟨onTokens, ended.2⟩

end Stays

section Statements

variable {tokens : List Token}

theorem noted_keeps : Keeps tokens noted := by
  intro cursor onTokens
  have ended := simple_keeps cursor onTokens
  unfold noted
  split
  next statement after ran =>
    rw [ran] at ended
    exact ended
  next => exact ⟨onTokens, cursor.peek, onTokens ▸ cursor.peek_mem, .expectedStatement, rfl, rfl⟩

variable {statement : NotingParser Stmt}

theorem untilBrace_keeps (statementKeeps : Keeps tokens statement) (fuel : Nat) :
    Keeps tokens (untilBrace statement fuel) := by
  induction fuel with
  | zero =>
      refine (Stays.lift Parser.Stays.peek).bind fun token member => ?_
      exact Stays.lift (Parser.Stays.failAt member rfl)
  | succ fuel ih =>
      refine (Stays.lift Parser.Stays.skipBlank).bind fun _ _ => ?_
      refine (Stays.lift Parser.Stays.peek).bind fun token member => ?_
      split
      · exact (Stays.lift Parser.Stays.skip).bind fun _ _ => Stays.pure trivial
      · exact Stays.lift (Parser.Stays.failAt member rfl)
      · exact statementKeeps.bind fun _ _ => ih.bind fun _ _ => Stays.pure trivial

theorem blockFrom_keeps (statementKeeps : Keeps tokens statement) :
    Keeps tokens (blockFrom statement) := by
  refine Stays.atomic ((Stays.lift (Parser.Stays.symbol rfl)).bind fun _ _ => ?_)
  have inside : Keeps tokens fun cursor => untilBrace statement (cursor.rest.length + 1) cursor :=
    fun cursor onTokens => untilBrace_keeps statementKeeps _ cursor onTokens
  exact inside.bind fun _ _ => Stays.pure trivial

theorem elseFrom_keeps (statementKeeps : Keeps tokens statement) :
    Keeps tokens (elseFrom statement) := by
  intro cursor onTokens
  unfold elseFrom
  simp only
  split
  · exact statementKeeps _ (by rw [Cursor.tokens_advance, Cursor.tokens_skipLineEnds, onTokens])
  · exact ⟨onTokens, trivial⟩

theorem parenthesized_keeps : Keeps tokens (liftM Parser.parenthesized) :=
  Stays.lift (parenthesizedFrom_keeps expression_keeps)

theorem branchFrom_keeps (statementKeeps : Keeps tokens statement) :
    Keeps tokens (branchFrom statement) := by
  refine Stays.atomic ((Stays.lift Parser.Stays.skip).bind fun _ _ => ?_)
  refine parenthesized_keeps.bind fun test _ => statementKeeps.bind fun yes _ => ?_
  exact (elseFrom_keeps statementKeeps).bind fun _ _ => Stays.pure trivial

theorem doLoopFrom_keeps (statementKeeps : Keeps tokens statement) :
    Keeps tokens (doLoopFrom statement) := by
  refine Stays.atomic ((Stays.lift Parser.Stays.skip).bind fun _ _ => ?_)
  refine statementKeeps.bind fun body _ => (Stays.lift loopTail_keeps).bind fun tail _ => ?_
  exact Stays.pure trivial

theorem headedFrom_keeps (statementKeeps : Keeps tokens statement) :
    Keeps tokens (headedFrom statement) := by
  refine Stays.atomic ((Stays.lift Parser.Stays.next).bind fun word _ => ?_)
  refine parenthesized_keeps.bind fun head _ => statementKeeps.bind fun body _ => ?_
  exact Stays.pure trivial

theorem forLoopFrom_keeps (statementKeeps : Keeps tokens statement) :
    Keeps tokens (forLoopFrom statement) := by
  refine Stays.atomic ((Stays.lift Parser.Stays.skip).bind fun _ _ => ?_)
  refine (Stays.lift (Parser.Stays.symbol rfl)).bind fun _ _ => ?_
  refine (Stays.lift Parser.Stays.skipLineEnds).bind fun _ _ => ?_
  refine (Stays.lift (clause_keeps true)).bind fun init _ => ?_
  refine (Stays.lift separator_keeps).bind fun _ _ => ?_
  refine (Stays.lift forTest_keeps).bind fun test _ => ?_
  refine (Stays.lift separator_keeps).bind fun _ _ => ?_
  refine (Stays.lift forUpdate_keeps).bind fun update _ => ?_
  refine (Stays.lift Parser.Stays.skipLineEnds).bind fun _ _ => ?_
  refine (Stays.lift (Parser.Stays.symbol rfl)).bind fun _ _ => ?_
  exact statementKeeps.bind fun body _ => Stays.pure trivial

theorem begunFrom_keeps (statementKeeps : Keeps tokens statement) :
    Keeps tokens (begunFrom statement) := by
  have ended : Keeps tokens (liftM Parser.terminator) := Stays.lift terminator_keeps
  have jumps (jump : Stmt) : Keeps tokens (do
      Parser.skip
      Parser.terminator
      return jump) :=
    (Stays.lift Parser.Stays.skip).bind fun _ _ => ended.bind fun _ _ => Stays.pure trivial
  have declares : Keeps tokens (do
      let declared ← Parser.declaration
      Parser.terminator
      return Stmt.declare declared) :=
    (Stays.lift declaration_keeps).bind fun _ _ => ended.bind fun _ _ => Stays.pure trivial
  refine (Stays.lift Parser.Stays.peek).bind fun token _ => ?_
  split
  · exact ended.bind fun _ _ => Stays.pure trivial
  · exact blockFrom_keeps statementKeeps
  · exact declares
  · exact declares
  · exact branchFrom_keeps statementKeeps
  · exact doLoopFrom_keeps statementKeeps
  · exact forLoopFrom_keeps statementKeeps
  · exact headedFrom_keeps statementKeeps
  · exact headedFrom_keeps statementKeeps
  · exact headedFrom_keeps statementKeeps
  · exact headedFrom_keeps statementKeeps
  · exact jumps .breakLoop
  · exact jumps .continueLoop
  · exact jumps .exitScript
  · refine (Stays.lift Parser.Stays.skip).bind fun _ _ => ?_
    exact (Stays.lift returned_keeps).bind fun _ _ => Stays.pure trivial
  · exact noted_keeps

theorem statementFrom_keeps (fuel : Nat) : Keeps tokens (statementFrom fuel) := by
  induction fuel with
  | zero =>
      refine (Stays.lift Parser.Stays.peek).bind fun token member => ?_
      exact Stays.lift (Parser.Stays.failAt member rfl)
  | succ fuel ih =>
      exact Stays.atomic ((Stays.lift Parser.Stays.skipBlank).bind fun _ _ => begunFrom_keeps ih)

theorem statement_keeps : Keeps tokens NotingParser.statement :=
  fun cursor onTokens => statementFrom_keeps _ cursor onTokens

theorem untilEnd_keeps (fuel : Nat) : Keeps tokens (untilEnd fuel) := by
  induction fuel with
  | zero =>
      refine (Stays.lift Parser.Stays.peek).bind fun token member => ?_
      exact Stays.lift (Parser.Stays.failAt member rfl)
  | succ fuel ih =>
      refine (Stays.lift Parser.Stays.skipLineEnds).bind fun _ _ => ?_
      refine (Stays.lift Parser.Stays.peek).bind fun token _ => ?_
      split
      · exact Stays.pure trivial
      · refine (Stays.lift docLines_keeps).bind fun _ _ => ih.bind fun _ _ => ?_
        exact Stays.pure trivial
      · exact statement_keeps.bind fun _ _ => ih.bind fun _ _ => Stays.pure trivial

theorem statements_keeps : Keeps tokens statements :=
  Stays.atomic fun cursor onTokens => untilEnd_keeps _ cursor onTokens

theorem skipStart_keeps : Parser.Keeps tokens skipStart := by
  refine Parser.Stays.peek.bind fun token _ => ?_
  split
  · exact Parser.Stays.skip
  · exact Parser.Stays.pure trivial

theorem script_keeps : Keeps tokens script := by
  refine Stays.atomic ((Stays.lift skipStart_keeps).bind fun _ _ => ?_)
  refine (Stays.lift Parser.Stays.skipLineEnds).bind fun _ _ => ?_
  refine (Stays.lift docLines_keeps).bind fun doc _ => ?_
  refine (Stays.lift argumentList_keeps).bind fun args _ => ?_
  exact statements_keeps.bind fun body _ => Stays.pure trivial

end Statements

end NotingParser

end GameScript
