import GameScript.Proofs.Script
import GameScript.Proofs.Progress

/-!
Every production ends on every closed list of tokens, from every position, whatever the tokens are.
Each round of a loop starts behind a token that has been passed, and so does each production that is
nested in itself; in between a few productions call one another at one place. So the recursion goes at
most about four times as deep as there are tokens ahead. A production of the grammar that succeeds has
passed at least one token and not the closing one.
-/

namespace GameScript

open Cursor (Reaches Advances)

/-! Expressions. -/

theorem Runs.literal {cursor : Cursor} (closed : Closed cursor.tokens) :
    Runs (liftM Parser.literal) Parser.literal cursor fun _ => cursor.Advances := by
  refine (Runs.lift _ cursor).weaken fun _ _ read => ?_
  obtain ⟨denotes, rfl⟩ := Parser.literal_ok_iff.mp read
  exact Cursor.advances_advance closed (Token.kind_ne_finish_of_literal denotes)

/-- Expressions with fewer tokens ahead than the bound are run as by plain recursion. -/
def Nests (bound : Nat) (least : Int) (nested : Parser Expr) : Prop :=
  ∀ (depth : Nat) (cursor : Cursor), Closed cursor.tokens → cursor.rest.length < bound →
    4 * cursor.rest.length + 3 ≤ depth →
      Runs (Search.binary depth least) nested cursor fun _ => cursor.Advances

namespace Nests

variable {bound : Nat} (depth : Nat) {least : Int} {nested : Parser Expr} {start cursor : Cursor}

theorem behind (nests : Nests bound least nested) (within : start.rest.length ≤ bound)
    (deep : 4 * start.rest.length ≤ depth) (here : start.Advances cursor) :
    Runs (Search.binary depth least) nested cursor fun _ => start.Advances := by
  have shorter := here.length_lt
  exact .behind here.toReaches (nests depth cursor here.closed (by omega) (by omega))

variable (nests : Nests bound Precedence.pipe nested)
include nests

theorem parenthesized (within : cursor.rest.length ≤ bound)
    (deep : 4 * cursor.rest.length + 1 ≤ depth) (closed : Closed cursor.tokens) :
    Runs (Search.parenthesized depth) (Parser.parenthesizedFrom nested) cursor
      fun _ => cursor.Advances := by
  rcases depth with _ | depth
  · omega
  rw [Search.parenthesized]
  refine .atomic (.symbol (.refl closed) fun opened => .read rfl ?_)
  have inner := nests.behind depth within (by omega) opened.skipLineEnds
  refine inner.bind fun _ _ inside => .read rfl ?_
  exact .symbol inside.skipLineEnds.toReaches fun ended => .pure ended

theorem moreItems (fuel : Nat) (enough : cursor.rest.length ≤ fuel)
    (within : cursor.rest.length ≤ bound) (deep : 4 * cursor.rest.length + 1 ≤ depth)
    (closed : Closed cursor.tokens) :
    Runs (Search.moreItems depth)
      (fun cursor => .ok (Parser.moreItems nested fuel cursor).1
        (Parser.moreItems nested fuel cursor).2)
      cursor fun _ => cursor.Reaches := by
  induction fuel generalizing cursor depth with
  | zero =>
      rcases depth with _ | depth
      · omega
      have finish := Cursor.kind_peek_of_passed closed enough
      refine .give [] (Reaches.refl closed) ?_ rfl
      simp only [Search.moreItems, finish, reduceCtorEq, if_false]
      rfl
  | succ fuel ih =>
      rcases depth with _ | depth
      · omega
      by_cases comma : cursor.peek.kind = .symbol .comma
      · have passed := Cursor.advances_advance closed (by simp [comma])
        have first := nests.behind depth within (by omega) passed.skipLineEnds
        have list := first.listed (fun _ ahead =>
          have shorter := ahead.length_lt
          ih depth (by omega) (by omega) (by omega) ahead.closed) closed
        refine list.of_eq ?_ ?_
        · simp only [Search.moreItems, comma, if_true]
        · simp only [Parser.moreItems, comma, if_true]
          cases nested cursor.advance.skipLineEnds <;> rfl
      · refine .give [] (Reaches.refl closed) ?_ (by simp [Parser.moreItems, comma])
        simp only [Search.moreItems, comma, if_false]
        rfl

theorem commaList (within : cursor.rest.length < bound) (deep : 4 * cursor.rest.length + 4 ≤ depth)
    (closed : Closed cursor.tokens) :
    Runs (Search.commaList depth) (Parser.commaListFrom nested) cursor fun _ => cursor.Reaches := by
  rcases depth with _ | depth
  · omega
  have start := (Reaches.refl closed).skipLineEnds
  have length_le := start.length_le
  by_cases empty : cursor.skipLineEnds.peek.kind = .symbol .rightParen
  · refine .give [] start ?_ (by simp [Parser.commaListFrom, Parser.items, empty])
    simp only [Search.commaList, empty, if_true]
    rfl
  · have first := nests depth _ start.closed (by omega) (by omega)
    have list := first.listed (fun _ ahead =>
      have shorter := ahead.length_lt
      nests.moreItems depth _ le_rfl (by omega) (by omega) ahead.closed) start.closed
    refine (list.weaken fun _ _ => start.trans).of_eq ?_ ?_
    · simp only [Search.commaList, empty, if_false]
    · simp only [Parser.commaListFrom, Parser.items, empty, if_false]
      cases nested cursor.skipLineEnds <;> rfl

theorem call (within : cursor.rest.length ≤ bound) (deep : 4 * cursor.rest.length + 1 ≤ depth)
    (closed : Closed cursor.tokens) :
    Runs (Search.call depth) (Parser.callFrom nested) cursor fun _ => cursor.Advances := by
  rcases depth with _ | depth
  · omega
  rw [Search.call]
  refine .atomic (.name (.refl closed) fun named => .symbol named.toReaches fun opened => ?_)
  have inside := opened.length_lt
  have items := nests.commaList depth (by omega) (by omega) opened.closed
  refine items.bind fun args _ listed => .read rfl ?_
  exact .symbol (opened.reaches listed).skipLineEnds.toReaches fun ended => .pure ended

theorem value (fuel : Nat) (enough : cursor.rest.length < fuel)
    (within : cursor.rest.length ≤ bound) (deep : 4 * cursor.rest.length + 2 ≤ depth)
    (closed : Closed cursor.tokens) :
    Runs (Search.value depth) (Parser.valueFrom nested fuel) cursor fun _ => cursor.Advances := by
  induction fuel generalizing cursor depth with
  | zero => omega
  | succ fuel ih =>
      rcases depth with _ | depth
      · omega
      rw [Search.value, Parser.valueFrom]
      refine .atomic (.read rfl ?_)
      cases found : cursor.peek.kind with
      | decimal | hex | binary | string | char | bool | undefined =>
          exact (Runs.literal closed).bind fun _ _ read => .pure read
      | ident =>
          refine .read rfl ?_
          split
          · exact (nests.call depth within (by omega) closed).bind fun _ _ called => .pure called
          · exact .name (.refl closed) fun passed => .pure passed
      | symbol sign =>
          cases sign with
          | leftParen =>
              have inside := nests.parenthesized depth within (by omega) closed
              exact inside.bind fun _ _ read => .pure read
          | minus | bang | bitNot =>
              have passed := Cursor.advances_advance closed (by simp [found])
              have shorter := passed.length_lt
              have operand := ih depth (by omega) (by omega) (by omega) passed.closed
              refine .read rfl (operand.bind fun _ _ read => ?_)
              exact .pure (passed.toReaches.advances read)
          | _ => exact .failAt _ _
      | _ => exact .failAt _ _

omit nests in
theorem operation {climbed : Int → Parser Expr}
    (nests : ∀ least, Nests bound least (climbed least)) (left : Expr) (operator : Operator)
    (within : cursor.rest.length < bound) (deep : 4 * cursor.rest.length + 4 ≤ depth)
    (closed : Closed cursor.tokens) :
    Runs (Search.operation depth left operator) (Parser.operationFrom climbed left operator) cursor
      fun _ => cursor.Advances := by
  rcases depth with _ | depth
  · omega
  cases operator with
  | pipe =>
      rw [Search.operation, Parser.operationFrom]
      have called := (nests Precedence.pipe).call depth within.le (by omega) closed
      exact (called.relabel (Parser.restores_atomic _)).bind fun _ _ read => .pure read
  | ternary =>
      rw [Search.operation, Parser.operationFrom]
      refine (nests _ depth cursor closed within (by omega)).bind fun yes _ first => .read rfl ?_
      refine .symbol first.skipLineEnds.toReaches fun colon => .read rfl ?_
      refine ((nests _).behind depth within.le (by omega) colon.skipLineEnds).bind fun no _ last => ?_
      exact .pure last
  | binary op =>
      rw [Search.operation, Parser.operationFrom]
      exact (nests _ depth cursor closed within (by omega)).bind fun _ _ right => .pure right

omit nests in
theorem climb {climbed : Int → Parser Expr} (nests : ∀ least, Nests bound least (climbed least))
    (least : Int) (fuel : Nat) (left : Expr) (enough : cursor.rest.length < fuel)
    (within : cursor.rest.length ≤ bound) (deep : 4 * cursor.rest.length + 1 ≤ depth)
    (closed : Closed cursor.tokens) :
    Runs (Search.climb depth least left) (Parser.climbFrom climbed least fuel left) cursor
      fun _ => cursor.Reaches := by
  induction fuel generalizing cursor left depth with
  | zero => omega
  | succ fuel ih =>
      rcases depth with _ | depth
      · omega
      rw [Search.climb, Parser.climbFrom]
      refine .read rfl ?_
      cases found : cursor.peek.kind.operator? with
      | none => exact .pure (.refl closed)
      | some operator =>
          simp only
          split
          · exact .pure (.refl closed)
          · have inner : cursor.peek.kind ≠ .finish := TokenKind.ne_finish_of_operator? found
            have passed := (Cursor.advances_advance closed inner).skipLineEnds
            have shorter := passed.length_lt
            have operand := operation depth nests left operator (by omega) (by omega)
              passed.closed
            refine .read rfl (.read rfl (operand.bind fun joined after read => ?_))
            have ahead := passed.toReaches.advances read
            have := ahead.length_lt
            have others := ih depth joined (by omega) (by omega) (by omega) ahead.closed
            exact others.weaken fun _ _ later => (ahead.reaches later).toReaches

end Nests

theorem binaryFrom_nests (fuel : Nat) (least : Int) :
    Nests fuel least (Parser.binaryFrom fuel least) := by
  induction fuel generalizing least with
  | zero => exact fun _ _ _ none => absurd none (Nat.not_lt_zero _)
  | succ fuel ih =>
      intro depth cursor closed enough deep
      rcases depth with _ | depth
      · omega
      rw [Search.binary, Parser.binaryFrom]
      have within : cursor.rest.length ≤ fuel := Nat.le_of_lt_succ enough
      have leaf := (ih Precedence.pipe).value depth (fuel + 1) enough within (by omega) closed
      refine .atomic (leaf.bind fun left after read => ?_)
      have shorter := read.length_lt
      have operators := Nests.climb depth ih least (fuel + 1) left (by omega) (by omega) (by omega)
        read.closed
      exact operators.weaken fun _ _ climbed => read.reaches climbed

namespace Runs

variable {depth : Nat} {start cursor : Cursor}

theorem binary (least : Int) (deep : 4 * cursor.rest.length + 3 ≤ depth)
    (closed : Closed cursor.tokens) :
    Runs (Search.binary depth least) (Parser.binary least) cursor fun _ => cursor.Advances :=
  (binaryFrom_nests _ least depth cursor closed (Nat.lt_succ_self _) deep).at_eq rfl

theorem expression_nests (bound : Nat) : Nests bound Precedence.pipe Parser.expression :=
  fun _ _ closed _ deep => binary Precedence.pipe deep closed

theorem value (deep : 4 * cursor.rest.length + 2 ≤ depth) (closed : Closed cursor.tokens) :
    Runs (Search.value depth) Parser.value cursor fun _ => cursor.Advances :=
  ((expression_nests _).value depth _ (Nat.lt_succ_self _) le_rfl deep closed).at_eq rfl

/-! Clauses. -/

theorem separator (here : start.Advances cursor) :
    Runs (liftM Parser.separator) Parser.separator cursor fun _ => start.Advances := by
  refine (lift _ cursor).weaken fun _ _ read => ?_
  obtain ⟨found, rfl⟩ := Parser.separator_ok_iff.mp read
  exact (here.skipLineEnds.toReaches.advance (by simp [found])).skipLineEnds

theorem optionalTerminator (here : start.Advances cursor) :
    Runs (liftM Parser.optionalTerminator) Parser.optionalTerminator cursor
      fun _ => start.Advances := by
  refine (lift _ cursor).weaken fun _ after read => ?_
  obtain ⟨_, _, isPeek, read⟩ := Parser.bind_ok_iff.mp read
  obtain ⟨rfl, rfl⟩ := Parser.peek_ok_iff.mp isPeek
  split at read
  · exact here.reaches (Cursor.reaches_terminator here.closed read)
  · obtain ⟨_, rfl⟩ := Parser.pure_ok_iff.mp read
    exact here

section Behind

-- The depth is enough at the start, and so at every cursor that has been reached from there.
variable (deep : 4 * start.rest.length + 3 ≤ depth)
include deep

theorem expression (here : start.Reaches cursor) :
    Runs (Search.expression depth) Parser.expression cursor fun _ => start.Advances := by
  have length_le := here.length_le
  exact .behind here (binary Precedence.pipe (by omega) here.closed)

theorem parenthesized (here : start.Reaches cursor) :
    Runs (Search.parenthesized depth) Parser.parenthesized cursor fun _ => start.Advances := by
  have length_le := here.length_le
  exact .behind here ((expression_nests _).parenthesized depth le_rfl (by omega) here.closed)

theorem assignment (here : start.Reaches cursor) :
    Runs (Search.assignment depth) Parser.assignment cursor fun _ => start.Advances := by
  refine .atomic (.name here fun named => .read rfl ?_)
  cases found : cursor.advance.peek.kind.assignOp? with
  | none => exact .failAt _ _
  | some op =>
      have passed := named.toReaches.advance (TokenKind.ne_finish_of_assignOp? found)
      simp only
      split
      · exact .pure passed
      · have value := expression deep passed.skipLineEnds.toReaches
        exact .read rfl (value.bind fun _ _ read => .pure read)

theorem initialValue (here : start.Advances cursor) :
    Runs (Search.initialValue depth) Parser.initialValue cursor fun _ => start.Advances := by
  refine .read rfl ?_
  split
  next assigns =>
    have passed := here.toReaches.advance (by simp [assigns])
    refine .read rfl (.read rfl ?_)
    exact (expression deep passed.skipLineEnds.toReaches).bind fun _ _ read => .pure read
  next => exact .pure here

theorem returned (here : start.Advances cursor) :
    Runs (Search.returned depth) Parser.returned cursor fun _ => start.Advances := by
  cases ends : Parser.terminator cursor with
  | ok value after =>
      refine .give none (here.reaches (Cursor.reaches_terminator here.closed ends)) ?_ ?_
      · rw [Search.returned, ends]
        rfl
      · rw [Parser.returned, ends]
  | error reason after =>
      have valued := (expression deep here.toReaches).ended some
      exact valued.of_eq (by rw [Search.returned, ends]) (by rw [Parser.returned, ends])

theorem simple (here : start.Reaches cursor) :
    Runs (Search.simple depth) Parser.simple cursor fun _ => start.Advances :=
  .orElse ((expression deep here).ended Stmt.expr) ((assignment deep here).ended Stmt.assign)

theorem declaration (here : start.Reaches cursor) :
    Runs (Search.declaration depth) Parser.declaration cursor fun _ => start.Advances := by
  have length_le := cursor.length_advance_le.trans here.length_le
  refine .atomic (.read rfl (.name (.refl here.closed.advance) fun named => ?_))
  refine (initialValue (by omega) named).bind fun _ _ read => ?_
  exact .pure (here.advances (Cursor.advances_of_advance read))

theorem forTest (here : start.Advances cursor) :
    Runs (Search.forTest depth) Parser.forTest cursor fun _ => start.Advances := by
  refine .read rfl ?_
  split
  · exact .pure here
  · exact (expression deep here.toReaches).bind fun _ _ read => .pure read

theorem clause (first : Bool) (here : start.Reaches cursor) :
    Runs (Search.clause depth first) (Parser.clause first) cursor fun _ => cursor.Reaches := by
  have own : 4 * cursor.rest.length + 3 ≤ depth := by
    have length_le := here.length_le
    omega
  have still := Reaches.refl here.closed
  refine .read rfl ?_
  split
  · exact .pure still
  · split
    · exact (declaration own still).bind fun _ _ read => .pure read.toReaches
    · exact .orElse ((assignment own still).bind fun _ _ read => .pure read.toReaches)
        ((expression own still).bind fun _ _ read => .pure read.toReaches)

theorem forUpdate (here : start.Advances cursor) :
    Runs (Search.forUpdate depth) Parser.forUpdate cursor fun _ => start.Advances := by
  refine .read rfl ?_
  split
  · exact .pure here
  · exact (clause deep false here.toReaches).weaken fun _ _ read => here.reaches read

theorem loopTail (here : start.Advances cursor) :
    Runs (Search.loopTail depth) Parser.loopTail cursor fun _ => start.Advances := by
  refine .read rfl (.read rfl ?_)
  have tail (kind : LoopKind) (inner : cursor.skipLineEnds.peek.kind ≠ .finish) :
      Runs (do
          let test ← Search.parenthesized depth
          liftM Parser.optionalTerminator
          return (kind, test))
        (do
          let test ← Parser.parenthesized
          Parser.optionalTerminator
          return (kind, test)) cursor.skipLineEnds.advance fun _ => start.Advances := by
    have passed := here.skipLineEnds.toReaches.advance inner
    refine (parenthesized deep passed.toReaches).bind fun test middle tested => ?_
    exact (optionalTerminator tested).bind fun _ _ ended => .pure ended
  have fails : Runs (liftM (Parser.failAt cursor.skipLineEnds.peek .expectedKeyword))
      (Parser.failAt cursor.skipLineEnds.peek .expectedKeyword : Parser LoopKind)
      cursor.skipLineEnds.advance fun _ _ => False := .failAt _ _
  cases found : cursor.skipLineEnds.peek.kind with
  | keyword word =>
      cases word with
      | while_ => exact tail .doWhile (by simp [found])
      | until_ => exact tail .doUntil (by simp [found])
      | _ => exact fails.bind fun _ _ never => never.elim
  | _ => exact fails.bind fun _ _ never => never.elim

theorem noted (here : start.Reaches cursor) :
    Runs (Search.noted depth) NotingParser.noted.reply cursor fun _ => start.Advances :=
  (simple deep here).relabelled
    (fun _ _ read => by simp [NotingParser.reply, NotingParser.noted, read])
    (fun _ _ read => by simp [NotingParser.reply, NotingParser.noted, read, Reply.outcome])

end Behind

end Runs

/-! Statements. -/

open NotingParser (reply_bind reply_lift reply_pure reply_atomic)

def Encloses (bound : Nat) (statement : NotingParser Stmt) : Prop :=
  ∀ (depth : Nat) (cursor : Cursor), Closed cursor.tokens → cursor.rest.length < bound →
    4 * cursor.rest.length + 4 ≤ depth →
      Runs (Search.statement depth) statement.reply cursor fun _ => cursor.Advances

namespace Encloses

variable {bound : Nat} (depth : Nat) {statement : NotingParser Stmt} {start cursor : Cursor}
  (encloses : Encloses bound statement)
include encloses

theorem behind (within : start.rest.length < bound) (deep : 4 * start.rest.length + 4 ≤ depth)
    (here : start.Reaches cursor) :
    Runs (Search.statement depth) statement.reply cursor fun _ => start.Advances := by
  have length_le := here.length_le
  exact .behind here (encloses depth cursor here.closed (by omega) (by omega))

theorem untilBrace (fuel : Nat) (enough : cursor.rest.length < fuel)
    (within : cursor.rest.length < bound) (deep : 4 * cursor.rest.length + 5 ≤ depth)
    (closed : Closed cursor.tokens) :
    Runs (Search.untilBrace depth) (NotingParser.untilBrace statement fuel).reply cursor
      fun _ => cursor.Advances := by
  induction fuel generalizing cursor depth with
  | zero => omega
  | succ fuel ih =>
      rcases depth with _ | depth
      · omega
      have here := (Reaches.refl closed).skipBlank
      have goesOn : Runs (do
            let first ← Search.statement depth
            let others ← Search.untilBrace depth
            return first :: others)
          (do
            let first ← statement.reply
            let others ← (NotingParser.untilBrace statement fuel).reply
            return first :: others) cursor.skipBlank fun _ => cursor.Advances := by
        refine (encloses.behind depth within (by omega) here).bind fun first after read => ?_
        have shorter := read.length_lt
        refine (ih depth (by omega) (by omega) (by omega) read.closed).bind fun others _ later => ?_
        exact .pure (read.reaches later.toReaches)
      rw [Search.untilBrace, NotingParser.untilBrace]
      simp only [reply_bind, reply_lift]
      refine .read rfl (.read rfl ?_)
      cases found : cursor.skipBlank.peek.kind with
      | finish => exact .failAt _ _
      | symbol sign =>
          cases sign with
          | rightBrace =>
              simp only [reply_bind, reply_lift, reply_pure]
              exact .read rfl (.pure (here.advance (by simp [found])))
          | _ => simpa only [reply_bind, reply_pure] using goesOn
      | _ => simpa only [reply_bind, reply_pure] using goesOn

theorem otherwise (within : start.rest.length < bound) (deep : 4 * start.rest.length + 5 ≤ depth)
    (here : start.Advances cursor) :
    Runs (Search.otherwise depth) (NotingParser.elseFrom statement).reply cursor
      fun _ => start.Advances := by
  rcases depth with _ | depth
  · omega
  by_cases found : cursor.skipLineEnds.peek.kind = .keyword .else_
  · have passed := here.skipLineEnds.toReaches.advance (by simp [found])
    have body := encloses.behind depth within (by omega) passed.toReaches
    refine body.of_eq ?_ ?_
    · simp only [Search.otherwise, found, if_true]
    · simp only [NotingParser.reply, NotingParser.elseFrom, found, if_true]
  · refine .give .hole here ?_ ?_
    · simp only [Search.otherwise, found, if_false]
      rfl
    · simp [NotingParser.reply, NotingParser.elseFrom, found]

/-! The first token of a compound statement is passed whatever it is, so that all of it is told from
the second one on. -/

variable (within : cursor.advance.rest.length < bound)
  (deep : 4 * cursor.advance.rest.length + 6 ≤ depth) (closed : Closed cursor.tokens)
include within deep closed

theorem block :
    Runs (Search.block depth) (NotingParser.blockFrom statement).reply cursor
      fun _ => cursor.Advances := by
  rcases depth with _ | depth
  · omega
  rw [Search.block, NotingParser.blockFrom]
  simp only [reply_atomic, reply_bind, reply_lift]
  refine .atomic (.symbol (.refl closed) fun opened => ?_)
  have inside := encloses.untilBrace depth _ (Nat.lt_succ_self _) within (by omega) opened.closed
  refine .bindNoting (inside.at_eq rfl) fun body after ended => ?_
  exact .pure (opened.reaches ended.toReaches)

theorem branch :
    Runs (Search.branch depth) (NotingParser.branchFrom statement).reply cursor
      fun _ => cursor.Advances := by
  rcases depth with _ | depth
  · omega
  have behind := Reaches.refl closed.advance
  rw [Search.branch, NotingParser.branchFrom]
  simp only [reply_atomic, reply_bind, reply_lift, reply_pure]
  refine .atomic (.read rfl ((Runs.parenthesized (by omega) behind).bind fun test _ tested => ?_))
  refine (encloses.behind depth within (by omega) tested.toReaches).bind fun yes _ first => ?_
  refine (encloses.otherwise depth within (by omega) first).bind fun no _ second => ?_
  exact .pure (Cursor.advances_of_advance second)

theorem doLoop :
    Runs (Search.doLoop depth) (NotingParser.doLoopFrom statement).reply cursor
      fun _ => cursor.Advances := by
  rcases depth with _ | depth
  · omega
  have behind := Reaches.refl closed.advance
  rw [Search.doLoop, NotingParser.doLoopFrom]
  simp only [reply_atomic, reply_bind, reply_lift, reply_pure]
  refine .atomic (.read rfl ((encloses.behind depth within (by omega) behind).bind fun _ _ read => ?_))
  refine (Runs.loopTail (by omega) read).bind fun tail _ ended => ?_
  exact .pure (Cursor.advances_of_advance ended)

theorem headed :
    Runs (Search.headed depth) (NotingParser.headedFrom statement).reply cursor
      fun _ => cursor.Advances := by
  rcases depth with _ | depth
  · omega
  have behind := Reaches.refl closed.advance
  rw [Search.headed, NotingParser.headedFrom]
  simp only [reply_atomic, reply_bind, reply_lift, reply_pure]
  refine .atomic (.read rfl ((Runs.parenthesized (by omega) behind).bind fun head _ tested => ?_))
  refine (encloses.behind depth within (by omega) tested.toReaches).bind fun body _ read => ?_
  exact .pure (Cursor.advances_of_advance read)

theorem forLoop :
    Runs (Search.forLoop depth) (NotingParser.forLoopFrom statement).reply cursor
      fun _ => cursor.Advances := by
  rcases depth with _ | depth
  · omega
  have behind := Reaches.refl closed.advance
  have clauses : 4 * cursor.advance.rest.length + 3 ≤ depth := by omega
  rw [Search.forLoop, NotingParser.forLoopFrom]
  simp only [reply_atomic, reply_bind, reply_lift, reply_pure]
  refine .atomic (.read rfl (.symbol behind fun opened => .read rfl ?_))
  have inside := opened.skipLineEnds
  refine (Runs.clause clauses true inside.toReaches).bind fun init _ begun => ?_
  refine (Runs.separator (inside.reaches begun)).bind fun _ _ first => ?_
  refine (Runs.forTest clauses first).bind fun test _ tested => ?_
  refine (Runs.separator tested).bind fun _ _ second => ?_
  refine (Runs.forUpdate clauses second).bind fun update _ updated => .read rfl ?_
  refine .symbol updated.skipLineEnds.toReaches fun ended => ?_
  refine (encloses.behind depth within (by omega) ended.toReaches).bind fun body _ read => ?_
  exact .pure (Cursor.advances_of_advance read)

end Encloses

theorem statementFrom_encloses (fuel : Nat) : Encloses fuel (NotingParser.statementFrom fuel) := by
  induction fuel with
  | zero => exact fun _ _ _ none => absurd none (Nat.not_lt_zero _)
  | succ fuel ih =>
      intro depth cursor closed enough deep
      rcases depth with _ | depth
      · omega
      have here := (Reaches.refl closed).skipBlank
      have clauses : 4 * cursor.rest.length + 3 ≤ depth := by omega
      have noted := Runs.noted clauses here
      rw [Search.statement, NotingParser.statementFrom, NotingParser.begunFrom]
      simp only [reply_atomic, reply_bind, reply_lift]
      refine .atomic (.read rfl (.read rfl ?_))
      -- At the closing token nothing is passed, so that a production which starts by passing its
      -- keyword would not get shorter.
      by_cases finish : cursor.skipBlank.peek.kind = .finish
      · rw [finish]
        exact noted
      · have passed := here.advance finish
        have shorter := passed.length_lt
        have within : cursor.skipBlank.advance.rest.length < fuel := by omega
        have inside : 4 * cursor.skipBlank.advance.rest.length + 6 ≤ depth := by omega
        cases found : cursor.skipBlank.peek.kind with
        | symbol sign =>
            cases sign with
            | semicolon =>
                simp only [reply_bind, reply_lift, reply_pure]
                refine (Runs.lift _ _).bind fun _ _ read => ?_
                rcases Cursor.terminator_cases here.closed read with ended | ⟨closing, _⟩
                · exact .pure (here.advances ended)
                · exact absurd closing finish
            | leftBrace => exact .behind here (ih.block depth within inside here.closed)
            | _ => exact noted
        | keyword word =>
            cases word with
            | if_ => exact .behind here (ih.branch depth within inside here.closed)
            | do_ => exact .behind here (ih.doLoop depth within inside here.closed)
            | for_ => exact .behind here (ih.forLoop depth within inside here.closed)
            | repeat_ | while_ | until_ | with_ =>
                exact .behind here (ih.headed depth within inside here.closed)
            | var_ | globalvar_ =>
                have declared := Runs.declaration clauses here
                simpa only [reply_bind, reply_lift, reply_pure] using declared.ended Stmt.declare
            | break_ | continue_ | exit_ =>
                simp only [reply_bind, reply_lift, reply_pure]
                exact .read rfl (.terminator passed fun _ ended => .pure ended)
            | return_ =>
                simp only [reply_bind, reply_lift, reply_pure]
                exact .read rfl ((Runs.returned clauses passed).bind fun _ _ read => .pure read)
            | _ => exact noted
        | _ => exact noted

namespace Runs

variable {depth : Nat} {cursor : Cursor}

theorem statement (deep : 4 * cursor.rest.length + 4 ≤ depth) (closed : Closed cursor.tokens) :
    Runs (Search.statement depth) NotingParser.statement.reply cursor fun _ => cursor.Advances := by
  refine (statementFrom_encloses _ depth cursor closed (Nat.lt_succ_self _) deep).at_eq ?_
  rw [NotingParser.reply, NotingParser.reply, NotingParser.statement]

theorem statement_encloses (bound : Nat) : Encloses bound NotingParser.statement :=
  fun _ _ closed _ deep => statement deep closed

end Runs

/-! Scripts. -/

def Parser.docsUpTo (most : Nat) : Parser (List String) := fun cursor =>
  .ok (Parser.docLinesAt most cursor).1 (Parser.docLinesAt most cursor).2

theorem Parser.docsUpTo_succ (most : Nat) :
    Parser.docsUpTo (most + 1) = do
      let token ← Parser.peek
      if token.kind = .docComment then
        Parser.skip
        Parser.skipLineEnds
        let lines ← Parser.docsUpTo most
        return token.lit :: lines
      else return [] := by
  funext cursor
  change _ = (if cursor.peek.kind = .docComment then _ else _ : Parser (List String)) cursor
  by_cases doc : cursor.peek.kind = .docComment <;> simp [docsUpTo, docLinesAt, doc]
  · rfl
  · rfl

namespace Runs

variable {depth : Nat} {start cursor : Cursor}

def PassedDocs (cursor after : Cursor) : Prop :=
  cursor.Reaches after ∧ (cursor.peek.kind = .docComment → cursor.Advances after)

theorem docsUpTo (most : Nat) (enough : cursor.rest.length ≤ most)
    (deep : 4 * cursor.rest.length + 1 ≤ depth) (closed : Closed cursor.tokens) :
    Runs (Search.docLines depth) (Parser.docsUpTo most) cursor fun _ => PassedDocs cursor := by
  induction most generalizing cursor depth with
  | zero =>
      rcases depth with _ | depth
      · omega
      have noDoc : cursor.peek.kind ≠ .docComment := by
        simp [Cursor.kind_peek_of_passed closed enough]
      refine .give [] ⟨.refl closed, fun doc => absurd doc noDoc⟩ ?_ rfl
      rw [Search.docLines, Search.bind_of_ok rfl, if_neg noDoc]
      rfl
  | succ most ih =>
      rcases depth with _ | depth
      · omega
      rw [Search.docLines, Parser.docsUpTo_succ]
      refine .read rfl ?_
      split
      next doc =>
        have passed := (Cursor.advances_advance closed (by simp [doc])).skipLineEnds
        have shorter := passed.length_lt
        refine .read rfl (.read rfl ?_)
        refine (ih (by omega) (by omega) passed.closed).bind fun lines _ read => ?_
        have ahead := passed.reaches read.1
        exact .pure ⟨ahead.toReaches, fun _ => ahead⟩
      next noDoc => exact .pure ⟨.refl closed, fun doc => absurd doc noDoc⟩

theorem docLines (deep : 4 * cursor.rest.length + 1 ≤ depth) (closed : Closed cursor.tokens) :
    Runs (Search.docLines depth) Parser.docLines cursor fun _ => PassedDocs cursor :=
  (docsUpTo cursor.rest.length le_rfl deep closed).at_eq rfl

theorem passing (deep : 4 * start.rest.length + 3 ≤ depth) (here : start.Advances cursor) :
    Runs (Search.passing depth) Parser.passing cursor fun _ => start.Advances := by
  refine .read rfl ?_
  cases found : cursor.peek.kind with
  | symbol sign =>
      have passed := here.toReaches.advance (by simp [found])
      cases sign with
      | question => exact .read rfl (.pure passed)
      | assign => exact .read rfl ((expression deep passed.toReaches).bind fun _ _ read => .pure read)
      | _ => exact .pure here
  | _ => exact .pure here

theorem argument (deep : 4 * cursor.rest.length + 3 ≤ depth) (closed : Closed cursor.tokens) :
    Runs (Search.argument depth) Parser.argument cursor fun _ => cursor.Advances := by
  refine .atomic ((lift _ cursor).bind fun _ _ read => .read rfl ?_)
  obtain ⟨found, _, rfl⟩ := Parser.expect_ok_iff.mp read
  have word := Cursor.advances_advance closed (by simp [found])
  split
  next dots =>
    have passed := word.toReaches.advance (by simp [dots])
    refine .read rfl (.name passed.toReaches fun named => ?_)
    exact .terminator named fun _ ended => .pure ended
  next =>
    refine .name word.toReaches fun named => (passing deep named).bind fun how _ read => ?_
    exact .terminator read fun _ ended => .pure ended

theorem argumentsFrom (fuel : Nat) (enough : cursor.rest.length < fuel)
    (deep : 4 * cursor.rest.length + 4 ≤ depth) (closed : Closed cursor.tokens) :
    Runs (Search.argumentList depth) (Parser.argumentsFrom fuel) cursor fun _ => cursor.Reaches := by
  induction fuel generalizing cursor depth with
  | zero => omega
  | succ fuel ih =>
      rcases depth with _ | depth
      · omega
      rw [Search.argumentList, Parser.argumentsFrom]
      refine .read rfl ?_
      split
      · refine (argument (by omega) closed).bind fun first _ read => .read rfl ?_
        have passed := read.skipLineEnds
        have shorter := passed.length_lt
        cases first.passing with
        | variadic => exact .pure passed.toReaches
        | _ =>
            refine (ih (by omega) (by omega) passed.closed).bind fun _ _ later => ?_
            exact .pure (passed.reaches later).toReaches
      · exact .pure (.refl closed)

theorem argumentList (deep : 4 * cursor.rest.length + 4 ≤ depth) (closed : Closed cursor.tokens) :
    Runs (Search.argumentList depth) Parser.argumentList cursor fun _ => cursor.Reaches :=
  .atomic ((argumentsFrom _ (Nat.lt_succ_self _) deep closed).at_eq rfl)

theorem untilEnd (fuel : Nat) (enough : cursor.rest.length < fuel)
    (deep : 4 * cursor.rest.length + 5 ≤ depth) (closed : Closed cursor.tokens) :
    Runs (Search.statements depth) (NotingParser.untilEnd fuel).reply cursor
      fun _ => cursor.Reaches := by
  induction fuel generalizing cursor depth with
  | zero => omega
  | succ fuel ih =>
      rcases depth with _ | depth
      · omega
      have here := (Reaches.refl closed).skipLineEnds
      have length_le := here.length_le
      rw [Search.statements, NotingParser.untilEnd]
      simp only [reply_bind, reply_lift]
      refine .read rfl (.read rfl ?_)
      cases found : cursor.skipLineEnds.peek.kind with
      | finish => exact .pure here
      | docComment =>
          simp only [reply_bind, reply_lift, reply_pure]
          refine (docLines (by omega) here.closed).bind fun lines _ read => ?_
          have passed := here.advances (read.2 found)
          have shorter := passed.length_lt
          refine (ih (by omega) (by omega) passed.closed).bind fun _ _ later => ?_
          exact .pure (passed.reaches later).toReaches
      | _ =>
          simp only [reply_bind, reply_pure]
          have first := Runs.behind here (statement (by omega : _ ≤ depth) here.closed)
          refine first.bind fun first _ passed => ?_
          have shorter := passed.length_lt
          refine (ih (by omega) (by omega) passed.closed).bind fun _ _ later => ?_
          exact .pure (passed.reaches later).toReaches

theorem statements (deep : 4 * cursor.rest.length + 5 ≤ depth) (closed : Closed cursor.tokens) :
    Runs (Search.statements depth) NotingParser.statements.reply cursor fun _ => cursor.Reaches :=
  .atomicNoting ((untilEnd _ (Nat.lt_succ_self _) deep closed).at_eq rfl)

theorem skipStart (closed : Closed cursor.tokens) :
    Runs (liftM NotingParser.skipStart) NotingParser.skipStart cursor fun _ => cursor.Reaches := by
  refine (lift _ cursor).weaken fun _ after read => ?_
  rw [NotingParser.skipStart_ok_iff] at read
  split at read
  next found =>
    subst read
    exact (Cursor.advances_advance closed (by simp [found])).toReaches
  next =>
    subst read
    exact .refl closed

theorem script (deep : 4 * cursor.rest.length + 5 ≤ depth) (closed : Closed cursor.tokens) :
    Runs (Search.script depth) NotingParser.script.reply cursor fun _ => cursor.Reaches := by
  rw [Search.script, NotingParser.script]
  simp only [reply_atomic, reply_bind, reply_lift, reply_pure]
  refine .atomic ((skipStart closed).bind fun _ _ begun => .read rfl ?_)
  have first := begun.skipLineEnds
  have := first.length_le
  refine (docLines (by omega) first.closed).bind fun doc _ read => ?_
  have second := first.trans read.1
  have := second.length_le
  refine (argumentList (by omega) second.closed).bind fun args _ listed => ?_
  have third := second.trans listed
  have := third.length_le
  exact (statements (by omega) third.closed).bind fun _ _ ended => .pure (third.trans ended)

end Runs

namespace Production

def consumes : Production → Bool
  | script | argumentList | statements | clause _ | terminator => false
  | _ => true

theorem runs (production : Production) {depth : Nat} {cursor : Cursor}
    (deep : 4 * cursor.rest.length + 6 ≤ depth) (closed : Closed cursor.tokens) :
    Runs (production.search depth) production.run cursor fun _ after =>
      production.consumes = true → cursor.Advances after := by
  have clauses : 4 * cursor.rest.length + 3 ≤ depth := by omega
  have still := Reaches.refl closed
  have encloses := Runs.statement_encloses (cursor.advance.rest.length + 1)
  have within := Nat.lt_succ_self cursor.advance.rest.length
  have inside : 4 * cursor.advance.rest.length + 6 ≤ depth := by
    have length_le := cursor.length_advance_le
    omega
  cases production with
  | script => exact (Runs.script (by omega) closed).weaken fun _ _ _ idle => by cases idle
  | argumentList => exact (Runs.argumentList (by omega) closed).weaken fun _ _ _ idle => by cases idle
  | statements => exact (Runs.statements (by omega) closed).weaken fun _ _ _ idle => by cases idle
  | clause first => exact (Runs.clause clauses first still).weaken fun _ _ _ idle => by cases idle
  | terminator => exact (Runs.lift _ cursor).weaken fun _ _ _ idle => by cases idle
  | identifier | target =>
      refine (Runs.lift _ cursor).weaken fun _ _ read _ => ?_
      obtain ⟨found, _, rfl⟩ := Parser.identifier_ok_iff.mp read
      exact Cursor.advances_advance closed (by simp [found])
  | literal => exact (Runs.literal closed).weaken fun _ _ read _ => read
  | value => exact (Runs.value (by omega) closed).weaken fun _ _ read _ => read
  | call =>
      have called := (Runs.expression_nests _).call depth le_rfl (by omega) closed
      exact called.weaken fun _ _ read _ => read
  | parenthesized => exact (Runs.parenthesized clauses still).weaken fun _ _ read _ => read
  | binary least => exact (Runs.binary least clauses closed).weaken fun _ _ read _ => read
  | assignment => exact (Runs.assignment clauses still).weaken fun _ _ read _ => read
  | declaration => exact (Runs.declaration clauses still).weaken fun _ _ read _ => read
  | argument => exact (Runs.argument clauses closed).weaken fun _ _ read _ => read
  | statement => exact (Runs.statement (by omega) closed).weaken fun _ _ read _ => read
  | block => exact (encloses.block depth within inside closed).weaken fun _ _ read _ => read
  | branch => exact (encloses.branch depth within inside closed).weaken fun _ _ read _ => read
  | doLoop => exact (encloses.doLoop depth within inside closed).weaken fun _ _ read _ => read
  | headed => exact (encloses.headed depth within inside closed).weaken fun _ _ read _ => read
  | forLoop => exact (encloses.forLoop depth within inside closed).weaken fun _ _ read _ => read

end Production

theorem Cursor.Advances.index_lt {start after : Cursor} (advances : start.Advances after) :
    start.index < after.index ∧ after.index < start.tokens.length := by
  have total (cursor : Cursor) : cursor.tokens.length = cursor.index + cursor.rest.length := by
    simp [Cursor.tokens, Cursor.index]
  have same := congrArg List.length advances.tokens_eq
  have shorter := advances.length_lt
  have ahead := List.length_pos_of_ne_nil advances.rest_ne_nil
  rw [total, total] at same
  rw [total start]
  omega

/-- Over any closed list of tokens and from any position, the plain recursion of each production ends
at a depth of about four times the tokens ahead, and comes to what the production comes to; so do a
list of items and a run of doc comments. Where a production that reads anything succeeds, the cursor
has passed at least one token and not the closing one. -/
theorem productions_end_and_advance (cursor : Cursor) (closed : Closed cursor.tokens) :
    (∀ (production : Production) (depth : Nat), 4 * cursor.rest.length + 6 ≤ depth →
      production.search depth cursor = some (production.run cursor).outcome) ∧
    (∀ depth : Nat, 4 * cursor.rest.length + 6 ≤ depth →
      Search.commaList depth cursor = some (Parser.commaList cursor).outcome ∧
        Search.docLines depth cursor = some (Parser.docLines cursor).outcome) ∧
    ∀ production : Production, production.consumes = true → ∀ value after,
      production.run cursor = .ok value after →
        cursor.index < after.index ∧ after.index < cursor.tokens.length := by
  refine ⟨fun production depth deep => (production.runs deep closed).ends, fun depth deep => ⟨?_, ?_⟩,
    fun production consumes value after read => ?_⟩
  · have items := (Runs.expression_nests _).commaList depth (Nat.lt_succ_self _) (by omega) closed
    exact items.ends
  · exact (Runs.docLines (by omega) closed).ends
  · exact ((production.runs le_rfl closed).leaves value after read consumes).index_lt

/-- A closing token before `(a);` is taken for the keyword of a branch. -/
theorem productions_end_and_advance_stray :
    let sign (symbol : Symbol) : Token := ⟨.symbol symbol, "", Position.first⟩
    let cursor := Cursor.ofTokens
      [Token.closing, sign .leftParen, ⟨.ident, "a", Position.first⟩, sign .rightParen,
        sign .semicolon, Token.closing]
    Closed cursor.tokens ∧ Production.branch.consumes = true ∧ ∃ value after,
      Production.branch.run cursor = .ok value after ∧
        Production.branch.search 30 cursor = some (.ok (value, after)) ∧
        cursor.index < after.index ∧ after.index < cursor.tokens.length := by
  intro sign cursor
  have closed : Closed cursor.tokens := ⟨cursor.tokens.dropLast, Token.closing, rfl, rfl⟩
  have succeeds : (Production.branch.run cursor).failed = false := by decide +kernel
  obtain ⟨ends, _, advances⟩ := productions_end_and_advance cursor closed
  have ended := ends .branch 30 (by decide)
  cases read : Production.branch.run cursor with
  | ok value after =>
      rw [read] at ended
      exact ⟨closed, rfl, value, after, rfl, ended, advances .branch rfl value after read⟩
  | error reason after =>
      rw [read] at succeeds
      cases succeeds

end GameScript
