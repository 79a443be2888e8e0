import GameScript.Proofs.Running

/-!
The grammar of expressions, as a relation between the tokens before and after a phrase, without
fuel. The parsers read exactly the phrases of the grammar.
-/

namespace GameScript

namespace Parser

theorem literal_ok_iff {value : Literal} {cursor after : Cursor} :
    literal cursor = .ok value after ↔
      cursor.peek.literal = .ok value ∧ cursor.advance = after := by
  simp only [literal, atomic_ok_iff, bind_ok_iff, next_ok_iff]
  constructor
  · rintro ⟨_, _, ⟨rfl, rfl⟩, ran⟩
    cases read : cursor.peek.literal <;> simp_all
  · rintro ⟨read, rfl⟩
    exact ⟨_, _, ⟨rfl, rfl⟩, by simp [read]⟩

theorem parenthesizedFrom_ok_iff {nested : Parser Expr} {inner : Expr} {cursor after : Cursor} :
    parenthesizedFrom nested cursor = .ok inner after ↔
      cursor.peek.kind = .symbol .leftParen ∧ ∃ middle,
        nested cursor.advance.skipLineEnds = .ok inner middle ∧
        middle.skipLineEnds.peek.kind = .symbol .rightParen ∧
        middle.skipLineEnds.advance = after := by
  simp [parenthesizedFrom]

theorem callFrom_ok_iff {nested : Parser Expr} {callee : String} {args : List Expr}
    {cursor after : Cursor} :
    callFrom nested cursor = .ok (callee, args) after ↔
      cursor.peek.kind = .ident ∧ cursor.peek.lit = callee ∧
      cursor.advance.peek.kind = .symbol .leftParen ∧ ∃ middle,
        items nested cursor.advance.advance = (args, middle) ∧
        middle.skipLineEnds.peek.kind = .symbol .rightParen ∧
        middle.skipLineEnds.advance = after := by
  simp [callFrom, commaListFrom, Prod.ext_iff]
  tauto

theorem valueFrom_ok_iff {nested : Parser Expr} {fuel : Nat} {value : Expr}
    {cursor after : Cursor} :
    valueFrom nested (fuel + 1) cursor = .ok value after ↔
      (∃ constant, cursor.peek.literal = .ok constant ∧ cursor.advance = after ∧
        .literal constant = value) ∨
      (cursor.peek.kind = .ident ∧ cursor.second.kind ≠ .symbol .leftParen ∧
        cursor.advance = after ∧ .ident cursor.peek.lit = value) ∨
      (∃ callee args, callFrom nested cursor = .ok (callee, args) after ∧
        .call callee args = value) ∨
      (∃ inner, parenthesizedFrom nested cursor = .ok inner after ∧ .paren inner = value) ∨
      (∃ sign op operand, cursor.peek.kind = .symbol sign ∧ sign.unaryOp? = some op ∧
        valueFrom nested fuel cursor.advance = .ok operand after ∧
        .unary op operand = value) := by
  simp only [valueFrom, atomic_ok_iff, bind_ok_iff, peek_ok_iff]
  constructor
  · rintro ⟨_, _, ⟨rfl, rfl⟩, ran⟩
    cases kind : cursor.peek.kind with
    | decimal | hex | binary | string | char | bool | undefined =>
        simp only [kind, bind_ok_iff, literal_ok_iff, pure_ok_iff] at ran
        obtain ⟨constant, _, ⟨read, rfl⟩, rfl, rfl⟩ := ran
        exact Or.inl ⟨constant, read, rfl, rfl⟩
    | ident =>
        simp only [kind, bind_ok_iff, second_ok_iff] at ran
        obtain ⟨_, _, ⟨rfl, rfl⟩, ran⟩ := ran
        split at ran
        next opened =>
          simp only [bind_ok_iff, pure_ok_iff] at ran
          obtain ⟨⟨callee, args⟩, _, called, rfl, rfl⟩ := ran
          exact Or.inr (Or.inr (Or.inl ⟨callee, args, called, rfl⟩))
        next closed =>
          simp only [bind_ok_iff, identifier_ok_iff, pure_ok_iff] at ran
          obtain ⟨_, _, ⟨_, rfl, rfl⟩, rfl, rfl⟩ := ran
          exact Or.inr (Or.inl ⟨rfl, closed, rfl, rfl⟩)
    | symbol sign =>
        by_cases opened : sign = .leftParen
        · simp only [kind, opened, bind_ok_iff, pure_ok_iff] at ran
          obtain ⟨inner, _, read, rfl, rfl⟩ := ran
          exact Or.inr (Or.inr (Or.inr (Or.inl ⟨inner, read, rfl⟩)))
        · cases unary : sign.unaryOp? with
          | some op =>
              simp only [kind, unary, bind_ok_iff, skip_ok_iff, pure_ok_iff] at ran
              obtain ⟨_, _, rfl, operand, _, read, rfl, rfl⟩ := ran
              exact Or.inr (Or.inr (Or.inr (Or.inr ⟨sign, op, operand, rfl, unary, read, rfl⟩)))
          | none => simp [kind, unary] at ran
    | _ => simp [kind] at ran
  · intro form
    refine ⟨_, _, ⟨rfl, rfl⟩, ?_⟩
    rcases form with ⟨constant, read, rfl, rfl⟩ | ⟨found, closed, rfl, rfl⟩ |
      ⟨callee, args, called, rfl⟩ | ⟨inner, read, rfl⟩ | ⟨sign, op, operand, found, unary, read, rfl⟩
    · cases kind : cursor.peek.kind with
      | decimal | hex | binary | string | char | bool | undefined =>
          simp [literal_ok_iff, read]
      | _ => simp [Token.literal, kind] at read
    · simp [found, closed]
    · have head := callFrom_ok_iff.mp called
      simp [head.1, Cursor.second, head.2.2.1, called]
    · have head := parenthesizedFrom_ok_iff.mp read
      simp [head.1, read]
    · have notParen : sign ≠ .leftParen := by
        rintro rfl
        simp [Symbol.unaryOp?] at unary
      simp [found, unary, read]

theorem operationFrom_pipe_ok_iff {nested : Int → Parser Expr} {left joined : Expr}
    {cursor after : Cursor} :
    operationFrom nested left .pipe cursor = .ok joined after ↔
      ∃ callee args, callFrom (nested Precedence.pipe) cursor = .ok (callee, args) after ∧
        .pipe left callee args = joined := by
  simp [operationFrom]

theorem operationFrom_ternary_ok_iff {nested : Int → Parser Expr} {left joined : Expr}
    {cursor after : Cursor} :
    operationFrom nested left .ternary cursor = .ok joined after ↔
      ∃ yes middle no, nested Precedence.pipe cursor = .ok yes middle ∧
        middle.skipLineEnds.peek.kind = .symbol .colon ∧
        nested Precedence.pipe middle.skipLineEnds.advance.skipLineEnds = .ok no after ∧
        .ternary left yes no = joined := by
  simp [operationFrom]

theorem operationFrom_binary_ok_iff {nested : Int → Parser Expr} {op : BinaryOp}
    {left joined : Expr} {cursor after : Cursor} :
    operationFrom nested left (.binary op) cursor = .ok joined after ↔
      ∃ right, nested (Precedence.ofBinary op + 1) cursor = .ok right after ∧
        .binary op left right = joined := by
  simp [operationFrom]

theorem climbFrom_ok_iff {nested : Int → Parser Expr} {least : Int} {fuel : Nat}
    {left whole : Expr} {cursor after : Cursor} :
    climbFrom nested least (fuel + 1) left cursor = .ok whole after ↔
      ((∀ operator, cursor.peek.kind.operator? = some operator → operator.precedence < least) ∧
        left = whole ∧ cursor = after) ∨
      ∃ operator joined middle, cursor.peek.kind.operator? = some operator ∧
        least ≤ operator.precedence ∧
        operationFrom nested left operator cursor.advance.skipLineEnds = .ok joined middle ∧
        climbFrom nested least fuel joined middle = .ok whole after := by
  simp only [climbFrom, bind_ok_iff, peek_ok_iff]
  cases found : cursor.peek.kind.operator? with
  | none => simp [found]
  | some operator =>
      by_cases weaker : (operator.precedence : Int) < least
      · simp [found, weaker, Int.not_le.mpr weaker]
      · simp [found, weaker, Int.not_lt.mp weaker]

theorem binaryFrom_ok_iff {fuel : Nat} {least : Int} {whole : Expr} {cursor after : Cursor} :
    binaryFrom (fuel + 1) least cursor = .ok whole after ↔
      ∃ first middle,
        valueFrom (binaryFrom fuel Precedence.pipe) (fuel + 1) cursor = .ok first middle ∧
        climbFrom (binaryFrom fuel) least (fuel + 1) first middle = .ok whole after := by
  simp [binaryFrom]

end Parser

/-- What a part of the expression parser looks for. `climb` goes on after `left` with operators that bind
at least as strongly as `least`, `operation` is what follows one of them, and `more` are the arguments
behind the first one. -/
inductive Phrase where
  | value (value : Expr)
  | binary (least : Int) (whole : Expr)
  | climb (least : Int) (left whole : Expr)
  | operation (left : Expr) (operator : Operator) (joined : Expr)
  | call (callee : String) (args : List Expr)
  | items (args : List Expr)
  | more (args : List Expr)

/-- The grammar: the tokens before a phrase and those after it. -/
inductive Reads : Phrase → List Token → List Token → Prop where
  | literal {token : Token} {constant : Literal} {rest : List Token}
      (denotes : token.literal = .ok constant) :
      Reads (.value (.literal constant)) (token :: rest) rest
  | ident {token : Token} {rest : List Token} (named : token.kind = .ident)
      (notCalled : headKind rest ≠ .symbol .leftParen) :
      Reads (.value (.ident token.lit)) (token :: rest) rest
  | called {callee : String} {args : List Expr} {tokens rest : List Token}
      (call : Reads (.call callee args) tokens rest) :
      Reads (.value (.call callee args)) tokens rest
  | paren {first last : Token} {inner : Expr} {tokens middle rest : List Token}
      (opens : first.kind = .symbol .leftParen)
      (reads : Reads (.binary Precedence.pipe inner) (skipEnds tokens) middle)
      (ends : skipEnds middle = last :: rest) (closes : last.kind = .symbol .rightParen) :
      Reads (.value (.paren inner)) (first :: tokens) rest
  | unary {token : Token} {sign : Symbol} {op : UnaryOp} {operand : Expr}
      {tokens rest : List Token} (found : token.kind = .symbol sign)
      (prefixes : sign.unaryOp? = some op) (reads : Reads (.value operand) tokens rest) :
      Reads (.value (.unary op operand)) (token :: tokens) rest
  | binary {least : Int} {first whole : Expr} {tokens middle rest : List Token}
      (starts : Reads (.value first) tokens middle)
      (climbs : Reads (.climb least first whole) middle rest) :
      Reads (.binary least whole) tokens rest
  | stop {least : Int} {left : Expr} {tokens : List Token}
      (weaker : ∀ operator, (headKind tokens).operator? = some operator →
        operator.precedence < least) :
      Reads (.climb least left left) tokens tokens
  | step {least : Int} {token : Token} {operator : Operator} {left joined whole : Expr}
      {tokens middle rest : List Token} (found : token.kind.operator? = some operator)
      (strong : least ≤ operator.precedence)
      (operation : Reads (.operation left operator joined) (skipEnds tokens) middle)
      (climbs : Reads (.climb least joined whole) middle rest) :
      Reads (.climb least left whole) (token :: tokens) rest
  | pipe {left : Expr} {callee : String} {args : List Expr} {tokens rest : List Token}
      (call : Reads (.call callee args) tokens rest) :
      Reads (.operation left .pipe (.pipe left callee args)) tokens rest
  | ternary {left yes no : Expr} {colon : Token} {tokens middle later rest : List Token}
      (first : Reads (.binary Precedence.pipe yes) tokens middle)
      (divides : skipEnds middle = colon :: later) (isColon : colon.kind = .symbol .colon)
      (second : Reads (.binary Precedence.pipe no) (skipEnds later) rest) :
      Reads (.operation left .ternary (.ternary left yes no)) tokens rest
  | infixed {op : BinaryOp} {left right : Expr} {tokens rest : List Token}
      (reads : Reads (.binary (Precedence.ofBinary op + 1) right) tokens rest) :
      Reads (.operation left (.binary op) (.binary op left right)) tokens rest
  | call {callee first last : Token} {args : List Expr} {tokens middle rest : List Token}
      (named : callee.kind = .ident) (opens : first.kind = .symbol .leftParen)
      (list : Reads (.items args) tokens middle) (ends : skipEnds middle = last :: rest)
      (closes : last.kind = .symbol .rightParen) :
      Reads (.call callee.lit args) (callee :: first :: tokens) rest
  | noItems {tokens : List Token} (closes : headKind (skipEnds tokens) = .symbol .rightParen) :
      Reads (.items []) tokens (skipEnds tokens)
  | items {first : Expr} {others : List Expr} {tokens middle rest : List Token}
      (notClosed : headKind (skipEnds tokens) ≠ .symbol .rightParen)
      (reads : Reads (.binary Precedence.pipe first) (skipEnds tokens) middle)
      (goesOn : Reads (.more others) middle rest) :
      Reads (.items (first :: others)) tokens rest
  | noMore {tokens : List Token} (noComma : headKind tokens ≠ .symbol .comma) :
      Reads (.more []) tokens tokens
  | more {comma : Token} {first : Expr} {others : List Expr} {tokens middle rest : List Token}
      (isComma : comma.kind = .symbol .comma)
      (reads : Reads (.binary Precedence.pipe first) (skipEnds tokens) middle)
      (goesOn : Reads (.more others) middle rest) :
      Reads (.more (first :: others)) (comma :: tokens) rest

theorem Token.kind_ne_finish_of_literal {token : Token} {constant : Literal}
    (denotes : token.literal = .ok constant) : token.kind ≠ .finish := by
  intro finish
  simp [Token.literal, finish] at denotes

theorem TokenKind.ne_finish_of_operator? {kind : TokenKind} {operator : Operator}
    (found : kind.operator? = some operator) : kind ≠ .finish := by
  rintro rfl
  simp [operator?] at found

theorem Reads.passes {phrase : Phrase} {tokens rest : List Token}
    (reads : Reads phrase tokens rest) : Passes tokens rest := by
  induction reads with
  | literal denotes => exact (Passes.refl _).cons (Token.kind_ne_finish_of_literal denotes)
  | ident named => exact (Passes.refl _).cons (by simp [named])
  | called _ ih => exact ih
  | paren opens _ ends closes ih =>
      have last := Passes.ofSkipEnds ends (by simp [closes])
      exact (((Passes.skipEnds _).trans ih).trans last).cons (by simp [opens])
  | unary found _ _ ih => exact ih.cons (by simp [found])
  | binary _ _ ih climbs => exact ih.trans climbs
  | stop => exact Passes.refl _
  | step found _ _ _ ih climbs =>
      exact (((Passes.skipEnds _).trans ih).trans climbs).cons
        (TokenKind.ne_finish_of_operator? found)
  | pipe _ ih => exact ih
  | ternary _ divides isColon _ ih second =>
      have middle := Passes.ofSkipEnds divides (by simp [isColon])
      exact ih.trans (middle.trans ((Passes.skipEnds _).trans second))
  | infixed _ ih => exact ih
  | call named opens _ ends closes ih =>
      have last := Passes.ofSkipEnds ends (by simp [closes])
      exact ((ih.trans last).cons (by simp [opens])).cons (by simp [named])
  | noItems => exact Passes.skipEnds _
  | items _ _ _ ih others => exact ((Passes.skipEnds _).trans ih).trans others
  | noMore => exact Passes.refl _
  | more isComma _ _ ih others =>
      exact (((Passes.skipEnds _).trans ih).trans others).cons (by simp [isComma])

def Agrees (bound : Nat) (least : Int) (parser : Parser Expr) : Prop :=
  ∀ (cursor : Cursor) (whole : Expr) (rest : List Token), Closed cursor.rest →
    cursor.rest.length ≤ bound →
      (Gives parser cursor whole rest ↔ Reads (.binary least whole) cursor.rest rest)

namespace Parser

open Cursor

section Nested

variable {bound : Nat} {nested : Parser Expr} {cursor : Cursor} {rest : List Token}

theorem parenthesizedFrom_gives_iff {inner : Expr} (agrees : Agrees bound Precedence.pipe nested)
    (closed : Closed cursor.rest) (short : cursor.rest.length ≤ bound + 1) :
    Gives (parenthesizedFrom nested) cursor inner rest ↔
      Reads (.value (.paren inner)) cursor.rest rest := by
  have advanced := length_advance closed
  have skipped := length_skipLineEnds cursor.advance
  constructor
  · rintro ⟨after, ran, rfl⟩
    obtain ⟨opens, middle, read, closes, rfl⟩ := parenthesizedFrom_ok_iff.mp ran
    have innerClosed := closed_advance closed (by simp [opens])
    have reads := (agrees _ _ _ (closed_skipLineEnds innerClosed) (by omega)).mp
      ⟨middle, read, rfl⟩
    have middleClosed := reads.passes.closed (closed_skipLineEnds innerClosed)
    rw [rest_eq_cons closed]
    rw [rest_skipLineEnds] at reads
    exact .paren opens reads (skipEnds_eq_cons middleClosed) closes
  · intro reads
    rw [rest_eq_cons closed] at reads
    cases reads with
    | paren opens reads ends closes =>
        have innerClosed := closed_advance closed (by simp [opens])
        rw [← rest_skipLineEnds] at reads
        have middleClosed := reads.passes.closed (closed_skipLineEnds innerClosed)
        obtain ⟨middle, read, rfl⟩ :=
          (agrees _ _ _ (closed_skipLineEnds innerClosed) (by omega)).mpr reads
        rw [skipEnds_eq_cons middleClosed] at ends
        obtain ⟨rfl, rfl⟩ := List.cons.inj ends
        exact ⟨_, parenthesizedFrom_ok_iff.mpr ⟨opens, middle, read, closes, rfl⟩, rfl⟩

/-- Items after the first one, up to a closing parenthesis. An item that does not parse would leave
its comma before the parenthesis. -/
theorem moreItems_iff {fuel : Nat} {args : List Expr} (agrees : Agrees bound Precedence.pipe nested)
    (closed : Closed cursor.rest) (short : cursor.rest.length ≤ bound + 1)
    (enough : cursor.rest.length ≤ fuel) :
    (∃ after, moreItems nested fuel cursor = (args, after) ∧
        after.skipLineEnds.peek.kind = .symbol .rightParen ∧ after.rest = rest) ↔
      Reads (.more args) cursor.rest rest ∧ headKind (skipEnds rest) = .symbol .rightParen := by
  induction fuel generalizing cursor args with
  | zero => exact absurd (length_advance closed) (by omega)
  | succ fuel ih =>
      have advanced := length_advance closed
      have skipped := length_skipLineEnds cursor.advance
      have ahead := kind_skipLineEnds closed
      by_cases comma : cursor.peek.kind = .symbol .comma
      · have innerClosed := closed_skipLineEnds (closed_advance closed (by simp [comma]))
        have here : headKind (skipEnds cursor.rest) = .symbol .comma := by
          rw [skipEnds_of_headKind] <;> simp [← kind_peek closed, comma]
        simp only [moreItems, comma, if_true]
        constructor
        · rintro ⟨after, ran, closes, rfl⟩
          split at ran
          next first middle read =>
            obtain ⟨rfl, rfl⟩ := Prod.ext_iff.mp ran
            have reads := (agrees _ _ _ innerClosed (by omega)).mp ⟨middle, read, rfl⟩
            have middleClosed := reads.passes.closed innerClosed
            have middleLength := reads.passes.length_le
            obtain ⟨others, closes⟩ :=
              (ih middleClosed (by omega) (by omega)).mp ⟨_, rfl, closes, rfl⟩
            rw [rest_skipLineEnds] at reads
            rw [rest_eq_cons closed]
            exact ⟨.more comma reads others, closes⟩
          next =>
            -- The comma of an item that cannot be read is left, and stands before no parenthesis.
            cases ran
            simp [ahead, here] at closes
        · rintro ⟨reads, closes⟩
          rw [rest_eq_cons closed] at reads
          cases reads with
          | noMore noComma => exact absurd comma noComma
          | more isComma reads others =>
              rw [← rest_skipLineEnds] at reads
              have middleClosed := reads.passes.closed innerClosed
              have middleLength := reads.passes.length_le
              obtain ⟨middle, read, rfl⟩ := (agrees _ _ _ innerClosed (by omega)).mpr reads
              obtain ⟨after, ran, found, rfl⟩ :=
                (ih middleClosed (by omega) (by omega)).mpr ⟨others, closes⟩
              exact ⟨after, by simp [read, ran], found, rfl⟩
      · simp only [moreItems, comma, if_false]
        constructor
        · rintro ⟨after, ran, closes, rfl⟩
          cases ran
          exact ⟨.noMore (by rwa [← kind_peek closed]), ahead ▸ closes⟩
        · rintro ⟨reads, closes⟩
          rw [rest_eq_cons closed] at reads
          cases reads with
          | noMore =>
              rw [← rest_eq_cons closed] at closes ⊢
              exact ⟨cursor, rfl, ahead.trans closes, rfl⟩
          | more isComma => exact absurd isComma comma

theorem items_iff {args : List Expr} (agrees : Agrees bound Precedence.pipe nested)
    (closed : Closed cursor.rest) (short : cursor.rest.length ≤ bound) :
    (∃ after, items nested cursor = (args, after) ∧
        after.skipLineEnds.peek.kind = .symbol .rightParen ∧ after.rest = rest) ↔
      Reads (.items args) cursor.rest rest ∧ headKind (skipEnds rest) = .symbol .rightParen := by
  have startClosed := closed_skipLineEnds closed
  have skipped := length_skipLineEnds cursor
  have ahead := kind_skipLineEnds closed
  have again : cursor.skipLineEnds.skipLineEnds.peek.kind = cursor.skipLineEnds.peek.kind := by
    rw [kind_skipLineEnds startClosed, rest_skipLineEnds, skipEnds_idem, ahead]
  by_cases empty : cursor.skipLineEnds.peek.kind = .symbol .rightParen
  · simp only [items, empty, if_true]
    constructor
    · rintro ⟨after, ran, closes, rfl⟩
      cases ran
      rw [rest_skipLineEnds, skipEnds_idem]
      exact ⟨.noItems (ahead ▸ empty), ahead ▸ empty⟩
    · rintro ⟨reads, closes⟩
      cases reads with
      | noItems => exact ⟨_, rfl, again.trans empty, rest_skipLineEnds cursor⟩
      | items notClosed => exact absurd (ahead ▸ empty) notClosed
  · simp only [items, empty, if_false]
    constructor
    · rintro ⟨after, ran, closes, rfl⟩
      split at ran
      next first middle read =>
        obtain ⟨rfl, rfl⟩ := Prod.ext_iff.mp ran
        have reads := (agrees _ _ _ startClosed (by omega)).mp ⟨middle, read, rfl⟩
        have middleClosed := reads.passes.closed startClosed
        have middleLength := reads.passes.length_le
        obtain ⟨others, closes⟩ :=
          (moreItems_iff agrees middleClosed (by omega) le_rfl).mp ⟨_, rfl, closes, rfl⟩
        rw [rest_skipLineEnds] at reads
        exact ⟨.items (ahead ▸ empty) reads others, closes⟩
      next =>
        cases ran
        exact absurd (again ▸ closes) empty
    · rintro ⟨reads, closes⟩
      cases reads with
      | noItems found => exact absurd (ahead.trans found) empty
      | items notClosed reads others =>
          rw [← rest_skipLineEnds] at reads
          have middleClosed := reads.passes.closed startClosed
          have middleLength := reads.passes.length_le
          obtain ⟨middle, read, rfl⟩ := (agrees _ _ _ startClosed (by omega)).mpr reads
          obtain ⟨after, ran, found, rfl⟩ :=
            (moreItems_iff agrees middleClosed (by omega) le_rfl).mpr ⟨others, closes⟩
          exact ⟨after, by simp [read, ran], found, rfl⟩

theorem callFrom_gives_iff {callee : String} {args : List Expr}
    (agrees : Agrees bound Precedence.pipe nested) (closed : Closed cursor.rest)
    (short : cursor.rest.length ≤ bound + 1) :
    Gives (callFrom nested) cursor (callee, args) rest ↔
      Reads (.call callee args) cursor.rest rest := by
  have advanced := length_advance closed
  constructor
  · rintro ⟨after, ran, rfl⟩
    obtain ⟨named, rfl, opens, middle, list, closes, rfl⟩ := callFrom_ok_iff.mp ran
    have opensClosed := closed_advance closed (by simp [named])
    have advancedTwice := length_advance opensClosed
    have innerClosed := closed_advance opensClosed (by simp [opens])
    obtain ⟨reads, _⟩ := (items_iff agrees innerClosed (by omega)).mp ⟨middle, list, closes, rfl⟩
    have middleClosed := reads.passes.closed innerClosed
    rw [rest_eq_cons closed, rest_eq_cons opensClosed]
    exact .call named opens reads (skipEnds_eq_cons middleClosed) closes
  · intro reads
    rw [rest_eq_cons closed] at reads
    generalize shape : cursor.advance.rest = tail at reads
    cases reads with
    | call named opens reads ends closes =>
        have opensClosed := closed_advance closed (by simp [named])
        have advancedTwice := length_advance opensClosed
        obtain ⟨rfl, rfl⟩ := List.cons.inj ((rest_eq_cons opensClosed).symm.trans shape)
        have innerClosed := closed_advance opensClosed (by simp [opens])
        obtain ⟨middle, list, closes, rfl⟩ :=
          (items_iff agrees innerClosed (by omega)).mpr ⟨reads, by rw [ends]; exact closes⟩
        rw [skipEnds_eq_cons (reads.passes.closed innerClosed)] at ends
        obtain ⟨rfl, rfl⟩ := List.cons.inj ends
        exact ⟨_, callFrom_ok_iff.mpr ⟨named, rfl, opens, middle, list, closes, rfl⟩, rfl⟩

theorem valueFrom_gives_iff {fuel : Nat} {value : Expr}
    (agrees : Agrees bound Precedence.pipe nested) (closed : Closed cursor.rest)
    (short : cursor.rest.length ≤ bound + 1) (enough : cursor.rest.length ≤ fuel) :
    Gives (valueFrom nested fuel) cursor value rest ↔ Reads (.value value) cursor.rest rest := by
  -- Only signs use up fuel here: each of them is a token.
  induction fuel generalizing cursor value with
  | zero => exact absurd (length_advance closed) (by omega)
  | succ fuel ih =>
      have advanced := length_advance closed
      constructor
      · rintro ⟨after, ran, rfl⟩
        rcases valueFrom_ok_iff.mp ran with ⟨constant, denotes, rfl, rfl⟩ |
          ⟨named, notCalled, rfl, rfl⟩ | ⟨callee, args, called, rfl⟩ | ⟨inner, read, rfl⟩ |
          ⟨sign, op, operand, found, unary, read, rfl⟩
        · rw [rest_eq_cons closed]
          exact .literal denotes
        · have innerClosed := closed_advance closed (by simp [named])
          rw [rest_eq_cons closed]
          exact .ident named (by rwa [← kind_peek innerClosed])
        · exact .called ((callFrom_gives_iff agrees closed short).mp ⟨after, called, rfl⟩)
        · exact (parenthesizedFrom_gives_iff agrees closed short).mp ⟨after, read, rfl⟩
        · have innerClosed := closed_advance closed (by simp [found])
          rw [rest_eq_cons closed]
          exact .unary found unary ((ih innerClosed (by omega) (by omega)).mp ⟨after, read, rfl⟩)
      · intro reads
        cases value with
        | paren inner =>
            obtain ⟨after, read, rfl⟩ := (parenthesizedFrom_gives_iff agrees closed short).mpr reads
            exact ⟨after, valueFrom_ok_iff.mpr
              (Or.inr (Or.inr (Or.inr (Or.inl ⟨inner, read, rfl⟩)))), rfl⟩
        | call callee args =>
            cases reads with
            | called call =>
                obtain ⟨after, read, rfl⟩ := (callFrom_gives_iff agrees closed short).mpr call
                exact ⟨after, valueFrom_ok_iff.mpr
                  (Or.inr (Or.inr (Or.inl ⟨callee, args, read, rfl⟩))), rfl⟩
        | literal constant =>
            rw [rest_eq_cons closed] at reads
            cases reads with
            | literal denotes =>
                exact ⟨_, valueFrom_ok_iff.mpr (Or.inl ⟨constant, denotes, rfl, rfl⟩), rfl⟩
        | ident name =>
            rw [rest_eq_cons closed] at reads
            cases reads with
            | ident named notCalled =>
                have innerClosed := closed_advance closed (by simp [named])
                rw [← kind_peek innerClosed] at notCalled
                exact ⟨_, valueFrom_ok_iff.mpr
                  (Or.inr (Or.inl ⟨named, notCalled, rfl, rfl⟩)), rfl⟩
        | unary op operand =>
            rw [rest_eq_cons closed] at reads
            cases reads with
            | unary found unary reads =>
                have innerClosed := closed_advance closed (by simp [found])
                obtain ⟨after, read, rfl⟩ := (ih innerClosed (by omega) (by omega)).mpr reads
                exact ⟨after, valueFrom_ok_iff.mpr
                  (Or.inr (Or.inr (Or.inr (Or.inr ⟨_, op, operand, found, unary, read, rfl⟩)))), rfl⟩
        | binary | ternary | pipe | hole => cases reads

end Nested

section Climbing

variable {bound : Nat} {nested : Int → Parser Expr} {cursor : Cursor} {rest : List Token}

theorem operationFrom_gives_iff {left joined : Expr} {operator : Operator}
    (agrees : ∀ least, Agrees bound least (nested least)) (closed : Closed cursor.rest)
    (short : cursor.rest.length ≤ bound) :
    Gives (operationFrom nested left operator) cursor joined rest ↔
      Reads (.operation left operator joined) cursor.rest rest := by
  cases operator with
  | pipe =>
      constructor
      · rintro ⟨after, ran, rfl⟩
        obtain ⟨callee, args, called, rfl⟩ := operationFrom_pipe_ok_iff.mp ran
        exact .pipe ((callFrom_gives_iff (agrees _) closed (by omega)).mp ⟨after, called, rfl⟩)
      · intro reads
        cases reads with
        | pipe call =>
            obtain ⟨after, called, rfl⟩ :=
              (callFrom_gives_iff (agrees _) closed (by omega)).mpr call
            exact ⟨after, operationFrom_pipe_ok_iff.mpr ⟨_, _, called, rfl⟩, rfl⟩
  | ternary =>
      constructor
      · rintro ⟨after, ran, rfl⟩
        obtain ⟨yes, middle, no, first, isColon, second, rfl⟩ :=
          operationFrom_ternary_ok_iff.mp ran
        have firstReads := (agrees _ _ _ _ closed short).mp ⟨middle, first, rfl⟩
        have middleClosed := firstReads.passes.closed closed
        have laterClosed := closed_advance (closed_skipLineEnds middleClosed) (by simp [isColon])
        have lengths := firstReads.passes.length_le
        have skipped := length_skipLineEnds middle
        have advanced := length_advance (closed_skipLineEnds middleClosed)
        have later := length_skipLineEnds middle.skipLineEnds.advance
        have secondReads := (agrees _ _ _ _ (closed_skipLineEnds laterClosed) (by omega)).mp
          ⟨after, second, rfl⟩
        rw [rest_skipLineEnds] at secondReads
        exact .ternary firstReads (skipEnds_eq_cons middleClosed) isColon secondReads
      · intro reads
        cases reads with
        | ternary firstReads divides isColon secondReads =>
            obtain ⟨middle, first, rfl⟩ := (agrees _ _ _ _ closed short).mpr firstReads
            have middleClosed := firstReads.passes.closed closed
            rw [skipEnds_eq_cons middleClosed] at divides
            obtain ⟨rfl, rfl⟩ := List.cons.inj divides
            have laterClosed := closed_advance (closed_skipLineEnds middleClosed) (by simp [isColon])
            have lengths := firstReads.passes.length_le
            have skipped := length_skipLineEnds middle
            have advanced := length_advance (closed_skipLineEnds middleClosed)
            have later := length_skipLineEnds middle.skipLineEnds.advance
            rw [← rest_skipLineEnds] at secondReads
            obtain ⟨after, second, rfl⟩ :=
              (agrees _ _ _ _ (closed_skipLineEnds laterClosed) (by omega)).mpr secondReads
            exact ⟨after, operationFrom_ternary_ok_iff.mpr
              ⟨_, middle, _, first, isColon, second, rfl⟩, rfl⟩
  | binary op =>
      constructor
      · rintro ⟨after, ran, rfl⟩
        obtain ⟨right, read, rfl⟩ := operationFrom_binary_ok_iff.mp ran
        exact .infixed ((agrees _ _ _ _ closed short).mp ⟨after, read, rfl⟩)
      · intro reads
        cases reads with
        | infixed reads =>
            obtain ⟨after, read, rfl⟩ := (agrees _ _ _ _ closed short).mpr reads
            exact ⟨after, operationFrom_binary_ok_iff.mpr ⟨_, read, rfl⟩, rfl⟩

theorem climbFrom_gives_iff {least : Int} {fuel : Nat} {left whole : Expr}
    (agrees : ∀ least, Agrees bound least (nested least)) (closed : Closed cursor.rest)
    (short : cursor.rest.length ≤ bound + 1) (enough : cursor.rest.length ≤ fuel) :
    Gives (climbFrom nested least fuel left) cursor whole rest ↔
      Reads (.climb least left whole) cursor.rest rest := by
  induction fuel generalizing cursor left with
  | zero => exact absurd (length_advance closed) (by omega)
  | succ fuel ih =>
      have advanced := length_advance closed
      have skipped := length_skipLineEnds cursor.advance
      constructor
      · rintro ⟨after, ran, rfl⟩
        rcases climbFrom_ok_iff.mp ran with
          ⟨weaker, rfl, rfl⟩ | ⟨operator, joined, middle, found, strong, operation, climbs⟩
        · exact .stop (by rwa [← kind_peek closed])
        · have innerClosed := closed_skipLineEnds
            (closed_advance closed (TokenKind.ne_finish_of_operator? found))
          have reads := (operationFrom_gives_iff agrees innerClosed (by omega)).mp
            ⟨middle, operation, rfl⟩
          have lengths := reads.passes.length_le
          have later := (ih (reads.passes.closed innerClosed) (by omega) (by omega)).mp
            ⟨after, climbs, rfl⟩
          rw [rest_eq_cons closed]
          rw [rest_skipLineEnds] at reads
          exact .step found strong reads later
      · intro reads
        rw [rest_eq_cons closed] at reads
        cases reads with
        | stop weaker =>
            exact ⟨cursor, climbFrom_ok_iff.mpr (Or.inl ⟨weaker, rfl, rfl⟩), rest_eq_cons closed⟩
        | step found strong reads later =>
            have innerClosed := closed_skipLineEnds
              (closed_advance closed (TokenKind.ne_finish_of_operator? found))
            rw [← rest_skipLineEnds] at reads
            have lengths := reads.passes.length_le
            have middleClosed := reads.passes.closed innerClosed
            obtain ⟨middle, operation, rfl⟩ :=
              (operationFrom_gives_iff agrees innerClosed (by omega)).mpr reads
            obtain ⟨after, climbs, rfl⟩ := (ih middleClosed (by omega) (by omega)).mpr later
            exact ⟨after, climbFrom_ok_iff.mpr
              (Or.inr ⟨_, _, middle, found, strong, operation, climbs⟩), rfl⟩

end Climbing

theorem binaryFrom_agrees (fuel : Nat) (least : Int) : Agrees fuel least (binaryFrom fuel least) := by
  induction fuel generalizing least with
  | zero =>
      intro cursor whole rest closed short
      exact absurd (length_advance closed) (by omega)
  | succ fuel ih =>
      intro cursor whole rest closed short
      constructor
      · rintro ⟨after, ran, rfl⟩
        obtain ⟨first, middle, started, climbs⟩ := binaryFrom_ok_iff.mp ran
        have starts := (valueFrom_gives_iff (ih _) closed short short).mp ⟨middle, started, rfl⟩
        have lengths := starts.passes.length_le
        have middleClosed := starts.passes.closed closed
        exact .binary starts
          ((climbFrom_gives_iff ih middleClosed (by omega) (by omega)).mp ⟨after, climbs, rfl⟩)
      · intro reads
        cases reads with
        | binary starts climbs =>
            have lengths := starts.passes.length_le
            have middleClosed := starts.passes.closed closed
            obtain ⟨middle, started, rfl⟩ :=
              (valueFrom_gives_iff (ih _) closed short short).mpr starts
            obtain ⟨after, climbed, rfl⟩ :
                Gives (climbFrom (binaryFrom fuel) least (fuel + 1) _) middle whole rest :=
              (climbFrom_gives_iff ih middleClosed (by omega) (by omega)).mpr climbs
            exact ⟨after, binaryFrom_ok_iff.mpr ⟨_, middle, started, climbed⟩, rfl⟩

/-- Expressions are read exactly as the grammar says. -/
theorem expression_gives_iff {cursor : Cursor} {whole : Expr} {rest : List Token}
    (closed : Closed cursor.rest) :
    Gives expression cursor whole rest ↔
      Reads (.binary Precedence.pipe whole) cursor.rest rest := by
  rw [← binaryFrom_agrees (cursor.rest.length + 1) Precedence.pipe cursor whole rest closed
    (Nat.le_succ _)]
  simp only [Gives, expression, binary]

end Parser

end GameScript
