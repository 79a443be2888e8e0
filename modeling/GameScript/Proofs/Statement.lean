import GameScript.Proofs.Clause
import Mathlib.Data.List.DropRight

/-!
The grammar of statements, as a relation between the tokens before and after a statement. The
parser reads exactly the statements of the grammar.
-/

namespace GameScript

/-! The grammar of statements. -/

def skipBlanks (tokens : List Token) : List Token :=
  tokens.dropWhile fun token => token.kind = .lineEnd || token.kind = .docComment

def Keyword.jump? : Keyword → Option Stmt
  | .break_ => some .breakLoop
  | .continue_ => some .continueLoop
  | .exit_ => some .exitScript
  | _ => none

def Keyword.headed? (head : Expr) (body : Stmt) : Keyword → Option Stmt
  | .repeat_ => some (.repeats head body)
  | .with_ => some (.withTarget head body)
  | .while_ => some (.loop .whileLoop head body)
  | .until_ => some (.loop .untilLoop head body)
  | _ => none

/-- What can be read at a place: a statement after line ends and doc comments, a statement from its
first token on, or the statements of a block up to its end. -/
inductive Part where
  | statement (read : Stmt)
  | begun (read : Stmt)
  | inside (body : List Stmt)

/-- The grammar of statements. An `else` belongs to the last `if` that can take it. -/
inductive Forms : Part → List Token → List Token → Prop where
  | statement {read : Stmt} {tokens rest : List Token}
      (begun : Forms (.begun read) (skipBlanks tokens) rest) : Forms (.statement read) tokens rest
  | noop {tokens rest : List Token} (empty : headKind tokens = .symbol .semicolon)
      (ends : Ends tokens rest) : Forms (.begun .noop) tokens rest
  | block {brace : Token} {body : List Stmt} {tokens rest : List Token}
      (opens : brace.kind = .symbol .leftBrace) (inside : Forms (.inside body) tokens rest) :
      Forms (.begun (.block body)) (brace :: tokens) rest
  | declare {declaration : Declaration} {tokens middle rest : List Token}
      (declares : Declares declaration tokens middle) (ends : Ends middle rest) :
      Forms (.begun (.declare declaration)) tokens rest
  | branch {word : Token} {test : Expr} {yes : Stmt} {tokens first rest : List Token}
      (found : word.kind = .keyword .if_) (tests : Reads (.value (.paren test)) tokens first)
      (yesForms : Forms (.statement yes) first rest)
      (noElse : headKind (skipEnds rest) ≠ .keyword .else_) :
      Forms (.begun (.branch test yes .hole)) (word :: tokens) rest
  | branchElse {word other : Token} {test : Expr} {yes no : Stmt}
      {tokens first second third rest : List Token} (found : word.kind = .keyword .if_)
      (tests : Reads (.value (.paren test)) tokens first)
      (yesForms : Forms (.statement yes) first second) (shape : skipEnds second = other :: third)
      (otherwise : other.kind = .keyword .else_) (noForms : Forms (.statement no) third rest) :
      Forms (.begun (.branch test yes no)) (word :: tokens) rest
  | doLoop {word : Token} {kind : LoopKind} {test : Expr} {body : Stmt}
      {tokens middle rest : List Token} (found : word.kind = .keyword .do_)
      (bodyForms : Forms (.statement body) tokens middle) (tails : Tails kind test middle rest) :
      Forms (.begun (.loop kind test body)) (word :: tokens) rest
  | headed {word : Token} {keyword : Keyword} {head : Expr} {body read : Stmt}
      {tokens middle rest : List Token} (found : word.kind = .keyword keyword)
      (heads : Reads (.value (.paren head)) tokens middle)
      (bodyForms : Forms (.statement body) middle rest) (made : keyword.headed? head body = some read) :
      Forms (.begun read) (word :: tokens) rest
  | forLoop {word opening closing : Token} {init update body : Stmt} {test : Option Expr}
      {tokens first second third fourth fifth sixth rest : List Token}
      (found : word.kind = .keyword .for_) (opens : opening.kind = .symbol .leftParen)
      (inits : Clauses true init (skipEnds tokens) first) (divides : Divides first second)
      (tests : Tests test second third) (dividesAgain : Divides third fourth)
      (updates : Updates update fourth fifth) (shape : skipEnds fifth = closing :: sixth)
      (closes : closing.kind = .symbol .rightParen) (bodyForms : Forms (.statement body) sixth rest) :
      Forms (.begun (.forLoop init test update body)) (word :: opening :: tokens) rest
  | jump {word : Token} {keyword : Keyword} {read : Stmt} {tokens rest : List Token}
      (found : word.kind = .keyword keyword) (made : keyword.jump? = some read)
      (ends : Ends tokens rest) : Forms (.begun read) (word :: tokens) rest
  | ret {word : Token} {value : Option Expr} {tokens rest : List Token}
      (found : word.kind = .keyword .return_) (returns : Returns value tokens rest) :
      Forms (.begun (.ret value)) (word :: tokens) rest
  | expr {value : Expr} {tokens middle rest : List Token}
      (reads : Reads (.binary Precedence.pipe value) tokens middle) (ends : Ends middle rest) :
      Forms (.begun (.expr value)) tokens rest
  | assign {assignment : Assignment} {tokens middle rest : List Token}
      (assigns : Assigns assignment tokens middle) (ends : Ends middle rest) :
      Forms (.begun (.assign assignment)) tokens rest
  | close {brace : Token} {tokens rest : List Token} (shape : skipBlanks tokens = brace :: rest)
      (closes : brace.kind = .symbol .rightBrace) : Forms (.inside []) tokens rest
  | inside {first : Stmt} {others : List Stmt} {tokens middle rest : List Token}
      (firstForms : Forms (.statement first) tokens middle)
      (othersForm : Forms (.inside others) middle rest) : Forms (.inside (first :: others)) tokens rest

theorem Passes.skipBlanks (tokens : List Token) : Passes tokens (skipBlanks tokens) :=
  Passes.dropWhile (by simp +contextual [or_imp]) tokens

theorem Passes.ofSkipBlanks {token : Token} {tokens rest : List Token}
    (shape : GameScript.skipBlanks tokens = token :: rest) (inner : token.kind ≠ .finish) :
    Passes tokens rest :=
  (skipBlanks tokens).trans (shape ▸ (refl rest).cons inner)

theorem Forms.passes {part : Part} {tokens rest : List Token} (forms : Forms part tokens rest) :
    Passes tokens rest := by
  induction forms with
  | statement _ begun => exact (Passes.skipBlanks _).trans begun
  | noop _ ends => exact ends.passes
  | block opens _ inside => exact inside.cons (by simp [opens])
  | declare declares ends => exact declares.passes.trans ends.passes
  | branch found tests _ _ yes => exact (tests.passes.trans yes).cons (by simp [found])
  | branchElse found tests _ shape otherwise _ yes no =>
      have later := (Passes.ofSkipEnds shape (by simp [otherwise])).trans no
      exact (tests.passes.trans (yes.trans later)).cons (by simp [found])
  | doLoop found _ tails body => exact (body.trans tails.passes).cons (by simp [found])
  | headed found heads _ _ body => exact (heads.passes.trans body).cons (by simp [found])
  | forLoop found opens inits divides tests dividesAgain updates shape closes _ body =>
      have header := inits.passes.trans (divides.passes.trans (tests.passes.trans
        (dividesAgain.passes.trans updates.passes)))
      have later := (Passes.ofSkipEnds shape (by simp [closes])).trans body
      exact (((Passes.skipEnds _).trans (header.trans later)).cons (by simp [opens])).cons
        (by simp [found])
  | jump found _ ends => exact ends.passes.cons (by simp [found])
  | ret found returns => exact returns.passes.cons (by simp [found])
  | expr reads ends => exact reads.passes.trans ends.passes
  | assign assigns ends => exact assigns.passes.trans ends.passes
  | close shape closes => exact Passes.ofSkipBlanks shape (by simp [closes])
  | inside _ _ first others => exact first.trans others

theorem Passes.length_lt {token : Token} {tokens rest : List Token} (passes : Passes tokens rest) :
    rest.length < (token :: tokens).length :=
  Nat.lt_succ_of_le passes.length_le

theorem Reads.length_lt_value {value : Expr} {tokens rest : List Token}
    (reads : Reads (.value value) tokens rest) : rest.length < tokens.length := by
  cases reads with
  | literal | ident => simp
  | called call =>
      cases call with
      | call _ _ list ends closes =>
          have passes := list.passes.trans (Passes.ofSkipEnds ends (by simp [closes]))
          exact Nat.lt_succ_of_lt passes.length_lt
  | paren _ inner ends closes =>
      have passes := inner.passes.trans (Passes.ofSkipEnds ends (by simp [closes]))
      exact ((Passes.skipEnds _).trans passes).length_lt
  | unary _ _ operand => exact operand.passes.length_lt

theorem Reads.length_lt {least : Int} {value : Expr} {tokens rest : List Token}
    (reads : Reads (.binary least value) tokens rest) : rest.length < tokens.length := by
  cases reads with
  | binary starts climbs => exact Nat.lt_of_le_of_lt climbs.passes.length_le starts.length_lt_value

theorem Forms.length_lt {part : Part} {tokens rest : List Token} (forms : Forms part tokens rest) :
    rest.length < tokens.length := by
  induction forms with
  | statement _ begun => exact Nat.lt_of_lt_of_le begun (Passes.skipBlanks _).length_le
  | noop empty ends =>
      cases ends with
      | line => exact Nat.lt_succ_of_lt (Nat.lt_succ_self _)
      | semicolon | lineEnd => simp
      | finish closes => simp [closes] at empty
  | block _ inside => exact inside.passes.length_lt
  | declare declares ends =>
      cases declares with
      | bare => exact Nat.lt_succ_of_lt ends.passes.length_lt
      | valued _ _ _ reads =>
          have passes := (Passes.skipEnds _).trans (reads.passes.trans ends.passes)
          exact Nat.lt_succ_of_lt (Nat.lt_succ_of_lt passes.length_lt)
  | branch _ tests yesForms => exact (tests.passes.trans yesForms.passes).length_lt
  | branchElse _ tests yesForms shape otherwise noForms =>
      have later := (Passes.ofSkipEnds shape (by simp [otherwise])).trans noForms.passes
      exact (tests.passes.trans (yesForms.passes.trans later)).length_lt
  | doLoop _ bodyForms tails => exact (bodyForms.passes.trans tails.passes).length_lt
  | headed _ heads bodyForms => exact (heads.passes.trans bodyForms.passes).length_lt
  | forLoop _ opens inits divides tests dividesAgain updates shape closes bodyForms =>
      have header := inits.passes.trans (divides.passes.trans (tests.passes.trans
        (dividesAgain.passes.trans updates.passes)))
      have later := (Passes.ofSkipEnds shape (by simp [closes])).trans bodyForms.passes
      exact Nat.lt_succ_of_lt ((Passes.skipEnds _).trans (header.trans later)).length_lt
  | jump _ _ ends => exact ends.passes.length_lt
  | ret _ returns => exact returns.passes.length_lt
  | expr reads ends => exact Nat.lt_of_le_of_lt ends.passes.length_le reads.length_lt
  | assign assigns ends =>
      cases assigns with
      | step => exact Nat.lt_succ_of_lt ends.passes.length_lt
      | value _ _ _ reads =>
          have passes := (Passes.skipEnds _).trans (reads.passes.trans ends.passes)
          exact Nat.lt_succ_of_lt passes.length_lt
  | @close _ tokens rest shape =>
      have shorter := (Passes.skipBlanks tokens).length_le
      rw [shape] at shorter
      exact shorter
  | inside _ _ first others => exact Nat.lt_trans others first

theorem skipBlanks_idem (tokens : List Token) : skipBlanks (skipBlanks tokens) = skipBlanks tokens :=
  List.dropWhile_idempotent _ tokens

theorem forms_skipBlanks_iff {read : Stmt} {tokens rest : List Token} :
    Forms (.statement read) (skipBlanks tokens) rest ↔ Forms (.statement read) tokens rest := by
  constructor
  · rintro ⟨begun⟩
    rw [skipBlanks_idem] at begun
    exact .statement begun
  · rintro ⟨begun⟩
    rw [← skipBlanks_idem] at begun
    exact .statement begun

namespace Cursor

theorem rest_skipBlank (cursor : Cursor) : cursor.skipBlank.rest = skipBlanks cursor.rest :=
  rfl

theorem closed_skipBlank {cursor : Cursor} (closed : Closed cursor.rest) :
    Closed cursor.skipBlank.rest := by
  rw [rest_skipBlank]
  exact (Passes.skipBlanks _).closed closed

theorem length_skipBlank (cursor : Cursor) : cursor.skipBlank.rest.length ≤ cursor.rest.length := by
  rw [rest_skipBlank]
  exact (Passes.skipBlanks _).length_le

end Cursor

theorem Forms.begins {read : Stmt} {tokens rest : List Token}
    (forms : Forms (.begun read) tokens rest) : (headKind tokens).begins = true := by
  cases forms with
  | noop empty => rw [empty]; rfl
  | block opens => rw [headKind, opens]; rfl
  | declare declares => exact TokenKind.begins_of_declares declares.declares_headKind
  | branch found | branchElse found | doLoop found | forLoop found | ret found =>
      rw [headKind, found]; rfl
  | @headed _ keyword _ _ _ _ _ _ found _ _ made =>
      rw [headKind, found]
      cases keyword <;> first | rfl | simp [Keyword.headed?] at made
  | @jump _ keyword _ _ _ found made =>
      rw [headKind, found]
      cases keyword <;> first | rfl | simp [Keyword.jump?] at made
  | expr reads => exact TokenKind.begins_of_startsLeaf reads.startsLeaf
  | assign assigns => rw [assigns.headKind_eq]; rfl

theorem Forms.headKind_ne {read : Stmt} {tokens rest : List Token} {kind : TokenKind}
    (forms : Forms (.begun read) tokens rest) (never : kind.begins = false) :
    headKind tokens ≠ kind := by
  rintro rfl
  rw [forms.begins] at never
  exact Bool.noConfusion never

theorem skipBlanks_of_headKind {tokens : List Token} (noBreak : headKind tokens ≠ .lineEnd)
    (noDoc : headKind tokens ≠ .docComment) : skipBlanks tokens = tokens := by
  cases tokens with
  | nil => rfl
  | cons token rest =>
      have here : token.kind ≠ .lineEnd ∧ token.kind ≠ .docComment := ⟨noBreak, noDoc⟩
      simp [skipBlanks, here]

theorem skipBlanks_skipEnds (tokens : List Token) :
    skipBlanks (skipEnds tokens) = skipBlanks tokens := by
  induction tokens with
  | nil => rfl
  | cons token rest ih =>
      by_cases lineEnd : token.kind = .lineEnd
      · simpa [skipEnds, skipBlanks, List.dropWhile_cons, lineEnd] using ih
      · have here : headKind (token :: rest) ≠ .lineEnd := lineEnd
        rw [skipEnds_of_headKind here]

theorem skipBlanks_congr {tokens others : List Token} (same : skipEnds tokens = skipEnds others) :
    skipBlanks tokens = skipBlanks others := by
  rw [← skipBlanks_skipEnds tokens, same, skipBlanks_skipEnds]

theorem skipBlanks_eq_skipEnds {tokens : List Token} (noDoc : headKind (skipEnds tokens) ≠ .docComment) :
    skipBlanks tokens = skipEnds tokens := by
  rw [← skipBlanks_skipEnds]
  exact skipBlanks_of_headKind (headKind_skipEnds tokens) noDoc

theorem Forms.headKind_skipEnds_ne {read : Stmt} {tokens rest : List Token} {kind : TokenKind}
    (forms : Forms (.statement read) tokens rest) (never : kind.begins = false)
    (noDoc : kind ≠ .docComment) : headKind (skipEnds tokens) ≠ kind := by
  intro here
  cases forms with
  | statement begun =>
      rw [skipBlanks_eq_skipEnds (here ▸ noDoc)] at begun
      exact begun.headKind_ne never here

theorem Forms.noElse_inside {body : List Stmt} {tokens rest : List Token}
    (forms : Forms (.inside body) tokens rest) : headKind (skipEnds tokens) ≠ .keyword .else_ := by
  cases forms with
  | close shape closes =>
      intro here
      rw [skipBlanks_eq_skipEnds (by simp [here])] at shape
      simp [shape, headKind, closes] at here
  | inside first => exact first.headKind_skipEnds_ne rfl (by simp)

theorem assignOp?_eq_none_of_skipEnds {tokens : List Token}
    (bare : (headKind (skipEnds tokens)).assignOp? = none) : (headKind tokens).assignOp? = none := by
  by_cases here : headKind tokens = .lineEnd
  · rw [here]
    rfl
  · rwa [skipEnds_of_headKind here] at bare

theorem assignOp?_eq_none_of_skipLineEnds {cursor : Cursor} {sign : Symbol}
    (found : cursor.skipLineEnds.peek.kind = .symbol sign) (bare : sign.assignOp? = none) :
    (headKind cursor.rest).assignOp? = none := by
  refine assignOp?_eq_none_of_skipEnds ?_
  rw [← Cursor.rest_skipLineEnds]
  cases shape : cursor.skipLineEnds.rest with
  | nil => rfl
  | cons token rest =>
      rw [Cursor.peek_of_rest shape] at found
      simpa [headKind, found, TokenKind.assignOp?] using bare

theorem Parser.separator_ok_iff {cursor after : Cursor} {value : Unit} :
    Parser.separator cursor = .ok value after ↔
      cursor.skipLineEnds.peek.kind = .symbol .semicolon ∧
        cursor.skipLineEnds.advance.skipLineEnds = after := by
  simp [separator]

namespace NotingParser

open GameScript.Parser (parenthesized clause separator forTest forUpdate loopTail)

variable {statement : NotingParser Stmt} {result : Stmt} {cursor after : Cursor}

theorem branchFrom_ok_iff :
    (branchFrom statement cursor).2 = .ok result after ↔
      ∃ test first, parenthesized cursor.advance = .ok test first ∧
      ∃ yes second, (statement first).2 = .ok yes second ∧
      ∃ no, (elseFrom statement second).2 = .ok no after ∧ .branch test yes no = result := by
  simp [branchFrom]

theorem headedFrom_ok_iff {keyword : Keyword} (found : cursor.peek.kind = .keyword keyword)
    (heads : keyword ∈ [.repeat_, .while_, .until_, .with_]) :
    (headedFrom statement cursor).2 = .ok result after ↔
      ∃ head middle, parenthesized cursor.advance = .ok head middle ∧
      ∃ body, (statement middle).2 = .ok body after ∧ keyword.headed? head body = some result := by
  simp only [headedFrom, atomic_ok_iff, bind_ok_iff, lift_snd, Parser.next_ok_iff, pure_ok_iff]
  simp only [List.mem_cons, List.not_mem_nil, or_false] at heads
  rcases heads with rfl | rfl | rfl | rfl <;> simp [found, Keyword.headed?]

theorem doLoopFrom_ok_iff :
    (doLoopFrom statement cursor).2 = .ok result after ↔
      ∃ body middle, (statement cursor.advance).2 = .ok body middle ∧
      ∃ kind test, loopTail middle = .ok (kind, test) after ∧ .loop kind test body = result := by
  simp [doLoopFrom]

theorem forLoopFrom_ok_iff :
    (forLoopFrom statement cursor).2 = .ok result after ↔
      cursor.advance.peek.kind = .symbol .leftParen ∧
      ∃ init first, clause true cursor.advance.advance.skipLineEnds = .ok init first ∧
      ∃ divided second, separator first = .ok divided second ∧
      ∃ test third, forTest second = .ok test third ∧
      ∃ dividedAgain fourth, separator third = .ok dividedAgain fourth ∧
      ∃ update last, forUpdate fourth = .ok update last ∧
        last.skipLineEnds.peek.kind = .symbol .rightParen ∧
      ∃ body, (statement last.skipLineEnds.advance).2 = .ok body after ∧
        .forLoop init test update body = result := by
  simp [forLoopFrom]

theorem blockFrom_ok_iff :
    (blockFrom statement cursor).2 = .ok result after ↔
      cursor.peek.kind = .symbol .leftBrace ∧ ∃ body,
        (untilBrace statement (cursor.advance.rest.length + 1) cursor.advance).2 = .ok body after ∧
        .block body = result := by
  unfold blockFrom
  rw [atomic_ok_iff, bind_ok_iff]
  simp only [lift_snd, Parser.symbol_ok_iff]
  constructor
  · rintro ⟨_, _, ⟨opens, rfl⟩, ran⟩
    obtain ⟨body, _, inside, ran⟩ := bind_ok_iff.mp ran
    simp at ran
    obtain ⟨rfl, rfl⟩ := ran
    exact ⟨opens, body, inside, rfl⟩
  · rintro ⟨opens, body, inside, rfl⟩
    exact ⟨(), _, ⟨opens, rfl⟩, bind_ok_iff.mpr ⟨body, after, inside, by simp⟩⟩

theorem untilBrace_ok_iff {fuel : Nat} {body : List Stmt} :
    (untilBrace statement (fuel + 1) cursor).2 = .ok body after ↔
      (cursor.skipBlank.peek.kind = .symbol .rightBrace ∧ body = [] ∧
        cursor.skipBlank.advance = after) ∨
      (cursor.skipBlank.peek.kind ≠ .symbol .rightBrace ∧ cursor.skipBlank.peek.kind ≠ .finish ∧
        ∃ first middle, (statement cursor.skipBlank).2 = .ok first middle ∧
        ∃ others, (untilBrace statement fuel middle).2 = .ok others after ∧
          first :: others = body) := by
  simp only [untilBrace, bind_ok_iff, lift_snd, Parser.skipBlank_ok_iff, Parser.peek_ok_iff]
  constructor
  · rintro ⟨_, _, rfl, _, _, ⟨rfl, rfl⟩, ran⟩
    cases kind : cursor.skipBlank.peek.kind with
    | finish => simp [kind] at ran
    | symbol sign =>
        by_cases brace : sign = .rightBrace
        · subst brace
          simp [kind] at ran
          obtain ⟨rfl, rfl⟩ := ran
          exact Or.inl ⟨rfl, rfl, rfl⟩
        · simp [kind, brace] at ran
          exact Or.inr ⟨by simpa using brace, by simp, ran⟩
    | _ =>
        simp [kind] at ran
        exact Or.inr ⟨by simp, by simp, ran⟩
  · intro form
    refine ⟨(), _, rfl, _, _, ⟨rfl, rfl⟩, ?_⟩
    rcases form with ⟨closes, rfl, rfl⟩ | ⟨notClosed, notFinish, ran⟩
    · simp [closes]
    · cases kind : cursor.skipBlank.peek.kind with
      | finish => exact absurd kind notFinish
      | symbol sign =>
          have brace : sign ≠ .rightBrace := by
            rintro rfl
            exact notClosed kind
          simpa [brace] using ran
      | _ => simpa using ran

theorem noted_ok_iff :
    (noted cursor).2 = .ok result after ↔ Parser.simple cursor = .ok result after := by
  unfold noted
  cases Parser.simple cursor <;> simp

end NotingParser

namespace NotingParser

open GameScript.Parser (parenthesized clause separator forTest forUpdate loopTail terminator
  parenthesized_gives_iff terminator_gives_iff declaration_gives_iff clause_gives_iff
  separator_gives_iff forTest_gives_iff forUpdate_gives_iff loopTail_gives_iff returned_gives_iff
  simple_gives_iff)
open Cursor

def Agrees (bound : Nat) (statement : NotingParser Stmt) : Prop :=
  ∀ {cursor : Cursor} {read : Stmt} {rest : List Token}, Closed cursor.rest →
    cursor.rest.length ≤ bound →
    ((∃ after, (statement cursor).2 = .ok read after ∧ after.rest = rest) ↔
      Forms (.statement read) cursor.rest rest)

section Nested

variable {bound : Nat} {statement : NotingParser Stmt} {cursor after : Cursor} {read : Stmt}
  {rest : List Token}

theorem untilBrace_agrees (agrees : Agrees bound statement) {fuel : Nat} {body : List Stmt}
    (closed : Closed cursor.rest) (short : cursor.rest.length ≤ bound)
    (enough : cursor.rest.length < fuel) :
    (∃ after, (untilBrace statement fuel cursor).2 = .ok body after ∧ after.rest = rest) ↔
      Forms (.inside body) cursor.rest rest := by
  induction fuel generalizing cursor body with
  | zero => omega
  | succ fuel ih =>
      have blankClosed := closed_skipBlank closed
      have blankShort := length_skipBlank cursor
      have shape := rest_eq_cons blankClosed
      rw [rest_skipBlank] at shape
      constructor
      · rintro ⟨after, ran, rfl⟩
        rcases untilBrace_ok_iff.mp ran with ⟨closes, rfl, rfl⟩ |
          ⟨_, _, first, middle, firstRan, others, othersRan, rfl⟩
        · exact .close shape closes
        · have firstForms := (agrees blankClosed (by omega)).mp ⟨middle, firstRan, rfl⟩
          have lengths := firstForms.length_lt
          have othersForm := (ih (firstForms.passes.closed blankClosed) (by omega) (by omega)).mp
            ⟨after, othersRan, rfl⟩
          rw [rest_skipBlank] at firstForms
          exact .inside (forms_skipBlanks_iff.mp firstForms) othersForm
      · intro forms
        cases forms with
        | close shaped closes =>
            obtain ⟨rfl, rfl⟩ := List.cons.inj (shape.symm.trans shaped)
            exact ⟨_, untilBrace_ok_iff.mpr (Or.inl ⟨closes, rfl, rfl⟩), rfl⟩
        | inside firstForms othersForm =>
            obtain ⟨notClosed, notFinish⟩ : cursor.skipBlank.peek.kind ≠ .symbol .rightBrace ∧
                cursor.skipBlank.peek.kind ≠ .finish := by
              rw [kind_peek blankClosed, rest_skipBlank]
              cases firstForms with
              | statement begun => exact ⟨begun.headKind_ne rfl, begun.headKind_ne rfl⟩
            have begun := forms_skipBlanks_iff.mpr firstForms
            rw [← rest_skipBlank] at begun
            obtain ⟨middle, firstRan, rfl⟩ := (agrees blankClosed (by omega)).mpr begun
            have lengths := begun.length_lt
            obtain ⟨after, othersRan, rfl⟩ :=
              (ih (begun.passes.closed blankClosed) (by omega) (by omega)).mpr othersForm
            exact ⟨after, untilBrace_ok_iff.mpr (Or.inr
              ⟨notClosed, notFinish, _, middle, firstRan, _, othersRan, rfl⟩), rfl⟩

theorem blockFrom_agrees (agrees : Agrees bound statement) (closed : Closed cursor.rest)
    (short : cursor.rest.length ≤ bound + 1) (opens : cursor.peek.kind = .symbol .leftBrace) :
    (∃ after, (blockFrom statement cursor).2 = .ok read after ∧ after.rest = rest) ↔
      ∃ body, Forms (.inside body) cursor.advance.rest rest ∧ .block body = read := by
  have advanced := length_advance closed
  have innerClosed := closed_advance closed (by simp [opens])
  constructor
  · rintro ⟨after, ran, rfl⟩
    obtain ⟨_, body, inside, rfl⟩ := blockFrom_ok_iff.mp ran
    have forms := (untilBrace_agrees agrees innerClosed (by omega) (Nat.lt_succ_self _)).mp
      ⟨after, inside, rfl⟩
    exact ⟨body, forms, rfl⟩
  · rintro ⟨body, forms, rfl⟩
    obtain ⟨after, inside, rfl⟩ :=
      (untilBrace_agrees agrees innerClosed (by omega) (Nat.lt_succ_self _)).mpr forms
    exact ⟨after, blockFrom_ok_iff.mpr ⟨opens, body, inside, rfl⟩, rfl⟩

theorem branchFrom_sound (agrees : Agrees bound statement) (closed : Closed cursor.rest)
    (short : cursor.rest.length ≤ bound + 1) (found : cursor.peek.kind = .keyword .if_)
    (ran : (branchFrom statement cursor).2 = .ok read after) :
    Forms (.begun read) cursor.rest after.rest := by
  have advanced := length_advance closed
  have innerClosed := closed_advance closed (by simp [found])
  obtain ⟨test, first, tested, yes, second, yesRan, no, noRan, rfl⟩ := branchFrom_ok_iff.mp ran
  have tests := (parenthesized_gives_iff innerClosed).mp ⟨first, tested, rfl⟩
  have firstClosed := tests.passes.closed innerClosed
  have firstShort := tests.passes.length_le
  have yesForms := (agrees firstClosed (by omega)).mp ⟨second, yesRan, rfl⟩
  have secondClosed := yesForms.passes.closed firstClosed
  have secondShort := yesForms.passes.length_le
  have skipped := length_skipLineEnds second
  have ahead := kind_skipLineEnds secondClosed
  rw [rest_eq_cons closed]
  simp only [elseFrom] at noRan
  split_ifs at noRan with otherwise
  · have elseAdvanced := length_advance (closed_skipLineEnds secondClosed)
    have elseClosed := closed_advance (closed_skipLineEnds secondClosed) (by simp [otherwise])
    have noForms := (agrees elseClosed (by omega)).mp ⟨after, noRan, rfl⟩
    exact .branchElse found tests yesForms (skipEnds_eq_cons secondClosed) otherwise noForms
  · cases noRan
    exact .branch found tests yesForms (ahead ▸ otherwise)

theorem headedFrom_sound {keyword : Keyword} (agrees : Agrees bound statement)
    (closed : Closed cursor.rest) (short : cursor.rest.length ≤ bound + 1)
    (found : cursor.peek.kind = .keyword keyword)
    (heads : keyword ∈ [.repeat_, .while_, .until_, .with_])
    (ran : (headedFrom statement cursor).2 = .ok read after) :
    Forms (.begun read) cursor.rest after.rest := by
  have advanced := length_advance closed
  have innerClosed := closed_advance closed (by simp [found])
  obtain ⟨head, middle, headRead, body, bodyRan, made⟩ := (headedFrom_ok_iff found heads).mp ran
  have reads := (parenthesized_gives_iff innerClosed).mp ⟨middle, headRead, rfl⟩
  have bodyShort := reads.passes.length_le
  have bodyForms := (agrees (reads.passes.closed innerClosed) (by omega)).mp ⟨after, bodyRan, rfl⟩
  rw [rest_eq_cons closed]
  exact .headed found reads bodyForms made

theorem doLoopFrom_sound (agrees : Agrees bound statement) (closed : Closed cursor.rest)
    (short : cursor.rest.length ≤ bound + 1) (found : cursor.peek.kind = .keyword .do_)
    (ran : (doLoopFrom statement cursor).2 = .ok read after) :
    Forms (.begun read) cursor.rest after.rest := by
  have advanced := length_advance closed
  have innerClosed := closed_advance closed (by simp [found])
  obtain ⟨body, middle, bodyRan, kind, test, tailRan, rfl⟩ := doLoopFrom_ok_iff.mp ran
  have bodyForms := (agrees innerClosed (by omega)).mp ⟨middle, bodyRan, rfl⟩
  have tails := (loopTail_gives_iff (bodyForms.passes.closed innerClosed)).mp ⟨after, tailRan, rfl⟩
  rw [rest_eq_cons closed]
  exact .doLoop found bodyForms tails

theorem forLoopFrom_sound (agrees : Agrees bound statement) (closed : Closed cursor.rest)
    (short : cursor.rest.length ≤ bound + 1) (found : cursor.peek.kind = .keyword .for_)
    (ran : (forLoopFrom statement cursor).2 = .ok read after) :
    Forms (.begun read) cursor.rest after.rest := by
  have advanced := length_advance closed
  have parenClosed := closed_advance closed (by simp [found])
  obtain ⟨opens, init, first, initRead, _, second, divided, test, third, testRead, _, fourth,
    dividedAgain, update, fifth, updateRead, closes, body, bodyRan, rfl⟩ :=
      forLoopFrom_ok_iff.mp ran
  have opened := length_advance parenClosed
  have innerClosed := closed_advance parenClosed (by simp [opens])
  have initClosed := closed_skipLineEnds innerClosed
  have dividing := (Parser.separator_ok_iff.mp divided).1
  have inits := (clause_gives_iff initClosed (assignOp?_eq_none_of_skipLineEnds dividing rfl)).mp
    ⟨first, initRead, rfl⟩
  have firstClosed := inits.passes.closed initClosed
  have divides := (separator_gives_iff firstClosed).mp ⟨second, divided, rfl⟩
  have secondClosed := divides.passes.closed firstClosed
  have tests := (forTest_gives_iff secondClosed).mp ⟨third, testRead, rfl⟩
  have thirdClosed := tests.passes.closed secondClosed
  have dividesAgain := (separator_gives_iff thirdClosed).mp ⟨fourth, dividedAgain, rfl⟩
  have fourthClosed := dividesAgain.passes.closed thirdClosed
  have updates := (forUpdate_gives_iff fourthClosed
    (assignOp?_eq_none_of_skipLineEnds closes rfl)).mp ⟨fifth, updateRead, rfl⟩
  have fifthClosed := updates.passes.closed fourthClosed
  have bodyClosed := closed_advance (closed_skipLineEnds fifthClosed) (by simp [closes])
  have header := inits.passes.trans (divides.passes.trans (tests.passes.trans
    (dividesAgain.passes.trans updates.passes)))
  have headerShort := header.length_le
  have initShort := length_skipLineEnds cursor.advance.advance
  have closingShort := length_skipLineEnds fifth
  have bodyShort := length_advance (closed_skipLineEnds fifthClosed)
  have bodyForms := (agrees bodyClosed (by omega)).mp ⟨after, bodyRan, rfl⟩
  rw [rest_skipLineEnds] at inits
  rw [rest_eq_cons closed, rest_eq_cons parenClosed]
  exact .forLoop found opens inits divides tests dividesAgain updates
    (skipEnds_eq_cons fifthClosed) closes bodyForms

theorem begunFrom_sound (agrees : Agrees bound statement) (closed : Closed cursor.rest)
    (short : cursor.rest.length ≤ bound + 1)
    (ran : (begunFrom statement cursor).2 = .ok read after) :
    Forms (.begun read) cursor.rest after.rest := by
  simp only [begunFrom, bind_ok_iff, lift_snd, Parser.peek_ok_iff] at ran
  obtain ⟨_, _, ⟨rfl, rfl⟩, ran⟩ := ran
  have here := kind_peek closed
  -- A token that no form starts with is left to expressions and assignments.
  have simple : (noted cursor).2 = .ok read after → Forms (.begun read) cursor.rest after.rest := by
    intro ran
    have form := (simple_gives_iff closed).mp ⟨after, noted_ok_iff.mp ran, rfl⟩
    rcases form with ⟨value, middle, reads, ends, rfl⟩ | ⟨assigned, middle, assigns, ends, rfl⟩
    · exact .expr reads ends
    · exact .assign assigns ends
  have jumps {word : Keyword} {jump : Stmt} (kind : cursor.peek.kind = .keyword word)
      (made : word.jump? = some jump) (ended : terminator cursor.advance = .ok () after) :
      Forms (.begun jump) cursor.rest after.rest := by
    have innerClosed := closed_advance closed (by simp [kind])
    rw [rest_eq_cons closed]
    exact .jump kind made ((terminator_gives_iff innerClosed).mp ⟨after, ended, rfl⟩)
  have declares (word : cursor.peek.kind.declares = true) {declared : Declaration} {middle : Cursor}
      (declaredRead : Parser.declaration cursor = .ok declared middle)
      (ended : terminator middle = .ok () after) :
      Forms (.begun (.declare declared)) cursor.rest after.rest := by
    have declares := (declaration_gives_iff closed word).mp ⟨middle, declaredRead, rfl⟩
    have middleClosed := declares.passes.closed closed
    exact .declare declares ((terminator_gives_iff middleClosed).mp ⟨after, ended, rfl⟩)
  cases kind : cursor.peek.kind with
  | symbol sign =>
      cases sign with
      | semicolon =>
          simp [kind] at ran
          obtain ⟨⟨_, ended⟩, rfl⟩ := ran
          exact .noop (here ▸ kind) ((terminator_gives_iff closed).mp ⟨after, ended, rfl⟩)
      | leftBrace =>
          simp only [kind] at ran
          obtain ⟨body, inside, rfl⟩ :=
            (blockFrom_agrees agrees closed short kind).mp ⟨after, ran, rfl⟩
          rw [rest_eq_cons closed]
          exact .block kind inside
      | _ =>
          simp only [kind] at ran
          exact simple ran
  | keyword word =>
      simp only [kind] at ran
      cases word with
      | var_ | globalvar_ =>
          simp at ran
          obtain ⟨declared, middle, declaredRead, ⟨_, ended⟩, rfl⟩ := ran
          exact declares (by simp [kind, TokenKind.declares]) declaredRead ended
      | if_ => exact branchFrom_sound agrees closed short kind ran
      | do_ => exact doLoopFrom_sound agrees closed short kind ran
      | for_ => exact forLoopFrom_sound agrees closed short kind ran
      | repeat_ | while_ | until_ | with_ =>
          exact headedFrom_sound agrees closed short kind (by simp) ran
      | break_ | continue_ | exit_ =>
          simp at ran
          obtain ⟨⟨_, ended⟩, rfl⟩ := ran
          exact jumps kind rfl ended
      | return_ =>
          simp at ran
          obtain ⟨value, returned, rfl⟩ := ran
          have innerClosed := closed_advance closed (by simp [kind])
          rw [rest_eq_cons closed]
          exact .ret kind ((returned_gives_iff innerClosed).mp ⟨after, returned, rfl⟩)
      | _ => exact simple ran
  | _ =>
      simp only [kind] at ran
      exact simple ran

theorem begunFrom_of_startsLeaf (leaf : cursor.peek.kind.startsLeaf = true)
    (ran : Parser.simple cursor = .ok read after) :
    (begunFrom statement cursor).2 = .ok read after := by
  simp only [begunFrom, bind_ok_iff, lift_snd, Parser.peek_ok_iff]
  refine ⟨_, _, ⟨rfl, rfl⟩, ?_⟩
  rw [← noted_ok_iff] at ran
  cases kind : cursor.peek.kind with
  | symbol sign =>
      rw [kind] at leaf
      cases sign with
      | semicolon | leftBrace => simp [TokenKind.startsLeaf, Symbol.unaryOp?] at leaf
      | _ => exact ran
  | keyword => simp [kind, TokenKind.startsLeaf] at leaf
  | _ => exact ran

theorem branchFrom_complete (agrees : Agrees bound statement) (closed : Closed cursor.rest)
    (short : cursor.rest.length ≤ bound + 1) {test : Expr} {yes no : Stmt}
    {first second : List Token} (found : cursor.peek.kind = .keyword .if_)
    (tests : Reads (.value (.paren test)) cursor.advance.rest first)
    (yesForms : Forms (.statement yes) first second)
    (noForms : no = .hole ∧ headKind (skipEnds second) ≠ .keyword .else_ ∧ second = rest ∨
      ∃ other third, skipEnds second = other :: third ∧ other.kind = .keyword .else_ ∧
        Forms (.statement no) third rest) :
    ∃ after, (branchFrom statement cursor).2 = .ok (.branch test yes no) after ∧
      after.rest = rest := by
  have advanced := length_advance closed
  have innerClosed := closed_advance closed (by simp [found])
  obtain ⟨firstAfter, tested, rfl⟩ := (parenthesized_gives_iff innerClosed).mpr tests
  have firstClosed := tests.passes.closed innerClosed
  have firstShort := tests.passes.length_le
  obtain ⟨secondAfter, yesRan, rfl⟩ := (agrees firstClosed (by omega)).mpr yesForms
  have secondClosed := yesForms.passes.closed firstClosed
  have secondShort := yesForms.passes.length_le
  have ahead := kind_skipLineEnds secondClosed
  rcases noForms with ⟨rfl, noElse, rfl⟩ | ⟨other, third, shape, otherwise, noForms⟩
  · refine ⟨secondAfter, branchFrom_ok_iff.mpr
      ⟨test, firstAfter, tested, yes, secondAfter, yesRan, .hole, ?_, rfl⟩, rfl⟩
    simp [elseFrom, ahead, noElse]
  · rw [skipEnds_eq_cons secondClosed] at shape
    obtain ⟨rfl, rfl⟩ := List.cons.inj shape
    have skipped := length_skipLineEnds secondAfter
    have elseAdvanced := length_advance (closed_skipLineEnds secondClosed)
    have elseClosed := closed_advance (closed_skipLineEnds secondClosed) (by simp [otherwise])
    obtain ⟨after, noRan, rfl⟩ := (agrees elseClosed (by omega)).mpr noForms
    refine ⟨after, branchFrom_ok_iff.mpr
      ⟨test, firstAfter, tested, yes, secondAfter, yesRan, no, ?_, rfl⟩, rfl⟩
    simp [elseFrom, otherwise, noRan]

theorem doLoopFrom_complete (agrees : Agrees bound statement) (closed : Closed cursor.rest)
    (short : cursor.rest.length ≤ bound + 1) {kind : LoopKind} {test : Expr} {body : Stmt}
    {first : List Token} (found : cursor.peek.kind = .keyword .do_)
    (bodyForms : Forms (.statement body) cursor.advance.rest first)
    (tails : Tails kind test first rest) :
    ∃ after, (doLoopFrom statement cursor).2 = .ok (.loop kind test body) after ∧
      after.rest = rest := by
  have advanced := length_advance closed
  have innerClosed := closed_advance closed (by simp [found])
  obtain ⟨middle, bodyRan, rfl⟩ := (agrees innerClosed (by omega)).mpr bodyForms
  obtain ⟨after, tailRan, rfl⟩ :=
    (loopTail_gives_iff (bodyForms.passes.closed innerClosed)).mpr tails
  exact ⟨after, doLoopFrom_ok_iff.mpr ⟨body, middle, bodyRan, kind, test, tailRan, rfl⟩, rfl⟩

theorem headedFrom_complete {keyword : Keyword} (agrees : Agrees bound statement)
    (closed : Closed cursor.rest) (short : cursor.rest.length ≤ bound + 1) {head : Expr}
    {body : Stmt} {first : List Token} (found : cursor.peek.kind = .keyword keyword)
    (heads : keyword ∈ [.repeat_, .while_, .until_, .with_])
    (reads : Reads (.value (.paren head)) cursor.advance.rest first)
    (bodyForms : Forms (.statement body) first rest) (made : keyword.headed? head body = some read) :
    ∃ after, (headedFrom statement cursor).2 = .ok read after ∧ after.rest = rest := by
  have advanced := length_advance closed
  have innerClosed := closed_advance closed (by simp [found])
  obtain ⟨middle, headRead, rfl⟩ := (parenthesized_gives_iff innerClosed).mpr reads
  have bodyShort := reads.passes.length_le
  obtain ⟨after, bodyRan, rfl⟩ :=
    (agrees (reads.passes.closed innerClosed) (by omega)).mpr bodyForms
  exact ⟨after, (headedFrom_ok_iff found heads).mpr ⟨head, middle, headRead, body, bodyRan, made⟩,
    rfl⟩

theorem forLoopFrom_complete (agrees : Agrees bound statement) (closed : Closed cursor.rest)
    (short : cursor.rest.length ≤ bound + 1) {opening closing : Token} {init update body : Stmt}
    {test : Option Expr} {tokens first second third fourth fifth sixth : List Token}
    (found : cursor.peek.kind = .keyword .for_) (start : cursor.advance.rest = opening :: tokens)
    (opens : opening.kind = .symbol .leftParen)
    (inits : Clauses true init (skipEnds tokens) first) (divides : Divides first second)
    (tests : Tests test second third) (dividesAgain : Divides third fourth)
    (updates : Updates update fourth fifth) (shape : skipEnds fifth = closing :: sixth)
    (closes : closing.kind = .symbol .rightParen) (bodyForms : Forms (.statement body) sixth rest) :
    ∃ after, (forLoopFrom statement cursor).2 = .ok (.forLoop init test update body) after ∧
      after.rest = rest := by
  have advanced := length_advance closed
  have parenClosed := closed_advance closed (by simp [found])
  have opened := length_advance parenClosed
  have paren := peek_of_rest start
  have innerClosed := closed_advance parenClosed (by simp [paren, opens])
  have initClosed := closed_skipLineEnds innerClosed
  rw [← rest_advance start, ← rest_skipLineEnds] at inits
  have initShort := length_skipLineEnds cursor.advance.advance
  have header := inits.passes.trans (divides.passes.trans (tests.passes.trans
    (dividesAgain.passes.trans updates.passes)))
  have headerShort := header.length_le
  have firstBare : (headKind first).assignOp? = none := by
    cases divides with
    | semicolon shape found =>
        exact assignOp?_eq_none_of_skipEnds (by simp [shape, headKind, found]; rfl)
  have fifthBare : (headKind fifth).assignOp? = none :=
    assignOp?_eq_none_of_skipEnds (by simp [shape, headKind, closes]; rfl)
  obtain ⟨firstAfter, initRead, rfl⟩ := (clause_gives_iff initClosed firstBare).mpr inits
  have firstClosed := inits.passes.closed initClosed
  obtain ⟨secondAfter, divided, rfl⟩ := (separator_gives_iff firstClosed).mpr divides
  have secondClosed := divides.passes.closed firstClosed
  obtain ⟨thirdAfter, testRead, rfl⟩ := (forTest_gives_iff secondClosed).mpr tests
  have thirdClosed := tests.passes.closed secondClosed
  obtain ⟨fourthAfter, dividedAgain, rfl⟩ := (separator_gives_iff thirdClosed).mpr dividesAgain
  have fourthClosed := dividesAgain.passes.closed thirdClosed
  obtain ⟨fifthAfter, updateRead, rfl⟩ := (forUpdate_gives_iff fourthClosed fifthBare).mpr updates
  have fifthClosed := updates.passes.closed fourthClosed
  rw [skipEnds_eq_cons fifthClosed] at shape
  obtain ⟨rfl, rfl⟩ := List.cons.inj shape
  have closingShort := length_skipLineEnds fifthAfter
  have bodyShort := length_advance (closed_skipLineEnds fifthClosed)
  have bodyClosed := closed_advance (closed_skipLineEnds fifthClosed) (by simp [closes])
  obtain ⟨after, bodyRan, rfl⟩ := (agrees bodyClosed (by omega)).mpr bodyForms
  exact ⟨after, forLoopFrom_ok_iff.mpr ⟨paren ▸ opens, init, firstAfter, initRead, (), secondAfter,
    divided, test, thirdAfter, testRead, (), fourthAfter, dividedAgain, update, fifthAfter,
    updateRead, closes, body, bodyRan, rfl⟩, rfl⟩

theorem begunFrom_complete (agrees : Agrees bound statement) (closed : Closed cursor.rest)
    (short : cursor.rest.length ≤ bound + 1) (forms : Forms (.begun read) cursor.rest rest) :
    ∃ after, (begunFrom statement cursor).2 = .ok read after ∧ after.rest = rest := by
  have here := kind_peek closed
  have shape := rest_eq_cons closed
  have leaf : ∀ {value : Expr} {middle : List Token},
      Reads (.binary Precedence.pipe value) cursor.rest middle → cursor.peek.kind.startsLeaf = true :=
    fun reads => here ▸ reads.startsLeaf
  generalize whole : cursor.rest = tokens at forms
  -- The first token of the form decides which production is tried.
  cases forms with
  | noop empty ends =>
      subst whole
      obtain ⟨after, ended, rfl⟩ := (terminator_gives_iff closed).mpr ends
      exact ⟨after, by simp [begunFrom, here, empty, ended], rfl⟩
  | block opens inside =>
      obtain ⟨rfl, rfl⟩ := List.cons.inj (shape.symm.trans whole)
      obtain ⟨after, ran, rfl⟩ := (blockFrom_agrees agrees closed short opens).mpr ⟨_, inside, rfl⟩
      exact ⟨after, by simp [begunFrom, opens, ran], rfl⟩
  | declare declares ends =>
      subst whole
      have word : cursor.peek.kind.declares = true := here ▸ declares.declares_headKind
      obtain ⟨middle, declared, rfl⟩ := (declaration_gives_iff closed word).mpr declares
      obtain ⟨after, ended, rfl⟩ :=
        (terminator_gives_iff (declares.passes.closed closed)).mpr ends
      simp only [TokenKind.declares, Bool.or_eq_true, decide_eq_true_eq] at word
      rcases word with word | word
      · exact ⟨after, by simp [begunFrom, word, declared, ended], rfl⟩
      · exact ⟨after, by simp [begunFrom, word, declared, ended], rfl⟩
  | branch found tests yesForms noElse =>
      obtain ⟨rfl, rfl⟩ := List.cons.inj (shape.symm.trans whole)
      obtain ⟨after, ran, rfl⟩ := branchFrom_complete agrees closed short found tests yesForms
        (Or.inl ⟨rfl, noElse, rfl⟩)
      exact ⟨after, by simp [begunFrom, found, ran], rfl⟩
  | branchElse found tests yesForms ahead otherwise noForms =>
      obtain ⟨rfl, rfl⟩ := List.cons.inj (shape.symm.trans whole)
      obtain ⟨after, ran, rfl⟩ := branchFrom_complete agrees closed short found tests yesForms
        (Or.inr ⟨_, _, ahead, otherwise, noForms⟩)
      exact ⟨after, by simp [begunFrom, found, ran], rfl⟩
  | doLoop found bodyForms tails =>
      obtain ⟨rfl, rfl⟩ := List.cons.inj (shape.symm.trans whole)
      obtain ⟨after, ran, rfl⟩ := doLoopFrom_complete agrees closed short found bodyForms tails
      exact ⟨after, by simp [begunFrom, found, ran], rfl⟩
  | @headed _ keyword _ _ _ _ _ _ found heads bodyForms made =>
      obtain ⟨rfl, rfl⟩ := List.cons.inj (shape.symm.trans whole)
      cases keyword with
      | repeat_ | with_ | while_ | until_ =>
          obtain ⟨after, ran, rfl⟩ :=
            headedFrom_complete agrees closed short found (by simp) heads bodyForms made
          exact ⟨after, by simp [begunFrom, found, ran], rfl⟩
      | _ => simp [Keyword.headed?] at made
  | forLoop found opens inits divides tests dividesAgain updates ahead closes bodyForms =>
      obtain ⟨rfl, start⟩ := List.cons.inj (shape.symm.trans whole)
      obtain ⟨after, ran, rfl⟩ := forLoopFrom_complete agrees closed short found start opens inits
        divides tests dividesAgain updates ahead closes bodyForms
      exact ⟨after, by simp [begunFrom, found, ran], rfl⟩
  | @jump _ keyword _ _ _ found made ends =>
      obtain ⟨rfl, rfl⟩ := List.cons.inj (shape.symm.trans whole)
      have innerClosed := closed_advance closed (by simp [found])
      obtain ⟨after, ended, rfl⟩ := (terminator_gives_iff innerClosed).mpr ends
      cases keyword with
      | break_ | continue_ | exit_ =>
          cases made
          exact ⟨after, by simp [begunFrom, found, ended], rfl⟩
      | _ => simp [Keyword.jump?] at made
  | ret found returns =>
      obtain ⟨rfl, rfl⟩ := List.cons.inj (shape.symm.trans whole)
      have innerClosed := closed_advance closed (by simp [found])
      obtain ⟨after, returned, rfl⟩ := (returned_gives_iff innerClosed).mpr returns
      exact ⟨after, by simp [begunFrom, found, returned], rfl⟩
  | expr reads ends =>
      subst whole
      obtain ⟨after, ran, rfl⟩ := (simple_gives_iff closed).mpr (Or.inl ⟨_, _, reads, ends, rfl⟩)
      exact ⟨after, begunFrom_of_startsLeaf (leaf reads) ran, rfl⟩
  | assign assigns ends =>
      subst whole
      obtain ⟨after, ran, rfl⟩ := (simple_gives_iff closed).mpr (Or.inr ⟨_, _, assigns, ends, rfl⟩)
      have named : cursor.peek.kind.startsLeaf = true := by
        rw [here, assigns.headKind_eq]
        rfl
      exact ⟨after, begunFrom_of_startsLeaf named ran, rfl⟩

end Nested

theorem statementFrom_ok_iff {fuel : Nat} {cursor after : Cursor} {read : Stmt} :
    (statementFrom (fuel + 1) cursor).2 = .ok read after ↔
      (begunFrom (statementFrom fuel) cursor.skipBlank).2 = .ok read after := by
  simp [statementFrom]

theorem statementFrom_agrees (bound : Nat) : Agrees bound (statementFrom (bound + 1)) := by
  induction bound with
  | zero =>
      intro cursor read rest closed short
      have advanced := length_advance closed
      omega
  | succ bound ih =>
      intro cursor read rest closed short
      have blankClosed := closed_skipBlank closed
      have blankShort := Nat.le_trans (length_skipBlank cursor) short
      constructor
      · rintro ⟨after, ran, rfl⟩
        have forms := begunFrom_sound ih blankClosed blankShort (statementFrom_ok_iff.mp ran)
        rw [rest_skipBlank] at forms
        exact .statement forms
      · rintro ⟨forms⟩
        rw [← rest_skipBlank] at forms
        obtain ⟨after, ran, rfl⟩ := begunFrom_complete ih blankClosed blankShort forms
        exact ⟨after, statementFrom_ok_iff.mpr ran, rfl⟩

/-- The parser reads exactly the statements of the grammar. -/
theorem statement_gives_iff {cursor : Cursor} {read : Stmt} {rest : List Token}
    (closed : Closed cursor.rest) :
    (∃ after, (statement cursor).2 = .ok read after ∧ after.rest = rest) ↔
      Forms (.statement read) cursor.rest rest :=
  statementFrom_agrees cursor.rest.length closed (Nat.le_refl _)

end NotingParser

end GameScript
