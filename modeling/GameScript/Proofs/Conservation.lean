import GameScript.Proofs.ScriptLayout
import GameScript.Proofs.Spending

/-!
Parsing conserves the program: of the tokens that are accepted, those that programs are made of are
the tokens of the script, one by one and in order.
-/

namespace GameScript

namespace Stmt

mutual

def yield : Stmt → List Mark
  | branch test yes no =>
      .keyword .if_ :: ((Expr.paren test).marks ++ (yes.yield ++
        if no.isHole then [] else .keyword .else_ :: no.yield))
  | loop kind test body =>
      let head := .keyword kind.word :: (Expr.paren test).marks
      if testsFirst kind then head ++ body.yield else .keyword .do_ :: (body.yield ++ head)
  | repeats count body => .keyword .repeat_ :: ((Expr.paren count).marks ++ body.yield)
  | withTarget target body => .keyword .with_ :: ((Expr.paren target).marks ++ body.yield)
  | forLoop init test update body =>
      .keyword .for_ :: .symbol .leftParen :: (init.yield ++ (optionalMarks test ++
        (update.yield ++ .symbol .rightParen :: body.yield)))
  | block body => .symbol .leftBrace :: (yieldAll body ++ [.symbol .rightBrace])
  | line => line.lineMarks

def yieldAll : List Stmt → List Mark
  | [] => []
  | first :: others => first.yield ++ yieldAll others

end

end Stmt

/-- The tokens of a script, without semicolons and doc comments. -/
def Script.yield (script : Script) : List Mark :=
  script.args.flatMap Argument.marks ++ Stmt.yieldAll script.body

/-! The parts of statements. -/

section Parts

variable {tokens rest : List Token}

theorem Spends.name {marks : List Mark} {token : Token} (named : token.kind = .ident)
    (spends : Spends TokenKind.isCode marks tokens rest) :
    Spends TokenKind.isCode (.name token.lit :: marks) (token :: tokens) rest :=
  spends.cons ⟨named, rfl⟩ (by rw [named]; rfl)

theorem Spends.skipBlanks (tokens : List Token) :
    Spends TokenKind.isCode [] tokens (skipBlanks tokens) := by
  refine dropWhile ?_ tokens
  intro token blank
  obtain lineEnd | doc : token.kind = .lineEnd ∨ token.kind = .docComment := by simpa using blank
  · rw [lineEnd]
    rfl
  · rw [doc]
    rfl

theorem Ends.spends (ends : Ends tokens rest) : Spends TokenKind.isCode [] tokens rest := by
  have semicolon {token : Token} (found : token.kind = .symbol .semicolon) :
      token.kind.isCode = false := by rw [found]; rfl
  have lineEnd {token : Token} (breaks : token.kind = .lineEnd) : token.kind.isCode = false := by
    rw [breaks]; rfl
  cases ends with
  | line found breaks => exact ((Spends.refl rest).skip (lineEnd breaks)).skip (semicolon found)
  | semicolon found => exact (Spends.refl rest).skip (semicolon found)
  | lineEnd breaks => exact (Spends.refl rest).skip (lineEnd breaks)
  | finish => exact Spends.refl _

theorem MayEnd.spends (mayEnd : MayEnd tokens rest) : Spends TokenKind.isCode [] tokens rest := by
  cases mayEnd with
  | ends ends => exact ends.spends
  | bare => exact Spends.refl _

theorem Divides.spends (divides : Divides tokens rest) :
    Spends TokenKind.isCode [] tokens rest := by
  cases divides with
  | @semicolon _ _ later shape found =>
      refine (Spends.skipEnds sieve_isCode tokens).after ?_
      rw [shape]
      exact (Spends.skipEnds sieve_isCode later).skip (by rw [found]; rfl)

theorem Reads.spends {value : Expr} (reads : Reads (.binary Precedence.pipe value) tokens rest) :
    Spends TokenKind.isCode value.marks tokens rest :=
  reads.spent sieve_isCode

theorem Reads.spends_skipEnds {value : Expr}
    (reads : Reads (.binary Precedence.pipe value) (skipEnds tokens) rest) :
    Spends TokenKind.isCode value.marks tokens rest :=
  (Spends.skipEnds sieve_isCode tokens).after reads.spends

theorem Reads.spends_paren {test : Expr} (reads : Reads (.value (.paren test)) tokens rest) :
    Spends TokenKind.isCode (Expr.paren test).marks tokens rest :=
  reads.spent sieve_isCode

theorem TokenKind.isCode_of_assignOp? {kind : TokenKind} {op : AssignOp}
    (found : kind.assignOp? = some op) : kind.isCode = true := by
  cases kind with
  | symbol sign =>
      cases sign with
      | semicolon => simp [assignOp?, Symbol.assignOp?] at found
      | _ => rfl
  | _ => simp [assignOp?] at found

theorem Spends.assignOp {op : AssignOp} {marks : List Mark} {token : Token}
    (found : token.kind.assignOp? = some op) (spends : Spends TokenKind.isCode marks tokens rest) :
    Spends TokenKind.isCode (.assignOp op :: marks) (token :: tokens) rest :=
  spends.cons found (TokenKind.isCode_of_assignOp? found)

theorem Assigns.spends {assignment : Assignment} (assigns : Assigns assignment tokens rest) :
    Spends TokenKind.isCode assignment.marks tokens rest := by
  cases assigns with
  | step named found =>
      exact ((Spends.refl rest).assignOp found).name named
  | value named found _ reads =>
      exact (reads.spends_skipEnds.assignOp found).name named

theorem Spends.declaring {marks : List Mark} {word : Token} (declares : word.kind.declares = true)
    (spends : Spends TokenKind.isCode marks tokens rest) :
    Spends TokenKind.isCode
      (.keyword (if decide (word.kind = .keyword .globalvar_) then .globalvar_ else .var_) :: marks)
      (word :: tokens) rest := by
  simp only [TokenKind.declares, Bool.or_eq_true, decide_eq_true_eq] at declares
  rcases declares with found | found
  · rw [found]
    exact spends.kind sieve_isCode found rfl
  · rw [found]
    exact spends.kind sieve_isCode found rfl

theorem Declares.spends {declaration : Declaration} (declares : Declares declaration tokens rest) :
    Spends TokenKind.isCode declaration.marks tokens rest := by
  cases declares with
  | bare declares named => exact ((Spends.refl rest).name named).declaring declares
  | valued declares named found reads =>
      exact ((reads.spends_skipEnds.kind sieve_isCode found rfl).name named).declaring declares

theorem Clauses.spends {first : Bool} {clause : Stmt} (clauses : Clauses first clause tokens rest) :
    Spends TokenKind.isCode clause.yield tokens rest := by
  cases clauses with
  | noop => exact Spends.refl _
  | declare _ declares => exact declares.spends
  | assign assigns => exact assigns.spends
  | expr reads => exact reads.spends

theorem Updates.spends {update : Stmt} (updates : Updates update tokens rest) :
    Spends TokenKind.isCode update.yield tokens rest := by
  cases updates with
  | none => exact Spends.refl _
  | clause clauses => exact clauses.spends

theorem Tests.spends {test : Option Expr} (tests : Tests test tokens rest) :
    Spends TokenKind.isCode (optionalMarks test) tokens rest := by
  cases tests with
  | none => exact Spends.refl _
  | some reads => exact reads.spends

theorem Returns.spends {value : Option Expr} (returns : Returns value tokens rest) :
    Spends TokenKind.isCode (optionalMarks value) tokens rest := by
  cases returns with
  | none ends => exact ends.spends
  | some reads ends =>
      have whole := reads.spends.trans ends.spends
      rwa [List.append_nil] at whole

theorem Tails.spends {kind : LoopKind} {test : Expr} (tails : Tails kind test tokens rest) :
    Spends TokenKind.isCode (.keyword kind.word :: (Expr.paren test).marks) tokens rest := by
  obtain ⟨shape, found, loops, reads, ends⟩ := tails
  have head := Spends.ofSkipEnds sieve_isCode shape found rfl
  have whole := head.trans (reads.spends_paren.trans ends.spends)
  rw [List.append_nil] at whole
  rename_i word _ _
  cases word with
  | while_ | until_ =>
      cases loops
      exact whole
  | _ => simp [Keyword.loopKind?] at loops

end Parts

/-! Statements. -/

def Part.Spent (tokens rest : List Token) : Part → Prop
  | .statement read | .begun read => Spends TokenKind.isCode read.yield tokens rest
  | .inside body =>
      Spends TokenKind.isCode (Stmt.yieldAll body ++ [.symbol .rightBrace]) tokens rest

theorem Keyword.yield_of_headed? {keyword : Keyword} {head : Expr} {body read : Stmt}
    (made : keyword.headed? head body = some read) :
    read.yield = .keyword keyword :: ((Expr.paren head).marks ++ body.yield) := by
  cases keyword with
  | repeat_ | with_ | while_ | until_ =>
      cases made
      rfl
  | _ => simp [headed?] at made

theorem Keyword.yield_of_jump? {keyword : Keyword} {read : Stmt}
    (made : keyword.jump? = some read) : read.yield = [.keyword keyword] := by
  cases keyword with
  | break_ | continue_ | exit_ =>
      cases made
      rfl
  | _ => simp [jump?] at made

theorem Spends.ended {marks : List Mark} {tokens middle rest : List Token}
    (spends : Spends TokenKind.isCode marks tokens middle) (ends : Ends middle rest) :
    Spends TokenKind.isCode marks tokens rest := by
  have whole := spends.trans ends.spends
  rwa [List.append_nil] at whole

theorem Forms.spent {part : Part} {tokens rest : List Token} (forms : Forms part tokens rest) :
    part.Spent tokens rest := by
  induction forms with
  | statement _ begun => exact (Spends.skipBlanks _).after begun
  | noop _ ends => exact ends.spends
  | block opens _ inside => exact inside.kind sieve_isCode opens rfl
  | declare declares ends => exact declares.spends.ended ends
  | branch found tests _ _ yes =>
      have whole := (tests.spends_paren.trans yes).kind sieve_isCode found rfl
      simpa [Part.Spent, Stmt.yield, Stmt.isHole, Mark.keyword] using whole
  | branchElse found tests _ shape otherwise noForms yes no =>
      have other := (Spends.ofSkipEnds sieve_isCode shape otherwise rfl).trans no
      have whole := (tests.spends_paren.trans (yes.trans other)).kind sieve_isCode found rfl
      simpa [Part.Spent, Stmt.yield, noForms.shut.1, Mark.keyword] using whole
  | doLoop found _ tails body =>
      have whole := (body.trans tails.spends).kind sieve_isCode found rfl
      obtain ⟨_, _, loops, _, _⟩ := tails
      simpa [Part.Spent, Stmt.yield, Keyword.testsFirst_of_loopKind? loops, Mark.keyword]
        using whole
  | headed found heads _ made body =>
      have whole := (heads.spends_paren.trans body).kind sieve_isCode found rfl
      change Spends TokenKind.isCode _ _ _
      rwa [Keyword.yield_of_headed? made]
  | forLoop found opens inits divides tests dividesAgain updates shape closes _ body =>
      have closing := (Spends.ofSkipEnds sieve_isCode shape closes rfl).trans body
      have later := dividesAgain.spends.after (updates.spends.trans closing)
      have middle := divides.spends.after (tests.spends.trans later)
      have header := (Spends.skipEnds sieve_isCode _).after (inits.spends.trans middle)
      exact (header.kind sieve_isCode opens rfl).kind sieve_isCode found rfl
  | jump found made ends =>
      change Spends TokenKind.isCode _ _ _
      rw [Keyword.yield_of_jump? made]
      exact ends.spends.kind sieve_isCode found rfl
  | ret found returns => exact returns.spends.kind sieve_isCode found rfl
  | expr reads ends => exact reads.spends.ended ends
  | assign assigns ends => exact assigns.spends.ended ends
  | close shape closes =>
      refine (Spends.skipBlanks _).after ?_
      rw [shape]
      exact (Spends.refl _).kind sieve_isCode closes rfl
  | inside _ _ first others =>
      have whole := first.trans others
      simpa [Part.Spent, Stmt.yieldAll] using whole

/-! Scripts. -/

theorem Docs.spends {lines : List String} {tokens rest : List Token}
    (docs : Docs lines tokens rest) :
    Spends TokenKind.isCode [] tokens rest := by
  induction docs with
  | done => exact Spends.refl _
  | line found _ others =>
      exact ((Spends.skipEnds sieve_isCode _).after others).skip (by rw [found]; rfl)

theorem Takes.spends {argument : Argument} {tokens rest : List Token}
    (takes : Takes argument tokens rest) :
    Spends TokenKind.isCode argument.marks tokens rest := by
  cases takes with
  | one found named passed =>
      cases passed with
      | required ends => exact (ends.spends.name named).kind sieve_isCode found rfl
      | optional isQuestion ends =>
          have name := (ends.spends.kind sieve_isCode isQuestion rfl).name named
          exact name.kind sieve_isCode found rfl
      | defaulted isEquals reads ends =>
          have value := (reads.spends.ended ends).kind sieve_isCode isEquals rfl
          exact (value.name named).kind sieve_isCode found rfl
  | variadic found ellipsis named ends =>
      exact ((ends.spends.name named).kind sieve_isCode ellipsis rfl).kind sieve_isCode found rfl

theorem TakesAll.spends {args : List Argument} {tokens rest : List Token}
    (takesAll : TakesAll args tokens rest) :
    Spends TokenKind.isCode (args.flatMap Argument.marks) tokens rest := by
  induction takesAll with
  | done => exact Spends.refl _
  | last takes => simpa using takes.spends.trans (Spends.skipEnds sieve_isCode _)
  | more takes _ _ others =>
      rw [List.flatMap_cons]
      exact takes.spends.trans ((Spends.skipEnds sieve_isCode _).after others)

theorem Lists.spends {body : List Stmt} {tokens : List Token} (lists : Lists body tokens) :
    ∃ rest, Spends TokenKind.isCode (Stmt.yieldAll body) tokens rest ∧ headKind rest = .finish := by
  induction lists with
  | finish closes => exact ⟨_, Spends.skipEnds sieve_isCode _, closes⟩
  | docs _ docs _ others =>
      obtain ⟨rest, spends, closes⟩ := others
      exact ⟨rest, (Spends.skipEnds sieve_isCode _).after (docs.spends.after spends), closes⟩
  | statement _ forms _ others =>
      obtain ⟨rest, spends, closes⟩ := others
      exact ⟨rest, (Spends.skipEnds sieve_isCode _).after (forms.spent.trans spends), closes⟩

theorem ReadsScript.spends {script : Script} {tokens : List Token}
    (reads : ReadsScript script tokens) :
    ∃ rest, Spends TokenKind.isCode script.yield tokens rest ∧ headKind rest = .finish := by
  obtain ⟨_, _, docs, takesAll, lists⟩ := reads
  obtain ⟨rest, spends, closes⟩ := lists.spends
  refine ⟨rest, (Spends.skipEnds sieve_isCode tokens).after ?_, closes⟩
  exact docs.spends.after (takesAll.spends.trans spends)

theorem Spends.afterStart (tokens : List Token) :
    Spends TokenKind.isCode [] tokens (afterStart tokens) := by
  unfold GameScript.afterStart
  split_ifs with start
  · cases tokens with
    | nil => exact refl []
    | cons token rest => exact (refl rest).skip (by rw [show token.kind = .start from start]; rfl)
  · exact refl tokens

theorem not_isCode_of_closing {tokens used rest : List Token} {last : Token}
    (inner : ∀ token ∈ tokens, token.kind ≠ .finish) (split : tokens ++ [last] = used ++ rest)
    (closes : headKind rest = .finish) : rest.filter (·.kind.isCode) = [] := by
  cases rest with
  | nil => rfl
  | cons token more =>
      have closing : token.kind = .finish := closes
      rcases List.eq_nil_or_concat more with rfl | ⟨later, final, rfl⟩
      · simp [closing, TokenKind.isCode]
      · have same : tokens ++ [last] = (used ++ token :: later) ++ [final] := by simpa using split
        have early : tokens = used ++ token :: later := (List.append_inj' same rfl).1
        exact absurd closing (inner token (by simp [early]))

/-- Parsing neither drops nor invents nor moves a token of the program. -/
theorem accepted_tokens_yield {tokens : List Token} {last : Token} {script : Script}
    (inner : ∀ token ∈ tokens, token.kind ≠ .finish) (ends : last.kind = .finish)
    (accepted : (parseTokens (tokens ++ [last])).2 = .ok script) :
    Fit script.yield ((tokens ++ [last]).filter (·.kind.isCode)) := by
  have reads := (parseTokens_iff ⟨tokens, last, rfl, ends⟩).mp accepted
  obtain ⟨rest, spends, closes⟩ := reads.spends
  obtain ⟨used, split, fit⟩ := (Spends.afterStart _).after spends
  rw [split, List.filter_append, not_isCode_of_closing inner split closes, List.append_nil]
  exact fit

/-- An argument with a default, a loop that tests last, a loop with an empty header, and an `else`
on a line of its own with nothing to do. -/
theorem accepted_tokens_yield_loops :
    let word (text : String) : Token := ⟨.ident, text, Position.first⟩
    let sign (symbol : Symbol) : Token := ⟨.symbol symbol, "", Position.first⟩
    let keyword (keyword : Keyword) : Token := ⟨.keyword keyword, "", Position.first⟩
    let lineEnd : Token := ⟨.lineEnd, "", Position.first⟩
    let argument := [keyword .argument_, word "a", sign .assign, ⟨.decimal, "1", Position.first⟩]
    let loop := [keyword .do_, sign .leftBrace, word "x", sign .increment]
    let tail := [sign .rightBrace, keyword .until_, sign .leftParen, word "x", sign .rightParen]
    let branch := [keyword .if_, sign .leftParen, word "a", sign .rightParen, word "f",
      sign .leftParen, sign .rightParen]
    let tokens := [Token.first, ⟨.docComment, " text", Position.first⟩, lineEnd] ++ argument ++
      [lineEnd, lineEnd] ++ loop ++ [sign .semicolon, lineEnd] ++ tail ++
      [sign .semicolon, lineEnd, keyword .for_, sign .leftParen, sign .semicolon, lineEnd,
        sign .semicolon, sign .rightParen, sign .semicolon] ++
      branch ++ [lineEnd, keyword .else_, sign .semicolon]
    (∀ token ∈ tokens, token.kind ≠ .finish) ∧
    ∃ script, (parseTokens (tokens ++ [Token.closing])).2 = .ok script ∧
      Fit script.yield (argument ++ loop ++ tail ++
        [keyword .for_, sign .leftParen, sign .rightParen] ++ branch ++ [keyword .else_]) := by
  intro word sign keyword lineEnd argument loop tail branch tokens
  have inner : ∀ token ∈ tokens, token.kind ≠ .finish := by decide
  have accepted : (parseTokens (tokens ++ [Token.closing])).2.isOk = true := by decide +kernel
  cases read : (parseTokens (tokens ++ [Token.closing])).2 with
  | error failure =>
      rw [read] at accepted
      contradiction
  | ok script => exact ⟨inner, script, rfl, accepted_tokens_yield inner rfl read⟩

end GameScript
