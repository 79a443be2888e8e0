import GameScript.Proofs.Outcome
import GameScript.Proofs.Spending

/-!
Precedence climbing accepts exactly the expressions that are ranked: on tokens without line ends, an
expression is read if and only if the tokens are its own and its operators stand in the order of
their strengths.
-/

namespace GameScript

namespace Expr

def unpiped : Expr → Bool
  | binary _ left _ | ternary left _ _ => left.unpiped
  | pipe _ _ _ => false
  | _ => true

/-- What may stand on the left of a binary operator: a leaf, a pipe, or an operator that binds at
least as strongly. -/
def leads (op : BinaryOp) : Expr → Bool
  | binary inner _ _ => Precedence.ofBinary op ≤ Precedence.ofBinary inner
  | pipe _ _ _ => true
  | whole => whole.isLeaf

/-- What may stand on the right of a binary operator: a leaf, or an operator that binds more
strongly, with no pipe on its left edge. -/
def follows (op : BinaryOp) : Expr → Bool
  | binary inner left _ => Precedence.ofBinary op < Precedence.ofBinary inner && left.unpiped
  | whole => whole.isLeaf

def isTernary : Expr → Bool
  | ternary _ _ _ => true
  | _ => false

inductive Ranked : Expr → Prop where
  | binary {op : BinaryOp} {left right : Expr} (known : op ≠ .unknown) (leftRanked : Ranked left)
      (rightRanked : Ranked right) (leads : left.leads op = true)
      (follows : right.follows op = true) : Ranked (.binary op left right)
  | ternary {test yes no : Expr} (testRanked : Ranked test) (yesRanked : Ranked yes)
      (noRanked : Ranked no) (plain : test.isTernary = false) : Ranked (.ternary test yes no)
  | pipe {input : Expr} {name : String} {args : List Expr} (inputRanked : Ranked input)
      (argsRanked : ∀ arg ∈ args, Ranked arg) (plain : input.isTernary = false) :
      Ranked (.pipe input name args)
  | paren {inner : Expr} (innerRanked : Ranked inner) : Ranked (.paren inner)
  | call {name : String} {args : List Expr} (argsRanked : ∀ arg ∈ args, Ranked arg) :
      Ranked (.call name args)
  | ident {name : String} : Ranked (.ident name)
  | unary {op : UnaryOp} {operand : Expr} (leaf : operand.isLeaf = true)
      (operandRanked : Ranked operand) : Ranked (.unary op operand)
  | literal {value : Literal} : Ranked (.literal value)

theorem lt_reach_of_leads {op : BinaryOp} {left : Expr} (leads : left.leads op = true) :
    Precedence.ofBinary op < left.reach := by
  have bound := Precedence.ofBinary_lt_value op
  cases left with
  | binary inner =>
      have stronger : Precedence.ofBinary op ≤ Precedence.ofBinary inner := by
        simpa [Expr.leads] using leads
      simp only [reach]
      omega
  | ternary | hole => simp [Expr.leads, isLeaf] at leads
  | pipe | paren | call | ident | unary | literal => exact bound

/-- What may stand on the right of an operator has only stronger ones on its left edge. The
operators there get stronger from the root to the leaf, up to a pipe. -/
theorem Ranked.lt_floor {op : BinaryOp} {right : Expr} (ranked : right.Ranked)
    (follows : right.follows op = true) : Precedence.ofBinary op < right.floor := by
  have bound := Precedence.ofBinary_lt_value op
  induction ranked with
  | @binary inner left _ _ _ _ leads _ leftFloor =>
      obtain ⟨stronger, unpiped⟩ :
          Precedence.ofBinary op < Precedence.ofBinary inner ∧ left.unpiped = true := by
        simpa [Expr.follows] using follows
      have leftFollows : left.follows op = true := by
        cases left with
        | binary next =>
            have nextStronger : Precedence.ofBinary inner ≤ Precedence.ofBinary next := by
              simpa [Expr.leads] using leads
            have above : Precedence.ofBinary op < Precedence.ofBinary next := by omega
            simpa [Expr.follows, above, Expr.unpiped] using unpiped
        | pipe => simp [Expr.unpiped] at unpiped
        | ternary | hole => simp [Expr.leads, isLeaf] at leads
        | paren | call | ident | unary | literal => rfl
      have above := leftFloor leftFollows
      simp only [floor]
      omega
  | ternary | pipe => simp [Expr.follows, isLeaf] at follows
  | paren | call | ident | unary | literal => exact bound

theorem unpiped_of_floor {whole : Expr} (strong : Precedence.ternary < whole.floor) :
    whole.unpiped = true := by
  fun_induction unpiped whole with
  | case1 op left right ih => exact ih (Nat.lt_min.mp strong).1
  | case2 test yes no ih => exact ih (Nat.lt_min.mp strong).1
  | case3 input name args =>
      have weak := (Nat.lt_min.mp strong).2
      simp [Precedence.ternary, Precedence.pipe] at weak
  | case4 => rfl

theorem Canonical.leads {op : BinaryOp} {left : Expr} (canonical : left.Canonical)
    (known : op ≠ .unknown) (ends : Precedence.ofBinary op < left.reach) :
    left.leads op = true := by
  have tight := Precedence.three_le_ofBinary known
  cases canonical with
  | @binary inner =>
      have stronger : Precedence.ofBinary op ≤ Precedence.ofBinary inner := by
        simp only [reach] at ends
        omega
      simpa [Expr.leads] using stronger
  | ternary =>
      simp only [reach, Precedence.pipe] at ends
      omega
  | pipe | paren | call | ident | unary | literal => rfl

theorem Canonical.follows {op : BinaryOp} {right : Expr} (canonical : right.Canonical)
    (known : op ≠ .unknown) (starts : Precedence.ofBinary op < right.floor) :
    right.follows op = true := by
  have tight := Precedence.three_le_ofBinary known
  cases canonical with
  | @binary inner left =>
      obtain ⟨leftStarts, stronger⟩ := Nat.lt_min.mp starts
      have unpiped : left.unpiped = true :=
        unpiped_of_floor (by rw [Precedence.ternary]; omega)
      simp [Expr.follows, stronger, unpiped]
  | ternary =>
      have weak := (Nat.lt_min.mp starts).2
      rw [Precedence.ternary] at weak
      omega
  | pipe =>
      have weak := (Nat.lt_min.mp starts).2
      rw [Precedence.pipe] at weak
      omega
  | paren | call | ident | unary | literal => rfl

theorem Canonical.ternary_lt_reach {whole : Expr} (canonical : whole.Canonical)
    (plain : whole.isTernary = false) : Precedence.ternary < whole.reach := by
  cases canonical with
  | binary known =>
      have tight := Precedence.three_le_ofBinary known
      simp only [reach, Precedence.ternary]
      omega
  | ternary => simp [isTernary] at plain
  | pipe | paren | call | ident | unary | literal =>
      simp [reach, Precedence.ternary, Precedence.value]

theorem isTernary_of_lt_reach {whole : Expr} (ends : Precedence.pipe < whole.reach) :
    whole.isTernary = false := by
  cases whole with
  | ternary => exact absurd ends (Nat.lt_irrefl _)
  | _ => rfl

theorem Ranked.canonical {whole : Expr} (ranked : whole.Ranked) : whole.Canonical := by
  induction ranked with
  | binary known _ rightRanked leads follows left right =>
      exact .binary known left right (lt_reach_of_leads leads) (rightRanked.lt_floor follows)
  | ternary _ _ _ plain test yes no => exact .ternary test yes no (test.ternary_lt_reach plain)
  | pipe _ _ plain input args =>
      exact .pipe input args (Nat.lt_trans (by decide) (input.ternary_lt_reach plain))
  | paren _ inner => exact .paren inner
  | call _ args => exact .call args
  | ident => exact .ident
  | unary leaf _ operand => exact .unary leaf operand
  | literal => exact .literal

theorem Canonical.ranked {whole : Expr} (canonical : whole.Canonical) : whole.Ranked := by
  induction canonical with
  | binary known leftCanonical rightCanonical leftEnds rightStarts left right =>
      exact .binary known left right (leftCanonical.leads known leftEnds)
        (rightCanonical.follows known rightStarts)
  | ternary _ _ _ testEnds test yes no =>
      exact .ternary test yes no (isTernary_of_lt_reach (Nat.lt_trans (by decide) testEnds))
  | pipe _ _ inputEnds input args => exact .pipe input args (isTernary_of_lt_reach inputEnds)
  | paren _ inner => exact .paren inner
  | call _ args => exact .call args
  | ident => exact .ident
  | unary leaf _ operand => exact .unary leaf operand
  | literal => exact .literal

end Expr

theorem sieve_noBreaks : Sieve fun kind => kind ≠ .lineEnd := by
  refine ⟨rfl, ?_⟩
  intro kind isCode
  simp only [decide_eq_true_eq]
  rintro rfl
  exact Bool.noConfusion isCode

section Whole

variable {passed tokens rest : List Token} {last : Token} {whole : Expr}

theorem Parser.expression_ok_iff_reads (closed : Closed rest) :
    Parser.expression ⟨passed, tokens ++ rest, by simp [closed.ne_nil]⟩ =
        .ok whole ⟨tokens.reverse ++ passed, rest, by simp [closed.ne_nil]⟩ ↔
      Reads (.binary Precedence.pipe whole) (tokens ++ rest) rest := by
  have gives : Gives Parser.expression ⟨passed, tokens ++ rest, by simp [closed.ne_nil]⟩ whole rest ↔
      Reads (.binary Precedence.pipe whole) (tokens ++ rest) rest :=
    Parser.expression_gives_iff (closed.append tokens)
  rw [← gives]
  constructor
  · intro ran
    exact ⟨_, ran, rfl⟩
  · rintro ⟨⟨before, rest, inhabited⟩, ran, rfl⟩
    -- The run has passed the tokens that are left out of the rest, and no others.
    have onTokens : (Reply.ok whole ⟨before, rest, inhabited⟩).Over
        (passed.reverse ++ (tokens ++ rest)) fun _ => True := by
      rw [← ran]
      exact Parser.expression_keeps _ rfl
    have same : before.reverse ++ rest = passed.reverse ++ (tokens ++ rest) := onTokens.1
    have taken : before = tokens.reverse ++ passed := by
      rw [← List.append_assoc] at same
      simpa using congrArg List.reverse (List.append_cancel_right same)
    subst taken
    exact ran

theorem reads_iff_ranked (ends : last.kind = .finish)
    (unbroken : ∀ token ∈ tokens, token.kind ≠ .lineEnd) :
    Reads (.binary Precedence.pipe whole) (tokens ++ [last]) [last] ↔
      Fit whole.marks tokens ∧ whole.Ranked := by
  constructor
  · intro reads
    obtain ⟨used, split, fit⟩ := reads.spent sieve_noBreaks
    obtain rfl : tokens = used := List.append_cancel_right split
    rw [List.filter_eq_self.mpr (by simpa using unbroken)] at fit
    exact ⟨fit, (reads.grouped (by decide)).1.ranked⟩
  · rintro ⟨fit, ranked⟩
    exact ranked.canonical.readsBack tokens [last] fit (.ofKind _ ends rfl (by simp))

end Whole

/-- Precedence climbing reads tokens without line ends, up to the closing one, as an expression if
and only if they are the tokens of that expression and it is ranked. So tokens have one ranked
expression at most. -/
theorem expression_ok_iff_ranked {passed tokens : List Token} {last : Token}
    (unbroken : ∀ token ∈ tokens, token.kind ≠ .lineEnd) (ends : last.kind = .finish) :
    (∀ whole : Expr,
      Parser.expression ⟨passed, tokens ++ [last], by simp⟩ =
          .ok whole ⟨tokens.reverse ++ passed, [last], by simp⟩ ↔
        Fit whole.marks tokens ∧ whole.Ranked) ∧
    ∀ whole other : Expr, whole.Ranked → other.Ranked → Fit whole.marks tokens →
      Fit other.marks tokens → whole = other := by
  have accepts : ∀ whole : Expr, Parser.expression ⟨passed, tokens ++ [last], by simp⟩ =
      .ok whole ⟨tokens.reverse ++ passed, [last], by simp⟩ ↔
        Fit whole.marks tokens ∧ whole.Ranked :=
    fun whole => (Parser.expression_ok_iff_reads ⟨[], last, rfl, ends⟩).trans
      (reads_iff_ranked ends unbroken)
  refine ⟨accepts, ?_⟩
  intro whole other wholeRanked otherRanked wholeFit otherFit
  have wholeRead := (accepts whole).mpr ⟨wholeFit, wholeRanked⟩
  have otherRead := (accepts other).mpr ⟨otherFit, otherRanked⟩
  exact (Reply.ok.inj (wholeRead.symm.trans otherRead)).1

/-- `a + b ** c |> f(x) ? y : z || w`. -/
theorem expression_ok_iff_ranked_ternary :
    let word (text : String) : Token := ⟨.ident, text, Position.first⟩
    let sign (symbol : Symbol) : Token := ⟨.symbol symbol, "", Position.first⟩
    let tokens :=
      [word "a", sign .plus, word "b", sign .power, word "c", sign .pipe, word "f", sign .leftParen,
        word "x", sign .rightParen, sign .question, word "y", sign .colon, word "z", sign .logicOr,
        word "w"]
    let sum : Expr := .binary .plus (.ident "a") (.binary .power (.ident "b") (.ident "c"))
    let whole : Expr :=
      .ternary (.pipe sum "f" [.ident "x"]) (.ident "y") (.binary .or (.ident "z") (.ident "w"))
    (∀ token ∈ tokens, token.kind ≠ .lineEnd) ∧ Token.closing.kind = .finish ∧
      Parser.expression ⟨[], tokens ++ [Token.closing], by simp⟩ =
        .ok whole ⟨tokens.reverse ++ [], [Token.closing], by simp⟩ ∧
      Fit whole.marks tokens ∧ whole.Ranked := by
  intro word sign tokens sum whole
  have unbroken : ∀ token ∈ tokens, token.kind ≠ .lineEnd := by decide
  have fit : Fit whole.marks tokens := by
    simp [Fit, whole, sum, tokens, word, sign, Expr.marks, Expr.itemMarks, Expr.moreMarks,
      Mark.Fits, Mark.symbol, TokenKind.operator?, Symbol.operator?]
  have sumRanked : sum.Ranked :=
    .binary (by decide) .ident (.binary (by decide) .ident .ident rfl rfl) rfl rfl
  have ranked : whole.Ranked :=
    .ternary (.pipe sumRanked (by simp [Expr.Ranked.ident]) rfl) .ident
      (.binary (by decide) .ident .ident rfl rfl) rfl
  exact ⟨unbroken, rfl, ((expression_ok_iff_ranked unbroken rfl).1 whole).mpr ⟨fit, ranked⟩, fit,
    ranked⟩

end GameScript
