import GameScript.Proofs.Canonical

/-!
What a phrase takes from the tokens: all of its own, in order, and besides them only tokens that
belong to no program.
-/

namespace GameScript

/-- Kinds of tokens that a program is made of. The others mark the ends of the text, of lines and of
statements, or comment. -/
def TokenKind.isCode : TokenKind → Bool
  | .start | .finish | .lineEnd | .docComment | .symbol .semicolon => false
  | _ => true

/-- The tokens up to the rest fit the marks, apart from those that are not kept. -/
def Spends (keep : TokenKind → Bool) (marks : List Mark) (tokens rest : List Token) : Prop :=
  ∃ used, tokens = used ++ rest ∧ Fit marks (used.filter (keep ·.kind))

structure Sieve (keep : TokenKind → Bool) : Prop where
  breaks : keep .lineEnd = false
  code : ∀ {kind : TokenKind}, kind.isCode = true → keep kind = true

theorem sieve_isCode : Sieve TokenKind.isCode := ⟨rfl, id⟩

namespace Spends

variable {keep : TokenKind → Bool} {mark : Mark} {marks others : List Mark} {token : Token}
  {tokens middle rest : List Token}

theorem refl (tokens : List Token) : Spends keep [] tokens tokens :=
  ⟨[], rfl, .nil⟩

theorem trans (first : Spends keep marks tokens middle) (second : Spends keep others middle rest) :
    Spends keep (marks ++ others) tokens rest := by
  obtain ⟨used, rfl, fit⟩ := first
  obtain ⟨later, rfl, laterFit⟩ := second
  refine ⟨used ++ later, by simp, ?_⟩
  rw [List.filter_append]
  exact fit.append laterFit

theorem after (first : Spends keep [] tokens middle) (second : Spends keep marks middle rest) :
    Spends keep marks tokens rest :=
  first.trans second

theorem cons (fits : mark.Fits token) (kept : keep token.kind = true)
    (spends : Spends keep marks tokens rest) :
    Spends keep (mark :: marks) (token :: tokens) rest := by
  obtain ⟨used, rfl, fit⟩ := spends
  refine ⟨token :: used, rfl, ?_⟩
  rw [List.filter_cons_of_pos (by exact kept)]
  exact Fit.cons fits fit

theorem skip (dropped : keep token.kind = false) (spends : Spends keep marks tokens rest) :
    Spends keep marks (token :: tokens) rest := by
  obtain ⟨used, rfl, fit⟩ := spends
  refine ⟨token :: used, rfl, ?_⟩
  rwa [List.filter_cons_of_neg (by simp [dropped])]

theorem dropWhile {test : Token → Bool}
    (dropped : ∀ token, test token = true → keep token.kind = false) (tokens : List Token) :
    Spends keep [] tokens (tokens.dropWhile test) := by
  induction tokens with
  | nil => exact refl []
  | cons token tokens ih =>
      by_cases passes : test token = true
      · rw [List.dropWhile_cons_of_pos passes]
        exact ih.skip (dropped token passes)
      · rw [List.dropWhile_cons_of_neg passes]
        exact refl _

theorem skipEnds (sieve : Sieve keep) (tokens : List Token) :
    Spends keep [] tokens (skipEnds tokens) := by
  refine dropWhile ?_ tokens
  intro token lineEnd
  rw [of_decide_eq_true lineEnd]
  exact sieve.breaks

theorem kind {kind : TokenKind} (sieve : Sieve keep) (found : token.kind = kind)
    (isCode : kind.isCode = true) (spends : Spends keep marks tokens rest) :
    Spends keep (.kind kind :: marks) (token :: tokens) rest := by
  refine spends.cons found ?_
  rw [found]
  exact sieve.code isCode

theorem ofSkipEnds {kind : TokenKind} (sieve : Sieve keep)
    (shape : GameScript.skipEnds tokens = token :: rest) (found : token.kind = kind)
    (isCode : kind.isCode = true) : Spends keep [.kind kind] tokens rest := by
  refine (skipEnds sieve tokens).after ?_
  rw [shape]
  exact (refl rest).kind sieve found isCode

end Spends

theorem Token.isCode_of_literal {token : Token} {constant : Literal}
    (denotes : token.literal = .ok constant) : token.kind.isCode = true := by
  cases kind : token.kind with
  | start | finish | lineEnd | docComment => simp [Token.literal, kind] at denotes
  | symbol => simp [Token.literal, kind] at denotes
  | _ => rfl

theorem TokenKind.isCode_of_operator? {kind : TokenKind} {operator : Operator}
    (found : kind.operator? = some operator) : kind.isCode = true := by
  cases kind with
  | start | finish | lineEnd | docComment => simp [operator?] at found
  | symbol sign =>
      cases sign with
      | semicolon => simp [operator?, Symbol.operator?] at found
      | _ => rfl
  | _ => rfl

theorem Symbol.isCode_of_unaryOp? {sign : Symbol} {op : UnaryOp} (found : sign.unaryOp? = some op) :
    (TokenKind.symbol sign).isCode = true := by
  cases sign with
  | semicolon => simp [unaryOp?] at found
  | _ => rfl

/-- What a phrase takes. Reading on from an expression adds to the tokens of that expression. -/
def Phrase.Spent (keep : TokenKind → Bool) (tokens rest : List Token) : Phrase → Prop
  | .value whole | .binary _ whole => Spends keep whole.marks tokens rest
  | .climb _ left whole =>
      ∃ marks, whole.marks = left.marks ++ marks ∧ Spends keep marks tokens rest
  | .operation left operator joined =>
      ∃ marks, joined.marks = left.marks ++ .operator operator :: marks ∧
        Spends keep marks tokens rest
  | .call callee args =>
      Spends keep (.name callee :: .symbol .leftParen ::
        (Expr.itemMarks args ++ [.symbol .rightParen])) tokens rest
  | .items args => Spends keep (Expr.itemMarks args) tokens rest
  | .more args => Spends keep (Expr.moreMarks args) tokens rest

theorem Reads.spent {keep : TokenKind → Bool} {phrase : Phrase} {tokens rest : List Token}
    (sieve : Sieve keep) (reads : Reads phrase tokens rest) : phrase.Spent keep tokens rest := by
  have named {token : Token} (found : token.kind = .ident) : keep token.kind = true := by
    rw [found]
    exact sieve.code rfl
  have ends (tokens : List Token) := Spends.skipEnds sieve tokens
  induction reads with
  | @literal _ _ rest denotes =>
      exact (Spends.refl rest).cons denotes (sieve.code (Token.isCode_of_literal denotes))
  | @ident _ rest isName => exact (Spends.refl rest).cons ⟨isName, rfl⟩ (named isName)
  | called _ call => exact call
  | paren opens _ shape closes inner =>
      have last := Spends.ofSkipEnds sieve shape closes rfl
      exact (((ends _).after inner).trans last).kind sieve opens rfl
  | @unary _ sign _ _ _ _ found prefixes _ operand =>
      refine operand.cons ⟨sign, found, prefixes⟩ ?_
      rw [found]
      exact sieve.code (Symbol.isCode_of_unaryOp? prefixes)
  | binary _ _ first climbs =>
      obtain ⟨marks, whole, later⟩ := climbs
      change Spends keep _ _ _
      rw [whole]
      exact first.trans later
  | stop => exact ⟨[], by simp, Spends.refl _⟩
  | @step _ _ operator _ _ _ _ _ _ found _ _ _ operation climbs =>
      -- The operator is taken here, so its mark comes before those of its operand.
      obtain ⟨operand, joined, first⟩ := operation
      obtain ⟨marks, whole, later⟩ := climbs
      refine ⟨.operator operator :: (operand ++ marks), by simp [whole, joined], ?_⟩
      exact (((ends _).after first).trans later).cons found
        (sieve.code (TokenKind.isCode_of_operator? found))
  | pipe _ call => exact ⟨_, rfl, call⟩
  | ternary _ shape isColon _ yes no =>
      have colon := Spends.ofSkipEnds sieve shape isColon rfl
      refine ⟨_, rfl, yes.trans ?_⟩
      exact colon.trans ((ends _).after no)
  | infixed _ right => exact ⟨_, rfl, right⟩
  | call isName opens _ shape closes items =>
      have last := Spends.ofSkipEnds sieve shape closes rfl
      exact ((items.trans last).kind sieve opens rfl).cons ⟨isName, rfl⟩ (named isName)
  | noItems => exact ends _
  | items _ _ _ first others => exact ((ends _).after first).trans others
  | noMore => exact Spends.refl _
  | more isComma _ _ first others =>
      exact (((ends _).after first).trans others).kind sieve isComma rfl

end GameScript
