import GameScript.Proofs.ExprText
import GameScript.Proofs.Rewriting

/-!
Parentheses: whatever tree is printed, its text is read back as a tree of the same shape.
-/

namespace GameScript

/-- Names are the texts that are one identifier. -/
theorem isName_iff_tokenize {name : String} :
    isName name = true ↔
      ∃ token last, tokenize name.toList = .ok [Token.first, token, last] ∧
        token.kind = .ident ∧ token.lit = name := by
  constructor
  · intro named
    obtain ⟨tokens, last, scanned, fit, _⟩ :=
      (spells_name named).tokenize (show Delimited [] from ⟨by decide, by decide⟩)
    obtain ⟨token, _, fits, rest, rfl⟩ := Fit.cons_iff.mp fit
    obtain rfl := Fit.nil_iff.mp rest
    exact ⟨token, last, scanned, fits⟩
  · rintro ⟨token, last, scanned, kind, rfl⟩
    exact ((wellSpelled_tokenize scanned).1 token (by simp)).name kind

theorem Mark.Fits.string {token : Token} {body : String}
    (fits : Mark.Fits (.literal (.string body)) token) : token.kind = .string ∧ token.lit = body := by
  have denotes : token.literal = .ok (.string body) := fits
  cases kind : token.kind with
  | string => simpa [Token.literal, kind] using denotes
  | decimal | char =>
      simp only [Token.literal, kind] at denotes
      split at denotes <;> simp at denotes
  | _ => simp [Token.literal, kind] at denotes

/-- String bodies are the texts that are one string between quotes. -/
theorem isStringBody_iff_tokenize {body : String} :
    isStringBody body.toList = true ↔
      ∃ token last, tokenize ("\"" ++ body ++ "\"").toList = .ok [Token.first, token, last] ∧
        token.kind = .string ∧ token.lit = body := by
  constructor
  · intro good
    obtain ⟨tokens, last, scanned, fit, _⟩ := (spells_string good).tokenize trivial
    obtain ⟨token, _, fits, rest, rfl⟩ := Fit.cons_iff.mp fit
    obtain rfl := Fit.nil_iff.mp rest
    exact ⟨token, last, scanned, fits.string⟩
  · rintro ⟨token, last, scanned, kind, rfl⟩
    have spelled := (wellSpelled_tokenize scanned).1 token (by simp)
    simpa [Token.WellSpelled, kind] using spelled

/-- The text of an expression is read to its end, as a tree that differs from the expression in
parentheses only; numbers without a numeral are read as their texts are. -/
theorem expression_text {x : Expr} (wellFormed : x.WellFormed fun _ => True) :
    ∃ tokens read after last,
      tokenize (x.text .extended).toList = .ok tokens ∧
      Parser.expression (Cursor.ofTokens tokens).advance = .ok read after ∧
      after.rest = [last] ∧ last.kind = .finish ∧
      read.erase = x.spellNumbers.erase := by
  obtain ⟨tokens, last, scanned, fit, finish⟩ :=
    (wellFormed.spells_text_startsApart .extended).1.tokenize
      (show Delimited [] from ⟨by decide, by decide⟩)
  have closed : Closed (tokens ++ [last]) := ⟨tokens, last, rfl, finish⟩
  have cursor : (Cursor.ofTokens (Token.first :: (tokens ++ [last]))).advance =
      ⟨[Token.first], tokens ++ [last], by simp⟩ := by
    have whole : Closed (Token.first :: (tokens ++ [last])) := closed.append [Token.first]
    rw [Cursor.ofTokens_closed whole]
    rfl
  have fenced : Fenced Precedence.pipe [last] := .ofKind _ finish rfl (by simp)
  have reads := (wellFormed.canonical_denoted .extended).readsBack tokens [last] fit fenced
  obtain ⟨after, read, rest⟩ :
      Gives Parser.expression ⟨[Token.first], tokens ++ [last], by simp⟩ (x.denoted .extended) [last] :=
    (Parser.expression_gives_iff closed).mpr reads
  have shape : (x.denoted .extended).erase = x.spellNumbers.erase :=
    wellFormed.erase_denoted (by decide)
  exact ⟨_, _, after, last, scanned, cursor ▸ read, rest, finish, shape⟩

/-- A conditional on the left, and a pipe at the start of the right operand. -/
theorem expression_text_ternary_minus_pipe :
    ∃ tokens read after last,
      tokenize "(a ? b : c) - (d |> f() + e)".toList = .ok tokens ∧
      Parser.expression (Cursor.ofTokens tokens).advance = .ok read after ∧
      after.rest = [last] ∧ last.kind = .finish ∧
      read.erase = .binary .minus (.ternary (.ident "a") (.ident "b") (.ident "c"))
        (.binary .plus (.pipe (.ident "d") "f" []) (.ident "e")) := by
  have difference : (Expr.binary .minus (.ternary (.ident "a") (.ident "b") (.ident "c"))
      (.binary .plus (.pipe (.ident "d") "f" []) (.ident "e"))).WellFormed fun _ => True :=
    .binary (by decide) (.ternary (.ident (by decide)) (.ident (by decide)) (.ident (by decide)))
      (.binary (by decide) (.pipe (by decide) (.ident (by decide)) (by simp)) (.ident (by decide)))
  have printed : (Expr.binary .minus (.ternary (.ident "a") (.ident "b") (.ident "c"))
      (.binary .plus (.pipe (.ident "d") "f" []) (.ident "e"))).text .extended =
        "(a ? b : c) - (d |> f() + e)" := by decide +kernel
  exact printed ▸ expression_text difference

end GameScript
