import GameScript.Proofs.ExprText
import GameScript.Proofs.Phrase

/-!
Quoted texts. Escaping is undone by decoding, and what stands between the quotes is one token to the
scanner: a string or a character that is written is read back.
-/

namespace GameScript

def Literal.denotedText? : Literal → Option String
  | .string body => some (Text.unescape body)
  | _ => none

def Literal.quotedKind? : Literal → Option TokenKind
  | .string _ => some .string
  | .char _ => some .char
  | _ => none

def ReadsAs (text : String) (kind : TokenKind) (literal : Literal) : Prop :=
  ∃ token last, tokenize text.toList = .ok [Token.first, token, last] ∧ token.kind = kind ∧
    last.kind = .finish ∧
    ∀ cursor : Cursor, cursor.peek = token → Parser.literal cursor = .ok literal cursor.advance

theorem Text.unescapeChars_escapeChar_append {quote : Char} (known : quote = '"' ∨ quote = '\'')
    (c : Char) (rest : List Char) :
    unescapeChars (escapeChar quote c ++ rest) = c :: unescapeChars rest := by
  rcases escapeChar_cases quote c known with ⟨shape, notBackslash, _⟩ | ⟨letter, shape, denotes⟩
  · rw [shape, List.singleton_append, unescapeChars.eq_4]
    · simp [notBackslash]
    · simp [notBackslash]
  · rw [shape]
    simp [unescapeChars, denotes]

theorem Text.unescape_escape {quote : Char} (known : quote = '"' ∨ quote = '\'') (text : String) :
    unescape (escape quote text) = text := by
  have decoded : unescapeChars (text.toList.flatMap (escapeChar quote)) = text.toList := by
    induction text.toList with
    | nil => rfl
    | cons c rest ih =>
        rw [List.flatMap_cons, unescapeChars_escapeChar_append known, ih]
  simp [unescape, escape, decoded]

theorem Token.kind_of_literal {token : Token} {literal : Literal} {kind : TokenKind}
    (denotes : token.literal = .ok literal) (quoted : literal.quotedKind? = some kind) :
    token.kind = kind := by
  unfold Token.literal at denotes
  repeat' split at denotes
  all_goals
    cases denotes
    try cases quoted
  all_goals assumption

theorem Spells.readsAs {text : String} {literal : Literal} {kind : TokenKind}
    (spells : Spells Always text.toList [.literal literal])
    (quoted : literal.quotedKind? = some kind) : ReadsAs text kind literal := by
  obtain ⟨tokens, last, scanned, fit, closes⟩ := spells.tokenize trivial
  obtain ⟨token, rest, fits, nothing, rfl⟩ := Fit.cons_iff.mp fit
  obtain rfl := Fit.nil_iff.mp nothing
  refine ⟨token, last, scanned, Token.kind_of_literal fits quoted, closes, ?_⟩
  intro cursor here
  exact Parser.literal_ok_iff.mpr ⟨here ▸ fits, rfl⟩

theorem Literal.readsAs_ofText (text : String) (dialect : Dialect) :
    ReadsAs ((Literal.ofText text).text dialect) .string (Literal.ofText text) :=
  (spells_string (isStringBody_escape text)).readsAs rfl

/-- A text that is written as a string literal is read back as the same literal and denotes the
text. So is a character, as a character in the extended dialect and as a string in the plain one. -/
theorem quoted_texts_read_back :
    (∀ (text : String) (dialect : Dialect), (Literal.ofText text).denotedText? = some text ∧
      ReadsAs ((Literal.ofText text).text dialect) .string (Literal.ofText text)) ∧
    ∀ c : Char, ReadsAs (Literal.text .extended (.char c)) .char (.char c) ∧
      ∃ literal, ReadsAs (Literal.text .plain (.char c)) .string literal ∧
        literal.denotedText? = some (String.singleton c) := by
  have denoted (text : String) : (Literal.ofText text).denotedText? = some text :=
    congrArg some (Text.unescape_escape (Or.inl rfl) text)
  refine ⟨fun text dialect => ⟨denoted text, Literal.readsAs_ofText text dialect⟩, fun c => ⟨?_, ?_⟩⟩
  · exact (spells_char c).readsAs rfl
  · -- In the plain dialect a character is the string that holds it.
    have shape : Literal.text .plain (.char c) =
        (Literal.ofText (String.singleton c)).text .plain := rfl
    rw [shape]
    exact ⟨Literal.ofText (String.singleton c), Literal.readsAs_ofText _ _, denoted _⟩

end GameScript
