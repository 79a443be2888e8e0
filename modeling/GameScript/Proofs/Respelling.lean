import GameScript.Proofs.Occurrence

/-!
The text of a token stands for it. The machine takes the characters of a token from its start to a
state that completes at the next blank, so that the texts of the tokens of a source, with a blank
between any two, are scanned as the same tokens.
-/

namespace GameScript

open Scanner (State Mode ahead)

/-- Whether the text of a token is what it is written as: not so for the ends of a source, line ends
and doc comments. -/
def Token.isWritten (token : Token) : Bool :=
  match token.kind with
  | .start | .finish | .lineEnd | .docComment => false
  | _ => true

def spacedText (tokens : List Token) : String :=
  String.intercalate " " (tokens.map Token.text)

def Token.Recognized (token : Token) : Prop :=
  ∃ state : State, State.initial.run? token.text.toList = some state ∧
    state.mode.token? token.text.toList = some (token.kind, token.lit)

namespace Scanner

theorem State.next_of_token? {state : State} {text : List Char} {token : Token} {c : Char}
    (emitted : state.mode.token? text = some (token.kind, token.lit))
    (written : token.isWritten = true) (blank : c = ' ' ∨ c = '\n') :
    state.next c = .complete := by
  obtain ⟨mode, depth⟩ := state
  have notAlnum : isAlnum c = false := by rcases blank with rfl | rfl <;> decide
  have notWord : isWordChar c = false := by rcases blank with rfl | rfl <;> decide
  have notHex : Text.isHexDigit c = false := by rcases blank with rfl | rfl <;> decide
  have notDigit : c.isDigit = false := by rcases blank with rfl | rfl <;> decide
  have other (d : Char) (visible : d ≠ ' ' ∧ d ≠ '\n') : c ≠ d := by
    rintro rfl
    rcases blank with same | same
    · exact visible.1 same
    · exact visible.2 same
  cases mode with
  | zero | decimal | fraction | exponent | hex | binary =>
      simp [State.next, notAlnum, notHex, notDigit, other 'x' (by decide), other 'b' (by decide),
        other '_' (by decide), other '.' (by decide), other 'e' (by decide), other '0' (by decide),
        other '1' (by decide)]
  | symbol sign =>
      rcases blank with rfl | rfl
      · cases sign <;> rfl
      · cases sign <;> rfl
  | directive name missing =>
      cases missing with
      | nil => simp [State.next, notWord]
      | cons letter missing => simp [Mode.token?] at emitted
  | word => simp [State.next, notWord]
  | charClosed | stringClosed => rfl
  | docSlashes | docComment | lineEnd =>
      simp only [Mode.token?, Option.some.injEq, Prod.mk.injEq] at emitted
      simp [Token.isWritten, ← emitted.1] at written
  | _ => simp [Mode.token?] at emitted

theorem recognized_of_scan {chars : List Char} {tokens : List Token}
    (scanned : initial.scan chars = .ok tokens) :
    ∀ token ∈ tokens, token.isWritten = true → token.Recognized := by
  intro token member written
  have inner : token.kind ≠ .finish := by
    intro closes
    simp [Token.isWritten, closes] at written
  obtain ⟨_, spelling, later, _, stands⟩ := initial_follows.token_stands rfl scanned member inner
  have text : spelling = token.text.toList := by
    have spans := stands.spans
    unfold Token.Spans at spans
    unfold Token.isWritten at written
    split at spans <;> simp_all
  obtain ⟨state, ran, emitted, _⟩ := stands.emitted
  exact ⟨state, text ▸ ran, text ▸ emitted⟩

end Scanner

/-! Texts with blanks between them. -/

def BlankAhead (rest : List Char) : Prop :=
  ahead rest = ' ' ∨ ahead rest = '\n'

theorem Token.Recognized.scans {token : Token} (recognized : token.Recognized)
    (written : token.isWritten = true) :
    Scans BlankAhead token.text.toList (TokensAlike [token]) := by
  obtain ⟨state, ran, emitted⟩ := recognized
  refine (Scans.ofRun ran emitted).mono ?_ ?_
  · intro rest blank
    exact State.next_of_token? emitted written blank
  · rintro _ ⟨position, rfl⟩
    exact .cons ⟨rfl, rfl⟩ .nil

theorem scans_space : Scans Always [' '] (· = []) := by
  have blank : [' '].all isIndent = true := by decide
  exact (spells_indent blank).scans.mono (fun _ _ => trivial) fun _ fit => Fit.nil_iff.mp fit

theorem scans_spacedText {tokens : List Token}
    (each : ∀ token ∈ tokens, token.Recognized ∧ token.isWritten = true) :
    Scans BlankAhead (spacedText tokens).toList (TokensAlike tokens) := by
  induction tokens with
  | nil =>
      refine (Scans.nil BlankAhead).mono (fun _ blank => blank) ?_
      rintro _ rfl
      exact .nil
  | cons first others ih =>
      obtain ⟨recognized, written⟩ := each first (by simp)
      have othersScan := ih fun token member => each token (by simp [member])
      cases others with
      | nil => simpa [spacedText] using recognized.scans written
      | cons second more =>
          have shape : (spacedText (first :: second :: more)).toList =
              first.text.toList ++ ([' '] ++ (spacedText (second :: more)).toList) := by
            simp [spacedText, String.intercalate_cons_cons]
          rw [shape]
          have spaced := scans_space.append othersScan fun _ _ => trivial
          refine ((recognized.scans written).append spaced ?_).mono (fun _ blank => blank) ?_
          · intro rest _
            exact Or.inl rfl
          · rintro _ ⟨front, _, here, ⟨_, back, rfl, there, rfl⟩, rfl⟩
            exact here.append there

theorem TokensAlike.map_lexeme {tokens others : List Token} (alike : TokensAlike tokens others) :
    others.map (fun token => (token.kind, token.lit)) =
      tokens.map fun token => (token.kind, token.lit) := by
  induction alike with
  | nil => rfl
  | cons here _ ih => simp [here.1, here.2, ih]

/-- The texts of the tokens of a source, with a blank between any two, are scanned as tokens of the
same kinds with the same literals; the ends of the source, line ends and doc comments apart. -/
theorem tokenize_spacedText {chars : List Char} {tokens : List Token}
    (scanned : tokenize chars = .ok tokens) :
    ∃ again last, tokenize (spacedText (tokens.filter Token.isWritten)).toList =
        .ok (Token.first :: (again ++ [last])) ∧ last.kind = .finish ∧
      again.map (fun token => (token.kind, token.lit)) =
        (tokens.filter Token.isWritten).map fun token => (token.kind, token.lit) := by
  obtain ⟨others, rfl, found⟩ := tokenize_ok scanned
  have each : ∀ token ∈ (Token.first :: others).filter Token.isWritten,
      token.Recognized ∧ token.isWritten = true := by
    intro token member
    obtain ⟨inside, written⟩ := List.mem_filter.mp member
    rcases List.mem_cons.mp inside with rfl | there
    · simp [Token.isWritten, Token.first] at written
    · exact ⟨Scanner.recognized_of_scan found token there written, written⟩
  obtain ⟨again, last, scannedAgain, alike, closes⟩ :=
    (scans_spacedText each).tokenize (show BlankAhead [] from Or.inr rfl)
  exact ⟨again, last, scannedAgain, closes, alike.map_lexeme⟩

theorem tokenize_spacedText_mixed :
    let chars := "0x_1F.5/*c*/1.#pragma\"a\n\\\"\"\n///d\n_<<=null".toList
    let tokens : List Token :=
      [Token.first, ⟨.hex, "_1F", ⟨1, 1⟩⟩, ⟨.decimal, ".5", ⟨1, 6⟩⟩, ⟨.decimal, "1.", ⟨1, 13⟩⟩,
        ⟨.directive .pragmaLine, "", ⟨1, 15⟩⟩, ⟨.string, "a\n\\\"", ⟨1, 22⟩⟩,
        ⟨.lineEnd, "", ⟨2, 4⟩⟩, ⟨.docComment, "d", ⟨3, 1⟩⟩, ⟨.lineEnd, "", ⟨3, 5⟩⟩,
        ⟨.symbol .underscore, "", ⟨4, 1⟩⟩, ⟨.symbol .shiftLeftAssign, "", ⟨4, 2⟩⟩,
        ⟨.reserved, "null", ⟨4, 5⟩⟩, ⟨.finish, "", ⟨4, 9⟩⟩]
    tokenize chars = .ok tokens ∧
      spacedText (tokens.filter Token.isWritten) =
        "0x_1F .5 1. #pragma \"a\n\\\"\" _ <<= null" ∧
      ∃ again last, tokenize (spacedText (tokens.filter Token.isWritten)).toList =
          .ok (Token.first :: (again ++ [last])) ∧ last.kind = .finish ∧
        again.map (fun token => (token.kind, token.lit)) =
          (tokens.filter Token.isWritten).map fun token => (token.kind, token.lit) := by
  intro chars tokens
  have scanned : tokenize chars = .ok tokens := by decide +kernel
  exact ⟨scanned, by decide +kernel, tokenize_spacedText scanned⟩

end GameScript
