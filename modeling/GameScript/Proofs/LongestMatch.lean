import GameScript.Proofs.Occurrence

/-!
Longest match. The machine runs through every spelling that it knows, so a token that is over leaves
no character behind it with which a known spelling would go on.
-/

namespace GameScript

open Scanner (State Mode ahead)

def TokenKind.spelling? : TokenKind → Option String
  | symbol sign => some sign.text
  | directive word => some word.text
  | _ => none

theorem Directive.run?_text (word : Directive) :
    State.initial.run? word.text.toList = some ⟨.directive word [], 0⟩ := by
  cases word <;> decide +kernel

theorem TokenKind.run?_of_spelling? {kind : TokenKind} {spelling : String}
    (found : kind.spelling? = some spelling) :
    ∃ state : State, State.initial.run? spelling.toList = some state := by
  unfold spelling? at found
  split at found
  next sign =>
    cases found
    exact ⟨_, sign.run?_text⟩
  next word =>
    cases found
    exact ⟨_, word.run?_text⟩
  next => simp at found

theorem Scanner.State.longest_of_complete {start state final : State}
    {text longer later : List Char} (ran : start.run? text = some state)
    (complete : state.next (ahead later) = .complete) (ranLonger : start.run? longer = some final)
    (isPart : text <+: longer) (goesOn : longer <+: text ++ later) : longer = text := by
  obtain ⟨more, rfl⟩ := isPart
  rw [State.run?_append ran] at ranLonger
  cases more with
  | nil => exact List.append_nil text
  | cons c more =>
      obtain ⟨rest, rfl⟩ := (List.prefix_append_right_inj text).mp goesOn
      have completeHere : state.next c = .complete := complete
      simp [State.run?, completeHere] at ranLonger

theorem Token.StandsIn.symbol {token : Token} {sign : Symbol} {before spelling later : List Char}
    (stands : token.StandsIn before spelling later) (isSymbol : token.kind = .symbol sign) :
    spelling = sign.text.toList ∧ State.next ⟨.symbol sign, 0⟩ (ahead later) = .complete := by
  have text : spelling = sign.text.toList := by
    simpa [Token.Spans, isSymbol, Token.text, TokenKind.name] using stands.spans
  refine ⟨text, ?_⟩
  obtain ⟨state, ran, _, isOver⟩ := stands.emitted
  rw [text, sign.run?_text] at ran
  cases ran
  exact isOver.resolve_right (by simp)

/-- Operators and punctuation are read by longest match: no longer spelling of a symbol or a directive
goes on where a symbol stands, and no slash that stands alone is followed by what would open a
comment. -/
theorem symbols_longest_match {chars : List Char} {tokens : List Token} {token : Token}
    {sign : Symbol} (scanned : tokenize chars = .ok tokens) (member : token ∈ tokens)
    (isSymbol : token.kind = .symbol sign) :
    ∃ before later, dropMark chars = before ++ (sign.text.toList ++ later) ∧
      token.position = Position.after before ∧
      (∀ (kind : TokenKind) (spelling : String), kind.spelling? = some spelling →
        spelling ≠ sign.text → sign.text.toList <+: spelling.toList →
          ¬ spelling.toList <+: sign.text.toList ++ later) ∧
      (sign = .slash → later.head? ≠ some '/' ∧ later.head? ≠ some '*') := by
  have inner : token.kind ≠ .start ∧ token.kind ≠ .finish := by simp [isSymbol]
  obtain ⟨before, spelling, later, split, stands⟩ := Token.stands_of_tokenize scanned member inner
  obtain ⟨rfl, complete⟩ := stands.symbol isSymbol
  refine ⟨before, later, split, stands.position, ?_, ?_⟩
  · intro kind spelling known different isPart goesOn
    obtain ⟨final, ran⟩ := TokenKind.run?_of_spelling? known
    have same := State.longest_of_complete sign.run?_text complete ran isPart goesOn
    exact different (String.toList_inj.mp same)
  · rintro rfl
    constructor
    · intro slash
      obtain ⟨rest, rfl⟩ := List.head?_eq_some_iff.mp slash
      simp [ahead, State.next] at complete
    · intro star
      obtain ⟨rest, rfl⟩ := List.head?_eq_some_iff.mp star
      simp [ahead, State.next] at complete

theorem symbols_longest_match_touching :
    let chars := "a***b/ /c".toList
    let tokens : List Token :=
      [Token.first, ⟨.ident, "a", ⟨1, 1⟩⟩, ⟨.symbol .power, "", ⟨1, 2⟩⟩, ⟨.symbol .star, "", ⟨1, 4⟩⟩,
        ⟨.ident, "b", ⟨1, 5⟩⟩, ⟨.symbol .slash, "", ⟨1, 6⟩⟩, ⟨.symbol .slash, "", ⟨1, 8⟩⟩,
        ⟨.ident, "c", ⟨1, 9⟩⟩, ⟨.finish, "", ⟨1, 10⟩⟩]
    tokenize chars = .ok tokens ∧
      ∃ before later, dropMark chars = before ++ (Symbol.slash.text.toList ++ later) ∧
        ⟨1, 6⟩ = Position.after before ∧
        (∀ (kind : TokenKind) (spelling : String), kind.spelling? = some spelling →
          spelling ≠ Symbol.slash.text → Symbol.slash.text.toList <+: spelling.toList →
            ¬ spelling.toList <+: Symbol.slash.text.toList ++ later) ∧
        (Symbol.slash = .slash → later.head? ≠ some '/' ∧ later.head? ≠ some '*') := by
  intro chars tokens
  have scanned : tokenize chars = .ok tokens := by decide +kernel
  have member : ⟨.symbol .slash, "", ⟨1, 6⟩⟩ ∈ tokens := by decide
  exact ⟨scanned, symbols_longest_match scanned member rfl⟩

end GameScript
