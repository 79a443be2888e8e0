import GameScript.Proofs.Rescanning

/-!
Where tokens come from. A token of a text is cut out of it at the place of the token: the machine runs
from its start through the spelling, emits the token, and is over with it at what comes next.
-/

namespace GameScript

open Scanner (State Mode ahead)

/-- The token is read from the spelling behind the text `before`, and is over before the text
`later`. -/
structure Token.StandsIn (token : Token) (before spelling later : List Char) : Prop where
  position : token.position = Position.after before
  spans : token.Spans spelling later
  emitted : ∃ state : State, State.initial.run? spelling = some state ∧
    state.mode.token? spelling = some (token.kind, token.lit) ∧ state.Ended later

namespace Scanner

def Traced (scanner : Scanner) : Prop :=
  State.initial.run? scanner.pending.toList = some scanner.state

theorem traced_reset (scanner : Scanner) : scanner.reset.Traced := rfl

theorem Traced.absorb {scanner : Scanner} {next : State} {c : Char} (traced : scanner.Traced)
    (sound : scanner.Sound) (absorbed : scanner.state.next c = .absorb next) :
    (scanner.absorb next c).Traced := by
  by_cases blank : next.mode = .start
  · -- Blanks are passed over between tokens only, and leave the machine where it is.
    have start : scanner.state.mode = .start := by
      by_contra started
      exact (State.mode_of_absorb started absorbed).1 blank
    have nothing : scanner.pending.toList = [] := by
      rw [Sound, start] at sound
      exact sound
    have initial : State.initial = scanner.state := by
      rw [Traced, nothing] at traced
      exact Option.some.inj traced
    have unmoved : next = State.initial := by
      rw [← initial] at absorbed
      simp only [State.next, State.initial] at absorbed
      split at absorbed
      · cases absorbed
        exact congrArg (State.mk · 0) blank
      · simp at absorbed
    rw [unmoved]
    rfl
  · have pending : (scanner.absorb next c).pending.toList = scanner.pending.toList ++ [c] := by
      simp [Scanner.absorb, blank]
    rw [Traced, pending, State.run?_append traced, State.run?_cons absorbed blank]
    rfl

theorem Traced.feed {scanner after : Scanner} {c : Char} (traced : scanner.Traced)
    (sound : scanner.Sound) (fed : (scanner.feed c).outcome = .ok after) : after.Traced := by
  unfold Scanner.feed at fed
  split at fed
  next next absorbed =>
    cases fed
    exact traced.absorb sound absorbed
  next => simp at fed
  next =>
    simp only at fed
    split at fed
    next mode found =>
      cases fed
      have absorbed := (reset_fresh scanner).next_of_ofChar? found
      exact (traced_reset scanner).absorb (sound_reset scanner) absorbed
    next => simp at fed

section Standing

variable {scanner : Scanner} {before later rest : List Char} {token : Token} {tokens : List Token}

theorem Follows.pending_stands (follows : scanner.Follows before) (traced : scanner.Traced)
    (isOver : scanner.state.Ended later) (found : token ∈ scanner.pendingToken?) :
    ∃ earlier spelling, before = earlier ++ spelling ∧ token.StandsIn earlier spelling later := by
  obtain ⟨⟨kind, lit⟩, emitted, rfl⟩ : ∃ pair : TokenKind × String,
      scanner.state.mode.token? scanner.pending.toList = some pair ∧
        ⟨pair.1, pair.2, scanner.origin⟩ = token := by
    simpa [pendingToken?] using found
  have started : scanner.state.mode ≠ .start := by
    intro start
    simp [start, Mode.token?] at emitted
  obtain ⟨earlier, split, origin⟩ := follows.started
  refine ⟨earlier, scanner.pending.toList, split, origin started, ?_, scanner.state, traced, emitted,
    isOver⟩
  exact State.spans_token? follows.sound follows.delimits isOver emitted scanner.origin

theorem Follows.token_stands (follows : scanner.Follows before) (traced : scanner.Traced)
    (scanned : scanner.scan rest = .ok tokens) (member : token ∈ tokens)
    (inner : token.kind ≠ .finish) :
    ∃ earlier spelling later, before ++ rest = earlier ++ (spelling ++ later) ∧
      token.StandsIn earlier spelling later := by
  induction rest generalizing scanner before tokens with
  | nil =>
      rw [scan_nil, finish] at scanned
      split at scanned
      next ends =>
        cases scanned
        rcases List.mem_append.mp member with pending | closing
        · have found : token ∈ scanner.pendingToken? := Option.mem_toList.mp pending
          have started : scanner.state.mode ≠ .start := by
            intro start
            simp [pendingToken?, start, Mode.token?] at found
          obtain ⟨earlier, spelling, split, stands⟩ :=
            follows.pending_stands traced (ended_of_canEnd started ends) found
          exact ⟨earlier, spelling, [], by simpa using split, stands⟩
        · rw [List.mem_singleton.mp closing] at inner
          exact absurd rfl inner
      next => simp at scanned
  | cons c rest ih =>
      obtain ⟨after, more, fed, scannedOn, rfl⟩ := scan_cons_ok scanned
      rcases List.mem_append.mp member with here | there
      · -- The character completes the token that was under way.
        have emitted : token ∈ (scanner.feed c).token := Option.mem_toList.mp here
        unfold Scanner.feed at emitted
        split at emitted
        · simp at emitted
        · simp at emitted
        next complete =>
          have isOver : scanner.state.Ended (c :: rest) := Or.inl complete
          obtain ⟨earlier, spelling, rfl, stands⟩ := follows.pending_stands traced isOver emitted
          exact ⟨earlier, spelling, c :: rest, by simp, stands⟩
      · have goesOn := ih (follows.feed fed) (traced.feed follows.sound fed) scannedOn there
        simpa using goesOn

end Standing

end Scanner

/-- Every token of a text but those at its ends stands in the text. -/
theorem Token.stands_of_tokenize {chars : List Char} {tokens : List Token} {token : Token}
    (scanned : tokenize chars = .ok tokens) (member : token ∈ tokens)
    (inner : token.kind ≠ .start ∧ token.kind ≠ .finish) :
    ∃ before spelling later, dropMark chars = before ++ (spelling ++ later) ∧
      token.StandsIn before spelling later := by
  obtain ⟨others, rfl, found⟩ := tokenize_ok scanned
  rcases List.mem_cons.mp member with rfl | there
  · exact absurd rfl inner.1
  · exact Scanner.initial_follows.token_stands rfl found there inner.2

end GameScript
