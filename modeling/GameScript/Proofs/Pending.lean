import GameScript.Proofs.Spelling

/-!
Where the scanner stands: its place is that of the text it has read, the pending characters end that
text, and the token under way started at the first of them. This holds at every character, and what
the scanner rejects is placed by it.
-/

namespace GameScript

open Scanner (State Mode)

/-- The place after a text: its line breaks count lines, and the characters since the last of them
count columns. -/
def Position.after (before : List Char) : Position :=
  ⟨before.count '\n' + 1, (before.reverse.takeWhile (· ≠ '\n')).length + 1⟩

theorem Position.after_concat (before : List Char) (c : Char) :
    after (before ++ [c]) = (after before).advance c := by
  by_cases isBreak : c = '\n'
  · simp [after, advance, isBreak]
  · have kept : (before ++ [c]).count '\n' = before.count '\n' := by
      simp [List.count_append, isBreak]
    simp [after, advance, isBreak, kept]

def Position.In (position : Position) (text : List Char) : Prop :=
  ∃ before later, text = before ++ later ∧ position = after before

/-- What comes after the block comments that stand open: comments nest, and the two characters of a
mark belong to that mark only. -/
def afterComment : Nat → List Char → Option (List Char)
  | 0, rest => some rest
  | _ + 1, [] => none
  | depth + 1, '/' :: '*' :: rest => afterComment (depth + 2) rest
  | depth + 1, '*' :: '/' :: rest => afterComment depth rest
  | depth + 1, _ :: rest => afterComment (depth + 1) rest

theorem afterComment_other {depth : Nat} {c : Char} {rest : List Char} (inside : depth ≠ 0)
    (notSlash : c ≠ '/') (notStar : c ≠ '*') :
    afterComment depth (c :: rest) = afterComment depth rest := by
  obtain ⟨outer, rfl⟩ := Nat.exists_eq_succ_of_ne_zero inside
  rw [Nat.succ_eq_add_one, afterComment]
  · rintro _ rfl
    exact absurd rfl notSlash
  · rintro _ rfl
    exact absurd rfl notStar

theorem afterComment_slash {depth : Nat} {c : Char} {rest : List Char} (inside : depth ≠ 0)
    (notStar : c ≠ '*') :
    afterComment depth ('/' :: c :: rest) = afterComment depth (c :: rest) := by
  obtain ⟨outer, rfl⟩ := Nat.exists_eq_succ_of_ne_zero inside
  rw [Nat.succ_eq_add_one, afterComment]
  · rintro _ _ same
    simp_all
  · simp

theorem afterComment_star {depth : Nat} {c : Char} {rest : List Char} (inside : depth ≠ 0)
    (notSlash : c ≠ '/') :
    afterComment depth ('*' :: c :: rest) = afterComment depth (c :: rest) := by
  obtain ⟨outer, rfl⟩ := Nat.exists_eq_succ_of_ne_zero inside
  rw [Nat.succ_eq_add_one, afterComment]
  · simp
  · rintro _ _ same
    simp_all

def Commented (text : List Char) (depth : Nat) (held : List Char) : Prop :=
  ∃ body, text = '/' :: '*' :: body ∧
    ∀ rest, afterComment 1 (body ++ rest) = afterComment depth (held ++ rest)

theorem Commented.concat {text held kept : List Char} {c : Char} {depth inner : Nat}
    (commented : Commented text depth held)
    (step : ∀ rest, afterComment depth (held ++ c :: rest) = afterComment inner (kept ++ rest)) :
    Commented (text ++ [c]) inner kept := by
  obtain ⟨body, rfl, same⟩ := commented
  refine ⟨body ++ [c], rfl, ?_⟩
  intro rest
  rw [List.append_assoc, same]
  exact step rest

/-- What the pending characters are where the mode gives them delimiters: numerals of another base,
characters, directives, line ends and plain comments. -/
def Scanner.State.Delimits (state : State) (text : List Char) : Prop :=
  match state.mode with
  | .zero => text = ['0']
  | .hexMark | .hex => ∃ digits, text = '0' :: 'x' :: digits
  | .binaryMark | .binary => ∃ digits, text = '0' :: 'b' :: digits
  | .charOpen => text = ['\'']
  | .charBody | .charEscape => ∃ body, text = '\'' :: body
  | .charClosed => ∃ body, text = '\'' :: (body ++ ['\''])
  | .directive name missing => text ++ missing = name.text.toList
  | .lineEnd => ∃ blanks, text = '\n' :: blanks ∧ blanks.all Text.isBlank = true
  | .lineComment =>
      ∃ first line, text = '/' :: '/' :: first :: line ∧ first ≠ '/' ∧ '\n' ∉ first :: line
  | .block => Commented text state.depth.toNat []
  | .blockSlash => state.depth.toNat ≠ 0 ∧ Commented text state.depth.toNat ['/']
  | .blockStar => state.depth.toNat ≠ 0 ∧ Commented text state.depth.toNat ['*']
  | _ => True

namespace Scanner

namespace State

theorem delimits_ofChar? {c : Char} {mode : Mode} (found : Mode.ofChar? c = some mode)
    (depth : UInt8) : State.Delimits ⟨mode, depth⟩ [c] := by
  unfold Mode.ofChar? at found
  split at found
  · cases found
    trivial
  · split_ifs at found <;> cases found
    next zero => exact congrArg (fun d => [d]) zero
    next lineBreak => exact ⟨[], congrArg (fun d => [d]) lineBreak, rfl⟩
    next quote => exact congrArg (fun d => [d]) quote
    all_goals trivial

theorem depth_succ {depth : UInt8} (shallow : depth.toNat ≠ 255) :
    (depth + 1).toNat = depth.toNat + 1 := by
  have bound := depth.toNat_lt
  rw [UInt8.toNat_add, UInt8.toNat_one]
  omega

theorem depth_pred {depth : UInt8} (inside : depth.toNat ≠ 0) :
    (depth - 1).toNat = depth.toNat - 1 := by
  have least : (1 : UInt8) ≤ depth := by
    rw [UInt8.le_iff_toNat_le]
    exact Nat.one_le_iff_ne_zero.mpr inside
  exact UInt8.toNat_sub_of_le depth 1 least

theorem delimits_block_next {depth : UInt8} {next : State} {c : Char} {text : List Char}
    (commented : Commented text depth.toNat [])
    (absorbed : State.next ⟨.block, depth⟩ c = .absorb next) : next.Delimits (text ++ [c]) := by
  simp only [State.next] at absorbed
  split_ifs at absorbed with outside isSlash isStar <;> cases absorbed
  all_goals have inside : depth.toNat ≠ 0 := fun zero => outside (UInt8.toNat_inj.mp zero)
  · subst c
    exact ⟨inside, commented.concat fun rest => rfl⟩
  · subst c
    exact ⟨inside, commented.concat fun rest => rfl⟩
  · exact commented.concat fun rest => afterComment_other inside isSlash isStar

theorem delimits_blockSlash_next {depth : UInt8} {next : State} {c : Char} {text : List Char}
    (inside : depth.toNat ≠ 0) (commented : Commented text depth.toNat ['/'])
    (absorbed : State.next ⟨.blockSlash, depth⟩ c = .absorb next) :
    next.Delimits (text ++ [c]) := by
  simp only [State.next] at absorbed
  split_ifs at absorbed with isSlash isStar deepest <;> cases absorbed
  · subst c
    exact ⟨inside, commented.concat fun rest => afterComment_slash inside (by decide)⟩
  · subst c
    refine commented.concat fun rest => ?_
    have shallow : depth.toNat ≠ 255 := fun full => deepest (UInt8.toNat_inj.mp full)
    obtain ⟨outer, same⟩ := Nat.exists_eq_succ_of_ne_zero inside
    rw [depth_succ shallow, same]
    rfl
  · refine commented.concat fun rest => ?_
    exact (afterComment_slash inside isStar).trans (afterComment_other inside isSlash isStar)

theorem delimits_blockStar_next {depth : UInt8} {next : State} {c : Char} {text : List Char}
    (inside : depth.toNat ≠ 0) (commented : Commented text depth.toNat ['*'])
    (absorbed : State.next ⟨.blockStar, depth⟩ c = .absorb next) :
    next.Delimits (text ++ [c]) := by
  simp only [State.next] at absorbed
  split_ifs at absorbed with isSlash isStar <;> cases absorbed
  · subst c
    refine commented.concat fun rest => ?_
    obtain ⟨outer, same⟩ := Nat.exists_eq_succ_of_ne_zero inside
    rw [depth_pred inside, same]
    rfl
  · subst c
    exact ⟨inside, commented.concat fun rest => afterComment_star inside (by decide)⟩
  · refine commented.concat fun rest => ?_
    exact (afterComment_star inside isSlash).trans (afterComment_other inside isSlash isStar)

theorem delimits_symbol_next {sign : Symbol} {depth : UInt8} {next : State} {c : Char}
    {text : List Char} (holds : text = sign.text.toList)
    (absorbed : State.next ⟨.symbol sign, depth⟩ c = .absorb next) :
    next.Delimits (text ++ [c]) := by
  subst text
  simp only [State.next] at absorbed
  split at absorbed <;> try contradiction
  -- A slash may open a comment, a hash a directive; other symbols only grow.
  next known =>
    cases known
    split_ifs at absorbed with isSlash isStar isEqual <;> cases absorbed
    · trivial
    · subst c
      exact ⟨[], rfl, fun rest => rfl⟩
    · trivial
  next known =>
    cases known
    split_ifs at absorbed with isM isP <;> cases absorbed
    · subst c
      change Symbol.hash.text.toList ++ ['m'] ++ _ = Directive.macroLine.text.toList
      decide +kernel
    · subst c
      change Symbol.hash.text.toList ++ ['p'] ++ _ = Directive.pragmaLine.text.toList
      decide +kernel
  all_goals
    repeat' split at absorbed
    all_goals first | (cases absorbed; trivial) | simp at absorbed

theorem delimits_next {state next : State} {c : Char} {text : List Char}
    (holds : state.mode.Holds text) (delimits : state.Delimits text)
    (absorbed : state.next c = .absorb next) (started : next.mode ≠ .start) :
    next.Delimits (text ++ [c]) := by
  obtain ⟨mode, depth⟩ := state
  cases mode with
  | start =>
      simp only [State.next] at absorbed
      split at absorbed
      next mode found =>
        cases absorbed
        rw [show text = [] from holds]
        exact delimits_ofChar? found depth
      next => simp at absorbed
  | symbol sign => exact delimits_symbol_next holds absorbed
  | block => exact delimits_block_next delimits absorbed
  | blockSlash => exact delimits_blockSlash_next delimits.1 delimits.2 absorbed
  | blockStar => exact delimits_blockStar_next delimits.1 delimits.2 absorbed
  | zero =>
      rw [show text = ['0'] from delimits]
      simp only [State.next] at absorbed
      split_ifs at absorbed with isX isB <;> cases absorbed
      · exact ⟨[], by rw [isX]; rfl⟩
      · exact ⟨[], by rw [isB]; rfl⟩
      all_goals trivial
  | hexMark | hex | binaryMark | binary =>
      obtain ⟨digits, rfl⟩ := delimits
      simp only [State.next] at absorbed
      split_ifs at absorbed <;> cases absorbed
      all_goals exact ⟨digits ++ [c], rfl⟩
  | charOpen =>
      rw [show text = ['\''] from delimits]
      simp only [State.next] at absorbed
      split_ifs at absorbed <;> cases absorbed
      all_goals exact ⟨[c], rfl⟩
  | charEscape =>
      obtain ⟨body, rfl⟩ := delimits
      simp only [State.next] at absorbed
      cases absorbed
      exact ⟨body ++ [c], rfl⟩
  | charBody =>
      obtain ⟨body, rfl⟩ := delimits
      simp only [State.next] at absorbed
      split_ifs at absorbed with quote
      cases absorbed
      exact ⟨body, by rw [quote]; rfl⟩
  | directive name missing =>
      cases missing with
      | nil =>
          simp only [State.next] at absorbed
          split_ifs at absorbed
      | cons letter missing =>
          simp only [State.next] at absorbed
          split_ifs at absorbed with expected
          cases absorbed
          have whole : text ++ letter :: missing = name.text.toList := delimits
          simpa [Delimits, expected] using whole
  | lineEnd =>
      obtain ⟨blanks, rfl, allBlank⟩ := delimits
      simp only [State.next] at absorbed
      split_ifs at absorbed with blank
      cases absorbed
      exact ⟨blanks ++ [c], rfl, by simp [allBlank, blank]⟩
  | slashes =>
      rw [show text = ['/', '/'] from holds]
      simp only [State.next] at absorbed
      split_ifs at absorbed with isSlash isBreak <;> cases absorbed
      · trivial
      · exact ⟨c, [], rfl, isSlash, by simpa using Ne.symm isBreak⟩
  | lineComment =>
      obtain ⟨first, line, rfl, plain, oneLine⟩ := delimits
      simp only [State.next] at absorbed
      split_ifs at absorbed with isBreak
      cases absorbed
      refine ⟨first, line ++ [c], rfl, plain, ?_⟩
      simpa [Ne.symm isBreak] using oneLine
  | _ =>
      simp only [State.next] at absorbed
      repeat' split at absorbed
      all_goals first | (cases absorbed; trivial) | simp at absorbed

theorem isLexical_of_reject {state : State} {c : Char} {kind : ErrorKind}
    (rejected : state.next c = .reject kind) : kind.isLexical = true := by
  obtain ⟨mode, depth⟩ := state
  cases mode with
  | start =>
      simp only [State.next] at rejected
      split at rejected
      · simp at rejected
      · cases rejected
        rfl
  | symbol sign =>
      simp only [State.next] at rejected
      repeat' split at rejected
      all_goals first | (cases rejected; rfl) | simp at rejected
  | directive name missing =>
      cases missing <;> simp only [State.next] at rejected
      all_goals
        split_ifs at rejected
        cases rejected
        rfl
  | _ =>
      simp only [State.next] at rejected
      try split_ifs at rejected
      all_goals try cases rejected
      all_goals rfl

end State

structure Follows (scanner : Scanner) (before : List Char) : Prop where
  position : scanner.position = Position.after before
  sound : scanner.Sound
  delimits : scanner.state.Delimits scanner.pending.toList
  started : ∃ earlier, before = earlier ++ scanner.pending.toList ∧
    (scanner.state.mode ≠ .start → scanner.origin = Position.after earlier)

theorem initial_follows : initial.Follows [] :=
  ⟨by decide, rfl, trivial, [], rfl, by simp [initial, State.initial]⟩

theorem Follows.reset {scanner : Scanner} {before : List Char} (follows : scanner.Follows before) :
    scanner.reset.Follows before :=
  ⟨follows.position, rfl, trivial, before, by simp [Scanner.reset],
    by simp [Scanner.reset, State.initial]⟩

theorem Follows.absorb {scanner : Scanner} {before : List Char} {next : State} {c : Char}
    (follows : scanner.Follows before) (absorbed : scanner.state.next c = .absorb next) :
    (scanner.absorb next c).Follows (before ++ [c]) := by
  have position : (scanner.absorb next c).position = Position.after (before ++ [c]) := by
    rw [Position.after_concat, ← follows.position]
    rfl
  have sound := follows.sound.absorb absorbed
  by_cases blank : next.mode = .start
  · refine ⟨position, sound, ?_, before ++ [c], ?_, ?_⟩
    · simp [Scanner.absorb, State.Delimits, blank]
    · simp [Scanner.absorb, blank]
    · simp [Scanner.absorb, blank]
  · have pending : (scanner.absorb next c).pending.toList = scanner.pending.toList ++ [c] := by
      simp [Scanner.absorb, blank]
    obtain ⟨earlier, split, origin⟩ := follows.started
    refine ⟨position, sound, ?_, earlier, by rw [split, pending, List.append_assoc], ?_⟩
    · rw [pending]
      exact State.delimits_next follows.sound follows.delimits absorbed blank
    · intro _
      by_cases start : scanner.state.mode = .start
      · -- Nothing was pending: the token starts here.
        have nothing : scanner.pending.toList = [] := by
          have holds := follows.sound
          unfold Sound at holds
          rw [start] at holds
          exact holds
        rw [nothing, List.append_nil] at split
        simpa [Scanner.absorb, start, blank, split] using follows.position
      · simpa [Scanner.absorb, start] using origin start

theorem Follows.feed {scanner after : Scanner} {before : List Char} {c : Char}
    (follows : scanner.Follows before) (fed : (scanner.feed c).outcome = .ok after) :
    after.Follows (before ++ [c]) := by
  unfold Scanner.feed at fed
  split at fed
  next next absorbed =>
    cases fed
    exact follows.absorb absorbed
  next => simp at fed
  next =>
    simp only at fed
    split at fed
    next mode found =>
      cases fed
      exact follows.reset.absorb ((reset_fresh scanner).next_of_ofChar? found)
    next => simp at fed

def Misread (text : List Char) (reason : SourceError) : Prop :=
  reason.kind.isLexical = true ∧ reason.position.In text

theorem Follows.misread_feed {scanner : Scanner} {before : List Char} {c : Char}
    {reason : SourceError} (follows : scanner.Follows before)
    (fed : (scanner.feed c).outcome = .error reason) :
    reason.kind.isLexical = true ∧ reason.position = Position.after before := by
  unfold Scanner.feed at fed
  split at fed
  next => simp at fed
  next kind rejected =>
    cases fed
    exact ⟨State.isLexical_of_reject rejected, follows.position⟩
  next =>
    simp only at fed
    split at fed
    next => simp at fed
    next =>
      cases fed
      exact ⟨rfl, follows.position⟩

theorem Follows.feedAll {scanner last : Scanner} {before chars : List Char} {tokens : List Token}
    (follows : scanner.Follows before) (fed : scanner.feedAll chars = .ok (tokens, last)) :
    last.Follows (before ++ chars) := by
  induction chars generalizing scanner before tokens with
  | nil =>
      cases fed
      simpa using follows
  | cons c rest ih =>
      obtain ⟨after, more, stepped, fedOn, rfl⟩ := feedAll_cons_ok fed
      simpa using ih (follows.feed stepped) fedOn

theorem Follows.misread_feedAll {scanner : Scanner} {before chars : List Char}
    {reason : SourceError} (follows : scanner.Follows before)
    (fed : scanner.feedAll chars = .error reason) : Misread (before ++ chars) reason := by
  induction chars generalizing scanner before with
  | nil => simp [Scanner.feedAll] at fed
  | cons c rest ih =>
      simp only [Scanner.feedAll] at fed
      split at fed
      · next stepped =>
          cases fed
          obtain ⟨lexical, position⟩ := follows.misread_feed stepped
          exact ⟨lexical, before, c :: rest, rfl, position⟩
      · next after stepped =>
          split at fed
          · next others =>
              cases fed
              simpa using ih (follows.feed stepped) others
          · simp at fed

theorem Follows.misread_finish {scanner : Scanner} {before : List Char} {reason : SourceError}
    (follows : scanner.Follows before) (ended : scanner.finish = .error reason) :
    Misread before reason := by
  unfold finish at ended
  split at ended
  · simp at ended
  · next unfinished =>
      cases ended
      obtain ⟨earlier, split, origin⟩ := follows.started
      refine ⟨rfl, earlier, _, split, origin ?_⟩
      -- Between tokens a text may always end.
      intro start
      exact unfinished (by simp [canEnd, start])

end Scanner

end GameScript
