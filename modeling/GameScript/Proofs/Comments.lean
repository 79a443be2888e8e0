import GameScript.Proofs.Rescanning

/-!
Plain comments. The scanner runs through a comment and goes on as if it had not been there, so that
a comment between tokens changes nothing but the number of line ends in a row.
-/

namespace GameScript

open Scanner (State Mode ahead)

/-- Whether the block comments that stand open are closed right at the end of a text, with no more
than `limit` of them open at a time. The two characters of a mark belong to that mark only. -/
def closesWithin (limit : Nat) : Nat → List Char → Bool
  | 0, rest => rest.isEmpty
  | _ + 1, [] => false
  | depth + 1, '/' :: '*' :: rest => depth + 2 ≤ limit && closesWithin limit (depth + 2) rest
  | depth + 1, '*' :: '/' :: rest => closesWithin limit depth rest
  | depth + 1, _ :: rest => closesWithin limit (depth + 1) rest

def IsPlainComment (text later : List Char) : Prop :=
  (∃ body, text = '/' :: '*' :: body ∧ closesWithin 255 1 body = true) ∨
    ∃ line, text = '/' :: '/' :: line ∧ line.head? ≠ some '/' ∧ '\n' ∉ line ∧ LineOver later

theorem IsPlainComment.head?_eq {text later : List Char} (plain : IsPlainComment text later) :
    (text ++ later).head? = some '/' := by
  rcases plain with ⟨_, rfl, _⟩ | ⟨_, rfl, _⟩ <;> rfl

section Nesting

variable {limit depth : Nat} {c : Char} {rest : List Char}

theorem closesWithin_other (inside : depth ≠ 0) (notSlash : c ≠ '/') (notStar : c ≠ '*') :
    closesWithin limit depth (c :: rest) = closesWithin limit depth rest := by
  obtain ⟨outer, rfl⟩ := Nat.exists_eq_succ_of_ne_zero inside
  rw [Nat.succ_eq_add_one, closesWithin]
  · rintro _ rfl
    exact absurd rfl notSlash
  · rintro _ rfl
    exact absurd rfl notStar

theorem closesWithin_slash (inside : depth ≠ 0) (notStar : c ≠ '*') :
    closesWithin limit depth ('/' :: c :: rest) = closesWithin limit depth (c :: rest) := by
  obtain ⟨outer, rfl⟩ := Nat.exists_eq_succ_of_ne_zero inside
  rw [Nat.succ_eq_add_one, closesWithin]
  · rintro _ _ same
    simp_all
  · simp

theorem closesWithin_star (inside : depth ≠ 0) (notSlash : c ≠ '/') :
    closesWithin limit depth ('*' :: c :: rest) = closesWithin limit depth (c :: rest) := by
  obtain ⟨outer, rfl⟩ := Nat.exists_eq_succ_of_ne_zero inside
  rw [Nat.succ_eq_add_one, closesWithin]
  · simp
  · rintro _ _ same
    simp_all

theorem closesWithin_open (inside : depth ≠ 0) :
    closesWithin limit depth ('/' :: '*' :: rest) =
      (decide (depth + 1 ≤ limit) && closesWithin limit (depth + 1) rest) := by
  obtain ⟨outer, rfl⟩ := Nat.exists_eq_succ_of_ne_zero inside
  rfl

theorem closesWithin_close (inside : depth ≠ 0) :
    closesWithin limit depth ('*' :: '/' :: rest) = closesWithin limit (depth - 1) rest := by
  obtain ⟨outer, rfl⟩ := Nat.exists_eq_succ_of_ne_zero inside
  rfl

end Nesting

namespace Scanner

/-! The depth of comments. -/

def Mode.inBlock : Mode → Bool
  | .block | .blockSlash | .blockStar => true
  | _ => false

/-- What may still become a part of a mark. -/
def Mode.held : Mode → List Char
  | .blockSlash => ['/']
  | .blockStar => ['*']
  | _ => []

def State.Counts (state : State) : Prop :=
  state.mode.inBlock = false → state.depth = 0

namespace State

theorem counts_of_absorb {state next : State} {c : Char} (counts : state.Counts)
    (absorbed : state.next c = .absorb next) : next.Counts := by
  obtain ⟨mode, depth⟩ := state
  intro outside
  cases mode with
  | block | blockSlash | blockStar =>
      simp only [State.next] at absorbed
      split_ifs at absorbed <;> cases absorbed <;> simp [Mode.inBlock] at outside
  | symbol sign =>
      have zero : depth = 0 := counts rfl
      simp only [State.next] at absorbed
      split at absorbed <;> try contradiction
      all_goals
        repeat' split at absorbed
        all_goals first
          | (cases absorbed; first | exact zero | simp [Mode.inBlock] at outside)
          | simp at absorbed
  | directive name missing =>
      have zero : depth = 0 := counts rfl
      cases missing <;> simp only [State.next] at absorbed
      all_goals
        split_ifs at absorbed
        try (cases absorbed; exact zero)
  | _ =>
      have zero : depth = 0 := counts rfl
      simp only [State.next] at absorbed
      repeat' split at absorbed
      all_goals first | (cases absorbed; exact zero) | simp at absorbed

theorem next_inBlock {mode : Mode} {depth : UInt8} {c : Char} {rest : List Char}
    (inBlock : mode.inBlock = true) (inside : depth.toNat ≠ 0)
    (closes : closesWithin 255 depth.toNat (mode.held ++ c :: rest) = true) :
    ∃ next : State, State.next ⟨mode, depth⟩ c = .absorb next ∧ next.mode.inBlock = true ∧
      (next.depth.toNat = 0 → next.mode = .block) ∧
      closesWithin 255 next.depth.toNat (next.mode.held ++ rest) = true := by
  have isOpen : depth ≠ 0 := fun zero => inside (by rw [zero]; rfl)
  -- What the mode holds back and the next character make up a mark or not; the cases are the two
  -- characters that marks are made of.
  by_cases slash : c = '/'
  · subst c
    cases mode with
    | block =>
        refine ⟨⟨.blockSlash, depth⟩, by simp [State.next, isOpen], rfl, fun zero => ?_, closes⟩
        exact absurd zero inside
    | blockSlash =>
        refine ⟨⟨.blockSlash, depth⟩, by simp [State.next], rfl, fun zero => absurd zero inside, ?_⟩
        exact (closesWithin_slash inside (by decide)).symm.trans closes
    | blockStar =>
        refine ⟨⟨.block, depth - 1⟩, by simp [State.next], rfl, fun _ => rfl, ?_⟩
        rw [depth_pred inside]
        exact (closesWithin_close inside).symm.trans closes
    | _ => simp [Mode.inBlock] at inBlock
  · by_cases star : c = '*'
    · subst c
      cases mode with
      | block =>
          refine ⟨⟨.blockStar, depth⟩, by simp [State.next, isOpen], rfl, fun zero => ?_, closes⟩
          exact absurd zero inside
      | blockSlash =>
          obtain ⟨bound, later⟩ : depth.toNat + 1 ≤ 255 ∧
              closesWithin 255 (depth.toNat + 1) rest = true := by
            simpa using (closesWithin_open inside).symm.trans closes
          have shallow : depth.toNat ≠ 255 := by omega
          have notFull : depth ≠ 255 := fun full => shallow (by rw [full]; rfl)
          refine ⟨⟨.block, depth + 1⟩, by simp [State.next, notFull], rfl, fun _ => rfl, ?_⟩
          rw [depth_succ shallow]
          exact later
      | blockStar =>
          refine ⟨⟨.blockStar, depth⟩, by simp [State.next], rfl,
            fun zero => absurd zero inside, ?_⟩
          exact (closesWithin_star inside (by decide)).symm.trans closes
      | _ => simp [Mode.inBlock] at inBlock
    · have plain : closesWithin 255 depth.toNat rest = true := by
        rw [← closesWithin_other inside slash star]
        cases mode with
        | block => exact closes
        | blockSlash => exact (closesWithin_slash inside star).symm.trans closes
        | blockStar => exact (closesWithin_star inside slash).symm.trans closes
        | _ => simp [Mode.inBlock] at inBlock
      refine ⟨⟨.block, depth⟩, ?_, rfl, fun _ => rfl, plain⟩
      cases mode with
      | block | blockSlash | blockStar => simp [State.next, isOpen, slash, star]
      | _ => simp [Mode.inBlock] at inBlock

theorem ne_start_of_inBlock {mode : Mode} (inBlock : mode.inBlock = true) : mode ≠ .start := by
  rintro rfl
  simp [Mode.inBlock] at inBlock

theorem run?_inBlock {mode : Mode} {depth : UInt8} {text : List Char}
    (inBlock : mode.inBlock = true) (outermost : depth.toNat = 0 → mode = .block)
    (closes : closesWithin 255 depth.toNat (mode.held ++ text) = true) :
    State.run? ⟨mode, depth⟩ text = some ⟨.block, 0⟩ := by
  induction text generalizing mode depth with
  | nil =>
      have outside : depth.toNat = 0 := by
        by_contra inside
        obtain ⟨outer, same⟩ := Nat.exists_eq_succ_of_ne_zero inside
        rw [same] at closes
        cases mode <;> simp [Mode.held, closesWithin] at closes
      obtain rfl := outermost outside
      rw [show depth = 0 from UInt8.toNat_inj.mp outside]
      rfl
  | cons c rest ih =>
      have inside : depth.toNat ≠ 0 := by
        intro outside
        obtain rfl := outermost outside
        simp [outside, Mode.held, closesWithin] at closes
      obtain ⟨next, absorbed, nextInBlock, nextOutermost, nextCloses⟩ :=
        next_inBlock inBlock inside closes
      rw [State.run?_cons absorbed (ne_start_of_inBlock nextInBlock)]
      exact ih nextInBlock nextOutermost nextCloses

theorem run?_lineComment {text : List Char} (oneLine : '\n' ∉ text) :
    State.run? ⟨.lineComment, 0⟩ text = some ⟨.lineComment, 0⟩ := by
  induction text with
  | nil => rfl
  | cons c rest ih =>
      simp only [List.mem_cons, not_or] at oneLine
      have absorbed : State.next ⟨.lineComment, 0⟩ c = .absorb ⟨.lineComment, 0⟩ := by
        simp [State.next, Ne.symm oneLine.1]
      rw [State.run?_cons absorbed (by decide)]
      exact ih oneLine.2

theorem run?_plainComment {text later : List Char} (plain : IsPlainComment text later) :
    ∃ state : State, State.initial.run? text = some state ∧
      state.next (ahead later) = .complete ∧ ∀ text, state.mode.token? text = none := by
  have slash : State.initial.next '/' = .absorb ⟨.symbol .slash, 0⟩ := by decide
  rcases plain with ⟨body, rfl, closes⟩ | ⟨line, rfl, notDoc, oneLine, isOver⟩
  · have star : State.next ⟨.symbol .slash, 0⟩ '*' = .absorb ⟨.block, 1⟩ := by decide
    refine ⟨⟨.block, 0⟩, ?_, by simp [State.next], fun _ => rfl⟩
    rw [State.run?_cons slash (by decide), State.run?_cons star (by decide)]
    exact run?_inBlock rfl (fun _ => rfl) closes
  · have again : State.next ⟨.symbol .slash, 0⟩ '/' = .absorb ⟨.slashes, 0⟩ := by decide
    have breaks : ahead later = '\n' := by
      cases later with
      | nil => rfl
      | cons c rest => simpa [LineOver, ahead] using isOver
    rw [breaks]
    cases line with
    | nil =>
        refine ⟨⟨.slashes, 0⟩, ?_, by decide, fun _ => rfl⟩
        rw [State.run?_cons slash (by decide), State.run?_cons again (by decide)]
        rfl
    | cons c rest =>
        simp only [List.mem_cons, not_or] at oneLine
        have notSlash : c ≠ '/' := by simpa using notDoc
        have first : State.next ⟨.slashes, 0⟩ c = .absorb ⟨.lineComment, 0⟩ := by
          simp [State.next, notSlash, Ne.symm oneLine.1]
        refine ⟨⟨.lineComment, 0⟩, ?_, by decide, fun _ => rfl⟩
        rw [State.run?_cons slash (by decide), State.run?_cons again (by decide),
          State.run?_cons first (by decide)]
        exact run?_lineComment oneLine.2

end State

theorem Fresh.scan_plainComment {scanner : Scanner} {text later : List Char}
    (fresh : scanner.Fresh) (plain : IsPlainComment text later) :
    ∃ after : Scanner, after.Fresh ∧ scanner.scan (text ++ later) = after.scan later := by
  obtain ⟨state, ran, complete, silent⟩ := State.run?_plainComment plain
  obtain ⟨after, rfl, _, scanned⟩ := scan_run (fresh.1.symm ▸ ran)
  refine ⟨after.reset, reset_fresh after, ?_⟩
  have noToken : after.pendingToken? = none := by simp [pendingToken?, silent]
  rw [scanned, scan_complete complete, noToken]
  cases after.reset.scan later <;> rfl

theorem counts_of_feed {scanner after : Scanner} {c : Char} (counts : scanner.state.Counts)
    (fed : (scanner.feed c).outcome = .ok after) : after.state.Counts := by
  unfold feed at fed
  split at fed
  next next absorbed =>
    cases fed
    exact State.counts_of_absorb counts absorbed
  next => simp at fed
  next =>
    simp only at fed
    split at fed
    next =>
      cases fed
      exact fun _ => rfl
    next => simp at fed

theorem counts_of_feedAll {scanner after : Scanner} {chars : List Char} {tokens : List Token}
    (counts : scanner.state.Counts) (fed : scanner.feedAll chars = .ok (tokens, after)) :
    after.state.Counts := by
  have step {before after : Scanner} {c : Char} (counts : before.state.Counts)
      (fed : (before.feed c).outcome = .ok after) :
      after.state.Counts ∧ ∀ token ∈ (before.feed c).token, True :=
    ⟨counts_of_feed counts fed, fun _ _ => trivial⟩
  exact (feedAll_invariant step counts fed).1

theorem fresh_of_start {scanner : Scanner} {chars : List Char} {tokens : List Token}
    (fed : initial.feedAll chars = .ok (tokens, scanner)) (start : scanner.state.mode = .start) :
    scanner.Fresh := by
  have sound : scanner.Sound := (Sound.feedAll (show initial.Sound from rfl) fed).1
  have counts : scanner.state.Counts := counts_of_feedAll (fun _ => rfl) fed
  constructor
  · have depth : scanner.state.depth = 0 := counts (by rw [start]; rfl)
    cases same : scanner.state
    rw [same] at start depth
    rw [State.initial, ← start, ← depth]
  · have empty : scanner.pending.toList = [] := by
      rw [Sound, start] at sound
      exact sound
    exact String.toList_eq_nil_iff.mp empty

theorem respaced_scan_plainComment {scanner : Scanner} {comment later : List Char}
    (between : scanner.Fresh ∨ scanner.state.mode = .lineEnd)
    (plain : IsPlainComment comment later) :
    Matched Respaced (scanner.scan (comment ++ later)) (scanner.scan later) := by
  rcases between with fresh | breaks
  · obtain ⟨after, afterFresh, scanned⟩ := fresh.scan_plainComment plain
    rw [scanned]
    exact ((afterFresh.alike fresh).scan later).mono fun _ _ alike => alike.respaced
  · -- The comment ends the line end, and behind it the blanks of the next one are on their own.
    have complete : scanner.state.next (ahead (comment ++ later)) = .complete := by
      have isSlash : ahead (comment ++ later) = '/' := by
        obtain ⟨rest, shape⟩ := List.head?_eq_some_iff.mp plain.head?_eq
        rw [shape]
        rfl
      have notBlank : Text.isBlank '/' = false := by decide
      simp [State.next, breaks, isSlash, notBlank]
    obtain ⟨after, afterFresh, scanned⟩ := (reset_fresh scanner).scan_plainComment plain
    have matched := rebroken_scan breaks afterFresh later
    rw [scan_complete complete, pendingToken?_lineEnd breaks, scanned]
    generalize scanner.scan later = first at matched ⊢
    generalize after.scan later = second at matched ⊢
    cases matched with
    | error => exact .error
    | ok rebroken => exact .ok ⟨rebroken.1, rebroken.2.symm⟩

end Scanner

theorem Matched.readsScript {first second : Except SourceError (List Token)} {before : List Token}
    {script : Script} (matched : Matched Respaced first second)
    (finished : ∀ tokens, first = .ok tokens → Finished tokens)
    (inner : ∀ token ∈ before, token.kind ≠ .finish)
    (read : ∃ tokens, (before ++ ·) <$> first = .ok tokens ∧ ReadsScript script tokens) :
    ∃ tokens, (before ++ ·) <$> second = .ok tokens ∧ ReadsScript script tokens := by
  obtain ⟨tokens, scanned, reads⟩ := read
  cases matched with
  | error => simp [Functor.map, Except.map] at scanned
  | ok respaced =>
      cases scanned
      exact ⟨_, rfl, reads.respaced inner (finished _ rfl) respaced⟩

theorem Matched.symm {first second : Except SourceError (List Token)}
    (matched : Matched Respaced first second) : Matched Respaced second first := by
  cases matched with
  | error => exact .error
  | ok respaced => exact .ok respaced.symm

/-- Plain comments may stand between tokens and at the ends of lines without any effect. -/
theorem plain_comment_transparent {before comment later : List Char} {tokens : List Token}
    {scanner : Scanner} (fed : Scanner.initial.feedAll (dropMark before) = .ok (tokens, scanner))
    (between : scanner.state.mode = .start ∨ scanner.state.mode = .lineEnd)
    (plain : IsPlainComment comment later) (unmarked : later.head? ≠ some byteOrderMark)
    (script : Script) :
    parse (before ++ comment ++ later) = .ok script ↔ parse (before ++ later) = .ok script := by
  have commented : (comment ++ later).head? ≠ some byteOrderMark := by
    rw [plain.head?_eq]
    decide
  have matched : Matched Respaced (scanner.scan (comment ++ later)) (scanner.scan later) :=
    Scanner.respaced_scan_plainComment (between.imp_left (Scanner.fresh_of_start fed)) plain
  have inner := Scanner.kind_ne_finish_of_feedAll fed
  rw [List.append_assoc, parse_ok_iff_scan, parse_ok_iff_scan, dropMark_append commented,
    dropMark_append unmarked, Scanner.scan_append fed, Scanner.scan_append fed]
  constructor
  · exact matched.readsScript (fun _ => Scanner.finished_of_scan) inner
  · exact matched.symm.readsScript (fun _ => Scanner.finished_of_scan) inner

/-- A comment on a line of its own between a branch and its `else`. -/
theorem plain_comment_transparent_else :
    let before := "if (a) b\n".toList
    let comment := "/* c /* // d */\n**/".toList
    let later := " \n else e".toList
    (∃ tokens scanner, Scanner.initial.feedAll (dropMark before) = .ok (tokens, scanner) ∧
      scanner.state.mode = .lineEnd) ∧
    IsPlainComment comment later ∧ (parse (before ++ later)).isOk = true ∧
    ∀ script, parse (before ++ comment ++ later) = .ok script ↔
      parse (before ++ later) = .ok script := by
  intro before comment later
  have fed : Scanner.initial.feedAll (dropMark before) =
      .ok ([⟨.keyword .if_, "if", ⟨1, 1⟩⟩, ⟨.symbol .leftParen, "", ⟨1, 4⟩⟩, ⟨.ident, "a", ⟨1, 5⟩⟩,
          ⟨.symbol .rightParen, "", ⟨1, 6⟩⟩, ⟨.ident, "b", ⟨1, 8⟩⟩],
        ⟨⟨.lineEnd, 0⟩, "\n", ⟨2, 1⟩, ⟨1, 9⟩⟩) := by
    decide +kernel
  have plain : IsPlainComment comment later := Or.inl ⟨" c /* // d */\n**/".toList, rfl, by decide⟩
  exact ⟨⟨_, _, fed, rfl⟩, plain, by decide +kernel,
    plain_comment_transparent fed (Or.inr rfl) plain (by decide)⟩

end GameScript
