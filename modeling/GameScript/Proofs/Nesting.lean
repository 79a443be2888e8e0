import GameScript.Proofs.Comments

/-!
How block comments end. Read from the left, the marks of a text do not overlap: each `/*` opens one
more comment and each `*/` closes one. The machine follows this count with one character at a time,
its counter never wraps, and outside of comments it stands at zero.
-/

namespace GameScript

open Scanner (State Mode ahead)

/-- The end of the comments that stand open: the text up to where the last of them is closed and what
comes after, or the text before the star that opens one more than can be counted, or none. -/
inductive CommentEnd where
  | closed (inside later : List Char)
  | tooDeep (inside : List Char)
  | missing
deriving DecidableEq, Repr

def CommentEnd.behind (taken : List Char) : CommentEnd → CommentEnd
  | closed inside later => closed (taken ++ inside) later
  | tooDeep inside => tooDeep (taken ++ inside)
  | missing => missing

def commentEnd (limit : Nat) : Nat → List Char → CommentEnd
  | 0, rest => .closed [] rest
  | _ + 1, [] => .missing
  | depth + 1, '/' :: '*' :: rest =>
      if depth + 1 = limit then .tooDeep ['/']
      else (commentEnd limit (depth + 2) rest).behind ['/', '*']
  | depth + 1, '*' :: '/' :: rest => (commentEnd limit depth rest).behind ['*', '/']
  | depth + 1, c :: rest => (commentEnd limit (depth + 1) rest).behind [c]

theorem commentEnd_cons {limit depth : Nat} {c : Char} {rest : List Char}
    (notOpen : ∀ later, c = '/' → rest = '*' :: later → False)
    (notClose : ∀ later, c = '*' → rest = '/' :: later → False) :
    commentEnd limit (depth + 1) (c :: rest) = (commentEnd limit (depth + 1) rest).behind [c] := by
  rw [commentEnd]
  · exact notOpen
  · exact notClose

theorem CommentEnd.behind_eq_closed {taken inside later : List Char} {ending : CommentEnd}
    (ended : ending.behind taken = .closed inside later) :
    ∃ rest, inside = taken ++ rest ∧ ending = .closed rest later := by
  cases ending with
  | closed rest after =>
      cases ended
      exact ⟨rest, rfl, rfl⟩
  | tooDeep | missing => simp [behind] at ended

theorem commentEnd_closed {limit depth : Nat} {text inside later : List Char}
    (ended : commentEnd limit depth text = .closed inside later) :
    text = inside ++ later ∧
      ∀ other, commentEnd limit depth (inside ++ other) = .closed inside other := by
  induction depth, text using commentEnd.induct limit generalizing inside with
  | case1 rest =>
      rw [commentEnd] at ended
      cases ended
      exact ⟨rfl, fun other => by rw [List.nil_append, commentEnd]⟩
  | case2 depth => simp [commentEnd] at ended
  | case3 depth rest full =>
      rw [commentEnd, if_pos full] at ended
      cases ended
  | case4 depth rest notFull ih =>
      rw [commentEnd, if_neg notFull] at ended
      obtain ⟨taken, rfl, endedThere⟩ := CommentEnd.behind_eq_closed ended
      obtain ⟨split, anyRest⟩ := ih endedThere
      refine ⟨by rw [split]; rfl, fun other => ?_⟩
      rw [List.append_assoc, List.cons_append, List.cons_append, commentEnd, if_neg notFull]
      rw [List.nil_append, anyRest]
      rfl
  | case5 depth rest ih =>
      rw [commentEnd] at ended
      obtain ⟨taken, rfl, endedThere⟩ := CommentEnd.behind_eq_closed ended
      obtain ⟨split, anyRest⟩ := ih endedThere
      refine ⟨by rw [split]; rfl, fun other => ?_⟩
      rw [List.append_assoc, List.cons_append, List.cons_append, commentEnd]
      rw [List.nil_append, anyRest]
      rfl
  | case6 depth c rest notOpen notClose ih =>
      rw [commentEnd_cons notOpen notClose] at ended
      obtain ⟨taken, rfl, endedThere⟩ := CommentEnd.behind_eq_closed ended
      obtain ⟨rfl, anyRest⟩ := ih endedThere
      -- The mark that closes the comment is still to come, so the next character is known.
      obtain ⟨d, more, rfl⟩ : ∃ d more, taken = d :: more := by
        cases taken with
        | nil => simpa [commentEnd] using anyRest []
        | cons d more => exact ⟨d, more, rfl⟩
      refine ⟨rfl, fun other => ?_⟩
      have noOpen (last : List Char) : c = '/' → d :: more ++ other = '*' :: last → False := by
        intro slash star
        cases star
        exact notOpen _ slash rfl
      have noClose (last : List Char) : c = '*' → d :: more ++ other = '/' :: last → False := by
        intro star slash
        cases slash
        exact notClose _ star rfl
      rw [List.singleton_append, List.cons_append, commentEnd_cons noOpen noClose, anyRest]
      rfl

/-- Scanning a text that starts inside of a comment comes to the end of the comment: to a state that
is done with it, to a failure at the star that opens one comment too many, or to a failure at the
start of the comment. -/
def CommentEnd.Describes (scanner : Scanner) (before text : List Char) : CommentEnd → Prop
  | closed inside later =>
      ∃ after : Scanner, after.state = ⟨.block, 0⟩ ∧
        after.position = Position.after (before ++ inside) ∧ scanner.scan text = after.scan later
  | tooDeep inside => inside ++ ['*'] <+: text ∧
      scanner.scan text = .error ⟨.commentDepth, Position.after (before ++ inside), "*"⟩
  | missing => scanner.scan text = .error ⟨.unexpectedEnd, scanner.origin, ""⟩

namespace Scanner

section Inside

variable {scanner : Scanner} {depth : UInt8} {c : Char} {rest : List Char}

theorem position_absorb {before : List Char} {next : State}
    (position : scanner.position = Position.after before) :
    (scanner.absorb next c).position = Position.after (before ++ [c]) := by
  rw [Position.after_concat, ← position]
  rfl

theorem origin_absorb {next : State} (started : scanner.state.mode ≠ .start) :
    (scanner.absorb next c).origin = scanner.origin := by
  simp [absorb, started]

theorem scan_block_nil (block : scanner.state = ⟨.block, depth⟩) (inside : depth ≠ 0) :
    scanner.scan [] = .error ⟨.unexpectedEnd, scanner.origin, ""⟩ := by
  have unfinished : scanner.canEnd = false := by
    simp [canEnd, block, State.next, inside]
  rw [scan_nil, finish, unfinished]
  rfl

theorem State.next_half {mode : Mode}
    (half : mode = .blockSlash ∧ c ≠ '*' ∨ mode = .blockStar ∧ c ≠ '/') (inside : depth ≠ 0) :
    ∃ next : State, State.next ⟨mode, depth⟩ c = .absorb next ∧
      State.next ⟨.block, depth⟩ c = .absorb next := by
  rcases half with ⟨rfl, notStar⟩ | ⟨rfl, notSlash⟩
  · by_cases again : c = '/'
    · exact ⟨⟨.blockSlash, depth⟩, by simp [State.next, again, inside]⟩
    · exact ⟨⟨.block, depth⟩, by simp [State.next, again, notStar, inside]⟩
  · by_cases again : c = '*'
    · exact ⟨⟨.blockStar, depth⟩, by simp [State.next, again, inside]⟩
    · exact ⟨⟨.block, depth⟩, by simp [State.next, again, notSlash, inside]⟩

theorem scan_half {mode : Mode} (state : scanner.state = ⟨mode, depth⟩) (inside : depth ≠ 0)
    (half : mode = .blockSlash ∧ rest.head? ≠ some '*' ∨
      mode = .blockStar ∧ rest.head? ≠ some '/') :
    scanner.scan rest = { scanner with state := ⟨.block, depth⟩ }.scan rest := by
  have started : scanner.state.mode ≠ .start := by
    rcases half with ⟨rfl, _⟩ | ⟨rfl, _⟩ <;> simp [state]
  cases rest with
  | nil =>
      have flat : { scanner with state := ⟨.block, depth⟩ }.state = ⟨.block, depth⟩ := rfl
      have unfinished : scanner.canEnd = false := by
        rcases half with ⟨rfl, _⟩ | ⟨rfl, _⟩ <;> simp [canEnd, state, State.next]
      rw [scan_nil, finish, unfinished, scan_block_nil flat inside]
      rfl
  | cons c rest =>
      obtain ⟨next, absorbed, absorbedToo⟩ :=
        State.next_half (c := c) (by simpa using half) inside
      have same : scanner.absorb next c =
          { scanner with state := ⟨.block, depth⟩ }.absorb next c := by
        simp [absorb, started]
      rw [scan_absorb (state ▸ absorbed), same]
      exact (scan_absorb absorbedToo rest).symm

theorem scan_block_other (block : scanner.state = ⟨.block, depth⟩) (inside : depth ≠ 0)
    (notOpen : c = '/' → rest.head? ≠ some '*') (notClose : c = '*' → rest.head? ≠ some '/') :
    scanner.scan (c :: rest) = (scanner.absorb ⟨.block, depth⟩ c).scan rest := by
  by_cases slash : c = '/'
  · have absorbed : scanner.state.next c = .absorb ⟨.blockSlash, depth⟩ := by
      simp [block, State.next, inside, slash]
    rw [scan_absorb absorbed, scan_half rfl inside (Or.inl ⟨rfl, notOpen slash⟩)]
    rfl
  · by_cases star : c = '*'
    · have absorbed : scanner.state.next c = .absorb ⟨.blockStar, depth⟩ := by
        simp [block, State.next, inside, star]
      rw [scan_absorb absorbed, scan_half rfl inside (Or.inr ⟨rfl, notClose star⟩)]
      rfl
    · have absorbed : scanner.state.next c = .absorb ⟨.block, depth⟩ := by
        simp [block, State.next, inside, slash, star]
      exact scan_absorb absorbed rest

theorem scan_block_slash (block : scanner.state = ⟨.block, depth⟩) (inside : depth ≠ 0) :
    scanner.scan ('/' :: rest) = (scanner.absorb ⟨.blockSlash, depth⟩ '/').scan rest := by
  have absorbed : scanner.state.next '/' = .absorb ⟨.blockSlash, depth⟩ := by
    simp [block, State.next, inside]
  exact scan_absorb absorbed rest

theorem scan_block_close (block : scanner.state = ⟨.block, depth⟩) (inside : depth ≠ 0) :
    scanner.scan ('*' :: '/' :: rest) =
      ((scanner.absorb ⟨.blockStar, depth⟩ '*').absorb ⟨.block, depth - 1⟩ '/').scan rest := by
  have star : scanner.state.next '*' = .absorb ⟨.blockStar, depth⟩ := by
    simp [block, State.next, inside]
  have slash : State.next ⟨.blockStar, depth⟩ '/' = .absorb ⟨.block, depth - 1⟩ := by
    simp [State.next]
  rw [scan_absorb star]
  exact scan_absorb slash rest

end Inside

theorem describes_behind {scanner after : Scanner} {before taken text : List Char}
    {ending : CommentEnd} (scanned : scanner.scan (taken ++ text) = after.scan text)
    (origin : after.origin = scanner.origin)
    (describes : ending.Describes after (before ++ taken) text) :
    (ending.behind taken).Describes scanner before (taken ++ text) := by
  cases ending with
  | closed inside later =>
      obtain ⟨last, state, position, scannedOn⟩ := describes
      refine ⟨last, state, ?_, scanned.trans scannedOn⟩
      rw [position, List.append_assoc]
  | tooDeep inside =>
      obtain ⟨⟨later, split⟩, failed⟩ := describes
      refine ⟨⟨later, by rw [← split]; simp⟩, scanned.trans ?_⟩
      rw [failed, List.append_assoc]
  | missing =>
      refine scanned.trans ?_
      rw [← origin]
      exact describes

theorem describes_commentEnd {scanner : Scanner} {depth : UInt8} {before text : List Char}
    (block : scanner.state = ⟨.block, depth⟩)
    (position : scanner.position = Position.after before) :
    (commentEnd 255 depth.toNat text).Describes scanner before text := by
  generalize count : depth.toNat = height
  -- The induction follows the marks of the text, and the machine takes them one character at a
  -- time.
  induction height, text using commentEnd.induct 255 generalizing scanner depth before with
  | case1 rest =>
      obtain rfl : depth = 0 := UInt8.toNat_inj.mp count
      rw [commentEnd]
      exact ⟨scanner, block, by rwa [List.append_nil], rfl⟩
  | case2 height =>
      have inside : depth ≠ 0 := by rintro rfl; simp at count
      exact scan_block_nil block inside
  | case3 height rest full =>
      have inside : depth ≠ 0 := by rintro rfl; simp at count
      obtain rfl : depth = 255 := UInt8.toNat_inj.mp (count.trans full)
      have rejected : State.next ⟨.blockSlash, 255⟩ '*' = .reject .commentDepth := by decide
      rw [commentEnd, if_pos full]
      refine ⟨⟨rest, rfl⟩, ?_⟩
      rw [scan_block_slash block inside, scan_reject rejected, misplaced, position_absorb position]
      rfl
  | case4 height rest notFull ih =>
      have inside : depth ≠ 0 := by rintro rfl; simp at count
      have shallow : depth ≠ 255 := by rintro rfl; exact notFull (count.symm.trans rfl)
      have absorbed : State.next ⟨.blockSlash, depth⟩ '*' = .absorb ⟨.block, depth + 1⟩ := by
        simp [State.next, shallow]
      have deeper : (depth + 1).toNat = height + 2 := by
        rw [State.depth_succ (by omega), count]
      have scanned : scanner.scan (['/', '*'] ++ rest) =
          ((scanner.absorb ⟨.blockSlash, depth⟩ '/').absorb ⟨.block, depth + 1⟩ '*').scan rest :=
        (scan_block_slash block inside).trans (scan_absorb absorbed rest)
      rw [commentEnd, if_neg notFull]
      refine describes_behind scanned (by simp [absorb, block]) ?_
      rw [List.append_cons]
      exact ih rfl (position_absorb (position_absorb position)) deeper
  | case5 height rest ih =>
      have inside : depth ≠ 0 := by rintro rfl; simp at count
      have shallower : (depth - 1).toNat = height := by
        rw [State.depth_pred (by omega), count]
        rfl
      rw [commentEnd]
      refine describes_behind (scan_block_close block inside) (by simp [absorb, block]) ?_
      rw [List.append_cons]
      exact ih rfl (position_absorb (position_absorb position)) shallower
  | case6 height c rest notOpen notClose ih =>
      have inside : depth ≠ 0 := by rintro rfl; simp at count
      have noOpen : c = '/' → rest.head? ≠ some '*' := by
        intro slash star
        obtain ⟨later, split⟩ := List.head?_eq_some_iff.mp star
        exact notOpen later slash split
      have noClose : c = '*' → rest.head? ≠ some '/' := by
        intro star slash
        obtain ⟨later, split⟩ := List.head?_eq_some_iff.mp slash
        exact notClose later star split
      rw [commentEnd_cons notOpen notClose]
      refine describes_behind (scan_block_other block inside noOpen noClose) ?_ ?_
      · simp [absorb, block]
      · exact ih rfl (position_absorb position) count

/-! Where scanning fails. -/

def Within (scanner : Scanner) (before read : List Char) : Prop :=
  scanner.position = Position.after (before ++ read) ∧
    (scanner.state.mode ≠ .start →
      ∃ part, part <+: read ∧ scanner.origin = Position.after (before ++ part))

theorem Within.absorb {scanner : Scanner} {before read : List Char} {next : State} {c : Char}
    (within : scanner.Within before read) :
    (scanner.absorb next c).Within before (read ++ [c]) := by
  refine ⟨?_, ?_⟩
  · rw [← List.append_assoc]
    exact position_absorb within.1
  · intro started
    have nextStarted : next.mode ≠ .start := started
    by_cases start : scanner.state.mode = .start
    · refine ⟨read, List.prefix_append _ _, ?_⟩
      simpa [Scanner.absorb, start, nextStarted] using within.1
    · obtain ⟨part, isPart, origin⟩ := within.2 start
      refine ⟨part, isPart.trans (List.prefix_append _ _), ?_⟩
      rw [origin_absorb start, origin]

theorem Within.feed {scanner after : Scanner} {before read : List Char} {c : Char}
    (within : scanner.Within before read) (fed : (scanner.feed c).outcome = .ok after) :
    after.Within before (read ++ [c]) := by
  unfold Scanner.feed at fed
  split at fed
  · cases fed
    exact within.absorb
  · simp at fed
  · simp only at fed
    split at fed
    · cases fed
      have anew : scanner.reset.Within before read := ⟨within.1, fun started => absurd rfl started⟩
      exact anew.absorb
    · simp at fed

theorem position_of_feed {scanner : Scanner} {c : Char} {reason : SourceError}
    (failed : (scanner.feed c).outcome = .error reason) : reason.position = scanner.position := by
  unfold feed at failed
  split at failed
  · simp at failed
  · cases failed
    rfl
  · simp only at failed
    split at failed
    · simp at failed
    · cases failed
      rfl

theorem Within.position_of_scan {scanner : Scanner} {before read rest : List Char}
    {reason : SourceError} (within : scanner.Within before read)
    (failed : scanner.scan rest = .error reason) :
    ∃ part, part <+: read ++ rest ∧ reason.position = Position.after (before ++ part) := by
  induction rest generalizing scanner read with
  | nil =>
      rw [scan_nil, finish] at failed
      split at failed
      · simp at failed
      next unfinished =>
        cases failed
        have started : scanner.state.mode ≠ .start := by
          intro start
          exact unfinished (by simp [canEnd, start])
        simpa using within.2 started
  | cons c rest ih =>
      cases fed : (scanner.feed c).outcome with
      | error cause =>
          rw [scan_feed_error fed] at failed
          cases failed
          exact ⟨read, List.prefix_append _ _, (position_of_feed fed).trans within.1⟩
      | ok after =>
          rw [scan_feed fed] at failed
          cases scanned : after.scan rest with
          | ok tokens => simp [scanned, Functor.map, Except.map] at failed
          | error cause =>
              rw [scanned] at failed
              cases failed
              simpa using ih (within.feed fed) scanned

theorem scan_block_closed {scanner : Scanner} (closed : scanner.state = ⟨.block, 0⟩)
    (rest : List Char) : scanner.scan rest = scanner.reset.scan rest := by
  have complete : scanner.state.next (ahead rest) = .complete := by simp [closed, State.next]
  have noToken : scanner.pendingToken? = none := by simp [pendingToken?, closed, Mode.token?]
  rw [scan_complete complete, noToken]
  cases scanner.reset.scan rest <;> rfl

end Scanner

theorem Position.eq_nil_of_after_append {before more : List Char}
    (same : after (before ++ more) = after before) : more = [] := by
  simp only [after, mk.injEq, List.count_append] at same
  have oneLine : '\n' ∉ more := by
    intro member
    have positive := List.count_pos_iff.mpr member
    omega
  have shape : ((before ++ more).reverse.takeWhile (· ≠ '\n')) =
      more.reverse ++ before.reverse.takeWhile (· ≠ '\n') := by
    rw [List.reverse_append, List.takeWhile_append_of_pos]
    intro c member
    have inside : c ∈ more := List.mem_reverse.mp member
    simpa using fun isBreak : c = '\n' => oneLine (isBreak ▸ inside)
  have size := same.2
  rw [shape, List.length_append, List.length_reverse] at size
  exact List.eq_nil_of_length_eq_zero (by omega)

theorem Position.eq_of_after_eq {before text first second : List Char} (isPart : first <+: text)
    (alsoPart : second <+: text) (same : after (before ++ first) = after (before ++ second)) :
    first = second := by
  rcases List.prefix_or_prefix_of_prefix isPart alsoPart with ⟨more, rfl⟩ | ⟨more, rfl⟩
  · rw [← List.append_assoc] at same
    simp [eq_nil_of_after_append same.symm]
  · rw [← List.append_assoc] at same
    simp [eq_nil_of_after_append same]

namespace Scanner

section Ends

variable {scanner : Scanner} {depth : UInt8} {before text : List Char}
  (block : scanner.state = ⟨.block, depth⟩) (position : scanner.position = Position.after before)

include block position

theorem scan_closed {inside later : List Char}
    (ended : commentEnd 255 depth.toNat text = .closed inside later) :
    ∃ after : Scanner, after.Fresh ∧ after.position = Position.after (before ++ inside) ∧
      scanner.scan text = after.scan later := by
  have describes : (commentEnd 255 depth.toNat text).Describes scanner before text :=
    describes_commentEnd block position
  rw [ended] at describes
  obtain ⟨last, closed, lastPosition, scanned⟩ := describes
  exact ⟨last.reset, reset_fresh last, lastPosition, scanned.trans (scan_block_closed closed later)⟩

theorem position_of_closed {inside later : List Char} {reason : SourceError}
    (ended : commentEnd 255 depth.toNat text = .closed inside later)
    (failed : scanner.scan text = .error reason) :
    ∃ part, inside ++ part <+: text ∧
      reason.position = Position.after (before ++ (inside ++ part)) := by
  obtain ⟨after, fresh, afterPosition, scanned⟩ := scan_closed block position ended
  have within : after.Within (before ++ inside) [] := by
    refine ⟨by rwa [List.append_nil], fun started => ?_⟩
    exact absurd (congrArg State.mode fresh.1) started
  obtain ⟨part, isPart, place⟩ := within.position_of_scan (scanned.symm.trans failed)
  refine ⟨part, ?_, by rw [place, List.append_assoc]⟩
  rw [(commentEnd_closed ended).1]
  exact (List.prefix_append_right_inj inside).mpr isPart

theorem commentEnd_eq_tooDeep_iff {inside : List Char} :
    commentEnd 255 depth.toNat text = .tooDeep inside ↔
      inside ++ ['*'] <+: text ∧
      (∀ body later, commentEnd 255 depth.toNat inside ≠ .closed body later) ∧
      scanner.scan text = .error ⟨.commentDepth, Position.after (before ++ inside), "*"⟩ := by
  have describes : (commentEnd 255 depth.toNat text).Describes scanner before text :=
    describes_commentEnd block position
  constructor
  · intro ended
    rw [ended] at describes
    refine ⟨describes.1, ?_, describes.2⟩
    intro body later closed
    obtain ⟨rest, split⟩ := describes.1
    obtain ⟨rfl, anyRest⟩ := commentEnd_closed closed
    rw [← split, List.append_assoc, List.append_assoc, anyRest] at ended
    cases ended
  · rintro ⟨isPart, notClosed, failed⟩
    have shorter : inside <+: text := (List.prefix_append inside ['*']).trans isPart
    cases ended : commentEnd 255 depth.toNat text with
    | closed body later =>
        -- The comment is closed before the error, so that it is closed in the text before the error
        -- too.
        obtain ⟨part, alsoPart, place⟩ := position_of_closed block position ended failed
        obtain rfl : inside = body ++ part := Position.eq_of_after_eq shorter alsoPart place
        exact absurd ((commentEnd_closed ended).2 part) (notClosed body part)
    | tooDeep body =>
        rw [ended] at describes
        obtain ⟨bodyPart, place⟩ := describes
        have same : Position.after (before ++ inside) = Position.after (before ++ body) := by
          simpa [failed] using place
        have bodyShorter : body <+: text := (List.prefix_append body ['*']).trans bodyPart
        rw [Position.eq_of_after_eq shorter bodyShorter same]
    | missing =>
        rw [ended] at describes
        simp [show scanner.scan text = _ from describes] at failed

theorem commentEnd_eq_missing_iff {earlier opening : List Char}
    (origin : scanner.origin = Position.after earlier) (split : before = earlier ++ opening)
    (opened : opening ≠ []) :
    commentEnd 255 depth.toNat text = .missing ↔
      scanner.scan text = .error ⟨.unexpectedEnd, Position.after earlier, ""⟩ := by
  have describes : (commentEnd 255 depth.toNat text).Describes scanner before text :=
    describes_commentEnd block position
  constructor
  · intro ended
    rw [ended] at describes
    rw [← origin]
    exact describes
  · intro failed
    cases ended : commentEnd 255 depth.toNat text with
    | closed body later =>
        obtain ⟨part, _, place⟩ := position_of_closed block position ended failed
        rw [split, List.append_assoc] at place
        have nothing := Position.eq_nil_of_after_append place.symm
        simp [opened] at nothing
    | tooDeep body =>
        rw [ended] at describes
        simp [describes.2] at failed
    | missing => rfl

end Ends

/-- Every state that is reached counts the open comments: none outside of them, at least one with
half a mark pending, and one more or one less after each mark. -/
theorem counts_marks {before : List Char} {tokens : List Token} {scanner : Scanner}
    (fed : initial.feedAll before = .ok (tokens, scanner)) :
    (scanner.state.mode.inBlock = false → scanner.state.depth = 0) ∧
    (scanner.state.mode = .blockSlash ∨ scanner.state.mode = .blockStar →
      1 ≤ scanner.state.depth.toNat) ∧
    (∀ next, scanner.state.mode = .blockStar → scanner.state.next '/' = .absorb next →
      next.depth.toNat + 1 = scanner.state.depth.toNat) ∧
    (∀ next, scanner.state.mode = .blockSlash → scanner.state.next '*' = .absorb next →
      next.depth.toNat = scanner.state.depth.toNat + 1) := by
  have counts : scanner.state.Counts := counts_of_feedAll (fun _ => rfl) fed
  have follows := initial_follows.feedAll fed
  have half : scanner.state.mode = .blockSlash ∨ scanner.state.mode = .blockStar →
      scanner.state.depth.toNat ≠ 0 := by
    have delimits := follows.delimits
    rintro (slash | star)
    · rw [State.Delimits, slash] at delimits
      exact delimits.1
    · rw [State.Delimits, star] at delimits
      exact delimits.1
  refine ⟨counts, fun mode => Nat.one_le_iff_ne_zero.mpr (half mode), ?_, ?_⟩
  · intro next star absorbed
    have inside := half (Or.inr star)
    simp only [State.next, star, if_true] at absorbed
    cases absorbed
    rw [State.depth_pred inside]
    omega
  · intro next slash absorbed
    have other : ('*' : Char) ≠ '/' := by decide
    simp only [State.next, slash, other, if_false, if_true] at absorbed
    split at absorbed
    · simp at absorbed
    next shallow =>
      cases absorbed
      exact State.depth_succ fun full => shallow (UInt8.toNat_inj.mp full)

theorem comment_opened {before : List Char} {tokens : List Token} {scanner : Scanner}
    (fed : initial.feedAll before = .ok (tokens, scanner))
    (slash : scanner.state.mode = .symbol .slash) :
    ∃ (earlier : List Char) (opened : Scanner), before = earlier ++ ['/'] ∧
      opened.state = ⟨.block, 1⟩ ∧ opened.position = Position.after (before ++ ['*']) ∧
      opened.origin = Position.after earlier ∧
      ∀ text, initial.scan (before ++ '*' :: text) = (tokens ++ ·) <$> opened.scan text := by
  have follows := initial_follows.feedAll fed
  have started : scanner.state.mode ≠ .start := by simp [slash]
  have pending : scanner.pending.toList = ['/'] := by
    have sound := follows.sound
    rw [Sound, slash] at sound
    exact sound
  obtain ⟨earlier, split, origin⟩ := follows.started
  rw [pending] at split
  have absorbed : scanner.state.next '*' = .absorb ⟨.block, 1⟩ := by simp [State.next, slash]
  refine ⟨earlier, scanner.absorb ⟨.block, 1⟩ '*', split, rfl, position_absorb follows.position,
    ?_, ?_⟩
  · rw [origin_absorb started]
    exact origin started
  · intro text
    rw [scan_append fed, scan_absorb absorbed]

end Scanner

theorem map_eq_error_iff {tokens : List Token} {result : Except SourceError (List Token)}
    {reason : SourceError} : (tokens ++ ·) <$> result = .error reason ↔ result = .error reason := by
  cases result <;> simp [Functor.map, Except.map]

/-- Block comments are matched exactly. Behind the mark that closes the outermost one, scanning
goes on between tokens; it fails at the star of a mark that opens the 256th of them, and at the
start of a comment that the text does not close. The counter of open comments never wraps, and
stands at zero outside of comments. -/
theorem block_comment_matched {before : List Char} {tokens : List Token} {scanner : Scanner}
    (fed : Scanner.initial.feedAll before = .ok (tokens, scanner)) :
    ((scanner.state.mode.inBlock = false → scanner.state.depth = 0) ∧
      (scanner.state.mode = .blockSlash ∨ scanner.state.mode = .blockStar →
        1 ≤ scanner.state.depth.toNat) ∧
      (∀ next, scanner.state.mode = .blockStar → scanner.state.next '/' = .absorb next →
        next.depth.toNat + 1 = scanner.state.depth.toNat) ∧
      (∀ next, scanner.state.mode = .blockSlash → scanner.state.next '*' = .absorb next →
        next.depth.toNat = scanner.state.depth.toNat + 1)) ∧
    (scanner.state.mode = .symbol .slash → ∃ earlier, before = earlier ++ ['/'] ∧ ∀ text,
      (∀ inside later, commentEnd 255 1 text = .closed inside later →
        text = inside ++ later ∧ ∃ after : Scanner, after.Fresh ∧
          after.position = Position.after (before ++ '*' :: inside) ∧
          Scanner.initial.scan (before ++ '*' :: text) = (tokens ++ ·) <$> after.scan later) ∧
      (∀ inside, commentEnd 255 1 text = .tooDeep inside ↔
        inside ++ ['*'] <+: text ∧ (∀ body later, commentEnd 255 1 inside ≠ .closed body later) ∧
          Scanner.initial.scan (before ++ '*' :: text) =
            .error ⟨.commentDepth, Position.after (before ++ '*' :: inside), "*"⟩) ∧
      (commentEnd 255 1 text = .missing ↔
        Scanner.initial.scan (before ++ '*' :: text) =
          .error ⟨.unexpectedEnd, Position.after earlier, ""⟩)) := by
  refine ⟨Scanner.counts_marks fed, fun slash => ?_⟩
  obtain ⟨earlier, opened, split, block, position, origin, scanned⟩ :=
    Scanner.comment_opened fed slash
  refine ⟨earlier, split, fun text => ⟨?_, ?_, ?_⟩⟩
  · intro inside later ended
    obtain ⟨after, fresh, afterPosition, scannedOn⟩ := Scanner.scan_closed block position ended
    refine ⟨(commentEnd_closed ended).1, after, fresh, by simpa using afterPosition, ?_⟩
    rw [scanned, scannedOn]
  · intro inside
    have failsThere : commentEnd 255 1 text = .tooDeep inside ↔ _ :=
      Scanner.commentEnd_eq_tooDeep_iff block position
    rw [scanned, map_eq_error_iff, failsThere, List.append_assoc, List.singleton_append]
    rfl
  · have longer : before ++ ['*'] = earlier ++ ['/', '*'] := by simp [split]
    rw [scanned, map_eq_error_iff]
    exact Scanner.commentEnd_eq_missing_iff block position origin longer (by simp)

/-- Marks that touch: `/*/` opens a second comment, and `**/*/` closes both. -/
theorem block_comment_matched_touching :
    let before := "x /".toList
    let text := "/*/ **/*/y".toList
    let tokens : List Token := [⟨.ident, "x", ⟨1, 1⟩⟩]
    let scanner : Scanner := ⟨⟨.symbol .slash, 0⟩, "/", ⟨1, 4⟩, ⟨1, 3⟩⟩
    Scanner.initial.feedAll before = .ok (tokens, scanner) ∧
      commentEnd 255 1 text = .closed "/*/ **/*/".toList "y".toList ∧
      commentEnd 255 1 "/*/ **/".toList = .missing ∧
      (∃ after : Scanner, after.Fresh ∧ after.position = ⟨1, 14⟩ ∧
        Scanner.initial.scan (before ++ '*' :: text) = (tokens ++ ·) <$> after.scan "y".toList) ∧
      Scanner.initial.scan (before ++ '*' :: "/*/ **/".toList) =
        .error ⟨.unexpectedEnd, ⟨1, 3⟩, ""⟩ := by
  intro before text tokens scanner
  have fed : Scanner.initial.feedAll before = .ok (tokens, scanner) := by decide +kernel
  have closed : commentEnd 255 1 text = .closed "/*/ **/*/".toList "y".toList := by decide
  have missing : commentEnd 255 1 "/*/ **/".toList = .missing := by decide
  obtain ⟨earlier, split, ends⟩ := (block_comment_matched fed).2 rfl
  obtain ⟨_, after, fresh, position, scanned⟩ := (ends text).1 _ _ closed
  have start : earlier = "x ".toList := (List.append_inj' split rfl).1.symm
  refine ⟨fed, closed, missing, ⟨after, fresh, position.trans (by decide), scanned⟩, ?_⟩
  rw [(ends "/*/ **/".toList).2.2.mp missing, start]
  rfl

end GameScript
