import GameScript.Proofs.Pending

/-!
A text is a row of segments: blanks, comments and the spellings of its tokens. Scanning loses and
invents nothing, and every token stands where its segment starts.
-/

namespace GameScript

open Scanner (State Mode ahead)

inductive Segment where
  | blanks (text : List Char)
  | comment (text : List Char)
  | token (text : List Char) (token : Token)
deriving DecidableEq, Repr

def LineOver (later : List Char) : Prop :=
  ∀ c ∈ later.head?, c = '\n'

def IsComment (text later : List Char) : Prop :=
  (∃ line, text = '/' :: '/' :: line ∧ line.head? ≠ some '/' ∧ '\n' ∉ line ∧ LineOver later) ∨
    ∃ body, text = '/' :: '*' :: body ∧ afterComment 1 body = some []

/-- The text is what the token is read from. A line end takes all blanks after it, a doc comment
takes up its line, and any other token is spelled as it is shown. -/
def Token.Spans (token : Token) (text later : List Char) : Prop :=
  match token.kind with
  | .start | .finish | .comment | .blockComment | .unlisted _ => False
  | .lineEnd =>
      ∃ blanks, text = '\n' :: blanks ∧ blanks.all Text.isBlank = true ∧
        ∀ c ∈ later.head?, Text.isBlank c = false
  | .docComment => ∃ line, text = '/' :: '/' :: '/' :: line ∧ '\n' ∉ line ∧ LineOver later
  | _ => text = token.text.toList

namespace Segment

def text : Segment → List Char
  | blanks text | comment text | token text _ => text

def token? : Segment → Option Token
  | token _ found => some found
  | _ => none

def Valid (before later : List Char) : Segment → Prop
  | blanks text => text ≠ [] ∧ text.all Text.isBlank = true ∧ '\n' ∉ text
  | comment text => IsComment text later
  | token text found => found.position = Position.after before ∧ found.Spans text later

def Row (before : List Char) : List Segment → Prop
  | [] => True
  | segment :: segments =>
      segment.Valid before (segments.flatMap text) ∧ Row (before ++ segment.text) segments

end Segment

namespace Scanner

theorem State.mode_of_absorb {state next : State} {c : Char} (started : state.mode ≠ .start)
    (absorbed : state.next c = .absorb next) :
    next.mode ≠ .start ∧ (next.mode = .lineEnd → state.mode = .lineEnd) := by
  obtain ⟨mode, depth⟩ := state
  cases mode with
  | start => exact absurd rfl started
  | symbol sign =>
      simp only [State.next] at absorbed
      split at absorbed <;> try contradiction
      all_goals
        repeat' split at absorbed
        all_goals first | (cases absorbed; simp) | simp at absorbed
  | directive name missing =>
      cases missing <;> simp only [State.next] at absorbed
      all_goals
        split_ifs at absorbed
        try (cases absorbed; simp)
  | _ =>
      simp only [State.next] at absorbed
      repeat' split at absorbed
      all_goals first | (cases absorbed; simp) | simp at absorbed

/-- The token that is under way is over before the rest of the text. Only a line end takes in the
break that stands for the end of the text. -/
def State.Ended (state : State) (later : List Char) : Prop :=
  state.next (ahead later) = .complete ∨ state.mode = .lineEnd ∧ later = []

theorem ended_of_canEnd {scanner : Scanner} (started : scanner.state.mode ≠ .start)
    (ends : scanner.canEnd = true) : scanner.state.Ended [] := by
  unfold canEnd at ends
  split at ends
  next start => exact absurd start started
  next =>
    split at ends
    next next absorbed =>
      have isLineEnd : next.mode = .lineEnd := by simpa using ends
      exact Or.inr ⟨(State.mode_of_absorb started absorbed).2 isLineEnd, rfl⟩
    next complete => exact Or.inl complete
    next => simp at ends

theorem Follows.scan_through {scanner : Scanner} {before rest : List Char} {tokens : List Token}
    (follows : scanner.Follows before) (started : scanner.state.mode ≠ .start)
    (scanned : scanner.scan rest = .ok tokens) :
    ∃ (taken later : List Char) (ended : Scanner) (more : List Token),
      rest = taken ++ later ∧ ended.Follows (before ++ taken) ∧ ended.state.mode ≠ .start ∧
      ended.pending.toList = scanner.pending.toList ++ taken ∧ ended.state.Ended later ∧
      tokens = ended.pendingToken?.toList ++ more ∧ ended.reset.scan later = .ok more := by
  -- Once a token has started, the mode stays started until the token is complete.
  induction rest generalizing scanner before with
  | nil =>
      rw [scan_nil, finish] at scanned
      split at scanned
      next ends =>
        cases scanned
        have isOver := ended_of_canEnd started ends
        exact ⟨[], [], scanner, _, rfl, by simpa using follows, started, by simp, isOver, rfl,
          (reset_fresh scanner).scan_nil⟩
      next => simp at scanned
  | cons c rest ih =>
      cases stepped : scanner.state.next c with
      | absorb next =>
          rw [scan_absorb stepped] at scanned
          have stillStarted := (State.mode_of_absorb started stepped).1
          obtain ⟨taken, later, ended, more, rfl, endFollows, endStarted, pending, others⟩ :=
            ih (follows.absorb stepped) stillStarted scanned
          refine ⟨c :: taken, later, ended, more, rfl, by simpa using endFollows, endStarted, ?_,
            others⟩
          simpa [Scanner.absorb, stillStarted] using pending
      | complete =>
          have complete : scanner.state.next (ahead (c :: rest)) = .complete := stepped
          obtain ⟨more, rfl, scannedLater⟩ := scan_complete_ok complete scanned
          exact ⟨[], c :: rest, scanner, more, rfl, by simpa using follows, started, by simp,
            Or.inl complete, rfl, scannedLater⟩
      | reject kind =>
          rw [scan_reject stepped] at scanned
          simp at scanned

end Scanner

/-! What stands pending at the end of a token. -/

theorem LineOver.of_ahead {later : List Char} (isBreak : ahead later = '\n') : LineOver later := by
  cases later with
  | nil => simp [LineOver]
  | cons c rest => simpa [LineOver, ahead] using isBreak

theorem Scanner.State.Ended.lineOver {state : State} {later : List Char} (isOver : state.Ended later)
    (inLine : state.mode ∈ [Mode.slashes, .docSlashes, .lineComment, .docComment]) :
    LineOver later := by
  obtain ⟨mode, depth⟩ := state
  rcases isOver with complete | ⟨isLineEnd, _⟩
  · apply LineOver.of_ahead
    simp only [List.mem_cons, List.not_mem_nil, or_false] at inLine
    rcases inLine with rfl | rfl | rfl | rfl
    all_goals
      simp only [State.next] at complete
      split_ifs at complete
      assumption
  · cases isLineEnd
    simp at inLine

theorem Token.text_wordKind (text : String) (position : Position) :
    Token.text ⟨wordKind text, text, position⟩ = text := by
  unfold wordKind
  split
  next word found =>
    have spelled := List.find?_some found
    simpa [Token.text, TokenKind.name] using spelled
  next =>
    split_ifs with _ isUndefined _
    · rfl
    · exact isUndefined.symm
    · rfl
    · rfl

theorem Token.spans_word (text later : List Char) (position : Position) :
    Token.Spans ⟨wordKind (String.ofList text), String.ofList text, position⟩ text later := by
  have shown := congrArg String.toList (Token.text_wordKind (String.ofList text) position)
  rw [String.toList_ofList] at shown
  rcases wordKind_cases (String.ofList text) with ⟨word, kind⟩ | kind | kind | kind | kind
  all_goals
    simp only [kind] at shown ⊢
    exact shown.symm

theorem Scanner.State.spans_token? {state : State} {text later : List Char} {kind : TokenKind}
    {lit : String} (holds : state.mode.Holds text) (delimits : state.Delimits text)
    (isOver : state.Ended later) (emitted : state.mode.token? text = some (kind, lit))
    (position : Position) : Token.Spans ⟨kind, lit, position⟩ text later := by
  obtain ⟨mode, depth⟩ := state
  cases mode with
  | zero | decimal | fraction | exponent =>
      cases emitted
      simp [Token.Spans, Token.text]
  | hex | binary =>
      obtain ⟨digits, rfl⟩ := delimits
      cases emitted
      simp [Token.Spans, Token.text]
  | stringClosed =>
      obtain ⟨body, rfl, _⟩ := holds
      cases emitted
      simp [Token.Spans, Token.text, inner_delimited]
  | charClosed =>
      obtain ⟨body, rfl⟩ := delimits
      cases emitted
      simp [Token.Spans, Token.text, inner_delimited]
  | docSlashes =>
      cases emitted
      exact ⟨[], holds, List.not_mem_nil, isOver.lineOver (by simp)⟩
  | docComment =>
      obtain ⟨line, rfl, oneLine⟩ := holds
      cases emitted
      exact ⟨line, rfl, oneLine, isOver.lineOver (by simp)⟩
  | symbol sign =>
      cases emitted
      exact holds
  | directive name missing =>
      cases missing with
      | nil =>
          cases emitted
          have whole : text ++ [] = name.text.toList := delimits
          simpa [Token.Spans, Token.text, TokenKind.name] using whole
      | cons letter missing => simp [Mode.token?] at emitted
  | lineEnd =>
      obtain ⟨blanks, rfl, allBlank⟩ := delimits
      cases emitted
      refine ⟨blanks, rfl, allBlank, ?_⟩
      rcases isOver with complete | ⟨_, rfl⟩
      · simp only [State.next] at complete
        split_ifs at complete with blank
        cases later with
        | nil => simp
        | cons c rest => simpa [ahead] using blank
      · simp
  | word =>
      cases emitted
      exact Token.spans_word text later position
  | _ => simp [Mode.token?] at emitted

theorem Scanner.State.isComment_of_token? {state : State} {text later : List Char}
    (started : state.mode ≠ .start) (holds : state.mode.Holds text)
    (delimits : state.Delimits text) (isOver : state.Ended later)
    (silent : state.mode.token? text = none) : IsComment text later := by
  obtain ⟨mode, depth⟩ := state
  cases mode with
  | start => exact absurd rfl started
  | slashes => exact Or.inl ⟨[], holds, by simp, by simp, isOver.lineOver (by simp)⟩
  | lineComment =>
      obtain ⟨first, line, rfl, plain, oneLine⟩ := delimits
      exact Or.inl ⟨first :: line, rfl, by simpa using plain, oneLine, isOver.lineOver (by simp)⟩
  | block =>
      obtain ⟨body, rfl, same⟩ := delimits
      -- Only outside of all comments does the next character end this one.
      have closed : depth = 0 := by
        rcases isOver with complete | ⟨isLineEnd, _⟩
        · simp only [State.next] at complete
          split_ifs at complete with outside
          exact outside
        · cases isLineEnd
      have ended := same []
      rw [closed] at ended
      exact Or.inr ⟨body, rfl, by simpa [afterComment] using ended⟩
  | directive name missing =>
      cases missing with
      | nil => simp [Mode.token?] at silent
      | cons letter missing =>
          rcases isOver with complete | ⟨isLineEnd, _⟩
          · simp only [State.next] at complete
            split_ifs at complete
          · cases isLineEnd
  | zero | decimal | fraction | exponent | hex | binary | stringClosed | charClosed | docSlashes
  | docComment | symbol | lineEnd | word => simp [Mode.token?] at silent
  | _ =>
      -- The other modes are in the middle of a token.
      rcases isOver with complete | ⟨isLineEnd, _⟩
      · simp only [State.next] at complete
        repeat' split at complete
        all_goals cases complete
      · cases isLineEnd

namespace Scanner

theorem Follows.segment {scanner : Scanner} {before later : List Char}
    (follows : scanner.Follows before) (started : scanner.state.mode ≠ .start)
    (isOver : scanner.state.Ended later) :
    ∃ (earlier : List Char) (segment : Segment), before = earlier ++ segment.text ∧
      segment.text = scanner.pending.toList ∧ segment.token? = scanner.pendingToken? ∧
      segment.Valid earlier later := by
  obtain ⟨earlier, split, origin⟩ := follows.started
  cases emitted : scanner.state.mode.token? scanner.pending.toList with
  | none =>
      refine ⟨earlier, .comment scanner.pending.toList, split, rfl, ?_, ?_⟩
      · simp [pendingToken?, emitted, Segment.token?]
      · exact State.isComment_of_token? started follows.sound follows.delimits isOver emitted
  | some found =>
      obtain ⟨kind, lit⟩ := found
      refine ⟨earlier, .token scanner.pending.toList ⟨kind, lit, scanner.origin⟩, split, rfl, ?_, ?_⟩
      · simp [pendingToken?, emitted, Segment.token?]
      · exact ⟨origin started,
          State.spans_token? follows.sound follows.delimits isOver emitted scanner.origin⟩

theorem Mode.blank_of_ofChar? {c : Char} (found : Mode.ofChar? c = some .start) :
    Text.isBlank c = true ∧ c ≠ '\n' := by
  unfold Mode.ofChar? at found
  split at found
  · simp at found
  · split_ifs at found with _ isBreak _ _ blank <;> cases found
    exact ⟨blank, isBreak⟩

theorem Follows.first_segment {scanner : Scanner} {before rest : List Char} {c : Char}
    {tokens : List Token} (follows : scanner.Follows before) (fresh : scanner.Fresh)
    (scanned : scanner.scan (c :: rest) = .ok tokens) :
    ∃ (segment : Segment) (taken later : List Char) (after : Scanner) (more : List Token),
      segment.text = c :: taken ∧ rest = taken ++ later ∧ segment.Valid before later ∧
      tokens = segment.token?.toList ++ more ∧ after.Follows (before ++ segment.text) ∧
      after.Fresh ∧ after.scan later = .ok more := by
  cases found : Mode.ofChar? c with
  | none =>
      have rejected : scanner.state.next c = .reject .invalidCharacter := by
        simp [fresh.1, State.initial, State.next, found]
      rw [scan_reject rejected] at scanned
      simp at scanned
  | some mode =>
      have absorbed := fresh.next_of_ofChar? found
      rw [scan_absorb absorbed] at scanned
      have entered := follows.absorb absorbed
      by_cases blank : mode = .start
      · subst mode
        obtain ⟨isBlank, notBreak⟩ := Mode.blank_of_ofChar? found
        refine ⟨.blanks [c], [], rest, _, tokens, rfl, rfl, ?_, rfl, entered, ⟨rfl, rfl⟩, scanned⟩
        exact ⟨by simp, by simpa using isBlank, by simpa using Ne.symm notBreak⟩
      · obtain ⟨taken, later, ended, more, rfl, endFollows, endStarted, pending, isOver, rfl,
          scannedLater⟩ := entered.scan_through blank scanned
        obtain ⟨earlier, segment, split, spelled, emitted, valid⟩ :=
          endFollows.segment endStarted isOver
        have text : segment.text = c :: taken := by
          rw [spelled, pending]
          simp [Scanner.absorb, blank, fresh.2]
        obtain rfl : before = earlier := by
          rw [text] at split
          simpa using split
        refine ⟨segment, taken, later, ended.reset, more, text, rfl, valid, by rw [emitted], ?_,
          reset_fresh ended, scannedLater⟩
        rw [← split]
        exact endFollows.reset

theorem Follows.segments {scanner : Scanner} {before rest : List Char} {tokens : List Token}
    (follows : scanner.Follows before) (fresh : scanner.Fresh)
    (scanned : scanner.scan rest = .ok tokens) :
    ∃ segments : List Segment, segments.flatMap Segment.text = rest ∧
      tokens = segments.filterMap Segment.token? ++
        [⟨.finish, "", Position.after (before ++ rest)⟩] ∧
      Segment.Row before segments := by
  -- A segment takes at least one character, so what is left is shorter.
  induction size : rest.length using Nat.strongRecOn
    generalizing scanner before rest tokens with
  | ind length ih =>
      cases rest with
      | nil =>
          rw [fresh.scan_nil] at scanned
          cases scanned
          refine ⟨[], rfl, ?_, trivial⟩
          simp [follows.position]
      | cons c rest =>
          obtain ⟨segment, taken, later, after, more, text, rfl, valid, rfl, afterFollows,
            afterFresh, scannedLater⟩ := follows.first_segment fresh scanned
          have shorter : later.length < length := by
            simp only [← size, List.length_cons, List.length_append]
            omega
          obtain ⟨segments, whole, others, row⟩ :=
            ih later.length shorter afterFollows afterFresh scannedLater rfl
          refine ⟨segment :: segments, ?_, ?_, ?_, row⟩
          · simp [text, whole]
          · rw [others, List.filterMap_cons, text]
            cases segment.token? <;> simp
          · rwa [whole]

end Scanner

theorem tokenize_ok {chars : List Char} {tokens : List Token} (scanned : tokenize chars = .ok tokens) :
    ∃ others, tokens = Token.first :: others ∧ Scanner.initial.scan (dropMark chars) = .ok others := by
  rw [tokenize_eq_scan] at scanned
  cases found : Scanner.initial.scan (dropMark chars) with
  | error reason => simp [found, Functor.map, Except.map] at scanned
  | ok others =>
      rw [found] at scanned
      cases scanned
      exact ⟨others, rfl, rfl⟩

/-- A text that is scanned is a row of segments: its tokens are those of the segments, in order and
each where its segment starts, and the closing token stands at the end of the text. -/
theorem tokenize_segments {chars : List Char} {tokens : List Token}
    (scanned : tokenize chars = .ok tokens) :
    ∃ segments : List Segment, segments.flatMap Segment.text = dropMark chars ∧
      tokens = Token.first :: segments.filterMap Segment.token? ++
        [⟨.finish, "", Position.after (dropMark chars)⟩] ∧
      Segment.Row [] segments := by
  obtain ⟨others, rfl, found⟩ := tokenize_ok scanned
  obtain ⟨segments, whole, emitted, row⟩ :=
    Scanner.initial_follows.segments Scanner.initial_fresh found
  exact ⟨segments, whole, by simp [emitted], row⟩

/-- Comments inside a comment, an empty line and a doc comment that ends the text. -/
theorem tokenize_segments_nested :
    let chars := "x/* a /* b */ */ <= 0x1F//c\n \n\t\"s\"///d".toList
    let tokens : List Token :=
      [Token.first, ⟨.ident, "x", ⟨1, 1⟩⟩, ⟨.symbol .lessEqual, "", ⟨1, 18⟩⟩,
        ⟨.hex, "1F", ⟨1, 21⟩⟩, ⟨.lineEnd, "", ⟨1, 28⟩⟩, ⟨.string, "s", ⟨3, 2⟩⟩,
        ⟨.docComment, "d", ⟨3, 5⟩⟩, ⟨.finish, "", ⟨3, 9⟩⟩]
    tokenize chars = .ok tokens ∧
      ∃ segments : List Segment, segments.flatMap Segment.text = dropMark chars ∧
        tokens = Token.first :: segments.filterMap Segment.token? ++
          [⟨.finish, "", Position.after (dropMark chars)⟩] ∧
        Segment.Row [] segments :=
  ⟨by decide +kernel, tokenize_segments (by decide +kernel)⟩

end GameScript
