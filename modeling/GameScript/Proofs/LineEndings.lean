import GameScript.Proofs.Joining

/-!
Line endings. A carriage return in front of a line break ends the token that the break would end, or
goes with the break into the blanks or the comment around it. So two scanners, one of which meets
carriage returns, stay in the same state and on the same line.
-/

namespace GameScript

open Scanner (State Mode ahead)

def withReturns (chars : List Char) : List Char :=
  chars.flatMap fun c => if c = '\n' then ['\r', '\n'] else [c]

def Token.Abreast (token other : Token) : Prop :=
  other.kind = token.kind ∧ other.lit = token.lit ∧ other.position.line = token.position.line

def Token.HoldsBreak (token : Token) : Prop :=
  (token.kind = .string ∨ token.kind = .char) ∧ '\n' ∈ token.lit.toList

instance (token : Token) : Decidable token.HoldsBreak :=
  inferInstanceAs (Decidable (_ ∧ _))

theorem Position.line_advance {first second : Position} (line : second.line = first.line)
    (c : Char) : (second.advance c).line = (first.advance c).line := by
  unfold advance
  split <;> simp [line]

namespace Scanner

/-! Line breaks in a state. -/

/-- Where line breaks leave no trace: no token depends on what has been read. -/
def Mode.forgets : Mode → Bool
  | .lineEnd | .block | .blockSlash | .blockStar => true
  | _ => false

def Mode.inLiteral : Mode → Bool
  | .charOpen | .charBody | .charEscape | .stringBody | .stringEscape => true
  | _ => false

theorem Mode.token?_of_forgets {mode : Mode} (forgets : mode.forgets = true)
    (text other : List Char) : mode.token? other = mode.token? text := by
  cases mode <;> first | rfl | simp [Mode.forgets] at forgets

theorem State.forgets_of_absorb {state next : State} {c : Char}
    (forgets : state.mode.forgets = true) (absorbed : state.next c = .absorb next) :
    next.mode.forgets = true := by
  obtain ⟨mode, depth⟩ := state
  cases mode with
  | lineEnd | block | blockSlash | blockStar =>
      simp only [State.next] at absorbed
      split_ifs at absorbed <;> cases absorbed <;> rfl
  | _ => simp [Mode.forgets] at forgets

theorem docLine_return (text : List Char) : docLine (text ++ ['\r']) = docLine text := by
  unfold docLine
  by_cases short : text.length < 3
  · have shortToo : (text ++ ['\r']).length ≤ 3 := by
      rw [List.length_append, List.length_singleton]
      omega
    rw [List.drop_eq_nil_of_le (Nat.le_of_lt short), List.drop_eq_nil_of_le shortToo]
  · rw [List.drop_append_of_le_length (Nat.le_of_not_lt short)]
    cases text.drop 3 with
    | nil => simp
    | cons c line => by_cases blank : c = ' ' <;> simp [blank]

inductive State.Breaks (state : State) : Prop
  | rejects {kind : ErrorKind} (atBreak : state.next '\n' = .reject kind)
  | ends (atBreak : state.next '\n' = .complete) (atReturn : state.next '\r' = .complete)
  | trims (middle : State) (atBreak : state.next '\n' = .complete)
      (atReturn : state.next '\r' = .absorb middle) (atBreakAfter : middle.next '\n' = .complete)
      (started : state.mode ≠ .start) (middleStarted : middle.mode ≠ .start)
      (same : ∀ text, middle.mode.token? (text ++ ['\r']) = state.mode.token? text)
  | spreads (middle next : State) (atBreak : state.next '\n' = .absorb next)
      (atReturn : state.next '\r' = .absorb middle)
      (atBreakAfter : middle.next '\n' = .absorb next)
      (startToo : middle.mode = .start ↔ state.mode = .start)
      (forgets : next.mode.forgets = true)

theorem State.breaks {state : State} {text : List Char} (delimits : state.Delimits text)
    (outside : state.mode.inLiteral = false) : state.Breaks := by
  obtain ⟨mode, depth⟩ := state
  have breakAlnum : isAlnum '\n' = false := by decide
  have returnAlnum : isAlnum '\r' = false := by decide
  have breakWord : isWordChar '\n' = false := by decide
  have returnWord : isWordChar '\r' = false := by decide
  have breakHex : Text.isHexDigit '\n' = false := by decide
  have returnHex : Text.isHexDigit '\r' = false := by decide
  have breakBlank : Text.isBlank '\n' = true := by decide
  have returnBlank : Text.isBlank '\r' = true := by decide
  cases mode with
  | start =>
      have atBreak : Mode.ofChar? '\n' = some .lineEnd := by decide
      have atReturn : Mode.ofChar? '\r' = some .start := by decide
      exact .spreads ⟨.start, depth⟩ ⟨.lineEnd, depth⟩ (by simp only [State.next, atBreak])
        (by simp only [State.next, atReturn]) (by simp only [State.next, atBreak]) Iff.rfl rfl
  | slashes | lineComment =>
      exact .trims ⟨.lineComment, depth⟩ rfl rfl rfl (by simp) (by simp) fun _ => rfl
  | docSlashes | docComment =>
      refine .trims ⟨.docComment, depth⟩ rfl rfl rfl (by simp) (by simp) fun text => ?_
      simp [Mode.token?, docLine_return]
  | block =>
      by_cases closed : depth = 0
      · exact .ends (by simp [State.next, closed]) (by simp [State.next, closed])
      · exact .spreads ⟨.block, depth⟩ ⟨.block, depth⟩
          (by simp [State.next, closed]) (by simp [State.next, closed])
          (by simp [State.next, closed]) (by simp) rfl
  | blockSlash | blockStar =>
      -- Half a mark is pending inside of a comment only.
      have inside : depth ≠ 0 := by
        rintro rfl
        exact delimits.1 rfl
      exact .spreads ⟨.block, depth⟩ ⟨.block, depth⟩
        (by simp [State.next]) (by simp [State.next]) (by simp [State.next, inside]) (by simp) rfl
  | lineEnd =>
      exact .spreads ⟨.lineEnd, depth⟩ ⟨.lineEnd, depth⟩
        (by simp [State.next, breakBlank]) (by simp [State.next, returnBlank])
        (by simp [State.next, breakBlank]) (by simp) rfl
  | zero | hex | binary | decimal | fraction | exponent =>
      exact .ends (by simp [State.next, breakAlnum, breakHex])
        (by simp [State.next, returnAlnum, returnHex])
  | hexMark | binaryMark | exponentMark | exponentSign | dots =>
      exact .rejects (by simp [State.next, breakHex]; rfl)
  | word => exact .ends (by simp [State.next, breakWord]) (by simp [State.next, returnWord])
  | symbol sign => cases sign <;> exact .ends rfl rfl
  | directive name missing =>
      cases missing with
      | nil => exact .ends (by simp [State.next, breakWord]) (by simp [State.next, returnWord])
      | cons letter missing =>
          have other : '\n' ≠ letter := by
            rintro rfl
            have member : '\n' ∈ name.text.toList := by
              rw [← show text ++ '\n' :: missing = name.text.toList from delimits]
              simp
            exact absurd member (by cases name <;> decide)
          have rejected : State.next ⟨.directive name (letter :: missing), depth⟩ '\n' =
              .reject .invalidDirective := by simp only [State.next, other, if_false]
          exact .rejects rejected
  | charClosed | stringClosed => exact .ends rfl rfl
  | charOpen | charBody | charEscape | stringBody | stringEscape => simp [Mode.inLiteral] at outside

theorem feed_complete {scanner : Scanner} {mode : Mode} {c : Char}
    (complete : scanner.state.next c = .complete) (found : Mode.ofChar? c = some mode) :
    scanner.feed c = ⟨scanner.pendingToken?, .ok (scanner.reset.absorb ⟨mode, 0⟩ c)⟩ := by
  simp only [feed, complete, found]

/-! Two scanners, of which one meets carriage returns. -/

/-- The scanners are in the same state on the same line, and have read the same of a token that
depends on it. -/
structure Abreast (first second : Scanner) : Prop where
  state : second.state = first.state
  pending : first.state.mode.forgets = true ∨ second.pending = first.pending
  line : second.position.line = first.position.line
  originLine : second.origin.line = first.origin.line

namespace Abreast

variable {first second after : Scanner} {c : Char}

theorem pendingToken? (abreast : first.Abreast second) :
    List.Forall₂ Token.Abreast first.pendingToken?.toList second.pendingToken?.toList := by
  have same : second.state.mode.token? second.pending.toList =
      first.state.mode.token? first.pending.toList := by
    rw [abreast.state]
    rcases abreast.pending with forgets | pending
    · exact Mode.token?_of_forgets forgets _ _
    · rw [pending]
  unfold Scanner.pendingToken?
  rw [same]
  cases first.state.mode.token? first.pending.toList with
  | none => exact .nil
  | some found => exact .cons ⟨rfl, rfl, abreast.originLine⟩ .nil

theorem reset (abreast : first.Abreast second) : first.reset.Abreast second.reset :=
  ⟨rfl, Or.inr rfl, abreast.line, abreast.originLine⟩

theorem absorb {next : State} (abreast : first.Abreast second)
    (absorbed : first.state.next c = .absorb next) :
    (first.absorb next c).Abreast (second.absorb next c) := by
  refine ⟨rfl, ?_, Position.line_advance abreast.line c, ?_⟩
  · rcases abreast.pending with forgets | pending
    · exact Or.inl (State.forgets_of_absorb forgets absorbed)
    · right
      simp only [Scanner.absorb, pending]
  · simp only [Scanner.absorb, abreast.state]
    split
    · exact abreast.line
    · exact abreast.originLine

theorem feed (abreast : first.Abreast second) (fed : (first.feed c).outcome = .ok after) :
    ∃ otherAfter, (second.feed c).outcome = .ok otherAfter ∧ after.Abreast otherAfter ∧
      List.Forall₂ Token.Abreast (first.feed c).token.toList (second.feed c).token.toList := by
  unfold Scanner.feed at fed ⊢
  rw [abreast.state]
  cases stepped : first.state.next c with
  | absorb next =>
      simp only [stepped] at fed
      cases fed
      exact ⟨_, rfl, abreast.absorb stepped, .nil⟩
  | reject kind => simp [stepped] at fed
  | complete =>
      cases found : Mode.ofChar? c with
      | none => simp [stepped, found] at fed
      | some mode =>
          simp only [stepped, found] at fed
          cases fed
          have started := (reset_fresh first).next_of_ofChar? found
          exact ⟨_, rfl, abreast.reset.absorb started, abreast.pendingToken?⟩

theorem of_break {next : State} (startToo : second.state.mode = .start ↔ first.state.mode = .start)
    (line : second.position.line = first.position.line)
    (originLine : second.origin.line = first.origin.line) (forgets : next.mode.forgets = true) :
    (first.absorb next '\n').Abreast (second.absorb next '\n') := by
  refine ⟨rfl, Or.inl forgets, Position.line_advance line '\n', ?_⟩
  simp only [Scanner.absorb, startToo]
  split
  · exact line
  · exact originLine

theorem feed_break {before : List Char} (abreast : first.Abreast second)
    (follows : first.Follows before) (outside : first.state.mode.inLiteral = false)
    (fed : (first.feed '\n').outcome = .ok after) :
    ∃ emitted otherAfter, after.Abreast otherAfter ∧
      List.Forall₂ Token.Abreast (first.feed '\n').token.toList emitted ∧
      ∀ rest, second.scan ('\r' :: '\n' :: rest) = (emitted ++ ·) <$> otherAfter.scan rest := by
  have lineBreak : Mode.ofChar? '\n' = some .lineEnd := by decide
  have blank : Mode.ofChar? '\r' = some .start := by decide
  cases State.breaks follows.delimits outside with
  | rejects atBreak => simp [Scanner.feed, atBreak] at fed
  | ends atBreak atReturn =>
      rw [feed_complete atBreak lineBreak] at fed ⊢
      cases fed
      refine ⟨second.pendingToken?.toList,
        (second.reset.absorb ⟨.start, 0⟩ '\r').absorb ⟨.lineEnd, 0⟩ '\n', ?_, ?_, ?_⟩
      · exact of_break Iff.rfl abreast.line abreast.originLine rfl
      · exact abreast.pendingToken?
      · intro rest
        have complete : second.state.next (ahead ('\r' :: '\n' :: rest)) = .complete := by
          rw [abreast.state]
          exact atReturn
        have passes := (reset_fresh second).next_of_ofChar? blank
        have fresh : (second.reset.absorb ⟨.start, 0⟩ '\r').Fresh := ⟨rfl, rfl⟩
        rw [scan_complete complete, scan_absorb passes, scan_absorb (fresh.next_of_ofChar? lineBreak)]
  | trims middle atBreak atReturn atBreakAfter started middleStarted kept =>
      rw [feed_complete atBreak lineBreak] at fed ⊢
      cases fed
      -- The carriage return goes to the comment first, and is not kept with it.
      let trimmed := second.absorb middle '\r'
      have origin : trimmed.origin = second.origin := by
        simp [trimmed, Scanner.absorb, abreast.state, started]
      have token : trimmed.pendingToken? = second.pendingToken? := by
        have pending : trimmed.pending.toList = second.pending.toList ++ ['\r'] := by
          simp [trimmed, Scanner.absorb, middleStarted]
        have mode : trimmed.state.mode = middle.mode := rfl
        unfold Scanner.pendingToken?
        rw [pending, mode, kept, origin, abreast.state]
      refine ⟨trimmed.pendingToken?.toList, trimmed.reset.absorb ⟨.lineEnd, 0⟩ '\n', ?_, ?_, ?_⟩
      · exact of_break Iff.rfl abreast.line (origin ▸ abreast.originLine) rfl
      · rw [token]
        exact abreast.pendingToken?
      · intro rest
        have absorbed : second.state.next '\r' = .absorb middle := by rw [abreast.state, atReturn]
        have complete : trimmed.state.next (ahead ('\n' :: rest)) = .complete := atBreakAfter
        have passes := (reset_fresh trimmed).next_of_ofChar? lineBreak
        rw [scan_absorb absorbed, scan_complete complete, scan_absorb passes]
  | spreads middle next atBreak atReturn atBreakAfter startToo forgets =>
      have same : first.feed '\n' = ⟨none, .ok (first.absorb next '\n')⟩ := by
        simp only [Scanner.feed, atBreak]
      rw [same] at fed ⊢
      cases fed
      refine ⟨[], (second.absorb middle '\r').absorb next '\n', ?_, .nil, ?_⟩
      · refine of_break startToo abreast.line ?_ forgets
        have origin : (second.absorb middle '\r').origin = second.origin := by
          simp [Scanner.absorb, abreast.state, startToo]
        rw [origin]
        exact abreast.originLine
      · intro rest
        have absorbed : second.state.next '\r' = .absorb middle := by rw [abreast.state, atReturn]
        have goesOn : (second.absorb middle '\r').state.next '\n' = .absorb next := atBreakAfter
        rw [scan_absorb absorbed, scan_absorb goesOn]
        cases ((second.absorb middle '\r').absorb next '\n').scan rest <;> rfl

end Abreast

/-! Line breaks inside of literals. -/

theorem State.next_inLiteral {state : State} (inside : state.mode.inLiteral = true) (c : Char) :
    (∃ kind, state.next c = .reject kind) ∨
      ∃ next, state.next c = .absorb next ∧ next.mode ≠ .start ∧
        (next.mode.inLiteral = true ∨
          (next.mode = .charClosed ∨ next.mode = .stringClosed) ∧ c ≠ '\n') := by
  obtain ⟨mode, depth⟩ := state
  cases mode with
  | charOpen | charBody | stringBody =>
      simp only [State.next]
      split_ifs <;> simp_all [Mode.inLiteral]
  | charEscape | stringEscape => simp [State.next, Mode.inLiteral]
  | _ => simp [Mode.inLiteral] at inside

section Literals

variable {scanner : Scanner} {before rest : List Char} {tokens : List Token}

theorem Follows.pending_inLiteral (follows : scanner.Follows before)
    (inside : scanner.state.mode.inLiteral = true) : scanner.pending.toList ≠ [] := by
  have sound := follows.sound
  have delimits := follows.delimits
  unfold Sound at sound
  unfold State.Delimits at delimits
  cases mode : scanner.state.mode with
  | stringBody | stringEscape =>
      rw [mode] at sound
      obtain ⟨body, shape, _⟩ := sound
      simp [shape]
  | charBody | charEscape =>
      rw [mode] at delimits
      obtain ⟨body, shape⟩ := delimits
      simp [shape]
  | charOpen =>
      rw [mode] at delimits
      simp [show scanner.pending.toList = ['\''] from delimits]
  | _ => simp [mode, Mode.inLiteral] at inside

theorem holdsBreak_of_closed
    (closed : scanner.state.mode = .charClosed ∨ scanner.state.mode = .stringClosed)
    (broken : '\n' ∈ inner scanner.pending.toList) (scanned : scanner.scan rest = .ok tokens) :
    ∃ token ∈ tokens, token.HoldsBreak := by
  have complete : scanner.state.next (ahead rest) = .complete := by
    rcases closed with mode | mode <;> simp [State.next, mode]
  obtain ⟨more, rfl, _⟩ := scan_complete_ok complete scanned
  rcases closed with mode | mode
  · refine ⟨⟨.char, String.ofList (inner scanner.pending.toList), scanner.origin⟩, ?_, Or.inr rfl,
      by simpa using broken⟩
    simp [pendingToken?, mode, Mode.token?]
  · refine ⟨⟨.string, String.ofList (inner scanner.pending.toList), scanner.origin⟩, ?_, Or.inl rfl,
      by simpa using broken⟩
    simp [pendingToken?, mode, Mode.token?]

theorem holdsBreak_of_inLiteral (inside : scanner.state.mode.inLiteral = true)
    (broken : '\n' ∈ scanner.pending.toList.tail) (scanned : scanner.scan rest = .ok tokens) :
    ∃ token ∈ tokens, token.HoldsBreak := by
  induction rest generalizing scanner with
  | nil =>
      have goesOn : scanner.canEnd = false := by
        unfold canEnd
        cases mode : scanner.state.mode <;> simp_all [Mode.inLiteral, State.next]
      simp [scan_nil, finish, goesOn] at scanned
  | cons c rest ih =>
      rcases State.next_inLiteral inside c with ⟨kind, rejected⟩ | ⟨next, absorbed, started, goesOn⟩
      · simp [scan_reject rejected] at scanned
      · rw [scan_absorb absorbed] at scanned
        have pending : (scanner.absorb next c).pending.toList = scanner.pending.toList ++ [c] := by
          simp [Scanner.absorb, started]
        obtain ⟨quote, body, shape⟩ :=
          List.exists_cons_of_ne_nil (List.ne_nil_of_mem (List.mem_of_mem_tail broken))
        rw [shape, List.tail_cons] at broken
        rcases goesOn with insideToo | ⟨closed, _⟩
        · refine ih insideToo ?_ scanned
          rw [pending, shape]
          simp [broken]
        · refine holdsBreak_of_closed closed ?_ scanned
          rw [pending, shape]
          simpa [inner] using broken

theorem Follows.holdsBreak_of_break (follows : scanner.Follows before)
    (inside : scanner.state.mode.inLiteral = true)
    (scanned : scanner.scan ('\n' :: rest) = .ok tokens) : ∃ token ∈ tokens, token.HoldsBreak := by
  rcases State.next_inLiteral inside '\n' with ⟨kind, rejected⟩ | ⟨next, absorbed, started, goesOn⟩
  · simp [scan_reject rejected] at scanned
  · have insideToo : next.mode.inLiteral = true := goesOn.resolve_right fun closed => closed.2 rfl
    rw [scan_absorb absorbed] at scanned
    refine holdsBreak_of_inLiteral insideToo ?_ scanned
    obtain ⟨quote, body, shape⟩ := List.exists_cons_of_ne_nil (follows.pending_inLiteral inside)
    simp [Scanner.absorb, started, shape]

end Literals

theorem Abreast.scan_withReturns {first second : Scanner} {before chars : List Char}
    {tokens : List Token} (abreast : first.Abreast second) (follows : first.Follows before)
    (scanned : first.scan chars = .ok tokens) (unbroken : ∀ token ∈ tokens, ¬ token.HoldsBreak) :
    ∃ others, second.scan (withReturns chars) = .ok others ∧
      List.Forall₂ Token.Abreast tokens others := by
  induction chars generalizing first second before tokens with
  | nil =>
      obtain ⟨emitted, last, fed, ends, rfl⟩ := scan_ok scanned
      cases fed
      have endsToo : second.canEnd = true := by
        unfold canEnd at ends ⊢
        rwa [abreast.state]
      refine ⟨_, by rw [withReturns, List.flatMap_nil, scan_nil, finish, if_pos endsToo], ?_⟩
      exact List.rel_append abreast.pendingToken? (.cons ⟨rfl, rfl, abreast.line⟩ .nil)
  | cons c chars ih =>
      obtain ⟨after, more, fed, scannedOn, rfl⟩ := scan_cons_ok scanned
      have unbrokenLater : ∀ token ∈ more, ¬ token.HoldsBreak :=
        fun token member => unbroken token (List.mem_append_right _ member)
      by_cases isBreak : c = '\n'
      · subst isBreak
        -- A line break inside of a literal would be kept in its token.
        have outside : first.state.mode.inLiteral = false := by
          by_contra inside
          obtain ⟨token, member, broken⟩ :=
            follows.holdsBreak_of_break (Bool.not_eq_false _ ▸ inside) scanned
          exact unbroken token member broken
        obtain ⟨emitted, otherAfter, goesOn, alike, otherScanned⟩ :=
          abreast.feed_break follows outside fed
        obtain ⟨others, scannedToo, alikeLater⟩ :=
          ih goesOn (follows.feed fed) scannedOn unbrokenLater
        refine ⟨emitted ++ others, ?_, List.rel_append alike alikeLater⟩
        have shape : withReturns ('\n' :: chars) = '\r' :: '\n' :: withReturns chars := rfl
        rw [shape, otherScanned, scannedToo]
        rfl
      · obtain ⟨otherAfter, otherFed, goesOn, alike⟩ := abreast.feed fed
        obtain ⟨others, scannedToo, alikeLater⟩ :=
          ih goesOn (follows.feed fed) scannedOn unbrokenLater
        refine ⟨_, ?_, List.rel_append alike alikeLater⟩
        have shape : withReturns (c :: chars) = c :: withReturns chars := by
          simp [withReturns, isBreak]
        rw [shape, scan_feed otherFed, scannedToo]
        rfl

end Scanner

theorem dropMark_withReturns (chars : List Char) :
    dropMark (withReturns chars) = withReturns (dropMark chars) := by
  cases chars with
  | nil => rfl
  | cons c rest =>
      by_cases marked : c = byteOrderMark
      · subst marked
        rfl
      · have kept : dropMark (c :: rest) = c :: rest := by simp [dropMark, marked]
        rw [kept]
        by_cases isBreak : c = '\n'
        · subst isBreak
          rfl
        · simp [dropMark, withReturns, isBreak, marked]

/-- A carriage return in front of each line break changes no token and no line, as long as no line
break stands inside of a literal. So the text is parsed as before. -/
theorem carriage_returns_ignored {chars : List Char} {tokens : List Token}
    (scanned : tokenize chars = .ok tokens) (unbroken : ∀ token ∈ tokens, ¬ token.HoldsBreak) :
    (∃ others, tokenize (withReturns chars) = .ok others ∧
      List.Forall₂ Token.Abreast tokens others) ∧
    ∀ script, parse (withReturns chars) = .ok script ↔ parse chars = .ok script := by
  obtain ⟨tokens, rfl, found⟩ := tokenize_ok scanned
  have same : Scanner.initial.Abreast Scanner.initial := ⟨rfl, Or.inr rfl, rfl, rfl⟩
  have unbrokenLater : ∀ token ∈ tokens, ¬ token.HoldsBreak :=
    fun token member => unbroken token (List.mem_cons_of_mem _ member)
  obtain ⟨others, foundToo, abreast⟩ :=
    same.scan_withReturns Scanner.initial_follows found unbrokenLater
  rw [← dropMark_withReturns] at foundToo
  have alike : TokensAlike tokens others := abreast.imp fun _ _ here => ⟨here.1, here.2.1⟩
  refine ⟨⟨Token.first :: others, ?_, .cons ⟨rfl, rfl, rfl⟩ abreast⟩, fun script => ?_⟩
  · rw [tokenize_eq_scan, foundToo]
    rfl
  · rw [parse_ok_iff_scan, parse_ok_iff_scan, found, foundToo]
    constructor
    · rintro ⟨_, ⟨⟩, reads⟩
      exact ⟨tokens, rfl, reads.alike (Scanner.finished_of_scan foundToo) alike.symm⟩
    · rintro ⟨_, ⟨⟩, reads⟩
      exact ⟨others, rfl, reads.alike (Scanner.finished_of_scan found) alike⟩

theorem carriage_returns_ignored_comments :
    let chars := "/// d\nx = 1 // c\n/* a\n*/ y = \"s\"\r\n".toList
    let tokens : List Token :=
      [Token.first, ⟨.docComment, "d", ⟨1, 1⟩⟩, ⟨.lineEnd, "", ⟨1, 6⟩⟩, ⟨.ident, "x", ⟨2, 1⟩⟩,
        ⟨.symbol .assign, "", ⟨2, 3⟩⟩, ⟨.decimal, "1", ⟨2, 5⟩⟩, ⟨.lineEnd, "", ⟨2, 11⟩⟩,
        ⟨.ident, "y", ⟨4, 4⟩⟩, ⟨.symbol .assign, "", ⟨4, 6⟩⟩, ⟨.string, "s", ⟨4, 8⟩⟩,
        ⟨.lineEnd, "", ⟨4, 12⟩⟩, ⟨.finish, "", ⟨5, 1⟩⟩]
    tokenize chars = .ok tokens ∧ (∀ token ∈ tokens, ¬ token.HoldsBreak) ∧
      (∃ others, tokenize (withReturns chars) = .ok others ∧
        List.Forall₂ Token.Abreast tokens others) ∧
      ∃ script, parse chars = .ok script ∧ parse (withReturns chars) = .ok script := by
  intro chars tokens
  have scanned : tokenize chars = .ok tokens := by decide +kernel
  have unbroken : ∀ token ∈ tokens, ¬ token.HoldsBreak := by decide
  obtain ⟨sameTokens, sameScript⟩ := carriage_returns_ignored scanned unbroken
  obtain ⟨script, parsed, _⟩ := exists_ok_of_any
    (show (parse chars).toOption.any (fun _ => true) = true by decide +kernel)
  exact ⟨scanned, unbroken, sameTokens, script, parsed, (sameScript script).mpr parsed⟩

end GameScript
