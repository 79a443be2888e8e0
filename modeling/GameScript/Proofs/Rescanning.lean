import GameScript.Proofs.Extension
import GameScript.Proofs.Segment

/-!
Scanning the same text from another place: the tokens are the same, apart from their positions and
from the line ends in front.
-/

namespace GameScript

open Scanner (State Mode ahead)

def Finished (tokens : List Token) : Prop :=
  ∃ inside last, tokens = inside ++ [last] ∧ last.kind = .finish ∧
    ∀ token ∈ inside, token.kind ≠ .finish

/-- Both scans fail, or both give tokens and the tokens are related. -/
inductive Matched (relation : List Token → List Token → Prop) :
    Except SourceError (List Token) → Except SourceError (List Token) → Prop where
  | ok {tokens others : List Token} (related : relation tokens others) :
      Matched relation (.ok tokens) (.ok others)
  | error {reason otherReason : SourceError} : Matched relation (.error reason) (.error otherReason)

namespace Matched

variable {relation weaker : List Token → List Token → Prop}
  {first second : Except SourceError (List Token)}

theorem map {before otherBefore : List Token} (matched : Matched relation first second)
    (related : ∀ tokens others, relation tokens others →
      weaker (before ++ tokens) (otherBefore ++ others)) :
    Matched weaker ((before ++ ·) <$> first) ((otherBefore ++ ·) <$> second) := by
  cases matched with
  | ok holds => exact .ok (related _ _ holds)
  | error => exact .error

theorem mono (matched : Matched relation first second)
    (related : ∀ tokens others, relation tokens others → weaker tokens others) :
    Matched weaker first second := by
  cases matched with
  | ok holds => exact .ok (related _ _ holds)
  | error => exact .error

end Matched

def TokensAlike (tokens others : List Token) : Prop :=
  List.Forall₂ Token.Alike tokens others

namespace TokensAlike

variable {tokens others : List Token}

theorem symm (alike : TokensAlike tokens others) : TokensAlike others tokens := by
  induction alike with
  | nil => exact .nil
  | cons here _ ih => exact .cons here.symm ih

theorem skipEnds (alike : TokensAlike tokens others) :
    TokensAlike (skipEnds tokens) (skipEnds others) := by
  induction alike with
  | nil => exact .nil
  | @cons first second rest more here later ih =>
      by_cases breaks : first.kind = .lineEnd
      · rwa [skipEnds_lineEnd breaks, skipEnds_lineEnd (here.1.trans breaks)]
      · have noBreak : headKind (first :: rest) ≠ .lineEnd := breaks
        have otherNoBreak : headKind (second :: more) ≠ .lineEnd := by
          rw [headKind, here.1]
          exact breaks
        rw [skipEnds_of_headKind noBreak, skipEnds_of_headKind otherNoBreak]
        exact .cons here later

theorem headKind_eq (alike : TokensAlike tokens others) : headKind others = headKind tokens := by
  cases alike with
  | nil => rfl
  | cons here _ => exact here.1

theorem append {before otherBefore : List Token} (first : TokensAlike before otherBefore)
    (second : TokensAlike tokens others) :
    TokensAlike (before ++ tokens) (otherBefore ++ others) := by
  induction first with
  | nil => exact second
  | cons here _ ih => exact .cons here ih

end TokensAlike

namespace Scanner

/-! Scanning on. -/

theorem scan_feed {scanner after : Scanner} {c : Char} (fed : (scanner.feed c).outcome = .ok after)
    (rest : List Char) :
    scanner.scan (c :: rest) = ((scanner.feed c).token.toList ++ ·) <$> after.scan rest := by
  simp only [scan, feedAll, fed, bind, Except.bind, Functor.map, Except.map]
  cases after.feedAll rest with
  | error => rfl
  | ok result =>
      simp only
      cases result.2.finish with
      | error => rfl
      | ok closing => simp [pure, Except.pure]

theorem scan_feed_error {scanner : Scanner} {reason : SourceError} {c : Char}
    (fed : (scanner.feed c).outcome = .error reason) (rest : List Char) :
    scanner.scan (c :: rest) = .error reason := by
  simp only [scan, feedAll, fed, bind, Except.bind]

theorem scan_cons_ok {scanner : Scanner} {c : Char} {rest : List Char} {tokens : List Token}
    (scanned : scanner.scan (c :: rest) = .ok tokens) :
    ∃ after more, (scanner.feed c).outcome = .ok after ∧ after.scan rest = .ok more ∧
      tokens = (scanner.feed c).token.toList ++ more := by
  cases fed : (scanner.feed c).outcome with
  | error reason =>
      rw [scan_feed_error fed] at scanned
      simp at scanned
  | ok after =>
      rw [scan_feed fed] at scanned
      cases scannedOn : after.scan rest with
      | error reason => simp [scannedOn, Functor.map, Except.map] at scanned
      | ok more =>
          rw [scannedOn] at scanned
          cases scanned
          exact ⟨after, more, rfl, scannedOn, rfl⟩

theorem scan_append {scanner after : Scanner} {chars : List Char} {tokens : List Token}
    (fed : scanner.feedAll chars = .ok (tokens, after)) (rest : List Char) :
    scanner.scan (chars ++ rest) = (tokens ++ ·) <$> after.scan rest := by
  induction chars generalizing scanner tokens with
  | nil =>
      cases fed
      cases scanned : after.scan rest <;> simp [scanned, Functor.map, Except.map]
  | cons c chars ih =>
      obtain ⟨next, more, stepped, fedOn, rfl⟩ := feedAll_cons_ok fed
      rw [List.cons_append, scan_feed stepped, ih fedOn]
      cases after.scan rest <;> simp [Functor.map, Except.map]

theorem kind_ne_finish_of_pendingToken? {scanner : Scanner} {token : Token}
    (found : token ∈ scanner.pendingToken?) : token.kind ≠ .finish := by
  obtain ⟨⟨kind, lit⟩, emitted, rfl⟩ : ∃ pair : TokenKind × String,
      scanner.state.mode.token? scanner.pending.toList = some pair ∧
        ⟨pair.1, pair.2, scanner.origin⟩ = token := by
    simpa [pendingToken?] using found
  rintro rfl
  cases mode : scanner.state.mode with
  | word =>
      rcases wordKind_cases scanner.pending with ⟨_, kind⟩ | kind | kind | kind | kind
      all_goals simp [mode, Mode.token?, kind] at emitted
  | directive name missing => cases missing <;> simp [mode, Mode.token?] at emitted
  | _ => simp [mode, Mode.token?] at emitted

theorem kind_ne_finish_of_feed {scanner : Scanner} {c : Char} {token : Token}
    (found : token ∈ (scanner.feed c).token) : token.kind ≠ .finish := by
  unfold feed at found
  split at found
  · simp at found
  · simp at found
  · exact kind_ne_finish_of_pendingToken? found

theorem kind_ne_finish_of_feedAll {scanner last : Scanner} {chars : List Char}
    {tokens : List Token} (fed : scanner.feedAll chars = .ok (tokens, last)) :
    ∀ token ∈ tokens, token.kind ≠ .finish := by
  have step {before after : Scanner} {c : Char} (_ : True)
      (_ : (before.feed c).outcome = .ok after) :
      True ∧ ∀ token ∈ (before.feed c).token, token.kind ≠ .finish :=
    ⟨trivial, fun _ => kind_ne_finish_of_feed⟩
  exact (feedAll_invariant step trivial fed).2

theorem scan_ok {scanner : Scanner} {chars : List Char} {tokens : List Token}
    (scanned : scanner.scan chars = .ok tokens) :
    ∃ emitted last, scanner.feedAll chars = .ok (emitted, last) ∧ last.canEnd = true ∧
      tokens = emitted ++ (last.pendingToken?.toList ++ [⟨.finish, "", last.position⟩]) := by
  unfold scan at scanned
  cases fed : scanner.feedAll chars with
  | error reason => simp [fed, bind, Except.bind] at scanned
  | ok result =>
      simp only [fed, bind, Except.bind, finish] at scanned
      split at scanned
      · simp at scanned
      · next ended =>
          split at ended
          next ends =>
            cases ended
            cases scanned
            exact ⟨result.1, result.2, rfl, ends, rfl⟩
          next => simp at ended

theorem finished_of_scan {scanner : Scanner} {chars : List Char} {tokens : List Token}
    (scanned : scanner.scan chars = .ok tokens) : Finished tokens := by
  obtain ⟨emitted, last, fed, _, rfl⟩ := scan_ok scanned
  refine ⟨emitted ++ last.pendingToken?.toList, ⟨.finish, "", last.position⟩, by simp, rfl, ?_⟩
  intro token member
  rcases List.mem_append.mp member with here | pending
  · exact kind_ne_finish_of_feedAll fed token here
  · exact kind_ne_finish_of_pendingToken? (Option.mem_toList.mp pending)

/-! Scanners that go on alike. -/

/-- The scanners have read the same of the current token. The blanks after a line break make no
difference. -/
def Alike (first second : Scanner) : Prop :=
  second.state = first.state ∧ (first.state.mode = .lineEnd ∨ second.pending = first.pending)

theorem Fresh.alike {first second : Scanner} (fresh : first.Fresh) (freshToo : second.Fresh) :
    first.Alike second :=
  ⟨freshToo.1.trans fresh.1.symm, Or.inr (freshToo.2.trans fresh.2.symm)⟩

namespace Alike

variable {first second : Scanner}

theorem pendingToken? (alike : first.Alike second) :
    TokensAlike first.pendingToken?.toList second.pendingToken?.toList := by
  have same : second.state.mode.token? second.pending.toList =
      first.state.mode.token? first.pending.toList := by
    rcases alike.2 with breaks | pending
    · simp [alike.1, breaks, Mode.token?]
    · rw [alike.1, pending]
  unfold Scanner.pendingToken?
  rw [same]
  cases first.state.mode.token? first.pending.toList with
  | none => exact .nil
  | some found => exact .cons ⟨rfl, rfl⟩ .nil

theorem absorb {next : State} {c : Char} (alike : first.Alike second)
    (absorbed : first.state.next c = .absorb next) :
    (first.absorb next c).Alike (second.absorb next c) := by
  refine ⟨rfl, ?_⟩
  by_cases breaks : next.mode = .lineEnd
  · exact Or.inl breaks
  · rcases alike.2 with wasBreak | pending
    · simp only [State.next, wasBreak] at absorbed
      split_ifs at absorbed
      cases absorbed
      simp at breaks
    · right
      simp only [Scanner.absorb, pending]

theorem feed (alike : first.Alike second) (c : Char) :
    TokensAlike (first.feed c).token.toList (second.feed c).token.toList ∧
    ((∃ after otherAfter, (first.feed c).outcome = .ok after ∧
        (second.feed c).outcome = .ok otherAfter ∧ after.Alike otherAfter) ∨
      ∃ reason otherReason, (first.feed c).outcome = .error reason ∧
        (second.feed c).outcome = .error otherReason) := by
  unfold Scanner.feed
  rw [alike.1]
  cases stepped : first.state.next c with
  | absorb next => exact ⟨.nil, Or.inl ⟨_, _, rfl, rfl, alike.absorb stepped⟩⟩
  | reject kind => exact ⟨.nil, Or.inr ⟨_, _, rfl, rfl⟩⟩
  | complete =>
      refine ⟨alike.pendingToken?, ?_⟩
      cases found : Mode.ofChar? c with
      | none => exact Or.inr ⟨_, _, rfl, rfl⟩
      | some mode =>
          have started := (reset_fresh first).next_of_ofChar? found
          have fresh := (reset_fresh first).alike (reset_fresh second)
          exact Or.inl ⟨_, _, rfl, rfl, fresh.absorb started⟩

theorem scan (alike : first.Alike second) (chars : List Char) :
    Matched TokensAlike (first.scan chars) (second.scan chars) := by
  induction chars generalizing first second with
  | nil =>
      rw [scan_nil, scan_nil, finish, finish]
      have ends : second.canEnd = first.canEnd := by
        unfold canEnd
        rw [alike.1]
      rw [ends]
      split_ifs
      · exact .ok (alike.pendingToken?.append (.cons ⟨rfl, rfl⟩ .nil))
      · exact .error
  | cons c chars ih =>
      obtain ⟨emitted, ⟨after, otherAfter, fed, otherFed, goesOn⟩ | ⟨_, _, fed, otherFed⟩⟩ :=
        alike.feed c
      · rw [scan_feed fed, scan_feed otherFed]
        exact (ih goesOn).map fun _ _ later => emitted.append later
      · rw [scan_feed_error fed, scan_feed_error otherFed]
        exact .error

end Alike

/-! Blanks and line ends. -/

theorem Mode.ofChar?_of_isBlank {c : Char} (blank : Text.isBlank c = true) :
    Mode.ofChar? c = some (if c = '\n' then .lineEnd else .start) := by
  obtain ⟨range, member, lower, upper⟩ := Text.inRanges_mem blank
  have table : ∀ range ∈ Text.blankRanges, ∀ offset < range.2 - range.1 + 1,
      Mode.ofChar? (Char.ofNat (range.1 + offset)) =
        some (if Char.ofNat (range.1 + offset) = '\n' then .lineEnd else .start) := by
    decide +kernel
  have found := table range member (c.toNat - range.1) (by omega)
  rwa [Nat.add_sub_cancel' lower, Char.ofNat_toNat] at found

theorem scan_lineEnd_blanks {scanner : Scanner} (breaks : scanner.state.mode = .lineEnd)
    (chars : List Char) :
    ∃ (lineEnd : Token) (after : Scanner), lineEnd.kind = .lineEnd ∧ after.Fresh ∧
      scanner.scan chars = ([lineEnd] ++ ·) <$> after.scan (chars.dropWhile Text.isBlank) := by
  induction chars generalizing scanner with
  | nil =>
      refine ⟨⟨.lineEnd, "", scanner.origin⟩, scanner.reset, rfl, reset_fresh scanner, ?_⟩
      have ends : scanner.canEnd = true := by
        have blank : Text.isBlank '\n' = true := by decide
        simp [canEnd, State.next, breaks, blank]
      rw [scan_nil, finish, ends, pendingToken?_lineEnd breaks, List.dropWhile_nil,
        (reset_fresh scanner).scan_nil]
      rfl
  | cons c chars ih =>
      by_cases blank : Text.isBlank c = true
      · have absorbed : scanner.state.next c = .absorb ⟨.lineEnd, scanner.state.depth⟩ := by
          simp [State.next, breaks, blank]
        rw [scan_absorb absorbed, List.dropWhile_cons_of_pos blank]
        exact ih rfl
      · have complete : scanner.state.next (ahead (c :: chars)) = .complete := by
          simp [State.next, breaks, ahead, blank]
        refine ⟨⟨.lineEnd, "", scanner.origin⟩, scanner.reset, rfl, reset_fresh scanner, ?_⟩
        rw [scan_complete complete, pendingToken?_lineEnd breaks, List.dropWhile_cons_of_neg blank]
        rfl

theorem Fresh.scan_blanks {scanner : Scanner} (fresh : scanner.Fresh) (chars : List Char) :
    ∃ (breaks : List Token) (after : Scanner), (∀ token ∈ breaks, token.kind = .lineEnd) ∧
      after.Fresh ∧
      scanner.scan chars = (breaks ++ ·) <$> after.scan (chars.dropWhile Text.isBlank) := by
  induction chars generalizing scanner with
  | nil =>
      refine ⟨[], scanner, by simp, fresh, ?_⟩
      rw [List.dropWhile_nil, fresh.scan_nil]
      rfl
  | cons c chars ih =>
      by_cases blank : Text.isBlank c = true
      · have absorbed := fresh.next_of_ofChar? (Mode.ofChar?_of_isBlank blank)
        rw [scan_absorb absorbed, List.dropWhile_cons_of_pos blank]
        by_cases isBreak : c = '\n'
        · simp only [isBreak, if_true]
          have inLineEnd : (scanner.absorb ⟨.lineEnd, 0⟩ '\n').state.mode = .lineEnd := rfl
          obtain ⟨lineEnd, after, breaks, afterFresh, scanned⟩ :=
            scan_lineEnd_blanks inLineEnd chars
          exact ⟨[lineEnd], after, by simpa using breaks, afterFresh, scanned⟩
        · simp only [isBreak, if_false]
          exact ih ⟨rfl, rfl⟩
      · refine ⟨[], scanner, by simp, fresh, ?_⟩
        rw [List.dropWhile_cons_of_neg blank]
        cases scanner.scan (c :: chars) <;> rfl

end Scanner

theorem skipEnds_breaks {breaks : List Token} (allBreak : ∀ token ∈ breaks, token.kind = .lineEnd)
    (rest : List Token) : skipEnds (breaks ++ rest) = skipEnds rest := by
  induction breaks with
  | nil => rfl
  | cons token breaks ih =>
      rw [List.cons_append, skipEnds_lineEnd (allBreak token (by simp))]
      exact ih fun other member => allBreak other (by simp [member])

/-- The first tokens start with a line end, and behind the line ends in front the tokens of the two
lists differ in their places at most. -/
def Rebroken (tokens others : List Token) : Prop :=
  headKind tokens = .lineEnd ∧ TokensAlike (skipEnds tokens) (skipEnds others)

theorem Scanner.rebroken_scan {scanner fresh : Scanner} (breaks : scanner.state.mode = .lineEnd)
    (isFresh : fresh.Fresh) (chars : List Char) :
    Matched Rebroken (scanner.scan chars) (fresh.scan chars) := by
  obtain ⟨lineEnd, after, isLineEnd, afterFresh, scanned⟩ := scan_lineEnd_blanks breaks chars
  obtain ⟨more, other, allBreak, otherFresh, otherScanned⟩ := isFresh.scan_blanks chars
  rw [scanned, otherScanned]
  refine ((afterFresh.alike otherFresh).scan _).map ?_
  intro tokens others alike
  refine ⟨isLineEnd, ?_⟩
  rw [List.singleton_append, skipEnds_lineEnd isLineEnd, skipEnds_breaks allBreak]
  exact alike.skipEnds

/-! Scripts. -/

section Scripts

variable {tokens others : List Token} {script : Script}

theorem Finished.skipEnds (finished : Finished tokens) : Finished (skipEnds tokens) := by
  obtain ⟨inside, last, rfl, closes, inner⟩ := finished
  induction inside with
  | nil =>
      have noBreak : headKind [last] ≠ .lineEnd := by simp [headKind, closes]
      exact ⟨[], last, skipEnds_of_headKind noBreak, closes, inner⟩
  | cons token inside ih =>
      by_cases breaks : token.kind = .lineEnd
      · rw [List.cons_append, skipEnds_lineEnd breaks]
        exact ih fun other member => inner other (by simp [member])
      · have noBreak : headKind (token :: inside ++ [last]) ≠ .lineEnd := breaks
        exact ⟨token :: inside, last, skipEnds_of_headKind noBreak, closes, inner⟩

theorem TokensAlike.abuts (alike : TokensAlike tokens others) (finished : Finished tokens) :
    ∃ last : Token, last.kind = .finish ∧ Abuts [last] tokens others := by
  obtain ⟨inside, closing, rfl, closes, inner⟩ := finished
  induction inside generalizing others with
  | nil =>
      cases alike with
      | @cons _ last _ _ here rest =>
          cases rest
          have closesToo : last.kind = .finish := here.1.trans closes
          refine ⟨last, closesToo, .closing ?_ closes rfl, Or.inl here.1⟩
          exact skipEnds_of_headKind (by simp [headKind, closes])
  | cons token inside ih =>
      cases alike with
      | cons here rest =>
          obtain ⟨last, closesToo, abuts⟩ :=
            ih rest fun other member => inner other (by simp [member])
          exact ⟨last, closesToo, .cons here (inner token (by simp)) abuts⟩

def Respaced (tokens others : List Token) : Prop :=
  headKind others = headKind tokens ∧ TokensAlike (skipEnds tokens) (skipEnds others)

theorem Respaced.symm (respaced : Respaced tokens others) : Respaced others tokens :=
  ⟨respaced.1.symm, respaced.2.symm⟩

theorem TokensAlike.respaced (alike : TokensAlike tokens others) : Respaced tokens others :=
  ⟨alike.headKind_eq, alike.skipEnds⟩

theorem Abuts.append {after before : List Token} (abuts : Abuts after tokens others)
    (inner : ∀ token ∈ before, token.kind ≠ .finish) :
    Abuts after (before ++ tokens) (before ++ others) := by
  induction before with
  | nil => exact abuts
  | cons token before ih =>
      exact .cons ⟨rfl, rfl⟩ (inner token (by simp))
        (ih fun other member => inner other (by simp [member]))

theorem extends_of_skipEnds (alike : TokensAlike (skipEnds tokens) (skipEnds others))
    (finished : Finished tokens) :
    ∃ last : Token, last.kind = .finish ∧ Extends [last] tokens others := by
  obtain ⟨last, closes, abuts⟩ := alike.abuts finished.skipEnds
  exact ⟨last, closes, abuts.loosely.congr (skipEnds_idem _).symm (skipEnds_idem _).symm⟩

theorem ReadsScript.closed_again {last : Token} (reads : ReadsScript script tokens)
    (closes : last.kind = .finish) (goesOn : Extends [last] tokens others) :
    ReadsScript script others := by
  have isOver : headKind (GameScript.skipEnds [last]) = .finish := by
    rw [skipEnds_of_headKind] <;> simp [headKind, closes]
  have readsToo := reads.extended (.finish isOver) (by simp [isOver]) goesOn
  rwa [List.append_nil] at readsToo

theorem ReadsScript.alike (reads : ReadsScript script tokens) (finished : Finished tokens)
    (alike : TokensAlike tokens others) : ReadsScript script others := by
  obtain ⟨last, closes, goesOn⟩ := extends_of_skipEnds alike.skipEnds finished
  exact reads.closed_again closes goesOn

theorem ReadsScript.respaced {before : List Token} (reads : ReadsScript script (before ++ tokens))
    (inner : ∀ token ∈ before, token.kind ≠ .finish) (finished : Finished tokens)
    (respaced : Respaced tokens others) : ReadsScript script (before ++ others) := by
  obtain ⟨last, closes, goesOn⟩ := extends_of_skipEnds respaced.2 finished
  have abuts : Abuts [last] tokens others := ⟨goesOn, Or.inl respaced.1⟩
  exact reads.closed_again closes (abuts.append inner).loosely

theorem parse_ok_iff_scan {chars : List Char} :
    parse chars = .ok script ↔
      ∃ tokens, Scanner.initial.scan (dropMark chars) = .ok tokens ∧ ReadsScript script tokens := by
  rw [parse_ok_iff]
  constructor
  · rintro ⟨tokens, scanned, reads⟩
    obtain ⟨others, same, found⟩ := tokenize_ok scanned
    obtain ⟨_, rfl⟩ := List.cons.inj same
    exact ⟨tokens, found, reads⟩
  · rintro ⟨tokens, scanned, reads⟩
    refine ⟨tokens, ?_, reads⟩
    rw [tokenize_eq_scan, scanned]
    rfl

theorem dropMark_suffix (chars : List Char) : dropMark chars <:+ chars := by
  unfold dropMark
  split
  · exact List.tail_suffix chars
  · exact List.suffix_refl chars

theorem dropMark_append {before later : List Char}
    (unmarked : later.head? ≠ some byteOrderMark) :
    dropMark (before ++ later) = dropMark before ++ later := by
  cases before with
  | nil => simp [dropMark, unmarked]
  | cons c before =>
      by_cases marked : c = byteOrderMark
      · simp [dropMark, marked]
      · simp [dropMark, marked]

end Scripts

end GameScript
