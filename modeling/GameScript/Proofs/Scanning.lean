import GameScript.Proofs.Mark
import GameScript.Scanner

/-!
Scanning piece by piece: `Spells` ties a text to the tokens it gives wherever it stands between
tokens, under a condition on what follows it.
-/

namespace GameScript

namespace Scanner

def scan (scanner : Scanner) (chars : List Char) : Except SourceError (List Token) := do
  let (tokens, last) ← scanner.feedAll chars
  let closing ← last.finish
  return tokens ++ closing

def Fresh (scanner : Scanner) : Prop :=
  scanner.state = State.initial ∧ scanner.pending = ""

def ahead : List Char → Char
  | [] => '\n'
  | c :: _ => c

theorem initial_fresh : Fresh initial := ⟨rfl, rfl⟩

theorem reset_fresh (scanner : Scanner) : scanner.reset.Fresh := ⟨rfl, rfl⟩

theorem Fresh.next_of_ofChar? {scanner : Scanner} {mode : Mode} {c : Char} (fresh : scanner.Fresh)
    (found : Mode.ofChar? c = some mode) : scanner.state.next c = .absorb ⟨mode, 0⟩ := by
  simp [fresh.1, State.initial, State.next, found]

theorem pendingToken?_lineEnd {scanner : Scanner} (breaks : scanner.state.mode = .lineEnd) :
    scanner.pendingToken? = some ⟨.lineEnd, "", scanner.origin⟩ := by
  simp [pendingToken?, breaks, Mode.token?]

theorem feedAll_cons_ok {scanner last : Scanner} {c : Char} {rest : List Char} {tokens : List Token}
    (fed : scanner.feedAll (c :: rest) = .ok (tokens, last)) :
    ∃ after more, (scanner.feed c).outcome = .ok after ∧ after.feedAll rest = .ok (more, last) ∧
      tokens = (scanner.feed c).token.toList ++ more := by
  simp only [feedAll] at fed
  split at fed
  · simp at fed
  · next after stepped =>
      split at fed
      · simp at fed
      · next more _ fedOn =>
          cases fed
          exact ⟨after, more, stepped, fedOn, rfl⟩

/-- What every character keeps, and what holds of each token that it completes, holds after a
text. -/
theorem feedAll_invariant {holds : Scanner → Prop} {good : Token → Prop} {scanner last : Scanner}
    {chars : List Char} {tokens : List Token}
    (step : ∀ {before after : Scanner} {c : Char}, holds before →
      (before.feed c).outcome = .ok after →
        holds after ∧ ∀ token ∈ (before.feed c).token, good token)
    (start : holds scanner) (fed : scanner.feedAll chars = .ok (tokens, last)) :
    holds last ∧ ∀ token ∈ tokens, good token := by
  induction chars generalizing scanner tokens with
  | nil =>
      cases fed
      exact ⟨start, by simp⟩
  | cons c rest ih =>
      obtain ⟨after, more, stepped, fedOn, rfl⟩ := feedAll_cons_ok fed
      obtain ⟨next, emitted⟩ := step start stepped
      obtain ⟨final, later⟩ := ih next fedOn
      refine ⟨final, fun token member => ?_⟩
      rcases List.mem_append.mp member with here | there
      · exact emitted token (Option.mem_toList.mp here)
      · exact later token there

theorem scan_nil (scanner : Scanner) : scanner.scan [] = scanner.finish := by
  simp only [scan, feedAll, bind, Except.bind]
  cases scanner.finish <;> rfl

theorem scan_absorb {scanner : Scanner} {next : State} {c : Char}
    (absorbed : scanner.state.next c = .absorb next) (rest : List Char) :
    scanner.scan (c :: rest) = (scanner.absorb next c).scan rest := by
  simp only [scan, feedAll, feed, absorbed, bind, Except.bind]
  cases (scanner.absorb next c).feedAll rest <;> rfl

theorem scan_reject {scanner : Scanner} {kind : ErrorKind} {c : Char}
    (rejected : scanner.state.next c = .reject kind) (rest : List Char) :
    scanner.scan (c :: rest) = .error (scanner.misplaced kind c) := by
  simp only [scan, feedAll, feed, rejected, bind, Except.bind]

theorem scan_complete {scanner : Scanner} {rest : List Char}
    (complete : scanner.state.next (ahead rest) = .complete) :
    scanner.scan rest = (scanner.pendingToken?.toList ++ ·) <$> scanner.reset.scan rest := by
  cases rest with
  | nil =>
      have ends : scanner.canEnd = true := by
        simp only [ahead] at complete
        unfold canEnd
        split
        · rfl
        · simp [complete]
      have resetEnds : scanner.reset.canEnd = true := rfl
      have resetEmpty : scanner.reset.pendingToken? = none := rfl
      simp only [scan_nil, finish, ends, resetEnds, resetEmpty, if_true, Functor.map, Except.map]
      rfl
  | cons c rest =>
      simp only [ahead] at complete
      cases found : Mode.ofChar? c with
      | none =>
          have rejected : scanner.reset.state.next c = .reject .invalidCharacter := by
            simp [reset, State.initial, State.next, found]
          rw [scan_reject rejected]
          simp only [scan, feedAll, feed, complete, found, bind, Except.bind, Functor.map,
            Except.map]
          rfl
      | some mode =>
          rw [scan_absorb ((reset_fresh scanner).next_of_ofChar? found)]
          simp only [scan, feedAll, feed, complete, found, bind, Except.bind, Functor.map,
            Except.map]
          cases (scanner.reset.absorb ⟨mode, 0⟩ c).feedAll rest with
          | error => rfl
          | ok result =>
              simp only
              cases result.2.finish with
              | error => rfl
              | ok closing => simp [pure, Except.pure]

theorem scan_complete_ok {scanner : Scanner} {rest : List Char} {tokens : List Token}
    (complete : scanner.state.next (ahead rest) = .complete)
    (scanned : scanner.scan rest = .ok tokens) :
    ∃ more, tokens = scanner.pendingToken?.toList ++ more ∧ scanner.reset.scan rest = .ok more := by
  rw [scan_complete complete] at scanned
  cases scannedLater : scanner.reset.scan rest with
  | error reason => simp [scannedLater, Functor.map, Except.map] at scanned
  | ok more =>
      rw [scannedLater] at scanned
      cases scanned
      exact ⟨more, rfl, rfl⟩

def State.run? (state : State) : List Char → Option State
  | [] => some state
  | c :: rest =>
      match state.next c with
      | .absorb next => if next.mode = .start then none else next.run? rest
      | _ => none

theorem State.run?_cons {state next : State} {c : Char} (absorbed : state.next c = .absorb next)
    (started : next.mode ≠ .start) (rest : List Char) :
    state.run? (c :: rest) = next.run? rest := by
  simp [run?, absorbed, started]

theorem State.run?_cons_some {state final : State} {c : Char} {rest : List Char}
    (ran : state.run? (c :: rest) = some final) :
    ∃ next, state.next c = .absorb next ∧ next.mode ≠ .start ∧ next.run? rest = some final := by
  simp only [run?] at ran
  split at ran
  next next absorbed =>
    split at ran
    · simp at ran
    next started => exact ⟨next, absorbed, started, ran⟩
  · simp at ran

theorem State.run?_append {state middle : State} {first second : List Char}
    (ran : state.run? first = some middle) :
    state.run? (first ++ second) = middle.run? second := by
  induction first generalizing state with
  | nil =>
      obtain rfl : state = middle := Option.some.inj ran
      rfl
  | cons c rest ih =>
      obtain ⟨next, stepped, started, ranOn⟩ := run?_cons_some ran
      rw [List.cons_append, run?_cons stepped started]
      exact ih ranOn

theorem scan_run {scanner : Scanner} {text : List Char} {state : State}
    (ran : scanner.state.run? text = some state) :
    ∃ after : Scanner, after.state = state ∧
      after.pending.toList = scanner.pending.toList ++ text ∧
      ∀ rest, scanner.scan (text ++ rest) = after.scan rest := by
  induction text generalizing scanner with
  | nil => exact ⟨scanner, Option.some.inj ran, by simp, fun _ => rfl⟩
  | cons c text ih =>
      obtain ⟨next, stepped, started, ranNext⟩ := State.run?_cons_some ran
      have ranOn : (scanner.absorb next c).state.run? text = some state := ranNext
      obtain ⟨after, afterState, pending, scanned⟩ := ih ranOn
      refine ⟨after, afterState, ?_, ?_⟩
      · simpa [absorb, started] using pending
      · intro rest
        rw [List.cons_append, scan_absorb stepped, scanned rest]

end Scanner

open Scanner (State Mode isWordChar ahead)

/-- Between tokens, the text gives tokens of the given sort if what comes after it satisfies the
condition. -/
def Scans (follow : List Char → Prop) (text : List Char) (sort : List Token → Prop) : Prop :=
  ∀ (scanner : Scanner) (rest : List Char), scanner.Fresh → follow rest →
    ∃ (tokens : List Token) (after : Scanner), sort tokens ∧ after.Fresh ∧
      scanner.scan (text ++ rest) = (tokens ++ ·) <$> after.scan rest

namespace Scans

variable {follow later : List Char → Prop} {text more : List Char} {sort other : List Token → Prop}

theorem nil (follow : List Char → Prop) : Scans follow [] (· = []) := by
  intro scanner rest fresh _
  refine ⟨[], scanner, rfl, fresh, ?_⟩
  cases scanned : scanner.scan rest <;> simp [scanned, Functor.map, Except.map]

theorem append (first : Scans follow text sort) (second : Scans later more other)
    (joint : ∀ rest, later rest → follow (more ++ rest)) :
    Scans later (text ++ more) fun tokens =>
      ∃ front back, sort front ∧ other back ∧ tokens = front ++ back := by
  intro scanner rest fresh followed
  obtain ⟨front, middle, frontGood, middleFresh, scanned⟩ :=
    first scanner (more ++ rest) fresh (joint rest followed)
  obtain ⟨back, after, backGood, afterFresh, scannedOn⟩ := second middle rest middleFresh followed
  refine ⟨front ++ back, after, ⟨front, back, frontGood, backGood, rfl⟩, afterFresh, ?_⟩
  rw [List.append_assoc, scanned, scannedOn]
  cases after.scan rest <;> simp [Functor.map, Except.map]

theorem mono (scans : Scans follow text sort) (weaker : ∀ rest, later rest → follow rest)
    (good : ∀ tokens, sort tokens → other tokens) : Scans later text other := by
  intro scanner rest fresh followed
  obtain ⟨tokens, after, found, afterFresh, scanned⟩ :=
    scans scanner rest fresh (weaker rest followed)
  exact ⟨tokens, after, good tokens found, afterFresh, scanned⟩

theorem ofRun {state : State} {kind : TokenKind} {lit : String}
    (ran : State.initial.run? text = some state)
    (emitted : state.mode.token? text = some (kind, lit)) :
    Scans (fun rest => state.next (ahead rest) = .complete) text fun tokens =>
      ∃ position, tokens = [⟨kind, lit, position⟩] := by
  intro scanner rest fresh complete
  obtain ⟨after, rfl, pending, scanned⟩ := Scanner.scan_run (fresh.1.symm ▸ ran)
  rw [fresh.2, String.toList_empty, List.nil_append] at pending
  have token : after.pendingToken? = some ⟨kind, lit, after.origin⟩ := by
    simp [Scanner.pendingToken?, pending, emitted]
  refine ⟨[⟨kind, lit, after.origin⟩], after.reset, ⟨_, rfl⟩, Scanner.reset_fresh after, ?_⟩
  rw [scanned, Scanner.scan_complete complete, token]
  rfl

end Scans

def Spells (follow : List Char → Prop) (text : List Char) (marks : List Mark) : Prop :=
  ∀ (scanner : Scanner) (rest : List Char), scanner.Fresh → follow rest →
    ∃ (tokens : List Token) (after : Scanner), Fit marks tokens ∧ after.Fresh ∧
      scanner.scan (text ++ rest) = (tokens ++ ·) <$> after.scan rest

def Always (_ : List Char) : Prop := True

/-- What ends a word or a number: the end of the text, or a character that neither goes on with. -/
def Delimited (rest : List Char) : Prop :=
  isWordChar (ahead rest) = false ∧ ahead rest ≠ '.'

namespace Spells

theorem scans {follow : List Char → Prop} {text : List Char} {marks : List Mark}
    (spells : Spells follow text marks) : Scans follow text (Fit marks) :=
  spells

theorem nil (follow : List Char → Prop) : Spells follow [] [] :=
  (Scans.nil follow).mono (fun _ followed => followed) fun _ empty => Fit.nil_iff.mpr empty

theorem append {follow later : List Char → Prop} {first second : List Char}
    {marks others : List Mark} (firstSpells : Spells follow first marks)
    (secondSpells : Spells later second others)
    (joint : ∀ rest, later rest → follow (second ++ rest)) :
    Spells later (first ++ second) (marks ++ others) :=
  (firstSpells.scans.append secondSpells.scans joint).mono (fun _ followed => followed)
    fun _ parts => Fit.append_iff.mpr parts

theorem mono {follow stronger : List Char → Prop} {text : List Char} {marks : List Mark}
    (spells : Spells follow text marks) (weaker : ∀ rest, stronger rest → follow rest) :
    Spells stronger text marks :=
  spells.scans.mono weaker fun _ fit => fit

theorem ofRun {text : List Char} {state : State} {kind : TokenKind} {lit : String} {mark : Mark}
    (ran : State.initial.run? text = some state)
    (emitted : state.mode.token? text = some (kind, lit))
    (fits : ∀ position, mark.Fits ⟨kind, lit, position⟩) :
    Spells (fun rest => state.next (ahead rest) = .complete) text [mark] := by
  refine (Scans.ofRun ran emitted).mono (fun _ complete => complete) ?_
  rintro _ ⟨position, rfl⟩
  exact Fit.cons (fits position) Fit.nil

end Spells

theorem tokenize_eq_scan (chars : List Char) :
    tokenize chars = (Token.first :: ·) <$> Scanner.initial.scan (dropMark chars) := by
  unfold tokenize Scanner.scan
  cases Scanner.initial.feedAll (dropMark chars) with
  | error => rfl
  | ok result =>
      simp only [bind, Except.bind]
      cases result.2.finish <;> rfl

theorem Scanner.Fresh.scan_nil {scanner : Scanner} (fresh : scanner.Fresh) :
    scanner.scan [] = .ok [⟨.finish, "", scanner.position⟩] := by
  obtain ⟨state, pending⟩ := fresh
  have ends : scanner.canEnd = true := by simp [canEnd, state, State.initial]
  have empty : scanner.pendingToken? = none := by
    simp [pendingToken?, state, State.initial, Mode.token?]
  rw [Scanner.scan_nil, finish, ends, empty]
  rfl

theorem Scans.tokenize {follow : List Char → Prop} {text : List Char} {sort : List Token → Prop}
    (scans : Scans follow text sort) (ends : follow []) :
    ∃ tokens last, tokenize text = .ok (Token.first :: (tokens ++ [last])) ∧ sort tokens ∧
      last.kind = .finish := by
  obtain ⟨tokens, after, good, fresh, scanned⟩ :=
    scans Scanner.initial [] Scanner.initial_fresh ends
  rw [List.append_nil, fresh.scan_nil] at scanned
  -- The byte order mark starts no token.
  have unmarked : dropMark text = text := by
    cases text with
    | nil => rfl
    | cons c rest =>
        have notMark : c ≠ byteOrderMark := by
          rintro rfl
          have rejected : Scanner.initial.state.next byteOrderMark = .reject .invalidCharacter := by
            decide +kernel
          rw [Scanner.scan_reject rejected] at scanned
          simp [Functor.map, Except.map] at scanned
        simp [dropMark, notMark]
  refine ⟨tokens, ⟨.finish, "", after.position⟩, ?_, good, rfl⟩
  rw [tokenize_eq_scan, unmarked, scanned]
  rfl

theorem Spells.tokenize {follow : List Char → Prop} {text : List Char} {marks : List Mark}
    (spells : Spells follow text marks) (ends : follow []) :
    ∃ tokens last, tokenize text = .ok (Token.first :: (tokens ++ [last])) ∧ Fit marks tokens ∧
      last.kind = .finish :=
  spells.scans.tokenize ends

end GameScript
