import GameScript.Proofs.Lexeme

/-!
The tokens of a text are well spelled: names are words that mean nothing else, numerals start like
numbers, and the bodies of strings and doc comments hold no end of their own. The invariant says for
every mode of the machine what the pending characters can be.
-/

namespace GameScript

open Scanner (State Mode isWordChar)

def isName (text : String) : Bool :=
  isWord text.toList && wordKind text = .ident

def Token.WellSpelled (token : Token) : Prop :=
  match token.kind with
  | .ident => isName token.lit = true
  | .decimal => ∃ c rest, token.lit.toList = c :: rest ∧ Double.StartsNumeral c
  | .string => isStringBody token.lit.toList = true
  | .docComment => isDocLine token.lit.toList = true
  | _ => True

/-- What the pending characters can be in a mode; of modes that matter to no text, nothing. -/
def Scanner.Mode.Holds (mode : Mode) (text : List Char) : Prop :=
  match mode with
  | .start => text = []
  | .symbol sign => text = sign.text.toList
  | .dots => text = ['.', '.']
  | .slashes => text = ['/', '/']
  | .docSlashes => text = ['/', '/', '/']
  | .docComment => ∃ line, text = '/' :: '/' :: '/' :: line ∧ '\n' ∉ line
  | .zero | .decimal | .fraction | .exponentMark | .exponentSign | .exponent =>
      ∃ c rest, text = c :: rest ∧ Double.StartsNumeral c
  | .stringBody => ∃ body, text = '"' :: body ∧ isStringBody body = true
  | .stringEscape => ∃ body, text = '"' :: (body ++ ['\\']) ∧ isStringBody body = true
  | .stringClosed => ∃ body, text = '"' :: (body ++ ['"']) ∧ isStringBody body = true
  | .word => isWord text = true
  | _ => True

theorem isStringBody_append {first second : List Char} (good : isStringBody first = true) :
    isStringBody (first ++ second) = isStringBody second := by
  fun_induction isStringBody first with
  | case1 => rfl
  | case2 c rest ih => exact ih good
  | case3 c rest _ ih =>
      obtain ⟨⟨notQuote, notBackslash⟩, goodRest⟩ :
          (c ≠ '"' ∧ c ≠ '\\') ∧ isStringBody rest = true := by simpa using good
      rw [List.cons_append, isStringBody]
      · simp [notQuote, notBackslash, ih goodRest]
      · simp_all

theorem isWord_append {text : List Char} {c : Char} (word : isWord text = true)
    (wordChar : isWordChar c = true) : isWord (text ++ [c]) = true := by
  cases text with
  | nil => simp [isWord] at word
  | cons first rest =>
      simp only [isWord, List.cons_append, Bool.and_eq_true, Bool.or_eq_true] at word ⊢
      refine ⟨?_, by simp [word.2, wordChar]⟩
      rcases word.1 with letter | underscore
      · exact Or.inl letter
      · exact Or.inr ⟨underscore.1, by simp⟩

theorem Symbol.text_of_ofChar? {c : Char} {sign : Symbol} (found : ofChar? c = some sign) :
    sign.text.toList = [c] := by
  unfold ofChar? at found
  split at found <;> first | (cases found; rfl) | simp at found

theorem Symbol.text_of_extend? {c : Char} {sign longer : Symbol}
    (found : sign.extend? c = some longer) : longer.text.toList = sign.text.toList ++ [c] := by
  unfold extend? at found
  split at found <;> first | (cases found; rfl) | simp at found

theorem Scanner.Mode.holds_ofChar? {c : Char} {mode : Mode} (found : Mode.ofChar? c = some mode)
    (started : mode ≠ .start) : mode.Holds [c] := by
  unfold Mode.ofChar? at found
  split at found
  next sign isSymbol =>
    cases found
    exact (Symbol.text_of_ofChar? isSymbol).symm
  next =>
    split at found
    next zero =>
      cases found
      exact ⟨c, [], rfl, Or.inl (zero ▸ rfl)⟩
    next =>
      split at found
      · cases found
        trivial
      · split at found
        · cases found
          trivial
        · split at found
          next quote =>
            cases found
            exact ⟨[], by rw [quote], rfl⟩
          next =>
            split at found
            · cases found
              exact absurd rfl started
            · split at found
              next digit =>
                cases found
                exact ⟨c, [], rfl, Or.inl digit⟩
              next =>
                split at found
                next letter =>
                  cases found
                  simp [Holds, isWord, letter]
                next => simp at found

theorem startsNumeral_append {text : List Char} {c : Char}
    (start : ∃ first rest, text = first :: rest ∧ Double.StartsNumeral first) :
    ∃ first rest, text ++ [c] = first :: rest ∧ Double.StartsNumeral first := by
  obtain ⟨first, rest, rfl, numeral⟩ := start
  exact ⟨first, rest ++ [c], rfl, numeral⟩

theorem Scanner.Mode.holds_symbol_next {sign : Symbol} {depth : UInt8} {next : State} {c : Char}
    {text : List Char} (holds : text = sign.text.toList)
    (absorbed : State.next ⟨.symbol sign, depth⟩ c = .absorb next) :
    next.mode.Holds (text ++ [c]) := by
  subst text
  simp only [State.next] at absorbed
  split at absorbed <;> try contradiction
  next known =>
    cases known
    split at absorbed
    next slash => cases absorbed; subst c; rfl
    next =>
      split at absorbed
      · cases absorbed; trivial
      · split at absorbed
        next equals => cases absorbed; subst c; rfl
        next => simp at absorbed
  next known =>
    cases known
    split at absorbed
    · cases absorbed; trivial
    · split at absorbed
      · cases absorbed; trivial
      · simp at absorbed
  next known =>
    cases known
    split at absorbed
    next wordChar =>
      cases absorbed
      change isWord (['_'] ++ [c]) = true
      simp [isWord, wordChar]
    next => simp at absorbed
  next known =>
    cases known
    split at absorbed
    next point => cases absorbed; subst c; rfl
    next =>
      split at absorbed
      next digit => cases absorbed; exact ⟨'.', [c], rfl, Or.inr rfl⟩
      next => simp at absorbed
  next known =>
    cases known
    split at absorbed <;> simp at absorbed
  next known =>
    cases known
    split at absorbed
    next longer extended =>
      cases absorbed
      exact (Symbol.text_of_extend? extended).symm
    next => simp at absorbed

/-- The invariant of the machine: what one more character makes of the pending ones. -/
theorem Scanner.Mode.holds_next {state next : State} {c : Char} {text : List Char}
    (holds : state.mode.Holds text) (absorbed : state.next c = .absorb next)
    (started : next.mode ≠ .start) : next.mode.Holds (text ++ [c]) := by
  obtain ⟨mode, depth⟩ := state
  -- Only modes whose text matters to a token say anything of it; all others are trivial.
  cases mode with
  | start =>
      simp only [State.next] at absorbed
      split at absorbed
      next mode found =>
        cases absorbed
        rw [show text = [] from holds]
        exact holds_ofChar? found started
      next => simp at absorbed
  | symbol sign => exact holds_symbol_next holds absorbed
  | zero | decimal | fraction | exponentMark | exponentSign | exponent =>
      have longer := startsNumeral_append (c := c) holds
      simp only [State.next] at absorbed
      repeat' split at absorbed
      all_goals first | (cases absorbed; first | exact longer | trivial) | simp at absorbed
  | slashes =>
      rw [show text = ['/', '/'] from holds]
      simp only [State.next] at absorbed
      split at absorbed
      next slash => cases absorbed; subst c; rfl
      next =>
        split at absorbed
        · simp at absorbed
        · cases absorbed; trivial
  | docSlashes =>
      rw [show text = ['/', '/', '/'] from holds]
      simp only [State.next] at absorbed
      split at absorbed
      next => simp at absorbed
      next notBreak => cases absorbed; exact ⟨[c], rfl, by simpa using Ne.symm notBreak⟩
  | docComment =>
      obtain ⟨line, rfl, oneLine⟩ := holds
      simp only [State.next] at absorbed
      split at absorbed
      next => simp at absorbed
      next notBreak =>
        cases absorbed
        exact ⟨line ++ [c], rfl, by simp [oneLine, Ne.symm notBreak]⟩
  | stringBody =>
      obtain ⟨body, rfl, good⟩ := holds
      simp only [State.next] at absorbed
      split at absorbed
      next quote => cases absorbed; subst c; exact ⟨body, rfl, good⟩
      next notQuote =>
        split at absorbed
        next backslash => cases absorbed; subst c; exact ⟨body, rfl, good⟩
        next notBackslash =>
          cases absorbed
          refine ⟨body ++ [c], rfl, ?_⟩
          rw [isStringBody_append good]
          simp [isStringBody, notQuote, notBackslash]
  | stringEscape =>
      obtain ⟨body, rfl, good⟩ := holds
      simp only [State.next] at absorbed
      cases absorbed
      refine ⟨body ++ ['\\', c], by simp, ?_⟩
      rw [isStringBody_append good]
      rfl
  | word =>
      simp only [State.next] at absorbed
      split at absorbed
      next wordChar => cases absorbed; exact isWord_append holds wordChar
      next => simp at absorbed
  | dots =>
      rw [show text = ['.', '.'] from holds]
      simp only [State.next] at absorbed
      split at absorbed
      next point => cases absorbed; subst c; rfl
      next => simp at absorbed
  | _ =>
      simp only [State.next] at absorbed
      repeat' split at absorbed
      all_goals first | (cases absorbed; trivial) | simp at absorbed

theorem wordKind_cases (text : String) :
    (∃ word, wordKind text = .keyword word) ∨ wordKind text = .bool ∨
      wordKind text = .undefined ∨ wordKind text = .reserved ∨ wordKind text = .ident := by
  unfold wordKind
  split
  next word _ => exact Or.inl ⟨word, rfl⟩
  next => split_ifs <;> simp

theorem isDocLine_docLine {line : List Char} (oneLine : '\n' ∉ line) :
    isDocLine (Scanner.docLine ('/' :: '/' :: '/' :: line)) = true := by
  have stripped : ∀ kept : List Char, '\n' ∉ kept →
      isDocLine (kept.reverse.dropWhile (· = '\r')).reverse = true := by
    intro kept clean
    have inside : '\n' ∉ kept.reverse.dropWhile (· = '\r') := fun member =>
      clean (List.mem_reverse.mp ((List.dropWhile_sublist _).subset member))
    have last : (kept.reverse.dropWhile (· = '\r')).head? ≠ some '\r' := by
      intro found
      have notReturn := List.head?_dropWhile_not (· = '\r') kept.reverse
      rw [found] at notReturn
      simp at notReturn
    simp [isDocLine, inside, last]
  unfold Scanner.docLine
  simp only [List.drop_succ_cons, List.drop_zero]
  split
  · exact stripped line.tail fun member => oneLine (List.mem_of_mem_tail member)
  · exact stripped line oneLine

namespace Scanner

def Sound (scanner : Scanner) : Prop :=
  scanner.state.mode.Holds scanner.pending.toList

theorem Mode.wellSpelled_token? {mode : Mode} {text : List Char} {kind : TokenKind} {lit : String}
    (holds : mode.Holds text) (emitted : mode.token? text = some (kind, lit))
    (position : Position) : Token.WellSpelled ⟨kind, lit, position⟩ := by
  cases mode with
  | zero | decimal | fraction | exponent =>
      cases emitted
      simpa [Token.WellSpelled, Mode.Holds] using holds
  | stringClosed =>
      obtain ⟨body, rfl, good⟩ := holds
      cases emitted
      simpa [Token.WellSpelled, inner_delimited] using good
  | docSlashes =>
      rw [show text = ['/', '/', '/'] from holds] at emitted
      cases emitted
      exact isDocLine_docLine List.not_mem_nil
  | docComment =>
      obtain ⟨line, rfl, oneLine⟩ := holds
      cases emitted
      have good := isDocLine_docLine oneLine
      simpa only [Token.WellSpelled, String.toList_ofList] using good
  | word =>
      cases emitted
      rcases wordKind_cases (String.ofList text) with
        ⟨word, kind⟩ | kind | kind | kind | kind
      case inr.inr.inr.inr =>
        have word : isWord text = true := holds
        simp [Token.WellSpelled, kind, isName, word]
      all_goals simp [Token.WellSpelled, kind]
  | directive name missing =>
      cases missing with
      | nil => cases emitted; trivial
      | cons letter missing => simp [Mode.token?] at emitted
  | hex | binary | charClosed | symbol | lineEnd => cases emitted; trivial
  | _ => simp [Mode.token?] at emitted

theorem Sound.wellSpelled_pendingToken? {scanner : Scanner} (sound : scanner.Sound) :
    ∀ token ∈ scanner.pendingToken?, token.WellSpelled := by
  intro token emitted
  obtain ⟨⟨kind, lit⟩, found, rfl⟩ : ∃ pair : TokenKind × String,
      scanner.state.mode.token? scanner.pending.toList = some pair ∧
        ⟨pair.1, pair.2, scanner.origin⟩ = token := by
    simpa [pendingToken?] using emitted
  exact Mode.wellSpelled_token? sound found scanner.origin

theorem Sound.absorb {scanner : Scanner} {next : State} {c : Char} (sound : scanner.Sound)
    (absorbed : scanner.state.next c = .absorb next) : (scanner.absorb next c).Sound := by
  unfold Sound Scanner.absorb
  by_cases started : next.mode = .start
  · simp [started, Mode.Holds]
  · simpa [started] using Mode.holds_next sound absorbed started

theorem sound_reset (scanner : Scanner) : scanner.reset.Sound := rfl

theorem Sound.feed {scanner after : Scanner} {c : Char} (sound : scanner.Sound)
    (fed : (scanner.feed c).outcome = .ok after) :
    after.Sound ∧ ∀ token ∈ (scanner.feed c).token, token.WellSpelled := by
  unfold Scanner.feed at fed ⊢
  split at fed
  next next absorbed =>
    cases fed
    exact ⟨sound.absorb absorbed, by simp⟩
  next => simp at fed
  next complete =>
    simp only at fed ⊢
    split at fed
    next mode found =>
      cases fed
      have absorbed := (reset_fresh scanner).next_of_ofChar? found
      exact ⟨(sound_reset scanner).absorb absorbed, sound.wellSpelled_pendingToken?⟩
    next => simp at fed

theorem Sound.feedAll {scanner last : Scanner} {chars : List Char} {tokens : List Token}
    (sound : scanner.Sound) (fed : scanner.feedAll chars = .ok (tokens, last)) :
    last.Sound ∧ ∀ token ∈ tokens, token.WellSpelled :=
  feedAll_invariant Sound.feed sound fed

end Scanner

/-- The tokens of a text are well spelled, and the last one closes the list. -/
theorem wellSpelled_tokenize {chars : List Char} {tokens : List Token}
    (scanned : tokenize chars = .ok tokens) :
    (∀ token ∈ tokens, token.WellSpelled) ∧
      ∃ middle last, tokens = Token.first :: middle ++ [last] ∧ last.kind = .finish := by
  unfold tokenize at scanned
  cases fed : Scanner.initial.feedAll (dropMark chars) with
  | error reason => simp [fed, bind, Except.bind] at scanned
  | ok result =>
      obtain ⟨emitted, last⟩ := result
      have startSound : Scanner.initial.Sound := rfl
      obtain ⟨lastSound, wellSpelled⟩ := startSound.feedAll fed
      simp only [fed, bind, Except.bind, Scanner.finish] at scanned
      split at scanned
      · simp at scanned
      · next closing ended =>
          split at ended
          next =>
            cases ended
            cases scanned
            refine ⟨?_, emitted ++ last.pendingToken?.toList, _, by simp; rfl, rfl⟩
            intro token member
            simp only [List.cons_append, List.mem_cons, List.mem_append, Option.mem_toList,
              List.not_mem_nil, or_false] at member
            rcases member with rfl | here | pending | rfl
            · trivial
            · exact wellSpelled token here
            · exact lastSound.wellSpelled_pendingToken? token pending
            · trivial
          next => simp at ended

end GameScript
