import GameScript.Proofs.Numeral
import GameScript.Proofs.Scanning

/-!
The texts of single tokens: words, symbols, numerals, strings, characters, doc comments, and the
blanks and line ends between them.
-/

namespace GameScript

open Scanner (State Mode isWordChar isAlnum ahead)

namespace Text

theorem inRanges_mem {ranges : List (Nat × Nat)} {code : Nat}
    (found : inRanges ranges code = true) :
    ∃ range ∈ ranges, range.1 ≤ code ∧ code ≤ range.2 := by
  induction ranges with
  | nil => simp [inRanges] at found
  | cons range rest ih =>
      simp only [inRanges] at found
      split at found
      · simp at found
      · next above =>
          simp only [Bool.or_eq_true, decide_eq_true_eq] at found
          rcases found with within | later
          · exact ⟨range, by simp, by omega, within⟩
          · obtain ⟨other, member, bounds⟩ := ih later
            exact ⟨other, by simp [member], bounds⟩

theorem isLetter_of_isBlank {c : Char} (blank : isBlank c = true) : isLetter c = false := by
  obtain ⟨range, member, lower, upper⟩ := inRanges_mem blank
  have table : ∀ range ∈ blankRanges, ∀ offset < range.2 - range.1 + 1,
      isLetter (Char.ofNat (range.1 + offset)) = false := by decide +kernel
  have found := table range member (c.toNat - range.1) (by omega)
  rwa [Nat.add_sub_cancel' lower, Char.ofNat_toNat] at found

theorem mem_digits_of_isDigit {c : Char} (digit : c.isDigit = true) :
    c ∈ ['0', '1', '2', '3', '4', '5', '6', '7', '8', '9'] := by
  have bounds : 48 ≤ c.toNat ∧ c.toNat ≤ 57 := by
    simpa [Char.isDigit, UInt32.le_iff_toNat_le] using digit
  have table : ∀ offset < 10,
      Char.ofNat (48 + offset) ∈ ['0', '1', '2', '3', '4', '5', '6', '7', '8', '9'] := by decide
  have found := table (c.toNat - 48) (by omega)
  rwa [Nat.add_sub_cancel' bounds.1, Char.ofNat_toNat] at found

theorem test_of_isDigit {test : Char → Bool} {c : Char}
    (table : ['0', '1', '2', '3', '4', '5', '6', '7', '8', '9'].all test = true)
    (digit : c.isDigit = true) : test c = true :=
  List.all_eq_true.mp table c (mem_digits_of_isDigit digit)

theorem isBlank_of_isDigit {c : Char} (digit : c.isDigit = true) : isBlank c = false := by
  have table : ['0', '1', '2', '3', '4', '5', '6', '7', '8', '9'].all (!isBlank ·) = true := by decide
  simpa using test_of_isDigit table digit

end Text

theorem Symbol.isLetter_of_ofChar? {c : Char} {sign : Symbol} (found : ofChar? c = some sign) :
    Text.isLetter c = false := by
  unfold ofChar? at found
  split at found <;> first | decide | simp at found

theorem Scanner.Mode.ofChar?_letter {c : Char} (letter : Text.isLetter c = true) :
    Mode.ofChar? c = some .word := by
  have notSymbol : Symbol.ofChar? c = none := by
    cases found : Symbol.ofChar? c with
    | none => rfl
    | some sign => simp [Symbol.isLetter_of_ofChar? found] at letter
  have notBlank : Text.isBlank c = false := by
    cases blank : Text.isBlank c with
    | false => rfl
    | true => simp [Text.isLetter_of_isBlank blank] at letter
  have notDigit : c.isDigit = false := by
    cases digit : c.isDigit with
    | false => rfl
    | true =>
        have table : ['0', '1', '2', '3', '4', '5', '6', '7', '8', '9'].all (!Text.isLetter ·) =
            true := by decide
        have notLetter := Text.test_of_isDigit table digit
        simp [letter] at notLetter
  have other : ∀ d, Text.isLetter d = false → c ≠ d := by
    rintro d notLetter rfl
    simp [notLetter] at letter
  simp [Mode.ofChar?, notSymbol, notBlank, notDigit, letter, other '0' (by decide),
    other '\n' (by decide), other '\'' (by decide), other '"' (by decide)]

theorem Delimited.cons {c : Char} {rest : List Char} (notWord : isWordChar c = false)
    (notPoint : c ≠ '.') : Delimited (c :: rest) :=
  ⟨notWord, notPoint⟩

/-! Words. -/

/-- The texts that the machine takes for one word: a letter, or an underscore that does not stand
alone, and then word characters. -/
def isWord : List Char → Bool
  | [] => false
  | c :: rest => (Text.isLetter c || (c = '_' && !rest.isEmpty)) && rest.all isWordChar

theorem Scanner.State.run?_word {rest : List Char} (all : rest.all isWordChar = true) :
    State.run? ⟨.word, 0⟩ rest = some ⟨.word, 0⟩ := by
  induction rest with
  | nil => rfl
  | cons c rest ih =>
      simp only [List.all_cons, Bool.and_eq_true] at all
      have absorbed : State.next ⟨.word, 0⟩ c = .absorb ⟨.word, 0⟩ := by
        simp [State.next, all.1]
      rw [State.run?_cons absorbed (by decide)]
      exact ih all.2

theorem Scanner.State.run?_isWord {text : List Char} (word : isWord text = true) :
    State.initial.run? text = some ⟨.word, 0⟩ := by
  cases text with
  | nil => simp [isWord] at word
  | cons c rest =>
      simp only [isWord, Bool.and_eq_true, Bool.or_eq_true] at word
      obtain ⟨letter | underscore, all⟩ := word
      · have first : State.initial.next c = .absorb ⟨.word, 0⟩ := by
          simp [State.next, State.initial, Mode.ofChar?_letter letter]
        rw [State.run?_cons first (by decide), State.run?_word all]
      · obtain ⟨rfl, nonempty⟩ : c = '_' ∧ rest ≠ [] := by simpa using underscore
        obtain ⟨d, more, rfl⟩ := List.exists_cons_of_ne_nil nonempty
        have first : State.initial.next '_' = .absorb ⟨.symbol .underscore, 0⟩ := by decide
        simp only [List.all_cons, Bool.and_eq_true] at all
        have second : State.next ⟨.symbol .underscore, 0⟩ d = .absorb ⟨.word, 0⟩ := by
          simp [State.next, all.1]
        rw [State.run?_cons first (by decide), State.run?_cons second (by decide),
          State.run?_word all.2]

theorem spells_word {text : String} {mark : Mark} (word : isWord text.toList = true)
    (fits : ∀ position, mark.Fits ⟨wordKind text, text, position⟩) :
    Spells Delimited text.toList [mark] := by
  have emitted : Mode.token? .word text.toList = some (wordKind text, text) := by
    simp [Mode.token?]
  refine (Spells.ofRun (State.run?_isWord word) emitted fits).mono ?_
  intro rest delimited
  simp [State.next, delimited.1]

theorem Keyword.isWord_text (word : Keyword) : isWord word.text.toList = true := by
  cases word <;> decide

theorem Keyword.wordKind_text (word : Keyword) : wordKind word.text = .keyword word := by
  cases word <;> decide

theorem spells_keyword (word : Keyword) : Spells Delimited word.text.toList [.keyword word] :=
  spells_word word.isWord_text fun _ => word.wordKind_text

/-! Symbols. -/

theorem Symbol.run?_text (sign : Symbol) :
    State.initial.run? sign.text.toList = some ⟨.symbol sign, 0⟩ := by
  cases sign <;> decide

theorem spells_symbol {sign : Symbol} {mark : Mark}
    (fits : ∀ position, mark.Fits ⟨.symbol sign, "", position⟩) :
    Spells (fun rest => State.next ⟨.symbol sign, 0⟩ (ahead rest) = .complete)
      sign.text.toList [mark] :=
  Spells.ofRun sign.run?_text rfl fits

def Symbol.isClosed : Symbol → Bool
  | leftParen | rightParen | leftBrace | rightBrace | comma | semicolon | question | colon | bitNot
  | increment | decrement => true
  | _ => false

theorem Symbol.next_of_isClosed {sign : Symbol} (closed : sign.isClosed = true) (c : Char) :
    State.next ⟨.symbol sign, 0⟩ c = .complete := by
  cases sign <;> first | rfl | simp [isClosed] at closed

theorem spells_closed {sign : Symbol} {mark : Mark} (closed : sign.isClosed = true)
    (fits : ∀ position, mark.Fits ⟨.symbol sign, "", position⟩) :
    Spells Always sign.text.toList [mark] :=
  (spells_symbol fits).mono fun rest _ => Symbol.next_of_isClosed closed (ahead rest)

theorem Symbol.next_space (sign : Symbol) : State.next ⟨.symbol sign, 0⟩ ' ' = .complete := by
  cases sign <;> decide

/-! Blanks and line ends. -/

def isIndent (c : Char) : Bool := c = ' ' || c = '\t'

theorem Scanner.Mode.ofChar?_indent {c : Char} (indent : isIndent c = true) :
    Mode.ofChar? c = some .start := by
  have either : c = ' ' ∨ c = '\t' := by simpa [isIndent] using indent
  rcases either with rfl | rfl <;> decide

theorem spells_indent {text : List Char} (all : text.all isIndent = true) :
    Spells Always text [] := by
  induction text with
  | nil => exact Spells.nil Always
  | cons c rest ih =>
      simp only [List.all_cons, Bool.and_eq_true] at all
      intro scanner more fresh _
      have absorbed : scanner.state.next c = .absorb State.initial := by
        rw [fresh.1]
        simp [State.next, State.initial, Mode.ofChar?_indent all.1]
      have stays : (scanner.absorb State.initial c).Fresh := ⟨rfl, rfl⟩
      rw [List.cons_append, Scanner.scan_absorb absorbed]
      exact ih all.2 _ more stays trivial

/-- What a line may start with: an indentation, and then no blank. -/
def LineStart (rest : List Char) : Prop :=
  ∀ c, (rest.dropWhile isIndent).head? = some c → Text.isBlank c = false

theorem scan_lineEnd {scanner : Scanner} {rest : List Char} (start : LineStart rest)
    (inLineEnd : scanner.state = ⟨.lineEnd, 0⟩) :
    scanner.scan rest =
      ([⟨.lineEnd, "", scanner.origin⟩] ++ ·) <$> scanner.reset.scan rest := by
  -- Indentation is taken into the line end on one side, and skipped as blanks on the other.
  induction rest generalizing scanner with
  | nil =>
      have ends : scanner.canEnd = true := by
        rw [Scanner.canEnd, inLineEnd]
        decide
      have token := Scanner.pendingToken?_lineEnd (congrArg State.mode inLineEnd)
      have resetEnds : scanner.reset.canEnd = true := rfl
      have resetEmpty : scanner.reset.pendingToken? = none := rfl
      simp only [Scanner.scan_nil, Scanner.finish, ends, token, resetEnds, resetEmpty, if_true,
        Functor.map, Except.map]
      rfl
  | cons c rest ih =>
      by_cases indent : isIndent c = true
      · have blank : Text.isBlank c = true := by
          have either : c = ' ' ∨ c = '\t' := by simpa [isIndent] using indent
          rcases either with rfl | rfl <;> decide
        have absorbed : scanner.state.next c = .absorb ⟨.lineEnd, 0⟩ := by
          simp [inLineEnd, State.next, blank]
        have skipped : scanner.reset.state.next c = .absorb State.initial := by
          simp [Scanner.reset, State.next, State.initial, Mode.ofChar?_indent indent]
        have later : LineStart rest := by
          simpa [LineStart, List.dropWhile_cons, indent] using start
        have same : (scanner.absorb ⟨.lineEnd, 0⟩ c).reset =
            scanner.reset.absorb State.initial c := by
          simp [Scanner.absorb, Scanner.reset, State.initial, inLineEnd]
        have origin : (scanner.absorb ⟨.lineEnd, 0⟩ c).origin = scanner.origin := by
          simp [Scanner.absorb, inLineEnd]
        rw [Scanner.scan_absorb absorbed, ih later rfl, same, origin,
          Scanner.scan_absorb skipped]
      · have notBlank : Text.isBlank c = false := by
          apply start
          simp [indent]
        have complete : scanner.state.next (ahead (c :: rest)) = .complete := by
          simp [inLineEnd, State.next, ahead, notBlank]
        have token := Scanner.pendingToken?_lineEnd (congrArg State.mode inLineEnd)
        rw [Scanner.scan_complete complete, token]
        rfl

theorem spells_lineEnd : Spells LineStart ['\n'] [.lineEnd] := by
  intro scanner rest fresh start
  have absorbed : scanner.state.next '\n' = .absorb ⟨.lineEnd, 0⟩ := by
    rw [fresh.1]
    decide
  refine ⟨[⟨.lineEnd, "", (scanner.absorb ⟨.lineEnd, 0⟩ '\n').origin⟩],
    (scanner.absorb ⟨.lineEnd, 0⟩ '\n').reset, Fit.cons rfl Fit.nil, ⟨rfl, rfl⟩, ?_⟩
  rw [List.cons_append, List.nil_append, Scanner.scan_absorb absorbed]
  exact scan_lineEnd start rfl

/-! Numerals. -/

theorem isWordChar_of_isDigit {c : Char} (digit : c.isDigit = true) : isWordChar c = true := by
  have table : ['0', '1', '2', '3', '4', '5', '6', '7', '8', '9'].all isWordChar = true := by decide
  exact Text.test_of_isDigit table digit

theorem Scanner.State.run?_digits {mode : Mode} (numeral : mode = .decimal ∨ mode = .fraction)
    {digits : List Char} (all : ∀ c ∈ digits, c.isDigit = true) :
    State.run? ⟨mode, 0⟩ digits = some ⟨mode, 0⟩ := by
  induction digits with
  | nil => rfl
  | cons c rest ih =>
      have absorbed : State.next ⟨mode, 0⟩ c = .absorb ⟨mode, 0⟩ := by
        rcases numeral with rfl | rfl <;> simp [State.next, all c (by simp)]
      have started : mode ≠ .start := by rcases numeral with rfl | rfl <;> decide
      rw [State.run?_cons absorbed started]
      exact ih fun d member => all d (by simp [member])

theorem Scanner.State.run?_whole {whole : List Char} (nonempty : whole ≠ [])
    (all : ∀ c ∈ whole, c.isDigit = true) :
    State.initial.run? whole = some ⟨.zero, 0⟩ ∨ State.initial.run? whole = some ⟨.decimal, 0⟩ := by
  obtain ⟨c, rest, rfl⟩ := List.exists_cons_of_ne_nil nonempty
  have restDigits : ∀ d ∈ rest, d.isDigit = true := fun d member => all d (by simp [member])
  by_cases zero : c = '0'
  · subst c
    have first : State.initial.next '0' = .absorb ⟨.zero, 0⟩ := by decide
    rw [State.run?_cons first (by decide)]
    cases rest with
    | nil => exact Or.inl rfl
    | cons d more =>
        have second : State.next ⟨.zero, 0⟩ d = .absorb ⟨.decimal, 0⟩ := by
          have table : ['0', '1', '2', '3', '4', '5', '6', '7', '8', '9'].all
              (State.next ⟨.zero, 0⟩ · = .absorb ⟨.decimal, 0⟩) = true := by decide
          simpa using Text.test_of_isDigit table (restDigits d (by simp))
        rw [State.run?_cons second (by decide)]
        exact Or.inr (State.run?_digits (Or.inl rfl) fun e member => restDigits e (by simp [member]))
  · have first : State.initial.next c = .absorb ⟨.decimal, 0⟩ := by
      have table : ['0', '1', '2', '3', '4', '5', '6', '7', '8', '9'].all
          (fun d => d = '0' || State.initial.next d = .absorb ⟨.decimal, 0⟩) = true := by decide
      simpa [zero] using Text.test_of_isDigit table (all c (by simp))
    rw [State.run?_cons first (by decide)]
    exact Or.inr (State.run?_digits (Or.inl rfl) restDigits)

theorem Scanner.State.next_delimited {mode : Mode} {rest : List Char}
    (numeral : mode = .zero ∨ mode = .decimal ∨ mode = .fraction) (delimited : Delimited rest) :
    State.next ⟨mode, 0⟩ (ahead rest) = .complete := by
  obtain ⟨notWord, notPoint⟩ := delimited
  have other : ∀ d, isWordChar d = true → ahead rest ≠ d := by
    intro d wordChar same
    rw [same] at notWord
    simp [notWord] at wordChar
  have notDigit : (ahead rest).isDigit = false := by
    cases digit : (ahead rest).isDigit with
    | false => rfl
    | true => simp [isWordChar_of_isDigit digit] at notWord
  have notAlnum : isAlnum (ahead rest) = false := by
    simp only [isWordChar, Bool.or_eq_false_iff] at notWord
    exact notWord.2
  rcases numeral with rfl | rfl | rfl <;>
    simp [State.next, notPoint, notDigit, notAlnum, other 'x' (by decide), other 'b' (by decide),
      other 'e' (by decide), other '_' (by decide)]

theorem spells_pointed {whole fraction : List Char} {mark : Mark} (nonempty : whole ≠ [])
    (wholeDigits : ∀ c ∈ whole, c.isDigit = true)
    (fractionDigits : ∀ c ∈ fraction, c.isDigit = true)
    (fits : ∀ position,
      mark.Fits ⟨.decimal, String.ofList (Double.pointed whole fraction), position⟩) :
    Spells Delimited (Double.pointed whole fraction) [mark] := by
  have whole? := State.run?_whole nonempty wholeDigits
  obtain ⟨mode, numeral, ran⟩ : ∃ mode : Mode,
      (mode = .zero ∨ mode = .decimal ∨ mode = .fraction) ∧
        State.initial.run? (Double.pointed whole fraction) = some ⟨mode, 0⟩ := by
    cases fraction with
    | nil =>
        rcases whole? with ran | ran
        · exact ⟨.zero, Or.inl rfl, ran⟩
        · exact ⟨.decimal, Or.inr (Or.inl rfl), ran⟩
    | cons c rest =>
        refine ⟨.fraction, Or.inr (Or.inr rfl), ?_⟩
        have digits := State.run?_digits (Or.inr rfl) fractionDigits
        rcases whole? with ran | ran
        · have point : State.next ⟨.zero, 0⟩ '.' = .absorb ⟨.fraction, 0⟩ := by decide
          rw [Double.pointed, State.run?_append ran, State.run?_cons point (by decide), digits]
          simp
        · have point : State.next ⟨.decimal, 0⟩ '.' = .absorb ⟨.fraction, 0⟩ := by decide
          rw [Double.pointed, State.run?_append ran, State.run?_cons point (by decide), digits]
          simp
  have emitted : mode.token? (Double.pointed whole fraction) =
      some (.decimal, String.ofList (Double.pointed whole fraction)) := by
    rcases numeral with rfl | rfl | rfl <;> rfl
  exact (Spells.ofRun ran emitted fits).mono fun _ => State.next_delimited numeral

theorem spells_number {x : Double} (finite : x.magnitude < Double.infiniteMagnitude)
    (positive : x.negative = false) :
    Spells Delimited x.text.toList [.literal (.number x)] := by
  obtain ⟨whole, fraction, shape, nonempty, wholeDigits, fractionDigits, reads⟩ :=
    Double.text_reads_back finite positive
  have noUnderscore : (Double.pointed whole fraction).filter (· ≠ '_') =
      Double.pointed whole fraction := by
    apply List.filter_eq_self.mpr
    intro c member
    have digitOrPoint : c.isDigit = true ∨ c = '.' := by
      cases fraction with
      | nil => exact Or.inl (wholeDigits c member)
      | cons d rest =>
          simp only [Double.pointed, List.mem_append, List.mem_cons] at member
          rcases member with inWhole | point | inFraction
          · exact Or.inl (wholeDigits c inWhole)
          · exact Or.inr point
          · exact Or.inl (fractionDigits c (by simpa using inFraction))
    simpa using Double.StartsNumeral.ne_of_word digitOrPoint (by decide) (by decide)
  rw [shape] at reads ⊢
  apply spells_pointed nonempty wholeDigits fractionDigits
  intro position
  simp only [Mark.Fits, Token.literal, String.toList_ofList, noUnderscore, reads]

/-! Strings and characters. -/

def isStringBody : List Char → Bool
  | [] => true
  | '\\' :: _ :: rest => isStringBody rest
  | c :: rest => c ≠ '"' && c ≠ '\\' && isStringBody rest

theorem Scanner.State.run?_stringBody {body : List Char} (good : isStringBody body = true) :
    State.run? ⟨.stringBody, 0⟩ body = some ⟨.stringBody, 0⟩ := by
  fun_induction isStringBody body with
  | case1 => rfl
  | case2 c rest ih =>
      have first : State.next ⟨.stringBody, 0⟩ '\\' = .absorb ⟨.stringEscape, 0⟩ := by decide
      have second : State.next ⟨.stringEscape, 0⟩ c = .absorb ⟨.stringBody, 0⟩ := rfl
      rw [State.run?_cons first (by decide), State.run?_cons second (by decide)]
      exact ih good
  | case3 c rest _ ih =>
      obtain ⟨⟨notQuote, notBackslash⟩, goodRest⟩ :
          (c ≠ '"' ∧ c ≠ '\\') ∧ isStringBody rest = true := by simpa using good
      have first : State.next ⟨.stringBody, 0⟩ c = .absorb ⟨.stringBody, 0⟩ := by
        simp [State.next, notQuote, notBackslash]
      rw [State.run?_cons first (by decide)]
      exact ih goodRest

theorem inner_delimited (quote : Char) (body : List Char) :
    Scanner.inner (quote :: (body ++ [quote])) = body := by
  simp [Scanner.inner]

theorem spells_string {body : String} (good : isStringBody body.toList = true) :
    Spells Always ("\"" ++ body ++ "\"").toList [.literal (.string body)] := by
  have shape : ("\"" ++ body ++ "\"").toList = '"' :: (body.toList ++ ['"']) := by simp
  have first : State.initial.next '"' = .absorb ⟨.stringBody, 0⟩ := by decide
  have last : State.next ⟨.stringBody, 0⟩ '"' = .absorb ⟨.stringClosed, 0⟩ := by decide
  have ran : State.initial.run? ('"' :: (body.toList ++ ['"'])) = some ⟨.stringClosed, 0⟩ := by
    rw [State.run?_cons first (by decide), State.run?_append (State.run?_stringBody good),
      State.run?_cons last (by decide)]
    rfl
  have emitted : Mode.token? .stringClosed ('"' :: (body.toList ++ ['"'])) =
      some (.string, body) := by
    simp [Mode.token?, inner_delimited]
  have fits (position : Position) : Mark.Fits (.literal (.string body)) ⟨.string, body, position⟩ :=
    rfl
  rw [shape]
  exact (Spells.ofRun ran emitted fits).mono fun _ _ => rfl

theorem Text.escapeChar_cases (quote c : Char) (known : quote = '"' ∨ quote = '\'') :
    (escapeChar quote c = [c] ∧ c ≠ '\\' ∧ c ≠ quote) ∨
      ∃ letter, escapeChar quote c = ['\\', letter] ∧ escapeValue? letter = some c := by
  unfold escapeChar
  split
  · exact Or.inr ⟨'n', rfl, rfl⟩
  · exact Or.inr ⟨'t', rfl, rfl⟩
  · exact Or.inr ⟨'r', rfl, rfl⟩
  · exact Or.inr ⟨'0', rfl, rfl⟩
  · exact Or.inr ⟨'\\', rfl, rfl⟩
  next notBackslash =>
    split
    next same =>
      refine Or.inr ⟨c, rfl, ?_⟩
      rcases known with rfl | rfl <;> rw [same] <;> rfl
    next different => exact Or.inl ⟨rfl, notBackslash, different⟩

theorem Text.escape_singleton (quote c : Char) :
    (escape quote (String.singleton c)).toList = escapeChar quote c := by
  simp [escape]

theorem isStringBody_escapeChar_append (c : Char) (rest : List Char) :
    isStringBody (Text.escapeChar '"' c ++ rest) = isStringBody rest := by
  rcases Text.escapeChar_cases '"' c (Or.inl rfl) with
    ⟨shape, notBackslash, notQuote⟩ | ⟨letter, shape, _⟩
  · rw [shape, List.singleton_append, isStringBody.eq_3]
    · simp [notBackslash, notQuote]
    · simp [notBackslash]
  · rw [shape]
    rfl

theorem isStringBody_escape (text : String) :
    isStringBody (Text.escape '"' text).toList = true := by
  simp only [Text.escape, String.toList_ofList]
  induction text.toList with
  | nil => rfl
  | cons c rest ih => rw [List.flatMap_cons, isStringBody_escapeChar_append, ih]

theorem spells_char (c : Char) :
    Spells Always (Text.enquote '\'' (String.singleton c)).toList [.literal (.char c)] := by
  have shape : (Text.enquote '\'' (String.singleton c)).toList =
      '\'' :: (Text.escapeChar '\'' c ++ ['\'']) := by
    simp [Text.enquote, Text.escape_singleton]
  have first : State.initial.next '\'' = .absorb ⟨.charOpen, 0⟩ := by decide
  have last : State.next ⟨.charBody, 0⟩ '\'' = .absorb ⟨.charClosed, 0⟩ := by decide
  have emitted : Mode.token? .charClosed ('\'' :: (Text.escapeChar '\'' c ++ ['\''])) =
      some (.char, String.ofList (Text.escapeChar '\'' c)) := by
    simp [Mode.token?, inner_delimited]
  obtain ⟨ran, value⟩ :
      State.run? ⟨.charOpen, 0⟩ (Text.escapeChar '\'' c) = some ⟨.charBody, 0⟩ ∧
        Text.charValue? (String.ofList (Text.escapeChar '\'' c)) = some c := by
    rcases Text.escapeChar_cases '\'' c (Or.inr rfl) with
      ⟨shape, notBackslash, notQuote⟩ | ⟨letter, shape, denotes⟩
    · rw [shape]
      have body : State.next ⟨.charOpen, 0⟩ c = .absorb ⟨.charBody, 0⟩ := by
        simp [State.next, notBackslash, notQuote]
      refine ⟨?_, ?_⟩
      · rw [State.run?_cons body (by decide)]
        rfl
      · simp [Text.charValue?, notBackslash]
    · rw [shape]
      have escaped : State.next ⟨.charOpen, 0⟩ '\\' = .absorb ⟨.charEscape, 0⟩ := by decide
      have body : State.next ⟨.charEscape, 0⟩ letter = .absorb ⟨.charBody, 0⟩ := rfl
      refine ⟨?_, ?_⟩
      · rw [State.run?_cons escaped (by decide), State.run?_cons body (by decide)]
        rfl
      · simp [Text.charValue?, denotes]
  have whole : State.initial.run? ('\'' :: (Text.escapeChar '\'' c ++ ['\''])) =
      some ⟨.charClosed, 0⟩ := by
    rw [State.run?_cons first (by decide), State.run?_append ran, State.run?_cons last (by decide)]
    rfl
  rw [shape]
  refine (Spells.ofRun whole emitted fun position => ?_).mono fun _ _ => rfl
  simp [Mark.Fits, Token.literal, value]

/-! Doc comments. -/

def isDocLine (line : List Char) : Bool :=
  !line.contains '\n' && line.getLast? ≠ some '\r'

theorem Scanner.State.run?_docComment {line : List Char} (oneLine : '\n' ∉ line) :
    State.run? ⟨.docComment, 0⟩ line = some ⟨.docComment, 0⟩ := by
  induction line with
  | nil => rfl
  | cons c rest ih =>
      simp only [List.mem_cons, not_or] at oneLine
      have absorbed : State.next ⟨.docComment, 0⟩ c = .absorb ⟨.docComment, 0⟩ := by
        simp [State.next, Ne.symm oneLine.1]
      rw [State.run?_cons absorbed (by decide)]
      exact ih oneLine.2

def docCommentText (line : String) : String :=
  "///" ++ if line = "" then "" else " " ++ line

theorem spells_doc {line : String} (good : isDocLine line.toList = true) :
    Spells (fun rest => ahead rest = '\n') (docCommentText line).toList [.doc line] := by
  obtain ⟨oneLine, last⟩ : '\n' ∉ line.toList ∧ line.toList.getLast? ≠ some '\r' := by
    simpa [isDocLine] using good
  have fits (position : Position) : Mark.Fits (.doc line) ⟨.docComment, line, position⟩ :=
    ⟨rfl, rfl⟩
  have slashes : State.initial.run? ['/', '/', '/'] = some ⟨.docSlashes, 0⟩ := by decide
  by_cases empty : line = ""
  · subst line
    have emitted : Mode.token? .docSlashes ['/', '/', '/'] = some (.docComment, "") := by decide
    refine (Spells.ofRun slashes emitted fits).mono ?_
    intro rest lineBreak
    rw [lineBreak]
    rfl
  · have shape : (docCommentText line).toList = ['/', '/', '/'] ++ ' ' :: line.toList := by
      simp [docCommentText, empty]
    have space : State.next ⟨.docSlashes, 0⟩ ' ' = .absorb ⟨.docComment, 0⟩ := by decide
    have ran : State.initial.run? (['/', '/', '/'] ++ ' ' :: line.toList) =
        some ⟨.docComment, 0⟩ := by
      rw [State.run?_append slashes, State.run?_cons space (by decide)]
      exact State.run?_docComment oneLine
    have kept : line.toList.reverse.dropWhile (· = '\r') = line.toList.reverse := by
      cases reversed : line.toList.reverse with
      | nil => rfl
      | cons c rest =>
          have lastIs : line.toList.getLast? = some c := by
            rw [← List.head?_reverse, reversed]
            rfl
          have notReturn : c ≠ '\r' := fun same => last (same ▸ lastIs)
          simp [notReturn]
    have emitted : Mode.token? .docComment (['/', '/', '/'] ++ ' ' :: line.toList) =
        some (.docComment, line) := by
      simp [Mode.token?, Scanner.docLine, kept]
    rw [shape]
    refine (Spells.ofRun ran emitted fits).mono ?_
    intro rest lineBreak
    rw [lineBreak]
    rfl

end GameScript
