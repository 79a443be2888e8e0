import GameScript.Proofs.Outcome
import GameScript.Proofs.Running
import GameScript.Proofs.Segment
import GameScript.Text.Utf8

/-!
Parsing is safe. Three of its steps would have no answer outside a range: cutting the kept text out
of a token, reading a token by its index, and looking an operator up in two tables. Each is written
here with its check, and the check never fails. Every failure is told with a cause of the right
stage and at a place of the text.
-/

namespace GameScript

open Scanner (State Mode)

def slice? (text : List Char) (start stop : Nat) : Option (List Char) :=
  if start ≤ stop ∧ stop ≤ text.length then some ((text.take stop).drop start) else none

namespace Scanner

def trimLine (line : List Char) : List Char :=
  let line := if line.head? = some ' ' then line.tail else line
  (line.reverse.dropWhile (· = '\r')).reverse

/-- The token that ends in a mode, with its text cut out by indices; `none` if one of them is out of
range. -/
def Mode.cut? (mode : Mode) (text : List Char) : Option (Option (TokenKind × String)) :=
  let cut (kind : TokenKind) (start stop : Nat) : Option (Option (TokenKind × String)) :=
    (slice? text start stop).map fun part => some (kind, String.ofList part)
  match mode with
  | .hex => cut .hex 2 text.length
  | .binary => cut .binary 2 text.length
  | .stringClosed => cut .string 1 (text.length - 1)
  | .charClosed => cut .char 1 (text.length - 1)
  | .docSlashes | .docComment =>
      (slice? text 3 text.length).map fun line =>
        some (.docComment, String.ofList (trimLine line))
  | _ => some (mode.token? text)

theorem State.cut?_eq {state : State} {text : List Char} (holds : state.mode.Holds text)
    (delimits : state.Delimits text) : state.mode.cut? text = some (state.mode.token? text) := by
  obtain ⟨mode, depth⟩ := state
  cases mode with
  | hex | binary =>
      obtain ⟨digits, rfl⟩ := delimits
      simp [Mode.cut?, Mode.token?, slice?]
  | stringClosed =>
      obtain ⟨body, rfl, _⟩ := holds
      simp [Mode.cut?, Mode.token?, slice?, inner_delimited]
  | charClosed =>
      obtain ⟨body, rfl⟩ := delimits
      simp [Mode.cut?, Mode.token?, slice?, inner_delimited]
  | docSlashes =>
      rw [show text = ['/', '/', '/'] from holds]
      rfl
  | docComment =>
      obtain ⟨line, rfl, _⟩ := holds
      simp [Mode.cut?, Mode.token?, slice?, docLine, trimLine]
  | _ => rfl

def Reaches (text : List Char) (scanner : Scanner) : Prop :=
  ∃ before later tokens, text = before ++ later ∧ initial.feedAll before = .ok (tokens, scanner)

theorem Reaches.cut? {text : List Char} {scanner : Scanner} (reaches : Reaches text scanner) :
    scanner.state.mode.cut? scanner.pending.toList =
      some (scanner.state.mode.token? scanner.pending.toList) := by
  obtain ⟨before, later, tokens, rfl, fed⟩ := reaches
  have follows := initial_follows.feedAll fed
  exact State.cut?_eq follows.sound follows.delimits

end Scanner

/-- The token at an index, read there in the list; `none` if that is out of range. What is before the
first token goes to it, and what is past the end goes to the last one. -/
def Cursor.read? (cursor : Cursor) (target : Int) : Option Token :=
  let index := target.toNat
  if cursor.tokens.length ≤ index then cursor.tokens[cursor.tokens.length - 1]?
  else cursor.tokens[index]?

theorem Cursor.read?_tokenAt (cursor : Cursor) (offset : Int64) :
    cursor.read? (Int64.ofNat cursor.index + offset).toInt = some (cursor.tokenAt offset) := by
  simp only [read?, tokenAt, List.getD_eq_getElem?_getD]
  split
  next isPast =>
    rw [List.getElem?_eq_none isPast, Option.getD_none, ← List.getLast?_eq_getElem?,
      List.getLast?_eq_some_getLast cursor.tokens_ne_nil]
  next isWithin =>
    rw [List.getElem?_eq_getElem (Nat.lt_of_not_le isWithin), Option.getD_some]

theorem Cursor.read?_peek (cursor : Cursor) : cursor.read? cursor.index = some cursor.peek := by
  obtain ⟨passed, rest, inhabited⟩ := cursor
  cases rest with
  | nil =>
      cases passed with
      | nil => simp at inhabited
      | cons token passed => simp [read?, peek, tokens, index]
  | cons token rest =>
      have within : ¬ passed.length + (rest.length + 1) ≤ passed.length := by omega
      simp [read?, peek, tokens, index, within]

theorem Cursor.read?_second (cursor : Cursor) :
    cursor.read? (cursor.index + 1) = some cursor.second := by
  rw [second, ← read?_peek]
  obtain ⟨passed, rest, inhabited⟩ := cursor
  cases rest with
  | nil =>
      have next : ((passed.length : Int) + 1).toNat = passed.length + 1 := by omega
      simp [read?, advance, tokens, index, next]
  | cons token rest => simp [read?, advance, tokens, index]

def joiningLevels : List (TokenKind × Nat) :=
  [(.symbol .pipe, 1), (.symbol .question, 2), (.symbol .logicOr, 3), (.symbol .logicAnd, 4),
   (.symbol .equal, 5), (.symbol .notEqual, 5), (.symbol .less, 5), (.symbol .lessEqual, 5),
   (.symbol .greater, 5), (.symbol .greaterEqual, 5), (.symbol .bitOr, 6), (.symbol .bitXor, 7),
   (.symbol .bitAnd, 8), (.symbol .shiftLeft, 9), (.symbol .shiftRight, 9), (.keyword .div_, 10),
   (.keyword .mod_, 10), (.symbol .plus, 11), (.symbol .minus, 11), (.symbol .star, 12),
   (.symbol .slash, 12), (.symbol .percent, 12), (.symbol .power, 13)]

def binaryMeanings : List (TokenKind × BinaryOp) :=
  [(.symbol .logicOr, .or), (.symbol .logicAnd, .and), (.symbol .equal, .equal),
   (.symbol .notEqual, .notEqual), (.symbol .less, .less), (.symbol .lessEqual, .lessEqual),
   (.symbol .greater, .greater), (.symbol .greaterEqual, .greaterEqual), (.symbol .bitOr, .bitOr),
   (.symbol .bitXor, .bitXor), (.symbol .bitAnd, .bitAnd), (.symbol .shiftLeft, .shiftLeft),
   (.symbol .shiftRight, .shiftRight), (.keyword .div_, .intDiv), (.keyword .mod_, .intMod),
   (.symbol .plus, .plus), (.symbol .minus, .minus), (.symbol .star, .times),
   (.symbol .slash, .divide), (.symbol .percent, .percent), (.symbol .power, .power)]

/-- The operator of a token and its strength, looked up in the two tables; `none` if a token of the
first is missing in the second. -/
def TokenKind.joining? (kind : TokenKind) : Option (Option (Operator × Nat)) :=
  match joiningLevels.lookup kind with
  | none => some none
  | some level =>
      match kind with
      | .symbol .pipe => some (some (.pipe, level))
      | .symbol .question => some (some (.ternary, level))
      | _ => do
          let op ← binaryMeanings.lookup kind
          some (some (.binary op, level))

theorem TokenKind.joining?_eq (kind : TokenKind) :
    kind.joining? = some (kind.operator?.map fun operator => (operator, operator.precedence)) := by
  cases kind with
  | symbol sign => cases sign <;> rfl
  | keyword word => cases word <;> rfl
  | _ => rfl

/-! The places of tokens and faults. -/

theorem Segment.Row.located {before : List Char} {segments : List Segment} {segment : Segment}
    {token : Token} (row : Row before segments) (member : segment ∈ segments)
    (emitted : segment.token? = some token) :
    token.position.In (before ++ segments.flatMap text) := by
  induction segments generalizing before with
  | nil => simp at member
  | cons first segments ih =>
      obtain ⟨valid, later⟩ := row
      rcases List.mem_cons.mp member with rfl | inLater
      · cases segment with
        | token text found =>
            cases emitted
            exact ⟨before, _, rfl, valid.1⟩
        | blanks | comment => simp [token?] at emitted
      · simpa using ih later inLater

theorem located_tokenize {chars : List Char} {tokens : List Token}
    (scanned : tokenize chars = .ok tokens) :
    ∀ token ∈ tokens, token.position.In (dropMark chars) := by
  obtain ⟨others, rfl, found⟩ := tokenize_ok scanned
  obtain ⟨segments, whole, rfl, row⟩ :=
    Scanner.initial_follows.segments Scanner.initial_fresh found
  intro token member
  simp only [List.mem_cons, List.mem_append, List.mem_filterMap, List.not_mem_nil,
    or_false] at member
  rcases member with rfl | ⟨segment, inRow, emitted⟩ | rfl
  · exact ⟨[], _, rfl, by decide⟩
  · have located := row.located inRow emitted
    rwa [whole] at located
  · exact ⟨dropMark chars, [], by simp, rfl⟩

theorem misread_tokenize {chars : List Char} {reason : SourceError}
    (failed : tokenize chars = .error reason) : Scanner.Misread (dropMark chars) reason := by
  unfold tokenize at failed
  cases fed : Scanner.initial.feedAll (dropMark chars) with
  | error fault =>
      simp only [fed, bind, Except.bind] at failed
      cases failed
      exact Scanner.initial_follows.misread_feedAll fed
  | ok result =>
      obtain ⟨tokens, last⟩ := result
      simp only [fed, bind, Except.bind] at failed
      cases ended : last.finish with
      | error fault =>
          rw [ended] at failed
          cases failed
          exact (Scanner.initial_follows.feedAll fed).misread_finish ended
      | ok closing =>
          rw [ended] at failed
          simp [pure, Except.pure] at failed

theorem faultIn_parseTokens {chars : List Char} {tokens : List Token} {reason : SourceError}
    (scanned : tokenize chars = .ok tokens) (failed : (parseTokens tokens).2 = .error reason) :
    FaultIn tokens reason := by
  obtain ⟨_, middle, last, shape, isFinish⟩ := wellSpelled_tokenize scanned
  have closed : Closed tokens := ⟨Token.first :: middle, last, shape, isFinish⟩
  have onTokens : (Cursor.ofTokens tokens).tokens = tokens := by
    rw [Cursor.ofTokens_closed closed]
    rfl
  have ended := NotingParser.script_keeps (Cursor.ofTokens tokens) onTokens
  unfold parseTokens at failed
  split at failed
  · simp at failed
  · next notes fault after ran =>
      cases failed
      rw [ran] at ended
      exact ended.2

/-- The fault of a text: its cause is lexical exactly if the text has no tokens and a syntactic one
of the table otherwise, and it is at a place of the text. -/
def SourceError.Explains (reason : SourceError) (chars : List Char) : Prop :=
  (reason.kind.isLexical = true ↔ ∃ fault, tokenize chars = .error fault) ∧
    (reason.kind.isLexical = true ∨ reason.kind.isSyntactic = true) ∧
    reason.position.In (dropMark chars)

theorem explains_tokenize {chars : List Char} {reason : SourceError}
    (failed : tokenize chars = .error reason) : reason.Explains chars := by
  obtain ⟨lexical, located⟩ := misread_tokenize failed
  exact ⟨iff_of_true lexical ⟨reason, failed⟩, Or.inl lexical, located⟩

theorem explains_parseTokens {chars : List Char} {tokens : List Token} {reason : SourceError}
    (scanned : tokenize chars = .ok tokens) (failed : (parseTokens tokens).2 = .error reason) :
    reason.Explains chars := by
  obtain ⟨token, member, kind, syntactic, rfl⟩ := faultIn_parseTokens scanned failed
  refine ⟨iff_of_false ?_ ?_, Or.inr syntactic, located_tokenize scanned token member⟩
  · have notLexical : ErrorKind.listed.contains kind = true ∧ kind.isLexical = false := by
      simpa [ErrorKind.isSyntactic] using syntactic
    simp [Token.fault, notLexical.2]
  · simp [scanned]

theorem Source.parse_eq_error {source : Source} {fault : SourceError}
    (readable : source.failure = none) (failed : tokenize source.chars = .error fault) :
    source.parse.2 = .error (.malformed fault) := by
  simp only [Source.parse, Source.tokens, readable, failed]

theorem Source.parse_outcome {source : Source} (readable : source.failure = none) :
    (∃ tokens script, tokenize source.chars = .ok tokens ∧ source.parse.2 = .ok script) ∨
      ∃ reason, source.parse.2 = .error (.malformed reason) ∧ reason.Explains source.chars := by
  cases scanned : tokenize source.chars with
  | error reason =>
      exact Or.inr ⟨reason, parse_eq_error readable scanned, explains_tokenize scanned⟩
  | ok tokens =>
      have ran : source.parse.2 = (parseTokens tokens).2.mapError .malformed := by
        simp only [Source.parse, Source.tokens, readable, scanned]
        rcases parseTokens tokens with ⟨notes, _ | _⟩ <;> rfl
      cases parsed : (parseTokens tokens).2 with
      | ok script => exact Or.inl ⟨tokens, script, rfl, by rw [ran, parsed]; rfl⟩
      | error reason =>
          exact Or.inr ⟨reason, by rw [ran, parsed]; rfl, explains_parseTokens scanned parsed⟩

/-- Parsing is safe, whatever the bytes: tokens are cut out within their text, read within the list
and found in both tables, and there is a script of a text that has tokens, or a fault that is told
with its stage and place. -/
theorem parse_safe (bytes : List UInt8) :
    let source : Source := { chars := Text.decodeUtf8 bytes }
    (∀ scanner, Scanner.Reaches (dropMark source.chars) scanner →
      scanner.state.mode.cut? scanner.pending.toList =
        some (scanner.state.mode.token? scanner.pending.toList)) ∧
    (∀ cursor : Cursor,
      (∀ offset : Int64,
        cursor.read? (Int64.ofNat cursor.index + offset).toInt = some (cursor.tokenAt offset)) ∧
      cursor.read? cursor.index = some cursor.peek ∧
      cursor.read? (cursor.index + 1) = some cursor.second) ∧
    (∀ kind : TokenKind, kind.joining? =
      some (kind.operator?.map fun operator => (operator, operator.precedence))) ∧
    (∀ fault, tokenize source.chars = .error fault →
      source.parse.2 = .error (.malformed fault)) ∧
    ((∃ tokens script, tokenize source.chars = .ok tokens ∧ source.parse.2 = .ok script) ∨
      ∃ reason, source.parse.2 = .error (.malformed reason) ∧ reason.Explains source.chars) := by
  intro source
  refine ⟨?_, ?_, TokenKind.joining?_eq, fun _ => Source.parse_eq_error rfl,
    Source.parse_outcome rfl⟩
  · intro scanner reaches
    exact reaches.cut?
  · intro cursor
    exact ⟨cursor.read?_tokenAt, cursor.read?_peek, cursor.read?_second⟩

end GameScript
