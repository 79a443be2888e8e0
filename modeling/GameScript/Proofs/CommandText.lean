import GameScript.Proofs.Command
import GameScript.Proofs.ScriptText

/-!
The text of a prologue, line by line. Main statement: it is read as the commands that bind the
arguments.
-/

namespace GameScript

open Scanner (State Mode isWordChar ahead)

inductive Piece where
  | keyword (word : Keyword)
  | name (text : String)
  | numeral (value : Nat)
  | sign (symbol : Symbol)
  | space
deriving DecidableEq, Repr

def Symbol.standsAlone (sign : Symbol) : Bool :=
  sign.isClosed || sign = .leftBracket || sign = .rightBracket

namespace Piece

def text : Piece → List Char
  | keyword word => word.text.toList
  | name text => text.toList
  | numeral value => (toString value).toList
  | sign symbol => symbol.text.toList
  | space => [' ']

def row : Piece → List Token
  | keyword word => [⟨.keyword word, word.text, Position.first⟩]
  | name text => [⟨.ident, text, Position.first⟩]
  | numeral value => [⟨.decimal, value.repr, Position.first⟩]
  | sign symbol => [⟨.symbol symbol, "", Position.first⟩]
  | space => []

def Sound : Piece → Prop
  | name text => isName text = true
  | _ => True

def Fence : Piece → List Char → Prop
  | sign symbol, rest => State.next ⟨.symbol symbol, 0⟩ (ahead rest) = .complete
  | space, _ => True
  | _, rest => Delimited rest

def isClosed : Piece → Bool
  | sign symbol => symbol.standsAlone
  | space => true
  | _ => false

/-- Whether the second piece may come after the first one. -/
def mayMeet : Piece → Piece → Bool
  | _, space => true
  | sign _, _ => false
  | _, second => second.isClosed

def areParted : List Piece → Bool
  | [] => true
  | [last] => last.isClosed
  | first :: second :: rest =>
      (first.isClosed || first.mayMeet second) && areParted (second :: rest)

end Piece

theorem Symbol.next_of_standsAlone {sign : Symbol} (alone : sign.standsAlone = true) (c : Char) :
    State.next ⟨.symbol sign, 0⟩ c = .complete := by
  simp only [standsAlone, Bool.or_eq_true, decide_eq_true_eq] at alone
  obtain (closed | rfl) | rfl := alone
  · exact next_of_isClosed closed c
  · rfl
  · rfl

theorem Symbol.delimited_of_standsAlone {sign : Symbol} (alone : sign.standsAlone = true)
    (rest : List Char) : Delimited (sign.text.toList ++ rest) := by
  cases sign <;> first
    | exact Delimited.cons (by decide) (by decide)
    | simp [standsAlone, isClosed] at alone

theorem toString_digits (value : Nat) :
    (toString value).toList = Nat.toDigits 10 value ∧
      ∀ c ∈ Nat.toDigits 10 value, c.isDigit = true := by
  refine ⟨by rw [Nat.toString_eq_repr, Nat.toList_repr], fun c member => ?_⟩
  exact Nat.isDigit_of_mem_toDigits (by decide) (by decide) member

theorem scans_numeral (value : Nat) :
    Scans Delimited (toString value).toList fun tokens =>
      tokens.map Token.unplaced = [⟨.decimal, toString value, Position.first⟩] := by
  obtain ⟨shape, digits⟩ := toString_digits value
  rw [← shape] at digits
  have filled : (toString value).toList ≠ [] := by
    rw [shape]
    exact Nat.toDigits_ne_nil
  have literal : String.ofList (toString value).toList = toString value := String.ofList_toList
  obtain ⟨mode, numeral, ran⟩ : ∃ mode : Mode, (mode = .zero ∨ mode = .decimal ∨ mode = .fraction) ∧
      State.initial.run? (toString value).toList = some ⟨mode, 0⟩ := by
    rcases State.run?_whole filled digits with ran | ran
    · exact ⟨.zero, Or.inl rfl, ran⟩
    · exact ⟨.decimal, Or.inr (Or.inl rfl), ran⟩
  have emitted : mode.token? (toString value).toList = some (.decimal, toString value) := by
    rcases numeral with rfl | rfl | rfl <;> exact congrArg (fun lit => some (_, lit)) literal
  refine (Scans.ofRun ran emitted).mono (fun _ => State.next_delimited numeral) ?_
  rintro _ ⟨position, rfl⟩
  rfl

theorem scans_word {text : String} {kind : TokenKind} (word : isWord text.toList = true)
    (isKind : wordKind text = kind) :
    Scans Delimited text.toList fun tokens =>
      tokens.map Token.unplaced = [⟨kind, text, Position.first⟩] := by
  have emitted : Mode.token? .word text.toList = some (kind, text) := by
    simp [Mode.token?, isKind]
  refine (Scans.ofRun (State.run?_isWord word) emitted).mono ?_ ?_
  · intro rest delimited
    simp [State.next, delimited.1]
  · rintro _ ⟨position, rfl⟩
    rfl

namespace Piece

theorem scans {piece : Piece} (sound : piece.Sound) :
    Scans piece.Fence piece.text fun tokens => tokens.map Token.unplaced = piece.row := by
  cases piece with
  | keyword word => exact scans_word word.isWord_text word.wordKind_text
  | name text =>
      obtain ⟨word, kind⟩ : isWord text.toList = true ∧ wordKind text = .ident := by
        simpa [Sound, isName] using sound
      exact scans_word word kind
  | numeral value => exact scans_numeral value
  | sign symbol =>
      refine (Scans.ofRun symbol.run?_text rfl).mono (fun _ complete => complete) ?_
      rintro _ ⟨position, rfl⟩
      rfl
  | space =>
      have blank : Spells Always [' '] [] := spells_indent rfl
      refine blank.scans.mono (fun _ _ => trivial) fun tokens empty => ?_
      rw [Fit.nil_iff.mp empty]
      rfl

theorem fence_of_isClosed {piece : Piece} (closed : piece.isClosed = true) (rest : List Char) :
    piece.Fence rest := by
  cases piece with
  | sign symbol => exact Symbol.next_of_standsAlone closed _
  | space => trivial
  | keyword | name | numeral => simp [isClosed] at closed

theorem fence_of_mayMeet {first second : Piece} (meet : first.mayMeet second = true)
    (rest : List Char) : first.Fence (second.text ++ rest) := by
  have delimited (wordlike : ∀ symbol, first ≠ sign symbol) : Delimited (second.text ++ rest) := by
    cases second with
    | space => exact delimited_space rest
    | sign symbol =>
        refine Symbol.delimited_of_standsAlone ?_ rest
        cases first <;> simp_all [mayMeet, isClosed]
    | keyword | name | numeral => cases first <;> simp [mayMeet, isClosed] at meet
  cases first with
  | keyword | name | numeral => exact delimited (by simp)
  | sign symbol =>
      cases second with
      | space => exact Symbol.next_space symbol
      | _ => simp [mayMeet] at meet
  | space => trivial

theorem scans_all {pieces : List Piece} (sound : ∀ piece ∈ pieces, piece.Sound)
    (parted : areParted pieces = true) :
    Scans Always (pieces.flatMap text) fun tokens =>
      tokens.map Token.unplaced = pieces.flatMap row := by
  induction pieces with
  | nil =>
      refine (Scans.nil Always).mono (fun _ followed => followed) ?_
      rintro _ rfl
      rfl
  | cons first others ih =>
      have firstScans := scans (sound first (by simp))
      have meets : areParted others = true ∧
          ∀ rest, first.Fence (others.flatMap text ++ rest) := by
        cases others with
        | nil => exact ⟨rfl, fun rest => fence_of_isClosed parted rest⟩
        | cons second rest =>
            simp only [areParted, Bool.and_eq_true, Bool.or_eq_true] at parted
            refine ⟨parted.2, fun later => ?_⟩
            rw [List.flatMap_cons, List.append_assoc]
            rcases parted.1 with closed | meet
            · exact fence_of_isClosed closed _
            · exact fence_of_mayMeet meet _
      have othersScan := ih (fun piece member => sound piece (by simp [member])) meets.1
      rw [List.flatMap_cons, List.flatMap_cons]
      refine (firstScans.append othersScan fun rest _ => meets.2 rest).mono
        (fun _ followed => followed) ?_
      rintro _ ⟨front, back, frontRow, backRow, rfl⟩
      rw [List.map_append, frontRow, backRow]

end Piece

/-! Reading rows of tokens. -/

structure Command.FromRow (command : Command) (row : List Token) : Prop where
  starts : headKind row ≠ .finish ∧ headKind row ≠ .lineEnd
  reads : ∀ rest, Closed rest → Command.read? (row ++ rest) = some (command, rest)

structure Listing (commands : List Command) (row : List Token) : Prop where
  closed : Closed row
  reads : ∀ fuel, row.length ≤ fuel → Command.readAll? fuel row = some commands

namespace Listing

variable {commands : List Command} {rest : List Token}

theorem finish {last : Token} (closes : last.kind = .finish) : Listing [] [last] := by
  refine ⟨⟨[], last, rfl, closes⟩, fun fuel enough => ?_⟩
  obtain ⟨fuel, rfl⟩ : ∃ less, fuel = less + 1 := Nat.exists_eq_add_of_le' enough
  simp [Command.readAll?, closes]

theorem lineEnd {token : Token} (breaks : token.kind = .lineEnd) (listing : Listing commands rest) :
    Listing commands (token :: rest) := by
  refine ⟨listing.closed.append [token], fun fuel enough => ?_⟩
  obtain ⟨fuel, rfl⟩ : ∃ less, fuel = less + 1 := ⟨fuel - 1, by simp at enough; omega⟩
  rw [Command.readAll?, if_neg (by simp [breaks]), if_pos breaks]
  exact listing.reads fuel (Nat.le_of_succ_le_succ enough)

theorem command {command : Command} {row : List Token} (fromRow : command.FromRow row)
    (listing : Listing commands rest) : Listing (command :: commands) (row ++ rest) := by
  refine ⟨listing.closed.append row, fun fuel enough => ?_⟩
  have read := fromRow.reads rest listing.closed
  obtain ⟨notFinish, notBreak⟩ := fromRow.starts
  cases row with
  | nil => exact absurd rfl notFinish
  | cons token more =>
      rw [List.length_append, List.length_cons] at enough
      obtain ⟨fuel, rfl⟩ : ∃ less, fuel = less + 1 := ⟨fuel - 1, by omega⟩
      have readOn := listing.reads fuel (by omega)
      rw [List.cons_append] at read ⊢
      have first : token.kind ≠ .finish ∧ token.kind ≠ .lineEnd := ⟨notFinish, notBreak⟩
      simp [Command.readAll?, first, read, readOn]

end Listing

def Prepends (commands : List Command) (tokens : List Token) : Prop :=
  ∀ others rest, Listing others rest →
    Listing (commands ++ others) (tokens.map Token.unplaced ++ rest)

theorem scans_line {line : List Char} {command : Command}
    (scans : Scans Always line fun tokens => command.FromRow (tokens.map Token.unplaced)) :
    Scans LineStart (line ++ ['\n']) (Prepends [command]) := by
  refine (scans.append spells_lineEnd.scans fun _ _ => trivial).mono (fun _ start => start) ?_
  rintro _ ⟨front, back, fromRow, breaks, rfl⟩ others rest listing
  obtain ⟨token, nothing, isBreak, empty, rfl⟩ := Fit.cons_iff.mp breaks
  obtain rfl := Fit.nil_iff.mp empty
  have later : Listing others (token.unplaced :: rest) := listing.lineEnd isBreak
  simpa using later.command fromRow

theorem scans_pieces {pieces : List Piece} {command : Command}
    (sound : ∀ piece ∈ pieces, piece.Sound) (parted : Piece.areParted pieces = true)
    (fromRow : command.FromRow (pieces.flatMap Piece.row)) :
    Scans Always (pieces.flatMap Piece.text) fun tokens =>
      command.FromRow (tokens.map Token.unplaced) :=
  (Piece.scans_all sound parted).mono (fun _ followed => followed) fun _ row => row ▸ fromRow

/-! The commands of a prologue. -/

namespace Quantity

variable {token : Token} {rest : List Token}

@[simp] theorem atom?_numeral (value : Nat) (position : Position) :
    atom? ⟨.decimal, value.repr, position⟩ = some (.number value) := by
  obtain ⟨shape, digits⟩ := toString_digits value
  have all : (Nat.toDigits 10 value).all Char.isDigit = true := List.all_eq_true.mpr digits
  simp only [atom?, ← Nat.toString_eq_repr, shape, all, if_true, Nat.ofDigitChars_ten_toDigits]

@[simp] theorem atom?_count (position : Position) :
    atom? ⟨.ident, "argument_count", position⟩ = some .count := rfl

theorem atom?_named {name : String} (distinct : name ≠ "argument_count") (position : Position) :
    atom? ⟨.ident, name, position⟩ = some (.named name) := by
  simp [atom?, distinct]

theorem difference?_atom {quantity : Quantity} (atom : atom? token = some quantity)
    (ends : headKind rest ≠ .symbol .minus) :
    difference? (token :: rest) = some (quantity, rest) := by
  unfold difference?
  split
  next shape =>
    obtain ⟨rfl, rfl⟩ := List.cons.inj shape
    exact absurd rfl ends
  next shape =>
    obtain ⟨rfl, rfl⟩ := List.cons.inj shape
    simp [atom]
  next shape => simp at shape

theorem read?_eq_difference? (notCalled : headKind rest ≠ .symbol .leftParen) :
    read? (token :: rest) = difference? (token :: rest) := by
  unfold read?
  split
  next shape =>
    obtain ⟨rfl, rfl⟩ := List.cons.inj shape
    exact absurd rfl notCalled
  next => rfl

end Quantity

theorem Operand.actual?_atom {token : Token} {index : Quantity}
    (atom : Quantity.atom? token = some index) (rest : List Token) (first second third : String)
    (here there after : Position) :
    actual? (⟨.keyword .argument_, first, here⟩ :: ⟨.symbol .leftBracket, second, there⟩ :: token ::
      ⟨.symbol .rightBracket, third, after⟩ :: rest) = some (.actual index, rest) := by
  rw [actual?, Quantity.read?_eq_difference? (by simp [headKind]),
    Quantity.difference?_atom atom (by simp [headKind])]
  simp [upTo]

theorem Operand.actual?_eq_none {tokens : List Token}
    (other : headKind tokens ≠ .keyword .argument_) : actual? tokens = none := by
  unfold actual?
  split
  next => exact absurd rfl other
  next => rfl

theorem Operand.value?_of_fit {x : Expr} {used rest : List Token} {semicolon : Token}
    (printable : x.Printable) (fit : Fit (x.denoted .plain).marks used)
    (ends : semicolon.kind = .symbol .semicolon) (closed : Closed rest) :
    actual? (used ++ semicolon :: rest) = none ∧
      value? (used ++ semicolon :: rest) =
        some (.value (x.denoted .plain), semicolon :: rest) := by
  have fenced : Fenced Precedence.pipe (semicolon :: rest) := .ofKind _ ends rfl (by simp)
  have reads := (printable.canonical .plain).readsBack used (semicolon :: rest) fit fenced
  have wholeClosed : Closed (used ++ semicolon :: rest) := (closed.append [semicolon]).append used
  constructor
  · refine actual?_eq_none fun isArgument => ?_
    have starts := reads.startsLeaf
    rw [isArgument] at starts
    simp [TokenKind.startsLeaf] at starts
  · have cursor := Cursor.ofTokens_closed wholeClosed
    have gives : Gives Parser.expression (Cursor.ofTokens (used ++ semicolon :: rest))
        (x.denoted .plain) (semicolon :: rest) := by
      rw [cursor]
      exact (Parser.expression_gives_iff wholeClosed).mpr reads
    obtain ⟨after, ran, left⟩ := gives
    rw [value?, ran, ← left]

theorem lineStart_keyword (word : Keyword) (rest : List Char) :
    LineStart (word.text.toList ++ rest) := by
  have start := (startsApart_keyword word rest).solid.lined.lineStart []
  rwa [List.append_nil] at start

theorem Fit.unplaced {marks : List Mark} {tokens : List Token} (fit : Fit marks tokens) :
    Fit marks (tokens.map Token.unplaced) := by
  induction fit with
  | nil => exact Fit.nil
  | @cons mark token _ _ fits _ ih =>
      refine Fit.cons ?_ ih
      cases mark <;> exact fits

namespace PrologueCommand

def command : PrologueCommand → Command
  | take name index => .simple (.declareAs name (.actual (.number index)))
  | declare name => .simple (.declare name)
  | takeOr name index value =>
      .branch (.greater .count (.number index)) (.assign name (.actual (.number index)))
        (.assign name (.value ((value.getD (.literal .undefined)).denoted .plain)))
  | allocate name first =>
      .simple (.declareAs name (.fresh (.max (.number 0) (.minus .count (.number first)))))
  | copyRest name counter first =>
      .loop counter (.number first) (.less (.named counter) .count)
        (.store name (.minus (.named counter) (.number first)) (.actual (.named counter)))

def pieces : PrologueCommand → List Piece
  | take name index =>
      [.keyword .var_, .space, .name name, .space, .sign .assign, .space, .keyword .argument_,
       .sign .leftBracket, .numeral index, .sign .rightBracket, .sign .semicolon]
  | declare name => [.keyword .var_, .space, .name name, .sign .semicolon]
  | takeOr name index _ =>
      [.keyword .if_, .space, .sign .leftParen, .name "argument_count", .space, .sign .greater,
       .space, .numeral index, .sign .rightParen, .space, .name name, .space, .sign .assign, .space,
       .keyword .argument_, .sign .leftBracket, .numeral index, .sign .rightBracket,
       .sign .semicolon]
  | allocate name first =>
      [.keyword .var_, .space, .name name, .space, .sign .assign, .space, .name "array_create",
       .sign .leftParen, .name "max", .sign .leftParen, .numeral 0, .sign .comma, .space,
       .name "argument_count", .space, .sign .minus, .space, .numeral first, .sign .rightParen,
       .sign .rightParen, .sign .semicolon]
  | copyRest name counter first =>
      [.keyword .for_, .space, .sign .leftParen, .keyword .var_, .space, .name counter, .space,
       .sign .assign, .space, .numeral first, .sign .semicolon, .space, .name counter, .space,
       .sign .less, .space, .name "argument_count", .sign .semicolon, .space, .name counter,
       .sign .increment, .sign .rightParen, .space, .name name, .sign .leftBracket, .name counter,
       .space, .sign .minus, .space, .numeral first, .sign .rightBracket, .space, .sign .assign,
       .space, .keyword .argument_, .sign .leftBracket, .name counter, .sign .rightBracket,
       .sign .semicolon]

def otherwisePieces (name : String) : List Piece :=
  [.keyword .else_, .space, .name name, .space, .sign .assign, .space]

def Sound : PrologueCommand → Prop
  | take name _ | declare name | allocate name _ => isName name = true
  | takeOr name _ value => isName name = true ∧ ∀ x ∈ value, x.Printable
  | copyRest name counter _ =>
      isName name = true ∧ isName counter = true ∧ counter ≠ "argument_count"

theorem areParted_pieces (command : PrologueCommand) : Piece.areParted command.pieces = true := by
  cases command <;> rfl

theorem Sound.pieces {command : PrologueCommand} (sound : command.Sound) :
    ∀ piece ∈ command.pieces, piece.Sound := by
  have known : isName "argument_count" = true ∧ isName "array_create" = true ∧
      isName "max" = true := by decide
  cases command with
  | take | declare | allocate =>
      have named : isName _ = true := sound
      simp [PrologueCommand.pieces, Piece.Sound, known, named]
  | takeOr | copyRest => simp [PrologueCommand.pieces, Piece.Sound, known, sound.1, sound.2]

theorem fromRow_take (name : String) (index : Nat) :
    (take name index).command.FromRow ((take name index).pieces.flatMap Piece.row) := by
  have actual := Operand.actual?_atom (Quantity.atom?_numeral index Position.first)
  refine ⟨by simp [pieces, Piece.row, headKind], fun rest _ => ?_⟩
  simp [pieces, Piece.row, Command.read?, SimpleCommand.read?, actual, upTo, command]

theorem fromRow_declare (name : String) :
    (declare name).command.FromRow ((declare name).pieces.flatMap Piece.row) := by
  refine ⟨by simp [pieces, Piece.row, headKind], fun rest _ => ?_⟩
  simp [pieces, Piece.row, Command.read?, SimpleCommand.read?, command]

theorem fromRow_allocate (name : String) (first : Nat) :
    (allocate name first).command.FromRow ((allocate name first).pieces.flatMap Piece.row) := by
  refine ⟨by simp [pieces, Piece.row, headKind], fun rest _ => ?_⟩
  simp [pieces, Piece.row, Command.read?, SimpleCommand.read?, Operand.actual?, Operand.fresh?,
    Quantity.read?, Quantity.difference?, upTo, command]

theorem fromRow_copyRest (name : String) {counter : String} (first : Nat)
    (distinct : counter ≠ "argument_count") :
    (copyRest name counter first).command.FromRow
      ((copyRest name counter first).pieces.flatMap Piece.row) := by
  have atom := Quantity.atom?_named distinct Position.first
  refine ⟨by simp [pieces, Piece.row, headKind], fun rest _ => ?_⟩
  simp [pieces, Piece.row, Command.read?, Command.step?, Test.read?, SimpleCommand.read?,
    Operand.actual?_atom atom, Quantity.read?, Quantity.difference?, atom, upTo, command]

theorem fromRow_takeOr {name : String} {index : Nat} {value : Option Expr} {lineEnd : Token}
    {used : List Token} (printable : (value.getD (.literal .undefined)).Printable)
    (breaks : lineEnd.kind = .lineEnd)
    (fit : Fit ((value.getD (.literal .undefined)).denoted .plain).marks used) :
    (takeOr name index value).command.FromRow ((takeOr name index value).pieces.flatMap Piece.row ++
      lineEnd :: ((otherwisePieces name).flatMap Piece.row ++
        (used ++ (Piece.sign .semicolon).row))) := by
  have actual := Operand.actual?_atom (Quantity.atom?_numeral index Position.first)
  refine ⟨by simp [pieces, Piece.row, headKind], fun rest closed => ?_⟩
  have ends : (⟨.symbol .semicolon, "", Position.first⟩ : Token).kind = .symbol .semicolon := rfl
  obtain ⟨notActual, reads⟩ := Operand.value?_of_fit printable fit ends closed
  simp [pieces, otherwisePieces, Piece.row, Command.read?, Command.otherwise?, Test.read?,
    SimpleCommand.read?, actual, breaks, notActual, reads, upTo, command]

theorem toList_firstLine (command : PrologueCommand) :
    ((command.lines .plain).headD "").toList = command.pieces.flatMap Piece.text := by
  cases command <;> simp [lines, pieces, Piece.text, Keyword.text, Symbol.text]

def otherwiseLine (name : String) (value : Option Expr) : String :=
  "else " ++ name ++ " = " ++ (value.getD (.literal .undefined)).text .plain ++ ";"

theorem toList_otherwiseLine (name : String) (value : Option Expr) :
    (otherwiseLine name value).toList = (otherwisePieces name).flatMap Piece.text ++
      (((value.getD (.literal .undefined)).text .plain).toList ++
        (Piece.sign .semicolon).text) := by
  simp [otherwiseLine, otherwisePieces, Piece.text, Keyword.text, Symbol.text]

theorem Sound.scans_takeOr {name : String} {index : Nat} {value : Option Expr}
    (sound : (takeOr name index value).Sound) :
    Scans Always ((takeOr name index value).pieces.flatMap Piece.text ++
        (['\n'] ++ ((otherwisePieces name).flatMap Piece.text ++
          (((value.getD (.literal .undefined)).text .plain).toList ++
            (Piece.sign .semicolon).text))))
      fun tokens => (takeOr name index value).command.FromRow (tokens.map Token.unplaced) := by
  have printable : (value.getD (.literal .undefined)).Printable := by
    cases value with
    | none => exact .literal trivial
    | some x => exact sound.2 x rfl
  have otherwiseSound : ∀ piece ∈ otherwisePieces name, piece.Sound := by
    simp [otherwisePieces, Piece.Sound, sound.1]
  have first := Piece.scans_all sound.pieces (areParted_pieces _)
  have second := Piece.scans_all otherwiseSound rfl
  have last : Scans _ (Piece.sign .semicolon).text _ := Piece.scans trivial
  have valued := (printable.spells_text .plain).scans.append last fun rest _ =>
    Delimited.cons (by decide) (by decide)
  -- A line break takes in the blanks after it, so the second line has to start with a word.
  have otherwise := second.append valued fun _ _ => trivial
  have lines := spells_lineEnd.scans.append otherwise fun rest _ => by
    simp only [otherwisePieces, List.flatMap_cons, List.append_assoc]
    exact lineStart_keyword .else_ _
  have whole := first.append lines fun _ _ => trivial
  refine whole.mono (fun rest _ => ?_) ?_
  · exact Symbol.next_of_standsAlone rfl _
  rintro _ ⟨front, _, frontRow, ⟨_, _, breaks, otherwiseGood, rfl⟩, rfl⟩
  obtain ⟨back, _, backRow, ⟨used, _, fit, lastRow, rfl⟩, rfl⟩ := otherwiseGood
  obtain ⟨lineEnd, nothing, isBreak, empty, rfl⟩ := Fit.cons_iff.mp breaks
  obtain rfl := Fit.nil_iff.mp empty
  have fromRow := @fromRow_takeOr name index value lineEnd.unplaced _ printable isBreak fit.unplaced
  simpa [frontRow, backRow, lastRow] using fromRow

theorem Sound.scans {command : PrologueCommand} (sound : command.Sound) :
    Scans LineStart ((command.lines .plain).flatMap fun line => (line ++ "\n").toList)
      (Prepends [command.command]) := by
  have oneLine (alone : (command.lines .plain).tail = [])
      (fromRow : command.command.FromRow (command.pieces.flatMap Piece.row)) :
      Scans LineStart ((command.lines .plain).flatMap fun line => (line ++ "\n").toList)
        (Prepends [command.command]) := by
    have line := scans_line (scans_pieces sound.pieces command.areParted_pieces fromRow)
    have shape : (command.lines .plain).flatMap (fun line => (line ++ "\n").toList) =
        command.pieces.flatMap Piece.text ++ ['\n'] := by
      rw [← toList_firstLine]
      cases command <;> simp [lines] at alone ⊢
    rwa [shape]
  cases command with
  | take name index => exact oneLine rfl (fromRow_take name index)
  | declare name => exact oneLine rfl (fromRow_declare name)
  | allocate name first => exact oneLine rfl (fromRow_allocate name first)
  | copyRest name counter first => exact oneLine rfl (fromRow_copyRest name first sound.2.2)
  | takeOr name index value =>
      have line := scans_line sound.scans_takeOr
      rw [← toList_firstLine, ← toList_otherwiseLine] at line
      have shape : (takeOr name index value).lines .plain =
          [((takeOr name index value).lines .plain).headD "", otherwiseLine name value] := by
        cases value <;> rfl
      have lineBreak : "\n".toList = ['\n'] := rfl
      rw [shape]
      simpa only [List.flatMap_cons, List.flatMap_nil, List.append_nil, String.toList_append,
        List.append_assoc, List.headD_cons, lineBreak] using line

theorem lineStart_lines (command : PrologueCommand) (rest : List Char) :
    LineStart ((command.lines .plain).flatMap (fun line => (line ++ "\n").toList) ++ rest) := by
  have first := command.toList_firstLine
  obtain ⟨line, others, shape⟩ : ∃ line others, command.lines .plain = line :: others := by
    cases command <;> exact ⟨_, _, rfl⟩
  obtain ⟨word, more, starts⟩ : ∃ word more, command.pieces = .keyword word :: more := by
    cases command <;> exact ⟨_, _, rfl⟩
  rw [shape, starts, List.headD_cons, List.flatMap_cons] at first
  rw [shape, List.flatMap_cons, String.toList_append, first]
  simp only [List.append_assoc]
  exact lineStart_keyword word _

theorem scans_prologue {commands : List PrologueCommand}
    (sound : ∀ command ∈ commands, command.Sound) :
    Scans LineStart
      (commands.flatMap fun command =>
        (command.lines .plain).flatMap fun line => (line ++ "\n").toList)
      (Prepends (commands.map command)) := by
  induction commands with
  | nil =>
      refine (Scans.nil LineStart).mono (fun _ start => start) ?_
      rintro _ rfl others rest listing
      exact listing
  | cons first later ih =>
      have laterScans := ih fun command member => sound command (by simp [member])
      have firstScans := (sound first (by simp)).scans
      refine (firstScans.append laterScans fun rest start => ?_).mono (fun _ start => start) ?_
      · cases later with
        | nil => exact start
        | cons second more =>
            rw [List.flatMap_cons, List.append_assoc]
            exact second.lineStart_lines _
      · rintro _ ⟨front, back, frontReads, backReads, rfl⟩ others rest listing
        simpa using frontReads _ _ (backReads others rest listing)

end PrologueCommand

/-! Counters. -/

theorem wordKind_of_underscore {text : String} (starts : text.toList.head? = some '_') :
    wordKind text = .ident := by
  have apart (word : String) (other : word.toList.head? ≠ some '_') : text ≠ word := by
    rintro rfl
    exact other starts
  have noKeyword : Keyword.ofText? text = none := by
    refine List.find?_eq_none.mpr fun word _ => ?_
    have other : word.text.toList.head? ≠ some '_' := by cases word <;> decide
    simpa using (apart _ other).symm
  have notReserved : text ∉ reservedWords := by
    intro member
    have none : reservedWords.all (fun word => word.toList.head? ≠ some '_') = true := by
      decide +kernel
    exact absurd starts (by simpa using List.all_eq_true.mp none text member)
  simp [wordKind, noKeyword, notReserved, apart "true" (by decide), apart "false" (by decide),
    apart "undefined" (by decide)]

theorem all_isWordChar_of_isWord {text : List Char} (word : isWord text = true) :
    text.all isWordChar = true := by
  cases text with
  | nil => rfl
  | cons c rest =>
      simp only [isWord, Bool.and_eq_true, Bool.or_eq_true, decide_eq_true_eq] at word
      rw [List.all_cons, word.2, Bool.and_true]
      rcases word.1 with letter | ⟨rfl, _⟩
      · simp [isWordChar, Scanner.isAlnum, letter]
      · rfl

namespace Argument

theorem toList_counter (argument : Argument) :
    argument.counter.toList = '_' :: (argument.name.toList ++ ['_', 'i']) := by
  simp [counter]

theorem counter_ne_argumentCount (argument : Argument) : argument.counter ≠ "argument_count" := by
  intro same
  have chars := congrArg String.toList same
  rw [toList_counter] at chars
  simp at chars

theorem isName_counter {argument : Argument} (named : isName argument.name = true) :
    isName argument.counter = true := by
  obtain ⟨word, _⟩ : isWord argument.name.toList = true ∧ wordKind argument.name = .ident := by
    simpa [isName] using named
  have ends : ['_', 'i'].all isWordChar = true := by decide
  have all : (argument.name.toList ++ ['_', 'i']).all isWordChar = true := by
    rw [List.all_append, all_isWordChar_of_isWord word, ends]
    rfl
  rw [isName, wordKind_of_underscore (by rw [toList_counter]; rfl), toList_counter, isWord, all]
  simp

theorem WellFormed.sound_prologue {argument : Argument}
    (wellFormed : argument.WellFormed Expr.Printable) (index : Nat) :
    ∀ command ∈ argument.prologue index, command.Sound := by
  cases wellFormed with
  | required named => simpa [prologue, PrologueCommand.Sound] using named
  | optional named => simpa [prologue, PrologueCommand.Sound] using named
  | defaulted named printable => simp [prologue, PrologueCommand.Sound, named, printable]
  | @variadic name named =>
      have counted : isName (counter ⟨name, .variadic⟩) = true := isName_counter named
      simp [prologue, PrologueCommand.Sound, named, counted, counter_ne_argumentCount]

end Argument

namespace Script

def prologueText (args : List Argument) : String :=
  String.join ((argumentLines .plain args).map (· ++ "\n"))

theorem sound_prologueFrom {args : List Argument}
    (good : ∀ argument ∈ args, argument.WellFormed Expr.Printable) (index : Nat) :
    ∀ command ∈ prologueFrom index args, command.Sound := by
  induction args generalizing index with
  | nil => simp [prologueFrom]
  | cons first others ih =>
      intro command member
      rcases List.mem_append.mp member with here | there
      · exact (good first (by simp)).sound_prologue index command here
      · exact ih (fun argument member => good argument (by simp [member])) (index + 1) command there

/-- The text of a prologue is read as the commands that it stands for. -/
theorem ofText?_prologueText {args : List Argument}
    (good : ∀ argument ∈ args, argument.WellFormed Expr.Printable) :
    Command.ofText? (prologueText args) =
      some ((prologueFrom 0 args).map PrologueCommand.command) := by
  have chars : (prologueText args).toList = (prologueFrom 0 args).flatMap fun command =>
      (command.lines .plain).flatMap fun line => (line ++ "\n").toList := by
    simp [prologueText, argumentLines, List.flatMap_map, List.flatMap_assoc]
  have scans := PrologueCommand.scans_prologue (sound_prologueFrom good 0)
  rw [← chars] at scans
  obtain ⟨tokens, last, scanned, prepends, closes⟩ := scans.tokenize lineStart_nil
  have finish : Listing [] [last.unplaced] := .finish closes
  have listing := prepends [] _ finish
  rw [Command.ofText?, scanned]
  simpa using listing.reads _ (by simp)

end Script

end GameScript
