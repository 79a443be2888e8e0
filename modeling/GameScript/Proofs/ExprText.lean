import GameScript.Proofs.Denotation

/-! The text of an expression spells the tokens of the expression that it denotes. -/

namespace GameScript

open Scanner (State Mode isWordChar ahead)

namespace Spells

theorem spaced {follow later : List Char → Prop} {first second : List Char}
    {marks others : List Mark} (firstSpells : Spells follow first marks)
    (secondSpells : Spells later second others) (ends : ∀ rest, follow (' ' :: rest)) :
    Spells later (first ++ ' ' :: second) (marks ++ others) := by
  have space : Spells Always [' '] [] := spells_indent rfl
  exact firstSpells.append (space.append secondSpells fun _ _ => trivial) fun rest _ => ends _

theorem before {later : List Char → Prop} {first : List Char} {marks others : List Mark}
    {c : Char} {second : List Char} (firstSpells : Spells Delimited first marks)
    (secondSpells : Spells later (c :: second) others)
    (notWord : isWordChar c = false) (notPoint : c ≠ '.') :
    Spells later (first ++ c :: second) (marks ++ others) :=
  firstSpells.append secondSpells fun _ _ => Delimited.cons notWord notPoint

theorem always {follow : List Char → Prop} {text : List Char} {marks : List Mark}
    (spells : Spells Always text marks) : Spells follow text marks :=
  spells.mono fun _ _ => trivial

end Spells

theorem delimited_space (rest : List Char) : Delimited (' ' :: rest) :=
  Delimited.cons (by decide) (by decide)

theorem spells_sign (sign : Symbol) (closed : sign.isClosed = true) :
    Spells Always sign.text.toList [.symbol sign] :=
  spells_closed closed fun _ => rfl

/-! Operators. -/

theorem spells_operator {operator : Operator} (sign : Symbol)
    (found : sign.operator? = some operator) :
    Spells (fun rest => ahead rest = ' ') sign.text.toList [.operator operator] := by
  have fits (position : Position) : Mark.Fits (.operator operator) ⟨.symbol sign, "", position⟩ :=
    found
  refine (spells_symbol fits).mono fun rest space => ?_
  rw [space]
  exact sign.next_space

theorem spells_operatorWord {word : Keyword} {operator : Operator}
    (found : (TokenKind.keyword word).operator? = some operator) :
    Spells (fun rest => ahead rest = ' ') word.text.toList [.operator operator] := by
  refine (spells_word word.isWord_text fun position => ?_).mono fun rest space => ?_
  · rw [word.wordKind_text]
    exact found
  · rw [Delimited, space]
    decide

theorem BinaryOp.spelled {op : BinaryOp} (known : op ≠ .unknown) :
    (∃ sign : Symbol, sign.text = op.text ∧ sign.operator? = some (.binary op)) ∨
      ∃ word : Keyword, word.text = op.text ∧
        (TokenKind.keyword word).operator? = some (.binary op) := by
  cases op with
  | or => exact Or.inl ⟨.logicOr, rfl, rfl⟩
  | and => exact Or.inl ⟨.logicAnd, rfl, rfl⟩
  | equal => exact Or.inl ⟨.equal, rfl, rfl⟩
  | notEqual => exact Or.inl ⟨.notEqual, rfl, rfl⟩
  | less => exact Or.inl ⟨.less, rfl, rfl⟩
  | lessEqual => exact Or.inl ⟨.lessEqual, rfl, rfl⟩
  | greater => exact Or.inl ⟨.greater, rfl, rfl⟩
  | greaterEqual => exact Or.inl ⟨.greaterEqual, rfl, rfl⟩
  | bitOr => exact Or.inl ⟨.bitOr, rfl, rfl⟩
  | bitXor => exact Or.inl ⟨.bitXor, rfl, rfl⟩
  | bitAnd => exact Or.inl ⟨.bitAnd, rfl, rfl⟩
  | shiftLeft => exact Or.inl ⟨.shiftLeft, rfl, rfl⟩
  | shiftRight => exact Or.inl ⟨.shiftRight, rfl, rfl⟩
  | intDiv => exact Or.inr ⟨.div_, rfl, rfl⟩
  | intMod => exact Or.inr ⟨.mod_, rfl, rfl⟩
  | plus => exact Or.inl ⟨.plus, rfl, rfl⟩
  | minus => exact Or.inl ⟨.minus, rfl, rfl⟩
  | times => exact Or.inl ⟨.star, rfl, rfl⟩
  | divide => exact Or.inl ⟨.slash, rfl, rfl⟩
  | percent => exact Or.inl ⟨.percent, rfl, rfl⟩
  | power => exact Or.inl ⟨.power, rfl, rfl⟩
  | unknown => exact absurd rfl known

theorem spells_binaryOp {op : BinaryOp} (known : op ≠ .unknown) :
    Spells (fun rest => ahead rest = ' ') op.text.toList [.operator (.binary op)] := by
  rcases op.spelled known with ⟨sign, text, found⟩ | ⟨word, text, found⟩
  · rw [← text]
    exact spells_operator sign found
  · rw [← text]
    exact spells_operatorWord found

/-- A text that starts with neither a blank nor a character that would make an operator before it
longer. -/
def StartsApart (text : List Char) : Prop :=
  ∃ c rest, text = c :: rest ∧ c ≠ '=' ∧ Text.isBlank c = false

theorem spells_unary {op : UnaryOp} {operand : String} {marks : List Mark}
    (spells : Spells Delimited operand.toList marks) (starts : StartsApart operand.toList) :
    Spells Delimited (Expr.unaryText op operand).toList (.unary op :: marks) := by
  obtain ⟨c, rest, shape, apart, _⟩ := starts
  have joined (sign : Symbol) (found : sign.unaryOp? = some op)
      (complete : State.next ⟨.symbol sign, 0⟩ c = .complete) :
      Spells Delimited (sign.text.toList ++ operand.toList) (.unary op :: marks) := by
    have fits (position : Position) : Mark.Fits (.unary op) ⟨.symbol sign, "", position⟩ :=
      ⟨sign, rfl, found⟩
    refine (spells_symbol fits).append spells fun _ _ => ?_
    rw [shape]
    exact complete
  cases op with
  | not =>
      rw [Expr.unaryText, String.toList_append]
      exact joined .bang rfl (by simp [State.next, Symbol.extend?, apart])
  | complement =>
      rw [Expr.unaryText, String.toList_append]
      exact joined .bitNot rfl rfl
  | negate =>
      by_cases minus : c = '-'
      · have fits (position : Position) :
            Mark.Fits (.unary .negate) ⟨.symbol .minus, "", position⟩ := ⟨.minus, rfl, rfl⟩
        have spaced := (spells_symbol fits).spaced spells fun _ => Symbol.next_space .minus
        simpa [Expr.unaryText, shape, minus, Symbol.text] using spaced
      · have apartText : ¬operand.toList.head? = some '-' := by simpa [shape] using minus
        rw [Expr.unaryText, if_neg apartText, String.toList_append]
        exact joined .minus rfl (by simp [State.next, Symbol.extend?, apart, minus])

/-! Names and constants. -/

theorem spells_name {name : String} (named : isName name = true) :
    Spells Delimited name.toList [.name name] := by
  obtain ⟨word, kind⟩ : isWord name.toList = true ∧ wordKind name = .ident := by
    simpa [isName] using named
  exact spells_word word fun _ => ⟨kind, rfl⟩

theorem startsApart_word {text : List Char} (word : isWord text = true) : StartsApart text := by
  cases text with
  | nil => simp [isWord] at word
  | cons c rest =>
      simp only [isWord, Bool.and_eq_true] at word
      refine ⟨c, rest, rfl, ?_, ?_⟩
      · rintro rfl
        exact absurd word.1 (by simp; decide)
      · cases blank : Text.isBlank c with
        | false => rfl
        | true =>
            have notLetter := Text.isLetter_of_isBlank blank
            obtain ⟨rfl, _⟩ : c = '_' ∧ rest ≠ [] := by simpa [notLetter] using word.1
            exact absurd blank (by decide)

theorem startsApart_name {name : String} (named : isName name = true) :
    StartsApart name.toList := by
  rw [isName, Bool.and_eq_true] at named
  exact startsApart_word named.1

namespace Double

theorem text_eq_sign_size {x : Double} (isNumber : x.isNaN = false) :
    x.text = (if x.negative then "-" else "") ++ x.size.text := by
  simp [text, isNumber]

theorem denoted_eq_sign_size {x : Double} (isNumber : x.isNaN = false) :
    x.denoted = if x.negative then .unary .negate x.size.denoted else x.size.denoted := by
  simp [denoted, isNumber]

theorem spells_size {x : Double} (isNumber : x.isNaN = false) :
    Spells Delimited x.size.text.toList x.size.denoted.marks ∧
      ∃ c rest, x.size.text.toList = c :: rest ∧ c ≠ '-' ∧ c ≠ '=' ∧ Text.isBlank c = false := by
  cases infinite : x.isInfinite with
  | true =>
      have shape : x.size.text = "infinity" := by simp [text, isNumber, infinite]
      have denotes : x.size.denoted = .ident "infinity" := by simp [denoted, isNumber, infinite]
      rw [shape, denotes]
      exact ⟨spells_name (by decide), 'i', _, rfl, by decide, by decide, by decide⟩
  | false =>
      have denotes : x.size.denoted = .literal (.number x.size) := by
        simp [denoted, isNumber, infinite]
      have finite : x.size.magnitude < infiniteMagnitude := by
        simp only [isNaN, isInfinite, decide_eq_false_iff_not] at isNumber infinite
        rw [magnitude_size]
        omega
      obtain ⟨whole, fraction, shape, nonempty, digits, _⟩ := text_reads_back finite x.negative_size
      obtain ⟨c, rest, rfl⟩ := List.exists_cons_of_ne_nil nonempty
      have digit := digits c (by simp)
      have apart (d : Char) (notDigit : d.isDigit = false) : c ≠ d := by
        rintro rfl
        simp [notDigit] at digit
      rw [denotes]
      refine ⟨spells_number finite x.negative_size, c, pointed rest fraction, ?_,
        apart '-' (by decide), apart '=' (by decide), Text.isBlank_of_isDigit digit⟩
      rw [shape, pointed_cons]

theorem spells_text (x : Double) :
    Spells Delimited x.text.toList x.denoted.marks ∧ StartsApart x.text.toList := by
  cases isNumber : x.isNaN with
  | true =>
      have shape : x.text = "NaN" := by simp [text, isNumber]
      have denotes : x.denoted = .ident "NaN" := by simp [denoted, isNumber]
      rw [shape, denotes]
      exact ⟨spells_name (by decide), 'N', _, rfl, by decide, by decide⟩
  | false =>
      obtain ⟨spells, c, rest, shape, unsigned, apart⟩ := spells_size isNumber
      rw [text_eq_sign_size isNumber, denoted_eq_sign_size isNumber]
      cases x.negative with
      | true =>
          have signed : Spells Delimited (Expr.unaryText .negate x.size.text).toList
              (.unary .negate :: x.size.denoted.marks) :=
            spells_unary spells ⟨c, rest, shape, apart⟩
          rw [Expr.unaryText, if_neg (by simpa [shape] using unsigned)] at signed
          exact ⟨signed, '-', x.size.text.toList, by simp, by decide, by decide⟩
      | false =>
          rw [if_neg Bool.false_ne_true, if_neg Bool.false_ne_true, String.empty_append]
          exact ⟨spells, c, rest, shape, apart⟩

end Double

theorem spells_fixedWord {constant : Literal} (word : String) (isWord : isWord word.toList = true)
    (denotes : Token.literal ⟨wordKind word, word, Position.first⟩ = .ok constant) :
    Spells Delimited word.toList [.literal constant] ∧ StartsApart word.toList :=
  ⟨spells_word isWord fun _ => denotes, startsApart_word isWord⟩

theorem Literal.spells_text {number : Double → Prop} {constant : Literal}
    (wellFormed : constant.WellFormed number) (dialect : Dialect) :
    Spells Delimited (constant.text dialect).toList (constant.denoted dialect).marks ∧
      StartsApart (constant.text dialect).toList := by
  cases constant with
  | number value => exact value.spells_text
  | bool value =>
      cases value with
      | true => exact spells_fixedWord "true" (by decide) (by decide)
      | false => exact spells_fixedWord "false" (by decide) (by decide)
  | string body =>
      exact ⟨(spells_string wellFormed).always, '"', _, by simp [text]; rfl, by decide, by decide⟩
  | char value =>
      by_cases plain : dialect = .plain
      · subst plain
        have shape : Literal.text .plain (.char value) =
            "\"" ++ Text.escape '"' (String.singleton value) ++ "\"" := rfl
        rw [shape]
        exact ⟨(spells_string (isStringBody_escape _)).always, '"', _, by simp; rfl, by decide,
          by decide⟩
      · simp only [text, denoted, plain, if_false]
        exact ⟨(spells_char value).always, '\'', _, by simp [Text.enquote]; rfl, by decide, by decide⟩
  | undefined => exact spells_fixedWord "undefined" (by decide) (by decide)

/-! Parentheses and calls. -/

namespace Expr

def wrappedText (needed : Bool) (text : String) : String := if needed then parens text else text

theorem leftOperand_eq (dialect : Dialect) (x : Expr) (text : String) (least : Nat) :
    leftOperand dialect x text least = wrappedText (leftNeeds dialect x least) text := by
  cases x <;> rfl

theorem rightOperand_eq (dialect : Dialect) (x : Expr) (text : String) (least : Nat) :
    rightOperand dialect x text least = wrappedText (rightNeeds dialect x least) text := by
  unfold rightOperand rightNeeds
  cases x.pipeOnLeft dialect <;> rfl

theorem text_binary {op : BinaryOp} {left right : Expr} {dialect : Dialect}
    (kept : ¬(op = .power ∧ dialect = .plain)) :
    (binary op left right).text dialect =
      wrappedText (leftNeeds dialect left (Precedence.ofBinary op)) (left.text dialect) ++ " " ++
        op.text ++ " " ++
        wrappedText (rightNeeds dialect right (Precedence.ofBinary op + 1))
          (right.text dialect) := by
  rw [text, if_neg (by simpa using kept), leftOperand_eq, rightOperand_eq]

end Expr

theorem spells_parens {text : String} {marks : List Mark} (spells : Spells Delimited text.toList marks) :
    Spells Always (Expr.parens text).toList
      (.symbol .leftParen :: (marks ++ [.symbol .rightParen])) := by
  have opens : Spells Always ['('] [.symbol .leftParen] := spells_sign .leftParen rfl
  have closes : Spells Always [')'] [.symbol .rightParen] := spells_sign .rightParen rfl
  have inside := spells.before closes (by decide) (by decide)
  simpa [Expr.parens] using opens.append inside fun _ _ => trivial

theorem spells_wrapped {text : String} {inner : Expr} (needed : Bool)
    (spells : Spells Delimited text.toList inner.marks) :
    Spells Delimited (Expr.wrappedText needed text).toList (Expr.wrapped needed inner).marks := by
  cases needed with
  | true => exact (spells_parens spells).always
  | false => exact spells

def moreText (texts : List String) : List Char := texts.flatMap fun text => ',' :: ' ' :: text.toList

theorem intercalate_cons_toList (first : String) (others : List String) :
    (String.intercalate ", " (first :: others)).toList = first.toList ++ moreText others := by
  induction others generalizing first with
  | nil => simp [moreText]
  | cons second others ih =>
      rw [String.intercalate_cons_cons, String.toList_append, ih]
      simp [moreText]

def SpellsExpr (text : String) (whole : Expr) : Prop := Spells Delimited text.toList whole.marks

theorem spells_more {texts : List String} {args : List Expr}
    (spells : List.Forall₂ SpellsExpr texts args) :
    Spells (fun rest => ahead rest = ')') (moreText texts) (Expr.moreMarks args) := by
  have comma : Spells Always [','] [.symbol .comma] := spells_sign .comma rfl
  induction spells with
  | nil => exact Spells.nil _
  | @cons text arg texts args first others ih =>
      have item : Spells (fun rest => ahead rest = ')') (text.toList ++ moreText texts)
          (arg.marks ++ Expr.moreMarks args) := by
        refine first.append ih fun rest closes => ?_
        cases texts with
        | nil =>
            change Delimited rest
            rw [Delimited, closes]
            decide
        | cons => exact Delimited.cons (by decide) (by decide)
      rw [Expr.moreMarks]
      simpa [moreText] using comma.spaced item fun _ => trivial

theorem spells_items {texts : List String} {args : List Expr}
    (spells : List.Forall₂ SpellsExpr texts args) :
    Spells (fun rest => ahead rest = ')') (String.intercalate ", " texts).toList
      (Expr.itemMarks args) := by
  cases spells with
  | nil => exact Spells.nil _
  | @cons text arg texts args first others =>
      rw [intercalate_cons_toList, Expr.itemMarks]
      refine first.append (spells_more others) fun rest closes => ?_
      cases texts with
      | nil =>
          change Delimited rest
          rw [Delimited, closes]
          decide
      | cons => exact Delimited.cons (by decide) (by decide)

theorem spells_call {name : String} {texts : List String} {args : List Expr}
    (named : isName name = true) (spells : List.Forall₂ SpellsExpr texts args) :
    Spells Always (Expr.callText name texts).toList
      (.name name :: .symbol .leftParen :: (Expr.itemMarks args ++ [.symbol .rightParen])) := by
  have opens : Spells Always ['('] [.symbol .leftParen] := spells_sign .leftParen rfl
  have closes : Spells Always [')'] [.symbol .rightParen] := spells_sign .rightParen rfl
  have inside := opens.append ((spells_items spells).append closes fun _ _ => rfl)
    fun _ _ => trivial
  have whole := (spells_name named).before inside (by decide) (by decide)
  simpa [Expr.callText] using whole

theorem StartsApart.append {text : List Char} (starts : StartsApart text) (more : List Char) :
    StartsApart (text ++ more) := by
  obtain ⟨c, rest, rfl, apart⟩ := starts
  exact ⟨c, rest ++ more, rfl, apart⟩

theorem StartsApart.wrapped {text : String} (starts : StartsApart text.toList) (needed : Bool) :
    StartsApart (Expr.wrappedText needed text).toList := by
  cases needed with
  | true => exact ⟨'(', _, by simp [Expr.wrappedText, Expr.parens]; rfl, by decide, by decide⟩
  | false => exact starts

theorem startsApart_call {name : String} (named : isName name = true) (texts : List String) :
    StartsApart (Expr.callText name texts).toList := by
  simp only [Expr.callText, String.toList_append, List.append_assoc]
  exact (startsApart_name named).append _

theorem startsApart_unary (op : UnaryOp) (operand : String) :
    StartsApart (Expr.unaryText op operand).toList := by
  cases op with
  | not => exact ⟨'!', operand.toList, by simp [Expr.unaryText], by decide, by decide⟩
  | complement => exact ⟨'~', operand.toList, by simp [Expr.unaryText], by decide, by decide⟩
  | negate =>
      simp only [Expr.unaryText]
      split
      · exact ⟨'-', ' ' :: operand.toList, by simp, by decide, by decide⟩
      · exact ⟨'-', operand.toList, by simp, by decide, by decide⟩

namespace Expr

/-- The text of a well-formed expression spells the tokens of what it denotes. -/
theorem WellFormed.spells_text_startsApart {number : Double → Prop} {x : Expr}
    (wellFormed : x.WellFormed number) (dialect : Dialect) :
    SpellsExpr (x.text dialect) (x.denoted dialect) ∧ StartsApart (x.text dialect).toList := by
  have each : ∀ {args : List Expr},
      (∀ arg ∈ args, SpellsExpr (arg.text dialect) (arg.denoted dialect) ∧
        StartsApart (arg.text dialect).toList) →
      List.Forall₂ SpellsExpr (texts dialect args) (denotedAll dialect args) := by
    intro args all
    rw [texts_eq_map, denotedAll_eq_map, List.forall₂_map_left_iff, List.forall₂_map_right_iff,
      List.forall₂_same]
    exact fun arg member => (all arg member).1
  -- That a text starts apart is proved along: an operator or a sign stands before it in the texts
  -- around it.
  induction wellFormed with
  | @binary op left right known _ _ leftSpells rightSpells =>
      by_cases lowered : op = .power ∧ dialect = .plain
      · obtain ⟨rfl, rfl⟩ := lowered
        have named : isName "power" = true := by decide
        exact ⟨(spells_call named (.cons leftSpells.1 (.cons rightSpells.1 .nil))).always,
          startsApart_call named _⟩
      · rw [text_binary lowered, denoted_binary lowered]
        have leftWrapped := spells_wrapped (leftNeeds dialect left (Precedence.ofBinary op))
          leftSpells.1
        have rightWrapped := spells_wrapped (rightNeeds dialect right (Precedence.ofBinary op + 1))
          rightSpells.1
        have infixed := leftWrapped.spaced
          ((spells_binaryOp known).spaced rightWrapped fun _ => rfl) delimited_space
        refine ⟨by simpa [SpellsExpr, marks] using infixed, ?_⟩
        simp only [String.toList_append, List.append_assoc]
        exact (leftSpells.2.wrapped _).append _
  | @ternary test yes no _ _ _ testSpells yesSpells noSpells =>
      have testWrapped := spells_wrapped (leftNeeds dialect test (Precedence.ternary + 1))
        testSpells.1
      have question : Spells (fun rest => ahead rest = ' ') ['?'] [.operator .ternary] :=
        spells_operator .question rfl
      have colon : Spells Always [':'] [.symbol .colon] := spells_sign .colon rfl
      have branches := yesSpells.1.spaced (colon.spaced noSpells.1 fun _ => trivial) delimited_space
      have whole := testWrapped.spaced (question.spaced branches fun _ => rfl) delimited_space
      rw [text, leftOperand_eq, denoted]
      refine ⟨by simpa [SpellsExpr, marks] using whole, ?_⟩
      simp only [String.toList_append, List.append_assoc]
      exact (testSpells.2.wrapped _).append _
  | @pipe input name args named _ _ inputSpells argsSpell =>
      rw [text, denoted]
      split_ifs
      · exact ⟨(spells_call named (.cons inputSpells.1 (each argsSpell))).always,
          startsApart_call named _⟩
      · have inputWrapped := spells_wrapped (leftNeeds dialect input Precedence.pipe) inputSpells.1
        have pipes : Spells (fun rest => ahead rest = ' ') ['|', '>'] [.operator .pipe] :=
          spells_operator .pipe rfl
        have call := spells_call named (each argsSpell)
        have whole := inputWrapped.spaced (pipes.spaced call fun _ => rfl) delimited_space
        rw [leftOperand_eq]
        refine ⟨?_, ?_⟩
        · have spelled : Spells Delimited _ _ := whole.always
          simpa [SpellsExpr, marks] using spelled
        · simp only [String.toList_append, List.append_assoc]
          exact (inputSpells.2.wrapped _).append _
  | paren _ inner =>
      exact ⟨(spells_parens inner.1).always, '(', _, by simp [text, parens]; rfl, by decide, by decide⟩
  | call named _ argsSpell =>
      exact ⟨(spells_call named (each argsSpell)).always, startsApart_call named _⟩
  | ident named => exact ⟨spells_name named, startsApart_name named⟩
  | @unary op operand leaf _ operandSpells =>
      have wrapped := spells_wrapped operand.isNegative operandSpells.1
      exact ⟨spells_unary wrapped (operandSpells.2.wrapped _), startsApart_unary _ _⟩
  | literal good => exact Literal.spells_text good dialect

end Expr

end GameScript
