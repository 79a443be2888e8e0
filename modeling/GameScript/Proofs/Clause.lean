import GameScript.Proofs.Canonical

/-!
The parts of statements, as relations between the tokens before and after them. The parsers of the
parts read exactly what the relations say.
-/

namespace GameScript

inductive Ends : List Token → List Token → Prop where
  | line {semicolon lineEnd : Token} {rest : List Token}
      (found : semicolon.kind = .symbol .semicolon) (breaks : lineEnd.kind = .lineEnd) :
      Ends (semicolon :: lineEnd :: rest) rest
  | semicolon {semicolon : Token} {rest : List Token}
      (found : semicolon.kind = .symbol .semicolon) (noBreak : headKind rest ≠ .lineEnd) :
      Ends (semicolon :: rest) rest
  | lineEnd {lineEnd : Token} {rest : List Token} (breaks : lineEnd.kind = .lineEnd) :
      Ends (lineEnd :: rest) rest
  | finish {tokens : List Token} (closes : headKind tokens = .finish) : Ends tokens tokens

inductive Assigns : Assignment → List Token → List Token → Prop where
  | step {target token : Token} {op : AssignOp} {rest : List Token} (named : target.kind = .ident)
      (found : token.kind.assignOp? = some op) (alone : op.isStep = true) :
      Assigns ⟨target.lit, op, none⟩ (target :: token :: rest) rest
  | value {target token : Token} {op : AssignOp} {value : Expr} {tokens rest : List Token}
      (named : target.kind = .ident) (found : token.kind.assignOp? = some op)
      (valued : op.isStep = false)
      (reads : Reads (.binary Precedence.pipe value) (skipEnds tokens) rest) :
      Assigns ⟨target.lit, op, some value⟩ (target :: token :: tokens) rest

def TokenKind.declares (kind : TokenKind) : Bool :=
  kind = .keyword .var_ || kind = .keyword .globalvar_

inductive Declares : Declaration → List Token → List Token → Prop where
  | bare {word name : Token} {rest : List Token} (declares : word.kind.declares = true)
      (named : name.kind = .ident) (noValue : headKind rest ≠ .symbol .assign) :
      Declares ⟨name.lit, word.kind = .keyword .globalvar_, none⟩ (word :: name :: rest) rest
  | valued {word name equals : Token} {value : Expr} {tokens rest : List Token}
      (declares : word.kind.declares = true) (named : name.kind = .ident)
      (found : equals.kind = .symbol .assign)
      (reads : Reads (.binary Precedence.pipe value) (skipEnds tokens) rest) :
      Declares ⟨name.lit, word.kind = .keyword .globalvar_, some value⟩
        (word :: name :: equals :: tokens) rest

inductive Clauses (first : Bool) : Stmt → List Token → List Token → Prop where
  | noop {tokens : List Token} (empty : headKind tokens = .symbol .semicolon) :
      Clauses first .noop tokens tokens
  | declare {declaration : Declaration} {tokens rest : List Token} (isFirst : first = true)
      (declares : Declares declaration tokens rest) : Clauses first (.declare declaration) tokens rest
  | assign {assignment : Assignment} {tokens rest : List Token}
      (assigns : Assigns assignment tokens rest) : Clauses first (.assign assignment) tokens rest
  | expr {value : Expr} {tokens rest : List Token}
      (reads : Reads (.binary Precedence.pipe value) tokens rest)
      (noAssign : (headKind rest).assignOp? = none) : Clauses first (.expr value) tokens rest

inductive Tests : Option Expr → List Token → List Token → Prop where
  | none {tokens : List Token} (empty : headKind tokens = .symbol .semicolon) :
      Tests none tokens tokens
  | some {value : Expr} {tokens rest : List Token}
      (reads : Reads (.binary Precedence.pipe value) tokens rest) : Tests (some value) tokens rest

inductive Updates : Stmt → List Token → List Token → Prop where
  | none {tokens : List Token} (empty : headKind tokens = .symbol .rightParen) :
      Updates .noop tokens tokens
  | clause {update : Stmt} {tokens rest : List Token} (clauses : Clauses false update tokens rest) :
      Updates update tokens rest

inductive Divides : List Token → List Token → Prop where
  | semicolon {semicolon : Token} {tokens rest : List Token}
      (shape : skipEnds tokens = semicolon :: rest) (found : semicolon.kind = .symbol .semicolon) :
      Divides tokens (skipEnds rest)

def Keyword.loopKind? : Keyword → Option LoopKind
  | .while_ => some .doWhile
  | .until_ => some .doUntil
  | _ => none

/-- The end of a statement, or nothing where no end stands. -/
inductive MayEnd : List Token → List Token → Prop where
  | ends {tokens rest : List Token} (ends : Ends tokens rest) : MayEnd tokens rest
  | bare {tokens : List Token} (noSemicolon : headKind tokens ≠ .symbol .semicolon)
      (noBreak : headKind tokens ≠ .lineEnd) : MayEnd tokens tokens

inductive Tails : LoopKind → Expr → List Token → List Token → Prop where
  | intro {token : Token} {word : Keyword} {kind : LoopKind} {test : Expr}
      {tokens later middle rest : List Token} (shape : skipEnds tokens = token :: later)
      (found : token.kind = .keyword word) (loops : word.loopKind? = some kind)
      (reads : Reads (.value (.paren test)) later middle) (ends : MayEnd middle rest) :
      Tails kind test tokens rest

inductive Returns : Option Expr → List Token → List Token → Prop where
  | none {tokens rest : List Token} (ends : Ends tokens rest) : Returns none tokens rest
  | some {value : Expr} {tokens middle rest : List Token}
      (reads : Reads (.binary Precedence.pipe value) tokens middle) (ends : Ends middle rest) :
      Returns (some value) tokens rest

theorem Ends.passes {tokens rest : List Token} (ends : Ends tokens rest) : Passes tokens rest := by
  cases ends with
  | line found breaks => exact ((Passes.refl _).cons (by simp [breaks])).cons (by simp [found])
  | semicolon found => exact (Passes.refl _).cons (by simp [found])
  | lineEnd breaks => exact (Passes.refl _).cons (by simp [breaks])
  | finish => exact Passes.refl _

theorem TokenKind.ne_finish_of_assignOp? {kind : TokenKind} {op : AssignOp}
    (found : kind.assignOp? = some op) : kind ≠ .finish := by
  rintro rfl
  simp [assignOp?] at found

theorem Assigns.passes {assignment : Assignment} {tokens rest : List Token}
    (assigns : Assigns assignment tokens rest) : Passes tokens rest := by
  cases assigns with
  | step named found =>
      exact ((Passes.refl _).cons (TokenKind.ne_finish_of_assignOp? found)).cons (by simp [named])
  | value named found _ reads =>
      exact (((Passes.skipEnds _).trans reads.passes).cons
        (TokenKind.ne_finish_of_assignOp? found)).cons (by simp [named])

theorem TokenKind.ne_finish_of_declares {kind : TokenKind} (declares : kind.declares = true) :
    kind ≠ .finish := by
  rintro rfl
  simp [TokenKind.declares] at declares

theorem Declares.passes {declaration : Declaration} {tokens rest : List Token}
    (declares : Declares declaration tokens rest) : Passes tokens rest := by
  cases declares with
  | bare declares named =>
      exact ((Passes.refl _).cons (by simp [named])).cons (TokenKind.ne_finish_of_declares declares)
  | valued declares named found reads =>
      exact ((((Passes.skipEnds _).trans reads.passes).cons (by simp [found])).cons
        (by simp [named])).cons (TokenKind.ne_finish_of_declares declares)

theorem Clauses.passes {first : Bool} {clause : Stmt} {tokens rest : List Token}
    (clauses : Clauses first clause tokens rest) : Passes tokens rest := by
  cases clauses with
  | noop => exact Passes.refl _
  | declare _ declares => exact declares.passes
  | assign assigns => exact assigns.passes
  | expr reads => exact reads.passes

theorem Tests.passes {test : Option Expr} {tokens rest : List Token}
    (tests : Tests test tokens rest) : Passes tokens rest := by
  cases tests with
  | none => exact Passes.refl _
  | some reads => exact reads.passes

theorem Updates.passes {update : Stmt} {tokens rest : List Token}
    (updates : Updates update tokens rest) : Passes tokens rest := by
  cases updates with
  | none => exact Passes.refl _
  | clause clauses => exact clauses.passes

theorem Divides.passes {tokens rest : List Token} (divides : Divides tokens rest) :
    Passes tokens rest := by
  cases divides with
  | semicolon shape found =>
      exact (Passes.ofSkipEnds shape (by simp [found])).trans (Passes.skipEnds _)

theorem MayEnd.passes {tokens rest : List Token} (mayEnd : MayEnd tokens rest) :
    Passes tokens rest := by
  cases mayEnd with
  | ends ends => exact ends.passes
  | bare => exact Passes.refl _

theorem Tails.passes {kind : LoopKind} {test : Expr} {tokens rest : List Token}
    (tails : Tails kind test tokens rest) : Passes tokens rest := by
  cases tails with
  | intro shape found _ reads ends =>
      exact (Passes.ofSkipEnds shape (by simp [found])).trans (reads.passes.trans ends.passes)

theorem Returns.passes {value : Option Expr} {tokens rest : List Token}
    (returns : Returns value tokens rest) : Passes tokens rest := by
  cases returns with
  | none ends => exact ends.passes
  | some reads ends => exact reads.passes.trans ends.passes

/-! What the parts start with. -/

theorem Assigns.headKind_eq {assignment : Assignment} {tokens rest : List Token}
    (assigns : Assigns assignment tokens rest) : headKind tokens = .ident := by
  cases assigns with
  | step named | value named => exact named

theorem Declares.declares_headKind {declaration : Declaration} {tokens rest : List Token}
    (declares : Declares declaration tokens rest) : (headKind tokens).declares = true := by
  cases declares with
  | bare declares | valued declares => exact declares

theorem Ends.headKind_cases {tokens rest : List Token} (ends : Ends tokens rest) :
    headKind tokens = .symbol .semicolon ∨ headKind tokens = .lineEnd ∨
      headKind tokens = .finish := by
  cases ends with
  | line found | semicolon found => exact Or.inl found
  | lineEnd breaks => exact Or.inr (Or.inl breaks)
  | finish closes => exact Or.inr (Or.inr closes)

theorem Ends.eq_of_finish {tokens rest : List Token} (ends : Ends tokens rest)
    (closes : headKind tokens = .finish) : rest = tokens := by
  cases ends with
  | line found | semicolon found => simp [headKind, found] at closes
  | lineEnd breaks => simp [headKind, breaks] at closes
  | finish => rfl

theorem Ends.assignOp?_eq_none {tokens rest : List Token} (ends : Ends tokens rest) :
    (headKind tokens).assignOp? = none := by
  rcases ends.headKind_cases with kind | kind | kind <;> rw [kind] <;> rfl

theorem Ends.startsLeaf_eq_false {tokens rest : List Token} (ends : Ends tokens rest) :
    (headKind tokens).startsLeaf = false := by
  rcases ends.headKind_cases with kind | kind | kind <;> rw [kind] <;> rfl

def TokenKind.begins : TokenKind → Bool
  | .symbol .semicolon | .symbol .leftBrace => true
  | .keyword .else_ | .keyword .argument_ => false
  | .keyword _ => true
  | kind => kind.startsLeaf

theorem TokenKind.begins_of_startsLeaf {kind : TokenKind} (leaf : kind.startsLeaf = true) :
    kind.begins = true := by
  cases kind with
  | symbol sign => cases sign <;> first | rfl | exact leaf
  | keyword => simp [startsLeaf] at leaf
  | _ => exact leaf

theorem TokenKind.begins_of_declares {kind : TokenKind} (declares : kind.declares = true) :
    kind.begins = true := by
  simp only [TokenKind.declares, Bool.or_eq_true, decide_eq_true_eq] at declares
  rcases declares with rfl | rfl <;> rfl

theorem Clauses.begins {first : Bool} {clause : Stmt} {tokens rest : List Token}
    (clauses : Clauses first clause tokens rest) : (headKind tokens).begins = true := by
  cases clauses with
  | noop empty => rw [empty]; rfl
  | declare _ declares => exact TokenKind.begins_of_declares declares.declares_headKind
  | assign assigns => rw [assigns.headKind_eq]; rfl
  | expr reads => exact TokenKind.begins_of_startsLeaf reads.startsLeaf

theorem Clauses.headKind_ne {first : Bool} {clause : Stmt} {tokens rest : List Token}
    {kind : TokenKind} (clauses : Clauses first clause tokens rest) (never : kind.begins = false) :
    headKind tokens ≠ kind := by
  rintro rfl
  rw [clauses.begins] at never
  exact Bool.noConfusion never

namespace Parser

open Cursor

variable {cursor : Cursor} {rest : List Token}

theorem expression_agrees (bound : Nat) : Agrees bound Precedence.pipe expression :=
  fun _ _ _ closed _ => expression_gives_iff closed

theorem parenthesized_gives_iff {inner : Expr} (closed : Closed cursor.rest) :
    Gives parenthesized cursor inner rest ↔ Reads (.value (.paren inner)) cursor.rest rest :=
  parenthesizedFrom_gives_iff (expression_agrees _) closed (Nat.le_succ _)

theorem terminator_gives_iff (closed : Closed cursor.rest) :
    Gives terminator cursor () rest ↔ Ends cursor.rest rest := by
  constructor
  · rintro ⟨after, ran, rfl⟩
    unfold terminator at ran
    split at ran
    next found =>
      have innerClosed := closed_advance closed (by simp [found])
      rw [rest_eq_cons closed]
      split at ran
      next breaks =>
        cases ran
        rw [rest_eq_cons innerClosed]
        exact .line found breaks
      next noBreak =>
        cases ran
        exact .semicolon found (by rwa [← kind_peek innerClosed])
    next breaks =>
      cases ran
      rw [rest_eq_cons closed]
      exact .lineEnd breaks
    next closes =>
      cases ran
      exact .finish (by rwa [← kind_peek closed])
    next => simp at ran
  · intro ends
    rw [rest_eq_cons closed] at ends
    generalize shape : cursor.advance.rest = tail at ends
    cases ends with
    | line found breaks =>
        have second := peek_of_rest shape
        refine ⟨cursor.advance.advance, ?_, rest_advance shape⟩
        simp [terminator, found, Cursor.second, second, breaks]
    | semicolon found noBreak =>
        have innerClosed := closed_advance closed (by simp [found])
        rw [← shape, ← kind_peek innerClosed] at noBreak
        exact ⟨cursor.advance, by simp [terminator, found, Cursor.second, noBreak], shape⟩
    | lineEnd breaks => exact ⟨cursor.advance, by simp [terminator, breaks], shape⟩
    | finish closes =>
        have here : cursor.peek.kind = .finish := closes
        exact ⟨cursor, by simp [terminator, here], shape ▸ rest_eq_cons closed⟩

theorem assignment_gives_iff {assigned : Assignment} (closed : Closed cursor.rest) :
    Gives assignment cursor assigned rest ↔ Assigns assigned cursor.rest rest := by
  constructor
  · rintro ⟨after, ran, rfl⟩
    simp only [assignment, atomic_ok_iff, bind_ok_iff, identifier_ok_iff, next_ok_iff] at ran
    obtain ⟨_, _, ⟨named, rfl, rfl⟩, _, _, ⟨rfl, rfl⟩, ran⟩ := ran
    have tokenClosed := closed_advance closed (by simp [named])
    rw [rest_eq_cons closed, rest_eq_cons tokenClosed]
    cases found : cursor.advance.peek.kind.assignOp? with
    | none => simp [found] at ran
    | some op =>
        have innerClosed := closed_advance tokenClosed (TokenKind.ne_finish_of_assignOp? found)
        cases alone : op.isStep with
        | true =>
            simp [found, alone] at ran
            obtain ⟨rfl, rfl⟩ := ran
            exact .step named found alone
        | false =>
            simp [found, alone] at ran
            obtain ⟨value, read, rfl⟩ := ran
            have reads := (expression_gives_iff (closed_skipLineEnds innerClosed)).mp
              ⟨after, read, rfl⟩
            rw [rest_skipLineEnds] at reads
            exact .value named found alone reads
  · intro assigns
    rw [rest_eq_cons closed] at assigns
    generalize shape : cursor.advance.rest = tail at assigns
    cases assigns with
    | step named found alone =>
        have second := peek_of_rest shape
        refine ⟨cursor.advance.advance, ?_, rest_advance shape⟩
        simp [assignment, named, second, found, alone]
    | value named found valued reads =>
        have second := peek_of_rest shape
        have tokenClosed := closed_advance closed (by simp [named])
        have innerClosed := closed_advance tokenClosed
          (by rw [second]; exact TokenKind.ne_finish_of_assignOp? found)
        rw [← rest_advance shape, ← rest_skipLineEnds] at reads
        obtain ⟨after, read, rfl⟩ :=
          (expression_gives_iff (closed_skipLineEnds innerClosed)).mpr reads
        refine ⟨after, ?_, rfl⟩
        simp [assignment, named, second, found, valued, read]

theorem declaration_gives_iff {declared : Declaration} (closed : Closed cursor.rest)
    (declares : cursor.peek.kind.declares = true) :
    Gives declaration cursor declared rest ↔ Declares declared cursor.rest rest := by
  have nameClosed := closed_advance closed (TokenKind.ne_finish_of_declares declares)
  constructor
  · rintro ⟨after, ran, rfl⟩
    simp only [declaration, atomic_ok_iff, bind_ok_iff, identifier_ok_iff, next_ok_iff,
      initialValue, peek_ok_iff, pure_ok_iff] at ran
    obtain ⟨_, _, ⟨rfl, rfl⟩, _, _, ⟨named, rfl, rfl⟩, value, _, ⟨_, _, ⟨rfl, rfl⟩, ran⟩, rfl, rfl⟩ :=
      ran
    have innerClosed := closed_advance nameClosed (by simp [named])
    rw [rest_eq_cons closed, rest_eq_cons nameClosed]
    split at ran
    next found =>
      have valueClosed := closed_advance innerClosed (by simp [found])
      simp at ran
      obtain ⟨value, read, rfl⟩ := ran
      have reads := (expression_gives_iff (closed_skipLineEnds valueClosed)).mp ⟨_, read, rfl⟩
      rw [rest_skipLineEnds] at reads
      rw [rest_eq_cons innerClosed]
      exact .valued declares named found reads
    next absent =>
      simp at ran
      obtain ⟨rfl, rfl⟩ := ran
      exact .bare declares named (by rwa [← kind_peek innerClosed])
  · intro declares
    rw [rest_eq_cons closed] at declares
    generalize shape : cursor.advance.rest = tail at declares
    cases declares with
    | bare _ named noValue =>
        have second := peek_of_rest shape
        have innerClosed := closed_advance nameClosed (by simp [second, named])
        have later := rest_advance shape
        rw [← later, ← kind_peek innerClosed] at noValue
        refine ⟨cursor.advance.advance, ?_, later⟩
        simp [declaration, second, named, initialValue, noValue]
    | valued _ named found reads =>
        have second := peek_of_rest shape
        have later := rest_advance shape
        have third := peek_of_rest later
        have innerClosed := closed_advance nameClosed (by simp [second, named])
        have valueClosed := closed_advance innerClosed (by simp [third, found])
        rw [← rest_advance later, ← rest_skipLineEnds] at reads
        obtain ⟨after, read, rfl⟩ :=
          (expression_gives_iff (closed_skipLineEnds valueClosed)).mpr reads
        refine ⟨after, ?_, rfl⟩
        simp [declaration, second, named, initialValue, third, found, read]

/-- The grammar is deterministic, as the parser is. -/
theorem reads_unique {first second : Expr} {tokens rest other : List Token} (closed : Closed tokens)
    (firstReads : Reads (.binary Precedence.pipe first) tokens rest)
    (secondReads : Reads (.binary Precedence.pipe second) tokens other) :
    first = second ∧ rest = other := by
  have cursor : Closed (Cursor.mk [] tokens closed.ne_nil).rest := closed
  obtain ⟨after, ran, rfl⟩ := (expression_gives_iff cursor).mpr firstReads
  obtain ⟨again, ranAgain, rfl⟩ := (expression_gives_iff cursor).mpr secondReads
  rw [ran] at ranAgain
  cases ranAgain
  exact ⟨rfl, rfl⟩

theorem operator?_of_assignOp? {kind : TokenKind} {op : AssignOp}
    (found : kind.assignOp? = some op) : kind.operator? = none ∧ kind ≠ .symbol .leftParen := by
  unfold TokenKind.assignOp? at found
  split at found
  next sign => cases sign <;> simp [Symbol.assignOp?] at found <;> exact ⟨rfl, by simp⟩
  next => simp at found

theorem assignOp?_of_assigns {assigned : Assignment} {value : Expr} {tokens rest other : List Token}
    (closed : Closed tokens) (assigns : Assigns assigned tokens other)
    (reads : Reads (.binary Precedence.pipe value) tokens rest) :
    ∃ op, (headKind rest).assignOp? = some op := by
  have target : ∃ (name token : Token) (later : List Token) (op : AssignOp),
      tokens = name :: token :: later ∧ name.kind = .ident ∧ token.kind.assignOp? = some op := by
    cases assigns with
    | step named found => exact ⟨_, _, _, _, rfl, named, found⟩
    | value named found => exact ⟨_, _, _, _, rfl, named, found⟩
  obtain ⟨name, token, later, op, rfl, named, found⟩ := target
  obtain ⟨noOperator, notParen⟩ := operator?_of_assignOp? found
  have alone : Reads (.binary Precedence.pipe (.ident name.lit)) (name :: token :: later)
      (token :: later) :=
    .binary (.ident named notParen) (.stop (by simp [headKind, noOperator]))
  obtain ⟨_, rfl⟩ := reads_unique closed reads alone
  exact ⟨op, found⟩

theorem simple_gives_iff {result : Stmt} (closed : Closed cursor.rest) :
    Gives simple cursor result rest ↔
      (∃ value middle, Reads (.binary Precedence.pipe value) cursor.rest middle ∧
        Ends middle rest ∧ .expr value = result) ∨
      (∃ assigned middle, Assigns assigned cursor.rest middle ∧ Ends middle rest ∧
        .assign assigned = result) := by
  constructor
  · rintro ⟨after, ran, rfl⟩
    rcases orElse_ok_iff.mp ran with ran | ⟨_, ran⟩
    · simp at ran
      obtain ⟨value, middle, read, ⟨_, ended⟩, rfl⟩ := ran
      have reads := (expression_gives_iff closed).mp ⟨middle, read, rfl⟩
      have ends := (terminator_gives_iff (reads.passes.closed closed)).mp ⟨after, ended, rfl⟩
      exact Or.inl ⟨value, _, reads, ends, rfl⟩
    · simp at ran
      obtain ⟨assigned, middle, read, ⟨_, ended⟩, rfl⟩ := ran
      have assigns := (assignment_gives_iff closed).mp ⟨middle, read, rfl⟩
      have ends := (terminator_gives_iff (assigns.passes.closed closed)).mp ⟨after, ended, rfl⟩
      exact Or.inr ⟨assigned, _, assigns, ends, rfl⟩
  · rintro (⟨value, _, reads, ends, rfl⟩ | ⟨assigned, _, assigns, ends, rfl⟩)
    · obtain ⟨middle, read, rfl⟩ := (expression_gives_iff closed).mpr reads
      obtain ⟨after, ended, rfl⟩ :=
        (terminator_gives_iff (reads.passes.closed closed)).mpr ends
      exact ⟨after, orElse_ok_iff.mpr (Or.inl (by simp [read, ended])), rfl⟩
    · obtain ⟨middle, read, rfl⟩ := (assignment_gives_iff closed).mpr assigns
      obtain ⟨after, ended, rfl⟩ :=
        (terminator_gives_iff (assigns.passes.closed closed)).mpr ends
      refine ⟨after, orElse_ok_iff.mpr (Or.inr ⟨?_, by simp [read, ended]⟩), rfl⟩
      -- As an expression statement, the target would not be followed by an end.
      intro other stopped ran
      simp at ran
      obtain ⟨value, middle, valueRead, ⟨_, valueEnded⟩, _⟩ := ran
      have reads := (expression_gives_iff closed).mp ⟨middle, valueRead, rfl⟩
      have valueEnds := (terminator_gives_iff (reads.passes.closed closed)).mp
        ⟨stopped, valueEnded, rfl⟩
      obtain ⟨op, found⟩ := assignOp?_of_assigns closed assigns reads
      rw [valueEnds.assignOp?_eq_none] at found
      simp at found

theorem clause_gives_iff {first : Bool} {result : Stmt} (closed : Closed cursor.rest)
    (bare : (headKind rest).assignOp? = none) :
    Gives (clause first) cursor result rest ↔ Clauses first result cursor.rest rest := by
  constructor
  · rintro ⟨after, ran, rfl⟩
    simp only [clause, bind_ok_iff, peek_ok_iff] at ran
    obtain ⟨_, _, ⟨rfl, rfl⟩, ran⟩ := ran
    split_ifs at ran with empty declares
    · simp at ran
      obtain ⟨rfl, rfl⟩ := ran
      exact .noop (by rwa [← kind_peek closed])
    · simp at ran
      obtain ⟨declared, read, rfl⟩ := ran
      obtain ⟨isFirst, declares⟩ : first = true ∧ cursor.peek.kind.declares = true := by
        simpa [TokenKind.declares] using declares
      exact .declare isFirst ((declaration_gives_iff closed declares).mp ⟨after, read, rfl⟩)
    · rcases orElse_ok_iff.mp ran with ran | ⟨_, ran⟩
      · simp at ran
        obtain ⟨assigned, read, rfl⟩ := ran
        exact .assign ((assignment_gives_iff closed).mp ⟨after, read, rfl⟩)
      · simp at ran
        obtain ⟨value, read, rfl⟩ := ran
        exact .expr ((expression_gives_iff closed).mp ⟨after, read, rfl⟩) bare
  · intro clauses
    have here := kind_peek closed
    cases clauses with
    | noop empty => exact ⟨cursor, by simp [clause, here, empty], rfl⟩
    | declare isFirst declares =>
        have kind : cursor.peek.kind.declares = true := here ▸ declares.declares_headKind
        have notEmpty : cursor.peek.kind ≠ .symbol .semicolon := by
          intro empty
          simp [empty, TokenKind.declares] at kind
        obtain ⟨after, read, rfl⟩ := (declaration_gives_iff closed kind).mpr declares
        simp only [TokenKind.declares, Bool.or_eq_true, decide_eq_true_eq] at kind
        exact ⟨after, by simp [clause, notEmpty, isFirst, kind, read], rfl⟩
    | @assign assigned _ _ assigns =>
        have named : cursor.peek.kind = .ident := here ▸ assigns.headKind_eq
        obtain ⟨after, read, rfl⟩ := (assignment_gives_iff closed).mpr assigns
        have whole : orElse (do return Stmt.assign (← assignment)) (do return .expr (← expression))
            cursor = .ok (.assign assigned) after := orElse_ok_iff.mpr (Or.inl (by simp [read]))
        exact ⟨after, by simp [clause, named, whole], rfl⟩
    | @expr value _ _ reads noAssign =>
        have leaf : cursor.peek.kind.startsLeaf = true := here ▸ reads.startsLeaf
        obtain ⟨after, read, rfl⟩ := (expression_gives_iff closed).mpr reads
        have whole : orElse (do return Stmt.assign (← assignment)) (do return .expr (← expression))
            cursor = .ok (.expr value) after := by
          refine orElse_ok_iff.mpr (Or.inr ⟨?_, by simp [read]⟩)
          -- No assignment can be read where no assignment operator follows the expression.
          intro other stopped ran
          simp at ran
          obtain ⟨assigned, assigning, _⟩ := ran
          have assigns := (assignment_gives_iff closed).mp ⟨stopped, assigning, rfl⟩
          obtain ⟨op, found⟩ := assignOp?_of_assigns closed assigns reads
          simp [noAssign] at found
        refine ⟨after, ?_, rfl⟩
        simp only [clause, bind_ok_iff, peek_ok_iff]
        refine ⟨_, _, ⟨rfl, rfl⟩, ?_⟩
        -- An expression starts with neither a semicolon nor a keyword.
        rw [if_neg, if_neg, whole]
        · intro declares
          have word : cursor.peek.kind = .keyword .var_ ∨ cursor.peek.kind = .keyword .globalvar_ := by
            simpa using (Bool.and_eq_true_iff.mp declares).2
          rcases word with word | word <;> simp [word, TokenKind.startsLeaf] at leaf
        · intro empty
          simp [empty, TokenKind.startsLeaf, Symbol.unaryOp?] at leaf

theorem separator_gives_iff (closed : Closed cursor.rest) :
    Gives separator cursor () rest ↔ Divides cursor.rest rest := by
  have shape := skipEnds_eq_cons closed
  constructor
  · rintro ⟨after, ran, rfl⟩
    simp [separator] at ran
    obtain ⟨found, rfl⟩ := ran
    rw [rest_skipLineEnds]
    exact .semicolon shape found
  · rintro @⟨semicolon, _, later, shaped, found⟩
    obtain ⟨rfl, rfl⟩ : semicolon = cursor.skipLineEnds.peek ∧
        later = cursor.skipLineEnds.advance.rest := by simpa [shape] using shaped.symm
    exact ⟨_, by simp [separator, found], rest_skipLineEnds _⟩

theorem forTest_gives_iff {test : Option Expr} (closed : Closed cursor.rest) :
    Gives forTest cursor test rest ↔ Tests test cursor.rest rest := by
  have here := kind_peek closed
  constructor
  · rintro ⟨after, ran, rfl⟩
    simp only [forTest, bind_ok_iff, peek_ok_iff] at ran
    obtain ⟨_, _, ⟨rfl, rfl⟩, ran⟩ := ran
    split_ifs at ran with empty
    · simp at ran
      obtain ⟨rfl, rfl⟩ := ran
      exact .none (here ▸ empty)
    · simp at ran
      obtain ⟨value, read, rfl⟩ := ran
      exact .some ((expression_gives_iff closed).mp ⟨after, read, rfl⟩)
  · intro tests
    cases tests with
    | none empty => exact ⟨cursor, by simp [forTest, here, empty], rfl⟩
    | some reads =>
        have notEmpty : cursor.peek.kind ≠ .symbol .semicolon := by
          intro empty
          have leaf := reads.startsLeaf
          simp [← here, empty, TokenKind.startsLeaf, Symbol.unaryOp?] at leaf
        obtain ⟨after, read, rfl⟩ := (expression_gives_iff closed).mpr reads
        exact ⟨after, by simp [forTest, notEmpty, read], rfl⟩

theorem forUpdate_gives_iff {update : Stmt} (closed : Closed cursor.rest)
    (bare : (headKind rest).assignOp? = none) :
    Gives forUpdate cursor update rest ↔ Updates update cursor.rest rest := by
  have here := kind_peek closed
  constructor
  · rintro ⟨after, ran, rfl⟩
    simp only [forUpdate, bind_ok_iff, peek_ok_iff] at ran
    obtain ⟨_, _, ⟨rfl, rfl⟩, ran⟩ := ran
    split_ifs at ran with empty
    · simp at ran
      obtain ⟨rfl, rfl⟩ := ran
      exact .none (here ▸ empty)
    · exact .clause ((clause_gives_iff closed bare).mp ⟨after, ran, rfl⟩)
  · intro updates
    cases updates with
    | none empty => exact ⟨cursor, by simp [forUpdate, here, empty], rfl⟩
    | clause clauses =>
        have notEmpty : cursor.peek.kind ≠ .symbol .rightParen := here ▸ clauses.headKind_ne rfl
        obtain ⟨after, read, rfl⟩ := (clause_gives_iff closed bare).mpr clauses
        exact ⟨after, by simp [forUpdate, notEmpty, read], rfl⟩

theorem returned_gives_iff {value : Option Expr} (closed : Closed cursor.rest) :
    Gives returned cursor value rest ↔ Returns value cursor.rest rest := by
  constructor
  · rintro ⟨after, ran, rfl⟩
    unfold returned at ran
    split at ran
    next _ stopped ended =>
      cases ran
      exact .none ((terminator_gives_iff closed).mp ⟨after, ended, rfl⟩)
    next =>
      simp at ran
      obtain ⟨value, middle, read, ⟨_, ended⟩, rfl⟩ := ran
      have reads := (expression_gives_iff closed).mp ⟨middle, read, rfl⟩
      exact .some reads ((terminator_gives_iff (reads.passes.closed closed)).mp ⟨after, ended, rfl⟩)
  · intro returns
    cases returns with
    | none ends =>
        obtain ⟨after, ended, rfl⟩ := (terminator_gives_iff closed).mpr ends
        exact ⟨after, by simp [returned, ended], rfl⟩
    | some reads ends =>
        obtain ⟨middle, read, rfl⟩ := (expression_gives_iff closed).mpr reads
        obtain ⟨after, ended, rfl⟩ :=
          (terminator_gives_iff (reads.passes.closed closed)).mpr ends
        refine ⟨after, ?_, rfl⟩
        unfold returned
        split
        next stopped early =>
          have leaf := reads.startsLeaf
          have earlyEnds := (terminator_gives_iff closed).mp ⟨_, early, rfl⟩
          rw [earlyEnds.startsLeaf_eq_false] at leaf
          simp at leaf
        next => simp [read, ended]

theorem optionalTerminator_gives_iff (closed : Closed cursor.rest) :
    Gives optionalTerminator cursor () rest ↔ MayEnd cursor.rest rest := by
  have here := kind_peek closed
  constructor
  · rintro ⟨after, ran, rfl⟩
    simp only [optionalTerminator, bind_ok_iff, peek_ok_iff] at ran
    obtain ⟨_, _, ⟨rfl, rfl⟩, ran⟩ := ran
    split_ifs at ran with ahead
    · exact .ends ((terminator_gives_iff closed).mp ⟨after, ran, rfl⟩)
    · simp at ran
      subst ran
      simp [here] at ahead
      exact .bare ahead.1 ahead.2
  · intro mayEnd
    cases mayEnd with
    | ends ends =>
        rcases ends.headKind_cases with kind | kind | kind
        · obtain ⟨after, ended, rfl⟩ := (terminator_gives_iff closed).mpr ends
          exact ⟨after, by simp [optionalTerminator, here, kind, ended], rfl⟩
        · obtain ⟨after, ended, rfl⟩ := (terminator_gives_iff closed).mpr ends
          exact ⟨after, by simp [optionalTerminator, here, kind, ended], rfl⟩
        · exact ⟨cursor, by simp [optionalTerminator, here, kind], (ends.eq_of_finish kind).symm⟩
    | bare noSemicolon noBreak =>
        exact ⟨cursor, by simp [optionalTerminator, here, noSemicolon, noBreak], rfl⟩

theorem loopTail_ok_iff {kind : LoopKind} {test : Expr} {after : Cursor} :
    loopTail cursor = .ok (kind, test) after ↔
      ∃ word, cursor.skipLineEnds.peek.kind = .keyword word ∧ word.loopKind? = some kind ∧
      ∃ middle, parenthesized cursor.skipLineEnds.advance = .ok test middle ∧
        optionalTerminator middle = .ok () after := by
  simp only [loopTail, bind_ok_iff, skipLineEnds_ok_iff, next_ok_iff]
  constructor
  · rintro ⟨_, _, rfl, _, _, ⟨rfl, rfl⟩, ran⟩
    cases ahead : cursor.skipLineEnds.peek.kind with
    | keyword word =>
        cases word with
        | while_ | until_ =>
            simp [ahead] at ran
            obtain ⟨middle, read, ⟨_, ended⟩, rfl⟩ := ran
            exact ⟨_, rfl, rfl, middle, read, ended⟩
        | _ => simp [ahead] at ran
    | _ => simp [ahead] at ran
  · rintro ⟨word, ahead, loops, middle, read, ended⟩
    refine ⟨(), _, rfl, _, _, ⟨rfl, rfl⟩, ?_⟩
    cases word with
    | while_ | until_ =>
        cases loops
        simp [ahead, read, ended]
    | _ => simp [Keyword.loopKind?] at loops

theorem loopTail_gives_iff {kind : LoopKind} {test : Expr} (closed : Closed cursor.rest) :
    Gives loopTail cursor (kind, test) rest ↔ Tails kind test cursor.rest rest := by
  have shape := skipEnds_eq_cons closed
  have wordClosed := closed_skipLineEnds closed
  constructor
  · rintro ⟨after, ran, rfl⟩
    obtain ⟨word, found, loops, middle, read, ended⟩ := loopTail_ok_iff.mp ran
    have testClosed := closed_advance wordClosed (by simp [found])
    have reads := (parenthesized_gives_iff testClosed).mp ⟨middle, read, rfl⟩
    exact .intro shape found loops reads
      ((optionalTerminator_gives_iff (reads.passes.closed testClosed)).mp ⟨after, ended, rfl⟩)
  · rintro @⟨token, word, _, _, _, later, middle, _, shaped, found, loops, reads, ends⟩
    obtain ⟨rfl, rfl⟩ : token = cursor.skipLineEnds.peek ∧
        later = cursor.skipLineEnds.advance.rest := by simpa [shape] using shaped.symm
    have testClosed := closed_advance wordClosed (by simp [found])
    obtain ⟨middle, read, rfl⟩ := (parenthesized_gives_iff testClosed).mpr reads
    obtain ⟨after, ended, rfl⟩ :=
      (optionalTerminator_gives_iff (reads.passes.closed testClosed)).mpr ends
    exact ⟨after, loopTail_ok_iff.mpr ⟨word, found, loops, middle, read, ended⟩, rfl⟩

end Parser

end GameScript
