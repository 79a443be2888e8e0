import GameScript.Parser.Script
import GameScript.Proofs.Spelling
import GameScript.Proofs.Statement

/-!
The grammar of scripts: doc comments, arguments and statements up to the closing token. The parser
accepts exactly the scripts of the grammar.
-/

namespace GameScript

inductive Docs : List String → List Token → List Token → Prop where
  | done {tokens : List Token} (noDoc : headKind tokens ≠ .docComment) : Docs [] tokens tokens
  | line {token : Token} {lines : List String} {tokens rest : List Token}
      (found : token.kind = .docComment) (others : Docs lines (skipEnds tokens) rest) :
      Docs (token.lit :: lines) (token :: tokens) rest

inductive Passed : Passing → List Token → List Token → Prop where
  | required {tokens rest : List Token} (ends : Ends tokens rest) : Passed .required tokens rest
  | optional {question : Token} {tokens rest : List Token}
      (found : question.kind = .symbol .question) (ends : Ends tokens rest) :
      Passed .optional (question :: tokens) rest
  | defaulted {equals : Token} {value : Expr} {tokens middle rest : List Token}
      (found : equals.kind = .symbol .assign)
      (reads : Reads (.binary Precedence.pipe value) tokens middle) (ends : Ends middle rest) :
      Passed (.defaulted (some value)) (equals :: tokens) rest

inductive Takes : Argument → List Token → List Token → Prop where
  | one {word name : Token} {passing : Passing} {tokens rest : List Token}
      (found : word.kind = .keyword .argument_) (named : name.kind = .ident)
      (passed : Passed passing tokens rest) :
      Takes ⟨name.lit, passing⟩ (word :: name :: tokens) rest
  | variadic {word dots name : Token} {tokens rest : List Token}
      (found : word.kind = .keyword .argument_) (ellipsis : dots.kind = .symbol .ellipsis)
      (named : name.kind = .ident) (ends : Ends tokens rest) :
      Takes ⟨name.lit, .variadic⟩ (word :: dots :: name :: tokens) rest

inductive TakesAll : List Argument → List Token → List Token → Prop where
  | done {tokens : List Token} (noArgument : headKind tokens ≠ .keyword .argument_) :
      TakesAll [] tokens tokens
  | last {name : String} {tokens rest : List Token} (takes : Takes ⟨name, .variadic⟩ tokens rest) :
      TakesAll [⟨name, .variadic⟩] tokens (skipEnds rest)
  | more {first : Argument} {others : List Argument} {tokens middle rest : List Token}
      (takes : Takes first tokens middle) (goesOn : first.passing ≠ .variadic)
      (othersTake : TakesAll others (skipEnds middle) rest) :
      TakesAll (first :: others) tokens rest

inductive Lists : List Stmt → List Token → Prop where
  | finish {tokens : List Token} (closes : headKind (skipEnds tokens) = .finish) : Lists [] tokens
  | docs {lines : List String} {others : List Stmt} {tokens rest : List Token}
      (found : headKind (skipEnds tokens) = .docComment) (docs : Docs lines (skipEnds tokens) rest)
      (othersList : Lists others rest) : Lists (.doc lines :: others) tokens
  | statement {first : Stmt} {others : List Stmt} {tokens rest : List Token}
      (noDoc : headKind (skipEnds tokens) ≠ .docComment)
      (forms : Forms (.statement first) (skipEnds tokens) rest) (othersList : Lists others rest) :
      Lists (first :: others) tokens

def ReadsScript (script : Script) (tokens : List Token) : Prop :=
  ∃ middle rest, Docs script.doc (skipEnds tokens) middle ∧ TakesAll script.args middle rest ∧
    Lists script.body rest

def afterStart (tokens : List Token) : List Token :=
  if headKind tokens = .start then tokens.tail else tokens

theorem Closed.afterStart {tokens : List Token} (closed : Closed tokens) :
    Closed (afterStart tokens) := by
  unfold GameScript.afterStart
  split_ifs with start
  · obtain ⟨token, rest, rfl⟩ := closed.exists_cons
    exact closed.tail (by rw [show token.kind = .start from start]; simp)
  · exact closed

theorem Docs.passes {lines : List String} {tokens rest : List Token} (docs : Docs lines tokens rest) :
    Passes tokens rest := by
  induction docs with
  | done => exact Passes.refl _
  | line found _ others => exact ((Passes.skipEnds _).trans others).cons (by simp [found])

theorem Docs.length_lt {lines : List String} {tokens rest : List Token} (docs : Docs lines tokens rest)
    (found : headKind tokens = .docComment) : rest.length < tokens.length := by
  cases docs with
  | done noDoc => exact absurd found noDoc
  | line _ others => exact ((Passes.skipEnds _).trans others.passes).length_lt

theorem Passed.passes {passing : Passing} {tokens rest : List Token}
    (passed : Passed passing tokens rest) : Passes tokens rest := by
  cases passed with
  | required ends => exact ends.passes
  | optional found ends => exact ends.passes.cons (by simp [found])
  | defaulted found reads ends => exact (reads.passes.trans ends.passes).cons (by simp [found])

theorem Takes.passes {argument : Argument} {tokens rest : List Token}
    (takes : Takes argument tokens rest) : Passes tokens rest := by
  cases takes with
  | one found named passed => exact (passed.passes.cons (by simp [named])).cons (by simp [found])
  | variadic found ellipsis named ends =>
      exact ((ends.passes.cons (by simp [named])).cons (by simp [ellipsis])).cons (by simp [found])

theorem Takes.headKind_eq {argument : Argument} {tokens rest : List Token}
    (takes : Takes argument tokens rest) : headKind tokens = .keyword .argument_ := by
  cases takes with
  | one found | variadic found => exact found

theorem Takes.length_lt {argument : Argument} {tokens rest : List Token}
    (takes : Takes argument tokens rest) : rest.length < tokens.length := by
  cases takes with
  | one _ _ passed => exact Nat.lt_succ_of_lt passed.passes.length_lt
  | variadic _ _ _ ends => exact Nat.lt_succ_of_lt (Nat.lt_succ_of_lt ends.passes.length_lt)

theorem TakesAll.passes {args : List Argument} {tokens rest : List Token}
    (takesAll : TakesAll args tokens rest) : Passes tokens rest := by
  induction takesAll with
  | done => exact Passes.refl _
  | last takes => exact takes.passes.trans (Passes.skipEnds _)
  | more takes _ _ others => exact takes.passes.trans ((Passes.skipEnds _).trans others)

namespace Parser

open Cursor

variable {cursor after : Cursor} {rest : List Token}

theorem docLinesAt_docs {fuel : Nat} (closed : Closed cursor.rest)
    (enough : cursor.rest.length ≤ fuel) :
    Docs (docLinesAt fuel cursor).1 cursor.rest (docLinesAt fuel cursor).2.rest := by
  induction fuel generalizing cursor with
  | zero => exact absurd (length_advance closed) (by omega)
  | succ fuel ih =>
      unfold docLinesAt
      split_ifs with found
      · have advanced := length_advance closed
        have skipped := length_skipLineEnds cursor.advance
        have innerClosed := closed_advance closed (by simp [found])
        have others := ih (closed_skipLineEnds innerClosed) (by omega)
        rw [rest_skipLineEnds] at others
        rw [rest_eq_cons closed]
        exact .line found others
      · exact .done (by rwa [← kind_peek closed])

theorem Docs.unique {lines others : List String} {tokens rest more : List Token}
    (first : Docs lines tokens rest) (second : Docs others tokens more) :
    lines = others ∧ rest = more := by
  induction first generalizing others with
  | done noDoc =>
      cases second with
      | done => exact ⟨rfl, rfl⟩
      | line found => exact absurd found noDoc
  | line found _ ih =>
      cases second with
      | done noDoc => exact absurd found noDoc
      | line _ docs =>
          obtain ⟨rfl, rfl⟩ := ih docs
          exact ⟨rfl, rfl⟩

theorem docLines_gives_iff {lines : List String} (closed : Closed cursor.rest) :
    Gives docLines cursor lines rest ↔ Docs lines cursor.rest rest := by
  have docs := docLinesAt_docs closed (Nat.le_refl _)
  constructor
  · rintro ⟨after, ran, rfl⟩
    cases ran
    exact docs
  · intro wanted
    obtain ⟨rfl, rfl⟩ := Docs.unique docs wanted
    exact ⟨_, rfl, rfl⟩

theorem passing_gives_iff {how : Passing} (closed : Closed cursor.rest) :
    (∃ middle after, passing cursor = .ok how middle ∧ terminator middle = .ok () after ∧
        after.rest = rest) ↔
      Passed how cursor.rest rest := by
  have here := kind_peek closed
  constructor
  · rintro ⟨middle, after, ran, ended, rfl⟩
    simp only [passing, bind_ok_iff, peek_ok_iff] at ran
    obtain ⟨_, _, ⟨rfl, rfl⟩, ran⟩ := ran
    have otherwise (ran : (pure Passing.required : Parser Passing) cursor = .ok how middle) :
        Passed how cursor.rest after.rest := by
      simp at ran
      obtain ⟨rfl, rfl⟩ := ran
      exact .required ((terminator_gives_iff closed).mp ⟨after, ended, rfl⟩)
    cases kind : cursor.peek.kind with
    | symbol sign =>
        have innerClosed := closed_advance closed (by simp [kind])
        cases sign with
        | question =>
            simp [kind] at ran
            obtain ⟨rfl, rfl⟩ := ran
            rw [rest_eq_cons closed]
            exact .optional kind ((terminator_gives_iff innerClosed).mp ⟨after, ended, rfl⟩)
        | assign =>
            simp [kind] at ran
            obtain ⟨value, read, rfl⟩ := ran
            have reads := (expression_gives_iff innerClosed).mp ⟨middle, read, rfl⟩
            have ends := (terminator_gives_iff (reads.passes.closed innerClosed)).mp
              ⟨after, ended, rfl⟩
            rw [rest_eq_cons closed]
            exact .defaulted kind reads ends
        | _ =>
            simp only [kind] at ran
            exact otherwise ran
    | _ =>
        simp only [kind] at ran
        exact otherwise ran
  · intro passed
    generalize whole : cursor.rest = tokens at passed
    cases passed with
    | required ends =>
        subst whole
        obtain ⟨after, ended, rfl⟩ := (terminator_gives_iff closed).mpr ends
        refine ⟨cursor, after, ?_, ended, rfl⟩
        rcases ends.headKind_cases with kind | kind | kind <;> simp [passing, here, kind]
    | optional found ends =>
        have token := peek_of_rest whole
        have innerClosed := closed_advance closed (by simp [token, found])
        rw [← rest_advance whole] at ends
        obtain ⟨after, ended, rfl⟩ := (terminator_gives_iff innerClosed).mpr ends
        exact ⟨cursor.advance, after, by simp [passing, token, found], ended, rfl⟩
    | defaulted found reads ends =>
        have token := peek_of_rest whole
        have innerClosed := closed_advance closed (by simp [token, found])
        rw [← rest_advance whole] at reads
        obtain ⟨middle, read, rfl⟩ := (expression_gives_iff innerClosed).mpr reads
        obtain ⟨after, ended, rfl⟩ :=
          (terminator_gives_iff (reads.passes.closed innerClosed)).mpr ends
        exact ⟨middle, after, by simp [passing, token, found, read], ended, rfl⟩

theorem argument_ok_iff {declared : Argument} :
    argument cursor = .ok declared after ↔
      cursor.peek.kind = .keyword .argument_ ∧
      ((cursor.advance.peek.kind = .symbol .ellipsis ∧ cursor.advance.advance.peek.kind = .ident ∧
          terminator cursor.advance.advance.advance = .ok () after ∧
          ⟨cursor.advance.advance.peek.lit, .variadic⟩ = declared) ∨
        (cursor.advance.peek.kind = .ident ∧
          ∃ how middle, passing cursor.advance.advance = .ok how middle ∧
            terminator middle = .ok () after ∧ ⟨cursor.advance.peek.lit, how⟩ = declared)) := by
  simp only [argument, atomic_ok_iff, bind_ok_iff, expect_ok_iff, peek_ok_iff]
  constructor
  · rintro ⟨_, _, ⟨found, rfl, rfl⟩, _, _, ⟨rfl, rfl⟩, ran⟩
    refine ⟨found, ?_⟩
    split_ifs at ran with dots
    · simp at ran
      obtain ⟨named, ⟨_, ended⟩, rfl⟩ := ran
      exact Or.inl ⟨dots, named, ended, rfl⟩
    · simp at ran
      obtain ⟨named, how, middle, passed, ⟨_, ended⟩, rfl⟩ := ran
      exact Or.inr ⟨named, how, middle, passed, ended, rfl⟩
  · rintro ⟨found, ⟨dots, named, ended, rfl⟩ | ⟨named, how, middle, passed, ended, rfl⟩⟩
    · exact ⟨_, _, ⟨found, rfl, rfl⟩, _, _, ⟨rfl, rfl⟩, by simp [dots, named, ended]⟩
    · exact ⟨_, _, ⟨found, rfl, rfl⟩, _, _, ⟨rfl, rfl⟩, by simp [named, passed, ended]⟩

theorem argument_gives_iff {declared : Argument} (closed : Closed cursor.rest) :
    Gives argument cursor declared rest ↔ Takes declared cursor.rest rest := by
  constructor
  · rintro ⟨after, ran, rfl⟩
    obtain ⟨found, form⟩ := argument_ok_iff.mp ran
    have nameClosed := closed_advance closed (by simp [found])
    rw [rest_eq_cons closed, rest_eq_cons nameClosed]
    rcases form with ⟨dots, named, ended, rfl⟩ | ⟨named, how, middle, passed, ended, rfl⟩
    · have wordClosed := closed_advance nameClosed (by simp [dots])
      have innerClosed := closed_advance wordClosed (by simp [named])
      rw [rest_eq_cons wordClosed]
      exact .variadic found dots named ((terminator_gives_iff innerClosed).mp ⟨after, ended, rfl⟩)
    · have innerClosed := closed_advance nameClosed (by simp [named])
      exact .one found named ((passing_gives_iff innerClosed).mp ⟨middle, after, passed, ended, rfl⟩)
  · intro takes
    rw [rest_eq_cons closed] at takes
    generalize shape : cursor.advance.rest = tail at takes
    cases takes with
    | one found named passed =>
        have second := peek_of_rest shape
        have nameClosed := closed_advance closed (by simp [found])
        have innerClosed := closed_advance nameClosed (by simp [second, named])
        rw [← rest_advance shape] at passed
        obtain ⟨middle, after, ran, ended, rfl⟩ := (passing_gives_iff innerClosed).mpr passed
        refine ⟨after, argument_ok_iff.mpr ⟨found, Or.inr ⟨?_, _, middle, ran, ended, ?_⟩⟩, rfl⟩
        · rw [second, named]
        · rw [second]
    | variadic found ellipsis named ends =>
        have second := peek_of_rest shape
        have later := rest_advance shape
        have third := peek_of_rest later
        have nameClosed := closed_advance closed (by simp [found])
        have wordClosed := closed_advance nameClosed (by simp [second, ellipsis])
        have innerClosed := closed_advance wordClosed (by simp [third, named])
        rw [← rest_advance later] at ends
        obtain ⟨after, ended, rfl⟩ := (terminator_gives_iff innerClosed).mpr ends
        refine ⟨after, argument_ok_iff.mpr ⟨found, Or.inl ⟨?_, ?_, ended, ?_⟩⟩, rfl⟩
        · rw [second, ellipsis]
        · rw [third, named]
        · rw [third]

theorem argumentsFrom_gives_iff {args : List Argument} {fuel : Nat} (closed : Closed cursor.rest)
    (enough : cursor.rest.length < fuel) :
    Gives (argumentsFrom fuel) cursor args rest ↔ TakesAll args cursor.rest rest := by
  induction fuel generalizing cursor args with
  | zero => omega
  | succ fuel ih =>
      have here := kind_peek closed
      constructor
      · rintro ⟨after, ran, rfl⟩
        simp only [argumentsFrom, bind_ok_iff, peek_ok_iff] at ran
        obtain ⟨_, _, ⟨rfl, rfl⟩, ran⟩ := ran
        split_ifs at ran with found
        · simp only [bind_ok_iff, skipLineEnds_ok_iff] at ran
          obtain ⟨first, middle, firstRan, _, _, rfl, ran⟩ := ran
          have takes := (argument_gives_iff closed).mp ⟨middle, firstRan, rfl⟩
          have middleClosed := takes.passes.closed closed
          have lengths := takes.length_lt
          have skipped := length_skipLineEnds middle
          obtain ⟨name, passing⟩ := first
          -- Nothing is read behind a variadic argument.
          cases passing with
          | variadic =>
              simp at ran
              obtain ⟨rfl, rfl⟩ := ran
              rw [rest_skipLineEnds]
              exact .last takes
          | _ =>
              simp at ran
              obtain ⟨others, othersRan, rfl⟩ := ran
              have othersTake := (ih (closed_skipLineEnds middleClosed) (by omega)).mp
                ⟨after, othersRan, rfl⟩
              rw [rest_skipLineEnds] at othersTake
              exact .more takes (by simp) othersTake
        · simp at ran
          obtain ⟨rfl, rfl⟩ := ran
          exact .done (here ▸ found)
      · intro takesAll
        cases takesAll with
        | done noArgument => exact ⟨cursor, by simp [argumentsFrom, here, noArgument], rfl⟩
        | last takes =>
            obtain ⟨middle, firstRan, rfl⟩ := (argument_gives_iff closed).mpr takes
            have word := takes.headKind_eq
            refine ⟨middle.skipLineEnds, ?_, rest_skipLineEnds middle⟩
            simp [argumentsFrom, here, word, firstRan]
        | @more first others _ _ _ takes goesOn othersTake =>
            obtain ⟨middle, firstRan, rfl⟩ := (argument_gives_iff closed).mpr takes
            have middleClosed := takes.passes.closed closed
            have lengths := takes.length_lt
            have skipped := length_skipLineEnds middle
            have word := takes.headKind_eq
            rw [← rest_skipLineEnds] at othersTake
            obtain ⟨after, othersRan, rfl⟩ :=
              (ih (closed_skipLineEnds middleClosed) (by omega)).mpr othersTake
            refine ⟨after, ?_, rfl⟩
            obtain ⟨name, passing⟩ := first
            cases passing with
            | variadic => exact absurd rfl goesOn
            | _ => simp [argumentsFrom, here, word, firstRan, othersRan]

theorem argumentList_gives_iff {args : List Argument} (closed : Closed cursor.rest) :
    Gives argumentList cursor args rest ↔ TakesAll args cursor.rest rest := by
  rw [← argumentsFrom_gives_iff closed (Nat.lt_succ_self _)]
  constructor
  · rintro ⟨after, ran, rfl⟩
    exact ⟨after, atomic_ok_iff.mp ran, rfl⟩
  · rintro ⟨after, ran, rfl⟩
    exact ⟨after, atomic_ok_iff.mpr ran, rfl⟩

end Parser

namespace NotingParser

open Cursor
open GameScript.Parser (docLines argumentList docLines_gives_iff argumentList_gives_iff)

variable {cursor after : Cursor}

theorem untilEnd_ok_iff {fuel : Nat} {body : List Stmt} :
    (untilEnd (fuel + 1) cursor).2 = .ok body after ↔
      (cursor.skipLineEnds.peek.kind = .finish ∧ body = [] ∧ cursor.skipLineEnds = after) ∨
      (cursor.skipLineEnds.peek.kind = .docComment ∧
        ∃ lines middle, docLines cursor.skipLineEnds = .ok lines middle ∧
        ∃ others, (untilEnd fuel middle).2 = .ok others after ∧ .doc lines :: others = body) ∨
      (cursor.skipLineEnds.peek.kind ≠ .finish ∧ cursor.skipLineEnds.peek.kind ≠ .docComment ∧
        ∃ first middle, (statement cursor.skipLineEnds).2 = .ok first middle ∧
        ∃ others, (untilEnd fuel middle).2 = .ok others after ∧ first :: others = body) := by
  simp only [untilEnd, bind_ok_iff, lift_snd, Parser.skipLineEnds_ok_iff, Parser.peek_ok_iff]
  constructor
  · rintro ⟨_, _, rfl, _, _, ⟨rfl, rfl⟩, ran⟩
    cases kind : cursor.skipLineEnds.peek.kind with
    | finish =>
        simp [kind] at ran
        obtain ⟨rfl, rfl⟩ := ran
        exact Or.inl ⟨rfl, rfl, rfl⟩
    | docComment =>
        simp [kind] at ran
        exact Or.inr (Or.inl ⟨rfl, ran⟩)
    | _ =>
        simp [kind] at ran
        exact Or.inr (Or.inr ⟨by simp, by simp, ran⟩)
  · intro form
    refine ⟨(), _, rfl, _, _, ⟨rfl, rfl⟩, ?_⟩
    rcases form with ⟨closes, rfl, rfl⟩ | ⟨found, ran⟩ | ⟨notClosed, noDoc, ran⟩
    · simp [closes]
    · simpa [found] using ran
    · cases kind : cursor.skipLineEnds.peek.kind with
      | finish => exact absurd kind notClosed
      | docComment => exact absurd kind noDoc
      | _ => simpa using ran

theorem untilEnd_iff {fuel : Nat} {body : List Stmt} (closed : Closed cursor.rest)
    (enough : cursor.rest.length < fuel) :
    (∃ after, (untilEnd fuel cursor).2 = .ok body after) ↔ Lists body cursor.rest := by
  induction fuel generalizing cursor body with
  | zero => omega
  | succ fuel ih =>
      have startClosed := closed_skipLineEnds closed
      have startShort := length_skipLineEnds cursor
      have here := kind_skipLineEnds closed
      have startRest := rest_skipLineEnds cursor
      constructor
      · rintro ⟨after, ran⟩
        rcases untilEnd_ok_iff.mp ran with ⟨closes, rfl, rfl⟩ |
          ⟨found, lines, middle, linesRan, others, othersRan, rfl⟩ |
          ⟨_, noDoc, first, middle, firstRan, others, othersRan, rfl⟩
        · exact .finish (here ▸ closes)
        · have docs := (docLines_gives_iff startClosed).mp ⟨middle, linesRan, rfl⟩
          have shorter := docs.length_lt (kind_peek startClosed ▸ found)
          have othersList := (ih (docs.passes.closed startClosed) (by omega)).mp ⟨after, othersRan⟩
          rw [startRest] at docs
          exact .docs (here ▸ found) docs othersList
        · have forms := (statement_gives_iff startClosed).mp ⟨middle, firstRan, rfl⟩
          have shorter := forms.length_lt
          have othersList := (ih (forms.passes.closed startClosed) (by omega)).mp ⟨after, othersRan⟩
          rw [startRest] at forms
          exact .statement (here ▸ noDoc) forms othersList
      · intro lists
        cases lists with
        | finish closes => exact ⟨_, untilEnd_ok_iff.mpr (Or.inl ⟨here ▸ closes, rfl, rfl⟩)⟩
        | docs found docs othersList =>
            rw [← startRest] at docs
            have shorter := docs.length_lt (startRest ▸ found)
            obtain ⟨middle, linesRan, rfl⟩ := (docLines_gives_iff startClosed).mpr docs
            obtain ⟨after, othersRan⟩ :=
              (ih (docs.passes.closed startClosed) (by omega)).mpr othersList
            exact ⟨after, untilEnd_ok_iff.mpr (Or.inr (Or.inl
              ⟨here ▸ found, _, middle, linesRan, _, othersRan, rfl⟩))⟩
        | statement noDoc forms othersList =>
            rw [← startRest] at forms
            have shorter := forms.length_lt
            obtain ⟨middle, firstRan, rfl⟩ := (statement_gives_iff startClosed).mpr forms
            obtain ⟨after, othersRan⟩ :=
              (ih (forms.passes.closed startClosed) (by omega)).mpr othersList
            have notClosed : cursor.skipLineEnds.peek.kind ≠ .finish := by
              rw [here, ← skipEnds_idem, ← startRest]
              exact forms.headKind_skipEnds_ne rfl (by simp)
            exact ⟨after, untilEnd_ok_iff.mpr (Or.inr (Or.inr
              ⟨notClosed, here ▸ noDoc, _, middle, firstRan, _, othersRan, rfl⟩))⟩

theorem statements_iff {body : List Stmt} (closed : Closed cursor.rest) :
    (∃ after, (statements cursor).2 = .ok body after) ↔ Lists body cursor.rest := by
  rw [← untilEnd_iff closed (Nat.lt_succ_self _)]
  constructor
  · rintro ⟨after, ran⟩
    exact ⟨after, atomic_ok_iff.mp ran⟩
  · rintro ⟨after, ran⟩
    exact ⟨after, atomic_ok_iff.mpr ran⟩

theorem skipStart_ok_iff {value : Unit} :
    skipStart cursor = .ok value after ↔
      (if cursor.peek.kind = .start then cursor.advance else cursor) = after := by
  simp only [skipStart, Parser.bind_ok_iff, Parser.peek_ok_iff]
  constructor
  · rintro ⟨_, _, ⟨rfl, rfl⟩, ran⟩
    split_ifs at ran ⊢ <;> simpa using ran
  · intro same
    refine ⟨_, _, ⟨rfl, rfl⟩, ?_⟩
    split_ifs at same ⊢ <;> simpa using same

theorem script_iff {read : Script} (whole : Closed cursor.rest) :
    (∃ after, (script cursor).2 = .ok read after) ↔ ReadsScript read (afterStart cursor.rest) := by
  obtain ⟨start, started, startRest⟩ : ∃ start,
      (if cursor.peek.kind = .start then cursor.advance else cursor) = start ∧
        start.rest = afterStart cursor.rest := by
    refine ⟨_, rfl, ?_⟩
    rw [afterStart, ← kind_peek whole]
    split_ifs
    · conv => rhs; rw [rest_eq_cons whole]
      rfl
    · rfl
  have closed : Closed start.rest := by
    rw [startRest]
    exact whole.afterStart
  have innerClosed := closed_skipLineEnds closed
  rw [← startRest]
  simp only [script, atomic_ok_iff, bind_ok_iff, lift_snd, skipStart_ok_iff, started,
    Parser.skipLineEnds_ok_iff, pure_ok_iff]
  constructor
  · rintro ⟨_, _, _, rfl, _, _, rfl, doc, middle, docRan, args, later, argsRan, body, after, bodyRan,
      rfl, rfl⟩
    have docs := (docLines_gives_iff innerClosed).mp ⟨middle, docRan, rfl⟩
    have middleClosed := docs.passes.closed innerClosed
    have takesAll := (argumentList_gives_iff middleClosed).mp ⟨later, argsRan, rfl⟩
    have lists := (statements_iff (takesAll.passes.closed middleClosed)).mp ⟨after, bodyRan⟩
    rw [rest_skipLineEnds] at docs
    exact ⟨_, _, docs, takesAll, lists⟩
  · obtain ⟨doc, args, body⟩ := read
    rintro ⟨_, _, docs, takesAll, lists⟩
    rw [← rest_skipLineEnds] at docs
    obtain ⟨middle, docRan, rfl⟩ := (docLines_gives_iff innerClosed).mpr docs
    have middleClosed := docs.passes.closed innerClosed
    obtain ⟨later, argsRan, rfl⟩ := (argumentList_gives_iff middleClosed).mpr takesAll
    obtain ⟨after, bodyRan⟩ := (statements_iff (takesAll.passes.closed middleClosed)).mpr lists
    exact ⟨after, (), _, rfl, (), _, rfl, doc, middle, docRan, args, later, argsRan, body, after,
      bodyRan, rfl, rfl⟩

end NotingParser

theorem parseTokens_iff {read : Script} {tokens : List Token} (closed : Closed tokens) :
    (parseTokens tokens).2 = .ok read ↔ ReadsScript read (afterStart tokens) := by
  have accepts : (∃ after, (NotingParser.script ⟨[], tokens, closed.ne_nil⟩).2 = .ok read after) ↔
      ReadsScript read (afterStart tokens) := NotingParser.script_iff closed
  rw [← accepts, parseTokens, Cursor.ofTokens_closed closed]
  obtain ⟨notes, reply⟩ := NotingParser.script ⟨[], tokens, closed.ne_nil⟩
  cases reply <;> simp

/-- A text is accepted if its tokens make a script of the grammar. -/
theorem parse_ok_iff {chars : List Char} {read : Script} :
    parse chars = .ok read ↔
      ∃ tokens, tokenize chars = .ok (Token.first :: tokens) ∧ ReadsScript read tokens := by
  cases scanned : tokenize chars with
  | error reason => simp [parse, scanned, bind, Except.bind]
  | ok tokens =>
      obtain ⟨_, middle, last, rfl, finish⟩ := wellSpelled_tokenize scanned
      have closed : Closed (Token.first :: (middle ++ [last])) :=
        ⟨Token.first :: middle, last, rfl, finish⟩
      have accepts : (parseTokens (Token.first :: (middle ++ [last]))).2 = .ok read ↔
          ReadsScript read (middle ++ [last]) := parseTokens_iff closed
      simpa [parse, scanned, bind, Except.bind] using accepts

end GameScript
