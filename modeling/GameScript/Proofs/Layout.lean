import GameScript.Proofs.StmtRewriting

/-!
The tokens of printed statements. Main statement: before tokens that do not go on with it, the layout
of a statement is read as the statement that it denotes.
-/

namespace GameScript

def optionalMarks : Option Expr → List Mark
  | some value => value.marks
  | none => []

def Assignment.marks (assignment : Assignment) : List Mark :=
  .name assignment.target :: .assignOp assignment.op :: optionalMarks assignment.value

def Declaration.marks (declaration : Declaration) : List Mark :=
  .keyword (if declaration.global then .globalvar_ else .var_) :: .name declaration.name ::
    match declaration.value with
    | some value => .symbol .assign :: value.marks
    | none => []

def LoopKind.word : LoopKind → Keyword
  | .whileLoop | .doWhile => .while_
  | .untilLoop | .doUntil => .until_

namespace Stmt

def lineMarks : Stmt → List Mark
  | assign assignment => assignment.marks
  | expr value => value.marks
  | declare declaration => declaration.marks
  | ret value => .keyword .return_ :: optionalMarks value
  | breakLoop => [.keyword .break_]
  | continueLoop => [.keyword .continue_]
  | exitScript => [.keyword .exit_]
  | _ => []

def Place.marks : Place → List Mark
  | .body => [.lineEnd]
  | _ => []

def Place.close : Place → List Mark
  | .body => []
  | _ => [.lineEnd]

def oneLineMarks (place : Place) (line : Stmt) : List Mark :=
  place.marks ++ (line.lineMarks ++ [.symbol .semicolon, .lineEnd])

def closeMarks (body : Stmt) : List Mark :=
  if body.staysOnLine then [.lineEnd] else []

def docMarks (lines : List String) : List Mark := lines.flatMap fun line => [.doc line, .lineEnd]

def forMarks (init : Stmt) (test : Option Expr) (update : Stmt) : List Mark :=
  .keyword .for_ :: .symbol .leftParen :: (init.lineMarks ++ .symbol .semicolon ::
    (optionalMarks test ++ .symbol .semicolon :: (update.lineMarks ++ [.symbol .rightParen])))

mutual

def layout (dialect : Dialect) (place : Place) : Stmt → List Mark
  | noop => .symbol .semicolon :: place.close
  | block body =>
      .symbol .leftBrace :: .lineEnd :: (layoutAll dialect body ++
        .symbol .rightBrace :: place.close)
  | branch test yes no =>
      place.marks ++ (.keyword .if_ :: ((Expr.paren (test.denoted dialect)).marks ++
        (layout dialect .body yes ++
          if no.isHole then yes.closeMarks
          else .keyword .else_ ::
            if no.isBranch then layout dialect .chained no
            else layout dialect .body no ++ no.closeMarks)))
  | loop kind test body =>
      let head := .keyword kind.word :: (Expr.paren (test.denoted dialect)).marks
      if testsFirst kind then
        place.marks ++ (head ++ (layout dialect .body body ++ body.closeMarks))
      else
        place.marks ++ (.keyword .do_ :: (layout dialect .body body ++
          (head ++ [.symbol .semicolon, .lineEnd])))
  | repeats count body =>
      place.marks ++ (.keyword .repeat_ :: ((Expr.paren (count.denoted dialect)).marks ++
        (layout dialect .body body ++ body.closeMarks)))
  | withTarget target body =>
      place.marks ++ (.keyword .with_ :: ((Expr.paren (target.denoted dialect)).marks ++
        (layout dialect .body body ++ body.closeMarks)))
  | forLoop init test update body =>
      place.marks ++ (forMarks (init.denoted dialect) (test.map (Expr.denoted dialect))
        (update.denoted dialect) ++ (layout dialect .body body ++ body.closeMarks))
  | assign assignment => oneLineMarks place ((assign assignment).denoted dialect)
  | expr value => oneLineMarks place ((expr value).denoted dialect)
  | declare declaration => oneLineMarks place ((declare declaration).denoted dialect)
  | ret value => oneLineMarks place ((ret value).denoted dialect)
  | breakLoop => oneLineMarks place .breakLoop
  | continueLoop => oneLineMarks place .continueLoop
  | exitScript => oneLineMarks place .exitScript
  | doc lines => place.marks ++ docMarks lines
  | hole => []

def layoutAll (dialect : Dialect) : List Stmt → List Mark
  | [] => []
  | first :: others =>
      if first.isNoop then layoutAll dialect others
      else layout dialect .line first ++ layoutAll dialect others

end

end Stmt

/-! Reading the parts. -/

def Parted (rest : List Token) : Prop :=
  headKind rest = .symbol .semicolon ∨ headKind rest = .symbol .rightParen

theorem Parted.fenced {rest : List Token} (parted : Parted rest) (reach : Nat) : Fenced reach rest := by
  rcases parted with kind | kind
  · exact .ofKind reach kind rfl (by simp)
  · exact .ofKind reach kind rfl (by simp)

theorem Parted.assignOp?_eq_none {rest : List Token} (parted : Parted rest) :
    (headKind rest).assignOp? = none := by
  rcases parted with kind | kind <;> rw [kind] <;> rfl

theorem Assignment.WellFormed.assigns {assignment : Assignment} {used rest : List Token}
    (wellFormed : assignment.WellFormed Expr.Canonical) (fit : Fit assignment.marks used)
    (parted : Parted rest) : Assigns assignment (used ++ rest) rest := by
  cases wellFormed with
  | step _ alone =>
      simp only [Assignment.marks, optionalMarks, Fit.cons_iff, Fit.nil_iff] at fit
      obtain ⟨target, _, ⟨named, rfl⟩, ⟨token, _, found, rfl, rfl⟩, rfl⟩ := fit
      exact .step named found alone
  | value _ _ valued canonical =>
      simp only [Assignment.marks, optionalMarks, Fit.cons_iff] at fit
      obtain ⟨target, _, ⟨named, rfl⟩, ⟨token, usedValue, found, valueFit, rfl⟩, rfl⟩ := fit
      have reads := canonical.readsBack usedValue rest valueFit (parted.fenced _)
      rw [← skipEnds_of_startsLeaf reads.startsLeaf] at reads
      exact .value named found valued reads

theorem Declaration.WellFormed.declares {declaration : Declaration} {used rest : List Token}
    (wellFormed : declaration.WellFormed Expr.Canonical) (fit : Fit declaration.marks used)
    (parted : Parted rest) : Declares declaration (used ++ rest) rest := by
  obtain ⟨name, global, value⟩ := declaration
  have word {token : Token} (fits : Mark.Fits (.keyword (if global then .globalvar_ else .var_)) token) :
      token.kind.declares = true ∧ decide (token.kind = .keyword .globalvar_) = global := by
    cases global <;> simp_all [Mark.Fits, Mark.keyword, TokenKind.declares]
  cases value with
  | none =>
      simp only [Declaration.marks, Fit.cons_iff, Fit.nil_iff] at fit
      obtain ⟨first, _, isWord, ⟨second, _, ⟨named, rfl⟩, rfl, rfl⟩, rfl⟩ := fit
      obtain ⟨declares, same⟩ := word isWord
      have noValue : headKind rest ≠ .symbol .assign := by
        rcases parted with kind | kind <;> simp [kind]
      have whole := Declares.bare declares named noValue
      rwa [same] at whole
  | some value =>
      simp only [Declaration.marks, Fit.cons_iff] at fit
      obtain ⟨first, _, isWord, ⟨second, _, ⟨named, rfl⟩, ⟨equals, usedValue, found, valueFit, rfl⟩,
        rfl⟩, rfl⟩ := fit
      obtain ⟨declares, same⟩ := word isWord
      have canonical : value.Canonical := wellFormed.valueGood value rfl
      have reads := canonical.readsBack usedValue rest valueFit (parted.fenced _)
      rw [← skipEnds_of_startsLeaf reads.startsLeaf] at reads
      have whole := Declares.valued declares named found reads
      rwa [same] at whole

theorem Stmt.IsClause.clauses {first : Bool} {clause : Stmt} {used rest : List Token}
    (isClause : clause.IsClause Expr.Canonical first) (fit : Fit clause.lineMarks used)
    (follows : headKind rest = .symbol .semicolon ∨
      headKind rest = .symbol .rightParen ∧ clause.isNoop = false) :
    Clauses first clause (used ++ rest) rest := by
  have parted : Parted rest := follows.imp_right And.left
  cases isClause with
  | noop =>
      obtain rfl := Fit.nil_iff.mp fit
      rcases follows with empty | ⟨_, filled⟩
      · exact .noop empty
      · exact Bool.noConfusion filled
  | assign wellFormed => exact .assign (wellFormed.assigns fit parted)
  | expr canonical =>
      exact .expr (canonical.readsBack used rest fit (parted.fenced _)) parted.assignOp?_eq_none
  | declare isFirst wellFormed => exact .declare isFirst (wellFormed.declares fit parted)

/-! Reading statements. -/

def Expr.Printable (x : Expr) : Prop := x.WellFormed fun _ => True

theorem Expr.Printable.canonical {x : Expr} (printable : x.Printable) (dialect : Dialect) :
    (x.denoted dialect).Canonical :=
  Expr.WellFormed.canonical_denoted printable dialect

theorem Assignment.denoted_step {target : String} {op : AssignOp} (dialect : Dialect) :
    Assignment.denoted dialect ⟨target, op, none⟩ = ⟨target, op, none⟩ := by
  simp [Assignment.denoted, Assignment.mapValue, Assignment.tidy, Assignment.lower]

theorem Assignment.denoted_value {target : String} {op : AssignOp} {value : Expr} {dialect : Dialect}
    (kept : ¬(op = .power ∧ dialect = .plain)) :
    Assignment.denoted dialect ⟨target, op, some value⟩ =
      ⟨target, op, some (value.denoted dialect)⟩ := by
  simp only [Assignment.denoted, Assignment.mapValue, Assignment.tidy]
  split_ifs with plain
  · cases op with
    | power => exact absurd ⟨rfl, plain⟩ kept
    | _ => rfl
  · rfl

theorem Assignment.WellFormed.denoted {assignment : Assignment}
    (wellFormed : assignment.WellFormed Expr.Printable) (dialect : Dialect) :
    (assignment.denoted dialect).WellFormed Expr.Canonical := by
  cases wellFormed with
  | step named alone =>
      rw [Assignment.denoted_step]
      exact .step named alone
  | @value target op value named known valued printable =>
      have canonical := printable.canonical dialect
      by_cases lowered : op = .power ∧ dialect = .plain
      · obtain ⟨rfl, rfl⟩ := lowered
        refine .value named (by simp) rfl (.call ?_)
        simpa using ⟨Expr.Canonical.ident, canonical⟩
      · rw [Assignment.denoted_value lowered]
        exact .value named known valued canonical

theorem Declaration.WellFormed.denoted {declaration : Declaration}
    (wellFormed : declaration.WellFormed Expr.Printable) (dialect : Dialect) :
    (declaration.mapValue (Expr.denoted dialect)).WellFormed Expr.Canonical := by
  refine ⟨wellFormed.named, ?_⟩
  intro value member
  obtain ⟨inner, present, rfl⟩ := Option.map_eq_some_iff.mp member
  exact (wellFormed.valueGood inner present).canonical dialect

theorem Stmt.IsClause.denoted {first : Bool} {clause : Stmt}
    (isClause : clause.IsClause Expr.Printable first) (dialect : Dialect) :
    (clause.denoted dialect).IsClause Expr.Canonical first := by
  cases isClause with
  | noop => exact .noop
  | assign wellFormed => exact .assign (wellFormed.denoted dialect)
  | expr printable => exact .expr (printable.canonical dialect)
  | declare isFirst wellFormed => exact .declare isFirst (wellFormed.denoted dialect)

section Reading

variable {used rest : List Token}

theorem ends_semicolon {semicolon : Token} (found : semicolon.kind = .symbol .semicolon)
    (rest : List Token) : ∃ last, Ends (semicolon :: rest) last ∧ skipEnds last = skipEnds rest := by
  cases rest with
  | nil => exact ⟨[], .semicolon found (by simp [headKind]), rfl⟩
  | cons token rest =>
      by_cases breaks : token.kind = .lineEnd
      · exact ⟨rest, .line found breaks, by simp [skipEnds, breaks]⟩
      · exact ⟨token :: rest, .semicolon found breaks, rfl⟩

theorem skipEnds_append {marks : List Mark} (breaks : marks = [] ∨ marks = [.lineEnd])
    (fit : Fit marks used) (rest : List Token) : skipEnds (used ++ rest) = skipEnds rest := by
  rcases breaks with rfl | rfl
  · obtain rfl := Fit.nil_iff.mp fit
    rfl
  · obtain ⟨token, _, isBreak, nothing, rfl⟩ := Fit.cons_iff.mp fit
    obtain rfl := Fit.nil_iff.mp nothing
    exact skipEnds_lineEnd isBreak rest

theorem Stmt.Place.marks_breaks (place : Place) : place.marks = [] ∨ place.marks = [.lineEnd] := by
  cases place <;> simp [marks]

theorem Stmt.Place.close_breaks (place : Place) : place.close = [] ∨ place.close = [.lineEnd] := by
  cases place <;> simp [close]

theorem Stmt.closeMarks_breaks (body : Stmt) : body.closeMarks = [] ∨ body.closeMarks = [.lineEnd] := by
  unfold closeMarks
  split_ifs <;> simp

theorem Forms.atOnce {read : Stmt} {tokens : List Token} (begun : Forms (.begun read) tokens rest) :
    Forms (.statement read) tokens rest := by
  have start : skipBlanks tokens = tokens :=
    skipBlanks_of_headKind (begun.headKind_ne rfl) (begun.headKind_ne rfl)
  exact .statement (start.symm ▸ begun)

theorem Forms.congr_statement {read : Stmt} {tokens other : List Token}
    (forms : Forms (.statement read) tokens rest) (same : skipEnds other = skipEnds tokens) :
    Forms (.statement read) other rest := by
  cases forms with
  | statement begun => exact .statement (skipBlanks_congr same ▸ begun)

theorem Forms.afterEnds {read : Stmt} {tokens : List Token}
    (begun : Forms (.begun read) (skipEnds tokens) rest) : Forms (.statement read) tokens rest :=
  begun.atOnce.congr_statement (skipEnds_idem tokens).symm

theorem Forms.placed {read : Stmt} {place : Stmt.Place} {tokens : List Token}
    (placed : Fit place.marks used) (begun : Forms (.begun read) tokens rest) :
    Forms (.begun read) (skipEnds (used ++ tokens)) rest := by
  rw [skipEnds_append place.marks_breaks placed, skipEnds_of_headKind (begun.headKind_ne rfl)]
  exact begun

/-- The statement is read at the start of some tokens, after line ends; what is left differs from
the given rest in line ends only. -/
def ReadsUpTo (read : Stmt) (tokens last : List Token) : Prop :=
  ∃ final, Forms (.begun read) (skipEnds tokens) final ∧ skipEnds final = skipEnds last

theorem ReadsUpTo.statement {read : Stmt} {tokens last : List Token}
    (reads : ReadsUpTo read tokens last) :
    ∃ final, Forms (.statement read) tokens final ∧ skipEnds final = skipEnds last := by
  obtain ⟨final, forms, same⟩ := reads
  exact ⟨final, forms.afterEnds, same⟩

/-- The layout of a statement, before tokens that it goes on with, is read as the statement it
denotes with what was attached to it. -/
def Stmt.ReadsBack (dialect : Dialect) (statement : Stmt) : Prop :=
  ∀ {place : Place} {used rest last : List Token} {result : Stmt},
    Fit (statement.layout dialect place) used →
    Continues (statement.denoted dialect) rest result last → ReadsUpTo result (used ++ rest) last

theorem Stmt.ReadsBack.closed {dialect : Dialect} {body result : Stmt}
    {usedClose last : List Token} (reads : body.ReadsBack dialect)
    (bodyFit : Fit (body.layout dialect .body) used) (closeFit : Fit body.closeMarks usedClose)
    (continues : Continues (body.denoted dialect) rest result last) :
    ∃ final, Forms (.statement result) (used ++ (usedClose ++ rest)) final ∧
      skipEnds final = skipEnds last := by
  obtain ⟨closed, closedContinues, same⟩ :=
    continues.congr (skipEnds_append body.closeMarks_breaks closeFit rest)
  obtain ⟨final, forms, formsSame⟩ := (reads bodyFit closedContinues).statement
  exact ⟨final, forms, formsSame.trans same⟩

theorem Forms.congr_inside {body : List Stmt} {tokens other : List Token}
    (forms : Forms (.inside body) tokens rest) (same : skipEnds other = skipEnds tokens) :
    Forms (.inside body) other rest := by
  cases forms with
  | close shape closes => exact .close ((skipBlanks_congr same).trans shape) closes
  | inside first others => exact .inside (first.congr_statement same) others

section Statements

variable {dialect : Dialect} {place : Stmt.Place} {result : Stmt} {last : List Token}

theorem reads_oneLine {line : Stmt} (shut : line.endsOpen = false)
    (fit : Fit (Stmt.oneLineMarks place line) used)
    (begun : ∀ {usedLine tokens last : List Token}, Fit line.lineMarks usedLine →
      headKind tokens = .symbol .semicolon → Ends tokens last →
      Forms (.begun line) (usedLine ++ tokens) last)
    (continues : Continues line rest result last) : ReadsUpTo result (used ++ rest) last := by
  simp only [Stmt.oneLineMarks, Fit.append_iff, Fit.cons_iff, Fit.nil_iff] at fit
  obtain ⟨usedPlace, _, placed, ⟨usedLine, _, lineFit, ⟨semicolon, _, found,
    ⟨lineEnd, _, breaks, rfl, rfl⟩, rfl⟩, rfl⟩, rfl⟩ := fit
  obtain ⟨rfl, rfl⟩ := continues.eq_of_shut shut
  have ends : Ends (semicolon :: lineEnd :: last) last := .line found breaks
  have ahead : headKind (semicolon :: lineEnd :: last) = .symbol .semicolon := found
  have forms := Forms.placed placed (begun lineFit ahead ends)
  exact ⟨last, by simpa using forms, rfl⟩

theorem reads_headed {keyword : Keyword} {head : Expr} {body : Stmt} (wrap : Stmt → Stmt)
    (canonical : head.Canonical) (bodyReads : body.ReadsBack dialect)
    (made : ∀ body, keyword.headed? head body = some (wrap body))
    (opens : ∀ body, (wrap body).endsOpen = body.endsOpen)
    (attaches : ∀ body taken, (wrap body).attach taken = wrap (body.attach taken))
    (fit : Fit (place.marks ++ (.keyword keyword :: ((Expr.paren head).marks ++
      (body.layout dialect .body ++ body.closeMarks)))) used)
    (continues : Continues (wrap (body.denoted dialect)) rest result last) :
    ReadsUpTo result (used ++ rest) last := by
  simp only [Fit.append_iff, Fit.cons_iff] at fit
  obtain ⟨usedPlace, _, placed, ⟨word, _, found, ⟨usedHead, _, headFit, ⟨usedBody, usedClose,
    bodyFit, closeFit, rfl⟩, rfl⟩, rfl⟩, rfl⟩ := fit
  obtain ⟨inner, rfl, bodyContinues⟩ := continues.unwrap wrap opens attaches
  obtain ⟨final, bodyForms, same⟩ := bodyReads.closed bodyFit closeFit bodyContinues
  have heads := ReadsBack.paren canonical.readsBack headFit (usedBody ++ (usedClose ++ rest))
  have forms := Forms.placed placed (.headed found heads bodyForms (made inner))
  exact ⟨final, by simpa using forms, same⟩

theorem reads_doLoop {kind : LoopKind} {test : Expr} {body : Stmt} (canonical : test.Canonical)
    (bodyReads : body.ReadsBack dialect) (loops : kind.word.loopKind? = some kind)
    (fit : Fit (place.marks ++ (.keyword .do_ :: (body.layout dialect .body ++
      (.keyword kind.word :: ((Expr.paren test).marks ++ [.symbol .semicolon, .lineEnd]))))) used) :
    ReadsUpTo (.loop kind test (body.denoted dialect)) (used ++ rest) rest := by
  simp only [Fit.append_iff, Fit.cons_iff, Fit.nil_iff] at fit
  obtain ⟨usedPlace, _, placed, ⟨word, _, found, ⟨usedBody, _, bodyFit, ⟨looping, _, isWord,
    ⟨usedTest, _, testFit, ⟨semicolon, _, ends, ⟨lineEnd, _, breaks, rfl, rfl⟩, rfl⟩, rfl⟩, rfl⟩,
    rfl⟩, rfl⟩, rfl⟩ := fit
  have isLoop : looping.kind = .keyword kind.word := isWord
  have tests := ReadsBack.paren canonical.readsBack testFit (semicolon :: lineEnd :: rest)
  have ahead : skipEnds (looping :: (usedTest ++ semicolon :: lineEnd :: rest)) =
      looping :: (usedTest ++ semicolon :: lineEnd :: rest) :=
    skipEnds_of_headKind (by simp [headKind, isLoop])
  have noElse : headKind (skipEnds (looping :: (usedTest ++ semicolon :: lineEnd :: rest))) ≠
      .keyword .else_ := by
    rw [ahead, headKind, isLoop]
    cases kind <;> simp [LoopKind.word]
  obtain ⟨final, bodyForms, same⟩ := (bodyReads bodyFit (.stop fun _ => noElse)).statement
  have tails : Tails kind test final rest :=
    .intro (same.trans ahead) isLoop loops tests (.ends (.line ends breaks))
  have forms := Forms.placed placed (.doLoop found bodyForms tails)
  exact ⟨rest, by simpa using forms, rfl⟩

theorem reads_test {test : Option Expr} (testGood : ∀ value ∈ test, value.Canonical)
    (fit : Fit (optionalMarks test) used) (closes : headKind rest = .symbol .semicolon) :
    Tests test (used ++ rest) rest ∧ skipEnds (used ++ rest) = used ++ rest := by
  cases test with
  | none =>
      obtain rfl := Fit.nil_iff.mp fit
      exact ⟨.none closes, skipEnds_of_headKind (by simp [closes])⟩
  | some value =>
      have canonical : value.Canonical := testGood value rfl
      have reads := canonical.readsBack used rest fit (Parted.fenced (Or.inl closes) _)
      exact ⟨.some reads, skipEnds_of_startsLeaf reads.startsLeaf⟩

theorem reads_update {update : Stmt} (updateClause : update.IsClause Expr.Canonical false)
    (fit : Fit update.lineMarks used) (closes : headKind rest = .symbol .rightParen) :
    Updates update (used ++ rest) rest ∧ skipEnds (used ++ rest) = used ++ rest := by
  cases noop : update.isNoop with
  | true =>
      obtain rfl := Stmt.eq_noop_of_isNoop noop
      obtain rfl := Fit.nil_iff.mp fit
      exact ⟨.none closes, skipEnds_of_headKind (by simp [closes])⟩
  | false =>
      have clauses := updateClause.clauses fit (Or.inr ⟨closes, noop⟩)
      exact ⟨.clause clauses, skipEnds_of_headKind (clauses.headKind_ne rfl)⟩

theorem divides_semicolon {semicolon : Token} (found : semicolon.kind = .symbol .semicolon)
    (rest : List Token) : Divides (semicolon :: rest) (skipEnds rest) :=
  .semicolon (skipEnds_of_headKind (by simp [headKind, found])) found

theorem reads_for {init update read : Stmt} {test : Option Expr}
    (initClause : init.IsClause Expr.Canonical true) (testGood : ∀ value ∈ test, value.Canonical)
    (updateClause : update.IsClause Expr.Canonical false)
    (fit : Fit (Stmt.forMarks init test update) used) (bodyForms : Forms (.statement read) rest last) :
    Forms (.begun (.forLoop init test update read)) (used ++ rest) last := by
  simp only [Stmt.forMarks, Fit.append_iff, Fit.cons_iff, Fit.nil_iff] at fit
  obtain ⟨word, _, found, ⟨opening, _, opens, ⟨usedInit, _, initFit, ⟨first, _, firstFound,
    ⟨usedTest, _, testFit, ⟨second, _, secondFound, ⟨usedUpdate, _, updateFit,
    ⟨closing, _, closes, rfl, rfl⟩, rfl⟩, rfl⟩, rfl⟩, rfl⟩, rfl⟩, rfl⟩, rfl⟩ := fit
  obtain ⟨updates, updateStays⟩ : Updates update (usedUpdate ++ closing :: rest) (closing :: rest) ∧ _ :=
    reads_update updateClause updateFit closes
  obtain ⟨tests, testStays⟩ : Tests test
      (usedTest ++ second :: (usedUpdate ++ closing :: rest))
      (second :: (usedUpdate ++ closing :: rest)) ∧ _ := reads_test testGood testFit secondFound
  have inits : Clauses true init
      (usedInit ++ first :: (usedTest ++ second :: (usedUpdate ++ closing :: rest)))
      (first :: (usedTest ++ second :: (usedUpdate ++ closing :: rest))) :=
    initClause.clauses initFit (Or.inl firstFound)
  have ends : skipEnds (closing :: rest) = closing :: rest :=
    skipEnds_of_headKind (by simp [headKind, show closing.kind = _ from closes])
  rw [← skipEnds_of_headKind (inits.headKind_ne rfl)] at inits
  rw [← testStays] at tests
  rw [← updateStays] at updates
  have forms := Forms.forLoop found opens inits (divides_semicolon firstFound _) tests
    (divides_semicolon secondFound _) updates ends closes bodyForms
  simpa using forms

theorem reads_inside {body : List Stmt} {brace : Token}
    (each : ∀ statement ∈ body, statement.ReadsBack dialect)
    (fit : Fit (Stmt.layoutAll dialect body) used) (closes : brace.kind = .symbol .rightBrace) :
    Forms (.inside (Stmt.active (body.map (Stmt.denoted dialect)))) (used ++ brace :: rest) rest := by
  induction body generalizing used with
  | nil =>
      obtain rfl := Fit.nil_iff.mp fit
      refine .close (skipBlanks_of_headKind ?_ ?_) closes <;> simp [headKind, closes]
  | cons first others ih =>
      have othersRead (used : List Token) :=
        @ih used fun statement member => each statement (by simp [member])
      cases noop : first.isNoop with
      | true =>
          simp only [Stmt.layoutAll, noop, if_true] at fit
          have dropped : Stmt.active ((first :: others).map (Stmt.denoted dialect)) =
              Stmt.active (others.map (Stmt.denoted dialect)) := by
            simp [Stmt.active, Stmt.isNoop_denoted, noop]
          rw [dropped]
          exact othersRead used fit
      | false =>
          simp only [Stmt.layoutAll, noop, Bool.false_eq_true, if_false, Fit.append_iff] at fit
          obtain ⟨usedFirst, usedOthers, firstFit, othersFit, rfl⟩ := fit
          have kept : Stmt.active ((first :: others).map (Stmt.denoted dialect)) =
              first.denoted dialect :: Stmt.active (others.map (Stmt.denoted dialect)) := by
            simp [Stmt.active, Stmt.isNoop_denoted, noop]
          have othersForm := othersRead usedOthers othersFit
          obtain ⟨final, firstForms, same⟩ := (each first (by simp) firstFit
            (.stop fun _ => othersForm.noElse_inside)).statement
          rw [kept, List.append_assoc]
          exact .inside firstForms (othersForm.congr_inside same)

theorem reads_else {no : Stmt} (noReads : no.ReadsBack dialect)
    (fit : Fit (if no.isBranch then no.layout dialect .chained
      else no.layout dialect .body ++ no.closeMarks) used)
    (continues : Continues (no.denoted dialect) rest result last) :
    ∃ final, Forms (.statement result) (used ++ rest) final ∧ skipEnds final = skipEnds last := by
  split_ifs at fit
  · exact (noReads fit continues).statement
  · obtain ⟨usedNo, usedClose, noFit, closeFit, rfl⟩ := Fit.append_iff.mp fit
    rw [List.append_assoc]
    exact noReads.closed noFit closeFit continues

/-! The forms of statements: each is read back if its parts are. -/

theorem readsBack_noop : Stmt.noop.ReadsBack dialect := by
  intro place used rest last result fit continues
  obtain ⟨semicolon, usedClose, found, closeFit, rfl⟩ := Fit.cons_iff.mp fit
  obtain ⟨rfl, rfl⟩ := continues.eq_of_shut rfl
  obtain ⟨final, ends, same⟩ := ends_semicolon found (usedClose ++ last)
  have forms : Forms (.begun .noop) (semicolon :: (usedClose ++ last)) final := .noop found ends
  rw [← skipEnds_of_headKind (forms.headKind_ne rfl)] at forms
  exact ⟨final, forms, same.trans (skipEnds_append place.close_breaks closeFit last)⟩

theorem readsBack_ret {value : Option Expr} (printable : ∀ x ∈ value, Expr.Printable x) :
    (Stmt.ret value).ReadsBack dialect := by
  intro place used rest last result fit continues
  refine reads_oneLine rfl fit (fun lineFit ahead ends => ?_) continues
  obtain ⟨word, usedValue, found, valueFit, rfl⟩ := Fit.cons_iff.mp lineFit
  cases value with
  | none =>
      obtain rfl := Fit.nil_iff.mp valueFit
      exact .ret found (.none ends)
  | some value =>
      have canonical := (printable value rfl).canonical dialect
      have reads := canonical.readsBack usedValue _ valueFit (Parted.fenced (Or.inl ahead) _)
      exact .ret found (.some reads ends)

theorem readsBack_branch {test : Expr} {yes : Stmt} (printable : test.Printable)
    (yesReads : yes.ReadsBack dialect) : (Stmt.branch test yes .hole).ReadsBack dialect := by
  intro place used rest last result fit continues
  simp only [Stmt.layout, Stmt.isHole, if_true, Fit.append_iff, Fit.cons_iff] at fit
  obtain ⟨usedPlace, _, placed, ⟨word, _, found, ⟨usedTest, _, testFit, ⟨usedYes, usedClose, yesFit,
    closeFit, rfl⟩, rfl⟩, rfl⟩, rfl⟩ := fit
  obtain ⟨closed, closedContinues, same⟩ :=
    continues.congr (skipEnds_append yes.closeMarks_breaks closeFit rest)
  have tests := ReadsBack.paren (printable.canonical dialect).readsBack testFit
    (usedYes ++ (usedClose ++ rest))
  obtain ⟨final, forms, formsSame⟩ := Continues.branch found tests
    (fun continues => (yesReads yesFit continues).statement) closedContinues
  exact ⟨final, by simpa using Forms.placed placed forms, formsSame.trans same⟩

theorem readsBack_branchElse {test : Expr} {yes no : Stmt} (printable : test.Printable)
    (filled : no.isHole = false) (yesReads : yes.ReadsBack dialect) (noReads : no.ReadsBack dialect) :
    (Stmt.branch test yes no).ReadsBack dialect := by
  intro place used rest last result fit continues
  simp only [Stmt.layout, filled, Bool.false_eq_true, if_false] at fit
  simp only [Fit.append_iff, Fit.cons_iff] at fit
  obtain ⟨usedPlace, _, placed, ⟨word, _, found, ⟨usedTest, _, testFit, ⟨usedYes, _, yesFit,
    ⟨other, usedNo, otherwise, noFit, rfl⟩, rfl⟩, rfl⟩, rfl⟩, rfl⟩ := fit
  -- The `else` goes to the last `if` that can take it, as it does on reading.
  have shape : (Stmt.branch test yes no).denoted dialect =
      (Stmt.branch (test.denoted dialect) (yes.denoted dialect) .hole).attach
        (no.denoted dialect) := Stmt.denoted_branchElse filled
  rw [shape] at continues
  have isOpen : (Stmt.branch (test.denoted dialect) (yes.denoted dialect) .hole).endsOpen = true :=
    rfl
  obtain ⟨grown, middle, noContinues, later⟩ :=
    continues.split isOpen ((Stmt.isHole_denoted dialect no).trans filled)
  obtain ⟨noLast, noForms, noSame⟩ := reads_else noReads noFit noContinues
  obtain ⟨final, later, same⟩ := later.congr noSame
  have ahead : skipEnds (other :: (usedNo ++ rest)) = other :: (usedNo ++ rest) :=
    skipEnds_of_headKind (by simp [headKind, show other.kind = _ from otherwise])
  have tests := ReadsBack.paren (printable.canonical dialect).readsBack testFit
    (usedYes ++ other :: (usedNo ++ rest))
  obtain ⟨last', forms, formsSame⟩ := Continues.branch found tests
    (fun continues => (yesReads yesFit continues).statement)
    (.take isOpen ahead otherwise noForms later)
  exact ⟨last', by simpa using Forms.placed placed forms, formsSame.trans same⟩

theorem readsBack_loop {kind : LoopKind} {test : Expr} {body : Stmt} (printable : test.Printable)
    (bodyReads : body.ReadsBack dialect) : (Stmt.loop kind test body).ReadsBack dialect := by
  intro place used rest last result fit continues
  have canonical := printable.canonical dialect
  cases first : Stmt.testsFirst kind with
  | true =>
      simp only [Stmt.layout, first, if_true, List.cons_append] at fit
      refine reads_headed (.loop kind (test.denoted dialect)) canonical bodyReads ?_ ?_
        (fun _ _ => rfl) fit continues
      · intro body
        cases kind with
        | whileLoop | untilLoop => rfl
        | doWhile | doUntil => exact Bool.noConfusion first
      · intro body
        simp [Stmt.endsOpen, first]
  | false =>
      simp only [Stmt.layout, first, Bool.false_eq_true, if_false, List.cons_append] at fit
      have shut : ((Stmt.loop kind test body).denoted dialect).endsOpen = false := by
        change (Stmt.testsFirst kind && _) = false
        rw [first, Bool.false_and]
      obtain ⟨rfl, rfl⟩ := continues.eq_of_shut shut
      have tails : kind.word.loopKind? = some kind := by
        cases kind with
        | whileLoop | untilLoop => exact Bool.noConfusion first
        | doWhile | doUntil => rfl
      exact reads_doLoop canonical bodyReads tails fit

theorem readsBack_forLoop {init update body : Stmt} {test : Option Expr}
    (initClause : init.IsClause Expr.Printable true)
    (testGood : ∀ value ∈ test, Expr.Printable value)
    (updateClause : update.IsClause Expr.Printable false) (bodyReads : body.ReadsBack dialect) :
    (Stmt.forLoop init test update body).ReadsBack dialect := by
  intro place used rest last result fit continues
  simp only [Stmt.layout, Fit.append_iff] at fit
  obtain ⟨usedPlace, _, placed, ⟨usedHeader, _, headerFit, ⟨usedBody, usedClose, bodyFit, closeFit,
    rfl⟩, rfl⟩, rfl⟩ := fit
  obtain ⟨inner, rfl, bodyContinues⟩ := Continues.unwrap (.forLoop (init.denoted dialect)
    (test.map (Expr.denoted dialect)) (update.denoted dialect)) (fun _ => rfl) (fun _ _ => rfl)
    continues
  obtain ⟨final, bodyForms, same⟩ := bodyReads.closed bodyFit closeFit bodyContinues
  have testCanonical : ∀ value ∈ test.map (Expr.denoted dialect), value.Canonical := by
    intro value member
    obtain ⟨x, present, rfl⟩ := Option.map_eq_some_iff.mp member
    exact (testGood x present).canonical dialect
  have forms := Forms.placed placed (reads_for (initClause.denoted dialect) testCanonical
    (updateClause.denoted dialect) headerFit bodyForms)
  exact ⟨final, by simpa using forms, same⟩

theorem readsBack_block {body : List Stmt}
    (bodyReads : ∀ statement ∈ body, statement.ReadsBack dialect) :
    (Stmt.block body).ReadsBack dialect := by
  intro place used rest last result fit continues
  simp only [Stmt.layout, Fit.append_iff, Fit.cons_iff] at fit
  obtain ⟨opening, _, opens, ⟨lineEnd, _, breaks, ⟨usedAll, _, allFit, ⟨closing, usedClose, closes,
    closeFit, rfl⟩, rfl⟩, rfl⟩, rfl⟩ := fit
  rw [Stmt.denoted_block] at continues
  obtain ⟨rfl, rfl⟩ := continues.eq_of_shut rfl
  have inside := (reads_inside bodyReads allFit closes :
    Forms _ (usedAll ++ closing :: (usedClose ++ last)) (usedClose ++ last))
  have forms := Forms.block opens (inside.congr_inside (skipEnds_lineEnd breaks _))
  rw [← skipEnds_of_headKind (forms.headKind_ne rfl)] at forms
  exact ⟨usedClose ++ last, by simpa using forms, skipEnds_append place.close_breaks closeFit last⟩

/-- The layout of a printed statement is read as the statement that it denotes. -/
theorem Stmt.WellFormed.readsBack {statement : Stmt} (wellFormed : statement.WellFormed Expr.Printable)
    (dialect : Dialect) : statement.ReadsBack dialect := by
  induction wellFormed with
  | noop => exact readsBack_noop
  | assign wellFormed =>
      intro place used rest last result fit continues
      exact reads_oneLine rfl fit (fun lineFit ahead ends =>
        .assign ((wellFormed.denoted dialect).assigns lineFit (Or.inl ahead)) ends) continues
  | expr printable =>
      intro place used rest last result fit continues
      exact reads_oneLine rfl fit (fun lineFit ahead ends =>
        .expr ((printable.canonical dialect).readsBack _ _ lineFit (Parted.fenced (Or.inl ahead) _))
          ends) continues
  | declare wellFormed =>
      intro place used rest last result fit continues
      exact reads_oneLine rfl fit (fun lineFit ahead ends =>
        .declare ((wellFormed.denoted dialect).declares lineFit (Or.inl ahead)) ends) continues
  | ret printable => exact readsBack_ret printable
  | breakLoop | continueLoop | exitScript =>
      intro place used rest last result fit continues
      refine reads_oneLine rfl fit (fun lineFit ahead ends => ?_) continues
      obtain ⟨word, _, found, nothing, rfl⟩ := Fit.cons_iff.mp lineFit
      obtain rfl := Fit.nil_iff.mp nothing
      exact .jump found rfl ends
  | branch printable _ yesReads => exact readsBack_branch printable yesReads
  | branchElse printable _ noFormed yesReads noReads =>
      exact readsBack_branchElse printable noFormed.isHole_eq_false yesReads noReads
  | loop printable _ bodyReads => exact readsBack_loop printable bodyReads
  | repeats printable _ bodyReads =>
      intro place used rest last result fit continues
      exact reads_headed (.repeats _) (printable.canonical dialect) bodyReads (fun _ => rfl)
        (fun _ => rfl) (fun _ _ => rfl) fit continues
  | withTarget printable _ bodyReads =>
      intro place used rest last result fit continues
      exact reads_headed (.withTarget _) (printable.canonical dialect) bodyReads (fun _ => rfl)
        (fun _ => rfl) (fun _ _ => rfl) fit continues
  | forLoop initClause testGood updateClause _ bodyReads =>
      exact readsBack_forLoop initClause testGood updateClause bodyReads
  | block _ bodyReads => exact readsBack_block bodyReads

end Statements

end Reading

end GameScript
