import GameScript.Printer.Script
import GameScript.Proofs.Layout
import GameScript.Proofs.Script

/-!
The tokens of printed scripts. Main statement: the layout of a script is read as the script without
the statements that do nothing, with the doc comments that they kept apart joined.
-/

namespace GameScript

def Passing.mapValue (change : Expr → Expr) : Passing → Passing
  | .defaulted value => .defaulted (value.map change)
  | other => other

def Argument.mapValue (change : Expr → Expr) (argument : Argument) : Argument :=
  { argument with passing := argument.passing.mapValue change }

inductive Argument.WellFormed (good : Expr → Prop) : Argument → Prop where
  | required {name : String} (named : isName name = true) : WellFormed good ⟨name, .required⟩
  | optional {name : String} (named : isName name = true) : WellFormed good ⟨name, .optional⟩
  | defaulted {name : String} {value : Expr} (named : isName name = true) (valueGood : good value) :
      WellFormed good ⟨name, .defaulted (some value)⟩
  | variadic {name : String} (named : isName name = true) : WellFormed good ⟨name, .variadic⟩

inductive Stmt.Listed (good : Expr → Prop) : Stmt → Prop where
  | statement {statement : Stmt} (wellFormed : statement.WellFormed good) : Listed good statement
  | doc {lines : List String} (filled : lines ≠ [])
      (each : ∀ line ∈ lines, isDocLine line.toList = true) : Listed good (.doc lines)

structure Script.WellFormed (good : Expr → Prop) (script : Script) : Prop where
  docGood : ∀ line ∈ script.doc, isDocLine line.toList = true
  argsGood : ∀ argument ∈ script.args, argument.WellFormed good
  variadicLast : script.args.Pairwise fun argument _ => argument.passing ≠ .variadic
  bodyGood : ∀ statement ∈ script.body, statement.Listed good

namespace Stmt

/-- A statement before others; a doc comment is joined with one that follows it. -/
def before : Stmt → List Stmt → List Stmt
  | doc lines, doc more :: others => .doc (lines ++ more) :: others
  | first, others => first :: others

def joinDocs (body : List Stmt) : List Stmt := body.foldr before []

end Stmt

namespace Script

def rewrite (change : Expr → Expr) (each : Stmt → Stmt) (script : Script) : Script :=
  ⟨script.doc, script.args.map (Argument.mapValue change), script.body.map each⟩

/-- The script without the statements that do nothing, and adjacent doc comments joined. Without
arguments, a doc comment before the first statement belongs to the script. -/
def gathered (script : Script) : Script :=
  match script.args, Stmt.joinDocs (Stmt.active script.body) with
  | [], .doc lines :: others => ⟨script.doc ++ lines, [], others⟩
  | args, body => ⟨script.doc, args, body⟩

def normalized (script : Script) : Script :=
  (script.rewrite Expr.nameInfinity Stmt.normalized).gathered

def lower : Script → Script := rewrite Expr.lower Stmt.lower

def denoted (dialect : Dialect) (script : Script) : Script :=
  (script.rewrite (Expr.denoted dialect) (Stmt.denoted dialect)).gathered

end Script

def Argument.marks (argument : Argument) : List Mark :=
  .keyword .argument_ ::
    match argument.passing with
    | .variadic => [.symbol .ellipsis, .name argument.name]
    | .optional => [.name argument.name, .symbol .question]
    | .defaulted value => .name argument.name :: .symbol .assign :: optionalMarks value
    | .required | .unknown => [.name argument.name]

def argumentMarks (dialect : Dialect) (args : List Argument) : List Mark :=
  args.flatMap fun argument => (argument.mapValue (Expr.denoted dialect)).marks ++ [.lineEnd]

def Script.layout (dialect : Dialect) (script : Script) : List Mark :=
  Stmt.docMarks script.doc ++
    (argumentMarks dialect script.args ++ Stmt.layoutAll dialect script.body)

/-! Reading doc comments. -/

section Reading

variable {used rest last : List Token}

theorem reads_docs {lines more : List String} (fit : Fit (Stmt.docMarks lines) used)
    (docs : Docs more (skipEnds rest) last) : Docs (lines ++ more) (skipEnds (used ++ rest)) last := by
  induction lines generalizing used with
  | nil =>
      obtain rfl := Fit.nil_iff.mp fit
      exact docs
  | cons line lines ih =>
      obtain ⟨token, _, ⟨found, rfl⟩, others, rfl⟩ := Fit.cons_iff.mp fit
      obtain ⟨lineEnd, usedLines, breaks, linesFit, rfl⟩ := Fit.cons_iff.mp others
      have here : skipEnds (token :: (lineEnd :: (usedLines ++ rest))) =
          token :: (lineEnd :: (usedLines ++ rest)) :=
        skipEnds_of_headKind (by simp [headKind, found])
      have inner := ih linesFit
      rw [← skipEnds_lineEnd breaks] at inner
      have whole :
          Docs (token.lit :: (lines ++ more)) (token :: (lineEnd :: (usedLines ++ rest))) last :=
        .line found inner
      rwa [← here] at whole

theorem Docs.skipEnds_rest {lines : List String} {tokens : List Token}
    (docs : Docs lines (skipEnds tokens) rest) : skipEnds rest = rest := by
  generalize shape : skipEnds tokens = start at docs
  induction docs generalizing tokens with
  | done => rw [← shape, skipEnds_idem]
  | line _ _ ih => exact ih rfl

/-! Reading statements. -/

theorem Lists.congr {body : List Stmt} {tokens other : List Token} (lists : Lists body tokens)
    (same : skipEnds other = skipEnds tokens) : Lists body other := by
  cases lists with
  | finish closes => exact .finish (same ▸ closes)
  | docs found docs others => exact .docs (same ▸ found) (same ▸ docs) others
  | statement noDoc forms others => exact .statement (same ▸ noDoc) (same ▸ forms) others

theorem Lists.headKind_ne {body : List Stmt} {tokens : List Token} {kind : TokenKind}
    (lists : Lists body tokens) (never : kind.begins = false) (noDoc : kind ≠ .docComment)
    (notLast : kind ≠ .finish) : headKind (skipEnds tokens) ≠ kind := by
  cases lists with
  | finish closes => exact closes ▸ notLast.symm
  | docs found => exact found ▸ noDoc.symm
  | statement _ forms =>
      rw [← skipEnds_idem]
      exact forms.headKind_skipEnds_ne never noDoc

theorem Forms.ne_doc {read : Stmt} {tokens : List Token} (forms : Forms (.statement read) tokens rest)
    (lines : List String) : read ≠ .doc lines := by
  rintro rfl
  cases forms with
  | statement begun =>
      generalize skipBlanks tokens = start at begun
      cases begun with
      | @headed _ keyword _ _ _ _ _ _ _ _ _ made => cases keyword <;> simp [Keyword.headed?] at made
      | @jump _ keyword _ _ _ _ made => cases keyword <;> simp [Keyword.jump?] at made

theorem Stmt.before_of_ne_doc {statement : Stmt} (notDoc : ∀ lines, statement ≠ .doc lines)
    (others : List Stmt) : statement.before others = statement :: others := by
  cases statement with
  | doc lines => exact absurd rfl (notDoc lines)
  | _ => rfl

theorem Stmt.before_cons {statement : Stmt} (notDoc : ∀ lines, statement ≠ .doc lines)
    (first : Stmt) (others : List Stmt) : first.before (statement :: others) =
      first :: statement :: others := by
  cases statement with
  | doc lines => exact absurd rfl (notDoc lines)
  | _ => cases first <;> rfl

theorem reads_docs_before {lines : List String} {body : List Stmt} (filled : lines ≠ [])
    (fit : Fit (Stmt.docMarks lines) used) (lists : Lists body rest) :
    Lists (Stmt.before (.doc lines) body) (used ++ rest) := by
  have found : headKind (skipEnds (used ++ rest)) = .docComment := by
    obtain ⟨line, lines, rfl⟩ := List.exists_cons_of_ne_nil filled
    obtain ⟨token, _, ⟨found, rfl⟩, _, rfl⟩ := Fit.cons_iff.mp fit
    rw [List.cons_append, skipEnds_of_headKind (by simp [headKind, found])]
    exact found
  have alone (noDoc : headKind (skipEnds rest) ≠ .docComment) :
      Docs lines (skipEnds (used ++ rest)) (skipEnds rest) := by
    have docs := reads_docs fit (.done noDoc)
    rwa [List.append_nil] at docs
  have same := skipEnds_idem rest
  cases lists with
  | docs _ docs others => exact .docs found (reads_docs fit docs) others
  | finish closes => exact .docs found (alone (by simp [closes])) (.finish (same.symm ▸ closes))
  | statement noDoc forms others =>
      rw [Stmt.before_cons forms.ne_doc]
      exact .docs found (alone noDoc) (.statement (same.symm ▸ noDoc) (same.symm ▸ forms) others)

theorem reads_statement_before {statement : Stmt} {body : List Stmt} {dialect : Dialect}
    (reads : statement.ReadsBack dialect) (fit : Fit (statement.layout dialect .line) used)
    (lists : Lists body rest) :
    Lists ((statement.denoted dialect).before body) (used ++ rest) := by
  have noElse : headKind (skipEnds rest) ≠ .keyword .else_ :=
    lists.headKind_ne rfl (by simp) (by simp)
  obtain ⟨final, begun, same⟩ := reads fit (.stop fun _ => noElse)
  have forms := (skipEnds_idem (used ++ rest) ▸ begun).afterEnds
  rw [Stmt.before_of_ne_doc forms.ne_doc]
  exact .statement (begun.headKind_ne rfl) forms (lists.congr same)

theorem reads_body {body : List Stmt} {dialect : Dialect} {finish : Token}
    (bodyGood : ∀ statement ∈ body, statement.Listed Expr.Printable)
    (fit : Fit (Stmt.layoutAll dialect body) used) (closes : finish.kind = .finish) :
    Lists (Stmt.joinDocs (Stmt.active (body.map (Stmt.denoted dialect)))) (used ++ [finish]) := by
  induction body generalizing used with
  | nil =>
      obtain rfl := Fit.nil_iff.mp fit
      refine .finish ?_
      rw [List.nil_append, skipEnds_of_headKind (by simp [headKind, closes])]
      exact closes
  | cons first others ih =>
      have othersRead {used : List Token} := @ih used fun statement member =>
        bodyGood statement (by simp [member])
      cases noop : first.isNoop with
      | true =>
          simp only [Stmt.layoutAll, noop, if_true] at fit
          simpa [Stmt.active, Stmt.isNoop_denoted, noop] using othersRead fit
      | false =>
          simp only [Stmt.layoutAll, noop, Bool.false_eq_true, if_false, Fit.append_iff] at fit
          obtain ⟨usedFirst, usedOthers, firstFit, othersFit, rfl⟩ := fit
          have kept : Stmt.joinDocs (Stmt.active ((first :: others).map (Stmt.denoted dialect))) =
              (first.denoted dialect).before
                (Stmt.joinDocs (Stmt.active (others.map (Stmt.denoted dialect)))) := by
            simp [Stmt.active, Stmt.joinDocs, Stmt.isNoop_denoted, noop]
          rw [kept, List.append_assoc]
          cases bodyGood first (by simp) with
          | statement wellFormed =>
              exact reads_statement_before (wellFormed.readsBack dialect) firstFit
                (othersRead othersFit)
          | doc filled => exact reads_docs_before filled firstFit (othersRead othersFit)

/-! Reading arguments. -/

theorem Argument.WellFormed.takes {argument : Argument} {dialect : Dialect}
    (wellFormed : argument.WellFormed Expr.Printable)
    (fit : Fit ((argument.mapValue (Expr.denoted dialect)).marks ++ [.lineEnd]) used) :
    Takes (argument.mapValue (Expr.denoted dialect)) (used ++ rest) rest := by
  simp only [Fit.append_iff, Fit.cons_iff, Fit.nil_iff, Argument.marks] at fit
  obtain ⟨_, _, ⟨word, usedTail, found, tailFit, rfl⟩, ⟨lineEnd, _, breaks, rfl, rfl⟩, rfl⟩ := fit
  have ends : Ends (lineEnd :: rest) rest := .lineEnd breaks
  cases wellFormed with
  | required =>
      simp only [Argument.mapValue, Passing.mapValue, Fit.cons_iff, Fit.nil_iff] at tailFit
      obtain ⟨name, _, ⟨named, rfl⟩, rfl, rfl⟩ := tailFit
      simpa [Argument.mapValue, Passing.mapValue] using Takes.one found named (.required ends)
  | optional =>
      simp only [Argument.mapValue, Passing.mapValue, Fit.cons_iff, Fit.nil_iff] at tailFit
      obtain ⟨name, _, ⟨named, rfl⟩, ⟨question, _, asks, rfl, rfl⟩, rfl⟩ := tailFit
      simpa [Argument.mapValue, Passing.mapValue] using Takes.one found named (.optional asks ends)
  | @defaulted _ value _ printable =>
      simp only [Argument.mapValue, Passing.mapValue, Fit.cons_iff] at tailFit
      obtain ⟨name, _, ⟨named, rfl⟩, ⟨equals, usedValue, assigns, valueFit, rfl⟩, rfl⟩ := tailFit
      have fenced : Fenced Precedence.pipe (lineEnd :: rest) := .ofKind _ breaks rfl (by simp)
      have reads := (printable.canonical dialect).readsBack usedValue (lineEnd :: rest) valueFit fenced
      simpa [Argument.mapValue, Passing.mapValue] using
        Takes.one found named (.defaulted assigns reads ends)
  | variadic =>
      simp only [Argument.mapValue, Passing.mapValue, Fit.cons_iff, Fit.nil_iff] at tailFit
      obtain ⟨dots, _, ellipsis, ⟨name, _, ⟨named, rfl⟩, rfl, rfl⟩, rfl⟩ := tailFit
      simpa [Argument.mapValue, Passing.mapValue] using Takes.variadic found ellipsis named ends

theorem Argument.variadic_mapValue {change : Expr → Expr} {argument : Argument}
    (goesOn : argument.passing ≠ .variadic) : (argument.mapValue change).passing ≠ .variadic := by
  obtain ⟨name, passing⟩ := argument
  cases passing with
  | variadic => exact absurd rfl goesOn
  | _ => simp [Argument.mapValue, Passing.mapValue]

theorem reads_arguments {args : List Argument} {dialect : Dialect}
    (argsGood : ∀ argument ∈ args, argument.WellFormed Expr.Printable)
    (variadicLast : args.Pairwise fun argument _ => argument.passing ≠ .variadic)
    (fit : Fit (argumentMarks dialect args) used)
    (noArgument : headKind (skipEnds rest) ≠ .keyword .argument_) :
    TakesAll (args.map (Argument.mapValue (Expr.denoted dialect))) (skipEnds (used ++ rest))
      (skipEnds rest) := by
  induction args generalizing used with
  | nil =>
      obtain rfl := Fit.nil_iff.mp fit
      exact .done noArgument
  | cons first others ih =>
      obtain ⟨usedFirst, usedOthers, firstFit, othersFit, rfl⟩ := Fit.append_iff.mp fit
      obtain ⟨goesOn, othersLast⟩ := List.pairwise_cons.mp variadicLast
      have takes : Takes _ (usedFirst ++ (usedOthers ++ rest)) (usedOthers ++ rest) :=
        (argsGood first (by simp)).takes firstFit
      have here : skipEnds (usedFirst ++ (usedOthers ++ rest)) = usedFirst ++ (usedOthers ++ rest) :=
        skipEnds_of_headKind (by simp [takes.headKind_eq])
      have othersTake := ih (fun argument member => argsGood argument (by simp [member])) othersLast
        othersFit
      rw [List.append_assoc, here, List.map_cons]
      by_cases variadic : first.passing = .variadic
      · cases others with
        | cons second others => exact absurd variadic (goesOn second (by simp))
        | nil =>
            obtain ⟨name, passing⟩ := first
            obtain rfl : passing = .variadic := variadic
            obtain rfl := Fit.nil_iff.mp othersFit
            exact .last takes
      · exact .more takes (Argument.variadic_mapValue variadic) othersTake

/-! Reading scripts. -/

theorem Script.gathered_doc {script : Script} {lines : List String} {others : List Stmt}
    (bare : script.args = []) (led : Stmt.joinDocs (Stmt.active script.body) = .doc lines :: others) :
    script.gathered = ⟨script.doc ++ lines, [], others⟩ := by
  simp [gathered, bare, led]

theorem Script.gathered_of_ne {script : Script}
    (apart : script.args = [] → ∀ lines others,
      Stmt.joinDocs (Stmt.active script.body) ≠ .doc lines :: others) :
    script.gathered = ⟨script.doc, script.args, Stmt.joinDocs (Stmt.active script.body)⟩ := by
  unfold gathered
  split
  next lines others bare led => exact absurd led (apart bare lines others)
  next => rfl

theorem TakesAll.headKind_eq {args : List Argument} {tokens : List Token}
    (takesAll : TakesAll args tokens rest) (some : args ≠ []) :
    headKind tokens = .keyword .argument_ := by
  cases takesAll with
  | done => exact absurd rfl some
  | last takes | more takes => exact takes.headKind_eq

theorem TakesAll.eq_of_nil {tokens : List Token} (takesAll : TakesAll [] tokens rest) :
    rest = tokens := by
  cases takesAll
  rfl

theorem Lists.noDoc {body : List Stmt} {tokens : List Token} (lists : Lists body tokens)
    (notLed : ∀ lines others, body ≠ .doc lines :: others) :
    headKind (skipEnds tokens) ≠ .docComment := by
  cases lists with
  | finish closes => simp [closes]
  | docs => exact absurd rfl (notLed _ _)
  | statement noDoc => exact noDoc

theorem reads_gathered {script : Script} {middle : List Token}
    (fit : Fit (Stmt.docMarks script.doc) used)
    (takesAll : TakesAll script.args (skipEnds middle) (skipEnds rest))
    (lists : Lists (Stmt.joinDocs (Stmt.active script.body)) rest) :
    ReadsScript script.gathered (used ++ middle) := by
  have bareSame (bare : script.args = []) : skipEnds rest = skipEnds middle :=
    (bare ▸ takesAll).eq_of_nil
  by_cases led : script.args = [] ∧
      ∃ lines others, Stmt.joinDocs (Stmt.active script.body) = .doc lines :: others
  · obtain ⟨bare, lines, others, led⟩ := led
    rw [Script.gathered_doc bare led]
    rw [led] at lists
    cases lists with
    | @docs _ _ _ last _ docs othersList =>
        have noArgument : headKind (skipEnds last) ≠ .keyword .argument_ :=
          othersList.headKind_ne rfl (by simp) (by simp)
        rw [docs.skipEnds_rest] at noArgument
        exact ⟨last, last, reads_docs fit (bareSame bare ▸ docs), .done noArgument, othersList⟩
    | statement _ forms => exact absurd rfl (forms.ne_doc lines)
  · have apart (bare : script.args = []) (lines : List String) (others : List Stmt) :
        Stmt.joinDocs (Stmt.active script.body) ≠ .doc lines :: others :=
      fun same => led ⟨bare, lines, others, same⟩
    have noDoc : headKind (skipEnds middle) ≠ .docComment := by
      by_cases bare : script.args = []
      · rw [← bareSame bare]
        exact lists.noDoc (apart bare)
      · simp [takesAll.headKind_eq bare]
    have docs := reads_docs fit (.done noDoc)
    rw [List.append_nil] at docs
    rw [Script.gathered_of_ne apart]
    exact ⟨skipEnds middle, skipEnds rest, docs, takesAll, lists.congr (skipEnds_idem rest)⟩

/-- The layout of a printed script is read as the script that it denotes. -/
theorem Script.WellFormed.readsBack {script : Script} {dialect : Dialect} {finish : Token}
    (wellFormed : script.WellFormed Expr.Printable) (fit : Fit (script.layout dialect) used)
    (closes : finish.kind = .finish) : ReadsScript (script.denoted dialect) (used ++ [finish]) := by
  obtain ⟨usedDoc, _, docFit, othersFit, rfl⟩ := Fit.append_iff.mp fit
  obtain ⟨usedArgs, usedBody, argsFit, bodyFit, rfl⟩ := Fit.append_iff.mp othersFit
  have lists := reads_body wellFormed.bodyGood bodyFit closes
  have noArgument : headKind (skipEnds (usedBody ++ [finish])) ≠ .keyword .argument_ :=
    lists.headKind_ne rfl (by simp) (by simp)
  have takesAll := reads_arguments wellFormed.argsGood wellFormed.variadicLast argsFit noArgument
  rw [List.append_assoc, List.append_assoc]
  exact reads_gathered docFit takesAll lists

end Reading

end GameScript
