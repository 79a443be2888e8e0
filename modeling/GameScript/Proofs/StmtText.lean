import GameScript.Proofs.ExprText
import GameScript.Proofs.Layout
import GameScript.Proofs.Printing

/-!
The text of statements. Main statement: a well-formed statement is printed in full, and its text
spells the tokens of its layout, with any indentation of spaces and tabs.
-/

namespace GameScript

open Scanner (State Mode isWordChar ahead)

/-! Parts of statements. -/

theorem AssignOp.spelled {op : AssignOp} (known : op ≠ .unknown) :
    ∃ sign : Symbol, sign.text = op.text ∧ sign.assignOp? = some op ∧
      (op.isStep = true → sign.isClosed = true) := by
  cases op with
  | assign => exact ⟨.assign, rfl, rfl, by simp [isStep]⟩
  | add => exact ⟨.plusAssign, rfl, rfl, by simp [isStep]⟩
  | subtract => exact ⟨.minusAssign, rfl, rfl, by simp [isStep]⟩
  | multiply => exact ⟨.starAssign, rfl, rfl, by simp [isStep]⟩
  | divide => exact ⟨.slashAssign, rfl, rfl, by simp [isStep]⟩
  | remainder => exact ⟨.percentAssign, rfl, rfl, by simp [isStep]⟩
  | power => exact ⟨.powerAssign, rfl, rfl, by simp [isStep]⟩
  | bitAnd => exact ⟨.bitAndAssign, rfl, rfl, by simp [isStep]⟩
  | bitOr => exact ⟨.bitOrAssign, rfl, rfl, by simp [isStep]⟩
  | bitXor => exact ⟨.bitXorAssign, rfl, rfl, by simp [isStep]⟩
  | shiftLeft => exact ⟨.shiftLeftAssign, rfl, rfl, by simp [isStep]⟩
  | shiftRight => exact ⟨.shiftRightAssign, rfl, rfl, by simp [isStep]⟩
  | increment => exact ⟨.increment, rfl, rfl, fun _ => rfl⟩
  | decrement => exact ⟨.decrement, rfl, rfl, fun _ => rfl⟩
  | unknown => exact absurd rfl known

theorem spells_assignOp {op : AssignOp} (known : op ≠ .unknown) :
    Spells (fun rest => ahead rest = ' ') op.text.toList [.assignOp op] := by
  obtain ⟨sign, text, found, _⟩ := op.spelled known
  have fits (position : Position) : Mark.Fits (.assignOp op) ⟨.symbol sign, "", position⟩ := found
  rw [← text]
  refine (spells_symbol fits).mono fun rest space => ?_
  rw [space]
  exact sign.next_space

theorem spells_step {op : AssignOp} (alone : op.isStep = true) :
    Spells Always op.text.toList [.assignOp op] := by
  have known : op ≠ .unknown := by
    rintro rfl
    exact Bool.noConfusion alone
  obtain ⟨sign, text, found, closed⟩ := op.spelled known
  have fits (position : Position) : Mark.Fits (.assignOp op) ⟨.symbol sign, "", position⟩ := found
  rw [← text]
  exact spells_closed (closed alone) fits

theorem Expr.Printable.spells_text {x : Expr} (printable : x.Printable) (dialect : Dialect) :
    Spells Delimited (x.text dialect).toList (x.denoted dialect).marks :=
  (Expr.WellFormed.spells_text_startsApart printable dialect).1

theorem Expr.Printable.startsApart {x : Expr} (printable : x.Printable) (dialect : Dialect) :
    StartsApart (x.text dialect).toList :=
  (Expr.WellFormed.spells_text_startsApart printable dialect).2

theorem Assignment.WellFormed.spells_text {assignment : Assignment}
    (wellFormed : assignment.WellFormed Expr.Printable) (dialect : Dialect) :
    Spells Delimited (assignment.text dialect).toList (assignment.denoted dialect).marks ∧
      StartsApart (assignment.text dialect).toList := by
  cases wellFormed with
  | @step target op named alone =>
      have shape : Assignment.text dialect ⟨target, op, none⟩ = target ++ op.text := by
        simp [Assignment.text, alone]
      have joined : Spells Always (target.toList ++ op.text.toList) [.name target, .assignOp op] := by
        refine (spells_name named).append (spells_step alone) fun rest _ => ?_
        cases op with
        | increment | decrement => exact Delimited.cons (by decide) (by decide)
        | _ => exact Bool.noConfusion alone
      rw [Assignment.denoted_step, shape, String.toList_append]
      exact ⟨joined.always, (startsApart_name named).append _⟩
  | @value target op value named known valued printable =>
      have starts := (startsApart_name named).append
      have valueSpells : SpellsExpr _ _ := printable.spells_text dialect
      by_cases lowered : op = .power ∧ dialect = .plain
      · obtain ⟨rfl, rfl⟩ := lowered
        have targetSpells : SpellsExpr target (.ident target) := spells_name named
        have called := spells_call (by decide : isName "power" = true)
          (.cons targetSpells (.cons valueSpells .nil))
        have whole := (spells_name named).spaced
          ((spells_assignOp (by simp : AssignOp.assign ≠ .unknown)).spaced called fun _ => rfl)
          delimited_space
        have shape : (Assignment.text .plain ⟨target, .power, some value⟩).toList =
            target.toList ++ ' ' :: (AssignOp.assign.text.toList ++
              ' ' :: (Expr.callText "power" [target, value.text .plain]).toList) := by
          simp [Assignment.text, AssignOp.isStep, optionalText, AssignOp.text]
        rw [shape]
        exact ⟨whole.always, starts _⟩
      · have whole := (spells_name named).spaced
          ((spells_assignOp known).spaced valueSpells fun _ => rfl) delimited_space
        have shape : (Assignment.text dialect ⟨target, op, some value⟩).toList =
            target.toList ++ ' ' :: (op.text.toList ++ ' ' :: (value.text dialect).toList) := by
          simp [Assignment.text, valued, lowered, optionalText]
        rw [shape, Assignment.denoted_value lowered]
        exact ⟨whole, starts _⟩

theorem spells_equals : Spells (fun rest => ahead rest = ' ') ['='] [.symbol .assign] := by
  have fits (position : Position) :
      Mark.Fits (.symbol .assign) ⟨.symbol .assign, "", position⟩ := rfl
  refine (spells_symbol fits).mono fun rest space => ?_
  rw [space]
  exact Symbol.next_space .assign

theorem startsApart_keyword (word : Keyword) (text : List Char) :
    StartsApart (word.text.toList ++ text) :=
  (startsApart_word word.isWord_text).append text

theorem Declaration.WellFormed.spells_text {declaration : Declaration}
    (wellFormed : declaration.WellFormed Expr.Printable) (dialect : Dialect) :
    Spells Delimited (declaration.text dialect).toList
        (declaration.mapValue (Expr.denoted dialect)).marks ∧
      StartsApart (declaration.text dialect).toList := by
  obtain ⟨name, global, value⟩ := declaration
  have named := spells_name wellFormed.named
  have word : ((if global then "globalvar " else "var ") : String).toList =
      (if global then Keyword.globalvar_ else .var_).text.toList ++ [' '] := by
    cases global <;> rfl
  have keyword := spells_keyword (if global then .globalvar_ else .var_)
  cases value with
  | none =>
      have whole := keyword.spaced named delimited_space
      have shape : (Declaration.text dialect ⟨name, global, none⟩).toList =
          (if global then Keyword.globalvar_ else .var_).text.toList ++ ' ' :: name.toList := by
        simp [Declaration.text, word]
      rw [shape]
      exact ⟨whole, startsApart_keyword _ _⟩
  | some value =>
      have printable : value.Printable := wellFormed.valueGood value rfl
      have whole := keyword.spaced (named.spaced
        (spells_equals.spaced (printable.spells_text dialect) fun _ => rfl) delimited_space)
        delimited_space
      have shape : (Declaration.text dialect ⟨name, global, some value⟩).toList =
          (if global then Keyword.globalvar_ else .var_).text.toList ++
            ' ' :: (name.toList ++ ' ' :: (['='] ++ ' ' :: (value.text dialect).toList)) := by
        simp [Declaration.text, word]
      rw [shape]
      exact ⟨whole, startsApart_keyword _ _⟩

theorem Stmt.IsClause.spells_text {first : Bool} {clause : Stmt}
    (isClause : clause.IsClause Expr.Printable first) (dialect : Dialect) :
    Spells Delimited (clause.clauseText dialect).toList (clause.denoted dialect).lineMarks ∧
      (clause.isNoop = false → StartsApart (clause.clauseText dialect).toList) := by
  cases isClause with
  | noop => exact ⟨Spells.nil _, fun filled => Bool.noConfusion filled⟩
  | assign wellFormed =>
      obtain ⟨spells, starts⟩ := wellFormed.spells_text dialect
      exact ⟨spells, fun _ => starts⟩
  | expr printable => exact ⟨printable.spells_text dialect, fun _ => printable.startsApart dialect⟩
  | declare _ wellFormed =>
      obtain ⟨spells, starts⟩ := wellFormed.spells_text dialect
      exact ⟨spells, fun _ => starts⟩

/-! Lines. -/

def Solid (text : List Char) : Prop :=
  ∃ c rest, text = c :: rest ∧ Text.isBlank c = false

def Lined (text : List Char) : Prop :=
  ∃ indent rest, text = indent ++ rest ∧ indent.all isIndent = true ∧ Solid rest

theorem StartsApart.solid {text : List Char} (starts : StartsApart text) : Solid text := by
  obtain ⟨c, rest, shape, _, full⟩ := starts
  exact ⟨c, rest, shape, full⟩

theorem Solid.lined {text : List Char} (solid : Solid text) : Lined text :=
  ⟨[], text, rfl, rfl, solid⟩

theorem Solid.append {text : List Char} (solid : Solid text) (more : List Char) :
    Solid (text ++ more) := by
  obtain ⟨c, rest, rfl, full⟩ := solid
  exact ⟨c, rest ++ more, rfl, full⟩

theorem isIndent_of_isBlank {c : Char} (full : Text.isBlank c = false) : isIndent c = false := by
  cases indent : isIndent c with
  | false => rfl
  | true =>
      have either : c = ' ' ∨ c = '\t' := by simpa [isIndent] using indent
      rcases either with rfl | rfl <;> exact absurd full (by decide)

theorem Solid.lineStart {text indent : List Char} (solid : Solid text)
    (all : indent.all isIndent = true) : LineStart (indent ++ text) := by
  obtain ⟨c, rest, rfl, full⟩ := solid
  have dropped : (indent ++ c :: rest).dropWhile isIndent = c :: rest := by
    rw [List.dropWhile_append_of_pos (by simpa using all)]
    simp [isIndent_of_isBlank full]
  intro d found
  rw [dropped] at found
  obtain rfl : c = d := by simpa using found
  exact full

theorem Lined.lineStart {text : List Char} (lined : Lined text) (rest : List Char) :
    LineStart (text ++ rest) := by
  obtain ⟨indent, tail, rfl, all, solid⟩ := lined
  rw [List.append_assoc]
  exact (solid.append rest).lineStart all

theorem Lined.append {text : List Char} (lined : Lined text) (more : List Char) :
    Lined (text ++ more) := by
  obtain ⟨indent, tail, rfl, all, solid⟩ := lined
  exact ⟨indent, tail ++ more, by simp, all, solid.append more⟩

theorem lineStart_nil : LineStart [] := by
  intro c found
  simp at found

/-- A text that no word or number before it goes on with. -/
def Detached (text : List Char) : Prop :=
  ∃ c rest, text = c :: rest ∧ isWordChar c = false ∧ c ≠ '.'

theorem Detached.delimited {text : List Char} (detached : Detached text) (rest : List Char) :
    Delimited (text ++ rest) := by
  obtain ⟨c, tail, rfl, notWord, notPoint⟩ := detached
  exact Delimited.cons notWord notPoint

theorem Detached.append {text : List Char} (detached : Detached text) (more : List Char) :
    Detached (text ++ more) := by
  obtain ⟨c, rest, rfl, detached⟩ := detached
  exact ⟨c, rest ++ more, rfl, detached⟩

theorem Style.all_margin {style : Style} (indented : style.indent.toList.all isIndent = true)
    (level : Int) : (style.margin level).toList.all isIndent = true := by
  rw [margin, String.toList_join, List.all_flatMap]
  simp [List.all_replicate, indented]

/-- A text that is printed in full and spells tokens. -/
structure Prints (follow : List Char → Prop) (output : Output) (marks : List Mark) : Prop where
  complete : output.stopped = false
  spells : Spells follow output.text.toList marks

theorem Prints.ofText {follow : List Char → Prop} {text : String} {marks : List Mark}
    (spells : Spells follow text.toList marks) : Prints follow (Output.ofText text) marks :=
  ⟨rfl, spells⟩

theorem Prints.append {follow later : List Char → Prop} {first second : Output}
    {marks others : List Mark} (firstPrints : Prints follow first marks)
    (secondPrints : Prints later second others)
    (joint : ∀ rest, later rest → follow (second.text.toList ++ rest)) :
    Prints later (first ++ second) (marks ++ others) := by
  constructor
  · change (Output.append first second).stopped = false
    simp [Output.append, firstPrints.complete, secondPrints.complete]
  · rw [Output.text_append second firstPrints.complete]
    exact firstPrints.spells.append secondPrints.spells joint

namespace Stmt

def Place.follow (statement : Stmt) : Place → List Char → Prop
  | .body => if statement.staysOnLine then Always else LineStart
  | _ => LineStart

def Place.Starts (text : List Char) : Place → Prop
  | .line => Lined text
  | .body => Detached text
  | .chained => True

theorem Place.Starts.append {place : Place} {text : List Char} (starts : place.Starts text)
    (more : List Char) : place.Starts (text ++ more) := by
  cases place with
  | line => exact Lined.append starts more
  | body => exact Detached.append starts more
  | chained => trivial

theorem Place.follow_eq {statement : Stmt} (leaves : statement.staysOnLine = false) (place : Place) :
    place.follow statement = LineStart := by
  cases place <;> simp [follow, leaves]

end Stmt

structure PrintsAt (place : Stmt.Place) (follow : List Char → Prop) (output : Output)
    (marks : List Mark) : Prop extends Prints follow output marks where
  starts : place.Starts output.text.toList

theorem Prints.closed {body : Stmt} {output : Output} {marks : List Mark}
    (prints : Prints (Stmt.Place.follow body .body) output marks) :
    Prints LineStart (output ++ Output.ofText body.lineClose) (marks ++ body.closeMarks) := by
  unfold Stmt.lineClose Stmt.closeMarks
  cases stays : body.staysOnLine with
  | true =>
      refine prints.append (.ofText spells_lineEnd) fun rest _ => ?_
      simp [Stmt.Place.follow, stays, Always]
  | false =>
      refine prints.append (.ofText (Spells.nil _)) fun rest start => ?_
      simpa [Stmt.Place.follow, stays, Output.ofText] using start

theorem spells_head (word : Keyword) {x : Expr} (printable : x.Printable)
    (dialect : Dialect) :
    Spells Always (word.text ++ " " ++ Expr.parens (x.text dialect)).toList
      (.keyword word :: (Expr.paren (x.denoted dialect)).marks) := by
  have whole := (spells_keyword word).spaced
    (spells_parens (printable.spells_text dialect)) delimited_space
  simpa [Expr.marks] using whole

theorem spells_forHeader {init update : Stmt} {test : Option Expr} {dialect : Dialect}
    (initClause : init.IsClause Expr.Printable true)
    (testGood : ∀ value ∈ test, Expr.Printable value)
    (updateClause : update.IsClause Expr.Printable false) :
    Spells Always (Stmt.forHeader dialect init test update).toList
      (Stmt.forMarks (init.denoted dialect) (test.map (Expr.denoted dialect))
        (update.denoted dialect)) := by
  have opens : Spells Always ['('] [.symbol .leftParen] := spells_sign .leftParen rfl
  have closes : Spells Always [')'] [.symbol .rightParen] := spells_sign .rightParen rfl
  have semicolon : Spells Always [';'] [.symbol .semicolon] := spells_sign .semicolon rfl
  have spaced {text : List Char} {marks : List Mark} (spells : Spells Delimited text marks) :
      Spells Delimited (' ' :: text) marks :=
    (Spells.nil Always).spaced spells fun _ => trivial
  have testSpells : Spells Delimited (test.elim "" (" " ++ ·.text dialect)).toList
      (optionalMarks (test.map (Expr.denoted dialect))) := by
    cases test with
    | none => exact Spells.nil _
    | some test =>
        have printable : test.Printable := testGood test rfl
        simpa [optionalMarks] using spaced (printable.spells_text dialect)
  have updateSpells : Spells Delimited
      (if update.clauseText dialect = "" then "" else " " ++ update.clauseText dialect).toList
      (update.denoted dialect).lineMarks := by
    obtain ⟨spells, starts⟩ := updateClause.spells_text dialect
    split_ifs with empty
    · rwa [empty] at spells
    · simpa using spaced spells
  have updateClosed := updateSpells.before closes (by decide) (by decide)
  have testClosed := testSpells.before (semicolon.append updateClosed fun _ _ => trivial)
    (by decide) (by decide)
  have initClosed := (initClause.spells_text dialect).1.before
    (semicolon.append testClosed fun _ _ => trivial) (by decide) (by decide)
  have whole := (spells_keyword .for_).spaced (opens.append initClosed fun _ _ => trivial)
    delimited_space
  have shape : (Stmt.forHeader dialect init test update).toList = Keyword.for_.text.toList ++
      ' ' :: (['('] ++ ((init.clauseText dialect).toList ++ ';' ::
        ((test.elim "" (" " ++ ·.text dialect)).toList ++ ';' ::
          ((if update.clauseText dialect = "" then "" else " " ++ update.clauseText dialect).toList ++
            [')'])))) := by
    cases test <;> simp [Stmt.forHeader, Keyword.text]
  rw [shape]
  exact whole

def Stmt.PrintsLayout (style : Style) (statement : Stmt) : Prop :=
  ∀ (place : Place) (level : Int), PrintsAt place (place.follow statement)
    (statement.print style place level) (statement.layout style.dialect place)

section Printing

variable {style : Style} (indented : style.indent.toList.all isIndent = true)

include indented

theorem spells_lead (place : Stmt.Place) (level : Int) :
    Spells Solid (place.lead style level).1.toList place.marks := by
  have margin (level : Int) : Spells Always (style.margin level).toList [] :=
    spells_indent (style.all_margin indented level)
  cases place with
  | line => exact (margin level).always
  | chained => exact Spells.nil _
  | body =>
      have whole := spells_lineEnd.append (margin (level + 1)).always fun rest (solid : Solid rest) =>
        solid.lineStart (style.all_margin indented _)
      simpa [Stmt.Place.lead, Stmt.Place.marks] using whole

theorem starts_lead (place : Stmt.Place) (level : Int) {text : List Char} (solid : Solid text) :
    place.Starts ((place.lead style level).1.toList ++ text) := by
  cases place with
  | line => exact ⟨_, text, rfl, style.all_margin indented level, solid⟩
  | chained => trivial
  | body =>
      refine ⟨'\n', (style.margin (level + 1)).toList ++ text, ?_, by decide, by decide⟩
      simp [Stmt.Place.lead]

theorem printsAt_lead {follow : List Char → Prop} (place : Stmt.Place) (level : Int) {text : String}
    {marks : List Mark} (spells : Spells follow text.toList marks) (solid : Solid text.toList) :
    PrintsAt place follow (Output.ofText ((place.lead style level).1 ++ text))
      (place.marks ++ marks) := by
  have shape : ((place.lead style level).1 ++ text).toList =
      (place.lead style level).1.toList ++ text.toList := by simp
  have whole := (spells_lead indented place level).append spells fun rest _ => solid.append rest
  rw [← shape] at whole
  have starts := starts_lead indented place level solid
  rw [← shape] at starts
  exact ⟨.ofText whole, starts⟩

omit indented in
theorem PrintsAt.append {place : Stmt.Place} {follow later : List Char → Prop} {text : String}
    {second : Output} {marks others : List Mark}
    (firstPrints : PrintsAt place follow (Output.ofText text) marks)
    (secondPrints : Prints later second others)
    (joint : ∀ rest, later rest → follow (second.text.toList ++ rest)) :
    PrintsAt place later (Output.ofText text ++ second) (marks ++ others) := by
  refine ⟨firstPrints.toPrints.append secondPrints joint, ?_⟩
  rw [Output.text_append second rfl]
  exact firstPrints.starts.append _

theorem printsAt_oneLine (place : Stmt.Place) (level : Int) {text : String} {line : Stmt}
    (spells : Spells Delimited text.toList line.lineMarks) (solid : Solid text.toList) :
    PrintsAt place LineStart (Stmt.oneLine style place level text)
      (Stmt.oneLineMarks place line) := by
  have semicolon : Spells Always [';'] [.symbol .semicolon] := spells_sign .semicolon rfl
  have ended : Spells LineStart (text ++ ";\n").toList
      (line.lineMarks ++ [.symbol .semicolon, .lineEnd]) := by
    simpa using spells.before (semicolon.append spells_lineEnd fun _ _ => trivial)
      (by decide) (by decide)
  have endedSolid : Solid (text ++ ";\n").toList := by
    rw [String.toList_append]
    exact solid.append _
  rw [Stmt.oneLine, String.append_assoc]
  exact printsAt_lead indented place level ended endedSolid

theorem Prints.resumed {follow : List Char → Prop} {body : Stmt} {output : Output} {text : String}
    {marks others : List Mark} (prints : Prints (Stmt.Place.follow body .body) output marks)
    (level : Int) (spells : Spells follow text.toList others) (solid : Solid text.toList) :
    Prints follow (output ++
      Output.ofText ((if body.staysOnLine then " " else style.margin level) ++ text))
      (marks ++ others) := by
  cases stays : body.staysOnLine with
  | true =>
      have whole : Spells follow (" " ++ text).toList others := by
        simpa using (Spells.nil Always).spaced spells fun _ => trivial
      refine prints.append (.ofText whole) fun rest _ => ?_
      simp [Stmt.Place.follow, stays, Always]
  | false =>
      have all := style.all_margin indented level
      have whole : Spells follow (style.margin level ++ text).toList others := by
        simpa using (spells_indent all).append spells fun _ _ => trivial
      refine prints.append (.ofText whole) fun rest _ => ?_
      rw [Stmt.Place.follow, if_neg (by simp [stays])]
      simpa [Output.ofText] using (solid.append rest).lineStart all

theorem printsAt_headed (place : Stmt.Place) (level : Int) {head : String} {marks : List Mark}
    {body : Stmt} (spells : Spells Always head.toList marks) (solid : Solid head.toList)
    (bodyPrints : body.PrintsLayout style) :
    PrintsAt place LineStart (Output.ofText ((place.lead style level).1 ++ head) ++
        body.print style .body (place.lead style level).2 ++ Output.ofText body.lineClose)
      (place.marks ++ (marks ++ (body.layout style.dialect .body ++ body.closeMarks))) := by
  have bodyClosed := (bodyPrints .body (place.lead style level).2).toPrints.closed
  have whole := (printsAt_lead indented place level spells solid).append bodyClosed
    fun _ _ => trivial
  rwa [List.append_assoc, ← Output.append_assoc] at whole

theorem printsAt_doLoop (place : Stmt.Place) (level : Int) {head : String} {marks : List Mark}
    {body : Stmt} (spells : Spells Always head.toList marks) (solid : Solid head.toList)
    (bodyPrints : body.PrintsLayout style) :
    PrintsAt place LineStart (Output.ofText ((place.lead style level).1 ++ "do") ++
        body.print style .body (place.lead style level).2 ++
        Output.ofText ((if body.staysOnLine then " " else
          style.margin (place.lead style level).2) ++ head ++ ";\n"))
      (place.marks ++ (.keyword .do_ :: (body.layout style.dialect .body ++
        (marks ++ [.symbol .semicolon, .lineEnd])))) := by
  have semicolon : Spells Always [';'] [.symbol .semicolon] := spells_sign .semicolon rfl
  have ended : Spells LineStart (head ++ ";\n").toList (marks ++ [.symbol .semicolon, .lineEnd]) := by
    simpa using spells.append (semicolon.append spells_lineEnd fun _ _ => trivial) fun _ _ => trivial
  have endedSolid : Solid (head ++ ";\n").toList := by
    rw [String.toList_append]
    exact solid.append _
  have bodyAt := bodyPrints .body (place.lead style level).2
  have resumed := bodyAt.toPrints.resumed indented (place.lead style level).2 ended endedSolid
  have word : Spells Delimited "do".toList [.keyword .do_] := spells_keyword .do_
  have whole := (printsAt_lead indented place level word ⟨'d', ['o'], rfl, by decide⟩).append resumed
    fun rest _ => by
      rw [Output.text_append _ bodyAt.complete]
      exact (Detached.append bodyAt.starts _).delimited rest
  rw [← String.append_assoc, ← Output.append_assoc] at whole
  simpa using whole

omit indented in
theorem prints_else (level : Int) {no : Stmt} {before : Output}
    {marks : List Mark} (keyword : Prints Delimited before marks)
    (noPrints : no.PrintsLayout style) :
    Prints LineStart (before ++
        (if no.isBranch then Output.ofText " " ++ no.print style .chained level
        else no.print style .body level ++ Output.ofText no.lineClose))
      (marks ++ (if no.isBranch then no.layout style.dialect .chained
        else no.layout style.dialect .body ++ no.closeMarks)) := by
  split_ifs
  · have space : Spells Always " ".toList [] := spells_indent rfl
    refine keyword.append ((Prints.ofText space).append (noPrints .chained level).toPrints
      fun _ _ => trivial) fun rest _ => ?_
    rw [Output.text_append _ rfl]
    exact delimited_space _
  · have noAt := noPrints .body level
    refine keyword.append noAt.toPrints.closed fun rest _ => ?_
    rw [Output.text_append _ noAt.complete]
    exact (Detached.append noAt.starts _).delimited rest

omit indented in
theorem prints_all (level : Int) {body : List Stmt}
    (each : ∀ statement ∈ body, statement.PrintsLayout style) :
    Prints LineStart (Stmt.printAll style level body) (Stmt.layoutAll style.dialect body) ∧
      ∀ rest, LineStart rest → LineStart ((Stmt.printAll style level body).text.toList ++ rest) := by
  induction body with
  | nil => exact ⟨.ofText (Spells.nil _), fun rest start => start⟩
  | cons first others ih =>
      obtain ⟨othersPrint, starts⟩ := ih fun statement member => each statement (by simp [member])
      unfold Stmt.printAll Stmt.layoutAll
      split_ifs
      · exact ⟨othersPrint, starts⟩
      · have firstAt := each first (by simp) .line level
        refine ⟨firstAt.toPrints.append othersPrint starts, fun rest _ => ?_⟩
        rw [Output.text_append _ firstAt.complete, List.append_assoc]
        exact Lined.lineStart firstAt.starts _

theorem prints_block {follow : List Char → Prop} (level : Int) {body : List Stmt}
    (each : ∀ statement ∈ body, statement.PrintsLayout style) {closing : String}
    {marks : List Mark} (closes : Spells follow closing.toList marks) (solid : Solid closing.toList) :
    Prints follow (Stmt.printAll style (level + 1) body ++
        Output.ofText (style.margin level ++ closing)) (Stmt.layoutAll style.dialect body ++ marks) ∧
      ∀ rest, follow rest → LineStart ((Stmt.printAll style (level + 1) body ++
        Output.ofText (style.margin level ++ closing)).text.toList ++ rest) := by
  have all := style.all_margin indented level
  have closed : Prints follow (Output.ofText (style.margin level ++ closing)) marks :=
    .ofText (by simpa using (spells_indent all).append closes fun _ _ => trivial)
  have lined (rest : List Char) : LineStart ((style.margin level ++ closing).toList ++ rest) := by
    simpa using (solid.append rest).lineStart all
  obtain ⟨bodyPrints, starts⟩ := prints_all (level + 1) each
  refine ⟨bodyPrints.append closed fun rest _ => lined rest, fun rest _ => ?_⟩
  rw [Output.text_append _ bodyPrints.complete, List.append_assoc]
  exact starts _ (lined rest)

/-! The forms of statements: each spells its layout if its parts do. -/

theorem printsLayout_noop : Stmt.noop.PrintsLayout style := by
  intro place level
  have semicolon : Spells Always ";".toList [.symbol .semicolon] := spells_sign .semicolon rfl
  have ended : Spells LineStart ";\n".toList [.symbol .semicolon, .lineEnd] :=
    semicolon.append spells_lineEnd fun _ _ => trivial
  have outside (place : Stmt.Place) :=
    printsAt_lead indented place level ended ⟨';', ['\n'], rfl, by decide⟩
  cases place with
  | body =>
      have detached : Detached ";".toList := ⟨';', [], rfl, by decide, by decide⟩
      have inside : PrintsAt .body Always (Output.ofText ";") _ := ⟨.ofText semicolon, detached⟩
      simpa [Stmt.print, Stmt.layout, Stmt.Place.close, Stmt.Place.follow, Stmt.staysOnLine] using
        inside
  | line =>
      simpa [Stmt.print, Stmt.oneLine, Stmt.layout, Stmt.Place.marks, Stmt.Place.close,
        Stmt.Place.follow] using outside .line
  | chained =>
      simpa [Stmt.print, Stmt.oneLine, Stmt.layout, Stmt.Place.marks, Stmt.Place.close,
        Stmt.Place.follow] using outside .chained

theorem printsLayout_oneLine {line shown : Stmt} {text : String}
    (printed : ∀ place level, line.print style place level = Stmt.oneLine style place level text)
    (laidOut : ∀ place, line.layout style.dialect place = Stmt.oneLineMarks place shown)
    (leaves : line.staysOnLine = false) (spells : Spells Delimited text.toList shown.lineMarks)
    (solid : Solid text.toList) : line.PrintsLayout style := by
  intro place level
  rw [Stmt.Place.follow_eq leaves, printed, laidOut]
  exact printsAt_oneLine indented place level spells solid

theorem printsLayout_ret {value : Option Expr} (printable : ∀ x ∈ value, Expr.Printable x) :
    (Stmt.ret value).PrintsLayout style := by
  have word := spells_keyword .return_
  have starts := startsApart_keyword .return_
  cases value with
  | none =>
      exact printsLayout_oneLine indented (fun _ _ => rfl) (fun _ => rfl) rfl word (starts []).solid
  | some value =>
      have valueSpells := (printable value rfl).spells_text style.dialect
      have shape : ("return " ++ value.text style.dialect).toList =
          Keyword.return_.text.toList ++ ' ' :: (value.text style.dialect).toList := by
        simp [Keyword.text]
      have spells := word.spaced valueSpells delimited_space
      rw [← shape] at spells
      exact printsLayout_oneLine indented (fun _ _ => rfl) (fun _ => rfl) rfl spells
        (shape ▸ (starts _).solid)

omit indented in
theorem append_head (word : Keyword) (lead text : String) :
    lead ++ (word.text ++ " " ++ Expr.parens text) =
      lead ++ (word.text ++ " (") ++ text ++ ")" := by
  apply String.toList_injective
  simp [Expr.parens]

omit indented in
theorem solid_head (word : Keyword) (text : String) :
    Solid (word.text ++ " " ++ Expr.parens text).toList := by
  rw [String.append_assoc, String.toList_append]
  exact (startsApart_keyword word _).solid

theorem printsLayout_headed {whole body : Stmt} (word : Keyword) {head : Expr}
    (printable : head.Printable) (bodyPrints : body.PrintsLayout style)
    (printed : ∀ place level, whole.print style place level =
      Output.ofText ((place.lead style level).1 ++ (word.text ++ " (") ++
        head.text style.dialect ++ ")") ++ body.print style .body (place.lead style level).2 ++
        Output.ofText body.lineClose)
    (laidOut : ∀ place, whole.layout style.dialect place =
      place.marks ++ (.keyword word :: ((Expr.paren (head.denoted style.dialect)).marks ++
        (body.layout style.dialect .body ++ body.closeMarks))))
    (leaves : whole.staysOnLine = false) : whole.PrintsLayout style := by
  intro place level
  rw [Stmt.Place.follow_eq leaves, printed, laidOut, ← append_head]
  exact printsAt_headed indented place level (spells_head word printable style.dialect)
    (solid_head _ _) bodyPrints

theorem printsLayout_branchElse {test : Expr} {yes no : Stmt} (printable : test.Printable)
    (filled : no.isHole = false) (yesPrints : yes.PrintsLayout style)
    (noPrints : no.PrintsLayout style) : (Stmt.branch test yes no).PrintsLayout style := by
  intro place level
  have yesAt := yesPrints .body (place.lead style level).2
  have keyword : Spells Delimited "else".toList [.keyword .else_] := spells_keyword .else_
  have resumed := yesAt.toPrints.resumed indented (place.lead style level).2 keyword
    ⟨'e', ['l', 's', 'e'], rfl, by decide⟩
  have spaced : (if yes.staysOnLine then " " else style.margin (place.lead style level).2) ++
      "else" = if yes.staysOnLine then " else"
        else style.margin (place.lead style level).2 ++ "else" := by
    split_ifs <;> rfl
  rw [spaced] at resumed
  have whole := (printsAt_lead indented place level (spells_head .if_ printable style.dialect)
    (solid_head _ _)).append (prints_else (place.lead style level).2 resumed noPrints)
    fun _ _ => trivial
  rw [append_head, show Keyword.if_.text ++ " (" = "if (" from rfl] at whole
  rw [Stmt.Place.follow_eq rfl]
  simpa [Stmt.print, Stmt.layout, filled, Output.append_assoc] using whole

theorem printsLayout_loop {kind : LoopKind} {test : Expr} {body : Stmt} (printable : test.Printable)
    (bodyPrints : body.PrintsLayout style) : (Stmt.loop kind test body).PrintsLayout style := by
  intro place level
  have head := spells_head kind.word printable style.dialect
  have shape : Stmt.loopHead style.dialect kind test =
      kind.word.text ++ " " ++ Expr.parens (test.text style.dialect) := by
    cases kind <;> rfl
  rw [Stmt.Place.follow_eq rfl]
  unfold Stmt.print Stmt.layout
  rw [shape]
  cases first : Stmt.testsFirst kind with
  | true => simpa using printsAt_headed indented place level head (solid_head _ _) bodyPrints
  | false => simpa using printsAt_doLoop indented place level head (solid_head _ _) bodyPrints

theorem printsLayout_forLoop {init update body : Stmt} {test : Option Expr}
    (initClause : init.IsClause Expr.Printable true)
    (testGood : ∀ value ∈ test, Expr.Printable value)
    (updateClause : update.IsClause Expr.Printable false) (bodyPrints : body.PrintsLayout style) :
    (Stmt.forLoop init test update body).PrintsLayout style := by
  intro place level
  have solid : Solid (Stmt.forHeader style.dialect init test update).toList := by
    simp only [Stmt.forHeader, String.toList_append]
    exact ⟨'f', _, rfl, by decide⟩
  rw [Stmt.Place.follow_eq rfl]
  exact printsAt_headed indented place level (spells_forHeader initClause testGood updateClause)
    solid bodyPrints

theorem printsLayout_block {body : List Stmt}
    (bodyPrints : ∀ statement ∈ body, statement.PrintsLayout style) :
    (Stmt.block body).PrintsLayout style := by
  intro place level
  have opens : Spells LineStart "\x7b\n".toList [.symbol .leftBrace, .lineEnd] :=
    (spells_sign .leftBrace rfl).append spells_lineEnd fun _ _ => trivial
  have closes : Spells Always "\x7d".toList [.symbol .rightBrace] := spells_sign .rightBrace rfl
  have closesLine : Spells LineStart "\x7d\n".toList [.symbol .rightBrace, .lineEnd] :=
    closes.append spells_lineEnd fun _ _ => trivial
  obtain ⟨lineInside, lineStarts⟩ := prints_block indented level bodyPrints closesLine
    ⟨_, _, rfl, by decide⟩
  have outside (place : Stmt.Place) :=
    (printsAt_lead indented place level opens ⟨_, _, rfl, by decide⟩).append lineInside lineStarts
  cases place with
  | body =>
      -- As a body the block opens behind a space, and the line of its last brace goes on.
      have spaced : Spells LineStart " \x7b\n".toList [.symbol .leftBrace, .lineEnd] :=
        (Spells.nil Always).spaced opens fun _ => trivial
      have detached : Detached " \x7b\n".toList := ⟨' ', _, rfl, by decide, by decide⟩
      have opened : PrintsAt .body LineStart (Output.ofText " \x7b\n") _ :=
        ⟨.ofText spaced, detached⟩
      obtain ⟨inside, starts⟩ := prints_block indented level bodyPrints closes
        ⟨_, _, rfl, by decide⟩
      simpa [Stmt.print, Stmt.layout, Output.append_assoc, Stmt.Place.close, Stmt.Place.follow,
        Stmt.staysOnLine] using opened.append inside starts
  | line =>
      simpa [Stmt.print, Stmt.layout, Output.append_assoc, Stmt.Place.marks, Stmt.Place.close,
        Stmt.Place.follow] using outside .line
  | chained =>
      simpa [Stmt.print, Stmt.layout, Output.append_assoc, Stmt.Place.marks, Stmt.Place.close,
        Stmt.Place.follow] using outside .chained

/-- The text of a well-formed statement spells the tokens of its layout. -/
theorem Stmt.WellFormed.printsLayout {statement : Stmt}
    (wellFormed : statement.WellFormed Expr.Printable) : statement.PrintsLayout style := by
  induction wellFormed with
  | noop => exact printsLayout_noop indented
  | assign wellFormed =>
      obtain ⟨spells, starts⟩ := wellFormed.spells_text style.dialect
      exact printsLayout_oneLine indented (fun _ _ => rfl) (fun _ => rfl) rfl spells starts.solid
  | expr printable =>
      exact printsLayout_oneLine indented (fun _ _ => rfl) (fun _ => rfl) rfl
        (printable.spells_text _) (printable.startsApart _).solid
  | declare wellFormed =>
      obtain ⟨spells, starts⟩ := wellFormed.spells_text style.dialect
      exact printsLayout_oneLine indented (fun _ _ => rfl) (fun _ => rfl) rfl spells starts.solid
  | ret printable => exact printsLayout_ret indented printable
  | breakLoop =>
      exact printsLayout_oneLine indented (fun _ _ => rfl) (fun _ => rfl) rfl
        (spells_keyword .break_) (startsApart_keyword .break_ []).solid
  | continueLoop =>
      exact printsLayout_oneLine indented (fun _ _ => rfl) (fun _ => rfl) rfl
        (spells_keyword .continue_) (startsApart_keyword .continue_ []).solid
  | exitScript =>
      exact printsLayout_oneLine indented (fun _ _ => rfl) (fun _ => rfl) rfl
        (spells_keyword .exit_) (startsApart_keyword .exit_ []).solid
  | branch printable _ yesPrints =>
      exact printsLayout_headed indented .if_ printable yesPrints (fun _ _ => rfl) (fun _ => rfl) rfl
  | branchElse printable _ noFormed yesPrints noPrints =>
      exact printsLayout_branchElse indented printable noFormed.isHole_eq_false yesPrints noPrints
  | loop printable _ bodyPrints => exact printsLayout_loop indented printable bodyPrints
  | repeats printable _ bodyPrints =>
      exact printsLayout_headed indented .repeat_ printable bodyPrints (fun _ _ => rfl)
        (fun _ => rfl) rfl
  | withTarget printable _ bodyPrints =>
      exact printsLayout_headed indented .with_ printable bodyPrints (fun _ _ => rfl)
        (fun _ => rfl) rfl
  | forLoop initClause testGood updateClause _ bodyPrints =>
      exact printsLayout_forLoop indented initClause testGood updateClause bodyPrints
  | block _ bodyPrints => exact printsLayout_block indented bodyPrints

end Printing

end GameScript
