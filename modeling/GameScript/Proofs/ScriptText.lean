import GameScript.Proofs.Margins
import GameScript.Proofs.ScriptLayout
import GameScript.Proofs.StmtText

/-!
The text of scripts. Main statement: a well-formed script is printed in full, and its text is read as
the script that it denotes.
-/

namespace GameScript

open Scanner (ahead)

section Printing

variable {style : Style} (indented : style.indent.toList.all isIndent = true)

include indented

/-! Doc comments. -/

theorem spells_docLine (level : Int) {line : String} (good : isDocLine line.toList = true) :
    Spells LineStart ((style.margin level).toList ++ ((docCommentText line).toList ++ ['\n']))
        [.doc line, .lineEnd] ∧
      Lined ((style.margin level).toList ++ ((docCommentText line).toList ++ ['\n'])) := by
  have all := style.all_margin indented level
  have comment := (spells_doc good).append spells_lineEnd fun _ _ => rfl
  have solid : Solid ((docCommentText line).toList ++ ['\n']) := by
    rw [docCommentText, String.toList_append]
    exact ⟨'/', _, rfl, by decide⟩
  exact ⟨(spells_indent all).append comment fun _ _ => trivial, _, _, rfl, all, solid⟩

omit indented in
theorem docText_cons (level : Int) (line : String) (lines : List String) :
    (docText style level (line :: lines)).toList =
      ((style.margin level).toList ++ ((docCommentText line).toList ++ ['\n'])) ++
        (docText style level lines).toList := by
  simp [docText, docCommentText]

theorem spells_docText (level : Int) {lines : List String}
    (each : ∀ line ∈ lines, isDocLine line.toList = true) :
    Spells LineStart (docText style level lines).toList (Stmt.docMarks lines) ∧
      (lines ≠ [] → Lined (docText style level lines).toList) := by
  induction lines with
  | nil => exact ⟨Spells.nil _, fun filled => absurd rfl filled⟩
  | cons line lines ih =>
      obtain ⟨others, othersLined⟩ := ih fun line member => each line (by simp [member])
      obtain ⟨first, firstLined⟩ := spells_docLine indented level (each line (by simp))
      rw [docText_cons]
      refine ⟨first.append others fun rest start => ?_, fun _ => firstLined.append _⟩
      by_cases empty : lines = []
      · subst empty
        exact start
      · exact (othersLined empty).lineStart rest

theorem printsLayout_doc {lines : List String} (filled : lines ≠ [])
    (each : ∀ line ∈ lines, isDocLine line.toList = true) :
    (Stmt.doc lines).PrintsLayout style := by
  intro place level
  rw [Stmt.Place.follow_eq rfl]
  cases place with
  | line =>
      obtain ⟨spells, lined⟩ := spells_docText indented level each
      exact ⟨.ofText spells, lined filled⟩
  | chained =>
      obtain ⟨spells, _⟩ := spells_docText indented level each
      exact ⟨.ofText spells, trivial⟩
  | body =>
      obtain ⟨spells, lined⟩ := spells_docText indented (level + 1) each
      have whole : Spells LineStart ("\n" ++ docText style (level + 1) lines).toList
          (.lineEnd :: Stmt.docMarks lines) := by
        simpa using spells_lineEnd.append spells fun rest _ => (lined filled).lineStart rest
      have detached : Detached ("\n" ++ docText style (level + 1) lines).toList :=
        ⟨'\n', (docText style (level + 1) lines).toList, by simp, by decide, by decide⟩
      exact ⟨.ofText whole, detached⟩

theorem Stmt.Listed.printsLayout {statement : Stmt} (listed : statement.Listed Expr.Printable) :
    statement.PrintsLayout style := by
  cases listed with
  | statement wellFormed => exact wellFormed.printsLayout indented
  | doc filled each => exact printsLayout_doc indented filled each

omit indented in
theorem spells_ellipsis :
    Spells (fun rest => ahead rest ≠ '.') ['.', '.', '.'] [.symbol .ellipsis] := by
  have fits (position : Position) :
      Mark.Fits (.symbol .ellipsis) ⟨.symbol .ellipsis, "", position⟩ := rfl
  refine (spells_symbol fits).mono fun rest noPoint => ?_
  simp [Scanner.State.next, noPoint]

omit indented in
theorem ahead_name {name : String} (named : isName name = true) (rest : List Char) :
    ahead (name.toList ++ rest) ≠ '.' := by
  have word : isWord name.toList = true := by
    simp only [isName, Bool.and_eq_true] at named
    exact named.1
  cases chars : name.toList with
  | nil => simp [chars, isWord] at word
  | cons c more =>
      rintro rfl
      have isPoint : Symbol.ofChar? '.' = some .dot := rfl
      have notLetter := Symbol.isLetter_of_ofChar? isPoint
      simp [chars, isWord, notLetter] at word

omit indented in
theorem Argument.WellFormed.spells_declaration {argument : Argument} (dialect : Dialect)
    (wellFormed : argument.WellFormed Expr.Printable) :
    Spells LineStart (argument.declarationText dialect ++ "\n").toList
      ((argument.mapValue (Expr.denoted dialect)).marks ++ [.lineEnd]) := by
  have word := spells_keyword .argument_
  cases wellFormed with
  | @required name named =>
      have whole := word.spaced ((spells_name named).before spells_lineEnd (by decide) (by decide))
        delimited_space
      simpa [declarationText, Keyword.text, Argument.marks, Argument.mapValue, Passing.mapValue]
        using whole
  | @optional name named => 
      have question : Spells Always ['?'] [.symbol .question] := spells_sign .question rfl
      have whole := word.spaced ((spells_name named).before
        (question.append spells_lineEnd fun _ _ => trivial) (by decide) (by decide)) delimited_space
      simpa [declarationText, Keyword.text, Argument.marks, Argument.mapValue, Passing.mapValue]
        using whole
  | @defaulted name value named printable =>
      have value := (printable.spells_text dialect).before spells_lineEnd (by decide) (by decide)
      have whole := word.spaced ((spells_name named).spaced (spells_equals.spaced value fun _ => rfl)
        delimited_space) delimited_space
      simpa [declarationText, Keyword.text, Argument.marks, Argument.mapValue, Passing.mapValue,
        optionalText, optionalMarks] using whole
  | @variadic name named =>
      have tail := (spells_name named).before spells_lineEnd (by decide) (by decide)
      have whole := word.spaced (spells_ellipsis.append tail fun rest _ => by
        rw [List.append_assoc]
        exact ahead_name named _)
        delimited_space
      simpa [declarationText, Keyword.text, Argument.marks, Argument.mapValue, Passing.mapValue]
        using whole

omit indented in
theorem startsApart_declaration (dialect : Dialect) (argument : Argument) :
    StartsApart (argument.declarationText dialect).toList := by
  obtain ⟨name, passing⟩ := argument
  have word := startsApart_keyword .argument_
  cases passing <;> simp only [Argument.declarationText, String.toList_append, List.append_assoc] <;>
    exact word _

omit indented in
theorem spells_arguments {dialect : Dialect} {args : List Argument}
    (argsGood : ∀ argument ∈ args, argument.WellFormed Expr.Printable) :
    Spells LineStart
        (args.flatMap fun argument => (argument.declarationText dialect ++ "\n").toList)
        (argumentMarks dialect args) ∧
      ∀ rest, LineStart rest → LineStart
        ((args.flatMap fun argument => (argument.declarationText dialect ++ "\n").toList) ++ rest) := by
  induction args with
  | nil => exact ⟨Spells.nil _, fun rest start => start⟩
  | cons first others ih =>
      obtain ⟨othersSpell, starts⟩ := ih fun argument member => argsGood argument (by simp [member])
      have firstSpells := (argsGood first (by simp)).spells_declaration dialect
      refine ⟨firstSpells.append othersSpell starts, fun rest _ => ?_⟩
      rw [List.flatMap_cons, String.toList_append, List.append_assoc, List.append_assoc]
      exact (startsApart_declaration dialect first).solid.lined.lineStart _

/-! Scripts. -/

omit indented in
theorem argumentLines_toList {dialect : Dialect} {args : List Argument}
    (declared : dialect = .extended ∨ args = []) :
    (String.join ((Script.argumentLines dialect args).map (· ++ "\n"))).toList =
      args.flatMap fun argument => (argument.declarationText dialect ++ "\n").toList := by
  rcases declared with rfl | rfl
  · simp [Script.argumentLines, List.flatMap_map]
  · cases dialect <;> rfl

theorem Script.WellFormed.prints {script : Script} (wellFormed : script.WellFormed Expr.Printable)
    (declared : style.dialect = .extended ∨ script.args = []) :
    Prints LineStart (script.print style) (script.layout style.dialect) := by
  obtain ⟨docSpells, docLined⟩ := spells_docText indented 0 wellFormed.docGood
  obtain ⟨argsSpell, argsStart⟩ := spells_arguments wellFormed.argsGood
  obtain ⟨bodyPrints, bodyStart⟩ := prints_all 0 fun statement member =>
    (wellFormed.bodyGood statement member).printsLayout indented
  rw [← argumentLines_toList declared] at argsSpell argsStart
  have headSpells := docSpells.append argsSpell argsStart
  rw [← String.toList_append] at headSpells
  have whole := (Prints.ofText headSpells).append bodyPrints bodyStart
  rw [List.append_assoc] at whole
  rw [print_eq]
  exact whole

theorem Script.WellFormed.tokenize_text {script : Script}
    (wellFormed : script.WellFormed Expr.Printable)
    (declared : style.dialect = .extended ∨ script.args = []) :
    ∃ text tokens finish, script.render? style = some text ∧
      tokenize text.toList = .ok (Token.first :: (tokens ++ [finish])) ∧
      Fit (script.layout style.dialect) tokens ∧ finish.kind = .finish := by
  have prints := wellFormed.prints indented declared
  obtain ⟨tokens, finish, scanned, fit, closes⟩ := prints.spells.tokenize lineStart_nil
  refine ⟨(script.print style).text, tokens, finish, ?_, scanned, fit, closes⟩
  simp [render?, prints.complete]

/-- The text of a script is read as the script that it denotes. -/
theorem Script.WellFormed.parse_text {script : Script} (wellFormed : script.WellFormed Expr.Printable)
    (declared : style.dialect = .extended ∨ script.args = []) :
    ∃ text, script.render? style = some text ∧
      parse text.toList = .ok (script.denoted style.dialect) := by
  obtain ⟨text, tokens, finish, rendered, scanned, fit, closes⟩ :=
    wellFormed.tokenize_text indented declared
  exact ⟨text, rendered, parse_ok_iff.mpr ⟨_, scanned, wellFormed.readsBack fit closes⟩⟩

end Printing

end GameScript
