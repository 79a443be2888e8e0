import GameScript.Batch
import GameScript.Proofs.Margins

/-!
When a script has no text. A hole has none as an item of a list, and one as the body of a statement,
as an absent branch or as a clause of a `for` header. A script without text leaves no trace.
-/

namespace GameScript

/-- A hole is an item of a list at the node or below it. -/
inductive Node.Gapped : Node → Prop where
  | here {statements : List Stmt} (isItem : .hole ∈ statements) : Gapped (.list statements)
  | inside {node part : Node} {step : LocationStep} (isPart : (step, part) ∈ node.parts)
      (gapped : Gapped part) : Gapped node

namespace Node

theorem gapped_list_iff {statements : List Stmt} :
    (list statements).Gapped ↔
      ∃ inner ∈ statements, inner = .hole ∨ (statement inner).Gapped := by
  constructor
  · intro gapped
    cases gapped with
    | here isItem => exact ⟨.hole, isItem, Or.inl rfl⟩
    | inside isPart gapped =>
        obtain ⟨index, inner, found, _, rfl⟩ := mem_parts_list.mp isPart
        exact ⟨inner, List.mem_of_getElem? found, Or.inr gapped⟩
  · rintro ⟨inner, isItem, rfl | gapped⟩
    · exact .here isItem
    · obtain ⟨index, found⟩ := List.mem_iff_getElem?.mp isItem
      exact .inside (mem_parts_list.mpr ⟨index, inner, found, rfl, rfl⟩) gapped

theorem gapped_statement_iff {inner : Stmt} :
    (statement inner).Gapped ↔ ∃ step part, (step, part) ∈ (statement inner).parts ∧ part.Gapped := by
  constructor
  · intro gapped
    cases gapped with
    | inside isPart gapped => exact ⟨_, _, isPart, gapped⟩
  · rintro ⟨step, part, isPart, gapped⟩
    exact .inside isPart gapped

theorem gapped_branch_iff {test : Expr} {yes no : Stmt} :
    (statement (.branch test yes no)).Gapped ↔ (statement yes).Gapped ∨ (statement no).Gapped := by
  rw [gapped_statement_iff]
  simp [parts, or_and_right, exists_or]

end Node

namespace Stmt

theorem stopped_printAll_iff (style : Style) (level : Int) (statements : List Stmt) :
    (printAll style level statements).stopped = true ↔
      ∃ inner ∈ statements, (print style .line level inner).stopped = true := by
  induction statements with
  | nil => simp [printAll]
  | cons first rest ih =>
      cases first with
      | noop => simp [printAll, isNoop, print, oneLine, ih]
      | _ => simp [printAll, isNoop, ih]

end Stmt

/-- Printing stops exactly at gaps. A statement that is a hole is one itself, unless it is a body. -/
def Node.StopsAtGaps : Node → Prop
  | list statements => ∀ (style : Style) (level : Int),
      (Stmt.printAll style level statements).stopped = true ↔ (list statements).Gapped
  | statement inner => ∀ (style : Style) (place : Stmt.Place) (level : Int),
      (inner.print style place level).stopped = true ↔
        (inner = .hole ∧ place ≠ .body) ∨ (statement inner).Gapped

namespace Node.StopsAtGaps

theorem body {inner : Stmt} (stops : (statement inner).StopsAtGaps) (style : Style) (level : Int) :
    (inner.print style .body level).stopped = true ↔ (statement inner).Gapped := by
  simpa using stops style .body level

theorem list {statements : List Stmt}
    (stops : ∀ inner ∈ statements, (statement inner).StopsAtGaps) :
    (list statements).StopsAtGaps := by
  intro style level
  rw [Stmt.stopped_printAll_iff, gapped_list_iff]
  refine exists_congr fun inner => and_congr_right fun isItem => ?_
  simpa using stops inner isItem style .line level

theorem otherwise {no : Stmt} (stops : (statement no).StopsAtGaps) (style : Style) (level : Int) :
    no.isHole = false ∧ (if no.isBranch then no.print style .chained level
      else no.print style .body level).stopped = true ↔ (statement no).Gapped := by
  cases no with
  | hole => simp [Stmt.isHole, gapped_statement_iff, parts]
  | branch test yes no =>
      simpa [Stmt.isHole, Stmt.isBranch] using stops style .chained level
  | _ => simpa [Stmt.isHole, Stmt.isBranch] using stops.body style level

theorem statement {inner : Stmt}
    (stops : ∀ step part, (step, part) ∈ (statement inner).parts → part.StopsAtGaps) :
    (statement inner).StopsAtGaps := by
  intro style place level
  cases inner with
  | block body =>
      have inside : (Node.list body).StopsAtGaps := stops .body _ (by simp [parts])
      have gapped := inside style (level + 1)
      cases place <;> simp [Stmt.print, gapped_statement_iff, parts, gapped]
  | branch test yes no =>
      have yesStops : (Node.statement yes).StopsAtGaps := stops .body _ (by simp [parts])
      have noStops : (Node.statement no).StopsAtGaps := stops .otherwise _ (by simp [parts])
      have yesGapped := yesStops.body style (place.lead style level).2
      have noGapped := noStops.otherwise style (place.lead style level).2
      rw [gapped_branch_iff, ← yesGapped, ← noGapped]
      cases absent : no.isHole <;> cases chained : no.isBranch <;>
        simp [Stmt.print, absent, chained]
  | loop kind test body =>
      have inside : (Node.statement body).StopsAtGaps := stops .body _ (by simp [parts])
      have gapped := inside.body style (place.lead style level).2
      cases first : Stmt.testsFirst kind <;>
        simp [Stmt.print, first, gapped_statement_iff, parts, gapped]
  | repeats count body =>
      have inside : (Node.statement body).StopsAtGaps := stops .body _ (by simp [parts])
      have gapped := inside.body style (place.lead style level).2
      simp [Stmt.print, gapped_statement_iff, parts, gapped]
  | withTarget target body =>
      have inside : (Node.statement body).StopsAtGaps := stops .body _ (by simp [parts])
      have gapped := inside.body style (place.lead style level).2
      simp [Stmt.print, gapped_statement_iff, parts, gapped]
  | forLoop init test update body =>
      have inside : (Node.statement body).StopsAtGaps := stops .body _ (by simp [parts])
      have gapped := inside.body style (place.lead style level).2
      simp [Stmt.print, gapped_statement_iff, parts, gapped]
  | hole => cases place <;> simp [Stmt.print, Output.stop, gapped_statement_iff, parts]
  | noop | doc => cases place <;> simp [Stmt.print, Stmt.oneLine, gapped_statement_iff, parts]
  | ret value => cases value <;> simp [Stmt.print, Stmt.oneLine, gapped_statement_iff, parts]
  | _ => simp [Stmt.print, Stmt.oneLine, gapped_statement_iff, parts]

end Node.StopsAtGaps

theorem Node.stopsAtGaps (node : Node) : node.StopsAtGaps :=
  ofItems (fun _ => StopsAtGaps.list) (fun _ => StopsAtGaps.statement) node

namespace Script

def HasGap (script : Script) : Prop :=
  ∃ path statements, script.Leads path (.list statements) ∧ .hole ∈ statements

theorem Leads.hasGap {script : Script} {path : String} {node : Node} (leads : script.Leads path node)
    (gapped : node.Gapped) : script.HasGap := by
  induction gapped generalizing path with
  | here isItem => exact ⟨path, _, leads, isItem⟩
  | inside isPart _ ih => exact ih (leads.step isPart)

theorem Leads.gapped {script : Script} {path : String} {node : Node} (leads : script.Leads path node)
    (gapped : node.Gapped) : (Node.list script.body).Gapped := by
  induction leads with
  | body => exact gapped
  | step _ isPart ih => exact ih (.inside isPart gapped)

theorem hasGap_iff {script : Script} : script.HasGap ↔ (Node.list script.body).Gapped := by
  constructor
  · rintro ⟨path, statements, leads, isItem⟩
    exact leads.gapped (.here isItem)
  · exact Leads.body.hasGap

theorem stopped_print_iff (style : Style) (script : Script) :
    (script.print style).stopped = true ↔ script.HasGap := by
  rw [hasGap_iff, ← (Node.list script.body).stopsAtGaps style 0]
  simp [print_eq]

theorem render_eq (style : Style) (script : Script) :
    script.render style =
      if (script.print style).stopped then .error .incomplete else .ok (script.print style).text := by
  cases stopped : (script.print style).stopped <;> simp [render, render?, stopped]

end Script

/-- A script has no text exactly if a path leads to a list with a hole among its items; holes in any
other place do no harm. A script without text fails as incomplete, and to write it to a file leaves
all files as they were. -/
theorem render_fails_iff_hasGap (style : Style) (script : Script) :
    (script.render style = .error .incomplete ↔ script.HasGap) ∧
      ((∃ text, script.render style = .ok text) ↔ ¬ script.HasGap) ∧
      ∀ {σ : Type} (access : FileAccess σ) (files : σ) (path : String), script.HasGap →
        writeScript access style files path script = (.error (.print .incomplete), files) := by
  rw [← script.stopped_print_iff style]
  simp only [script.render_eq style, writeScript]
  cases (script.print style).stopped <;> simp

/-- In `if (a) ... else { for (...; ; ...) { ... } }` only the innermost hole does harm: the body and
the clauses may be absent. -/
theorem render_fails_iff_hasGap_nested :
    let loop (inner : List Stmt) : Stmt := .forLoop .hole none .hole (.block inner)
    let script (inner : List Stmt) : Script :=
      ⟨[], [], [.branch (.ident "a") .hole (.block [loop inner])]⟩
    let style := Style.ofOptions "" .plain
    ((script [.hole]).HasGap ∧
      writeScript FileTree.access style FileTree.empty "a.gml" (script [.hole]) =
        (.error (.print .incomplete), FileTree.empty)) ∧
      ¬ (script []).HasGap ∧ ∃ text, (script []).render style = .ok text := by
  intro loop script style
  have stops : ((script [.hole]).print style).stopped = true := by decide +kernel
  have ends : ((script []).print style).stopped = false := by decide +kernel
  have gapped := render_fails_iff_hasGap style (script [.hole])
  have whole := render_fails_iff_hasGap style (script [])
  have hasGap : (script [.hole]).HasGap := gapped.1.mp (by simp [Script.render_eq, stops])
  have rendered : ∃ text, (script []).render style = .ok text := by simp [Script.render_eq, ends]
  exact ⟨⟨hasGap, gapped.2.2 _ _ _ hasGap⟩, whole.2.1.mp rendered, rendered⟩

end GameScript
