import GameScript.Printer.Script
import GameScript.Proofs.Navigation
import GameScript.Proofs.Printing

/-!
Kept margins. Whatever a writer has written before, the margins that it keeps are those of its style,
and a statement has the text that it has without any history.
-/

namespace GameScript

namespace Writer

/-- The writer has the style, and every margin it has made is the one of its level. -/
structure Serves (style : Style) (writer : Writer) : Prop where
  style_eq : writer.style = style
  kept : ∀ (index : Nat) (made : String), writer.margins[index]? = some made →
    made = "" ∨ made = style.margin index

theorem serves_fresh (style : Style) : (fresh style).Serves style :=
  ⟨rfl, by simp [fresh]⟩

namespace Serves

variable {style : Style} {writer : Writer}

theorem extend (serves : writer.Serves style) (count : Nat) :
    Serves style { writer with margins := writer.margins ++ List.replicate count "" } := by
  refine ⟨serves.style_eq, ?_⟩
  intro index made found
  rw [List.getElem?_append] at found
  split at found
  · exact serves.kept index made found
  · rw [List.getElem?_replicate] at found
    split at found
    · exact Or.inl (Option.some.inj found).symm
    · simp at found

theorem set (serves : writer.Serves style) (index : Nat) :
    Serves style { writer with margins := writer.margins.set index (style.margin index) } := by
  refine ⟨serves.style_eq, ?_⟩
  intro other made found
  rw [List.getElem?_set] at found
  split at found
  next same =>
    subst same
    split at found
    · exact Or.inr (Option.some.inj found).symm
    · simp at found
  next => exact serves.kept other made found

theorem margin (serves : writer.Serves style) (level : Int) :
    (writer.margin level).1 = style.margin level ∧ (writer.margin level).2.Serves style := by
  unfold Writer.margin
  by_cases low : level ≤ 0
  · have none : style.margin level = "" := by simp [Style.margin, Int.toNat_of_nonpos low, String.join]
    simp [low, none, serves]
  · have levelled : ((level.toNat : Nat) : Int) = level := Int.toNat_of_nonneg (by omega)
    have extended := serves.extend (level.toNat + 1 - writer.margins.length)
    simp only [low, if_false]
    generalize writer.margins ++ List.replicate _ "" = margins at extended ⊢
    split
    · have setMade := extended.set level.toNat
      rw [levelled] at setMade
      exact ⟨by rw [serves.style_eq], by simpa [serves.style_eq] using setMade⟩
    next made =>
      refine ⟨?_, extended⟩
      cases found : margins[level.toNat]? with
      | none => simp [List.getD_eq_getElem?_getD, found] at made
      | some kept =>
          simp only [List.getD_eq_getElem?_getD, found, Option.getD_some] at made ⊢
          have isMargin := (extended.kept level.toNat kept found).resolve_left made
          rwa [levelled] at isMargin

end Serves

end Writer

/-- The pen puts out the same whatever margins are kept, and keeps only right ones. -/
def Pen.Draws (style : Style) (pen : Pen) (output : Output) : Prop :=
  ∀ writer : Writer, writer.Serves style → (pen writer).1 = output ∧ (pen writer).2.Serves style

namespace Pen.Draws

variable {style : Style}

theorem text (text : String) : (Pen.text text).Draws style (Output.ofText text) :=
  fun _ serves => ⟨rfl, serves⟩

theorem margin (level : Int) :
    (Pen.margin level).Draws style (Output.ofText (style.margin level)) := by
  intro writer serves
  obtain ⟨made, after⟩ := serves.margin level
  exact ⟨congrArg Output.ofText made, after⟩

theorem stop : Pen.stop.Draws style Output.stop :=
  fun _ serves => ⟨rfl, serves⟩

theorem append {first second : Pen} {begun later : Output} (firstDraws : first.Draws style begun)
    (secondDraws : second.Draws style later) : (first ++ second).Draws style (begun ++ later) := by
  intro writer serves
  obtain ⟨isBegun, middle⟩ := firstDraws writer serves
  change (Pen.append first second writer).1 = begun ++ later ∧
    (Pen.append first second writer).2.Serves style
  unfold Pen.append
  simp only [isBegun]
  split
  next stopped => exact ⟨(if_pos stopped).symm, middle⟩
  next =>
    obtain ⟨isLater, last⟩ := secondDraws _ middle
    exact ⟨congrArg (begun ++ ·) isLater, last⟩

theorem onMargin (level : Int) (text : String) :
    (Pen.onMargin level text).Draws style (Output.ofText (style.margin level ++ text)) :=
  (margin level).append (.text text)

theorem lines (level : Int) (lines : List String) :
    (Pen.lines level lines).Draws style
      (Output.ofText (String.join (lines.map (style.margin level ++ · ++ "\n")))) := by
  induction lines with
  | nil => exact .text ""
  | cons line rest ih =>
      rw [List.map_cons, String.join_cons, Output.ofText_append, String.append_assoc]
      exact (onMargin level (line ++ "\n")).append ih

end Pen.Draws

namespace Stmt

variable {style : Style}

theorem Place.lead_level (place : Place) (level : Int) :
    (place.lead style level).2 = place.level level := by
  cases place <;> rfl

theorem Place.draws (place : Place) (level : Int) (text : String) :
    (place.pen level text).Draws style (Output.ofText ((place.lead style level).1 ++ text)) := by
  cases place with
  | line => exact .onMargin level text
  | body =>
      have behind : (Pen.onMargin (level + 1) text).Draws style _ := .onMargin (level + 1) text
      have whole := (Pen.Draws.text "\n").append behind
      rwa [← Output.ofText_append, ← String.append_assoc] at whole
  | chained =>
      simp only [Place.lead, String.empty_append]
      exact .text text

theorem Place.draws_line (place : Place) (level : Int) (text : String) :
    (place.pen level (text ++ ";\n")).Draws style (oneLine style place level text) := by
  have drawn : (place.pen level (text ++ ";\n")).Draws style _ := place.draws level (text ++ ";\n")
  rwa [← String.append_assoc] at drawn

theorem docPen_draws (level : Int) (lines : List String) :
    (docPen level lines).Draws style (Output.ofText (docText style level lines)) := by
  have drawn : (docPen level lines).Draws style _ := .lines level _
  simpa [docText, Function.comp_def, String.append_assoc] using drawn

end Stmt

def Node.DrawsPrint (style : Style) : Node → Prop
  | list statements => ∀ level : Int,
      (Stmt.penAll style.dialect level statements).Draws style (Stmt.printAll style level statements)
  | statement inner => ∀ (place : Stmt.Place) (level : Int),
      (inner.pen style.dialect place level).Draws style (inner.print style place level)

namespace Node.DrawsPrint

variable {style : Style}

theorem list {statements : List Stmt}
    (draws : ∀ inner ∈ statements, (statement inner).DrawsPrint style) :
    (list statements).DrawsPrint style := by
  intro level
  induction statements with
  | nil => exact .text ""
  | cons first rest ih =>
      have later := ih fun inner isItem => draws inner (List.mem_cons_of_mem first isItem)
      cases noop : first.isNoop with
      | true => simpa [Stmt.penAll, Stmt.printAll, noop] using later
      | false =>
          have here := draws first List.mem_cons_self .line level
          simpa [Stmt.penAll, Stmt.printAll, noop] using here.append later

theorem headed {body : Stmt} (draws : (statement body).DrawsPrint style) (place : Stmt.Place)
    (level : Int) (head : String) :
    (place.pen level head ++ body.pen style.dialect .body (place.level level) ++
        Pen.text body.lineClose).Draws style
      (Output.ofText ((place.lead style level).1 ++ head) ++
        body.print style .body (place.lead style level).2 ++ Output.ofText body.lineClose) := by
  rw [place.lead_level]
  exact ((place.draws level head).append (draws .body _)).append (.text _)

theorem otherwise {no : Stmt} (draws : (statement no).DrawsPrint style) (level : Int) :
    (if no.isBranch then Pen.text " " ++ no.pen style.dialect .chained level
      else no.pen style.dialect .body level ++ Pen.text no.lineClose).Draws style
      (if no.isBranch then Output.ofText " " ++ no.print style .chained level
      else no.print style .body level ++ Output.ofText no.lineClose) := by
  split
  · exact (Pen.Draws.text " ").append (draws .chained level)
  · exact (draws .body level).append (.text _)

theorem block {body : List Stmt} (inside : (Node.list body).DrawsPrint style) :
    (statement (.block body)).DrawsPrint style := by
  intro place level
  have closed (start : Pen) (begun : Output) (closing : String) (starts : start.Draws style begun) :
      (start ++ Stmt.penAll style.dialect (level + 1) body ++ Pen.onMargin level closing).Draws style
        (begun ++ Stmt.printAll style (level + 1) body ++
          Output.ofText (style.margin level ++ closing)) :=
    (starts.append (inside (level + 1))).append (.onMargin level closing)
  cases place with
  | body => exact closed _ _ _ (.text _)
  | line => exact closed _ _ _ (Stmt.Place.draws .line level _)
  | chained => exact closed _ _ _ (Stmt.Place.draws .chained level _)

theorem branch {test : Expr} {yes no : Stmt} (yesDraws : (statement yes).DrawsPrint style)
    (noDraws : (statement no).DrawsPrint style) :
    (statement (.branch test yes no)).DrawsPrint style := by
  intro place level
  have begun := (place.draws level ("if (" ++ test.text style.dialect ++ ")")).append
    (yesDraws .body (place.level level))
  have word : (if yes.staysOnLine then Pen.text " else"
      else Pen.onMargin (place.level level) "else").Draws style
      (Output.ofText (if yes.staysOnLine then " else"
        else style.margin (place.level level) ++ "else")) := by
    split
    · exact .text " else"
    · exact .onMargin _ "else"
  have whole := begun.append (word.append (noDraws.otherwise (place.level level)))
  cases absent : no.isHole with
  | true =>
      simpa [Stmt.pen, Stmt.print, absent, place.lead_level, String.append_assoc] using
        begun.append (.text yes.lineClose)
  | false =>
      simpa [Stmt.pen, Stmt.print, absent, place.lead_level, String.append_assoc] using whole

theorem loop {kind : LoopKind} {test : Expr} {body : Stmt}
    (inside : (statement body).DrawsPrint style) :
    (statement (.loop kind test body)).DrawsPrint style := by
  intro place level
  have ending : (if body.staysOnLine then
        Pen.text (" " ++ Stmt.loopHead style.dialect kind test ++ ";\n")
      else Pen.onMargin (place.level level)
        (Stmt.loopHead style.dialect kind test ++ ";\n")).Draws style
      (Output.ofText ((if body.staysOnLine then " " else style.margin (place.level level)) ++
        Stmt.loopHead style.dialect kind test ++ ";\n")) := by
    split
    · exact .text _
    · rw [String.append_assoc]
      exact .onMargin _ _
  have tested := ((place.draws level "do").append (inside .body (place.level level))).append ending
  cases first : Stmt.testsFirst kind with
  | true => simpa [Stmt.pen, Stmt.print, first] using inside.headed place level _
  | false => simpa [Stmt.pen, Stmt.print, first, place.lead_level] using tested

theorem statement {inner : Stmt}
    (draws : ∀ step part, (step, part) ∈ (statement inner).parts → part.DrawsPrint style) :
    (statement inner).DrawsPrint style := by
  intro place level
  cases inner with
  | block body => exact block (draws .body _ (by simp [parts])) place level
  | branch test yes no =>
      exact branch (draws .body _ (by simp [parts])) (draws .otherwise _ (by simp [parts])) place level
  | loop kind test body => exact loop (draws .body _ (by simp [parts])) place level
  | repeats count body =>
      have inside : (Node.statement body).DrawsPrint style := draws .body _ (by simp [parts])
      simpa [Stmt.pen, Stmt.print, String.append_assoc] using
        inside.headed place level ("repeat (" ++ count.text style.dialect ++ ")")
  | withTarget target body =>
      have inside : (Node.statement body).DrawsPrint style := draws .body _ (by simp [parts])
      simpa [Stmt.pen, Stmt.print, String.append_assoc] using
        inside.headed place level ("with (" ++ target.text style.dialect ++ ")")
  | forLoop init test update body =>
      have inside : (Node.statement body).DrawsPrint style := draws .body _ (by simp [parts])
      exact inside.headed place level _
  | hole =>
      cases place with
      | body => exact .text ";"
      | line | chained => exact .stop
  | noop =>
      cases place with
      | body => exact .text ";"
      | line => exact Stmt.Place.draws_line .line level ""
      | chained => exact Stmt.Place.draws_line .chained level ""
  | doc lines =>
      cases place with
      | body => exact (Pen.Draws.text "\n").append (Stmt.docPen_draws (level + 1) lines)
      | line | chained => exact Stmt.docPen_draws level lines
  | ret value =>
      cases value with
      | none => exact place.draws_line level "return"
      | some value => exact place.draws_line level ("return " ++ value.text style.dialect)
  | assign assignment => exact place.draws_line level _
  | expr value => exact place.draws_line level _
  | declare declaration => exact place.draws_line level _
  | breakLoop => exact place.draws_line level "break"
  | continueLoop => exact place.draws_line level "continue"
  | exitScript => exact place.draws_line level "exit"

end Node.DrawsPrint

theorem Node.drawsPrint (style : Style) (node : Node) : node.DrawsPrint style :=
  ofItems (fun _ => DrawsPrint.list) (fun _ => DrawsPrint.statement) node

namespace Writer

variable {style : Style} {writer : Writer}

theorem Serves.write (serves : writer.Serves style) (level : Int) (statement : Stmt) :
    (writer.write level statement).1 = statement.print style .line level ∧
      (writer.write level statement).2.Serves style := by
  unfold Writer.write
  rw [serves.style_eq]
  exact (Node.statement statement).drawsPrint style .line level writer serves

theorem Serves.writeAll (serves : writer.Serves style) (steps : List (Int × Stmt)) :
    (writer.writeAll steps).1 = steps.map (fun step => step.2.print style .line step.1) ∧
      (writer.writeAll steps).2.Serves style := by
  induction steps generalizing writer with
  | nil => exact ⟨rfl, serves⟩
  | cons step rest ih =>
      obtain ⟨level, statement⟩ := step
      obtain ⟨output, middle⟩ := serves.write level statement
      obtain ⟨outputs, last⟩ := ih middle
      exact ⟨congrArg₂ List.cons output outputs, last⟩

end Writer

/-- A script is printed as without kept margins. -/
theorem Script.print_eq (style : Style) (script : Script) :
    script.print style =
      Output.ofText (docText style 0 script.doc ++
          String.join ((argumentLines style.dialect script.args).map (· ++ "\n"))) ++
        Stmt.printAll style 0 script.body := by
  have arguments : (Pen.lines 0 (argumentLines style.dialect script.args)).Draws style _ :=
    .lines 0 _
  have drawn := ((Stmt.docPen_draws 0 script.doc).append arguments).append
    ((Node.list script.body).drawsPrint style 0)
  have flush : style.margin 0 = "" := rfl
  simp only [flush, String.empty_append, ← Output.ofText_append] at drawn
  exact (drawn _ (Writer.serves_fresh style)).1

end GameScript
