import GameScript.Proofs.Gaps
import GameScript.Proofs.Margins
import GameScript.Proofs.Words

/-!
Levels. A statement at a level has the lines that it has without one, each of them behind the margin
of the level.
-/

namespace GameScript

/-- Lines of text: those that have ended, and the one that has begun. -/
structure Page where
  ended : List String
  begun : Option String
  ended_unbroken : ∀ line ∈ ended, Unbroken line
  begun_unbroken : ∀ line ∈ begun, Unbroken line

namespace Page

def text (page : Page) (margin : String) : String :=
  String.join (page.ended.map (margin ++ · ++ "\n")) ++
    match page.begun with
    | some line => margin ++ line
    | none => ""

def blank : Page := ⟨[], none, by simp, by simp⟩

def write (page : Page) (text : String) (unbroken : Unbroken text) : Page where
  ended := page.ended
  begun := some (page.begun.getD "" ++ text)
  ended_unbroken := page.ended_unbroken
  begun_unbroken := by
    have line : Unbroken (page.begun.getD "") := by
      cases begun : page.begun with
      | none => decide
      | some line => exact page.begun_unbroken line begun
    simp [line, unbroken]

def endLine (page : Page) : Page where
  ended := page.ended ++ page.begun.toList
  begun := none
  ended_unbroken := by
    intro line isLine
    rcases List.mem_append.1 isLine with isEnded | isBegun
    · exact page.ended_unbroken line isEnded
    · exact page.begun_unbroken line (Option.mem_toList.1 isBegun)
  begun_unbroken := by simp

theorem text_write_begun {page : Page} (begun : page.begun.isSome = true) (margin : String)
    {text : String} (unbroken : Unbroken text) :
    (page.write text unbroken).text margin = page.text margin ++ text := by
  obtain ⟨line, isLine⟩ := Option.isSome_iff_exists.1 begun
  simp [Page.text, write, isLine, String.append_assoc]

theorem text_write_ended {page : Page} (begun : page.begun.isSome = false) (margin : String)
    {text : String} (unbroken : Unbroken text) :
    (page.write text unbroken).text margin = page.text margin ++ (margin ++ text) := by
  have none : page.begun = none := by simpa using begun
  simp [Page.text, write, none]

theorem text_endLine {page : Page} (begun : page.begun.isSome = true) (margin : String) :
    page.endLine.text margin = page.text margin ++ "\n" := by
  obtain ⟨line, isLine⟩ := Option.isSome_iff_exists.1 begun
  simp [Page.text, endLine, isLine, String.append_assoc]

end Page

/-- What is put out at two levels, from a line that has begun or not up to a line that has begun or
not: whatever page `low` continues, `high` continues it behind the margin. After a stop no line has
begun. -/
def Indents (margin : String) (begun begins : Bool) (low high : Output) : Prop :=
  low.stopped = high.stopped ∧
    ∀ page : Page, page.begun.isSome = begun → ∃ after : Page,
      after.begun.isSome = (begins && !low.stopped) ∧
        after.text "" = page.text "" ++ low.text ∧
        after.text margin = page.text margin ++ high.text

namespace Indents

variable {margin : String}

theorem nothing (begun : Bool) : Indents margin begun begun (.ofText "") (.ofText "") :=
  ⟨rfl, fun page isBegun =>
    ⟨page, by simp [isBegun], by simp [Output.ofText], by simp [Output.ofText]⟩⟩

theorem stop : Indents margin false false .stop .stop :=
  ⟨rfl, fun page isBegun =>
    ⟨page, by simp [isBegun], by simp [Output.stop], by simp [Output.stop]⟩⟩

theorem inLine {text : String} (unbroken : Unbroken text) :
    Indents margin true true (.ofText text) (.ofText text) :=
  ⟨rfl, fun page begun => ⟨page.write text unbroken, rfl, Page.text_write_begun begun "" unbroken,
    Page.text_write_begun begun margin unbroken⟩⟩

theorem endLine : Indents margin true false (.ofText "\n") (.ofText "\n") :=
  ⟨rfl, fun page begun => ⟨page.endLine, rfl, Page.text_endLine begun "",
    Page.text_endLine begun margin⟩⟩

theorem newLine {text : String} (unbroken : Unbroken text) :
    Indents margin false true (.ofText text) (.ofText (margin ++ text)) := by
  refine ⟨rfl, fun page begun => ⟨page.write text unbroken, rfl, ?_, ?_⟩⟩
  · simpa [Output.ofText] using Page.text_write_ended begun "" unbroken
  · exact Page.text_write_ended begun margin unbroken

theorem append {first second third : Bool} {low high later higher : Output}
    (front : Indents margin first second low high)
    (back : Indents margin second third later higher) :
    Indents margin first third (low ++ later) (high ++ higher) := by
  obtain ⟨stopsAlike, fronts⟩ := front
  obtain ⟨endsAlike, backs⟩ := back
  refine ⟨by simp [stopsAlike, endsAlike], fun page begun => ?_⟩
  obtain ⟨middle, isMiddle, lowMiddle, highMiddle⟩ := fronts page begun
  cases stops : low.stopped with
  | true =>
      have lowEnds : low ++ later = low := if_pos stops
      have highEnds : high ++ higher = high := if_pos (stopsAlike ▸ stops)
      rw [lowEnds, highEnds]
      exact ⟨middle, by simp [isMiddle, stops], lowMiddle, highMiddle⟩
  | false =>
      obtain ⟨after, isAfter, lowAfter, highAfter⟩ := backs middle (by simp [isMiddle, stops])
      have lowWhole : low ++ later = ⟨low.text ++ later.text, later.stopped⟩ :=
        if_neg (by simp [stops])
      have highWhole : high ++ higher = ⟨high.text ++ higher.text, higher.stopped⟩ :=
        if_neg (by simp [← stopsAlike, stops])
      rw [lowWhole, highWhole]
      refine ⟨after, isAfter, ?_, ?_⟩
      · rw [lowAfter, lowMiddle, String.append_assoc]
      · rw [highAfter, highMiddle, String.append_assoc]

theorem lineEnd {text : String} (unbroken : Unbroken text) :
    Indents margin true false (.ofText (text ++ "\n")) (.ofText (text ++ "\n")) :=
  (inLine unbroken).append endLine

end Indents

/-! The pieces of statements. -/

structure Above (count : Nat) (low high : Int) : Prop where
  zero_le : 0 ≤ low
  eq_add : high = low + count

theorem Above.inner {count : Nat} {low high : Int} (above : Above count low high) :
    Above count (low + 1) (high + 1) := by
  obtain ⟨zero_le, eq_add⟩ := above
  constructor <;> omega

theorem Above.margin_eq {count : Nat} {low high : Int} (above : Above count low high)
    (style : Style) : style.margin high = style.margin count ++ style.margin low := by
  have total : high.toNat = count + low.toNat := by
    obtain ⟨zero_le, eq_add⟩ := above
    omega
  unfold Style.margin
  rw [total, List.replicate_add, String.join_append]
  rfl

theorem Style.unbroken_margin {style : Style} (unbroken : Unbroken style.indent) (level : Int) :
    Unbroken (style.margin level) := by
  unfold margin
  induction level.toNat with
  | zero => simp +decide
  | succ count ih => simpa [List.replicate_succ] using ⟨unbroken, ih⟩

namespace Stmt

variable {style : Style} {count : Nat} {low high : Int}

theorem Place.above_lead (place : Place) (above : Above count low high) :
    Above count (place.lead style low).2 (place.lead style high).2 := by
  cases place with
  | line | chained => exact above
  | body => exact above.inner

def Place.continues : Place → Bool
  | line => false
  | body | chained => true

theorem indents_margin (unbroken : Unbroken style.indent) (above : Above count low high)
    {text : String} (inLine : Unbroken text) :
    Indents (style.margin count) false true (.ofText (style.margin low ++ text))
      (.ofText (style.margin high ++ text)) := by
  have whole : Unbroken (style.margin low ++ text) := by
    simp [Style.unbroken_margin unbroken, inLine]
  rw [above.margin_eq style, String.append_assoc]
  exact .newLine whole

theorem Place.indents (unbroken : Unbroken style.indent) (above : Above count low high)
    (place : Place) {text : String} (inLine : Unbroken text) :
    Indents (style.margin count) place.continues true
      (.ofText ((place.lead style low).1 ++ text)) (.ofText ((place.lead style high).1 ++ text)) := by
  cases place with
  | line => exact indents_margin unbroken above inLine
  | body =>
      have behind := Indents.endLine.append (indents_margin unbroken above.inner inLine)
      rwa [← Output.ofText_append, ← Output.ofText_append, ← String.append_assoc,
        ← String.append_assoc] at behind
  | chained =>
      simp only [lead, String.empty_append]
      exact .inLine inLine

theorem indents_lineClose (margin : String) (body : Stmt) :
    Indents margin body.staysOnLine false (.ofText body.lineClose) (.ofText body.lineClose) := by
  unfold lineClose
  cases body.staysOnLine with
  | true => exact .endLine
  | false => exact .nothing false

theorem indents_oneLine (unbroken : Unbroken style.indent) (above : Above count low high)
    (place : Place) {text : String} (inLine : Unbroken text) :
    Indents (style.margin count) place.continues false (oneLine style place low text)
      (oneLine style place high text) :=
  (place.indents unbroken above inLine).append (.lineEnd (by decide : Unbroken ";"))

theorem indents_docText (unbroken : Unbroken style.indent) (above : Above count low high)
    {lines : List String} (each : ∀ line ∈ lines, Unbroken line) :
    Indents (style.margin count) false false (.ofText (docText style low lines))
      (.ofText (docText style high lines)) := by
  induction lines with
  | nil => exact .nothing false
  | cons line rest ih =>
      rw [List.forall_mem_cons] at each
      have words : Unbroken (if line = "" then "" else " " ++ line) := by
        split
        · decide
        · simp +decide [each.1]
      have comment : Unbroken ("///" ++ (if line = "" then "" else " " ++ line)) := by
        simp +decide [words]
      have whole := ((indents_margin unbroken above comment).append .endLine).append (ih each.2)
      simpa [docText, ← Output.ofText_append, String.append_assoc] using whole

end Stmt

def Node.KeepsLines (style : Style) (count : Nat) : Node → Prop
  | list statements => (∀ word ∈ Stmt.wordsAll statements, Unbroken word) →
      ∀ low high : Int, Above count low high →
        Indents (style.margin count) false false (Stmt.printAll style low statements)
          (Stmt.printAll style high statements)
  | statement inner => (∀ word ∈ inner.words, Unbroken word) →
      ∀ (place : Stmt.Place) (low high : Int), (place = .chained → inner.isBranch = true) →
        Above count low high →
        Indents (style.margin count) place.continues (inner.staysOnLine && place.continues)
          (inner.print style place low) (inner.print style place high)

namespace Node.KeepsLines

variable {style : Style} {count : Nat} {low high : Int}

theorem onLine {inner : Stmt} (indents : (statement inner).KeepsLines style count)
    (each : ∀ word ∈ inner.words, Unbroken word) (above : Above count low high) :
    Indents (style.margin count) false false (inner.print style .line low)
      (inner.print style .line high) := by
  simpa [Stmt.Place.continues] using indents each .line low high (by simp) above

theorem asBody {inner : Stmt} (indents : (statement inner).KeepsLines style count)
    (each : ∀ word ∈ inner.words, Unbroken word) (above : Above count low high) :
    Indents (style.margin count) true inner.staysOnLine (inner.print style .body low)
      (inner.print style .body high) := by
  simpa [Stmt.Place.continues] using indents each .body low high (by simp) above

theorem list {statements : List Stmt}
    (indents : ∀ inner ∈ statements, (statement inner).KeepsLines style count) :
    (list statements).KeepsLines style count := by
  intro each low high above
  induction statements with
  | nil => exact .nothing false
  | cons first rest ih =>
      simp only [Stmt.wordsAll, List.forall_mem_append] at each
      rw [List.forall_mem_cons] at indents
      have later := ih indents.2 each.2
      cases noop : first.isNoop with
      | true => simpa [Stmt.printAll, noop] using later
      | false =>
          have here := indents.1.onLine each.1 above
          simpa [Stmt.printAll, noop] using here.append later

theorem headed {body : Stmt} (indents : (statement body).KeepsLines style count)
    (each : ∀ word ∈ body.words, Unbroken word) (unbroken : Unbroken style.indent)
    (above : Above count low high) (place : Stmt.Place) {head : String} (inLine : Unbroken head) :
    Indents (style.margin count) place.continues body.staysOnLine
      (Output.ofText ((place.lead style low).1 ++ head) ++
        body.print style .body (place.lead style low).2)
      (Output.ofText ((place.lead style high).1 ++ head) ++
        body.print style .body (place.lead style high).2) :=
  (place.indents unbroken above inLine).append (indents.asBody each (place.above_lead above))

theorem headedOnly {body : Stmt} (indents : (statement body).KeepsLines style count)
    (each : ∀ word ∈ body.words, Unbroken word) (unbroken : Unbroken style.indent)
    (above : Above count low high) (place : Stmt.Place) {head : String} (inLine : Unbroken head) :
    Indents (style.margin count) place.continues false
      (Output.ofText ((place.lead style low).1 ++ head) ++
        body.print style .body (place.lead style low).2 ++ Output.ofText body.lineClose)
      (Output.ofText ((place.lead style high).1 ++ head) ++
        body.print style .body (place.lead style high).2 ++ Output.ofText body.lineClose) :=
  (indents.headed each unbroken above place inLine).append (Stmt.indents_lineClose _ body)

theorem otherwise {no : Stmt} (indents : (statement no).KeepsLines style count)
    (each : ∀ word ∈ no.words, Unbroken word) (above : Above count low high) :
    Indents (style.margin count) true false
      (if no.isBranch then Output.ofText " " ++ no.print style .chained low
      else no.print style .body low ++ Output.ofText no.lineClose)
      (if no.isBranch then Output.ofText " " ++ no.print style .chained high
      else no.print style .body high ++ Output.ofText no.lineClose) := by
  cases no with
  | branch test first second =>
      exact (Indents.inLine (by decide : Unbroken " ")).append
        (indents each .chained low high (fun _ => rfl) above)
  | _ => exact (indents.asBody each above).append (Stmt.indents_lineClose _ _)

theorem block (unbroken : Unbroken style.indent) {body : List Stmt}
    (inside : (Node.list body).KeepsLines style count) :
    (statement (.block body)).KeepsLines style count := by
  intro each place low high chain above
  have middle := inside each _ _ above.inner
  have closing := Stmt.indents_margin unbroken above (by decide : Unbroken "\x7d")
  cases place with
  | line =>
      have opening := (Stmt.Place.indents unbroken above .line
        (by decide : Unbroken "\x7b")).append .endLine
      simpa [Stmt.print, Stmt.Place.continues, ← Output.ofText_append, String.append_assoc] using
        (opening.append middle).append (closing.append .endLine)
  | body => exact ((Indents.lineEnd (by decide : Unbroken " \x7b")).append middle).append closing
  | chained => simp [Stmt.isBranch] at chain

theorem branch (unbroken : Unbroken style.indent) {test : Expr} {yes no : Stmt}
    (yesIndents : (statement yes).KeepsLines style count)
    (noIndents : (statement no).KeepsLines style count) :
    (statement (.branch test yes no)).KeepsLines style count := by
  intro each place low high _ above
  simp only [Stmt.words, List.forall_mem_append] at each
  obtain ⟨⟨testEach, yesEach⟩, noEach⟩ := each
  have within : Above count (place.lead style low).2 (place.lead style high).2 :=
    place.above_lead above
  have head : Unbroken ("if (" ++ test.text style.dialect ++ ")") := by
    simp +decide [test.unbroken_text style.dialect testEach]
  have begun := yesIndents.headed yesEach unbroken above place head
  -- The word goes on in the line of a body that stays on it, and else begins a line.
  have word : Indents (style.margin count) yes.staysOnLine true
      (.ofText (if yes.staysOnLine then " else"
        else style.margin (place.lead style low).2 ++ "else"))
      (.ofText (if yes.staysOnLine then " else"
        else style.margin (place.lead style high).2 ++ "else")) := by
    cases yes.staysOnLine with
    | true => exact .inLine (by decide : Unbroken " else")
    | false => exact Stmt.indents_margin unbroken within (by decide)
  have whole := begun.append (word.append (noIndents.otherwise noEach within))
  cases absent : no.isHole with
  | true =>
      simpa [Stmt.print, absent, Stmt.staysOnLine, String.append_assoc] using
        begun.append (Stmt.indents_lineClose _ yes)
  | false => simpa [Stmt.print, absent, Stmt.staysOnLine, String.append_assoc] using whole

theorem loop (unbroken : Unbroken style.indent) {kind : LoopKind} {test : Expr} {body : Stmt}
    (inside : (statement body).KeepsLines style count) :
    (statement (.loop kind test body)).KeepsLines style count := by
  intro each place low high _ above
  simp only [Stmt.words, List.forall_mem_append] at each
  have head := Stmt.unbroken_loopHead style.dialect kind each.1
  have last : Unbroken (Stmt.loopHead style.dialect kind test ++ ";") := by
    simp +decide [head]
  have ending : Indents (style.margin count) body.staysOnLine false
      (.ofText ((if body.staysOnLine then " " else style.margin (place.lead style low).2) ++
        Stmt.loopHead style.dialect kind test ++ ";\n"))
      (.ofText ((if body.staysOnLine then " " else style.margin (place.lead style high).2) ++
        Stmt.loopHead style.dialect kind test ++ ";\n")) := by
    cases body.staysOnLine with
    | true =>
        have inLine : Unbroken (" " ++ (Stmt.loopHead style.dialect kind test ++ ";")) := by
          simp +decide [last]
        simpa [String.append_assoc] using Indents.lineEnd inLine
    | false =>
        simpa [← Output.ofText_append, String.append_assoc] using
          (Stmt.indents_margin unbroken (place.above_lead above) last).append .endLine
  have tested := (inside.headed each.2 unbroken above place (by decide : Unbroken "do")).append
    ending
  cases first : Stmt.testsFirst kind with
  | true =>
      simpa [Stmt.print, first, Stmt.staysOnLine] using
        inside.headedOnly each.2 unbroken above place head
  | false => simpa [Stmt.print, first, Stmt.staysOnLine] using tested

theorem statement (unbroken : Unbroken style.indent) {inner : Stmt}
    (indents : ∀ step part, (step, part) ∈ (statement inner).parts → part.KeepsLines style count) :
    (statement inner).KeepsLines style count := by
  intro each place low high chain above
  have line {text : String} (inLine : Unbroken text) :=
    Stmt.indents_oneLine unbroken above place inLine
  cases inner with
  | block body =>
      exact block unbroken (indents .body _ (by simp [parts])) each place low high chain above
  | branch test yes no =>
      exact branch unbroken (indents .body _ (by simp [parts]))
        (indents .otherwise _ (by simp [parts])) each place low high chain above
  | loop kind test body =>
      exact loop unbroken (indents .body _ (by simp [parts])) each place low high chain above
  | repeats times body =>
      simp only [Stmt.words, List.forall_mem_append] at each
      have inside : (Node.statement body).KeepsLines style count := indents .body _ (by simp [parts])
      have head : Unbroken ("repeat (" ++ times.text style.dialect ++ ")") := by
        simp +decide [times.unbroken_text style.dialect each.1]
      simpa [Stmt.print, String.append_assoc, Stmt.staysOnLine] using
        inside.headedOnly each.2 unbroken above place head
  | withTarget target body =>
      simp only [Stmt.words, List.forall_mem_append] at each
      have inside : (Node.statement body).KeepsLines style count := indents .body _ (by simp [parts])
      have head : Unbroken ("with (" ++ target.text style.dialect ++ ")") := by
        simp +decide [target.unbroken_text style.dialect each.1]
      simpa [Stmt.print, String.append_assoc, Stmt.staysOnLine] using
        inside.headedOnly each.2 unbroken above place head
  | forLoop init test update body =>
      simp only [Stmt.words, List.forall_mem_append] at each
      obtain ⟨⟨⟨initEach, testEach⟩, updateEach⟩, bodyEach⟩ := each
      have inside : (Node.statement body).KeepsLines style count := indents .body _ (by simp [parts])
      exact inside.headedOnly bodyEach unbroken above place
        (Stmt.unbroken_forHeader style.dialect initEach testEach updateEach)
  | hole =>
      cases place with
      | line => exact .stop
      | body => exact .inLine (by decide : Unbroken ";")
      | chained => simp [Stmt.isBranch] at chain
  | noop =>
      cases place with
      | line => exact line (by decide : Unbroken "")
      | body => exact .inLine (by decide : Unbroken ";")
      | chained => simp [Stmt.isBranch] at chain
  | doc lines =>
      cases place with
      | line => exact Stmt.indents_docText unbroken above each
      | body =>
          exact Indents.endLine.append
            (Stmt.indents_docText unbroken above.inner each)
      | chained => simp [Stmt.isBranch] at chain
  | ret value =>
      cases value with
      | none => exact line (by decide : Unbroken "return")
      | some value =>
          have returned := value.unbroken_text style.dialect each
          exact line (by simp +decide [returned] : Unbroken ("return " ++ value.text style.dialect))
  | assign assignment => exact line (assignment.unbroken_text style.dialect each)
  | expr value => exact line (value.unbroken_text style.dialect each)
  | declare declaration => exact line (declaration.unbroken_text style.dialect each)
  | breakLoop => exact line (by decide : Unbroken "break")
  | continueLoop => exact line (by decide : Unbroken "continue")
  | exitScript => exact line (by decide : Unbroken "exit")

end Node.KeepsLines

theorem Node.keepsLines {style : Style} (unbroken : Unbroken style.indent) (count : Nat)
    (node : Node) : node.KeepsLines style count :=
  ofItems (fun _ => KeepsLines.list) (fun _ => KeepsLines.statement unbroken) node

theorem Stmt.exists_lines {style : Style} (unbroken : Unbroken style.indent) {statement : Stmt}
    (each : ∀ word ∈ statement.words, Unbroken word) (count : Nat) :
    ∃ lines : List String, (∀ line ∈ lines, Unbroken line) ∧
      statement.print style .line 0 =
        ⟨String.join (lines.map (· ++ "\n")), (statement.print style .line 0).stopped⟩ ∧
      statement.print style .line count =
        ⟨String.join (lines.map (style.margin count ++ · ++ "\n")),
          (statement.print style .line 0).stopped⟩ := by
  have above : Above count 0 count := ⟨by simp, by simp⟩
  obtain ⟨alike, pages⟩ := (Node.keepsLines unbroken count (.statement statement)).onLine each above
  obtain ⟨after, ended, low, high⟩ := pages .blank rfl
  have isEnded : after.begun = none := by simpa using ended
  have lines (margin : String) :
      after.text margin = String.join (after.ended.map (margin ++ · ++ "\n")) := by
    simp [Page.text, isEnded]
  have blank (margin : String) : Page.blank.text margin = "" := by simp [Page.text, Page.blank]
  rw [lines, blank, String.empty_append] at low high
  refine ⟨after.ended, after.ended_unbroken, ?_, ?_⟩
  · simp only [String.empty_append] at low
    rw [low]
  · rw [high, alike]

/-- Every statement of a tree whose words have no line breaks consists of whole lines. Without a level
they stand as they are, and at a level the margin of the level is put before each of them, whatever
the writer has written before. Only a hole in a list of statements breaks the text off, after the
same line at all levels. -/
theorem write_indents_each_line (style : Style) (statement : Stmt)
    (unbroken : Unbroken style.indent) (each : ∀ word ∈ statement.words, Unbroken word)
    (before earlier : List (Int × Stmt)) (count : Nat) :
    ∃ (lines : List String) (stopped : Bool), (∀ line ∈ lines, Unbroken line) ∧
      (stopped = true ↔ statement = .hole ∨ (Node.statement statement).Gapped) ∧
      (((Writer.fresh style).writeAll before).2.write 0 statement).1 =
        ⟨String.join (lines.map (· ++ "\n")), stopped⟩ ∧
      (((Writer.fresh style).writeAll earlier).2.write count statement).1 =
        ⟨String.join (lines.map (String.join (List.replicate count style.indent) ++ · ++ "\n")),
          stopped⟩ := by
  obtain ⟨lines, linesUnbroken, low, high⟩ := Stmt.exists_lines unbroken each count
  refine ⟨lines, (statement.print style .line 0).stopped, linesUnbroken, ?_, ?_, ?_⟩
  · simpa using (Node.statement statement).stopsAtGaps style .line 0
  · rw [((Writer.serves_fresh style).writeAll before).2.write 0 statement |>.1]
    exact low
  · rw [((Writer.serves_fresh style).writeAll earlier).2.write count statement |>.1]
    exact high

/-- An `if` with an absent body and a loop under `else`, by a writer that has written the same
statement three levels in. -/
theorem write_indents_each_line_branch :
    let style : Style := ⟨"\t", .plain⟩
    let statement : Stmt := .branch (.ident "a") .hole
      (.block [.doc ["b", ""], .loop .doWhile (.literal (.string "c")) .exitScript])
    let written (level : Int) : Output :=
      (((Writer.fresh style).writeAll [(3, statement)]).2.write level statement).1
    Unbroken style.indent ∧ (∀ word ∈ statement.words, Unbroken word) ∧
      ∃ (lines : List String) (stopped : Bool), (∀ line ∈ lines, Unbroken line) ∧
      (stopped = true ↔ statement = .hole ∨ (Node.statement statement).Gapped) ∧
      written 0 = ⟨String.join (lines.map (· ++ "\n")), stopped⟩ ∧
      written (2 : Nat) =
        ⟨String.join (lines.map (String.join (List.replicate 2 "\t") ++ · ++ "\n")), stopped⟩ := by
  intro style statement written
  have unbroken : Unbroken style.indent := by decide
  have each : ∀ word ∈ statement.words, Unbroken word := by
    simp +decide [statement, Stmt.words, Stmt.wordsAll, Expr.words]
  exact ⟨unbroken, each, write_indents_each_line style statement unbroken each _ _ 2⟩

end GameScript
