import GameScript.Printer.Writer

/-!
The text of statements as a function of the style alone: what a writer puts out when no margin is
kept.
-/

namespace GameScript

namespace Output

theorem ofText_append (first second : String) :
    ofText (first ++ second) = ofText first ++ ofText second := rfl

theorem text_append {first : Output} (second : Output) (complete : first.stopped = false) :
    (first ++ second).text.toList = first.text.toList ++ second.text.toList := by
  change (append first second).text.toList = _
  simp [append, complete]

theorem append_assoc (first second third : Output) :
    first ++ second ++ third = first ++ (second ++ third) := by
  change append (append first second) third = append first (append second third)
  cases firstStopped : first.stopped with
  | true => simp [append, firstStopped]
  | false =>
      cases secondStopped : second.stopped with
      | true => simp [append, firstStopped, secondStopped]
      | false => simp [append, firstStopped, secondStopped, String.append_assoc]

@[simp] theorem stopped_append (first second : Output) :
    (first ++ second).stopped = (first.stopped || second.stopped) := by
  change (append first second).stopped = _
  unfold append
  cases stopped : first.stopped with
  | true => simp [stopped]
  | false => simp

@[simp] theorem stopped_ofText (text : String) : (ofText text).stopped = false := rfl

end Output

def docText (style : Style) (level : Int) (lines : List String) : String :=
  String.join (lines.map fun line =>
    style.margin level ++ "///" ++ (if line = "" then "" else " " ++ line) ++ "\n")

namespace Stmt

/-- The level of a statement at a place, and the text before it. -/
def Place.lead (style : Style) (level : Int) : Place → String × Int
  | line => (style.margin level, level)
  | body => ("\n" ++ style.margin (level + 1), level + 1)
  | chained => ("", level)

def oneLine (style : Style) (place : Place) (level : Int) (text : String) : Output :=
  Output.ofText ((place.lead style level).1 ++ text ++ ";\n")

mutual

def print (style : Style) (place : Place) (level : Int) : Stmt → Output
  | noop =>
      match place with
      | .body => Output.ofText ";"
      | place => oneLine style place level ""
  | hole =>
      match place with
      | .body => Output.ofText ";"
      | _ => Output.stop
  | assign assignment => oneLine style place level (assignment.text style.dialect)
  | expr value => oneLine style place level (value.text style.dialect)
  | declare declaration => oneLine style place level (declaration.text style.dialect)
  | ret none => oneLine style place level "return"
  | ret (some value) => oneLine style place level ("return " ++ value.text style.dialect)
  | breakLoop => oneLine style place level "break"
  | continueLoop => oneLine style place level "continue"
  | exitScript => oneLine style place level "exit"
  | doc lines =>
      match place with
      | .body => Output.ofText ("\n" ++ docText style (level + 1) lines)
      | _ => Output.ofText (docText style level lines)
  | block body =>
      match place with
      | .body =>
          Output.ofText " \x7b\n" ++ printAll style (level + 1) body ++
            Output.ofText (style.margin level ++ "\x7d")
      | place =>
          Output.ofText ((place.lead style level).1 ++ "\x7b\n") ++
            printAll style (level + 1) body ++ Output.ofText (style.margin level ++ "\x7d\n")
  | branch test yes no =>
      let inner := (place.lead style level).2
      Output.ofText ((place.lead style level).1 ++ "if (" ++ test.text style.dialect ++ ")") ++
        print style .body inner yes ++
        (if no.isHole then Output.ofText yes.lineClose
        else
          Output.ofText (if yes.staysOnLine then " else" else style.margin inner ++ "else") ++
            (if no.isBranch then Output.ofText " " ++ print style .chained inner no
            else print style .body inner no ++ Output.ofText no.lineClose))
  | loop kind test body =>
      let inner := (place.lead style level).2
      let head := loopHead style.dialect kind test
      if testsFirst kind then
        Output.ofText ((place.lead style level).1 ++ head) ++ print style .body inner body ++
          Output.ofText body.lineClose
      else
        Output.ofText ((place.lead style level).1 ++ "do") ++ print style .body inner body ++
          Output.ofText ((if body.staysOnLine then " " else style.margin inner) ++ head ++ ";\n")
  | repeats count body =>
      Output.ofText ((place.lead style level).1 ++ "repeat (" ++ count.text style.dialect ++ ")") ++
        print style .body (place.lead style level).2 body ++ Output.ofText body.lineClose
  | withTarget target body =>
      Output.ofText ((place.lead style level).1 ++ "with (" ++ target.text style.dialect ++ ")") ++
        print style .body (place.lead style level).2 body ++ Output.ofText body.lineClose
  | forLoop init test update body =>
      Output.ofText ((place.lead style level).1 ++ forHeader style.dialect init test update) ++
        print style .body (place.lead style level).2 body ++ Output.ofText body.lineClose

def printAll (style : Style) (level : Int) : List Stmt → Output
  | [] => Output.ofText ""
  | first :: rest =>
      if first.isNoop then printAll style level rest
      else print style .line level first ++ printAll style level rest

end

end Stmt

end GameScript
