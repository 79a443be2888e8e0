import GameScript.Printer.Output
import GameScript.Printer.Stmt

/-!
Statements are written one line each, bodies one level deeper, chains of `else if` flat. A margin is
made once and kept for later.
-/

namespace GameScript

/-- A writer: its style, and the margins made so far by their levels. A margin that has not been made
is empty. -/
structure Writer where
  style : Style
  margins : List String
deriving DecidableEq, Repr

namespace Writer

def fresh (style : Style) : Writer := ⟨style, []⟩

def margin (writer : Writer) (level : Int) : String × Writer :=
  if level ≤ 0 then ("", writer)
  else
    let index := level.toNat
    let margins := writer.margins ++ List.replicate (index + 1 - writer.margins.length) ""
    let kept := margins.getD index ""
    -- An indentation may be empty: then each margin is made anew.
    if kept = "" then
      let made := writer.style.margin level
      (made, { writer with margins := margins.set index made })
    else (kept, { writer with margins })

end Writer

/-- What is put out by a writer, and the writer after it. -/
def Pen : Type := Writer → Output × Writer

namespace Pen

def text (text : String) : Pen := fun writer => (Output.ofText text, writer)

def margin (level : Int) : Pen := fun writer =>
  let (made, after) := writer.margin level
  (Output.ofText made, after)

def stop : Pen := fun writer => (Output.stop, writer)

def append (first second : Pen) : Pen := fun writer =>
  let (begun, middle) := first writer
  if begun.stopped then (begun, middle)
  else
    let (later, last) := second middle
    (begun ++ later, last)

instance : Append Pen := ⟨append⟩

def onMargin (level : Int) (text : String) : Pen := margin level ++ Pen.text text

def lines (level : Int) : List String → Pen
  | [] => Pen.text ""
  | line :: rest => onMargin level (line ++ "\n") ++ lines level rest

end Pen

namespace Stmt

def Place.pen (level : Int) (text : String) : Place → Pen
  | line => Pen.onMargin level text
  | body => Pen.text "\n" ++ Pen.onMargin (level + 1) text
  | chained => Pen.text text

def Place.level (level : Int) : Place → Int
  | body => level + 1
  | line | chained => level

def docPen (level : Int) (lines : List String) : Pen :=
  Pen.lines level (lines.map fun line => "///" ++ (if line = "" then "" else " " ++ line))

mutual

/-- Writes a statement. The header of a statement comes first, its body is written at the place
`body`, and a hole has a text only there. -/
def pen (dialect : Dialect) (place : Place) (level : Int) : Stmt → Pen
  | noop =>
      match place with
      | .body => Pen.text ";"
      | place => place.pen level ";\n"
  | hole =>
      match place with
      | .body => Pen.text ";"
      | _ => Pen.stop
  | assign assignment => place.pen level (assignment.text dialect ++ ";\n")
  | expr value => place.pen level (value.text dialect ++ ";\n")
  | declare declaration => place.pen level (declaration.text dialect ++ ";\n")
  | ret none => place.pen level "return;\n"
  | ret (some value) => place.pen level ("return " ++ value.text dialect ++ ";\n")
  | breakLoop => place.pen level "break;\n"
  | continueLoop => place.pen level "continue;\n"
  | exitScript => place.pen level "exit;\n"
  | doc lines =>
      match place with
      | .body => Pen.text "\n" ++ docPen (level + 1) lines
      | _ => docPen level lines
  | block body =>
      match place with
      | .body =>
          Pen.text " \x7b\n" ++ penAll dialect (level + 1) body ++ Pen.onMargin level "\x7d"
      | place =>
          place.pen level "\x7b\n" ++ penAll dialect (level + 1) body ++
            Pen.onMargin level "\x7d\n"
  | branch test yes no =>
      let inner := place.level level
      place.pen level ("if (" ++ test.text dialect ++ ")") ++ pen dialect .body inner yes ++
        (if no.isHole then Pen.text yes.lineClose
        else
          (if yes.staysOnLine then Pen.text " else" else Pen.onMargin inner "else") ++
            -- A chain of `else if` stays at one level.
            (if no.isBranch then Pen.text " " ++ pen dialect .chained inner no
            else pen dialect .body inner no ++ Pen.text no.lineClose))
  | loop kind test body =>
      let inner := place.level level
      let head := loopHead dialect kind test
      if testsFirst kind then
        place.pen level head ++ pen dialect .body inner body ++ Pen.text body.lineClose
      else
        place.pen level "do" ++ pen dialect .body inner body ++
          (if body.staysOnLine then Pen.text (" " ++ head ++ ";\n")
          else Pen.onMargin inner (head ++ ";\n"))
  | repeats count body =>
      place.pen level ("repeat (" ++ count.text dialect ++ ")") ++
        pen dialect .body (place.level level) body ++ Pen.text body.lineClose
  | withTarget target body =>
      place.pen level ("with (" ++ target.text dialect ++ ")") ++
        pen dialect .body (place.level level) body ++ Pen.text body.lineClose
  | forLoop init test update body =>
      place.pen level (forHeader dialect init test update) ++
        pen dialect .body (place.level level) body ++ Pen.text body.lineClose

def penAll (dialect : Dialect) (level : Int) : List Stmt → Pen
  | [] => Pen.text ""
  | first :: rest =>
      if first.isNoop then penAll dialect level rest
      else pen dialect .line level first ++ penAll dialect level rest

end

end Stmt

namespace Writer

def write (writer : Writer) (level : Int) (statement : Stmt) : Output × Writer :=
  statement.pen writer.style.dialect .line level writer

def writeAll (writer : Writer) : List (Int × Stmt) → List Output × Writer
  | [] => ([], writer)
  | (level, statement) :: rest =>
      let (output, middle) := writer.write level statement
      let (outputs, last) := middle.writeAll rest
      (output :: outputs, last)

end Writer

end GameScript
