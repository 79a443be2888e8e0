import GameScript.Printer.Stmt
import GameScript.Proofs.ExprText
import GameScript.Proofs.Numeral

/-!
Line breaks in printed text come from the words of the tree alone: its names, string bodies and doc
lines. Everything that the printer adds inside a line stays on it.
-/

namespace GameScript

def Unbroken (text : String) : Prop := '\n' ∉ text.toList

instance (text : String) : Decidable (Unbroken text) :=
  inferInstanceAs (Decidable ('\n' ∉ text.toList))

@[simp] theorem unbroken_append (first second : String) :
    Unbroken (first ++ second) ↔ Unbroken first ∧ Unbroken second := by
  simp [Unbroken, not_or]

/-! The words of a tree. -/

mutual

def Expr.words : Expr → List String
  | .binary _ left right => left.words ++ right.words
  | .ternary test yes no => test.words ++ yes.words ++ no.words
  | .pipe input name args => input.words ++ name :: Expr.wordsAll args
  | .paren inner => inner.words
  | .call name args => name :: Expr.wordsAll args
  | .ident name => [name]
  | .unary _ operand => operand.words
  | .literal (.string body) => [body]
  | .literal _ | .hole => []

def Expr.wordsAll : List Expr → List String
  | [] => []
  | first :: rest => first.words ++ Expr.wordsAll rest

end

def optionalWords : Option Expr → List String
  | some value => value.words
  | none => []

mutual

def Stmt.words : Stmt → List String
  | .assign assignment => assignment.target :: optionalWords assignment.value
  | .expr value => value.words
  | .declare declaration => declaration.name :: optionalWords declaration.value
  | .branch test yes no => test.words ++ yes.words ++ no.words
  | .loop _ test body => test.words ++ body.words
  | .repeats count body => count.words ++ body.words
  | .withTarget target body => target.words ++ body.words
  | .forLoop init test update body =>
      init.words ++ optionalWords test ++ update.words ++ body.words
  | .block body => Stmt.wordsAll body
  | .ret value => optionalWords value
  | .doc lines => lines
  | .noop | .breakLoop | .continueLoop | .exitScript | .hole => []

def Stmt.wordsAll : List Stmt → List String
  | [] => []
  | first :: rest => first.words ++ Stmt.wordsAll rest

end

/-! Expressions stay on one line. -/

theorem Double.unbroken_text (x : Double) : Unbroken x.text := by
  have digits {row : List Char} (all : ∀ c ∈ row, c.isDigit = true) : '\n' ∉ row := by
    intro member
    exact absurd (all '\n' member) (by decide)
  have plain (places decimal : Nat) : Unbroken (plainDecimal places decimal) := by
    unfold Unbroken
    rw [plainDecimal_toList]
    have whole : '\n' ∉ Nat.toDigits 10 (decimal / 10 ^ places) :=
      digits fun c member => Nat.isDigit_of_mem_toDigits (by decide) (by decide) member
    have fraction := digits (fractionDigits_isDigit places (decimal % 10 ^ places))
    unfold pointed
    split <;> simp [whole, fraction]
  unfold text
  split
  · decide
  · rw [unbroken_append]
    constructor
    · split <;> decide
    · split
      · decide
      · exact plain _ _

theorem Text.unbroken_enquote {quote : Char} (inLine : quote ≠ '\n') (text : String) :
    Unbroken (enquote quote text) := by
  have escaped (c : Char) : '\n' ∉ escapeChar quote c := by
    unfold escapeChar
    split <;> try decide
    next different _ _ _ _ =>
      have other : '\n' ≠ c := fun same => different same.symm
      split <;> simp [other]
  simp [Unbroken, enquote, escape, inLine.symm, escaped]

theorem Literal.unbroken_text {constant : Literal} (dialect : Dialect)
    (each : ∀ word ∈ (Expr.literal constant).words, Unbroken word) :
    Unbroken (constant.text dialect) := by
  cases constant with
  | number value => exact value.unbroken_text
  | bool value => cases value <;> simp +decide [text]
  | string body =>
      have inside : Unbroken body := each body (by simp [Expr.words])
      simp +decide [text, inside]
  | char value => exact Text.unbroken_enquote (by split <;> decide) _
  | undefined => simp +decide [text]

namespace Expr

theorem unbroken_parens {text : String} (unbroken : Unbroken text) : Unbroken (parens text) := by
  simp +decide [parens, unbroken]

theorem unbroken_operand {text : String} (unbroken : Unbroken text) (dialect : Dialect) (x : Expr)
    (least : Nat) : Unbroken (operand dialect x text least) := by
  unfold operand
  split
  · exact unbroken_parens unbroken
  · exact unbroken

theorem unbroken_leftOperand {text : String} (unbroken : Unbroken text) (dialect : Dialect)
    (x : Expr) (least : Nat) : Unbroken (leftOperand dialect x text least) := by
  unfold leftOperand
  split
  · exact unbroken
  · exact unbroken_parens unbroken
  · exact unbroken_operand unbroken dialect _ least

theorem unbroken_rightOperand {text : String} (unbroken : Unbroken text) (dialect : Dialect)
    (x : Expr) (least : Nat) : Unbroken (rightOperand dialect x text least) := by
  unfold rightOperand
  split
  · exact unbroken_parens unbroken
  · exact unbroken_operand unbroken dialect x least

theorem unbroken_callText {name : String} {args : List String} (named : Unbroken name)
    (each : ∀ arg ∈ args, Unbroken arg) : Unbroken (callText name args) := by
  have joined : Unbroken (String.intercalate ", " args) := by
    cases args with
    | nil => decide
    | cons first others =>
        obtain ⟨front, inside⟩ := List.forall_mem_cons.1 each
        unfold Unbroken at front inside ⊢
        rw [intercalate_cons_toList]
        simpa [moreText, front] using inside
  simp +decide [callText, named, joined]

theorem unbroken_unaryText {operand : String} (op : UnaryOp) (unbroken : Unbroken operand) :
    Unbroken (unaryText op operand) := by
  cases op with
  | not | complement => simp +decide [unaryText, unbroken]
  | negate =>
      simp only [unaryText]
      split <;> simp +decide [unbroken]

mutual

/-- An expression whose words are unbroken is printed on one line. -/
theorem unbroken_text (dialect : Dialect) : ∀ x : Expr, (∀ word ∈ x.words, Unbroken word) →
    Unbroken (x.text dialect)
  | .binary op left right, each => by
      simp only [words, List.forall_mem_append] at each
      have onLeft := unbroken_text dialect left each.1
      have onRight := unbroken_text dialect right each.2
      have sign : Unbroken op.text := by cases op <;> decide
      unfold text
      split
      · exact unbroken_callText (by decide) (by simp [onLeft, onRight])
      · simp +decide [sign, unbroken_leftOperand onLeft, unbroken_rightOperand onRight]
  | .ternary test yes no, each => by
      simp only [words, List.forall_mem_append] at each
      have tested := unbroken_text dialect test each.1.1
      simp +decide [text, unbroken_leftOperand tested, unbroken_text dialect yes each.1.2,
        unbroken_text dialect no each.2]
  | .pipe input name args, each => by
      simp only [words, List.forall_mem_append, List.forall_mem_cons] at each
      have given := unbroken_text dialect input each.1
      have others := unbroken_texts dialect args each.2.2
      unfold text
      split
      · exact unbroken_callText each.2.1 (List.forall_mem_cons.2 ⟨given, others⟩)
      · have called := unbroken_callText each.2.1 others
        simp +decide only [unbroken_append, unbroken_leftOperand given, called, and_self]
  | .paren inner, each => unbroken_parens (unbroken_text dialect inner each)
  | .call name args, each => by
      simp only [words, List.forall_mem_cons] at each
      exact unbroken_callText each.1 (unbroken_texts dialect args each.2)
  | .ident name, each => each name (by simp [words])
  | .unary op operand, each => by
      have inner := unbroken_text dialect operand each
      refine unbroken_unaryText op ?_
      split
      · exact unbroken_parens inner
      · exact inner
  | .literal value, each => value.unbroken_text dialect each
  | .hole, _ => by simp +decide [text]

theorem unbroken_texts (dialect : Dialect) : ∀ args : List Expr,
    (∀ word ∈ wordsAll args, Unbroken word) → ∀ text ∈ texts dialect args, Unbroken text
  | [], _ => by simp [texts]
  | first :: rest, each => by
      simp only [wordsAll, List.forall_mem_append] at each
      exact List.forall_mem_cons.2
        ⟨unbroken_text dialect first each.1, unbroken_texts dialect rest each.2⟩

end

end Expr

/-! Statements of one line and the headers of the others stay on one line. -/

theorem unbroken_optionalText (dialect : Dialect) {value : Option Expr}
    (each : ∀ word ∈ optionalWords value, Unbroken word) :
    Unbroken (optionalText dialect value) := by
  cases value with
  | none => simp +decide [optionalText]
  | some value => exact value.unbroken_text dialect each

theorem Assignment.unbroken_text (dialect : Dialect) {assignment : Assignment}
    (each : ∀ word ∈ (Stmt.assign assignment).words, Unbroken word) :
    Unbroken (assignment.text dialect) := by
  simp only [Stmt.words, List.forall_mem_cons] at each
  have assigned := unbroken_optionalText dialect each.2
  have sign : Unbroken assignment.op.text := by cases assignment.op <;> decide
  unfold text
  split
  · simp [each.1, sign]
  · split
    · have called : Unbroken (Expr.callText "power"
          [assignment.target, optionalText dialect assignment.value]) :=
        Expr.unbroken_callText (by decide) (by simp [each.1, assigned])
      simp +decide [each.1, called]
    · simp +decide [each.1, sign, assigned]

theorem Declaration.unbroken_text (dialect : Dialect) {declaration : Declaration}
    (each : ∀ word ∈ (Stmt.declare declaration).words, Unbroken word) :
    Unbroken (declaration.text dialect) := by
  obtain ⟨name, isGlobal, value⟩ := declaration
  simp only [Stmt.words, List.forall_mem_cons] at each
  have start : Unbroken (if isGlobal then "globalvar " else "var ") := by
    split <;> decide
  cases value with
  | none => simp +decide [text, each.1, start]
  | some value => simp +decide [text, each.1, start, value.unbroken_text dialect each.2]

namespace Stmt

theorem unbroken_clauseText (dialect : Dialect) {clause : Stmt}
    (each : ∀ word ∈ clause.words, Unbroken word) : Unbroken (clause.clauseText dialect) := by
  cases clause with
  | assign assignment => exact assignment.unbroken_text dialect each
  | expr value => exact value.unbroken_text dialect each
  | declare declaration => exact declaration.unbroken_text dialect each
  | _ => simp +decide [clauseText]

theorem unbroken_forHeader (dialect : Dialect) {init update : Stmt} {test : Option Expr}
    (first : ∀ word ∈ init.words, Unbroken word) (second : ∀ word ∈ optionalWords test, Unbroken word)
    (third : ∀ word ∈ update.words, Unbroken word) :
    Unbroken (forHeader dialect init test update) := by
  have begun := unbroken_clauseText dialect first
  have updated := unbroken_clauseText dialect third
  have last : Unbroken (if update.clauseText dialect = "" then ""
      else " " ++ update.clauseText dialect) := by
    split
    · decide
    · simp +decide [updated]
  cases test with
  | none => simp +decide [forHeader, begun, last]
  | some test => simp +decide [forHeader, begun, last, test.unbroken_text dialect second]

theorem unbroken_loopHead (dialect : Dialect) (kind : LoopKind) {test : Expr}
    (each : ∀ word ∈ test.words, Unbroken word) : Unbroken (loopHead dialect kind test) := by
  have tested := Expr.unbroken_parens (test.unbroken_text dialect each)
  cases kind <;> simp +decide [loopHead, tested]

end Stmt

end GameScript
