import GameScript.Proofs.Parsed
import GameScript.Proofs.ScriptText

/-!
Printing again. Main statement: a script that was read from a text and its normal form have the same
text.
-/

namespace GameScript

namespace Expr

/-! The text of an infinite number is the name that it is read as. -/

theorem nameInfinity_literal (value : Literal) :
    (literal value).nameInfinity = .literal value ∨
      ∃ number, value = .number number ∧ number.isInfinite = true ∧
        (literal value).nameInfinity = .ident "infinity" := by
  cases value with
  | number number =>
      cases infinite : number.isInfinite with
      | true =>
          exact Or.inr ⟨number, rfl, infinite, by simp [nameInfinity, rewrite, nameInfinite, infinite]⟩
      | false => exact Or.inl (by simp [nameInfinity, rewrite, nameInfinite, infinite])
  | bool | string | char | undefined => exact Or.inl rfl

theorem precedence_nameInfinity (dialect : Dialect) (x : Expr) :
    x.nameInfinity.precedence dialect = x.precedence dialect := by
  cases x with
  | literal value =>
      rcases nameInfinity_literal value with same | ⟨_, _, _, same⟩
      · rw [same]
      · rw [same]
        rfl
  | _ => rfl

theorem isPipe_nameInfinity (x : Expr) : x.nameInfinity.isPipe = x.isPipe := by
  cases x with
  | literal value =>
      rcases nameInfinity_literal value with same | ⟨_, _, _, same⟩
      · rw [same]
      · rw [same]
        rfl
  | _ => rfl

theorem pipeOnLeft_nameInfinity (dialect : Dialect) (x : Expr) :
    x.nameInfinity.pipeOnLeft dialect = x.pipeOnLeft dialect := by
  fun_induction pipeOnLeft dialect x with
  | case1 => rfl
  | case2 op left right ih =>
      have unfolded : (binary op left right).nameInfinity.pipeOnLeft dialect =
          (dialect != .plain && (left.nameInfinity.isPipe ||
            decide (Precedence.ofBinary op ≤ left.nameInfinity.precedence dialect)) &&
            left.nameInfinity.pipeOnLeft dialect) := rfl
      rw [unfolded, isPipe_nameInfinity, precedence_nameInfinity, ih]
  | case3 x notPipe notBinary =>
      cases x with
      | pipe => exact absurd rfl (notPipe _ _ _)
      | binary => exact absurd rfl (notBinary _ _ _)
      | literal value =>
          rcases nameInfinity_literal value with same | ⟨_, _, _, same⟩
          · rw [same]
            rfl
          · rw [same]
            rfl
      | _ => rfl

section Unsigned

variable {x : Expr} (wellFormed : x.WellFormed Double.Unsigned)

include wellFormed

theorem WellFormed.isNegative_nameInfinity : x.nameInfinity.isNegative = x.isNegative := by
  cases wellFormed with
  | @literal value good =>
      rcases nameInfinity_literal value with same | ⟨number, rfl, _, same⟩
      · rw [same]
      · rw [same]
        simp [isNegative, Double.printsNegative, Double.Unsigned.not_negative good]
  | _ => rfl

theorem WellFormed.operandNeeds_nameInfinity (dialect : Dialect) (least : Nat) :
    operandNeeds dialect x.nameInfinity least = operandNeeds dialect x least := by
  rw [operandNeeds, operandNeeds, precedence_nameInfinity, wellFormed.isNegative_nameInfinity]

theorem WellFormed.rightNeeds_nameInfinity (dialect : Dialect) (least : Nat) :
    rightNeeds dialect x.nameInfinity least = rightNeeds dialect x least := by
  rw [rightNeeds, rightNeeds, pipeOnLeft_nameInfinity, wellFormed.operandNeeds_nameInfinity]

theorem WellFormed.leftNeeds_nameInfinity (dialect : Dialect) (least : Nat) :
    leftNeeds dialect x.nameInfinity least = leftNeeds dialect x least := by
  have operand := wellFormed.operandNeeds_nameInfinity dialect least
  cases wellFormed with
  | @literal value good =>
      rcases nameInfinity_literal value with same | ⟨_, _, _, same⟩
      · rw [same]
      · rw [same] at operand ⊢
        exact operand
  | _ => rfl

theorem WellFormed.text_nameInfinity (dialect : Dialect) :
    x.nameInfinity.text dialect = x.text dialect := by
  have each : ∀ {args : List Expr}, (∀ arg ∈ args, arg.nameInfinity.text dialect = arg.text dialect) →
      texts dialect (args.map nameInfinity) = texts dialect args := by
    intro args all
    induction args with
    | nil => rfl
    | cons first others ih =>
        rw [List.map_cons, texts, texts, all first (by simp),
          ih fun arg member => all arg (by simp [member])]
  induction wellFormed with
  | @binary op left right _ leftGood rightGood leftSame rightSame =>
      have unfolded : (Expr.binary op left right).nameInfinity =
          .binary op left.nameInfinity right.nameInfinity := rfl
      rw [unfolded]
      by_cases lowered : op = .power ∧ dialect = .plain
      · obtain ⟨rfl, rfl⟩ := lowered
        simp [text, leftSame, rightSame]
      · rw [text_binary lowered, text_binary lowered, leftSame, rightSame,
          leftGood.leftNeeds_nameInfinity, rightGood.rightNeeds_nameInfinity]
  | @ternary test yes no testGood _ _ testSame yesSame noSame =>
      have unfolded : (Expr.ternary test yes no).nameInfinity =
          .ternary test.nameInfinity yes.nameInfinity no.nameInfinity := rfl
      rw [unfolded, text, text, testSame, yesSame, noSame, leftOperand_eq, leftOperand_eq,
        testGood.leftNeeds_nameInfinity]
  | @pipe input name args _ inputGood _ inputSame argsSame =>
      rw [nameInfinity_pipe, text, text, each argsSame, inputSame, leftOperand_eq, leftOperand_eq,
        inputGood.leftNeeds_nameInfinity]
  | paren _ inner => exact congrArg parens inner
  | @call name _ _ _ argsSame => rw [nameInfinity_call, text, text, each argsSame]
  | ident => rfl
  | @unary op operand _ operandGood operandSame =>
      have unfolded : (Expr.unary op operand).nameInfinity = .unary op operand.nameInfinity := rfl
      rw [unfolded, text, text, operandSame, operandGood.isNegative_nameInfinity]
  | @literal value good =>
      rcases nameInfinity_literal value with same | ⟨number, rfl, infinite, same⟩
      · rw [same]
      · rw [same]
        simp [text, Literal.text, Double.text, infinite, Double.Unsigned.not_nan good,
          Double.Unsigned.not_negative good]

end Unsigned

end Expr

/-! Statements. -/

section Same

variable {good : Expr → Prop} {dialect : Dialect}
  (agrees : ∀ x, good x → x.nameInfinity.text dialect = x.text dialect)

include agrees

theorem Assignment.WellFormed.text_mapValue {assignment : Assignment}
    (wellFormed : assignment.WellFormed good) :
    (assignment.mapValue Expr.nameInfinity).text dialect = assignment.text dialect := by
  cases wellFormed with
  | step => rfl
  | value _ _ _ valueGood =>
      simp only [Assignment.mapValue, Option.map_some, Assignment.text, optionalText,
        agrees _ valueGood]
      rfl

theorem Declaration.WellFormed.text_mapValue {declaration : Declaration}
    (wellFormed : declaration.WellFormed good) :
    (declaration.mapValue Expr.nameInfinity).text dialect = declaration.text dialect := by
  obtain ⟨name, global, value⟩ := declaration
  cases value with
  | none => rfl
  | some value =>
      have valueSame := agrees value (wellFormed.valueGood value rfl)
      simp only [Declaration.mapValue, Option.map_some, Declaration.text, valueSame]
      rfl

namespace Stmt

theorem IsClause.clauseText_normalized {first : Bool} {clause : Stmt}
    (isClause : clause.IsClause good first) :
    clause.normalized.clauseText dialect = clause.clauseText dialect := by
  cases isClause with
  | noop => rfl
  | assign wellFormed => exact wellFormed.text_mapValue agrees
  | expr valueGood => exact agrees _ valueGood
  | declare _ wellFormed => exact wellFormed.text_mapValue agrees

theorem forHeader_normalized {init update : Stmt} {test : Option Expr}
    (initClause : init.IsClause good true) (testGood : ∀ value ∈ test, good value)
    (updateClause : update.IsClause good false) :
    forHeader dialect init.normalized (test.map Expr.nameInfinity) update.normalized =
      forHeader dialect init test update := by
  cases test with
  | none =>
      simp only [forHeader, Option.map_none, initClause.clauseText_normalized agrees,
        updateClause.clauseText_normalized agrees]
  | some test =>
      simp only [forHeader, Option.map_some, initClause.clauseText_normalized agrees,
        updateClause.clauseText_normalized agrees, agrees test (testGood test rfl)]

end Stmt

end Same

namespace Stmt

theorem staysOnLine_normalized (statement : Stmt) :
    statement.normalized.staysOnLine = statement.staysOnLine := by
  cases statement <;> rfl

theorem isBranch_normalized (statement : Stmt) :
    statement.normalized.isBranch = statement.isBranch := by
  cases statement <;> rfl

theorem isHole_normalized (statement : Stmt) : statement.normalized.isHole = statement.isHole := by
  cases statement <;> rfl

theorem isNoop_normalized (statement : Stmt) : statement.normalized.isNoop = statement.isNoop := by
  cases statement <;> rfl

theorem printAll_active (style : Style) (level : Int) (body : List Stmt) :
    printAll style level (active body) = printAll style level body := by
  induction body with
  | nil => rfl
  | cons first others ih =>
      cases noop : first.isNoop with
      | true => simpa [active, printAll, noop] using ih
      | false => simpa [active, printAll, noop] using congrArg (_ ++ ·) ih

theorem printAll_map {style : Style} {level : Int} {change : Stmt → Stmt} {body : List Stmt}
    (keeps : ∀ statement, (change statement).isNoop = statement.isNoop)
    (each : ∀ statement ∈ body, (change statement).print style .line level =
      statement.print style .line level) :
    printAll style level (body.map change) = printAll style level body := by
  induction body with
  | nil => rfl
  | cons first others ih =>
      rw [List.map_cons, printAll, printAll, keeps, each first (by simp),
        ih fun statement member => each statement (by simp [member])]

theorem lineClose_normalized (statement : Stmt) :
    statement.normalized.lineClose = statement.lineClose := by
  simp only [lineClose, staysOnLine_normalized]

theorem WellFormed.print_normalized {good : Expr → Prop} {style : Style} {statement : Stmt}
    (agrees : ∀ x, good x → x.nameInfinity.text style.dialect = x.text style.dialect)
    (wellFormed : statement.WellFormed good) (place : Place) (level : Int) :
    statement.normalized.print style place level = statement.print style place level := by
  induction wellFormed generalizing place level with
  | noop | breakLoop | continueLoop | exitScript => rfl
  | assign wellFormed => exact congrArg (oneLine style place level) (wellFormed.text_mapValue agrees)
  | expr valueGood => exact congrArg (oneLine style place level) (agrees _ valueGood)
  | declare wellFormed => exact congrArg (oneLine style place level) (wellFormed.text_mapValue agrees)
  | @ret value valueGood =>
      cases value with
      | none => rfl
      | some value =>
          exact congrArg (fun text => oneLine style place level ("return " ++ text))
            (agrees value (valueGood value rfl))
  | @branch test yes testGood _ yesSame =>
      have unfolded : (Stmt.branch test yes .hole).normalized =
          .branch test.nameInfinity yes.normalized .hole := rfl
      rw [unfolded, print, print, agrees _ testGood, yesSame, lineClose_normalized]
      rfl
  | @branchElse test yes no testGood _ _ yesSame noSame =>
      have unfolded : (Stmt.branch test yes no).normalized =
          .branch test.nameInfinity yes.normalized no.normalized := rfl
      rw [unfolded, print, print, agrees _ testGood, yesSame, noSame, noSame, lineClose_normalized,
        lineClose_normalized, staysOnLine_normalized, isHole_normalized, isBranch_normalized]
  | @loop kind test body testGood _ bodySame =>
      have unfolded : (Stmt.loop kind test body).normalized =
          .loop kind test.nameInfinity body.normalized := rfl
      have head : loopHead style.dialect kind test.nameInfinity = loopHead style.dialect kind test := by
        simp only [loopHead, agrees _ testGood]
      rw [unfolded, print, print, head, bodySame, lineClose_normalized, staysOnLine_normalized]
  | @repeats count body countGood _ bodySame =>
      have unfolded : (Stmt.repeats count body).normalized =
          .repeats count.nameInfinity body.normalized := rfl
      rw [unfolded, print, print, agrees _ countGood, bodySame, lineClose_normalized]
  | @withTarget target body targetGood _ bodySame =>
      have unfolded : (Stmt.withTarget target body).normalized =
          .withTarget target.nameInfinity body.normalized := rfl
      rw [unfolded, print, print, agrees _ targetGood, bodySame, lineClose_normalized]
  | @forLoop init update body test initClause testGood updateClause _ bodySame =>
      have unfolded : (Stmt.forLoop init test update body).normalized =
          .forLoop init.normalized (test.map Expr.nameInfinity) update.normalized
            body.normalized := rfl
      rw [unfolded, print, print, forHeader_normalized agrees initClause testGood updateClause, bodySame,
        lineClose_normalized]
  | @block body _ bodySame =>
      have unfolded : (Stmt.block body).normalized = .block (active (body.map normalized)) := by
        simp [normalized, rewrite, dropNoops]
      have all (level : Int) : printAll style level (active (body.map normalized)) =
          printAll style level body := by
        rw [printAll_active]
        exact printAll_map isNoop_normalized fun statement member =>
          bodySame statement member .line level
      cases place <;> simp [unfolded, print, all]

/-! Doc comments. -/

theorem docText_append (style : Style) (level : Int) (lines more : List String) :
    docText style level (lines ++ more) = docText style level lines ++ docText style level more := by
  apply String.toList_injective
  simp [docText]

theorem printAll_before (style : Style) (level : Int) (first : Stmt) (others : List Stmt) :
    printAll style level (first.before others) = printAll style level (first :: others) := by
  cases first with
  | doc lines =>
      cases others with
      | nil => rfl
      | cons second others =>
          cases second with
          | doc more =>
              simp [before, printAll, isNoop, print, docText_append, ← Output.append_assoc,
                Output.ofText_append]
          | _ => rfl
  | _ => rfl

theorem printAll_joinDocs (style : Style) (level : Int) (body : List Stmt) :
    printAll style level (joinDocs body) = printAll style level body := by
  induction body with
  | nil => rfl
  | cons first others ih =>
      have unfolded : joinDocs (first :: others) = first.before (joinDocs others) := rfl
      rw [unfolded, printAll_before, printAll, printAll, ih]

end Stmt

namespace Script

theorem print_gathered (style : Style) (script : Script) :
    script.gathered.print style = script.print style := by
  have body : Stmt.printAll style 0 (Stmt.joinDocs (Stmt.active script.body)) =
      Stmt.printAll style 0 script.body := by
    rw [Stmt.printAll_joinDocs, Stmt.printAll_active]
  by_cases led : script.args = [] ∧
      ∃ lines others, Stmt.joinDocs (Stmt.active script.body) = .doc lines :: others
  · obtain ⟨bare, lines, others, led⟩ := led
    have noArguments (doc : List String) : docText style 0 doc ++
        String.join ((argumentLines style.dialect []).map (· ++ "\n")) = docText style 0 doc := by
      apply String.toList_injective
      cases style.dialect <;> simp [argumentLines, prologueFrom]
    have leading : Stmt.printAll style 0 (.doc lines :: others) =
        Output.ofText (docText style 0 lines) ++ Stmt.printAll style 0 others := rfl
    rw [gathered_doc bare led, print_eq, print_eq, bare, noArguments, noArguments, ← body, led,
      leading, Stmt.docText_append, Output.ofText_append, Output.append_assoc]
  · rw [gathered_of_ne fun bare lines others same => led ⟨bare, lines, others, same⟩, print_eq,
      print_eq, body]

end Script

theorem Argument.WellFormed.declarationText_mapValue {good : Expr → Prop} {dialect : Dialect}
    {argument : Argument} (agrees : ∀ x, good x → x.nameInfinity.text dialect = x.text dialect)
    (wellFormed : argument.WellFormed good) :
    (argument.mapValue Expr.nameInfinity).declarationText dialect =
      argument.declarationText dialect := by
  cases wellFormed with
  | required | optional | variadic => rfl
  | @defaulted name value _ valueGood =>
      exact congrArg (fun text => "argument " ++ name ++ " = " ++ text) (agrees value valueGood)

theorem Stmt.Listed.print_normalized {good : Expr → Prop} {style : Style} {statement : Stmt}
    (agrees : ∀ x, good x → x.nameInfinity.text style.dialect = x.text style.dialect)
    (listed : statement.Listed good) (place : Place) (level : Int) :
    statement.normalized.print style place level = statement.print style place level := by
  cases listed with
  | statement wellFormed => exact wellFormed.print_normalized agrees place level
  | doc => rfl

/-- A script and its normal form have the same text. -/
theorem Script.Parsed.print_normalized {style : Style} {script : Script} (parsed : script.Parsed)
    (extended : style.dialect = .extended) : script.normalized.print style = script.print style := by
  have agrees (x : Expr) (xParsed : x.Parsed) : x.nameInfinity.text style.dialect =
      x.text style.dialect := xParsed.wellFormed.text_nameInfinity style.dialect
  have lines : argumentLines style.dialect (script.args.map (Argument.mapValue Expr.nameInfinity)) =
      argumentLines style.dialect script.args := by
    simp only [argumentLines, extended, if_true, List.map_map]
    refine List.map_congr_left fun argument member => ?_
    exact (parsed.wellFormed.argsGood argument member).declarationText_mapValue (extended ▸ agrees)
  have body : Stmt.printAll style 0 (script.body.map Stmt.normalized) =
      Stmt.printAll style 0 script.body :=
    Stmt.printAll_map Stmt.isNoop_normalized fun statement member =>
      (parsed.wellFormed.bodyGood statement member).print_normalized agrees .line 0
  rw [normalized, print_gathered, print_eq, print_eq, rewrite, lines, body]

end GameScript
