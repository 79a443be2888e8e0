import GameScript.Proofs.RoundTrip

/-!
Lowering to the plain dialect: the plain text of a script is read as the lowered script, and no token
of the extended dialect is left in it.
-/

namespace GameScript

def TokenKind.isExtended : TokenKind → Bool
  | .symbol .pipe | .symbol .power | .symbol .powerAssign | .char => true
  | _ => false

def Mark.isPlain : Mark → Bool
  | .kind wanted => !wanted.isExtended
  | .literal (.char _) | .operator .pipe | .operator (.binary .power) | .assignOp .power => false
  | _ => true

theorem TokenKind.cases_of_isExtended {kind : TokenKind} (extended : kind.isExtended = true) :
    kind = .symbol .pipe ∨ kind = .symbol .power ∨ kind = .symbol .powerAssign ∨ kind = .char := by
  unfold isExtended at extended
  split at extended <;> simp_all

theorem Mark.Fits.isExtended_eq_false {mark : Mark} {token : Token} (fits : mark.Fits token)
    (plain : mark.isPlain = true) : token.kind.isExtended = false := by
  rw [← Bool.not_eq_true]
  intro extended
  have kinds := TokenKind.cases_of_isExtended extended
  cases mark with
  | kind wanted =>
      have same : token.kind = wanted := fits
      have bare : (!wanted.isExtended) = true := plain
      simp [← same, extended] at bare
  | name | doc => simp [fits.1, TokenKind.isExtended] at extended
  | literal value =>
      have denotes : token.literal = .ok value := fits
      rcases kinds with kind | kind | kind | kind
      case inr.inr.inr =>
        simp only [Token.literal, kind] at denotes
        split at denotes
        · cases denotes
          cases plain
        · simp at denotes
      all_goals simp [Token.literal, kind] at denotes
  | operator wanted =>
      have found : token.kind.operator? = some wanted := fits
      rcases kinds with kind | kind | kind | kind <;>
        simp only [kind, TokenKind.operator?, Symbol.operator?, reduceCtorEq, Option.some.injEq] at found
      · subst found
        cases plain
      · subst found
        cases plain
  | unary op =>
      obtain ⟨sign, isSign, found⟩ := fits
      rw [isSign] at kinds
      rcases kinds with kind | kind | kind | kind <;> cases kind <;> simp [Symbol.unaryOp?] at found
  | assignOp op =>
      have found : token.kind.assignOp? = some op := fits
      rcases kinds with kind | kind | kind | kind <;>
        simp only [kind, TokenKind.assignOp?, Symbol.assignOp?, reduceCtorEq, Option.some.injEq] at found
      subst found
      cases plain

/-! The tokens of plain texts. -/

def arePlain (marks : List Mark) : Bool := marks.all Mark.isPlain

@[simp] theorem arePlain_nil : arePlain [] = true := rfl

@[simp] theorem arePlain_cons (mark : Mark) (marks : List Mark) :
    arePlain (mark :: marks) = (mark.isPlain && arePlain marks) := rfl

@[simp] theorem arePlain_append (marks others : List Mark) :
    arePlain (marks ++ others) = (arePlain marks && arePlain others) :=
  List.all_append

@[simp] theorem Mark.isPlain_symbol (sign : Symbol) :
    (Mark.symbol sign).isPlain = !(TokenKind.symbol sign).isExtended := rfl

@[simp] theorem Mark.isPlain_keyword (word : Keyword) : (Mark.keyword word).isPlain = true := rfl

@[simp] theorem Mark.isPlain_lineEnd : Mark.lineEnd.isPlain = true := rfl

@[simp] theorem Mark.isPlain_name (text : String) : (Mark.name text).isPlain = true := rfl

@[simp] theorem Mark.isPlain_doc (line : String) : (Mark.doc line).isPlain = true := rfl

@[simp] theorem Mark.isPlain_ternary : (Mark.operator .ternary).isPlain = true := rfl

@[simp] theorem Mark.isPlain_unary (op : UnaryOp) : (Mark.unary op).isPlain = true := rfl

theorem Mark.isPlain_binary {op : BinaryOp} (notPower : op ≠ .power) :
    (Mark.operator (.binary op)).isPlain = true := by
  cases op <;> first | rfl | exact absurd rfl notPower

theorem Mark.isPlain_assignOp {op : AssignOp} (notPower : op ≠ .power) :
    (Mark.assignOp op).isPlain = true := by
  cases op <;> first | rfl | exact absurd rfl notPower

namespace Expr

theorem arePlain_wrapped (needed : Bool) (inner : Expr) :
    arePlain (wrapped needed inner).marks = arePlain inner.marks := by
  cases needed with
  | true => simp [wrapped, marks, TokenKind.isExtended]
  | false => rfl

theorem arePlain_moreMarks {args : List Expr} (each : ∀ arg ∈ args, arePlain arg.marks = true) :
    arePlain (moreMarks args) = true := by
  induction args with
  | nil => rfl
  | cons first others ih =>
      have othersPlain := ih fun arg member => each arg (by simp [member])
      simp [moreMarks, each first (by simp), othersPlain, TokenKind.isExtended]

theorem arePlain_call {name : String} {args : List Expr}
    (each : ∀ arg ∈ args, arePlain arg.marks = true) : arePlain (call name args).marks = true := by
  have items : arePlain (itemMarks args) = true := by
    cases args with
    | nil => rfl
    | cons first others =>
        have othersPlain : arePlain (moreMarks others) = true :=
          arePlain_moreMarks fun arg member => each arg (by simp [member])
        simp [itemMarks, each first (by simp), othersPlain]
  simp [marks, items, TokenKind.isExtended]

theorem arePlain_number (value : Double) : arePlain value.denoted.marks = true := by
  unfold Double.denoted
  split_ifs <;> rfl

theorem WellFormed.arePlain_denoted {number : Double → Prop} {x : Expr}
    (wellFormed : x.WellFormed number) : arePlain (x.denoted .plain).marks = true := by
  induction wellFormed with
  | @binary op left right _ _ _ leftPlain rightPlain =>
      by_cases power : op = .power
      · subst power
        exact arePlain_call (by simpa using ⟨leftPlain, rightPlain⟩)
      · rw [denoted_binary (by simp [power]), marks]
        simp [arePlain_wrapped, leftPlain, rightPlain, Mark.isPlain_binary power]
  | ternary _ _ _ test yes no =>
      simp [denoted, marks, arePlain_wrapped, test, yes, no, TokenKind.isExtended]
  | @pipe input name args _ _ _ inputPlain argsPlain =>
      rw [denoted, if_pos rfl]
      exact arePlain_call (by simpa using ⟨inputPlain, argsPlain⟩)
  | paren _ inner =>
      simp [denoted, marks, inner, TokenKind.isExtended]
  | call _ _ argsPlain =>
      rw [denoted]
      exact arePlain_call (by simpa using argsPlain)
  | ident => rfl
  | unary _ _ operand => simp [denoted, marks, arePlain_wrapped, operand]
  | @literal value _ =>
      cases value with
      | number value => exact arePlain_number value
      | bool | string | undefined | char => rfl

end Expr

theorem arePlain_optional {value : Option Expr} (printable : ∀ x ∈ value, Expr.Printable x) :
    arePlain (optionalMarks (value.map (Expr.denoted .plain))) = true := by
  cases value with
  | none => rfl
  | some x => exact Expr.WellFormed.arePlain_denoted (printable x rfl)

theorem Assignment.WellFormed.arePlain_denoted {assignment : Assignment}
    (wellFormed : assignment.WellFormed Expr.Printable) :
    arePlain (assignment.denoted .plain).marks = true := by
  cases wellFormed with
  | @step target op _ alone =>
      cases op with
      | increment | decrement => rfl
      | _ => exact Bool.noConfusion alone
  | @value target op value _ _ _ printable =>
      have valuePlain : arePlain (value.denoted .plain).marks = true :=
        Expr.WellFormed.arePlain_denoted printable
      by_cases power : op = .power
      · subst power
        have called : arePlain (Expr.call "power" [.ident target, value.denoted .plain]).marks = true :=
          Expr.arePlain_call (by simpa [Expr.marks] using valuePlain)
        have lowered : (Assignment.denoted .plain ⟨target, .power, some value⟩).marks =
            .name target :: .assignOp .assign ::
              (Expr.call "power" [.ident target, value.denoted .plain]).marks := rfl
        rw [lowered]
        exact called
      · rw [Assignment.denoted_value (by simp [power])]
        simp [Assignment.marks, optionalMarks, valuePlain, Mark.isPlain_assignOp power]

theorem Declaration.WellFormed.arePlain_denoted {declaration : Declaration}
    (wellFormed : declaration.WellFormed Expr.Printable) :
    arePlain (declaration.mapValue (Expr.denoted .plain)).marks = true := by
  obtain ⟨name, global, value⟩ := declaration
  cases value with
  | none => simp [Declaration.marks, Declaration.mapValue]
  | some value =>
      have valuePlain : arePlain (value.denoted .plain).marks = true :=
        Expr.WellFormed.arePlain_denoted (wellFormed.valueGood value rfl)
      simp [Declaration.marks, Declaration.mapValue, valuePlain, TokenKind.isExtended]

namespace Stmt

theorem IsClause.arePlain_denoted {first : Bool} {clause : Stmt}
    (isClause : clause.IsClause Expr.Printable first) :
    arePlain (clause.denoted .plain).lineMarks = true := by
  cases isClause with
  | noop => rfl
  | assign wellFormed => exact wellFormed.arePlain_denoted
  | expr printable => exact Expr.WellFormed.arePlain_denoted printable
  | declare _ wellFormed => exact wellFormed.arePlain_denoted

@[simp] theorem Place.arePlain_marks (place : Place) : arePlain place.marks = true := by
  cases place <;> rfl

@[simp] theorem Place.arePlain_close (place : Place) : arePlain place.close = true := by
  cases place <;> rfl

@[simp] theorem arePlain_closeMarks (body : Stmt) : arePlain body.closeMarks = true := by
  unfold closeMarks
  split_ifs <;> rfl

theorem arePlain_oneLine {place : Place} {line : Stmt} (linePlain : arePlain line.lineMarks = true) :
    arePlain (oneLineMarks place line) = true := by
  simp [oneLineMarks, linePlain, TokenKind.isExtended]

theorem arePlain_paren {x : Expr} (printable : x.Printable) :
    arePlain (Expr.paren (x.denoted .plain)).marks = true := by
  simp [Expr.marks, Expr.WellFormed.arePlain_denoted printable, TokenKind.isExtended]

theorem arePlain_docMarks (lines : List String) : arePlain (docMarks lines) = true := by
  simp [arePlain, docMarks]

theorem arePlain_layoutAll {body : List Stmt}
    (each : ∀ statement ∈ body, arePlain (statement.layout .plain .line) = true) :
    arePlain (layoutAll .plain body) = true := by
  induction body with
  | nil => rfl
  | cons first others ih =>
      have othersPlain := ih fun statement member => each statement (by simp [member])
      rw [layoutAll]
      split_ifs
      · exact othersPlain
      · simp [each first (by simp), othersPlain]

theorem WellFormed.arePlain_layout {statement : Stmt} (wellFormed : statement.WellFormed Expr.Printable)
    (place : Place) : arePlain (statement.layout .plain place) = true := by
  induction wellFormed generalizing place with
  | noop => simp [layout, TokenKind.isExtended]
  | assign wellFormed => exact arePlain_oneLine wellFormed.arePlain_denoted
  | expr printable => exact arePlain_oneLine (Expr.WellFormed.arePlain_denoted printable)
  | declare wellFormed => exact arePlain_oneLine wellFormed.arePlain_denoted
  | ret printable => exact arePlain_oneLine (arePlain_optional printable)
  | breakLoop | continueLoop | exitScript => exact arePlain_oneLine rfl
  | branch printable _ yes => simp [layout, isHole, arePlain_paren printable, yes]
  | @branchElse test yes no printable _ _ yesPlain noPlain =>
      unfold layout
      split_ifs <;> simp [arePlain_paren printable, yesPlain, noPlain]
  | @loop kind test body printable _ bodyPlain =>
      unfold layout
      split_ifs <;> simp [arePlain_paren printable, bodyPlain, TokenKind.isExtended]
  | repeats printable _ body => simp [layout, arePlain_paren printable, body]
  | withTarget printable _ body => simp [layout, arePlain_paren printable, body]
  | forLoop initClause testGood updateClause _ body =>
      simp [layout, forMarks, initClause.arePlain_denoted, arePlain_optional testGood,
        updateClause.arePlain_denoted, body, TokenKind.isExtended]
  | block _ body =>
      have inside := arePlain_layoutAll fun statement member => body statement member .line
      simp [layout, inside, TokenKind.isExtended]

end Stmt

/-! Scripts. -/

theorem Script.WellFormed.arePlain_layout {script : Script}
    (wellFormed : script.WellFormed Expr.Printable) (bare : script.args = []) :
    arePlain (script.layout .plain) = true := by
  have body : arePlain (Stmt.layoutAll .plain script.body) = true := by
    refine Stmt.arePlain_layoutAll fun statement member => ?_
    cases wellFormed.bodyGood statement member with
    | statement wellFormed => exact wellFormed.arePlain_layout .line
    | @doc lines => exact Stmt.arePlain_docMarks lines
  simp [Script.layout, bare, argumentMarks, Stmt.arePlain_docMarks, body]

theorem Fit.isExtended_eq_false {marks : List Mark} {tokens : List Token} (fit : Fit marks tokens)
    (plain : arePlain marks = true) : ∀ token ∈ tokens, token.kind.isExtended = false := by
  induction fit with
  | nil => simp
  | cons fits _ ih =>
      rw [arePlain_cons, Bool.and_eq_true] at plain
      exact List.forall_mem_cons.mpr ⟨fits.isExtended_eq_false plain.1, ih plain.2⟩

theorem Script.WellFormed.normalized_lower {good : Expr → Prop} {script : Script}
    (wellFormed : script.WellFormed good) :
    script.lower.normalized = (script.rewrite (fun x => x.lower.nameInfinity)
      (Stmt.rewrite (fun x => x.lower.nameInfinity) (Stmt.tidy .plain))).gathered := by
  have args :
      (script.args.map (Argument.mapValue Expr.lower)).map (Argument.mapValue Expr.nameInfinity) =
      script.args.map (Argument.mapValue fun x => x.lower.nameInfinity) := by
    rw [List.map_map]
    refine List.map_congr_left fun argument member => ?_
    cases wellFormed.argsGood argument member <;> rfl
  have body : (script.body.map Stmt.lower).map Stmt.normalized =
      script.body.map (Stmt.rewrite (fun x => x.lower.nameInfinity) (Stmt.tidy .plain)) := by
    rw [List.map_map]
    refine List.map_congr_left fun statement member => ?_
    cases wellFormed.bodyGood statement member with
    | statement wellFormed => exact wellFormed.normalized_lower
    | doc => rfl
  rw [lower, normalized, rewrite, rewrite, args, body, rewrite]

theorem Script.Parsed.denoted_plain {script : Script} (parsed : script.Parsed) :
    script.denoted .plain = script.lower.normalized := by
  have agrees (x : Expr) (xParsed : x.Parsed) : x.denoted .plain = x.lower.nameInfinity :=
    xParsed.canonical.denoted_plain xParsed.wellFormed
  rw [parsed.wellFormed.normalized_lower, Script.denoted, Script.rewrite_congr
    (fun argument member => (parsed.wellFormed.argsGood argument member).mapValue_eq agrees)
    (parsed.denoted_body agrees)]

/-- The plain text of a script without arguments is read as the lowered script, in its normal form,
and has no token of the extended dialect. -/
theorem plain_text_reads_lowered {chars : List Char} {script : Script} {indent : String}
    (read : parse chars = .ok script) (bare : script.args = [])
    (blank : ∀ c ∈ indent.toList, c = ' ' ∨ c = '\t') :
    ∃ text tokens, script.render (.ofOptions indent .plain) = .ok text ∧
      parse text.toList = .ok script.lower.normalized ∧
      tokenize text.toList = .ok tokens ∧ ∀ token ∈ tokens, token.kind.isExtended = false := by
  have parsed := Script.parsed_of_parse read
  obtain ⟨text, tokens, finish, rendered, scanned, fit, closes⟩ :=
    parsed.printable.tokenize_text (Style.all_indent blank .plain) (Or.inr bare)
  have reads := parsed.printable.readsBack fit closes
  have plain := fit.isExtended_eq_false (parsed.printable.arePlain_layout bare)
  refine ⟨text, _, Script.render_eq_ok_iff.mpr rendered, ?_, scanned, ?_⟩
  · exact parse_ok_iff.mpr ⟨_, scanned, parsed.denoted_plain ▸ reads⟩
  · have finishPlain : finish.kind.isExtended = false := by rw [closes]; rfl
    have firstPlain : Token.first.kind.isExtended = false := rfl
    simpa [firstPlain, or_imp, forall_and, finishPlain] using plain

theorem plain_text_reads_lowered_example :
    ∃ script tokens, parse "x **= -a ** (b |> f('c') + 1)".toList = .ok script ∧ script.args = [] ∧
      script.render (.ofOptions "  " .plain) = .ok "x = power(x, power(-a, (f(b, \"c\") + 1)));\n" ∧
      parse "x = power(x, power(-a, (f(b, \"c\") + 1)));\n".toList = .ok script.lower.normalized ∧
      tokenize "x = power(x, power(-a, (f(b, \"c\") + 1)));\n".toList = .ok tokens ∧
      ∀ token ∈ tokens, token.kind.isExtended = false := by
  have compiled : compile (.ofOptions "  " .plain) "x **= -a ** (b |> f('c') + 1)".toList =
      .ok "x = power(x, power(-a, (f(b, \"c\") + 1)));\n" := by decide +kernel
  have noArguments : (parse "x **= -a ** (b |> f('c') + 1)".toList).map (·.args.isEmpty) = .ok true := by
    decide +kernel
  unfold compile at compiled
  split at compiled
  next script read =>
    rw [read] at noArguments
    have bare : script.args = [] := List.isEmpty_iff.mp (Except.ok.inj noArguments)
    obtain ⟨text, tokens, rendered, readBack, scanned, plain⟩ :=
      @plain_text_reads_lowered _ _ "  " read bare (by simp)
    obtain rfl := Except.ok.inj (compiled.symm.trans rendered)
    exact ⟨script, tokens, read, bare, compiled, readBack, scanned, plain⟩
  next => simp at compiled

end GameScript
