import GameScript.Proofs.ScriptLayout

/-!
What is known of code that was read from a text: every part of it can be written down, its
expressions are grouped as the grammar groups them, and each `else` stands where no other `if` can
take it.
-/

namespace GameScript

structure Expr.Parsed (x : Expr) : Prop where
  canonical : x.Canonical
  wellFormed : x.WellFormed Double.Unsigned

variable {tokens rest : List Token}

theorem Reads.parsed {x : Expr} (reads : Reads (.binary Precedence.pipe x) tokens rest)
    (spelled : Spelled tokens) : x.Parsed :=
  ⟨(reads.grouped (by decide)).1, reads.wellFormed spelled⟩

theorem Reads.parsed_paren {x : Expr} (reads : Reads (.value (.paren x)) tokens rest)
    (spelled : Spelled tokens) : x.Parsed := by
  cases reads with
  | paren _ inner => exact inner.parsed (spelled_cons.mp spelled).2.skipEnds

theorem TokenKind.assignOp?_ne_unknown (kind : TokenKind) : kind.assignOp? ≠ some .unknown := by
  cases kind with
  | symbol sign => cases sign <;> simp [assignOp?, Symbol.assignOp?]
  | _ => simp [assignOp?]

theorem Assigns.wellFormed {assignment : Assignment} (assigns : Assigns assignment tokens rest)
    (spelled : Spelled tokens) : assignment.WellFormed Expr.Parsed := by
  cases assigns with
  | step named _ alone => exact .step ((spelled_cons.mp spelled).1.name named) alone
  | @value _ token _ _ _ _ named found valued reads =>
      obtain ⟨target, others⟩ := spelled_cons.mp spelled
      refine .value (target.name named) ?_ valued (reads.parsed (spelled_cons.mp others).2.skipEnds)
      rintro rfl
      exact token.kind.assignOp?_ne_unknown found

theorem Declares.wellFormed {declaration : Declaration} (declares : Declares declaration tokens rest)
    (spelled : Spelled tokens) : declaration.WellFormed Expr.Parsed := by
  cases declares with
  | bare _ named =>
      have name := (spelled_cons.mp (spelled_cons.mp spelled).2).1
      exact ⟨name.name named, by simp⟩
  | valued _ named _ reads =>
      obtain ⟨name, others⟩ := spelled_cons.mp (spelled_cons.mp spelled).2
      refine ⟨name.name named, ?_⟩
      intro value member
      cases member
      exact reads.parsed (spelled_cons.mp others).2.skipEnds

theorem Clauses.isClause {first : Bool} {clause : Stmt} (clauses : Clauses first clause tokens rest)
    (spelled : Spelled tokens) : clause.IsClause Expr.Parsed first := by
  cases clauses with
  | noop => exact .noop
  | declare isFirst declares => exact .declare isFirst (declares.wellFormed spelled)
  | assign assigns => exact .assign (assigns.wellFormed spelled)
  | expr reads => exact .expr (reads.parsed spelled)

theorem Tests.parsed {test : Option Expr} (tests : Tests test tokens rest) (spelled : Spelled tokens) :
    ∀ value ∈ test, value.Parsed := by
  cases tests with
  | none => simp
  | some reads => simpa using reads.parsed spelled

theorem Updates.isClause {update : Stmt} (updates : Updates update tokens rest)
    (spelled : Spelled tokens) : update.IsClause Expr.Parsed false := by
  cases updates with
  | none => exact .noop
  | clause clauses => exact clauses.isClause spelled

theorem Tails.parsed {kind : LoopKind} {test : Expr} (tails : Tails kind test tokens rest)
    (spelled : Spelled tokens) : test.Parsed := by
  obtain ⟨shape, found, _, reads, _⟩ := tails
  exact reads.parsed_paren (spelled.passes (Passes.ofSkipEnds shape (by simp [found])))

theorem Returns.parsed {value : Option Expr} (returns : Returns value tokens rest)
    (spelled : Spelled tokens) : ∀ x ∈ value, x.Parsed := by
  cases returns with
  | none => simp
  | some reads => simpa using reads.parsed spelled

structure Stmt.Parsed (statement : Stmt) : Prop where
  wellFormed : statement.WellFormed Expr.Parsed
  elsesKept : statement.elsesKept = true

def Part.Parsed : Part → Prop
  | .statement read | .begun read => read.Parsed
  | .inside body => ∀ statement ∈ body, statement.Parsed

/-- What the grammar reads from well-spelled tokens is well formed, with each `else` in its place. -/
theorem Forms.parsed {part : Part} (forms : Forms part tokens rest) (spelled : Spelled tokens) :
    part.Parsed := by
  induction forms with
  | statement _ begun => exact begun (spelled.passes (Passes.skipBlanks _))
  | noop => exact ⟨.noop, rfl⟩
  | block _ _ inside =>
      have each := inside (spelled_cons.mp spelled).2
      exact ⟨.block fun statement member => (each statement member).wellFormed,
        Stmt.elsesKeptAll_iff.mpr fun statement member => (each statement member).elsesKept⟩
  | declare declares => exact ⟨.declare (declares.wellFormed spelled), rfl⟩
  | branch _ tests _ _ yes =>
      have inner := (spelled_cons.mp spelled).2
      have yesParsed := yes (inner.passes tests.passes)
      exact ⟨.branch (tests.parsed_paren inner) yesParsed.wellFormed,
        by simp [Stmt.elsesKept, Stmt.isHole, yesParsed.elsesKept]⟩
  | @branchElse _ _ _ yesRead _ _ _ _ _ _ _ tests yesForms shape otherwise _ yes no =>
      have inner := (spelled_cons.mp spelled).2
      have afterTest := inner.passes tests.passes
      have afterYes := (afterTest.passes yesForms.passes).passes
        (Passes.ofSkipEnds shape (by simp [otherwise]))
      have yesParsed := yes afterTest
      have noParsed := no afterYes
      -- An open branch would have taken this `else`.
      have yesShut : yesRead.endsOpen = false := by
        rw [← Bool.not_eq_true]
        intro yesOpen
        refine yesForms.shut.2 yesOpen ?_
        rw [shape]
        exact otherwise
      exact ⟨.branchElse (tests.parsed_paren inner) yesParsed.wellFormed noParsed.wellFormed,
        (Stmt.elsesKept_branchElse noParsed.wellFormed.isHole_eq_false).mpr
          ⟨yesShut, yesParsed.elsesKept, noParsed.elsesKept⟩⟩
  | doLoop _ bodyForms tails body =>
      have inner := (spelled_cons.mp spelled).2
      have bodyParsed := body inner
      exact ⟨.loop (tails.parsed (inner.passes bodyForms.passes)) bodyParsed.wellFormed,
        bodyParsed.elsesKept⟩
  | @headed _ keyword _ _ _ _ _ _ _ heads _ made body =>
      have inner := (spelled_cons.mp spelled).2
      have headParsed := heads.parsed_paren inner
      have bodyParsed := body (inner.passes heads.passes)
      cases keyword with
      | repeat_ =>
          cases made
          exact ⟨.repeats headParsed bodyParsed.wellFormed, bodyParsed.elsesKept⟩
      | with_ =>
          cases made
          exact ⟨.withTarget headParsed bodyParsed.wellFormed, bodyParsed.elsesKept⟩
      | while_ | until_ =>
          cases made
          exact ⟨.loop headParsed bodyParsed.wellFormed, bodyParsed.elsesKept⟩
      | _ => simp [Keyword.headed?] at made
  | forLoop _ _ inits divides tests dividesAgain updates shape closes _ body =>
      have header := (spelled_cons.mp (spelled_cons.mp spelled).2).2.skipEnds
      have afterInit := (header.passes inits.passes).passes divides.passes
      have afterTest := (afterInit.passes tests.passes).passes dividesAgain.passes
      have bodyParsed := body ((afterTest.passes updates.passes).passes
        (Passes.ofSkipEnds shape (by simp [closes])))
      exact ⟨.forLoop (inits.isClause header) (tests.parsed afterInit) (updates.isClause afterTest)
        bodyParsed.wellFormed, bodyParsed.elsesKept⟩
  | @jump _ keyword _ _ _ _ made =>
      cases keyword with
      | break_ =>
          cases made
          exact ⟨.breakLoop, rfl⟩
      | continue_ =>
          cases made
          exact ⟨.continueLoop, rfl⟩
      | exit_ =>
          cases made
          exact ⟨.exitScript, rfl⟩
      | _ => simp [Keyword.jump?] at made
  | ret _ returns => exact ⟨.ret (returns.parsed (spelled_cons.mp spelled).2), rfl⟩
  | expr reads => exact ⟨.expr (reads.parsed spelled), rfl⟩
  | assign assigns => exact ⟨.assign (assigns.wellFormed spelled), rfl⟩
  | close => exact fun _ member => absurd member List.not_mem_nil
  | inside firstForms _ first others =>
      exact List.forall_mem_cons.mpr ⟨first spelled, others (spelled.passes firstForms.passes)⟩

theorem Docs.isDocLine {lines : List String} (docs : Docs lines tokens rest)
    (spelled : Spelled tokens) : ∀ line ∈ lines, isDocLine line.toList = true := by
  induction docs with
  | done => simp
  | @line token _ _ _ found _ ih =>
      obtain ⟨first, others⟩ := spelled_cons.mp spelled
      have good : GameScript.isDocLine token.lit.toList = true := by
        simpa [Token.WellSpelled, found] using first
      exact List.forall_mem_cons.mpr ⟨good, ih others.skipEnds⟩

theorem Docs.ne_nil {lines : List String} (docs : Docs lines tokens rest)
    (found : headKind tokens = .docComment) : lines ≠ [] := by
  cases docs with
  | done noDoc => exact absurd found noDoc
  | line => simp

theorem Takes.wellFormed {argument : Argument} (takes : Takes argument tokens rest)
    (spelled : Spelled tokens) : argument.WellFormed Expr.Parsed := by
  cases takes with
  | one _ named passed =>
      obtain ⟨nameSpelled, others⟩ := spelled_cons.mp (spelled_cons.mp spelled).2
      have name := nameSpelled.name named
      cases passed with
      | required => exact .required name
      | optional => exact .optional name
      | defaulted _ reads => exact .defaulted name (reads.parsed (spelled_cons.mp others).2)
  | variadic _ _ named =>
      have nameSpelled := (spelled_cons.mp (spelled_cons.mp (spelled_cons.mp spelled).2).2).1
      exact .variadic (nameSpelled.name named)

theorem TakesAll.wellFormed {args : List Argument} (takesAll : TakesAll args tokens rest)
    (spelled : Spelled tokens) :
    (∀ argument ∈ args, argument.WellFormed Expr.Parsed) ∧
      args.Pairwise fun argument _ => argument.passing ≠ .variadic := by
  induction takesAll with
  | done => simp
  | last takes => simpa using takes.wellFormed spelled
  | more takes goesOn _ ih =>
      obtain ⟨others, othersLast⟩ := ih (spelled.passes takes.passes).skipEnds
      exact ⟨List.forall_mem_cons.mpr ⟨takes.wellFormed spelled, others⟩,
        List.pairwise_cons.mpr ⟨fun _ _ => goesOn, othersLast⟩⟩

theorem Lists.parsed {body : List Stmt} (lists : Lists body tokens) (spelled : Spelled tokens) :
    ∀ statement ∈ body, statement.Listed Expr.Parsed ∧ statement.elsesKept = true := by
  induction lists with
  | finish => simp
  | docs found docs _ ih =>
      have start := spelled.skipEnds
      exact List.forall_mem_cons.mpr ⟨⟨.doc (docs.ne_nil found) (docs.isDocLine start), rfl⟩,
        ih (start.passes docs.passes)⟩
  | statement _ forms _ ih =>
      have start := spelled.skipEnds
      have parsed : Stmt.Parsed _ := forms.parsed start
      exact List.forall_mem_cons.mpr ⟨⟨.statement parsed.wellFormed, parsed.elsesKept⟩,
        ih (start.passes forms.passes)⟩

structure Script.Parsed (script : Script) : Prop where
  wellFormed : script.WellFormed Expr.Parsed
  elsesKept : ∀ statement ∈ script.body, statement.elsesKept = true

/-- Every script that was read from a text is well formed, with each `else` in its place. -/
theorem Script.parsed_of_parse {chars : List Char} {script : Script}
    (read : parse chars = .ok script) : script.Parsed := by
  obtain ⟨tokens, scanned, middle, rest, docs, takesAll, lists⟩ := parse_ok_iff.mp read
  have spelled : Spelled tokens := fun token member =>
    (wellSpelled_tokenize scanned).1 token (by simp [member])
  have start := spelled.skipEnds
  have afterDocs := start.passes docs.passes
  obtain ⟨argsGood, variadicLast⟩ := takesAll.wellFormed afterDocs
  have bodyParsed := lists.parsed (afterDocs.passes takesAll.passes)
  exact ⟨⟨docs.isDocLine start, argsGood, variadicLast,
      fun statement member => (bodyParsed statement member).1⟩,
    fun statement member => (bodyParsed statement member).2⟩

end GameScript
