import GameScript.Proofs.ScriptLayout

/-!
Tokens that go on behind their end. Where the closing token stood, other tokens may follow on a new
line, and a run of line ends may have any length: what was read from the tokens is read again.
-/

namespace GameScript

def Token.Alike (first second : Token) : Prop :=
  second.kind = first.kind ∧ second.lit = first.lit

theorem Token.Alike.symm {first second : Token} (alike : first.Alike second) :
    second.Alike first :=
  ⟨alike.1.symm, alike.2.symm⟩

theorem Token.Alike.literal {first second : Token} {constant : Literal}
    (alike : first.Alike second) (denotes : first.literal = .ok constant) :
    second.literal = .ok constant := by
  unfold Token.literal at denotes ⊢
  rwa [alike.1, alike.2]

/-- What may come next in the place of a kind of token: the same, or a line end where the tokens
were over. -/
def Meets (kind other : TokenKind) : Prop :=
  other = kind ∨ kind = .finish ∧ other = .lineEnd

/-- The second tokens are the first ones, with runs of line ends of any length and with `after` in
the place of the closing token. Line ends in front make no difference. -/
inductive Extends (after : List Token) : List Token → List Token → Prop where
  | closing {last : Token} {tokens others : List Token} (shape : skipEnds tokens = [last])
      (closes : last.kind = .finish) (same : skipEnds others = skipEnds after) :
      Extends after tokens others
  | token {first second : Token} {tokens others rest more : List Token}
      (shape : skipEnds tokens = first :: rest) (otherShape : skipEnds others = second :: more)
      (alike : first.Alike second) (inner : first.kind ≠ .finish)
      (heads : Meets (headKind rest) (headKind more)) (goesOn : Extends after rest more) :
      Extends after tokens others

structure Abuts (after tokens others : List Token) : Prop where
  loosely : Extends after tokens others
  heads : Meets (headKind tokens) (headKind others)

section Relation

variable {after tokens others rest : List Token} {first : Token} {kind : TokenKind}

namespace Extends

theorem congr {otherTokens otherOthers : List Token} (goesOn : Extends after tokens others)
    (same : skipEnds otherTokens = skipEnds tokens)
    (otherSame : skipEnds otherOthers = skipEnds others) :
    Extends after otherTokens otherOthers := by
  cases goesOn with
  | closing shape closes whole => exact .closing (same.trans shape) closes (otherSame.trans whole)
  | token shape otherShape alike inner heads goesOn =>
      exact .token (same.trans shape) (otherSame.trans otherShape) alike inner heads goesOn

theorem uncons (goesOn : Extends after tokens others) (shape : skipEnds tokens = first :: rest)
    (inner : first.kind ≠ .finish) :
    ∃ second more, skipEnds others = second :: more ∧ first.Alike second ∧
      Abuts after rest more := by
  cases goesOn with
  | closing ends closes =>
      obtain ⟨rfl, _⟩ := List.cons.inj (shape.symm.trans ends)
      exact absurd closes inner
  | token here otherShape alike _ heads goesOn =>
      obtain ⟨rfl, rfl⟩ := List.cons.inj (shape.symm.trans here)
      exact ⟨_, _, otherShape, alike, goesOn, heads⟩

theorem exists_cons (goesOn : Extends after tokens others) :
    ∃ first rest, skipEnds tokens = first :: rest := by
  cases goesOn with
  | closing shape | token shape => exact ⟨_, _, shape⟩

theorem eq_of_finish (goesOn : Extends after tokens others)
    (closes : headKind (skipEnds tokens) = .finish) : skipEnds others = skipEnds after := by
  cases goesOn with
  | closing _ _ same => exact same
  | token shape _ _ inner =>
      rw [shape] at closes
      exact absurd closes inner

theorem skipEnds (goesOn : Extends after tokens others)
    (inner : headKind (skipEnds tokens) ≠ .finish) :
    Abuts after (skipEnds tokens) (skipEnds others) := by
  refine ⟨goesOn.congr (skipEnds_idem _) (skipEnds_idem _), Or.inl ?_⟩
  obtain ⟨token, later, shape⟩ := goesOn.exists_cons
  rw [shape] at inner
  obtain ⟨second, more, otherShape, alike, _⟩ := goesOn.uncons shape inner
  rw [shape, otherShape]
  exact alike.1

theorem headKind_ne (goesOn : Extends after tokens others)
    (notAfter : headKind (GameScript.skipEnds after) ≠ kind)
    (notHere : headKind (GameScript.skipEnds tokens) ≠ kind) :
    headKind (GameScript.skipEnds others) ≠ kind := by
  by_cases closes : headKind (GameScript.skipEnds tokens) = .finish
  · rwa [goesOn.eq_of_finish closes]
  · rcases (goesOn.skipEnds closes).heads with same | ⟨finish, _⟩
    · rwa [same]
    · exact absurd finish closes

theorem dropBreak {second : Token} {more : List Token}
    (goesOn : Extends after tokens (second :: more)) (breaks : second.kind = .lineEnd) :
    Extends after tokens more :=
  goesOn.congr rfl (skipEnds_lineEnd breaks more).symm

end Extends

namespace Abuts

theorem headKind_eq (abuts : Abuts after tokens others) (found : headKind tokens = kind)
    (inner : kind ≠ .finish) : headKind others = kind := by
  rcases abuts.heads with same | ⟨finish, _⟩
  · rw [same, found]
  · exact absurd (found.symm.trans finish) inner

theorem headKind_ne (abuts : Abuts after tokens others) (notHere : headKind tokens ≠ kind)
    (noBreak : kind ≠ .lineEnd) : headKind others ≠ kind := by
  rcases abuts.heads with same | ⟨_, breaks⟩
  · rwa [same]
  · rw [breaks]
    exact noBreak.symm

theorem uncons (abuts : Abuts after (first :: rest) others)
    (inner : first.kind ≠ .lineEnd ∧ first.kind ≠ .finish) :
    ∃ second more, others = second :: more ∧ first.Alike second ∧ Abuts after rest more := by
  have here : headKind others = first.kind := abuts.headKind_eq rfl inner.2
  have noBreak : headKind (first :: rest) ≠ .lineEnd := inner.1
  obtain ⟨second, more, shape, alike, goesOn⟩ :=
    abuts.loosely.uncons (skipEnds_of_headKind noBreak) inner.2
  rw [skipEnds_of_headKind (here ▸ inner.1)] at shape
  exact ⟨second, more, shape, alike, goesOn⟩

theorem unbreak (abuts : Abuts after (first :: rest) others) (breaks : first.kind = .lineEnd) :
    ∃ second more, others = second :: more ∧ second.kind = .lineEnd ∧ Extends after rest more := by
  have here : headKind others = .lineEnd := abuts.headKind_eq breaks (by simp)
  cases others with
  | nil => simp [headKind] at here
  | cons second more =>
      refine ⟨second, more, rfl, here, abuts.loosely.congr ?_ ?_⟩
      · exact (skipEnds_lineEnd breaks rest).symm
      · exact (skipEnds_lineEnd here more).symm

theorem cons {second : Token} {more : List Token} (alike : first.Alike second)
    (inner : first.kind ≠ .finish) (abuts : Abuts after rest more) :
    Abuts after (first :: rest) (second :: more) := by
  refine ⟨?_, Or.inl alike.1⟩
  by_cases breaks : first.kind = .lineEnd
  · exact abuts.loosely.congr (skipEnds_lineEnd breaks rest)
      (skipEnds_lineEnd (alike.1.trans breaks) more)
  · have noBreak : headKind (first :: rest) ≠ .lineEnd := breaks
    have otherNoBreak : headKind (second :: more) ≠ .lineEnd := by
      rw [headKind, alike.1]
      exact breaks
    exact .token (skipEnds_of_headKind noBreak) (skipEnds_of_headKind otherNoBreak) alike inner
      abuts.heads abuts.loosely

end Abuts

end Relation

/-! Phrases. -/

theorem Token.inner_of_literal {token : Token} {constant : Literal}
    (denotes : token.literal = .ok constant) : token.kind ≠ .lineEnd ∧ token.kind ≠ .finish := by
  constructor
  · intro kind
    simp [Token.literal, kind] at denotes
  · exact Token.kind_ne_finish_of_literal denotes

theorem TokenKind.inner_of_operator? {kind : TokenKind} {operator : Operator}
    (found : kind.operator? = some operator) : kind ≠ .lineEnd ∧ kind ≠ .finish := by
  constructor
  · rintro rfl
    simp [operator?] at found
  · exact TokenKind.ne_finish_of_operator? found

section Phrases

variable {after tokens others rest : List Token}

theorem Abuts.operator?_of_others {operator : Operator} (abuts : Abuts after tokens others)
    (found : (headKind others).operator? = some operator) :
    (headKind tokens).operator? = some operator := by
  rcases abuts.heads with same | ⟨_, breaks⟩
  · rwa [← same]
  · rw [breaks] at found
    exact absurd rfl (TokenKind.inner_of_operator? found).1

theorem TokenKind.ne_finish_of_startsLeaf {kind : TokenKind} (leaf : kind.startsLeaf = true) :
    kind ≠ .finish := by
  rintro rfl
  simp [startsLeaf] at leaf

theorem Reads.ne_finish {least : Int} {value : Expr}
    (reads : Reads (.binary least value) tokens rest) :
    headKind tokens ≠ .finish :=
  TokenKind.ne_finish_of_startsLeaf reads.startsLeaf

theorem Reads.ne_finish_operation {left joined : Expr} {operator : Operator}
    (reads : Reads (.operation left operator joined) tokens rest) : headKind tokens ≠ .finish := by
  cases reads with
  | pipe call => exact TokenKind.ne_finish_of_startsLeaf (Reads.called call).startsLeaf_value
  | ternary first => exact first.ne_finish
  | infixed reads => exact reads.ne_finish

theorem Reads.extended {phrase : Phrase} (reads : Reads phrase tokens rest)
    (abuts : Abuts after tokens others) :
    ∃ more, Reads phrase others more ∧ Abuts after rest more := by
  induction reads generalizing others with
  | literal denotes =>
      obtain ⟨_, more, rfl, alike, goesOn⟩ := abuts.uncons (Token.inner_of_literal denotes)
      exact ⟨more, .literal (alike.literal denotes), goesOn⟩
  | ident named notCalled =>
      obtain ⟨_, more, rfl, alike, goesOn⟩ := abuts.uncons (by simp [named])
      rw [← alike.2]
      exact ⟨more, .ident (alike.1.trans named) (goesOn.headKind_ne notCalled (by simp)), goesOn⟩
  | called _ ih =>
      obtain ⟨more, call, goesOn⟩ := ih abuts
      exact ⟨more, .called call, goesOn⟩
  | paren opens reads shape closes ih =>
      obtain ⟨_, _, rfl, alike, inside⟩ := abuts.uncons (by simp [opens])
      obtain ⟨_, inner, middleOn⟩ := ih (inside.loosely.skipEnds reads.ne_finish)
      obtain ⟨_, more, otherShape, closing, goesOn⟩ :=
        middleOn.loosely.uncons shape (by simp [closes])
      exact ⟨more, .paren (alike.1.trans opens) inner otherShape (closing.1.trans closes), goesOn⟩
  | unary found prefixes _ ih =>
      obtain ⟨_, _, rfl, alike, later⟩ := abuts.uncons (by simp [found])
      obtain ⟨more, operand, goesOn⟩ := ih later
      exact ⟨more, .unary (alike.1.trans found) prefixes operand, goesOn⟩
  | binary _ _ startIh climbIh =>
      obtain ⟨_, starts, middleOn⟩ := startIh abuts
      obtain ⟨more, climbs, goesOn⟩ := climbIh middleOn
      exact ⟨more, .binary starts climbs, goesOn⟩
  | stop weaker =>
      -- What stands in the place of the closing token is a line end, and no operator.
      exact ⟨others, .stop fun operator found => weaker operator (abuts.operator?_of_others found),
        abuts⟩
  | step found strong operation _ operationIh climbIh =>
      obtain ⟨_, _, rfl, alike, later⟩ := abuts.uncons (TokenKind.inner_of_operator? found)
      obtain ⟨_, operand, middleOn⟩ :=
        operationIh (later.loosely.skipEnds operation.ne_finish_operation)
      obtain ⟨more, climbs, goesOn⟩ := climbIh middleOn
      exact ⟨more, .step (alike.1 ▸ found) strong operand climbs, goesOn⟩
  | pipe _ ih =>
      obtain ⟨more, call, goesOn⟩ := ih abuts
      exact ⟨more, .pipe call, goesOn⟩
  | ternary _ divides isColon second yesIh noIh =>
      obtain ⟨_, yes, middleOn⟩ := yesIh abuts
      obtain ⟨_, _, otherShape, colon, laterOn⟩ :=
        middleOn.loosely.uncons divides (by simp [isColon])
      obtain ⟨more, no, goesOn⟩ := noIh (laterOn.loosely.skipEnds second.ne_finish)
      exact ⟨more, .ternary yes otherShape (colon.1.trans isColon) no, goesOn⟩
  | infixed _ ih =>
      obtain ⟨more, right, goesOn⟩ := ih abuts
      exact ⟨more, .infixed right, goesOn⟩
  | call named opens _ shape closes ih =>
      obtain ⟨_, _, rfl, callee, opening⟩ := abuts.uncons (by simp [named])
      obtain ⟨_, _, rfl, alike, inside⟩ := opening.uncons (by simp [opens])
      obtain ⟨_, items, middleOn⟩ := ih inside
      obtain ⟨_, more, otherShape, closing, goesOn⟩ :=
        middleOn.loosely.uncons shape (by simp [closes])
      rw [← callee.2]
      exact ⟨more, .call (callee.1.trans named) (alike.1.trans opens) items otherShape
        (closing.1.trans closes), goesOn⟩
  | noItems closes =>
      have goesOn := abuts.loosely.skipEnds (by simp [closes])
      exact ⟨_, .noItems (goesOn.headKind_eq closes (by simp)), goesOn⟩
  | items notClosed reads _ firstIh othersIh =>
      have start := abuts.loosely.skipEnds reads.ne_finish
      obtain ⟨_, first, middleOn⟩ := firstIh start
      obtain ⟨more, goesOnReads, goesOn⟩ := othersIh middleOn
      exact ⟨more, .items (start.headKind_ne notClosed (by simp)) first goesOnReads, goesOn⟩
  | noMore noComma => exact ⟨others, .noMore (abuts.headKind_ne noComma (by simp)), abuts⟩
  | more isComma reads _ firstIh othersIh =>
      obtain ⟨_, _, rfl, alike, later⟩ := abuts.uncons (by simp [isComma])
      obtain ⟨_, first, middleOn⟩ := firstIh (later.loosely.skipEnds reads.ne_finish)
      obtain ⟨more, goesOnReads, goesOn⟩ := othersIh middleOn
      exact ⟨more, .more (alike.1.trans isComma) first goesOnReads, goesOn⟩

end Phrases

/-! Parts of statements. -/

section Clauses

variable {after tokens others rest : List Token}

theorem Ends.extended (ends : Ends tokens rest) (abuts : Abuts after tokens others) :
    ∃ more, Ends others more ∧ Extends after rest more := by
  cases ends with
  | line found breaks =>
      obtain ⟨_, _, rfl, alike, later⟩ := abuts.uncons (by simp [found])
      obtain ⟨_, more, rfl, breaksToo, goesOn⟩ := later.unbreak breaks
      exact ⟨more, .line (alike.1.trans found) breaksToo, goesOn⟩
  | semicolon found noBreak =>
      obtain ⟨_, more, rfl, alike, later⟩ := abuts.uncons (by simp [found])
      -- What ended right behind the semicolon may go on with a line end.
      by_cases breaks : headKind more = .lineEnd
      · cases more with
        | nil => simp [headKind] at breaks
        | cons lineEnd more =>
            exact ⟨more, .line (alike.1.trans found) breaks, later.loosely.dropBreak breaks⟩
      · exact ⟨more, .semicolon (alike.1.trans found) breaks, later.loosely⟩
  | lineEnd breaks =>
      obtain ⟨_, more, rfl, breaksToo, goesOn⟩ := abuts.unbreak breaks
      exact ⟨more, .lineEnd breaksToo, goesOn⟩
  | finish closes =>
      rcases abuts.heads with same | ⟨_, breaks⟩
      · exact ⟨others, .finish (same.trans closes), abuts.loosely⟩
      · cases others with
        | nil => simp [headKind] at breaks
        | cons lineEnd more => exact ⟨more, .lineEnd breaks, abuts.loosely.dropBreak breaks⟩

theorem MayEnd.extended (mayEnd : MayEnd tokens rest) (abuts : Abuts after tokens others) :
    ∃ more, MayEnd others more ∧ Extends after rest more := by
  by_cases closes : headKind tokens = .finish
  · -- The end of the tokens may have become the end of a line.
    have same : rest = tokens := by
      cases mayEnd with
      | ends ends => exact ends.eq_of_finish closes
      | bare => rfl
    obtain ⟨more, ends, goesOn⟩ := (Ends.finish closes).extended abuts
    exact ⟨more, .ends ends, same ▸ goesOn⟩
  · cases mayEnd with
    | ends ends =>
        obtain ⟨more, endsToo, goesOn⟩ := ends.extended abuts
        exact ⟨more, .ends endsToo, goesOn⟩
    | bare noSemicolon noBreak =>
        have same : headKind others = headKind tokens := abuts.headKind_eq rfl closes
        exact ⟨others, .bare (same ▸ noSemicolon) (same ▸ noBreak), abuts.loosely⟩

theorem TokenKind.inner_of_assignOp? {kind : TokenKind} {op : AssignOp}
    (found : kind.assignOp? = some op) : kind ≠ .lineEnd ∧ kind ≠ .finish := by
  constructor
  · rintro rfl
    simp [assignOp?] at found
  · exact TokenKind.ne_finish_of_assignOp? found

theorem Assigns.extended {assignment : Assignment} (assigns : Assigns assignment tokens rest)
    (abuts : Abuts after tokens others) :
    ∃ more, Assigns assignment others more ∧ Abuts after rest more := by
  cases assigns with
  | step named found alone =>
      obtain ⟨_, _, rfl, target, later⟩ := abuts.uncons (by simp [named])
      obtain ⟨_, more, rfl, alike, goesOn⟩ := later.uncons (TokenKind.inner_of_assignOp? found)
      rw [← target.2]
      exact ⟨more, .step (target.1.trans named) (alike.1 ▸ found) alone, goesOn⟩
  | value named found valued reads =>
      obtain ⟨_, _, rfl, target, later⟩ := abuts.uncons (by simp [named])
      obtain ⟨_, _, rfl, alike, inside⟩ := later.uncons (TokenKind.inner_of_assignOp? found)
      obtain ⟨more, value, goesOn⟩ := reads.extended (inside.loosely.skipEnds reads.ne_finish)
      rw [← target.2]
      exact ⟨more, .value (target.1.trans named) (alike.1 ▸ found) valued value, goesOn⟩

theorem TokenKind.inner_of_declares {kind : TokenKind} (declares : kind.declares = true) :
    kind ≠ .lineEnd ∧ kind ≠ .finish := by
  constructor
  · rintro rfl
    simp [TokenKind.declares] at declares
  · exact TokenKind.ne_finish_of_declares declares

theorem Declares.extended {declaration : Declaration} (declares : Declares declaration tokens rest)
    (abuts : Abuts after tokens others) :
    ∃ more, Declares declaration others more ∧ Abuts after rest more := by
  cases declares with
  | bare declares named noValue =>
      obtain ⟨_, _, rfl, word, later⟩ := abuts.uncons (TokenKind.inner_of_declares declares)
      obtain ⟨_, more, rfl, name, goesOn⟩ := later.uncons (by simp [named])
      rw [← word.1] at declares ⊢
      rw [← name.2]
      exact ⟨more, .bare declares (name.1.trans named) (goesOn.headKind_ne noValue (by simp)),
        goesOn⟩
  | valued declares named found reads =>
      obtain ⟨_, _, rfl, word, later⟩ := abuts.uncons (TokenKind.inner_of_declares declares)
      obtain ⟨_, _, rfl, name, equals⟩ := later.uncons (by simp [named])
      obtain ⟨_, _, rfl, alike, inside⟩ := equals.uncons (by simp [found])
      obtain ⟨more, value, goesOn⟩ := reads.extended (inside.loosely.skipEnds reads.ne_finish)
      rw [← word.1] at declares ⊢
      rw [← name.2]
      exact ⟨more, .valued declares (name.1.trans named) (alike.1.trans found) value, goesOn⟩

theorem Clauses.extended {first : Bool} {clause : Stmt} (clauses : Clauses first clause tokens rest)
    (abuts : Abuts after tokens others) :
    ∃ more, Clauses first clause others more ∧ Abuts after rest more := by
  cases clauses with
  | noop empty => exact ⟨others, .noop (abuts.headKind_eq empty (by simp)), abuts⟩
  | declare isFirst declares =>
      obtain ⟨more, declaresToo, goesOn⟩ := declares.extended abuts
      exact ⟨more, .declare isFirst declaresToo, goesOn⟩
  | assign assigns =>
      obtain ⟨more, assignsToo, goesOn⟩ := assigns.extended abuts
      exact ⟨more, .assign assignsToo, goesOn⟩
  | expr reads noAssign =>
      obtain ⟨more, value, goesOn⟩ := reads.extended abuts
      refine ⟨more, .expr value ?_, goesOn⟩
      rcases goesOn.heads with same | ⟨_, breaks⟩
      · rwa [same]
      · rw [breaks]
        rfl

theorem Tests.extended {test : Option Expr} (tests : Tests test tokens rest)
    (abuts : Abuts after tokens others) :
    ∃ more, Tests test others more ∧ Abuts after rest more := by
  cases tests with
  | none empty => exact ⟨others, .none (abuts.headKind_eq empty (by simp)), abuts⟩
  | some reads =>
      obtain ⟨more, value, goesOn⟩ := reads.extended abuts
      exact ⟨more, .some value, goesOn⟩

theorem Tests.ne_finish {test : Option Expr} (tests : Tests test tokens rest) :
    headKind tokens ≠ .finish := by
  cases tests with
  | none empty => simp [empty]
  | some reads => exact reads.ne_finish

theorem Updates.extended {update : Stmt} (updates : Updates update tokens rest)
    (abuts : Abuts after tokens others) :
    ∃ more, Updates update others more ∧ Abuts after rest more := by
  cases updates with
  | none empty => exact ⟨others, .none (abuts.headKind_eq empty (by simp)), abuts⟩
  | clause clauses =>
      obtain ⟨more, clausesToo, goesOn⟩ := clauses.extended abuts
      exact ⟨more, .clause clausesToo, goesOn⟩

theorem Updates.ne_finish {update : Stmt} (updates : Updates update tokens rest) :
    headKind tokens ≠ .finish := by
  cases updates with
  | none empty => simp [empty]
  | clause clauses => exact clauses.headKind_ne rfl

theorem Divides.extended (divides : Divides tokens rest) (goesOn : Extends after tokens others)
    (inner : headKind rest ≠ .finish) : ∃ more, Divides others more ∧ Abuts after rest more := by
  cases divides with
  | semicolon shape found =>
      obtain ⟨_, _, otherShape, alike, later⟩ := goesOn.uncons shape (by simp [found])
      exact ⟨_, .semicolon otherShape (alike.1.trans found), later.loosely.skipEnds inner⟩

theorem Tails.extended {kind : LoopKind} {test : Expr} (tails : Tails kind test tokens rest)
    (goesOn : Extends after tokens others) :
    ∃ more, Tails kind test others more ∧ Extends after rest more := by
  obtain ⟨shape, found, loops, reads, ends⟩ := tails
  obtain ⟨_, _, otherShape, alike, later⟩ := goesOn.uncons shape (by simp [found])
  obtain ⟨_, condition, middleOn⟩ := reads.extended later
  obtain ⟨more, endsToo, restOn⟩ := ends.extended middleOn
  exact ⟨more, .intro otherShape (alike.1.trans found) loops condition endsToo, restOn⟩

theorem Returns.extended {value : Option Expr} (returns : Returns value tokens rest)
    (abuts : Abuts after tokens others) :
    ∃ more, Returns value others more ∧ Extends after rest more := by
  cases returns with
  | none ends =>
      obtain ⟨more, endsToo, goesOn⟩ := ends.extended abuts
      exact ⟨more, .none endsToo, goesOn⟩
  | some reads ends =>
      obtain ⟨_, value, middleOn⟩ := reads.extended abuts
      obtain ⟨more, endsToo, goesOn⟩ := ends.extended middleOn
      exact ⟨more, .some value endsToo, goesOn⟩

end Clauses

/-! Statements. -/

section Statements

variable {after tokens others rest : List Token}

theorem skipBlanks_of_doc {token : Token} (shape : skipEnds tokens = token :: rest)
    (doc : token.kind = .docComment) : skipBlanks tokens = skipBlanks rest := by
  rw [← skipBlanks_skipEnds, shape]
  simp [skipBlanks, doc]

theorem Extends.skipBlanks (goesOn : Extends after tokens others)
    (inner : headKind (skipBlanks tokens) ≠ .finish) :
    Abuts after (skipBlanks tokens) (skipBlanks others) := by
  induction goesOn with
  | @closing last _ _ shape closes =>
      rw [← skipBlanks_skipEnds, shape, skipBlanks_of_headKind] at inner
      · exact absurd closes inner
      · simp [headKind, closes]
      · simp [headKind, closes]
  | @token first second before othersBefore _ _ shape otherShape alike isInner heads later ih =>
      by_cases doc : first.kind = .docComment
      · rw [skipBlanks_of_doc shape doc] at inner ⊢
        rw [skipBlanks_of_doc otherShape (alike.1.trans doc)]
        exact ih inner
      · have noDoc : headKind (GameScript.skipEnds before) ≠ .docComment := by
          rw [shape]
          exact doc
        have start : Abuts after (GameScript.skipEnds before) (GameScript.skipEnds othersBefore) :=
          Extends.skipEnds (.token shape otherShape alike isInner heads later)
            (by rw [shape]; exact isInner)
        have otherNoDoc := start.headKind_ne noDoc (by simp)
        rwa [skipBlanks_eq_skipEnds noDoc, skipBlanks_eq_skipEnds otherNoDoc]

def Part.Met (after tokens others : List Token) : Part → Prop
  | .begun _ => Abuts after tokens others
  | .statement _ | .inside _ => Extends after tokens others

/-- Statements are read as before, if what comes after the closing token is no `else`. -/
theorem Forms.extended {part : Part} (noElse : headKind (skipEnds after) ≠ .keyword .else_)
    (forms : Forms part tokens rest) (met : part.Met after tokens others) :
    ∃ more, Forms part others more ∧ Extends after rest more := by
  induction forms generalizing others with
  | statement begun ih =>
      have start := Extends.skipBlanks met (begun.headKind_ne rfl)
      obtain ⟨more, forms, goesOn⟩ := ih start
      exact ⟨more, .statement forms, goesOn⟩
  | noop empty ends =>
      obtain ⟨more, endsToo, goesOn⟩ := ends.extended met
      exact ⟨more, .noop (Abuts.headKind_eq met empty (by simp)) endsToo, goesOn⟩
  | block opens _ ih =>
      obtain ⟨_, _, rfl, alike, later⟩ := Abuts.uncons met (by simp [opens])
      obtain ⟨more, inside, goesOn⟩ := ih later.loosely
      exact ⟨more, .block (alike.1.trans opens) inside, goesOn⟩
  | declare declares ends =>
      obtain ⟨_, declaresToo, middleOn⟩ := declares.extended met
      obtain ⟨more, endsToo, goesOn⟩ := ends.extended middleOn
      exact ⟨more, .declare declaresToo endsToo, goesOn⟩
  | branch found tests _ noElseHere ih =>
      obtain ⟨_, _, rfl, alike, later⟩ := Abuts.uncons met (by simp [found])
      obtain ⟨_, condition, middleOn⟩ := tests.extended later
      obtain ⟨more, yes, goesOn⟩ := ih middleOn.loosely
      -- An `else` behind the closing token would belong to this branch.
      exact ⟨more, .branch (alike.1.trans found) condition yes
        (goesOn.headKind_ne noElse noElseHere), goesOn⟩
  | branchElse found tests _ shape otherwise _ yesIh noIh =>
      obtain ⟨_, _, rfl, alike, later⟩ := Abuts.uncons met (by simp [found])
      obtain ⟨_, condition, middleOn⟩ := tests.extended later
      obtain ⟨_, yes, secondOn⟩ := yesIh middleOn.loosely
      obtain ⟨_, _, otherShape, isElse, thirdOn⟩ := secondOn.uncons shape (by simp [otherwise])
      obtain ⟨more, no, goesOn⟩ := noIh thirdOn.loosely
      exact ⟨more, .branchElse (alike.1.trans found) condition yes otherShape
        (isElse.1.trans otherwise) no, goesOn⟩
  | doLoop found _ tails ih =>
      obtain ⟨_, _, rfl, alike, later⟩ := Abuts.uncons met (by simp [found])
      obtain ⟨_, body, middleOn⟩ := ih later.loosely
      obtain ⟨more, tailsToo, goesOn⟩ := tails.extended middleOn
      exact ⟨more, .doLoop (alike.1.trans found) body tailsToo, goesOn⟩
  | headed found heads _ made ih =>
      obtain ⟨_, _, rfl, alike, later⟩ := Abuts.uncons met (by simp [found])
      obtain ⟨_, head, middleOn⟩ := heads.extended later
      obtain ⟨more, body, goesOn⟩ := ih middleOn.loosely
      exact ⟨more, .headed (alike.1.trans found) head body made, goesOn⟩
  | forLoop found opens inits divides tests dividesAgain updates shape closes _ ih =>
      obtain ⟨_, _, rfl, alike, opening⟩ := Abuts.uncons met (by simp [found])
      obtain ⟨_, _, rfl, opensToo, header⟩ := opening.uncons (by simp [opens])
      obtain ⟨_, initsToo, firstOn⟩ :=
        inits.extended (header.loosely.skipEnds (inits.headKind_ne rfl))
      obtain ⟨_, dividesToo, secondOn⟩ := divides.extended firstOn.loosely tests.ne_finish
      obtain ⟨_, testsToo, thirdOn⟩ := tests.extended secondOn
      obtain ⟨_, dividesAgainToo, fourthOn⟩ :=
        dividesAgain.extended thirdOn.loosely updates.ne_finish
      obtain ⟨_, updatesToo, fifthOn⟩ := updates.extended fourthOn
      obtain ⟨_, _, otherShape, closing, sixthOn⟩ := fifthOn.loosely.uncons shape (by simp [closes])
      obtain ⟨more, body, goesOn⟩ := ih sixthOn.loosely
      exact ⟨more, .forLoop (alike.1.trans found) (opensToo.1.trans opens) initsToo dividesToo
        testsToo dividesAgainToo updatesToo otherShape (closing.1.trans closes) body, goesOn⟩
  | jump found made ends =>
      obtain ⟨_, _, rfl, alike, later⟩ := Abuts.uncons met (by simp [found])
      obtain ⟨more, endsToo, goesOn⟩ := ends.extended later
      exact ⟨more, .jump (alike.1.trans found) made endsToo, goesOn⟩
  | ret found returns =>
      obtain ⟨_, _, rfl, alike, later⟩ := Abuts.uncons met (by simp [found])
      obtain ⟨more, returnsToo, goesOn⟩ := returns.extended later
      exact ⟨more, .ret (alike.1.trans found) returnsToo, goesOn⟩
  | expr reads ends =>
      obtain ⟨_, value, middleOn⟩ := reads.extended met
      obtain ⟨more, endsToo, goesOn⟩ := ends.extended middleOn
      exact ⟨more, .expr value endsToo, goesOn⟩
  | assign assigns ends =>
      obtain ⟨_, assignsToo, middleOn⟩ := assigns.extended met
      obtain ⟨more, endsToo, goesOn⟩ := ends.extended middleOn
      exact ⟨more, .assign assignsToo endsToo, goesOn⟩
  | @close brace _ _ shape closes =>
      have start := Extends.skipBlanks met (by simp [shape, headKind, closes])
      rw [shape] at start
      obtain ⟨_, more, otherShape, alike, goesOn⟩ := start.uncons (by simp [closes])
      exact ⟨more, .close otherShape (alike.1.trans closes), goesOn.loosely⟩
  | inside _ _ firstIh othersIh =>
      obtain ⟨_, first, middleOn⟩ := firstIh met
      obtain ⟨more, inside, goesOn⟩ := othersIh middleOn
      exact ⟨more, .inside first inside, goesOn⟩

end Statements

/-! Scripts. -/

section Scripts

variable {after tokens others rest : List Token}

theorem Docs.extended {lines : List String} (docs : Docs lines (skipEnds tokens) rest)
    (noDoc : headKind (skipEnds after) ≠ .docComment) (goesOn : Extends after tokens others) :
    ∃ later more, rest = skipEnds later ∧ Docs lines (skipEnds others) (skipEnds more) ∧
      Extends after later more := by
  generalize start : skipEnds tokens = ahead at docs
  induction docs generalizing tokens others with
  | done noDocHere =>
      subst start
      exact ⟨tokens, others, rfl, .done (goesOn.headKind_ne noDoc noDocHere), goesOn⟩
  | line found _ ih =>
      obtain ⟨_, _, otherShape, alike, inside⟩ := goesOn.uncons start (by simp [found])
      obtain ⟨later, more, same, docs, laterOn⟩ := ih inside.loosely rfl
      rw [otherShape, ← alike.2]
      exact ⟨later, more, same, .line (alike.1.trans found) docs, laterOn⟩

theorem Passed.extended {passing : Passing} (passed : Passed passing tokens rest)
    (abuts : Abuts after tokens others) :
    ∃ more, Passed passing others more ∧ Extends after rest more := by
  cases passed with
  | required ends =>
      obtain ⟨more, endsToo, goesOn⟩ := ends.extended abuts
      exact ⟨more, .required endsToo, goesOn⟩
  | optional found ends =>
      obtain ⟨_, _, rfl, alike, later⟩ := abuts.uncons (by simp [found])
      obtain ⟨more, endsToo, goesOn⟩ := ends.extended later
      exact ⟨more, .optional (alike.1.trans found) endsToo, goesOn⟩
  | defaulted found reads ends =>
      obtain ⟨_, _, rfl, alike, later⟩ := abuts.uncons (by simp [found])
      obtain ⟨_, value, middleOn⟩ := reads.extended later
      obtain ⟨more, endsToo, goesOn⟩ := ends.extended middleOn
      exact ⟨more, .defaulted (alike.1.trans found) value endsToo, goesOn⟩

theorem Takes.extended {argument : Argument} (takes : Takes argument tokens rest)
    (abuts : Abuts after tokens others) :
    ∃ more, Takes argument others more ∧ Extends after rest more := by
  cases takes with
  | one found named passed =>
      obtain ⟨_, _, rfl, alike, later⟩ := abuts.uncons (by simp [found])
      obtain ⟨_, _, rfl, name, inside⟩ := later.uncons (by simp [named])
      obtain ⟨more, passedToo, goesOn⟩ := passed.extended inside
      rw [← name.2]
      exact ⟨more, .one (alike.1.trans found) (name.1.trans named) passedToo, goesOn⟩
  | variadic found ellipsis named ends =>
      obtain ⟨_, _, rfl, alike, later⟩ := abuts.uncons (by simp [found])
      obtain ⟨_, _, rfl, dots, inside⟩ := later.uncons (by simp [ellipsis])
      obtain ⟨_, _, rfl, name, end_⟩ := inside.uncons (by simp [named])
      obtain ⟨more, endsToo, goesOn⟩ := ends.extended end_
      rw [← name.2]
      exact ⟨more, .variadic (alike.1.trans found) (dots.1.trans ellipsis) (name.1.trans named)
        endsToo, goesOn⟩

theorem Takes.ne_finish {argument : Argument} (takes : Takes argument tokens rest) :
    headKind tokens ≠ .finish := by
  simp [takes.headKind_eq]

theorem TakesAll.extended {args : List Argument} (takesAll : TakesAll args (skipEnds tokens) rest)
    (noArgument : headKind (skipEnds after) ≠ .keyword .argument_)
    (goesOn : Extends after tokens others) :
    ∃ later more, rest = skipEnds later ∧ TakesAll args (skipEnds others) (skipEnds more) ∧
      Extends after later more := by
  generalize start : skipEnds tokens = ahead at takesAll
  induction takesAll generalizing tokens others with
  | done noArgumentHere =>
      subst start
      exact ⟨tokens, others, rfl, .done (goesOn.headKind_ne noArgument noArgumentHere), goesOn⟩
  | last takes =>
      subst start
      obtain ⟨more, takesToo, restOn⟩ := takes.extended (goesOn.skipEnds takes.ne_finish)
      exact ⟨_, more, rfl, .last takesToo, restOn⟩
  | more takes notVariadic _ ih =>
      subst start
      obtain ⟨_, takesToo, middleOn⟩ := takes.extended (goesOn.skipEnds takes.ne_finish)
      obtain ⟨later, more, same, takesAll, restOn⟩ := ih middleOn rfl
      exact ⟨later, more, same, .more takesToo notVariadic takesAll, restOn⟩

theorem Lists.extended {body more : List Stmt} (lists : Lists body tokens)
    (moreList : Lists more after) (noDoc : headKind (skipEnds after) ≠ .docComment)
    (goesOn : Extends after tokens others) : Lists (body ++ more) others := by
  induction lists generalizing others with
  | finish closes => exact moreList.congr (goesOn.eq_of_finish closes)
  | docs found docs _ ih =>
      have start := goesOn.skipEnds (by simp [found])
      obtain ⟨later, next, rfl, docsToo, laterOn⟩ := docs.extended noDoc goesOn
      refine .docs (start.headKind_eq found (by simp)) docsToo (ih ?_)
      exact laterOn.congr (skipEnds_idem later) (skipEnds_idem next)
  | statement noDocHere forms _ ih =>
      have noElse : headKind (skipEnds after) ≠ .keyword .else_ :=
        moreList.headKind_ne rfl (by simp) (by simp)
      have start := goesOn.congr (skipEnds_idem _) (skipEnds_idem _)
      obtain ⟨_, formsToo, laterOn⟩ := forms.extended noElse start
      exact .statement (goesOn.headKind_ne noDoc noDocHere) formsToo (ih laterOn)

theorem ReadsScript.extended {script : Script} {more : List Stmt}
    (reads : ReadsScript script tokens) (moreList : Lists more after)
    (noDoc : headKind (skipEnds after) ≠ .docComment) (goesOn : Extends after tokens others) :
    ReadsScript ⟨script.doc, script.args, script.body ++ more⟩ others := by
  have noArgument : headKind (skipEnds after) ≠ .keyword .argument_ :=
    moreList.headKind_ne rfl (by simp) (by simp)
  obtain ⟨_, _, docs, takesAll, lists⟩ := reads
  obtain ⟨_, _, rfl, docsToo, middleOn⟩ := docs.extended noDoc goesOn
  obtain ⟨later, next, rfl, takesToo, laterOn⟩ := takesAll.extended noArgument middleOn
  refine ⟨_, _, docsToo, takesToo, lists.extended moreList noDoc ?_⟩
  exact laterOn.congr (skipEnds_idem later) (skipEnds_idem next)

end Scripts

end GameScript
