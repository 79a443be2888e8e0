import GameScript.Proofs.Denotation

/-!
Rewriting of expressions from the leaves up, and what it says about printed text: parentheses only
keep the shape of a tree, and a tree that the grammar gave needs none.
-/

namespace GameScript

namespace Expr

mutual

def rewrite (rule : Expr → Expr) : Expr → Expr
  | binary op left right => rule (.binary op (left.rewrite rule) (right.rewrite rule))
  | ternary test yes no =>
      rule (.ternary (test.rewrite rule) (yes.rewrite rule) (no.rewrite rule))
  | pipe input name args => rule (.pipe (input.rewrite rule) name (rewriteAll rule args))
  | paren inner => rule (.paren (inner.rewrite rule))
  | call name args => rule (.call name (rewriteAll rule args))
  | ident name => rule (.ident name)
  | unary op operand => rule (.unary op (operand.rewrite rule))
  | literal value => rule (.literal value)
  | hole => rule .hole

def rewriteAll (rule : Expr → Expr) : List Expr → List Expr
  | [] => []
  | first :: others => first.rewrite rule :: rewriteAll rule others

end

@[simp] theorem rewriteAll_eq_map (rule : Expr → Expr) (args : List Expr) :
    rewriteAll rule args = args.map (rewrite rule) := by
  induction args with
  | nil => rfl
  | cons first others ih => rw [rewriteAll, ih, List.map_cons]

def dropParen : Expr → Expr
  | paren inner => inner
  | other => other

def erase : Expr → Expr := rewrite dropParen

/-- A number as its text is read: not-a-number and infinity are names, and a sign is an operator. -/
def spellNumber : Expr → Expr
  | literal (.number value) => value.denoted
  | other => other

def spellNumbers : Expr → Expr := rewrite spellNumber

def nameInfinite : Expr → Expr
  | literal (.number value) =>
      if value.isInfinite then .ident "infinity" else .literal (.number value)
  | other => other

def nameInfinity : Expr → Expr := rewrite nameInfinite

def lowerForm : Expr → Expr
  | pipe input name args => .call name (input :: args)
  | binary .power left right => .call "power" [left, right]
  | literal (.char value) => .literal (Literal.ofText (String.singleton value))
  | other => other

def lower : Expr → Expr := rewrite lowerForm

theorem erase_wrapped (needed : Bool) (inner : Expr) : (wrapped needed inner).erase = inner.erase := by
  cases needed <;> rfl

theorem erase_call (name : String) (args : List Expr) :
    (call name args).erase = .call name (args.map erase) := by
  simp [erase, rewrite, dropParen]

theorem erase_pipe (input : Expr) (name : String) (args : List Expr) :
    (pipe input name args).erase = .pipe input.erase name (args.map erase) := by
  simp [erase, rewrite, dropParen]

theorem spellNumbers_call (name : String) (args : List Expr) :
    (call name args).spellNumbers = .call name (args.map spellNumbers) := by
  simp [spellNumbers, rewrite, spellNumber]

theorem spellNumbers_pipe (input : Expr) (name : String) (args : List Expr) :
    (pipe input name args).spellNumbers = .pipe input.spellNumbers name (args.map spellNumbers) := by
  simp [spellNumbers, rewrite, spellNumber]

/-- The printed parentheses, and those of the tree, are the only difference between a tree and what
its text denotes. -/
theorem WellFormed.erase_denoted {number : Double → Prop} {x : Expr} {dialect : Dialect}
    (wellFormed : x.WellFormed number) (notPlain : dialect ≠ .plain) :
    (x.denoted dialect).erase = x.spellNumbers.erase := by
  have each : ∀ {args : List Expr},
      (∀ arg ∈ args, (arg.denoted dialect).erase = arg.spellNumbers.erase) →
      (denotedAll dialect args).map erase = (args.map spellNumbers).map erase := by
    intro args all
    rw [denotedAll_eq_map, List.map_map, List.map_map]
    exact List.map_congr_left all
  induction wellFormed with
  | @binary op _ _ _ _ _ left right =>
      rw [denoted_binary (by simp [notPlain])]
      exact congrArg₂ (Expr.binary op) ((erase_wrapped _ _).trans left)
        ((erase_wrapped _ _).trans right)
  | @ternary test yes no _ _ _ testSame yesSame noSame =>
      calc ((Expr.ternary test yes no).denoted dialect).erase
          = Expr.ternary (wrapped _ (test.denoted dialect)).erase (yes.denoted dialect).erase
              (no.denoted dialect).erase := rfl
        _ = Expr.ternary test.spellNumbers.erase yes.spellNumbers.erase no.spellNumbers.erase := by
              rw [erase_wrapped, testSame, yesSame, noSame]
  | pipe _ _ _ input args =>
      rw [denoted, if_neg notPlain, erase_pipe, erase_wrapped, input, each args, spellNumbers_pipe,
        erase_pipe]
  | paren _ inner => exact inner
  | call _ _ args => rw [denoted, erase_call, each args, spellNumbers_call, erase_call]
  | ident => rfl
  | @unary op _ _ _ operand => exact congrArg (Expr.unary op) ((erase_wrapped _ _).trans operand)
  | @literal value _ =>
      cases value with
      | number | bool | string | undefined => rfl
      | char => simp [denoted, Literal.denoted, notPlain, spellNumbers, rewrite, spellNumber]

/-! Canonical trees are printed as they are. -/

theorem isNegative_of_unsigned {x : Expr} (wellFormed : x.WellFormed Double.Unsigned) :
    x.isNegative = false := by
  cases wellFormed with
  | @literal value good =>
      cases value with
      | number value => simp [isNegative, Double.printsNegative, Double.Unsigned.not_negative good]
      | bool | string | char | undefined => rfl
  | binary | ternary | pipe | paren | call | ident | unary => rfl

theorem ofBinary_le_precedence (op : BinaryOp) (left right : Expr) (dialect : Dialect) :
    Precedence.ofBinary op ≤ (binary op left right).precedence dialect := by
  have value := Precedence.ofBinary_lt_value op
  rw [precedence]
  split_ifs <;> omega

theorem floor_le_precedence (x : Expr) (dialect : Dialect) : x.floor ≤ x.precedence dialect := by
  cases x with
  | binary op left right => exact (min_le_right _ _).trans (ofBinary_le_precedence op left right dialect)
  | ternary => exact min_le_right _ _
  | pipe =>
      refine (min_le_right _ _).trans ?_
      rw [precedence]
      split_ifs <;> decide
  | paren | call | ident | unary | literal | hole => exact le_refl _

theorem le_precedence_of_lt_reach {x : Expr} {least : Nat} (dialect : Dialect)
    (notPipe : x.isPipe = false) (ends : least < x.reach) : least ≤ x.precedence dialect := by
  cases x with
  | binary op left right =>
      exact (Nat.le_of_lt_succ ends).trans (ofBinary_le_precedence op left right dialect)
  | ternary => exact (Nat.le_of_lt ends).trans (by decide : Precedence.pipe ≤ Precedence.ternary)
  | pipe => simp [isPipe] at notPipe
  | paren | call | ident | unary | literal | hole => exact ends.le

theorem leftNeeds_eq_false {x : Expr} {dialect : Dialect} {least : Nat}
    (wellFormed : x.WellFormed Double.Unsigned) (notTernary : Precedence.pipe < x.reach)
    (strong : x.isPipe = false → least ≤ x.precedence dialect) :
    leftNeeds dialect x least = false := by
  have bare : x.isPipe = false → operandNeeds dialect x least = false := fun notPipe =>
    operandNeeds_eq_false_iff.mpr ⟨strong notPipe, isNegative_of_unsigned wellFormed⟩
  cases x with
  | pipe => rfl
  | ternary => exact absurd notTernary (Nat.lt_irrefl _)
  | binary | paren | call | ident | unary | literal | hole => exact bare rfl

theorem Canonical.floor_of_pipeOnLeft {x : Expr} {dialect : Dialect} (canonical : x.Canonical)
    (piped : x.pipeOnLeft dialect = true) : x.floor ≤ Precedence.pipe := by
  induction canonical with
  | binary _ _ _ _ _ left =>
      simp only [pipeOnLeft, Bool.and_eq_true] at piped
      exact (min_le_left _ _).trans (left piped.2)
  | pipe => exact min_le_right _ _
  | ternary | paren | call | ident | unary | literal => simp [pipeOnLeft] at piped

theorem Canonical.rightNeeds_eq_false {x : Expr} {dialect : Dialect} {least : Nat}
    (canonical : x.Canonical) (wellFormed : x.WellFormed Double.Unsigned)
    (notPipe : Precedence.pipe < least) (starts : least ≤ x.floor) :
    rightNeeds dialect x least = false := by
  refine Bool.or_eq_false_iff.mpr ⟨?_, operandNeeds_eq_false_iff.mpr
    ⟨starts.trans (floor_le_precedence x dialect), isNegative_of_unsigned wellFormed⟩⟩
  cases piped : x.pipeOnLeft dialect with
  | false => rfl
  | true =>
      have low := canonical.floor_of_pipeOnLeft piped
      omega

theorem denoted_binary_bare {op : BinaryOp} {left right : Expr} {dialect : Dialect}
    (canonical : (binary op left right).Canonical)
    (leftGood : left.WellFormed Double.Unsigned) (rightGood : right.WellFormed Double.Unsigned)
    (kept : ¬(op = .power ∧ dialect = .plain)) :
    (binary op left right).denoted dialect =
      .binary op (left.denoted dialect) (right.denoted dialect) := by
  cases canonical with
  | binary known _ rightCanonical leftEnds rightStarts =>
      have tight := Precedence.three_le_ofBinary known
      have one : Precedence.pipe = 1 := rfl
      have leftBare : leftNeeds dialect left (Precedence.ofBinary op) = false :=
        leftNeeds_eq_false leftGood (by omega) fun notPipe =>
          le_precedence_of_lt_reach dialect notPipe leftEnds
      have rightBare : rightNeeds dialect right (Precedence.ofBinary op + 1) = false :=
        rightCanonical.rightNeeds_eq_false rightGood (by omega) rightStarts
      rw [denoted_binary kept, leftBare, rightBare]
      rfl

theorem denoted_ternary_bare {test yes no : Expr} {dialect : Dialect}
    (canonical : (ternary test yes no).Canonical) (testGood : test.WellFormed Double.Unsigned) :
    (ternary test yes no).denoted dialect =
      .ternary (test.denoted dialect) (yes.denoted dialect) (no.denoted dialect) := by
  cases canonical with
  | ternary _ _ _ testEnds =>
      have testBare : leftNeeds dialect test (Precedence.ternary + 1) = false := by
        refine leftNeeds_eq_false testGood (Nat.lt_of_succ_lt testEnds) fun notPipe => ?_
        cases testGood with
        | binary known =>
            exact (Precedence.three_le_ofBinary known).trans (ofBinary_le_precedence _ _ _ dialect)
        | ternary => exact absurd testEnds (by decide : ¬Precedence.ternary < Precedence.pipe)
        | pipe => simp [isPipe] at notPipe
        | paren | call | ident | unary | literal =>
            exact (by decide : Precedence.ternary + 1 ≤ Precedence.value)
      rw [denoted, testBare]
      rfl

theorem denoted_pipe_bare {input : Expr} {name : String} {args : List Expr} {dialect : Dialect}
    (canonical : (pipe input name args).Canonical) (inputGood : input.WellFormed Double.Unsigned)
    (notPlain : dialect ≠ .plain) :
    (pipe input name args).denoted dialect =
      .pipe (input.denoted dialect) name (args.map (denoted dialect)) := by
  cases canonical with
  | pipe _ _ inputEnds =>
      have inputBare : leftNeeds dialect input Precedence.pipe = false :=
        leftNeeds_eq_false inputGood inputEnds fun notPipe =>
          le_precedence_of_lt_reach dialect notPipe inputEnds
      rw [denoted, if_neg notPlain, inputBare, denotedAll_eq_map]
      rfl

theorem denoted_unary_bare {op : UnaryOp} {operand : Expr} {dialect : Dialect}
    (operandGood : operand.WellFormed Double.Unsigned) :
    (unary op operand).denoted dialect = .unary op (operand.denoted dialect) := by
  rw [denoted, isNegative_of_unsigned operandGood]
  rfl

end Expr

theorem Double.Unsigned.denoted_eq {x : Double} (unsigned : x.Unsigned) :
    x.denoted = Expr.nameInfinite (.literal (.number x)) := by
  have size : x.size = x := ofMagnitude_magnitude unsigned.not_negative
  simp [denoted, Expr.nameInfinite, unsigned.not_nan, unsigned.not_negative, size]

namespace Expr

theorem nameInfinity_call (name : String) (args : List Expr) :
    (call name args).nameInfinity = .call name (args.map nameInfinity) := by
  simp [nameInfinity, rewrite, nameInfinite]

theorem nameInfinity_pipe (input : Expr) (name : String) (args : List Expr) :
    (pipe input name args).nameInfinity = .pipe input.nameInfinity name (args.map nameInfinity) := by
  simp [nameInfinity, rewrite, nameInfinite]

/-- The text of a canonical expression denotes the expression, apart from infinite numbers. -/
theorem Canonical.denoted_eq {x : Expr} {dialect : Dialect} (canonical : x.Canonical)
    (wellFormed : x.WellFormed Double.Unsigned) (notPlain : dialect ≠ .plain) :
    x.denoted dialect = x.nameInfinity := by
  induction wellFormed with
  | @binary op _ _ _ leftGood rightGood left right =>
      rw [denoted_binary_bare canonical leftGood rightGood (by simp [notPlain])]
      cases canonical with
      | binary _ leftCanonical rightCanonical =>
          exact congrArg₂ (Expr.binary op) (left leftCanonical) (right rightCanonical)
  | ternary testGood _ _ test yes no =>
      rw [denoted_ternary_bare canonical testGood]
      cases canonical with
      | ternary testCanonical yesCanonical noCanonical =>
          rw [test testCanonical, yes yesCanonical, no noCanonical]
          rfl
  | pipe _ inputGood _ input args =>
      rw [denoted_pipe_bare canonical inputGood notPlain, nameInfinity_pipe]
      cases canonical with
      | pipe inputCanonical argsCanonical =>
          rw [input inputCanonical,
            List.map_congr_left fun arg member => args arg member (argsCanonical arg member)]
  | paren _ inner =>
      cases canonical with
      | paren innerCanonical => exact congrArg Expr.paren (inner innerCanonical)
  | call _ _ args =>
      rw [denoted, denotedAll_eq_map, nameInfinity_call]
      cases canonical with
      | call argsCanonical =>
          rw [List.map_congr_left fun arg member => args arg member (argsCanonical arg member)]
  | ident => rfl
  | @unary op _ _ operandGood operand =>
      rw [denoted_unary_bare operandGood]
      cases canonical with
      | unary _ operandCanonical => exact congrArg (Expr.unary op) (operand operandCanonical)
  | @literal value good =>
      cases value with
      | number value => exact Double.Unsigned.denoted_eq good
      | char value => simp [denoted, Literal.denoted, notPlain, nameInfinity, rewrite, nameInfinite]
      | bool | string | undefined => rfl

theorem lower_call (name : String) (args : List Expr) :
    (call name args).lower = .call name (args.map lower) := by
  simp [lower, rewrite, lowerForm]

theorem lower_pipe (input : Expr) (name : String) (args : List Expr) :
    (pipe input name args).lower = .call name (input.lower :: args.map lower) := by
  simp [lower, rewrite, lowerForm]

theorem lower_binary {op : BinaryOp} (notPower : op ≠ .power) (left right : Expr) :
    (binary op left right).lower = .binary op left.lower right.lower := by
  simp [lower, rewrite, lowerForm, notPower]

theorem Canonical.denoted_plain {x : Expr} (canonical : x.Canonical)
    (wellFormed : x.WellFormed Double.Unsigned) : x.denoted .plain = x.lower.nameInfinity := by
  have each : ∀ {args : List Expr},
      (∀ arg ∈ args, arg.Canonical → arg.denoted .plain = arg.lower.nameInfinity) →
      (∀ arg ∈ args, arg.Canonical) →
      args.map (denoted .plain) = (args.map lower).map nameInfinity := by
    intro args all canonical
    rw [List.map_map]
    exact List.map_congr_left fun arg member => all arg member (canonical arg member)
  induction wellFormed with
  | @binary op l r _ leftGood rightGood left right =>
      have parts := canonical
      cases parts with
      | binary _ leftCanonical rightCanonical =>
          -- A power becomes a call, and no other operator changes.
          by_cases power : op = .power
          · subst power
            calc (Expr.binary .power l r).denoted .plain
                = .call "power" [l.denoted .plain, r.denoted .plain] := rfl
              _ = .call "power" [l.lower.nameInfinity, r.lower.nameInfinity] := by
                    rw [left leftCanonical, right rightCanonical]
          · rw [denoted_binary_bare canonical leftGood rightGood (by simp [power]),
              lower_binary power]
            exact congrArg₂ (Expr.binary op) (left leftCanonical) (right rightCanonical)
  | ternary testGood _ _ test yes no =>
      rw [denoted_ternary_bare canonical testGood]
      cases canonical with
      | ternary testCanonical yesCanonical noCanonical =>
          rw [test testCanonical, yes yesCanonical, no noCanonical]
          rfl
  | pipe _ inputGood _ input args =>
      cases canonical with
      | pipe inputCanonical argsCanonical =>
          rw [denoted, if_pos rfl, denotedAll_eq_map, input inputCanonical, each args argsCanonical,
            lower_pipe, nameInfinity_call, List.map_cons]
  | paren _ inner =>
      cases canonical with
      | paren innerCanonical => exact congrArg Expr.paren (inner innerCanonical)
  | call _ _ args =>
      cases canonical with
      | call argsCanonical =>
          rw [denoted, denotedAll_eq_map, each args argsCanonical, lower_call, nameInfinity_call]
  | ident => rfl
  | @unary op _ _ operandGood operand =>
      rw [denoted_unary_bare operandGood]
      cases canonical with
      | unary _ operandCanonical => exact congrArg (Expr.unary op) (operand operandCanonical)
  | @literal value good =>
      cases value with
      | number value => exact Double.Unsigned.denoted_eq good
      | bool | string | undefined | char => rfl

end Expr

end GameScript
