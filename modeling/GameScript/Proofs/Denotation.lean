import GameScript.Printer.Expr
import GameScript.Proofs.WellFormed

/-!
The expression that the text of an expression denotes: the printed parentheses are part of it, and
numbers without a spelling of their own are read as names and signs. It is always canonical, whatever
the tree was.
-/

namespace GameScript

namespace Double

def size (x : Double) : Double := ofMagnitude false x.magnitude

def denoted (x : Double) : Expr :=
  if x.isNaN then .ident "NaN"
  else
    let size : Expr := if x.isInfinite then .ident "infinity" else .literal (.number x.size)
    if x.negative then .unary .negate size else size

theorem magnitude_lt (x : Double) : x.magnitude < 2 ^ 63 := Nat.mod_lt _ (by decide)

theorem bits_size (x : Double) : x.size.bits.toNat = x.magnitude := by
  rw [size, ofMagnitude, if_neg Bool.false_ne_true, Nat.zero_add, UInt64.toNat_ofNat']
  exact Nat.mod_eq_of_lt (x.magnitude_lt.trans (by decide))

@[simp] theorem magnitude_size (x : Double) : x.size.magnitude = x.magnitude := by
  rw [magnitude, bits_size, Nat.mod_eq_of_lt x.magnitude_lt]

@[simp] theorem negative_size (x : Double) : x.size.negative = false := by
  simp only [negative, bits_size, decide_eq_false_iff_not, Nat.not_le]
  exact x.magnitude_lt

@[simp] theorem isNaN_size (x : Double) : x.size.isNaN = x.isNaN := by
  rw [isNaN, magnitude_size, isNaN]

@[simp] theorem isInfinite_size (x : Double) : x.size.isInfinite = x.isInfinite := by
  rw [isInfinite, magnitude_size, isInfinite]

@[simp] theorem size_size (x : Double) : x.size.size = x.size :=
  ofMagnitude_magnitude x.negative_size

end Double

def Literal.denoted (dialect : Dialect) : Literal → Expr
  | .number value => value.denoted
  | .char value =>
      .literal (if dialect = .plain then Literal.ofText (String.singleton value) else .char value)
  | constant => .literal constant

namespace Expr

def wrapped (needed : Bool) (inner : Expr) : Expr := if needed then .paren inner else inner

def operandNeeds (dialect : Dialect) (x : Expr) (least : Nat) : Bool :=
  x.precedence dialect < least || x.isNegative

def rightNeeds (dialect : Dialect) (x : Expr) (least : Nat) : Bool :=
  x.pipeOnLeft dialect || operandNeeds dialect x least

def leftNeeds (dialect : Dialect) (x : Expr) (least : Nat) : Bool :=
  match x with
  | pipe _ _ _ => false
  | ternary _ _ _ => true
  | x => operandNeeds dialect x least

mutual

/-- The expression that the text of an expression denotes. -/
def denoted (dialect : Dialect) : Expr → Expr
  | binary op left right =>
      if op = .power && dialect = .plain then
        .call "power" [left.denoted dialect, right.denoted dialect]
      else
        .binary op (wrapped (leftNeeds dialect left (Precedence.ofBinary op)) (left.denoted dialect))
          (wrapped (rightNeeds dialect right (Precedence.ofBinary op + 1)) (right.denoted dialect))
  | ternary test yes no =>
      .ternary (wrapped (leftNeeds dialect test (Precedence.ternary + 1)) (test.denoted dialect))
        (yes.denoted dialect) (no.denoted dialect)
  | pipe input name args =>
      if dialect = .plain then .call name (input.denoted dialect :: denotedAll dialect args)
      else
        .pipe (wrapped (leftNeeds dialect input Precedence.pipe) (input.denoted dialect)) name
          (denotedAll dialect args)
  | paren inner => .paren (inner.denoted dialect)
  | call name args => .call name (denotedAll dialect args)
  | ident name => .ident name
  | unary op operand => .unary op (wrapped operand.isNegative (operand.denoted dialect))
  | literal value => value.denoted dialect
  | hole => .hole

def denotedAll (dialect : Dialect) : List Expr → List Expr
  | [] => []
  | first :: others => first.denoted dialect :: denotedAll dialect others

end

@[simp] theorem denotedAll_eq_map (dialect : Dialect) (args : List Expr) :
    denotedAll dialect args = args.map (denoted dialect) := by
  induction args with
  | nil => rfl
  | cons first others ih => rw [denotedAll, ih, List.map_cons]

@[simp] theorem texts_eq_map (dialect : Dialect) (args : List Expr) :
    texts dialect args = args.map (text dialect) := by
  induction args with
  | nil => rfl
  | cons first others ih => rw [texts, ih, List.map_cons]

theorem Canonical.wrapped {inner : Expr} (canonical : inner.Canonical) (needed : Bool) :
    (wrapped needed inner).Canonical := by
  cases needed with
  | true => exact .paren canonical
  | false => exact canonical

end Expr

theorem Double.isLeaf_denoted (x : Double) : x.denoted.isLeaf = true := by
  unfold denoted
  split_ifs <;> rfl

theorem Double.canonical_denoted (x : Double) : x.denoted.Canonical := by
  unfold denoted
  split_ifs
  · exact .ident
  · exact .unary rfl .ident
  · exact .ident
  · exact .unary rfl .literal
  · exact .literal

theorem Literal.isLeaf_denoted (dialect : Dialect) (constant : Literal) :
    (constant.denoted dialect).isLeaf = true := by
  cases constant with
  | number value => exact value.isLeaf_denoted
  | bool | string | char | undefined => rfl

theorem Literal.canonical_denoted (dialect : Dialect) (constant : Literal) :
    (constant.denoted dialect).Canonical := by
  cases constant with
  | number value => exact value.canonical_denoted
  | bool | string | char | undefined => exact .literal

namespace Expr

theorem isLeaf_denoted {dialect : Dialect} {leaf : Expr} (isLeaf : leaf.isLeaf = true) :
    (leaf.denoted dialect).isLeaf = true := by
  cases leaf with
  | literal value => exact value.isLeaf_denoted dialect
  | paren | call | ident | unary => rfl
  | binary | ternary | pipe | hole => simp [Expr.isLeaf] at isLeaf

theorem operandNeeds_eq_false_iff {dialect : Dialect} {x : Expr} {least : Nat} :
    operandNeeds dialect x least = false ↔ least ≤ x.precedence dialect ∧ x.isNegative = false := by
  simp [operandNeeds]

theorem precedence_binary {op : BinaryOp} {left right : Expr} {dialect : Dialect}
    (kept : ¬(op = .power ∧ dialect = .plain)) :
    (binary op left right).precedence dialect = Precedence.ofBinary op := by
  rw [precedence, if_neg (by simpa using kept)]

theorem denoted_binary {op : BinaryOp} {left right : Expr} {dialect : Dialect}
    (kept : ¬(op = .power ∧ dialect = .plain)) :
    (binary op left right).denoted dialect =
      .binary op (wrapped (leftNeeds dialect left (Precedence.ofBinary op)) (left.denoted dialect))
        (wrapped (rightNeeds dialect right (Precedence.ofBinary op + 1)) (right.denoted dialect)) := by
  rw [denoted, if_neg (by simpa using kept)]

theorem pipeOnLeft_plain (x : Expr) : x.pipeOnLeft .plain = false := by
  cases x <;> simp [pipeOnLeft]

theorem le_precedence_of_leftNeeds {dialect : Dialect} {least : Nat} {x : Expr}
    (notPipe : x.isPipe = false) (bare : leftNeeds dialect x least = false) :
    least ≤ x.precedence dialect := by
  cases x with
  | pipe => simp [isPipe] at notPipe
  | ternary => simp [leftNeeds] at bare
  | binary | paren | call | ident | unary | literal | hole =>
      exact (operandNeeds_eq_false_iff.mp bare).1

theorem lt_reach_of_leftNeeds {dialect : Dialect} {least : Nat} {x : Expr}
    (below : least < Precedence.value) (bare : leftNeeds dialect x least = false) :
    least < (x.denoted dialect).reach := by
  cases x with
  | binary op left right =>
      by_cases lowered : op = .power ∧ dialect = .plain
      · obtain ⟨rfl, rfl⟩ := lowered
        exact below
      · have strong := le_precedence_of_leftNeeds rfl bare
        rw [precedence_binary lowered] at strong
        rw [denoted_binary lowered]
        exact Nat.lt_succ_of_le strong
  | pipe input name args =>
      simp only [denoted]
      split_ifs <;> exact below
  | ternary => simp [leftNeeds] at bare
  | paren | call | ident | unary | hole => exact below
  | literal value =>
      rw [denoted, isLeaf_reach (value.isLeaf_denoted dialect)]
      exact below

theorem le_floor_of_pipeOnLeft {number : Double → Prop} {dialect : Dialect} {x : Expr}
    (wellFormed : x.WellFormed number) (strong : Precedence.ternary < x.precedence dialect)
    (noPipe : x.pipeOnLeft dialect = false) :
    x.precedence dialect ≤ (x.denoted dialect).floor := by
  induction wellFormed with
  | @binary op left right known _ _ leftFloor _ =>
      by_cases lowered : op = .power ∧ dialect = .plain
      · obtain ⟨rfl, rfl⟩ := lowered
        exact le_refl _
      · rw [precedence_binary lowered] at strong ⊢
        rw [denoted_binary lowered, floor, Nat.le_min]
        refine ⟨?_, le_refl _⟩
        cases needed : leftNeeds dialect left (Precedence.ofBinary op) with
        | true => exact (Precedence.ofBinary_lt_value op).le
        | false =>
            cases piped : left.isPipe with
            | true =>
                cases left with
                | pipe input name args =>
                    have plain : dialect = .plain := by simpa [pipeOnLeft, isPipe] using noPipe
                    subst plain
                    exact (Precedence.ofBinary_lt_value op).le
                | _ => simp [isPipe] at piped
            | false =>
                have leftStrong := le_precedence_of_leftNeeds piped needed
                refine leftStrong.trans (leftFloor (by omega) ?_)
                by_cases plain : dialect = .plain
                · rw [plain, pipeOnLeft_plain]
                · simpa [pipeOnLeft, plain, leftStrong] using noPipe
  | ternary => simp [precedence] at strong
  | pipe =>
      have plain : dialect = .plain := by simpa [pipeOnLeft] using noPipe
      subst plain
      exact le_refl _
  | paren | call | ident | unary => exact le_refl _
  | literal => exact (isLeaf_floor (Literal.isLeaf_denoted dialect _)).ge

/-- The text of a well-formed expression denotes a canonical one. -/
theorem WellFormed.canonical_denoted {number : Double → Prop} {x : Expr}
    (wellFormed : x.WellFormed number) (dialect : Dialect) : (x.denoted dialect).Canonical := by
  induction wellFormed with
  | @binary op left right known _ rightGood leftCanonical rightCanonical =>
      by_cases lowered : op = .power ∧ dialect = .plain
      · obtain ⟨rfl, rfl⟩ := lowered
        exact .call (by simpa using ⟨leftCanonical, rightCanonical⟩)
      · rw [denoted_binary lowered]
        have value := Precedence.ofBinary_lt_value op
        have tight := Precedence.three_le_ofBinary known
        refine .binary known (leftCanonical.wrapped _) (rightCanonical.wrapped _) ?_ ?_
        · cases needed : leftNeeds dialect left (Precedence.ofBinary op) with
          | true => exact value
          | false => exact lt_reach_of_leftNeeds value needed
        · cases needed : rightNeeds dialect right (Precedence.ofBinary op + 1) with
          | true => exact value
          | false =>
              obtain ⟨noPipe, bare⟩ := Bool.or_eq_false_iff.mp needed
              have strong := (operandNeeds_eq_false_iff.mp bare).1
              -- Without a pipe on its left edge, the operand starts with operators as strong as its
              -- own.
              refine strong.trans (le_floor_of_pipeOnLeft rightGood ?_ noPipe)
              rw [Precedence.ternary]
              omega
  | @ternary test _ _ _ _ _ testCanonical yesCanonical noCanonical =>
      refine .ternary (testCanonical.wrapped _) yesCanonical noCanonical ?_
      cases needed : leftNeeds dialect test (Precedence.ternary + 1) with
      | true => exact (by decide : Precedence.ternary < Precedence.value)
      | false => exact (Nat.lt_succ_self _).trans (lt_reach_of_leftNeeds (by decide) needed)
  | @pipe input name args _ _ _ inputCanonical argsCanonical =>
      rw [denoted, denotedAll_eq_map]
      split_ifs
      · exact .call (by simpa using ⟨inputCanonical, argsCanonical⟩)
      · refine .pipe (inputCanonical.wrapped _) (by simpa using argsCanonical) ?_
        cases needed : leftNeeds dialect input Precedence.pipe with
        | true => exact (by decide : Precedence.pipe < Precedence.value)
        | false => exact lt_reach_of_leftNeeds (by decide) needed
  | paren _ inner => exact .paren inner
  | call _ _ argsCanonical =>
      rw [denoted, denotedAll_eq_map]
      exact .call (by simpa using argsCanonical)
  | ident => exact .ident
  | @unary op operand leaf _ operandCanonical =>
      refine .unary ?_ (operandCanonical.wrapped _)
      cases operand.isNegative with
      | true => rfl
      | false => exact isLeaf_denoted leaf
  | @literal value _ => exact value.canonical_denoted dialect

end Expr

end GameScript
