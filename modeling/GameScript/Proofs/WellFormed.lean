import GameScript.Proofs.Canonical
import GameScript.Proofs.Spelling

/-!
Well-formed expressions: nothing is missing, every name is a name and every string body is one. The
numbers satisfy a condition that is left open; those of a text are unsigned.
-/

namespace GameScript

def Literal.WellFormed (number : Double → Prop) : Literal → Prop
  | .number value => number value
  | .string body => isStringBody body.toList = true
  | .bool _ | .char _ | .undefined => True

namespace Expr

/-- No part is missing or unknown, names and strings are well spelled, and all numbers satisfy the
condition. Operators before a value stand before leaves only. -/
inductive WellFormed (number : Double → Prop) : Expr → Prop where
  | binary {op : BinaryOp} {left right : Expr} (known : op ≠ .unknown)
      (leftGood : WellFormed number left) (rightGood : WellFormed number right) :
      WellFormed number (.binary op left right)
  | ternary {test yes no : Expr} (testGood : WellFormed number test)
      (yesGood : WellFormed number yes) (noGood : WellFormed number no) :
      WellFormed number (.ternary test yes no)
  | pipe {input : Expr} {name : String} {args : List Expr} (named : isName name = true)
      (inputGood : WellFormed number input) (argsGood : ∀ arg ∈ args, WellFormed number arg) :
      WellFormed number (.pipe input name args)
  | paren {inner : Expr} (innerGood : WellFormed number inner) : WellFormed number (.paren inner)
  | call {name : String} {args : List Expr} (named : isName name = true)
      (argsGood : ∀ arg ∈ args, WellFormed number arg) : WellFormed number (.call name args)
  | ident {name : String} (named : isName name = true) : WellFormed number (.ident name)
  | unary {op : UnaryOp} {operand : Expr} (leaf : operand.isLeaf = true)
      (operandGood : WellFormed number operand) : WellFormed number (.unary op operand)
  | literal {value : Literal} (good : value.WellFormed number) : WellFormed number (.literal value)

theorem WellFormed.mono {number other : Double → Prop} {whole : Expr}
    (wellFormed : whole.WellFormed number) (weaker : ∀ value, number value → other value) :
    whole.WellFormed other := by
  induction wellFormed with
  | binary known _ _ left right => exact .binary known left right
  | ternary _ _ _ test yes no => exact .ternary test yes no
  | pipe named _ _ input args => exact .pipe named input args
  | paren _ inner => exact .paren inner
  | call named _ args => exact .call named args
  | ident named => exact .ident named
  | unary leaf _ operand => exact .unary leaf operand
  | @literal value good =>
      refine .literal ?_
      cases value with
      | number value => exact weaker value good
      | bool | string | char | undefined => exact good

end Expr

theorem Token.WellSpelled.literal {token : Token} {constant : Literal} (spelled : token.WellSpelled)
    (denotes : token.literal = .ok constant) : constant.WellFormed Double.Unsigned := by
  cases kind : token.kind with
  | decimal =>
      simp only [Token.WellSpelled, kind] at spelled
      obtain ⟨c, rest, shape, start⟩ := spelled
      have kept : c ≠ '_' := start.ne_of_word rfl (by decide)
      simp only [Token.literal, kind, shape, List.filter_cons, kept, ne_eq, not_false_eq_true,
        decide_true, if_true] at denotes
      split at denotes
      next value found =>
        cases denotes
        exact Double.unsigned_ofNumeral? start found
      next => simp at denotes
  | hex =>
      simp only [Token.literal, kind] at denotes
      cases denotes
      exact @Double.unsigned_ofRadix 16 (by decide +kernel) (by decide +kernel) _
  | binary =>
      simp only [Token.literal, kind] at denotes
      cases denotes
      exact @Double.unsigned_ofRadix 2 (by decide +kernel) (by decide +kernel) _
  | string =>
      simp only [Token.literal, kind] at denotes
      cases denotes
      simpa [Literal.WellFormed, Token.WellSpelled, kind] using spelled
  | char =>
      simp only [Token.literal, kind] at denotes
      split at denotes
      · cases denotes
        trivial
      · simp at denotes
  | bool | undefined =>
      simp only [Token.literal, kind] at denotes
      cases denotes
      trivial
  | _ => simp [Token.literal, kind] at denotes

theorem Token.WellSpelled.name {token : Token} (spelled : token.WellSpelled)
    (named : token.kind = .ident) : isName token.lit = true := by
  simpa [Token.WellSpelled, named] using spelled

theorem Passes.mem {tokens rest : List Token} (passes : Passes tokens rest) {token : Token}
    (member : token ∈ rest) : token ∈ tokens := by
  obtain ⟨passed, rfl, _⟩ := passes
  simp [member]

def Spelled (tokens : List Token) : Prop := ∀ token ∈ tokens, token.WellSpelled

theorem Spelled.passes {tokens rest : List Token} (spelled : Spelled tokens)
    (passes : Passes tokens rest) : Spelled rest :=
  fun token member => spelled token (passes.mem member)

theorem spelled_cons {token : Token} {rest : List Token} :
    Spelled (token :: rest) ↔ token.WellSpelled ∧ Spelled rest :=
  List.forall_mem_cons

theorem Spelled.skipEnds {tokens : List Token} (spelled : Spelled tokens) :
    Spelled (skipEnds tokens) :=
  spelled.passes (Passes.skipEnds tokens)

def Phrase.WellFormed : Phrase → Prop
  | .value whole | .binary _ whole => whole.WellFormed Double.Unsigned
  | .climb _ left whole => left.WellFormed Double.Unsigned → whole.WellFormed Double.Unsigned
  | .operation left operator joined =>
      operator ≠ .binary .unknown → left.WellFormed Double.Unsigned →
        joined.WellFormed Double.Unsigned
  | .call callee args =>
      isName callee = true ∧ ∀ arg ∈ args, arg.WellFormed Double.Unsigned
  | .items args | .more args => ∀ arg ∈ args, arg.WellFormed Double.Unsigned

/-- What the grammar reads from well-spelled tokens is well formed. -/
theorem Reads.wellFormed {phrase : Phrase} {tokens rest : List Token}
    (reads : Reads phrase tokens rest) (spelled : Spelled tokens) : phrase.WellFormed := by
  induction reads with
  | literal denotes => exact .literal ((spelled_cons.mp spelled).1.literal denotes)
  | ident named => exact .ident ((spelled_cons.mp spelled).1.name named)
  | called _ ih =>
      obtain ⟨named, args⟩ := ih spelled
      exact .call named args
  | paren _ _ _ _ ih => exact .paren (ih (spelled_cons.mp spelled).2.skipEnds)
  | unary _ _ reads ih => exact .unary reads.grouped.2 (ih (spelled_cons.mp spelled).2)
  | binary starts _ first climbs => exact climbs (spelled.passes starts.passes) (first spelled)
  | stop => exact id
  | @step _ token operator _ _ _ _ _ _ found _ operation _ joined climbs =>
      intro left
      have known : operator ≠ .binary .unknown := by
        rintro rfl
        exact token.kind.operator?_ne_unknown found
      have after := (spelled_cons.mp spelled).2.skipEnds
      exact climbs (after.passes operation.passes) (joined after known left)
  | pipe _ ih =>
      intro _ left
      obtain ⟨named, args⟩ := ih spelled
      exact .pipe named left args
  | ternary first divides isColon _ yes no =>
      intro _ left
      have later := (spelled.passes first.passes).passes
        (Passes.ofSkipEnds divides (by simp [isColon]))
      exact .ternary left (yes spelled) (no later.skipEnds)
  | infixed _ ih =>
      intro known left
      exact .binary (by rintro rfl; exact known rfl) left (ih spelled)
  | call named _ _ _ _ ih =>
      obtain ⟨callee, inner⟩ := spelled_cons.mp spelled
      exact ⟨callee.name named, ih (spelled_cons.mp inner).2⟩
  | noItems => exact fun _ member => absurd member List.not_mem_nil
  | items _ reads _ first others =>
      have after := spelled.skipEnds
      exact List.forall_mem_cons.mpr ⟨first after, others (after.passes reads.passes)⟩
  | noMore => exact fun _ member => absurd member List.not_mem_nil
  | more _ reads _ first others =>
      have after := (spelled_cons.mp spelled).2.skipEnds
      exact List.forall_mem_cons.mpr ⟨first after, others (after.passes reads.passes)⟩

end GameScript
