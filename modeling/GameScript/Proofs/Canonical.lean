import GameScript.Proofs.Mark
import GameScript.Proofs.Phrase

/-!
Canonical expressions: those that the grammar groups as the tree does. Their tokens, without the
parentheses that are not in the tree, are read back as the tree itself.
-/

namespace GameScript

namespace Expr

mutual

def marks : Expr → List Mark
  | binary op left right => left.marks ++ .operator (.binary op) :: right.marks
  | ternary test yes no =>
      test.marks ++ .operator .ternary :: (yes.marks ++ .symbol .colon :: no.marks)
  | pipe input name args =>
      input.marks ++
        .operator .pipe :: .name name :: .symbol .leftParen :: (itemMarks args ++ [.symbol .rightParen])
  | paren inner => .symbol .leftParen :: (inner.marks ++ [.symbol .rightParen])
  | call name args => .name name :: .symbol .leftParen :: (itemMarks args ++ [.symbol .rightParen])
  | ident name => [.name name]
  | unary op operand => .unary op :: operand.marks
  | literal value => [.literal value]
  | hole => []

def itemMarks : List Expr → List Mark
  | [] => []
  | first :: others => first.marks ++ moreMarks others

def moreMarks : List Expr → List Mark
  | [] => []
  | first :: others => .symbol .comma :: (first.marks ++ moreMarks others)

end

/-- The weakest operator that stands on the left edge of an expression. A parser that takes only
stronger ones would stop there. -/
def floor : Expr → Nat
  | binary op left _ => min left.floor (Precedence.ofBinary op)
  | ternary test _ _ => min test.floor Precedence.ternary
  | pipe input _ _ => min input.floor Precedence.pipe
  | _ => Precedence.value

/-- An operator that binds at least as strongly as this would be taken into the last part of an
expression that it follows. -/
def reach : Expr → Nat
  | binary op _ _ => Precedence.ofBinary op + 1
  | ternary _ _ _ => Precedence.pipe
  | _ => Precedence.value

def isLeaf : Expr → Bool
  | paren _ | call _ _ | ident _ | unary _ _ | literal _ => true
  | _ => false

/-- The grammar groups the tokens of the expression as the tree does. -/
inductive Canonical : Expr → Prop where
  | binary {op : BinaryOp} {left right : Expr} (known : op ≠ .unknown) (leftCanonical : Canonical left)
      (rightCanonical : Canonical right) (leftEnds : Precedence.ofBinary op < left.reach)
      (rightStarts : Precedence.ofBinary op < right.floor) : Canonical (.binary op left right)
  | ternary {test yes no : Expr} (testCanonical : Canonical test) (yesCanonical : Canonical yes)
      (noCanonical : Canonical no) (testEnds : Precedence.ternary < test.reach) :
      Canonical (.ternary test yes no)
  | pipe {input : Expr} {name : String} {args : List Expr} (inputCanonical : Canonical input)
      (argsCanonical : ∀ arg ∈ args, Canonical arg) (inputEnds : Precedence.pipe < input.reach) :
      Canonical (.pipe input name args)
  | paren {inner : Expr} (innerCanonical : Canonical inner) : Canonical (.paren inner)
  | call {name : String} {args : List Expr} (argsCanonical : ∀ arg ∈ args, Canonical arg) :
      Canonical (.call name args)
  | ident {name : String} : Canonical (.ident name)
  | unary {op : UnaryOp} {operand : Expr} (leaf : operand.isLeaf = true)
      (operandCanonical : Canonical operand) : Canonical (.unary op operand)
  | literal {value : Literal} : Canonical (.literal value)

theorem isLeaf_floor {leaf : Expr} (isLeaf : leaf.isLeaf = true) : leaf.floor = Precedence.value := by
  cases leaf <;> simp_all [Expr.isLeaf, floor]

theorem isLeaf_reach {leaf : Expr} (isLeaf : leaf.isLeaf = true) : leaf.reach = Precedence.value := by
  cases leaf <;> simp_all [Expr.isLeaf, reach]

theorem one_le_reach (whole : Expr) : 1 ≤ whole.reach := by
  cases whole <;> simp [reach, Precedence.pipe, Precedence.value]

end Expr

theorem Precedence.three_le_ofBinary {op : BinaryOp} (known : op ≠ .unknown) : 3 ≤ ofBinary op := by
  cases op <;> simp_all [ofBinary]

theorem Precedence.ofBinary_lt_value (op : BinaryOp) : ofBinary op < value := by
  cases op <;> decide

theorem Operator.precedence_lt_value (operator : Operator) : operator.precedence < Precedence.value := by
  cases operator with
  | pipe => decide
  | ternary => decide
  | binary op => exact Precedence.ofBinary_lt_value op

theorem Expr.Canonical.one_le_floor {whole : Expr} (canonical : whole.Canonical) : 1 ≤ whole.floor := by
  induction canonical with
  | binary known _ _ _ _ left =>
      have strong := Precedence.three_le_ofBinary known
      simp only [floor]
      omega
  | ternary _ _ _ _ test =>
      simp only [floor, Precedence.ternary]
      omega
  | pipe _ _ _ input =>
      simp only [floor, Precedence.pipe]
      omega
  | paren | call | ident | unary | literal => simp [floor, Precedence.value]

theorem Expr.floor_le_reach {whole : Expr} (strong : Precedence.ternary < whole.floor) :
    whole.floor ≤ whole.reach := by
  cases whole <;>
    simp only [floor, reach, Precedence.pipe, Precedence.ternary, Precedence.value] at strong ⊢ <;>
    omega

def TokenKind.startsLeaf : TokenKind → Bool
  | decimal | hex | binary | string | char | bool | undefined | ident | symbol .leftParen => true
  | symbol sign => sign.unaryOp?.isSome
  | _ => false

theorem Reads.startsLeaf_value {value : Expr} {tokens rest : List Token}
    (reads : Reads (.value value) tokens rest) : (headKind tokens).startsLeaf = true := by
  cases reads with
  | @literal token constant _ denotes =>
      cases kind : token.kind with
      | decimal | hex | binary | string | char | bool | undefined =>
          simp [headKind, kind, TokenKind.startsLeaf]
      | _ => simp [Token.literal, kind] at denotes
  | ident named => simp [headKind, named, TokenKind.startsLeaf]
  | called call =>
      cases call with
      | call named => simp [headKind, named, TokenKind.startsLeaf]
  | paren opens => simp [headKind, opens, TokenKind.startsLeaf]
  | unary found prefixes =>
      simp only [headKind, found, TokenKind.startsLeaf]
      split <;> simp_all

theorem Reads.startsLeaf {least : Int} {whole : Expr} {tokens rest : List Token}
    (reads : Reads (.binary least whole) tokens rest) : (headKind tokens).startsLeaf = true := by
  cases reads with
  | binary starts => exact starts.startsLeaf_value

theorem skipEnds_of_startsLeaf {tokens : List Token}
    (starts : (headKind tokens).startsLeaf = true) : skipEnds tokens = tokens :=
  skipEnds_of_headKind fun lineEnd => by simp [lineEnd, TokenKind.startsLeaf] at starts

structure Fenced (reach : Nat) (rest : List Token) : Prop where
  weaker : ∀ operator, (headKind rest).operator? = some operator → operator.precedence < reach
  notCalled : headKind rest ≠ .symbol .leftParen

theorem Fenced.mono {reach stronger : Nat} {rest : List Token} (fenced : Fenced reach rest)
    (atMost : reach ≤ stronger) : Fenced stronger rest :=
  ⟨fun operator found => (fenced.weaker operator found).trans_le atMost, fenced.notCalled⟩

theorem Fenced.ofKind {rest : List Token} {kind : TokenKind} (reach : Nat)
    (ahead : headKind rest = kind) (noOperator : kind.operator? = none)
    (notParen : kind ≠ .symbol .leftParen) : Fenced reach rest := by
  subst ahead
  exact ⟨by simp [noOperator], notParen⟩

theorem Fenced.ofOperator {reach : Nat} {operator : Operator} {token : Token} (rest : List Token)
    (found : token.kind.operator? = some operator) (weaker : operator.precedence < reach) :
    Fenced reach (token :: rest) := by
  constructor
  · intro other otherFound
    obtain rfl : operator = other := Option.some.inj (found.symm.trans otherFound)
    exact weaker
  · intro opens
    simp [show token.kind = _ from opens, TokenKind.operator?, Symbol.operator?] at found

/-- From its tokens, climbing reaches the expression: a leaf is read at once, and what can be read on
from the expression can be read from its first leaf. -/
structure Climbs (whole : Expr) (tokens rest : List Token) : Prop where
  reads : whole.isLeaf = true → Reads (.value whole) tokens rest
  goesOn : ∃ first middle, Reads (.value first) tokens middle ∧
    ∀ (least : Nat) (result : Expr) (after : List Token), least ≤ whole.floor →
      Reads (.climb least whole result) rest after → Reads (.climb least first result) middle after

theorem Climbs.ofLeaf {leaf : Expr} {tokens rest : List Token}
    (reads : Reads (.value leaf) tokens rest) : Climbs leaf tokens rest :=
  ⟨fun _ => reads, leaf, rest, reads, fun _ _ _ _ climbs => climbs⟩

theorem Climbs.binary {whole : Expr} {tokens rest : List Token} {least : Nat}
    (climbs : Climbs whole tokens rest) (strong : least ≤ whole.floor)
    (fenced : Fenced least rest) : Reads (.binary least whole) tokens rest := by
  obtain ⟨first, middle, starts, goesOn⟩ := climbs.goesOn
  refine .binary starts (goesOn least whole rest strong (.stop ?_))
  intro operator found
  exact_mod_cast fenced.weaker operator found

theorem Climbs.operation {left joined : Expr} {operator : Operator} {token : Token}
    {tokens operand rest : List Token} (climbs : Climbs left tokens (token :: operand))
    (found : token.kind.operator? = some operator)
    (operation : Reads (.operation left operator joined) operand rest)
    (starts : (headKind operand).startsLeaf = true) (notLeaf : joined.isLeaf = false)
    (floor : joined.floor = min left.floor operator.precedence) : Climbs joined tokens rest := by
  obtain ⟨first, middle, leaf, goesOn⟩ := climbs.goesOn
  refine ⟨by simp [notLeaf], first, middle, leaf, ?_⟩
  intro least result after strong later
  rw [floor, Nat.le_min] at strong
  refine goesOn least result after strong.1 (.step found (by exact_mod_cast strong.2) ?_ later)
  rwa [skipEnds_of_startsLeaf starts]

def ReadsBack (whole : Expr) : Prop :=
  ∀ (used rest : List Token), Fit whole.marks used → Fenced Precedence.pipe rest →
    Reads (.binary Precedence.pipe whole) (used ++ rest) rest

section Arguments

variable {args : List Expr} {used rest : List Token}

theorem fenced_more (fit : Fit (Expr.moreMarks args) used)
    (closes : headKind rest = .symbol .rightParen) : Fenced Precedence.pipe (used ++ rest) := by
  cases args with
  | nil =>
      rw [Expr.moreMarks, Fit.nil_iff] at fit
      subst fit
      exact .ofKind _ closes rfl (by simp)
  | cons first others =>
      rw [Expr.moreMarks] at fit
      obtain ⟨comma, _, isComma, _, rfl⟩ := Fit.cons_iff.mp fit
      exact .ofKind _ isComma rfl (by simp)

theorem reads_more (each : ∀ arg ∈ args, ReadsBack arg) (fit : Fit (Expr.moreMarks args) used)
    (closes : headKind rest = .symbol .rightParen) : Reads (.more args) (used ++ rest) rest := by
  induction args generalizing used with
  | nil =>
      rw [Expr.moreMarks, Fit.nil_iff] at fit
      subst fit
      exact .noMore (by simp [closes])
  | cons first others ih =>
      simp only [Expr.moreMarks, Fit.cons_iff, Fit.append_iff] at fit
      obtain ⟨comma, _, isComma, ⟨usedFirst, usedOthers, firstFit, othersFit, rfl⟩, rfl⟩ := fit
      have goesOn := ih (fun arg member => each arg (by simp [member])) othersFit
      have reads := each first (by simp) usedFirst _ firstFit (fenced_more othersFit closes)
      rw [List.cons_append, List.append_assoc]
      refine .more isComma ?_ goesOn
      rwa [skipEnds_of_startsLeaf reads.startsLeaf]

theorem reads_items (each : ∀ arg ∈ args, ReadsBack arg) (fit : Fit (Expr.itemMarks args) used)
    (closes : headKind rest = .symbol .rightParen) : Reads (.items args) (used ++ rest) rest := by
  have stays : skipEnds rest = rest := skipEnds_of_headKind (by simp [closes])
  cases args with
  | nil =>
      rw [Expr.itemMarks, Fit.nil_iff] at fit
      subst fit
      have empty : Reads (.items []) rest (skipEnds rest) := .noItems (by rw [stays, closes])
      rwa [stays] at empty
  | cons first others =>
      rw [Expr.itemMarks, Fit.append_iff] at fit
      obtain ⟨usedFirst, usedOthers, firstFit, othersFit, rfl⟩ := fit
      have goesOn := reads_more (fun arg member => each arg (by simp [member])) othersFit closes
      have reads := each first (by simp) usedFirst _ firstFit (fenced_more othersFit closes)
      rw [List.append_assoc]
      refine .items ?_ ?_ goesOn
      · rw [skipEnds_of_startsLeaf reads.startsLeaf]
        intro opens
        simpa [opens, TokenKind.startsLeaf, Symbol.unaryOp?] using reads.startsLeaf
      · rwa [skipEnds_of_startsLeaf reads.startsLeaf]

theorem reads_call {callee : String} (each : ∀ arg ∈ args, ReadsBack arg)
    (fit : Fit (.name callee :: .symbol .leftParen ::
      (Expr.itemMarks args ++ [.symbol .rightParen])) used) (rest : List Token) :
    Reads (.call callee args) (used ++ rest) rest := by
  simp only [Fit.cons_iff, Fit.append_iff, Fit.nil_iff] at fit
  obtain ⟨name, _, ⟨named, rfl⟩, ⟨first, _, opens, ⟨usedArgs, _, argsFit, ⟨last, _, closes, rfl, rfl⟩,
    rfl⟩, rfl⟩, rfl⟩ := fit
  have list : Reads (.items args) (usedArgs ++ last :: rest) (last :: rest) :=
    reads_items each argsFit closes
  rw [List.cons_append, List.cons_append, List.append_assoc, List.cons_append, List.nil_append]
  refine .call named opens list (skipEnds_of_headKind ?_) closes
  rw [headKind, show last.kind = _ from closes]
  simp

theorem ReadsBack.paren {inner : Expr} (inside : ReadsBack inner)
    (fit : Fit (Expr.paren inner).marks used) (rest : List Token) :
    Reads (.value (.paren inner)) (used ++ rest) rest := by
  simp only [Expr.marks, Fit.cons_iff, Fit.append_iff, Fit.nil_iff] at fit
  obtain ⟨first, _, opens, ⟨usedInner, _, innerFit, ⟨last, _, closes, rfl, rfl⟩, rfl⟩, rfl⟩ := fit
  have reads := inside usedInner (last :: rest) innerFit (.ofKind _ closes rfl (by simp))
  have ends : skipEnds (last :: rest) = last :: rest :=
    skipEnds_of_headKind (by simp [headKind, show last.kind = _ from closes])
  rw [List.cons_append, List.append_assoc, List.cons_append, List.nil_append]
  refine .paren opens ?_ ends closes
  rwa [skipEnds_of_startsLeaf reads.startsLeaf]

end Arguments

theorem Expr.Canonical.readsBack_of_climbs {whole : Expr} (canonical : whole.Canonical)
    (climbs : ∀ {used rest : List Token}, Fit whole.marks used → Fenced whole.reach rest →
      Climbs whole (used ++ rest) rest) : ReadsBack whole := by
  intro used rest fit fenced
  have reaches : Fenced whole.reach rest := fenced.mono whole.one_le_reach
  exact (climbs fit reaches).binary canonical.one_le_floor fenced

theorem Expr.Canonical.climbs {whole : Expr} (canonical : whole.Canonical) {used rest : List Token}
    (fit : Fit whole.marks used) (fenced : Fenced whole.reach rest) :
    Climbs whole (used ++ rest) rest := by
  -- The operators behind an operand are held off by its reach, and those behind the whole by the
  -- fence around it.
  induction canonical generalizing used rest with
  | @binary op left right known _ _ leftEnds rightStarts leftClimbs rightClimbs =>
      simp only [marks, Fit.cons_iff, Fit.append_iff] at fit
      obtain ⟨usedLeft, _, leftFit, ⟨token, usedRight, found, rightFit, rfl⟩, rfl⟩ := fit
      have tight := Precedence.three_le_ofBinary known
      have rightReach : Precedence.ofBinary op + 1 ≤ right.reach :=
        le_trans rightStarts (floor_le_reach (by rw [Precedence.ternary]; omega))
      have rightReads := (rightClimbs rightFit (fenced.mono rightReach)).binary rightStarts fenced
      have climbs := leftClimbs leftFit (.ofOperator (usedRight ++ rest) found leftEnds)
      rw [List.append_assoc, List.cons_append]
      exact climbs.operation found (.infixed rightReads) rightReads.startsLeaf rfl rfl
  | ternary _ yesCanonical noCanonical testEnds testClimbs yesClimbs noClimbs =>
      simp only [marks, Fit.cons_iff, Fit.append_iff] at fit
      obtain ⟨usedTest, _, testFit, ⟨token, _, found, ⟨usedYes, _, yesFit,
        ⟨colon, usedNo, isColon, noFit, rfl⟩, rfl⟩, rfl⟩, rfl⟩ := fit
      have yesReads := yesCanonical.readsBack_of_climbs yesClimbs usedYes
        (colon :: (usedNo ++ rest)) yesFit (.ofKind _ isColon rfl (by simp))
      have noReads := noCanonical.readsBack_of_climbs noClimbs usedNo rest noFit fenced
      have divides : skipEnds (colon :: (usedNo ++ rest)) = colon :: (usedNo ++ rest) :=
        skipEnds_of_headKind (by simp [headKind, show colon.kind = _ from isColon])
      have climbs := testClimbs testFit
        (.ofOperator (usedYes ++ colon :: (usedNo ++ rest)) found testEnds)
      rw [← skipEnds_of_startsLeaf noReads.startsLeaf] at noReads
      simp only [List.append_assoc, List.cons_append]
      exact climbs.operation found (.ternary yesReads divides isColon noReads)
        yesReads.startsLeaf rfl rfl
  | pipe _ argsCanonical inputEnds inputClimbs argsClimb =>
      rw [marks, Fit.append_iff] at fit
      obtain ⟨usedInput, _, inputFit, fit, rfl⟩ := fit
      obtain ⟨token, usedCall, found, callFit, rfl⟩ := Fit.cons_iff.mp fit
      have call := reads_call (fun arg member =>
        (argsCanonical arg member).readsBack_of_climbs (argsClimb arg member)) callFit rest
      have climbs := inputClimbs inputFit (.ofOperator (usedCall ++ rest) found inputEnds)
      rw [List.append_assoc, List.cons_append]
      exact climbs.operation found (.pipe call) (Reads.called call).startsLeaf_value rfl rfl
  | paren innerCanonical innerClimbs =>
      exact .ofLeaf ((innerCanonical.readsBack_of_climbs innerClimbs).paren fit rest)
  | call argsCanonical argsClimb =>
      rw [marks] at fit
      exact .ofLeaf (.called (reads_call (fun arg member =>
        (argsCanonical arg member).readsBack_of_climbs (argsClimb arg member)) fit rest))
  | ident =>
      simp only [marks, Fit.cons_iff, Fit.nil_iff] at fit
      obtain ⟨token, _, ⟨named, rfl⟩, rfl, rfl⟩ := fit
      exact .ofLeaf (.ident named fenced.notCalled)
  | unary leaf _ operandClimbs =>
      rw [marks, Fit.cons_iff] at fit
      obtain ⟨token, usedOperand, ⟨sign, found, prefixes⟩, operandFit, rfl⟩ := fit
      have operandFenced := fenced.mono (isLeaf_reach leaf).ge
      exact .ofLeaf (.unary found prefixes ((operandClimbs operandFit operandFenced).reads leaf))
  | literal =>
      simp only [marks, Fit.cons_iff, Fit.nil_iff] at fit
      obtain ⟨token, _, denotes, rfl, rfl⟩ := fit
      exact .ofLeaf (.literal denotes)

theorem Expr.Canonical.readsBack {whole : Expr} (canonical : whole.Canonical) : ReadsBack whole :=
  canonical.readsBack_of_climbs canonical.climbs

theorem TokenKind.operator?_ne_unknown (kind : TokenKind) :
    kind.operator? ≠ some (.binary .unknown) := by
  intro found
  unfold operator? at found
  split at found
  next sign => cases sign <;> simp [Symbol.operator?] at found
  all_goals simp at found

def Below (least : Int) (tokens : List Token) : Prop :=
  ∀ operator, (headKind tokens).operator? = some operator → (operator.precedence : Int) < least

theorem Below.value (tokens : List Token) : Below Precedence.value tokens :=
  fun operator _ => by exact_mod_cast operator.precedence_lt_value

def Phrase.Grouped (tokens rest : List Token) : Phrase → Prop
  | .value leaf => leaf.Canonical ∧ leaf.isLeaf = true
  | .binary least whole =>
      least ≤ Precedence.value → whole.Canonical ∧ least ≤ whole.floor ∧ Below least rest
  | .climb least left whole =>
      left.Canonical → least ≤ left.floor → Below left.reach tokens →
        whole.Canonical ∧ least ≤ whole.floor ∧ Below least rest
  | .operation left operator joined =>
      left.Canonical → operator.precedence < left.reach → operator ≠ .binary .unknown →
        joined.Canonical ∧ joined.floor = min left.floor operator.precedence ∧
          Below joined.reach rest
  | .call _ args | .items args | .more args => ∀ arg ∈ args, arg.Canonical

/-- What the grammar reads is canonical. The operators that it climbs over are weaker than what
their left operands would have taken. -/
theorem Reads.grouped {phrase : Phrase} {tokens rest : List Token}
    (reads : Reads phrase tokens rest) : phrase.Grouped tokens rest := by
  have strong : (Precedence.pipe : Int) ≤ Precedence.value := by decide
  induction reads with
  | literal => exact ⟨.literal, rfl⟩
  | ident => exact ⟨.ident, rfl⟩
  | called _ args => exact ⟨.call args, rfl⟩
  | paren _ _ _ _ inner => exact ⟨.paren (inner strong).1, rfl⟩
  | unary _ _ _ operand => exact ⟨.unary operand.2 operand.1, rfl⟩
  | binary _ _ first climbs =>
      intro bound
      rw [← Expr.isLeaf_floor first.2] at bound
      refine climbs first.1 bound ?_
      rw [Expr.isLeaf_reach first.2]
      exact Below.value _
  | stop weaker =>
      intro canonical least _
      exact ⟨canonical, least, weaker⟩
  | @step least token operator left joined whole _ _ _ found strong _ _ operation climbs =>
      intro canonical atLeast below
      have known : operator ≠ .binary .unknown := by
        rintro rfl
        exact token.kind.operator?_ne_unknown found
      -- What was read so far would have taken any operator within its reach.
      have weaker : operator.precedence < left.reach := by exact_mod_cast below operator found
      obtain ⟨joinedCanonical, joinedFloor, joinedBelow⟩ := operation canonical weaker known
      refine climbs joinedCanonical ?_ joinedBelow
      rw [joinedFloor]
      omega
  | pipe _ args =>
      intro canonical weaker _
      exact ⟨.pipe canonical args weaker, rfl, Below.value _⟩
  | ternary _ _ _ _ yes no =>
      intro canonical weaker _
      obtain ⟨noCanonical, _, below⟩ := no strong
      exact ⟨.ternary canonical (yes strong).1 noCanonical weaker, rfl, below⟩
  | @infixed op left right _ _ _ operand =>
      intro canonical weaker known
      have opBelow := Precedence.ofBinary_lt_value op
      obtain ⟨rightCanonical, rightFloor, below⟩ := operand (by omega)
      have known : op ≠ .unknown := by
        rintro rfl
        exact known rfl
      refine ⟨.binary known canonical rightCanonical weaker (by omega), rfl, ?_⟩
      simpa [Expr.reach] using below
  | call _ _ _ _ _ args => exact args
  | noItems => exact fun _ member => absurd member List.not_mem_nil
  | items _ _ _ first others => exact List.forall_mem_cons.mpr ⟨(first strong).1, others⟩
  | noMore => exact fun _ member => absurd member List.not_mem_nil
  | more _ _ _ first others => exact List.forall_mem_cons.mpr ⟨(first strong).1, others⟩

end GameScript
