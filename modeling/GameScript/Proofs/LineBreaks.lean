import GameScript.Proofs.Yield

/-!
Line ends inside expressions. Main statement: in the tokens of an expression, one more line end
leaves the expression as it is exactly if it stands behind an infix operator, `:`, `(` or a comma,
or before `)` or `:`.
-/

namespace GameScript

def TokenKind.endsValue : TokenKind → Bool
  | decimal | hex | binary | string | char | bool | undefined | ident | symbol .rightParen => true
  | _ => false

/-- Whether a line may end behind the tokens, which are given last first; line ends that are there
already make no difference. A `-` right behind a value is infix. Elsewhere it is a sign, and its
value stands on the same line. -/
def breaksBehind : List Token → Bool
  | [] => false
  | last :: earlier =>
      match last.kind with
      | .lineEnd => breaksBehind earlier
      | .symbol .colon | .symbol .leftParen | .symbol .comma => true
      | .symbol .minus => (headKind earlier).endsValue
      | kind => kind.operator?.isSome

def breaksBefore (tokens : List Token) : Bool :=
  match headKind (skipEnds tokens) with
  | .symbol .rightParen | .symbol .colon => true
  | _ => false

def MayBreak (before behind : List Token) : Prop :=
  breaksBehind before.reverse = true ∨ breaksBefore behind = true

section Places

variable {token : Token} {earlier tokens rest : List Token}

theorem breaksBehind_lineEnd (breaks : token.kind = .lineEnd) :
    breaksBehind (token :: earlier) = breaksBehind earlier := by
  simp [breaksBehind, breaks]

theorem breaksBehind_operator {operator : Operator} (found : token.kind.operator? = some operator)
    (value : (headKind earlier).endsValue = true) : breaksBehind (token :: earlier) = true := by
  unfold breaksBehind
  split
  next kind => simp [kind, TokenKind.operator?] at found
  next => rfl
  next => rfl
  next => rfl
  next => exact value
  next => simp [found]

theorem breaksBehind_sign {sign : Symbol} {op : UnaryOp} (found : token.kind = .symbol sign)
    (prefixes : sign.unaryOp? = some op) (noValue : (headKind earlier).endsValue = false) :
    breaksBehind (token :: earlier) = false := by
  cases sign with
  | minus => simp [breaksBehind, found, noValue]
  | bang | bitNot => simp [breaksBehind, found, TokenKind.operator?, Symbol.operator?]
  | _ => simp [Symbol.unaryOp?] at prefixes

theorem breaksBehind_value (value : (headKind earlier).endsValue = true) :
    breaksBehind earlier = false := by
  cases earlier with
  | nil => rfl
  | cons last earlier =>
      simp only [headKind] at value
      cases kind : last.kind with
      | symbol sign =>
          cases sign with
          | rightParen => simp [breaksBehind, kind, TokenKind.operator?, Symbol.operator?]
          | _ => simp [kind, TokenKind.endsValue] at value
      | decimal | hex | binary | string | char | bool | undefined | ident =>
          simp [breaksBehind, kind, TokenKind.operator?]
      | _ => simp [kind, TokenKind.endsValue] at value

theorem endsValue_of_breaksBehind (place : breaksBehind earlier = true) :
    (headKind earlier).endsValue = false := by
  by_contra value
  rw [breaksBehind_value (by simpa using value)] at place
  contradiction

theorem breaksBefore_eq_false (inner : headKind tokens ≠ .lineEnd)
    (notClosing : headKind tokens ≠ .symbol .rightParen)
    (notColon : headKind tokens ≠ .symbol .colon) : breaksBefore tokens = false := by
  unfold breaksBefore
  rw [skipEnds_of_headKind inner]
  split
  next kind => exact absurd kind notClosing
  next kind => exact absurd kind notColon
  next => rfl

theorem breaksBefore_leaf (leaf : (headKind tokens).startsLeaf = true) :
    breaksBefore tokens = false := by
  apply breaksBefore_eq_false <;>
    · intro kind
      simp [kind, TokenKind.startsLeaf, Symbol.unaryOp?] at leaf

theorem breaksBefore_closing (closes : token.kind = .symbol .rightParen) :
    breaksBefore [token] = true := by
  simp [breaksBefore, skipEnds, headKind, closes]

theorem breaksBefore_colon (isColon : token.kind = .symbol .colon) :
    breaksBefore [token] = true := by
  simp [breaksBefore, skipEnds, headKind, isColon]

theorem breaksBefore_lineEnd (breaks : token.kind = .lineEnd) :
    breaksBefore (token :: tokens) = breaksBefore tokens := by
  rw [breaksBefore, breaksBefore, skipEnds_lineEnd breaks]

theorem breaksBefore_append (closes : breaksBefore tokens = true) (rest : List Token) :
    breaksBefore (tokens ++ rest) = true := by
  induction tokens with
  | nil => simp [breaksBefore, skipEnds, headKind] at closes
  | cons token tokens ih =>
      by_cases breaks : token.kind = .lineEnd
      · rw [breaksBefore_lineEnd breaks] at closes
        rw [List.cons_append, breaksBefore_lineEnd breaks]
        exact ih closes
      · simpa [breaksBefore, skipEnds, breaks, headKind] using closes

end Places

/-! One more line end. -/

/-- The others are the tokens, or the tokens with one more line end at a place for it, before the
last `bound` of them. The tokens in front of both are given last first. -/
inductive Broken (bound : Nat) : (earlier tokens others : List Token) → Prop where
  | same {earlier tokens : List Token} : Broken bound earlier tokens tokens
  | here {lineEnd : Token} {earlier tokens : List Token} (breaks : lineEnd.kind = .lineEnd)
      (place : breaksBehind earlier = true ∨ breaksBefore tokens = true)
      (inside : bound < tokens.length) : Broken bound earlier tokens (lineEnd :: tokens)
  | later {token : Token} {earlier tokens others : List Token}
      (broken : Broken bound (token :: earlier) tokens others) :
      Broken bound earlier (token :: tokens) (token :: others)

namespace Broken

variable {bound : Nat} {token : Token} {earlier tokens others rest : List Token} {kind : TokenKind}

theorem eq_of_length (broken : Broken bound earlier tokens others)
    (short : tokens.length ≤ bound) : others = tokens := by
  induction broken with
  | same => rfl
  | here _ _ inside => omega
  | later _ ih =>
      simp only [List.length_cons] at short
      rw [ih (by omega)]

theorem headKind_cases (broken : Broken bound earlier tokens others) :
    headKind others = headKind tokens ∨ headKind others = .lineEnd := by
  cases broken with
  | same => exact Or.inl rfl
  | here breaks => exact Or.inr breaks
  | later => exact Or.inl rfl

theorem headKind_ne (broken : Broken bound earlier tokens others) (notHere : headKind tokens ≠ kind)
    (noBreak : kind ≠ .lineEnd) : headKind others ≠ kind := by
  rcases broken.headKind_cases with same | breaks
  · rwa [same]
  · rw [breaks]
    exact noBreak.symm

theorem headKind_eq (broken : Broken bound earlier tokens others)
    (noBreak : breaksBehind earlier = false) (noClose : breaksBefore tokens = false) :
    headKind others = headKind tokens := by
  cases broken with
  | same => rfl
  | here _ place => simp [noBreak, noClose] at place
  | later => rfl

theorem uncons (broken : Broken bound earlier (token :: tokens) others)
    (inner : token.kind ≠ .lineEnd) (same : headKind others = token.kind) :
    ∃ more, others = token :: more ∧ Broken bound (token :: earlier) tokens more := by
  cases broken with
  | same => exact ⟨tokens, rfl, .same⟩
  | here breaks => exact absurd (same.symm.trans breaks) inner
  | later broken => exact ⟨_, rfl, broken⟩

theorem skipEnds (broken : Broken bound earlier tokens others) :
    ∃ front, Broken bound front (skipEnds tokens) (skipEnds others) ∧
      headKind (GameScript.skipEnds others) = headKind (GameScript.skipEnds tokens) ∧
      ((headKind earlier).endsValue = false → (headKind front).endsValue = false) := by
  induction broken with
  | @same earlier => exact ⟨earlier, .same, rfl, id⟩
  | @here lineEnd earlier tokens breaks =>
      rw [skipEnds_lineEnd breaks]
      exact ⟨earlier, .same, rfl, id⟩
  | @later token earlier tokens others broken ih =>
      by_cases breaks : token.kind = .lineEnd
      · obtain ⟨front, skipped, heads, noValue⟩ := ih
        have ends : (headKind (token :: earlier)).endsValue = false := by
          simp [headKind, breaks, TokenKind.endsValue]
        rw [skipEnds_lineEnd breaks, skipEnds_lineEnd breaks]
        exact ⟨front, skipped, heads, fun _ => noValue ends⟩
      · have shape (list : List Token) : GameScript.skipEnds (token :: list) = token :: list :=
          skipEnds_of_headKind breaks
        rw [shape, shape]
        exact ⟨earlier, .later broken, rfl, id⟩

theorem unconsEnds (broken : Broken bound earlier tokens others)
    (shape : GameScript.skipEnds tokens = token :: rest) :
    ∃ front more, GameScript.skipEnds others = token :: more ∧
      Broken bound (token :: front) rest more := by
  obtain ⟨front, skipped, heads, _⟩ := broken.skipEnds
  have inner : token.kind ≠ .lineEnd := by
    have noBreak := headKind_skipEnds tokens
    rwa [shape] at noBreak
  rw [shape] at skipped heads
  obtain ⟨more, otherShape, later⟩ := skipped.uncons inner heads
  exact ⟨front, more, otherShape, later⟩

end Broken

/-- A phrase that starts with a value starts at its first token, and no value stands before it;
what goes on after a value stands behind one. -/
def Phrase.Starts (earlier tokens others : List Token) : Phrase → Prop
  | .value _ | .binary _ _ | .operation _ _ _ | .call _ _ =>
      headKind others = headKind tokens ∧ (headKind earlier).endsValue = false
  | .climb _ _ _ | .more _ => (headKind earlier).endsValue = true
  | .items _ => breaksBehind earlier = true

def Phrase.Finishes (earlier : List Token) : Phrase → Prop
  | .items _ => True
  | _ => (headKind earlier).endsValue = true

theorem Token.endsValue_of_literal {token : Token} {constant : Literal}
    (denotes : token.literal = .ok constant) :
    token.kind ≠ .lineEnd ∧ token.kind.endsValue = true := by
  cases kind : token.kind with
  | decimal | hex | binary | string | char | bool | undefined => exact ⟨by simp, rfl⟩
  | _ => simp [Token.literal, kind] at denotes

theorem Symbol.not_endsValue_of_unaryOp? (sign : Symbol) {op : UnaryOp}
    (prefixes : sign.unaryOp? = some op) : (TokenKind.symbol sign).endsValue = false := by
  cases sign with
  | rightParen => simp [unaryOp?] at prefixes
  | _ => rfl

theorem TokenKind.not_endsValue_of_operator? {kind : TokenKind} {operator : Operator}
    (found : kind.operator? = some operator) : kind ≠ .lineEnd ∧ kind.endsValue = false := by
  cases kind with
  | symbol sign =>
      cases sign with
      | rightParen => simp [operator?, Symbol.operator?] at found
      | _ => exact ⟨by simp, rfl⟩
  | keyword => exact ⟨by simp, rfl⟩
  | _ => simp [operator?] at found

theorem breaksBefore_operator {token : Token} {tokens : List Token} {operator : Operator}
    (found : token.kind.operator? = some operator) : breaksBefore (token :: tokens) = false := by
  apply breaksBefore_eq_false <;>
    · intro kind
      simp only [headKind] at kind
      simp [kind, TokenKind.operator?, Symbol.operator?] at found

section Phrases

variable {bound : Nat} {phrase : Phrase} {earlier tokens others rest : List Token}

theorem Reads.broken (reads : Reads phrase tokens rest)
    (broken : Broken bound earlier tokens others) (starts : phrase.Starts earlier tokens others) :
    ∃ front more, Reads phrase others more ∧ Broken bound front rest more ∧
      phrase.Finishes front := by
  -- Each phrase is told what stands in front of it and tells what it ends with: that decides
  -- whether a `-` is a sign, and so where a line may end.
  induction reads generalizing earlier others with
  | @literal token _ _ denotes =>
      obtain ⟨inner, value⟩ := Token.endsValue_of_literal denotes
      obtain ⟨more, rfl, later⟩ := broken.uncons inner starts.1
      exact ⟨_, more, .literal denotes, later, value⟩
  | @ident token _ named notCalled =>
      obtain ⟨more, rfl, later⟩ := broken.uncons (by simp [named]) starts.1
      have value : (headKind (token :: earlier)).endsValue = true := by simp [headKind, named,
        TokenKind.endsValue]
      exact ⟨_, more, .ident named (later.headKind_ne notCalled (by simp)), later, value⟩
  | called _ ih =>
      obtain ⟨front, more, call, later, value⟩ := ih broken starts
      exact ⟨front, more, .called call, later, value⟩
  | @paren first last _ _ _ _ opens reads ends closes ih =>
      obtain ⟨inside, rfl, insideBroken⟩ := broken.uncons (by simp [opens]) starts.1
      have noValue : (headKind (first :: earlier)).endsValue = false := by
        simp [headKind, opens, TokenKind.endsValue]
      obtain ⟨start, skipped, heads, stillNone⟩ := insideBroken.skipEnds
      obtain ⟨_, _, inner, middleBroken, _⟩ := ih skipped ⟨heads, stillNone noValue⟩
      obtain ⟨front, more, otherEnds, later⟩ := middleBroken.unconsEnds ends
      have value : (headKind (last :: front)).endsValue = true := by
        simp [headKind, closes, TokenKind.endsValue]
      exact ⟨_, more, .paren opens inner otherEnds closes, later, value⟩
  | @unary token sign op _ _ _ found prefixes reads ih =>
      obtain ⟨operand, rfl, operandBroken⟩ := broken.uncons (by simp [found]) starts.1
      have noValue : (headKind (token :: earlier)).endsValue = false := by
        simp only [headKind, found]
        exact sign.not_endsValue_of_unaryOp? prefixes
      -- A sign stands on the line of its value.
      have heads := operandBroken.headKind_eq (breaksBehind_sign found prefixes starts.2)
        (breaksBefore_leaf reads.startsLeaf_value)
      obtain ⟨front, more, value, later, finishes⟩ := ih operandBroken ⟨heads, noValue⟩
      exact ⟨front, more, .unary found prefixes value, later, finishes⟩
  | binary _ _ startIh climbIh =>
      obtain ⟨_, _, first, middleBroken, value⟩ := startIh broken starts
      obtain ⟨front, more, climbs, later, finishes⟩ := climbIh middleBroken value
      exact ⟨front, more, .binary first climbs, later, finishes⟩
  | stop weaker =>
      -- A line end is no operator, so that climbing stops at it as well.
      refine ⟨earlier, others, .stop ?_, broken, starts⟩
      intro operator found
      rcases broken.headKind_cases with same | breaks
      · exact weaker operator (same ▸ found)
      · simp [breaks, TokenKind.operator?] at found
  | @step _ token operator _ _ _ _ _ _ found strong _ _ operationIh climbIh =>
      obtain ⟨inner, noValue⟩ := TokenKind.not_endsValue_of_operator? found
      have heads := broken.headKind_eq (breaksBehind_value starts) (breaksBefore_operator found)
      obtain ⟨operand, rfl, operandBroken⟩ := broken.uncons inner heads
      obtain ⟨_, skipped, operandHeads, stillNone⟩ := operandBroken.skipEnds
      obtain ⟨_, _, operation, middleBroken, value⟩ :=
        operationIh skipped ⟨operandHeads, stillNone noValue⟩
      obtain ⟨front, more, climbs, later, finishes⟩ := climbIh middleBroken value
      exact ⟨front, more, .step found strong operation climbs, later, finishes⟩
  | pipe _ ih =>
      obtain ⟨front, more, call, later, finishes⟩ := ih broken starts
      exact ⟨front, more, .pipe call, later, finishes⟩
  | @ternary _ _ _ colon _ _ _ _ _ divides isColon _ yesIh noIh =>
      obtain ⟨_, _, yes, middleBroken, _⟩ := yesIh broken starts
      obtain ⟨front, _, otherDivides, laterBroken⟩ := middleBroken.unconsEnds divides
      have noValue : (headKind (colon :: front)).endsValue = false := by
        simp [headKind, isColon, TokenKind.endsValue]
      obtain ⟨_, skipped, heads, stillNone⟩ := laterBroken.skipEnds
      obtain ⟨last, more, no, later, finishes⟩ := noIh skipped ⟨heads, stillNone noValue⟩
      exact ⟨last, more, .ternary yes otherDivides isColon no, later, finishes⟩
  | infixed _ ih =>
      obtain ⟨front, more, right, later, finishes⟩ := ih broken starts
      exact ⟨front, more, .infixed right, later, finishes⟩
  | @call callee first last _ _ _ _ named opens _ ends closes ih =>
      obtain ⟨called, rfl, calledBroken⟩ := broken.uncons (by simp [named]) starts.1
      have name : (headKind (callee :: earlier)).endsValue = true := by
        simp [headKind, named, TokenKind.endsValue]
      have heads := calledBroken.headKind_eq (breaksBehind_value name)
        (breaksBefore_leaf (by simp [headKind, opens, TokenKind.startsLeaf]))
      obtain ⟨_, rfl, insideBroken⟩ := calledBroken.uncons (by simp [opens]) heads
      have place : breaksBehind (first :: callee :: earlier) = true := by
        simp [breaksBehind, opens]
      obtain ⟨_, _, items, middleBroken, _⟩ := ih insideBroken place
      obtain ⟨front, more, otherEnds, later⟩ := middleBroken.unconsEnds ends
      have value : (headKind (last :: front)).endsValue = true := by
        simp [headKind, closes, TokenKind.endsValue]
      exact ⟨_, more, .call named opens items otherEnds closes, later, value⟩
  | noItems closes =>
      obtain ⟨front, skipped, heads, _⟩ := broken.skipEnds
      exact ⟨front, _, .noItems (heads.trans closes), skipped, trivial⟩
  | items notClosed _ _ firstIh othersIh =>
      obtain ⟨_, skipped, heads, stillNone⟩ := broken.skipEnds
      obtain ⟨_, _, first, middleBroken, value⟩ :=
        firstIh skipped ⟨heads, stillNone (endsValue_of_breaksBehind starts)⟩
      obtain ⟨front, more, goesOn, later, _⟩ := othersIh middleBroken value
      exact ⟨front, more, .items (heads ▸ notClosed) first goesOn, later, trivial⟩
  | noMore noComma =>
      exact ⟨earlier, others, .noMore (broken.headKind_ne noComma (by simp)), broken, starts⟩
  | @more comma _ _ _ _ _ isComma _ _ firstIh othersIh =>
      have noClose : ∀ tokens, breaksBefore (comma :: tokens) = false := by
        intro tokens
        apply breaksBefore_eq_false <;> simp [headKind, isComma]
      have heads := broken.headKind_eq (breaksBehind_value starts) (noClose _)
      obtain ⟨_, rfl, itemBroken⟩ := broken.uncons (by simp [isComma]) heads
      have noValue : (headKind (comma :: earlier)).endsValue = false := by
        simp [headKind, isComma, TokenKind.endsValue]
      obtain ⟨_, skipped, itemHeads, stillNone⟩ := itemBroken.skipEnds
      obtain ⟨_, _, first, middleBroken, value⟩ := firstIh skipped ⟨itemHeads, stillNone noValue⟩
      obtain ⟨front, more, goesOn, later, finishes⟩ := othersIh middleBroken value
      exact ⟨front, more, .more isComma first goesOn, later, finishes⟩

end Phrases

/-! The line ends that are there. -/

/-- Each line end stands at a place for it. The tokens in front are given last first. -/
def EndsPlaced : (earlier used : List Token) → Prop
  | _, [] => True
  | earlier, token :: used =>
      (token.kind = .lineEnd → breaksBehind earlier = true ∨ breaksBefore used = true) ∧
        EndsPlaced (token :: earlier) used

theorem EndsPlaced.append {earlier used more : List Token} (placed : EndsPlaced earlier used)
    (morePlaced : EndsPlaced (used.reverse ++ earlier) more) :
    EndsPlaced earlier (used ++ more) := by
  induction used generalizing earlier with
  | nil => exact morePlaced
  | cons token used ih =>
      refine ⟨?_, ih placed.2 (by simpa using morePlaced)⟩
      intro breaks
      rcases placed.1 breaks with behind | before
      · exact Or.inl behind
      · exact Or.inr (breaksBefore_append before more)

theorem EndsPlaced.mayBreak {earlier before behind : List Token} {lineEnd : Token}
    (placed : EndsPlaced earlier (before ++ lineEnd :: behind)) (breaks : lineEnd.kind = .lineEnd) :
    breaksBehind (before.reverse ++ earlier) = true ∨ breaksBefore behind = true := by
  induction before generalizing earlier with
  | nil => exact placed.1 breaks
  | cons token before ih => simpa using ih placed.2

theorem endsPlaced_closing {token : Token} {tokens rest : List Token}
    (shape : skipEnds tokens = token :: rest) (closes : breaksBefore [token] = true)
    (inner : token.kind ≠ .lineEnd) (earlier : List Token) :
    ∃ ends, tokens = ends ++ token :: rest ∧ EndsPlaced earlier (ends ++ [token]) ∧
      breaksBefore (ends ++ [token]) = true := by
  induction tokens generalizing earlier with
  | nil => simp [skipEnds] at shape
  | cons first tokens ih =>
      by_cases breaks : first.kind = .lineEnd
      · rw [skipEnds_lineEnd breaks] at shape
        obtain ⟨ends, rfl, placed, ahead⟩ := ih shape (first :: earlier)
        exact ⟨first :: ends, rfl, ⟨fun _ => Or.inr ahead, placed⟩,
          (breaksBefore_lineEnd breaks).trans ahead⟩
      · have whole : skipEnds (first :: tokens) = first :: tokens := skipEnds_of_headKind breaks
        obtain ⟨rfl, rfl⟩ := List.cons.inj (whole.symm.trans shape)
        exact ⟨[], rfl, ⟨fun breaks => absurd breaks inner, trivial⟩, closes⟩

def Placed (earlier tokens front rest : List Token) : Prop :=
  ∃ used, tokens = used ++ rest ∧ front = used.reverse ++ earlier ∧ EndsPlaced earlier used

namespace Placed

variable {token : Token} {earlier tokens front middle rest : List Token}

theorem refl : Placed earlier tokens earlier tokens := ⟨[], rfl, rfl, trivial⟩

theorem trans {later : List Token} (first : Placed earlier tokens front middle)
    (second : Placed front middle later rest) : Placed earlier tokens later rest := by
  obtain ⟨used, rfl, rfl, placed⟩ := first
  obtain ⟨more, rfl, rfl, morePlaced⟩ := second
  exact ⟨used ++ more, by simp, by simp, placed.append morePlaced⟩

theorem cons (inner : token.kind ≠ .lineEnd)
    (placed : Placed (token :: earlier) tokens front rest) :
    Placed earlier (token :: tokens) front rest := by
  obtain ⟨used, rfl, rfl, placed⟩ := placed
  exact ⟨token :: used, rfl, by simp, fun breaks => absurd breaks inner, placed⟩

theorem skipEnds (place : breaksBehind earlier = true) :
    ∃ front, Placed earlier tokens front (skipEnds tokens) ∧ breaksBehind front = true := by
  induction tokens generalizing earlier with
  | nil => exact ⟨earlier, refl, place⟩
  | cons token tokens ih =>
      by_cases breaks : token.kind = .lineEnd
      · obtain ⟨front, ⟨used, shape, rfl, placed⟩, open_⟩ :=
          ih ((breaksBehind_lineEnd breaks).trans place)
        rw [skipEnds_lineEnd breaks]
        refine ⟨_, ⟨token :: used, ?_, by simp, fun _ => Or.inl place, placed⟩, open_⟩
        rw [List.cons_append, ← shape]
      · have shape : GameScript.skipEnds (token :: tokens) = token :: tokens :=
          skipEnds_of_headKind breaks
        rw [shape]
        exact ⟨earlier, refl, place⟩

theorem closing (shape : GameScript.skipEnds tokens = token :: rest)
    (closes : breaksBefore [token] = true) (inner : token.kind ≠ .lineEnd) :
    ∃ front, Placed earlier tokens (token :: front) rest := by
  obtain ⟨ends, split, placed, _⟩ := endsPlaced_closing shape closes inner earlier
  exact ⟨ends.reverse ++ earlier, ends ++ [token], by simp [split], by simp, placed⟩

end Placed

theorem Reads.placed {phrase : Phrase} {earlier tokens rest : List Token}
    (reads : Reads phrase tokens rest) (starts : phrase.Starts earlier tokens tokens) :
    ∃ front, Placed earlier tokens front rest ∧ phrase.Finishes front := by
  -- Line ends are passed in two places only: behind a token that leaves a value to come, and before
  -- one that closes or divides.
  induction reads generalizing earlier with
  | @literal token _ _ denotes =>
      obtain ⟨inner, value⟩ := Token.endsValue_of_literal denotes
      exact ⟨token :: earlier, .cons inner .refl, value⟩
  | @ident token _ named =>
      have value : (headKind (token :: earlier)).endsValue = true := by
        simp [headKind, named, TokenKind.endsValue]
      exact ⟨token :: earlier, .cons (by simp [named]) .refl, value⟩
  | called _ ih => exact ih starts
  | @paren first last _ _ _ _ opens _ ends closes ih =>
      have place : breaksBehind (first :: earlier) = true := by simp [breaksBehind, opens]
      obtain ⟨_, skipped, stillOpen⟩ := Placed.skipEnds place
      obtain ⟨_, inner, _⟩ := ih ⟨rfl, endsValue_of_breaksBehind stillOpen⟩
      obtain ⟨front, closing⟩ :=
        Placed.closing ends (breaksBefore_closing closes) (by simp [closes])
      have value : (headKind (last :: front)).endsValue = true := by
        simp [headKind, closes, TokenKind.endsValue]
      exact ⟨_, .cons (by simp [opens]) ((skipped.trans inner).trans closing), value⟩
  | @unary token sign _ _ _ _ found prefixes _ ih =>
      have noValue : (headKind (token :: earlier)).endsValue = false := by
        simp only [headKind, found]
        exact sign.not_endsValue_of_unaryOp? prefixes
      obtain ⟨front, operand, value⟩ := ih ⟨rfl, noValue⟩
      exact ⟨front, operand.cons (by simp [found]), value⟩
  | binary _ _ startIh climbIh =>
      obtain ⟨_, first, value⟩ := startIh starts
      obtain ⟨front, climbs, finishes⟩ := climbIh value
      exact ⟨front, first.trans climbs, finishes⟩
  | stop => exact ⟨earlier, .refl, starts⟩
  | step found _ _ _ operationIh climbIh =>
      obtain ⟨_, skipped, stillOpen⟩ := Placed.skipEnds (breaksBehind_operator found starts)
      obtain ⟨_, operation, value⟩ := operationIh ⟨rfl, endsValue_of_breaksBehind stillOpen⟩
      obtain ⟨front, climbs, finishes⟩ := climbIh value
      have inner := (TokenKind.not_endsValue_of_operator? found).1
      exact ⟨front, .cons inner ((skipped.trans operation).trans climbs), finishes⟩
  | pipe _ ih => exact ih starts
  | @ternary _ _ _ colon _ _ _ _ _ divides isColon _ yesIh noIh =>
      obtain ⟨_, yes, _⟩ := yesIh starts
      obtain ⟨front, dividing⟩ :=
        Placed.closing divides (breaksBefore_colon isColon) (by simp [isColon])
      have place : breaksBehind (colon :: front) = true := by simp [breaksBehind, isColon]
      obtain ⟨_, skipped, stillOpen⟩ := Placed.skipEnds place
      obtain ⟨last, no, finishes⟩ := noIh ⟨rfl, endsValue_of_breaksBehind stillOpen⟩
      exact ⟨last, ((yes.trans dividing).trans skipped).trans no, finishes⟩
  | infixed _ ih => exact ih starts
  | @call callee first last _ _ _ _ named opens _ ends closes ih =>
      have place : breaksBehind (first :: callee :: earlier) = true := by
        simp [breaksBehind, opens]
      obtain ⟨_, items, _⟩ := ih place
      obtain ⟨front, closing⟩ :=
        Placed.closing ends (breaksBefore_closing closes) (by simp [closes])
      have value : (headKind (last :: front)).endsValue = true := by
        simp [headKind, closes, TokenKind.endsValue]
      exact ⟨_, .cons (by simp [named]) (.cons (by simp [opens]) (items.trans closing)), value⟩
  | noItems =>
      obtain ⟨front, skipped, _⟩ := Placed.skipEnds starts
      exact ⟨front, skipped, trivial⟩
  | items _ _ _ firstIh othersIh =>
      obtain ⟨_, skipped, stillOpen⟩ := Placed.skipEnds starts
      obtain ⟨_, first, value⟩ := firstIh ⟨rfl, endsValue_of_breaksBehind stillOpen⟩
      obtain ⟨front, goesOn, _⟩ := othersIh value
      exact ⟨front, (skipped.trans first).trans goesOn, trivial⟩
  | noMore => exact ⟨earlier, .refl, starts⟩
  | @more comma _ _ _ _ _ isComma _ _ firstIh othersIh =>
      have place : breaksBehind (comma :: earlier) = true := by simp [breaksBehind, isComma]
      obtain ⟨_, skipped, stillOpen⟩ := Placed.skipEnds place
      obtain ⟨_, first, value⟩ := firstIh ⟨rfl, endsValue_of_breaksBehind stillOpen⟩
      obtain ⟨front, goesOn, finishes⟩ := othersIh value
      exact ⟨front, .cons (by simp [isComma]) ((skipped.trans first).trans goesOn), finishes⟩

/-! Whole expressions. -/

section Whole

variable {whole : Expr} {lineEnd : Token} {before behind rest : List Token}

theorem Broken.ofMayBreak {bound : Nat} {earlier tokens : List Token}
    (breaks : lineEnd.kind = .lineEnd)
    (place : breaksBehind (before.reverse ++ earlier) = true ∨ breaksBefore tokens = true)
    (inside : bound < tokens.length) :
    Broken bound earlier (before ++ tokens) (before ++ lineEnd :: tokens) := by
  induction before generalizing earlier with
  | nil => exact .here breaks place inside
  | cons token before ih =>
      refine .later (ih ?_)
      simpa using place

theorem Reads.mayBreak_iff (breaks : lineEnd.kind = .lineEnd)
    (reads : Reads (.binary Precedence.pipe whole) (before ++ behind ++ rest) rest) :
    Reads (.binary Precedence.pipe whole) (before ++ lineEnd :: behind ++ rest) rest ↔
      MayBreak before behind := by
  have starts (tokens : List Token) :
      (Phrase.binary Precedence.pipe whole).Starts [] tokens tokens := ⟨rfl, rfl⟩
  constructor
  · intro broken
    obtain ⟨_, ⟨used, split, _, placed⟩, _⟩ := broken.placed (starts _)
    rw [← List.append_cancel_right split] at placed
    simpa [MayBreak] using placed.mayBreak breaks
  · intro place
    obtain ⟨_, ⟨used, split, rfl, _⟩, value⟩ := reads.placed (starts _)
    obtain rfl := List.append_cancel_right split
    -- The tokens of an expression end with a value, so that the place is before the last of them.
    have inside : behind ≠ [] := by
      rintro rfl
      rcases place with open_ | closes
      · have noBreak : breaksBehind ((before ++ []).reverse ++ []) = false :=
          breaksBehind_value value
        simp [open_] at noBreak
      · simp [breaksBefore, skipEnds, headKind] at closes
    have broken : Broken rest.length [] (before ++ (behind ++ rest))
        (before ++ lineEnd :: (behind ++ rest)) := by
      apply Broken.ofMayBreak breaks
      · rcases place with open_ | closes
        · exact Or.inl (by simpa using open_)
        · exact Or.inr (breaksBefore_append closes rest)
      · have := List.length_pos_iff.mpr inside
        simp only [List.length_append]
        omega
    rw [List.append_assoc] at reads
    have heads := broken.headKind_eq rfl (breaksBefore_leaf reads.startsLeaf)
    obtain ⟨_, more, others, later, _⟩ := reads.broken broken ⟨heads, rfl⟩
    rw [later.eq_of_length le_rfl] at others
    simpa using others

end Whole

theorem Closed.of_append {tokens rest : List Token} (closed : Closed (tokens ++ rest))
    (nonempty : rest ≠ []) : Closed rest := by
  obtain ⟨inside, last, shape, finish⟩ := closed
  refine ⟨rest.dropLast, rest.getLast nonempty, (List.dropLast_append_getLast nonempty).symm, ?_⟩
  have ends := congrArg List.getLast? shape
  rw [List.getLast?_append_of_ne_nil _ nonempty, List.getLast?_concat,
    List.getLast?_eq_some_getLast nonempty] at ends
  rw [Option.some.inj ends, finish]

theorem Cursor.closed_closed (tokens : List Token) : Closed (Cursor.closed tokens) := by
  unfold Cursor.closed
  split
  next ends =>
    obtain ⟨last, isLast, finish⟩ := Option.map_eq_some_iff.mp ends
    obtain ⟨inside, shape⟩ := List.getLast?_eq_some_iff.mp isLast
    exact ⟨inside, last, shape, finish⟩
  next => exact ⟨tokens, Token.closing, rfl, rfl⟩

theorem Cursor.closed_rest {cursor : Cursor} (closed : Closed cursor.tokens)
    (inner : cursor.peek.kind ≠ .finish) : Closed cursor.rest := by
  apply closed.of_append
  intro none
  obtain ⟨inside, last, shape, finish⟩ := closed
  have passed : cursor.passed = last :: inside.reverse := by
    rw [tokens, none, List.append_nil] at shape
    simpa using congrArg List.reverse shape
  apply inner
  simp [peek, none, passed, finish]

theorem Parser.peek_of_expression_ok {cursor after : Cursor} {whole : Expr}
    (read : expression cursor = .ok whole after) : cursor.peek.kind ≠ .finish := by
  intro finish
  obtain ⟨first, middle, started, _⟩ := binaryFrom_ok_iff.mp read
  rcases valueFrom_ok_iff.mp started with ⟨constant, denotes, _⟩ | ⟨named, _⟩ |
    ⟨callee, args, called, _⟩ | ⟨inner, parens, _⟩ | ⟨sign, op, operand, found, _⟩
  · exact Token.kind_ne_finish_of_literal denotes finish
  · simp [finish] at named
  · have named := (callFrom_ok_iff.mp called).1
    simp [finish] at named
  · have opens := (parenthesizedFrom_ok_iff.mp parens).1
    simp [finish] at opens
  · simp [finish] at found

/-- In the tokens that an expression is read from, anywhere in a list of tokens, one more line end
leaves the expression as it is, with one more token passed, exactly if it stands at a place for
it. -/
theorem line_break_kept_iff {tokens : List Token} {cursor after : Cursor} {whole : Expr}
    {before behind : List Token} {lineEnd : Token} (within : cursor.tokens = Cursor.closed tokens)
    (read : Parser.expression cursor = .ok whole after)
    (range : cursor.rest = before ++ behind ++ after.rest) (breaks : lineEnd.kind = .lineEnd) :
    Parser.expression ⟨cursor.passed, before ++ lineEnd :: behind ++ after.rest, by simp⟩ =
        .ok whole ⟨(before ++ lineEnd :: behind).reverse ++ cursor.passed, after.rest, by simp⟩ ↔
      MayBreak before behind := by
  have closed : Closed cursor.tokens := within ▸ Cursor.closed_closed tokens
  have restClosed := Cursor.closed_rest closed (Parser.peek_of_expression_ok read)
  have reads : Reads (.binary Precedence.pipe whole) (before ++ behind ++ after.rest)
      after.rest := by
    rw [← range]
    exact (Parser.expression_gives_iff restClosed).mp ⟨after, read, rfl⟩
  have afterClosed : Closed after.rest := reads.passes.closed (range ▸ restClosed)
  rw [← reads.mayBreak_iff breaks]
  exact Parser.expression_ok_iff_reads afterClosed

/-- `-a - f(b, c) ? d : e` may go on in a new line behind the second `-`, but not behind the first
one. -/
theorem line_break_kept_iff_minus :
    let word (text : String) : Token := ⟨.ident, text, Position.first⟩
    let sign (symbol : Symbol) : Token := ⟨.symbol symbol, "", Position.first⟩
    let lineEnd : Token := ⟨.lineEnd, "", Position.first⟩
    let rest :=
      [word "f", sign .leftParen, word "b", sign .comma, word "c", sign .rightParen, sign .question,
        word "d", sign .colon, word "e"]
    let whole : Expr :=
      .ternary (.binary .minus (.unary .negate (.ident "a")) (.call "f" [.ident "b", .ident "c"]))
        (.ident "d") (.ident "e")
    Parser.expression ⟨[], sign .minus :: word "a" :: sign .minus :: rest ++ [Token.closing],
        by simp⟩ =
      .ok whole ⟨(sign .minus :: word "a" :: sign .minus :: rest).reverse ++ [],
        [Token.closing], by simp⟩ ∧
    Parser.expression ⟨[], [sign .minus, word "a", sign .minus] ++ lineEnd :: rest ++
        [Token.closing], by simp⟩ =
      .ok whole ⟨([sign .minus, word "a", sign .minus] ++ lineEnd :: rest).reverse ++ [],
        [Token.closing], by simp⟩ ∧
    Parser.expression ⟨[], [sign .minus] ++ lineEnd :: (word "a" :: sign .minus :: rest) ++
        [Token.closing], by simp⟩ ≠
      .ok whole ⟨([sign .minus] ++ lineEnd :: (word "a" :: sign .minus :: rest)).reverse ++ [],
        [Token.closing], by simp⟩ := by
  intro word sign lineEnd rest whole
  let tokens := sign .minus :: word "a" :: sign .minus :: rest
  let cursor : Cursor := ⟨[], tokens ++ [Token.closing], by simp⟩
  have within : cursor.tokens = Cursor.closed tokens := rfl
  have read : Parser.expression cursor =
      .ok whole ⟨tokens.reverse ++ [], [Token.closing], by simp⟩ := by rfl
  refine ⟨read, ?_, ?_⟩
  · refine (line_break_kept_iff within read rfl rfl).mpr (Or.inl ?_)
    rfl
  · intro broken
    have place := (line_break_kept_iff within read rfl rfl).mp broken
    simp [MayBreak, breaksBehind, breaksBefore, skipEnds, headKind, TokenKind.endsValue, sign,
      word] at place

end GameScript
