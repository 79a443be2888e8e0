import GameScript.Proofs.Else
import GameScript.Proofs.Rewriting

/-!
Rewriting of statements from the inside out, and the statement that a printed one denotes. Main
statement: a printed statement denotes itself without the statements that do nothing exactly if no
`else` in it follows an open branch.
-/

namespace GameScript

def Assignment.mapValue (change : Expr → Expr) (assignment : Assignment) : Assignment :=
  { assignment with value := assignment.value.map change }

def Assignment.lower : Assignment → Assignment
  | ⟨target, .power, some value⟩ =>
      ⟨target, .assign, some (.call "power" [.ident target, value])⟩
  | other => other

def Assignment.tidy (dialect : Dialect) (assignment : Assignment) : Assignment :=
  if dialect = .plain then assignment.lower else assignment

def Assignment.denoted (dialect : Dialect) (assignment : Assignment) : Assignment :=
  (assignment.mapValue (Expr.denoted dialect)).tidy dialect

def Declaration.mapValue (change : Expr → Expr) (declaration : Declaration) : Declaration :=
  { declaration with value := declaration.value.map change }

inductive Assignment.WellFormed (good : Expr → Prop) : Assignment → Prop where
  | step {target : String} {op : AssignOp} (named : isName target = true) (alone : op.isStep = true) :
      WellFormed good ⟨target, op, none⟩
  | value {target : String} {op : AssignOp} {value : Expr} (named : isName target = true)
      (known : op ≠ .unknown) (valued : op.isStep = false) (valueGood : good value) :
      WellFormed good ⟨target, op, some value⟩

structure Declaration.WellFormed (good : Expr → Prop) (declaration : Declaration) : Prop where
  named : isName declaration.name = true
  valueGood : ∀ value ∈ declaration.value, good value

namespace Stmt

mutual

def rewrite (change : Expr → Expr) (rule : Stmt → Stmt) : Stmt → Stmt
  | noop => rule .noop
  | assign assignment => rule (.assign (assignment.mapValue change))
  | expr value => rule (.expr (change value))
  | declare declaration => rule (.declare (declaration.mapValue change))
  | branch test yes no =>
      rule (.branch (change test) (yes.rewrite change rule) (no.rewrite change rule))
  | loop kind test body => rule (.loop kind (change test) (body.rewrite change rule))
  | repeats count body => rule (.repeats (change count) (body.rewrite change rule))
  | withTarget target body => rule (.withTarget (change target) (body.rewrite change rule))
  | forLoop init test update body =>
      rule (.forLoop (init.rewrite change rule) (test.map change) (update.rewrite change rule)
        (body.rewrite change rule))
  | block body => rule (.block (rewriteAll change rule body))
  | ret value => rule (.ret (value.map change))
  | breakLoop => rule .breakLoop
  | continueLoop => rule .continueLoop
  | exitScript => rule .exitScript
  | doc lines => rule (.doc lines)
  | hole => rule .hole

def rewriteAll (change : Expr → Expr) (rule : Stmt → Stmt) : List Stmt → List Stmt
  | [] => []
  | first :: others => first.rewrite change rule :: rewriteAll change rule others

end

@[simp] theorem rewriteAll_eq_map (change : Expr → Expr) (rule : Stmt → Stmt) (body : List Stmt) :
    rewriteAll change rule body = body.map (rewrite change rule) := by
  induction body with
  | nil => rfl
  | cons first others ih => rw [rewriteAll, ih, List.map_cons]

def active (body : List Stmt) : List Stmt := body.filter fun statement => !statement.isNoop

def dropNoops : Stmt → Stmt
  | block body => .block (active body)
  | other => other

def lowerAssign : Stmt → Stmt
  | assign assignment => .assign assignment.lower
  | other => other

def lower : Stmt → Stmt := rewrite Expr.lower lowerAssign

def normalized : Stmt → Stmt := rewrite Expr.nameInfinity dropNoops

def tidy (dialect : Dialect) : Stmt → Stmt
  | block body => .block (active body)
  | assign assignment => .assign (assignment.tidy dialect)
  | other => other

/-- What printing does to one statement: an `else` goes to the last `if` before it that can take
it. -/
def settle (dialect : Dialect) : Stmt → Stmt
  | branch test yes no =>
      if no.isHole then .branch test yes no else (branch test yes .hole).attach no
  | other => tidy dialect other

def denoted (dialect : Dialect) : Stmt → Stmt := rewrite (Expr.denoted dialect) (settle dialect)

mutual

/-- Whether each `else` stands where no other `if` can take it. -/
def elsesKept : Stmt → Bool
  | branch _ yes no => (no.isHole || !yes.endsOpen) && yes.elsesKept && no.elsesKept
  | loop _ _ body => body.elsesKept
  | repeats _ body => body.elsesKept
  | withTarget _ body => body.elsesKept
  | forLoop _ _ _ body => body.elsesKept
  | block body => elsesKeptAll body
  | _ => true

def elsesKeptAll : List Stmt → Bool
  | [] => true
  | first :: others => first.elsesKept && elsesKeptAll others

end

theorem elsesKeptAll_iff {body : List Stmt} :
    elsesKeptAll body = true ↔ ∀ statement ∈ body, statement.elsesKept = true := by
  induction body with
  | nil => simp [elsesKeptAll]
  | cons first others ih => simp [elsesKeptAll, ih]

inductive IsClause (good : Expr → Prop) (first : Bool) : Stmt → Prop where
  | noop : IsClause good first .noop
  | assign {assignment : Assignment} (wellFormed : assignment.WellFormed good) :
      IsClause good first (.assign assignment)
  | expr {value : Expr} (valueGood : good value) : IsClause good first (.expr value)
  | declare {declaration : Declaration} (isFirst : first = true)
      (wellFormed : declaration.WellFormed good) : IsClause good first (.declare declaration)

/-- Statements that have a text: no doc comments, and no holes but for an absent `else`. -/
inductive WellFormed (good : Expr → Prop) : Stmt → Prop where
  | noop : WellFormed good .noop
  | assign {assignment : Assignment} (wellFormed : assignment.WellFormed good) :
      WellFormed good (.assign assignment)
  | expr {value : Expr} (valueGood : good value) : WellFormed good (.expr value)
  | declare {declaration : Declaration} (wellFormed : declaration.WellFormed good) :
      WellFormed good (.declare declaration)
  | branch {test : Expr} {yes : Stmt} (testGood : good test) (yesFormed : WellFormed good yes) :
      WellFormed good (.branch test yes .hole)
  | branchElse {test : Expr} {yes no : Stmt} (testGood : good test) (yesFormed : WellFormed good yes)
      (noFormed : WellFormed good no) : WellFormed good (.branch test yes no)
  | loop {kind : LoopKind} {test : Expr} {body : Stmt} (testGood : good test)
      (bodyFormed : WellFormed good body) : WellFormed good (.loop kind test body)
  | repeats {count : Expr} {body : Stmt} (countGood : good count) (bodyFormed : WellFormed good body) :
      WellFormed good (.repeats count body)
  | withTarget {target : Expr} {body : Stmt} (targetGood : good target)
      (bodyFormed : WellFormed good body) : WellFormed good (.withTarget target body)
  | forLoop {init update body : Stmt} {test : Option Expr} (initClause : init.IsClause good true)
      (testGood : ∀ value ∈ test, good value) (updateClause : update.IsClause good false)
      (bodyFormed : WellFormed good body) : WellFormed good (.forLoop init test update body)
  | block {body : List Stmt} (bodyFormed : ∀ statement ∈ body, WellFormed good statement) :
      WellFormed good (.block body)
  | ret {value : Option Expr} (valueGood : ∀ x ∈ value, good x) : WellFormed good (.ret value)
  | breakLoop : WellFormed good .breakLoop
  | continueLoop : WellFormed good .continueLoop
  | exitScript : WellFormed good .exitScript

theorem WellFormed.isHole_eq_false {good : Expr → Prop} {statement : Stmt}
    (wellFormed : statement.WellFormed good) : statement.isHole = false := by
  cases wellFormed <;> rfl

/-! What a rule leaves as it is. -/

theorem isHole_tidy (dialect : Dialect) (statement : Stmt) :
    (tidy dialect statement).isHole = statement.isHole := by
  cases statement <;> rfl

theorem isNoop_tidy (dialect : Dialect) (statement : Stmt) :
    (tidy dialect statement).isNoop = statement.isNoop := by
  cases statement <;> rfl

theorem isNoop_settle (dialect : Dialect) (statement : Stmt) :
    (settle dialect statement).isNoop = statement.isNoop := by
  cases statement with
  | branch test yes no =>
      simp only [settle, attach]
      split_ifs <;> rfl
  | _ => rfl

theorem isHole_settle (dialect : Dialect) (statement : Stmt) :
    (settle dialect statement).isHole = statement.isHole := by
  cases statement with
  | branch test yes no =>
      simp only [settle, attach]
      split_ifs <;> rfl
  | _ => rfl

theorem isHole_rewrite {rule : Stmt → Stmt}
    (keeps : ∀ statement, (rule statement).isHole = statement.isHole)
    (change : Expr → Expr) (statement : Stmt) :
    (statement.rewrite change rule).isHole = statement.isHole := by
  cases statement <;> simp only [rewrite, keeps] <;> rfl

theorem isNoop_rewrite {rule : Stmt → Stmt}
    (keeps : ∀ statement, (rule statement).isNoop = statement.isNoop)
    (change : Expr → Expr) (statement : Stmt) :
    (statement.rewrite change rule).isNoop = statement.isNoop := by
  cases statement <;> simp only [rewrite, keeps] <;> rfl

theorem isNoop_denoted (dialect : Dialect) (statement : Stmt) :
    (statement.denoted dialect).isNoop = statement.isNoop :=
  isNoop_rewrite (isNoop_settle dialect) _ statement

theorem isHole_denoted (dialect : Dialect) (statement : Stmt) :
    (statement.denoted dialect).isHole = statement.isHole :=
  isHole_rewrite (isHole_settle dialect) _ statement

theorem denoted_block (dialect : Dialect) (body : List Stmt) :
    (block body).denoted dialect = .block (active (body.map (Stmt.denoted dialect))) := by
  change settle dialect (.block (rewriteAll _ _ body)) = _
  rw [rewriteAll_eq_map]
  rfl

theorem denoted_branchElse {test : Expr} {yes no : Stmt} {dialect : Dialect}
    (filled : no.isHole = false) :
    (branch test yes no).denoted dialect =
      (branch (test.denoted dialect) (yes.denoted dialect) .hole).attach (no.denoted dialect) := by
  change settle dialect (.branch (test.denoted dialect) (yes.denoted dialect)
    (no.denoted dialect)) = _
  simp [settle, isHole_denoted, filled]

theorem elsesKept_branchElse {test : Expr} {yes no : Stmt} (filled : no.isHole = false) :
    (branch test yes no).elsesKept = true ↔
      yes.endsOpen = false ∧ yes.elsesKept = true ∧ no.elsesKept = true := by
  simp [elsesKept, filled, and_assoc]

theorem eq_noop_of_isNoop {statement : Stmt} (noop : statement.isNoop = true) : statement = .noop := by
  cases statement with
  | noop => rfl
  | _ => simp [isNoop] at noop

theorem endsOpen_rewrite_tidy (dialect : Dialect) (change : Expr → Expr) (statement : Stmt) :
    (statement.rewrite change (tidy dialect)).endsOpen = statement.endsOpen := by
  fun_induction endsOpen statement with
  | case1 test yes no ih =>
      simp [rewrite, tidy, endsOpen, isHole_rewrite (isHole_tidy dialect), ih]
  | case2 _ _ _ ih | case3 _ _ ih | case4 _ _ ih | case5 _ _ _ _ ih =>
      simp [rewrite, tidy, endsOpen, ih]
  | case6 statement notBranch notLoop notRepeat notWith notFor =>
      cases statement with
      | branch => exact absurd rfl (notBranch _ _ _)
      | loop => exact absurd rfl (notLoop _ _ _)
      | repeats => exact absurd rfl (notRepeat _ _)
      | withTarget => exact absurd rfl (notWith _ _)
      | forLoop => exact absurd rfl (notFor _ _ _ _)
      | _ => rfl

end Stmt

/-! What a printed statement denotes. -/

section Denoted

variable {good : Expr → Prop} {dialect : Dialect} {change : Expr → Expr}

theorem map_denoted_eq {value : Option Expr} (valueGood : ∀ x ∈ value, good x)
    (agrees : ∀ x, good x → x.denoted dialect = change x) :
    value.map (Expr.denoted dialect) = value.map change := by
  cases value with
  | none => rfl
  | some x => simp [agrees x (valueGood x rfl)]

theorem Assignment.WellFormed.mapValue_eq {assignment : Assignment}
    (wellFormed : assignment.WellFormed good) (agrees : ∀ x, good x → x.denoted dialect = change x) :
    assignment.mapValue (Expr.denoted dialect) = assignment.mapValue change := by
  cases wellFormed with
  | step => rfl
  | value _ _ _ valueGood => simp [Assignment.mapValue, agrees _ valueGood]

theorem Declaration.WellFormed.mapValue_eq {declaration : Declaration}
    (wellFormed : declaration.WellFormed good) (agrees : ∀ x, good x → x.denoted dialect = change x) :
    declaration.mapValue (Expr.denoted dialect) = declaration.mapValue change := by
  simp only [Declaration.mapValue, map_denoted_eq wellFormed.valueGood agrees]

namespace Stmt

theorem IsClause.denoted_eq {first : Bool} {clause : Stmt} (isClause : clause.IsClause good first)
    (agrees : ∀ x, good x → x.denoted dialect = change x) :
    clause.denoted dialect = clause.rewrite change (tidy dialect) := by
  cases isClause with
  | noop => rfl
  | assign wellFormed =>
      simp only [denoted, rewrite, wellFormed.mapValue_eq agrees]
      rfl
  | expr valueGood =>
      simp only [denoted, rewrite, agrees _ valueGood]
      rfl
  | declare _ wellFormed =>
      simp only [denoted, rewrite, wellFormed.mapValue_eq agrees]
      rfl

theorem active_map_eq_iff {first second : Stmt → Stmt} {body : List Stmt}
    (firstNoop : ∀ statement, (first statement).isNoop = statement.isNoop)
    (secondNoop : ∀ statement, (second statement).isNoop = statement.isNoop) :
    active (body.map first) = active (body.map second) ↔
      ∀ statement ∈ body, first statement = second statement := by
  induction body with
  | nil => simp [active]
  | cons statement body ih =>
      rw [List.forall_mem_cons, ← ih]
      cases noop : statement.isNoop with
      | true =>
          have same : first statement = second statement :=
            (eq_noop_of_isNoop ((firstNoop statement).trans noop)).trans
              (eq_noop_of_isNoop ((secondNoop statement).trans noop)).symm
          simp [active, secondNoop, noop, same]
      | false => simp [active, firstNoop, secondNoop, noop]

theorem denoted_branchElse_eq_iff {test : Expr} {yes no : Stmt} (filled : no.isHole = false)
    (sameTest : test.denoted dialect = change test)
    (yesSame : yes.denoted dialect = yes.rewrite change (tidy dialect) ↔ yes.elsesKept = true)
    (noSame : no.denoted dialect = no.rewrite change (tidy dialect) ↔ no.elsesKept = true) :
    (Stmt.branch test yes no).denoted dialect =
        (Stmt.branch test yes no).rewrite change (tidy dialect) ↔
      (Stmt.branch test yes no).elsesKept = true := by
  have tidiedFilled : (no.rewrite change (tidy dialect)).isHole = false :=
    (isHole_rewrite (isHole_tidy dialect) _ no).trans filled
  have printed : (Stmt.branch test yes no).denoted dialect =
      (Stmt.branch (test.denoted dialect) (yes.denoted dialect) .hole).attach
        (no.denoted dialect) := denoted_branchElse filled
  have tidied : (Stmt.branch test yes no).rewrite change (tidy dialect) =
      .branch (change test) (yes.rewrite change (tidy dialect))
        (no.rewrite change (tidy dialect)) := rfl
  rw [printed, tidied, sameTest, elsesKept_branchElse filled]
  have yesOpen (kept : yes.elsesKept = true) : (yes.denoted dialect).endsOpen = yes.endsOpen := by
    rw [yesSame.mpr kept, endsOpen_rewrite_tidy]
  cases printedOpen : (yes.denoted dialect).endsOpen with
  | true =>
      -- The `else` went into the branch before it.
      rw [attach_branch_open printedOpen]
      constructor
      · intro same
        rw [← (Stmt.branch.inj same).2.2] at tidiedFilled
        exact Bool.noConfusion tidiedFilled
      · rintro ⟨yesShut, yesKept, _⟩
        rw [yesOpen yesKept, yesShut] at printedOpen
        exact Bool.noConfusion printedOpen
  | false =>
      rw [attach_branch_shut printedOpen, Stmt.branch.injEq, yesSame, noSame]
      constructor
      · rintro ⟨_, yesKept, noKept⟩
        exact ⟨yesOpen yesKept ▸ printedOpen, yesKept, noKept⟩
      · rintro ⟨_, yesKept, noKept⟩
        exact ⟨rfl, yesKept, noKept⟩

/-- A printed statement denotes itself, up to what printing does to each statement in it, exactly if
each `else` in it stands where no other `if` can take it. -/
theorem WellFormed.denoted_eq_iff {statement : Stmt} (wellFormed : statement.WellFormed good)
    (agrees : ∀ x, good x → x.denoted dialect = change x) :
    statement.denoted dialect = statement.rewrite change (tidy dialect) ↔
      statement.elsesKept = true := by
  induction wellFormed with
  | noop | breakLoop | continueLoop | exitScript => exact ⟨fun _ => rfl, fun _ => rfl⟩
  | assign wellFormed =>
      simp only [denoted, rewrite, wellFormed.mapValue_eq agrees, elsesKept, iff_true]
      rfl
  | expr valueGood =>
      simp only [denoted, rewrite, agrees _ valueGood, elsesKept, iff_true]
      rfl
  | declare wellFormed =>
      simp only [denoted, rewrite, wellFormed.mapValue_eq agrees, elsesKept, iff_true]
      rfl
  | ret valueGood =>
      simp only [denoted, rewrite, map_denoted_eq valueGood agrees, elsesKept, iff_true]
      rfl
  | @branch test yes testGood _ yesSame =>
      have printed : (Stmt.branch test yes .hole).denoted dialect =
          .branch (test.denoted dialect) (yes.denoted dialect) .hole := rfl
      have tidied : (Stmt.branch test yes .hole).rewrite change (tidy dialect) =
          .branch (change test) (yes.rewrite change (tidy dialect)) .hole := rfl
      rw [printed, tidied, agrees _ testGood]
      simp [elsesKept, isHole, yesSame]
  | branchElse testGood _ noFormed yesSame noSame =>
      exact denoted_branchElse_eq_iff noFormed.isHole_eq_false (agrees _ testGood) yesSame noSame
  | @loop kind test body testGood _ bodySame =>
      have printed : (Stmt.loop kind test body).denoted dialect =
          .loop kind (test.denoted dialect) (body.denoted dialect) := rfl
      rw [printed, agrees _ testGood]
      simp [rewrite, tidy, elsesKept, bodySame]
  | @repeats count body countGood _ bodySame =>
      have printed : (Stmt.repeats count body).denoted dialect =
          .repeats (count.denoted dialect) (body.denoted dialect) := rfl
      rw [printed, agrees _ countGood]
      simp [rewrite, tidy, elsesKept, bodySame]
  | @withTarget target body targetGood _ bodySame =>
      have printed : (Stmt.withTarget target body).denoted dialect =
          .withTarget (target.denoted dialect) (body.denoted dialect) := rfl
      rw [printed, agrees _ targetGood]
      simp [rewrite, tidy, elsesKept, bodySame]
  | @forLoop init update body test initClause testGood updateClause _ bodySame =>
      have printed : (Stmt.forLoop init test update body).denoted dialect =
          .forLoop (init.denoted dialect) (test.map (Expr.denoted dialect)) (update.denoted dialect)
            (body.denoted dialect) := rfl
      rw [printed, initClause.denoted_eq agrees, map_denoted_eq testGood agrees,
        updateClause.denoted_eq agrees]
      simp [rewrite, tidy, elsesKept, bodySame]
  | @block body _ bodySame =>
      have tidied : (Stmt.block body).rewrite change (tidy dialect) =
          .block (active (body.map (rewrite change (tidy dialect)))) := by
        rw [rewrite, rewriteAll_eq_map]
        rfl
      rw [denoted_block, tidied, Stmt.block.injEq,
        active_map_eq_iff (isNoop_denoted dialect) (isNoop_rewrite (isNoop_tidy dialect) _),
        elsesKept, elsesKeptAll_iff]
      exact forall₂_congr bodySame

end Stmt

end Denoted

/-! Conditions on expressions. -/

section Weaken

variable {good other : Expr → Prop} (weaker : ∀ x, good x → other x)

include weaker

theorem Assignment.WellFormed.mono {assignment : Assignment}
    (wellFormed : assignment.WellFormed good) : assignment.WellFormed other := by
  cases wellFormed with
  | step named alone => exact .step named alone
  | value named known valued valueGood => exact .value named known valued (weaker _ valueGood)

theorem Declaration.WellFormed.mono {declaration : Declaration}
    (wellFormed : declaration.WellFormed good) : declaration.WellFormed other :=
  ⟨wellFormed.named, fun value member => weaker value (wellFormed.valueGood value member)⟩

theorem Stmt.IsClause.mono {first : Bool} {clause : Stmt} (isClause : clause.IsClause good first) :
    clause.IsClause other first := by
  cases isClause with
  | noop => exact .noop
  | assign wellFormed => exact .assign (wellFormed.mono weaker)
  | expr valueGood => exact .expr (weaker _ valueGood)
  | declare isFirst wellFormed => exact .declare isFirst (wellFormed.mono weaker)

theorem Stmt.WellFormed.mono {statement : Stmt} (wellFormed : statement.WellFormed good) :
    statement.WellFormed other := by
  induction wellFormed with
  | noop => exact .noop
  | assign wellFormed => exact .assign (wellFormed.mono weaker)
  | expr valueGood => exact .expr (weaker _ valueGood)
  | declare wellFormed => exact .declare (wellFormed.mono weaker)
  | branch testGood _ yes => exact .branch (weaker _ testGood) yes
  | branchElse testGood _ _ yes no => exact .branchElse (weaker _ testGood) yes no
  | loop testGood _ body => exact .loop (weaker _ testGood) body
  | repeats countGood _ body => exact .repeats (weaker _ countGood) body
  | withTarget targetGood _ body => exact .withTarget (weaker _ targetGood) body
  | forLoop initClause testGood updateClause _ body =>
      exact .forLoop (initClause.mono weaker) (fun value member => weaker _ (testGood value member))
        (updateClause.mono weaker) body
  | block _ body => exact .block body
  | ret valueGood => exact .ret fun value member => weaker _ (valueGood value member)
  | breakLoop => exact .breakLoop
  | continueLoop => exact .continueLoop
  | exitScript => exact .exitScript

end Weaken

namespace Stmt

theorem tidy_eq_dropNoops {dialect : Dialect} (notPlain : dialect ≠ .plain) :
    tidy dialect = dropNoops := by
  funext statement
  cases statement with
  | assign assignment => simp [tidy, dropNoops, Assignment.tidy, notPlain]
  | _ => rfl

end Stmt

theorem Assignment.mapValue_lower (assignment : Assignment) :
    (assignment.mapValue Expr.lower).lower.mapValue Expr.nameInfinity =
      (assignment.mapValue fun x => x.lower.nameInfinity).tidy .plain := by
  obtain ⟨target, op, value⟩ := assignment
  cases value with
  | none => cases op <;> rfl
  | some value => cases op <;> rfl

theorem Declaration.mapValue_mapValue (first second : Expr → Expr) (declaration : Declaration) :
    (declaration.mapValue first).mapValue second = declaration.mapValue fun x => second (first x) := by
  simp [mapValue, Function.comp_def]

namespace Stmt

theorem IsClause.normalized_lower {good : Expr → Prop} {first : Bool} {clause : Stmt}
    (isClause : clause.IsClause good first) :
    clause.lower.normalized = clause.rewrite (fun x => x.lower.nameInfinity) (tidy .plain) := by
  cases isClause with
  | noop | expr => rfl
  | assign => exact congrArg Stmt.assign (Assignment.mapValue_lower _)
  | declare => exact congrArg Stmt.declare (Declaration.mapValue_mapValue _ _ _)

theorem WellFormed.normalized_lower {good : Expr → Prop} {statement : Stmt}
    (wellFormed : statement.WellFormed good) :
    statement.lower.normalized =
      statement.rewrite (fun x => x.lower.nameInfinity) (tidy .plain) := by
  have optional (value : Option Expr) : (value.map Expr.lower).map Expr.nameInfinity =
      value.map fun x => x.lower.nameInfinity := by
    simp [Function.comp_def]
  induction wellFormed with
  | noop | expr | breakLoop | continueLoop | exitScript => rfl
  | assign => exact congrArg Stmt.assign (Assignment.mapValue_lower _)
  | declare => exact congrArg Stmt.declare (Declaration.mapValue_mapValue _ _ _)
  | ret => exact congrArg Stmt.ret (optional _)
  | branch _ _ yes => exact congrArg (Stmt.branch _ · _) yes
  | branchElse _ _ _ yes no => exact congrArg₂ (Stmt.branch _) yes no
  | loop _ _ body => exact congrArg (Stmt.loop _ _) body
  | repeats _ _ body => exact congrArg (Stmt.repeats _) body
  | withTarget _ _ body => exact congrArg (Stmt.withTarget _) body
  | @forLoop init update body test initClause _ updateClause _ bodySame =>
      calc (Stmt.forLoop init test update body).lower.normalized
          = .forLoop init.lower.normalized ((test.map Expr.lower).map Expr.nameInfinity)
              update.lower.normalized body.lower.normalized := rfl
        _ = .forLoop (init.rewrite (fun x => x.lower.nameInfinity) (tidy .plain))
              (test.map fun x => x.lower.nameInfinity)
              (update.rewrite (fun x => x.lower.nameInfinity) (tidy .plain))
              (body.rewrite (fun x => x.lower.nameInfinity) (tidy .plain)) := by
            rw [initClause.normalized_lower, updateClause.normalized_lower, optional, bodySame]
  | @block body _ bodySame =>
      have lowered : (Stmt.block body).lower.normalized =
          .block (active (body.map fun statement => statement.lower.normalized)) := by
        simp [lower, normalized, rewrite, lowerAssign, dropNoops, Function.comp_def]
      rw [lowered, List.map_congr_left bodySame]
      simp [rewrite, tidy]

end Stmt

end GameScript
