import GameScript.Proofs.RoundTrip

/-!
Which `else` stays where it is when a tree that was not parsed is printed. Bodies are printed without
braces unless they are blocks, so an `else` moves to the last `if` before it that can take it. Main
statement: the text is read as the same tree exactly if there is no such `if` for any `else`.
-/

namespace GameScript

structure Expr.ParsedFinite (x : Expr) : Prop where
  canonical : x.Canonical
  wellFormed : x.WellFormed fun value => value.Unsigned ∧ value.isInfinite = false

theorem Expr.WellFormed.nameInfinity_eq_self {number : Double → Prop} {x : Expr}
    (wellFormed : x.WellFormed number) (finite : ∀ value, number value → value.isInfinite = false) :
    x.nameInfinity = x := by
  have each {args : List Expr} (same : ∀ arg ∈ args, arg.nameInfinity = arg) :
      args.map nameInfinity = args :=
    (List.map_congr_left same).trans (List.map_id' args)
  induction wellFormed with
  | @binary op _ _ _ _ _ left right => exact congrArg₂ (Expr.binary op) left right
  | @ternary test yes no _ _ _ testSame yesSame noSame =>
      have unfolded : (Expr.ternary test yes no).nameInfinity =
          .ternary test.nameInfinity yes.nameInfinity no.nameInfinity := rfl
      rw [unfolded, testSame, yesSame, noSame]
  | pipe _ _ _ input args => rw [nameInfinity_pipe, input, each args]
  | paren _ inner => exact congrArg Expr.paren inner
  | call _ _ args => rw [nameInfinity_call, each args]
  | ident => rfl
  | @unary op _ _ _ operand => exact congrArg (Expr.unary op) operand
  | @literal value good =>
      rcases nameInfinity_literal value with same | ⟨number, rfl, infinite, _⟩
      · exact same
      · rw [finite number good] at infinite
        exact Bool.noConfusion infinite

theorem Expr.ParsedFinite.denoted_eq {x : Expr} (parsed : x.ParsedFinite) :
    x.denoted .extended = x := by
  have unsigned := parsed.wellFormed.mono fun value good => good.1
  rw [parsed.canonical.denoted_eq unsigned (by decide)]
  exact parsed.wellFormed.nameInfinity_eq_self fun value good => good.2

theorem Expr.ParsedFinite.printable {x : Expr} (parsed : x.ParsedFinite) : x.Printable :=
  parsed.wellFormed.mono fun _ _ => trivial

namespace Stmt

def withoutNoops : Stmt → Stmt := rewrite id dropNoops

theorem WellFormed.denoted_ne_doc {good : Expr → Prop} {statement : Stmt}
    (wellFormed : statement.WellFormed good) (dialect : Dialect) (lines : List String) :
    statement.denoted dialect ≠ .doc lines := by
  cases wellFormed with
  | branchElse _ _ noFormed =>
      rw [denoted_branchElse noFormed.isHole_eq_false, attach]
      split_ifs <;> simp
  | _ =>
      intro same
      cases same

theorem joinDocs_eq_self {body : List Stmt}
    (noDocs : ∀ statement ∈ body, ∀ lines, statement ≠ .doc lines) : joinDocs body = body := by
  induction body with
  | nil => rfl
  | cons first others ih =>
      have unfolded : joinDocs (first :: others) = first.before (joinDocs others) := rfl
      rw [unfolded, ih fun statement member => noDocs statement (by simp [member]),
        before_of_ne_doc (noDocs first (by simp))]

theorem isNoop_withoutNoops (statement : Stmt) :
    statement.withoutNoops.isNoop = statement.isNoop :=
  isNoop_rewrite (fun statement => by cases statement <;> rfl) id statement

theorem active_denoted_eq_iff {body : List Stmt}
    (bodyGood : ∀ statement ∈ body, statement.WellFormed Expr.ParsedFinite) :
    active (body.map (Stmt.denoted .extended)) = active (body.map withoutNoops) ↔
      ∀ statement ∈ body, statement.elsesKept = true := by
  rw [active_map_eq_iff (isNoop_denoted .extended) isNoop_withoutNoops]
  refine forall₂_congr fun statement member => ?_
  rw [withoutNoops, ← tidy_eq_dropNoops (by decide : Dialect.extended ≠ .plain)]
  exact (bodyGood statement member).denoted_eq_iff fun x parsed => parsed.denoted_eq

end Stmt

namespace Script

theorem wellFormed_of_statements {good : Expr → Prop} {script : Script} (bare : script.args = [])
    (docGood : ∀ line ∈ script.doc, isDocLine line.toList = true)
    (bodyGood : ∀ statement ∈ script.body, statement.WellFormed good) : script.WellFormed good :=
  ⟨docGood, by simp [bare], by simp [bare],
    fun statement member => .statement (bodyGood statement member)⟩

theorem denoted_of_statements {good : Expr → Prop} {script : Script} (bare : script.args = [])
    (bodyGood : ∀ statement ∈ script.body, statement.WellFormed good) (dialect : Dialect) :
    script.denoted dialect =
      ⟨script.doc, [], Stmt.active (script.body.map (Stmt.denoted dialect))⟩ := by
  have noDocs : ∀ statement ∈ Stmt.active (script.body.map (Stmt.denoted dialect)),
      ∀ lines, statement ≠ .doc lines := by
    intro statement member
    obtain ⟨original, present, rfl⟩ := List.mem_map.mp (List.mem_of_mem_filter member)
    exact (bodyGood original present).denoted_ne_doc dialect
  have joined := Stmt.joinDocs_eq_self noDocs
  have apart : ∀ lines others,
      Stmt.active (script.body.map (Stmt.denoted dialect)) ≠ .doc lines :: others := by
    intro lines others led
    exact noDocs (.doc lines) (by simp [led]) lines rfl
  rw [denoted, gathered_of_ne fun _ => joined.symm ▸ apart]
  simp [rewrite, bare, joined]

theorem reads_denoted_statements {script : Script} {indent : String} (bare : script.args = [])
    (docGood : ∀ line ∈ script.doc, isDocLine line.toList = true)
    (bodyGood : ∀ statement ∈ script.body, statement.WellFormed Expr.ParsedFinite)
    (blank : ∀ c ∈ indent.toList, c = ' ' ∨ c = '\t') :
    ∃ text, script.render (.ofOptions indent .extended) = .ok text ∧
      parse text.toList =
        .ok ⟨script.doc, [], Stmt.active (script.body.map (Stmt.denoted .extended))⟩ := by
  have printable := (wellFormed_of_statements bare docGood bodyGood).mono
    fun _ => Expr.ParsedFinite.printable
  obtain ⟨text, rendered, readBack⟩ :=
    printable.parse_text (Style.all_indent blank .extended) (Or.inl rfl)
  refine ⟨text, render_eq_ok_iff.mpr rendered, readBack.trans ?_⟩
  exact congrArg Except.ok (denoted_of_statements bare bodyGood .extended)

end Script

theorem Expr.parsedFinite_ident {name : String} (named : isName name = true) :
    (Expr.ident name).ParsedFinite :=
  ⟨.ident, .ident named⟩

/-- `if (a) inner else d` -/
def Script.elseAfter (inner : Stmt) : Script :=
  ⟨[], [], [.branch (.ident "a") inner (.expr (.ident "d"))]⟩

def Stmt.innerIf : Stmt :=
  .branch (.ident "b") (.expr (.ident "c")) .hole

theorem Script.wellFormed_elseAfter {inner : Stmt} (formed : inner.WellFormed Expr.ParsedFinite) :
    ∀ statement ∈ (Script.elseAfter inner).body, statement.WellFormed Expr.ParsedFinite := by
  intro statement member
  obtain rfl := List.mem_singleton.mp member
  exact .branchElse (Expr.parsedFinite_ident (by decide)) formed
    (.expr (Expr.parsedFinite_ident (by decide)))

theorem Stmt.wellFormed_innerIf : Stmt.innerIf.WellFormed Expr.ParsedFinite :=
  .branch (Expr.parsedFinite_ident (by decide)) (.expr (Expr.parsedFinite_ident (by decide)))

/-- The text of a tree is read as the tree in which each `else` belongs to the last `if` that can
take it. This is the tree itself, apart from statements that do nothing, exactly if each `else`
stands where no other `if` can take it. -/
theorem else_stays_iff_elsesKept {script : Script} {indent : String} (bare : script.args = [])
    (docGood : ∀ line ∈ script.doc, isDocLine line.toList = true)
    (bodyGood : ∀ statement ∈ script.body, statement.WellFormed Expr.ParsedFinite)
    (blank : ∀ c ∈ indent.toList, c = ' ' ∨ c = '\t') :
    ∃ text read, script.render (.ofOptions indent .extended) = .ok text ∧
      parse text.toList = .ok read ∧
      read = ⟨script.doc, [], Stmt.active (script.body.map (Stmt.denoted .extended))⟩ ∧
      (read = ⟨script.doc, [], Stmt.active (script.body.map Stmt.withoutNoops)⟩ ↔
        ∀ statement ∈ script.body, statement.elsesKept = true) := by
  obtain ⟨text, rendered, readBack⟩ :=
    Script.reads_denoted_statements bare docGood bodyGood blank
  refine ⟨text, _, rendered, readBack, rfl, ?_⟩
  rw [← Stmt.active_denoted_eq_iff bodyGood]
  simp

theorem else_stays_after_braces :
    ∃ text, (Script.elseAfter (.block [.innerIf])).render (.ofOptions "\t" .extended) = .ok text ∧
      parse text.toList = .ok (Script.elseAfter (.block [.innerIf])) := by
  have formed : (Stmt.block [.innerIf]).WellFormed Expr.ParsedFinite :=
    .block (by simpa using Stmt.wellFormed_innerIf)
  obtain ⟨text, read, rendered, readBack, _, same⟩ :=
    @else_stays_iff_elsesKept (Script.elseAfter (.block [.innerIf])) "\t" rfl (by decide)
      (Script.wellFormed_elseAfter formed) (by simp)
  obtain rfl := same.mpr (by decide)
  exact ⟨text, rendered, readBack⟩

/-- Without braces the `else` of the outer `if` is read as that of the inner one. -/
theorem else_moves_without_braces :
    (∀ statement ∈ (Script.elseAfter .innerIf).body, statement.WellFormed Expr.ParsedFinite) ∧
    ∃ text read, (Script.elseAfter .innerIf).render (.ofOptions "" .extended) = .ok text ∧
      parse text.toList = .ok read ∧
      read.body = [.branch (.ident "a")
        (.branch (.ident "b") (.expr (.ident "c")) (.expr (.ident "d"))) .hole] ∧
      read.body ≠ Stmt.active ((Script.elseAfter .innerIf).body.map Stmt.withoutNoops) := by
  have bodyGood := Script.wellFormed_elseAfter Stmt.wellFormed_innerIf
  obtain ⟨text, rendered, readBack⟩ :=
    @Script.reads_denoted_statements _ "" rfl (by decide) bodyGood (by simp)
  refine ⟨bodyGood, text, _, rendered, readBack, rfl, ?_⟩
  rw [ne_eq, Stmt.active_denoted_eq_iff bodyGood]
  decide

end GameScript
