import GameScript.Compile
import GameScript.Proofs.Reprinting

/-!
The round trip of canonical printing: what was read is printed, read back in its normal form, and
printed again with the same text.
-/

namespace GameScript

theorem Style.all_indent {indent : String} (blank : ∀ c ∈ indent.toList, c = ' ' ∨ c = '\t')
    (dialect : Dialect) : (Style.ofOptions indent dialect).indent.toList.all isIndent = true := by
  unfold ofOptions
  split_ifs
  · exact (by decide : "    ".toList.all isIndent = true)
  · simpa [isIndent] using blank

theorem Script.render_eq_ok_iff {style : Style} {script : Script} {text : String} :
    script.render style = .ok text ↔ script.render? style = some text := by
  unfold render
  cases script.render? style <;> simp

theorem Script.rewrite_congr {change other : Expr → Expr} {each also : Stmt → Stmt} {script : Script}
    (args : ∀ argument ∈ script.args, argument.mapValue change = argument.mapValue other)
    (body : ∀ statement ∈ script.body, each statement = also statement) :
    script.rewrite change each = script.rewrite other also := by
  rw [rewrite, rewrite, List.map_congr_left args, List.map_congr_left body]

theorem Argument.WellFormed.mapValue_eq {good : Expr → Prop} {change other : Expr → Expr}
    {argument : Argument} (wellFormed : argument.WellFormed good)
    (agrees : ∀ x, good x → change x = other x) :
    argument.mapValue change = argument.mapValue other := by
  cases wellFormed with
  | required | optional | variadic => rfl
  | defaulted _ valueGood => simp [Argument.mapValue, Passing.mapValue, agrees _ valueGood]

theorem Expr.Parsed.printable {x : Expr} (parsed : x.Parsed) : x.Printable :=
  parsed.wellFormed.mono fun _ _ => trivial

theorem Argument.WellFormed.mono {good other : Expr → Prop} {argument : Argument}
    (weaker : ∀ x, good x → other x) (wellFormed : argument.WellFormed good) :
    argument.WellFormed other := by
  cases wellFormed with
  | required named => exact .required named
  | optional named => exact .optional named
  | defaulted named valueGood => exact .defaulted named (weaker _ valueGood)
  | variadic named => exact .variadic named

theorem Stmt.Listed.mono {good other : Expr → Prop} {statement : Stmt}
    (weaker : ∀ x, good x → other x) (listed : statement.Listed good) : statement.Listed other := by
  cases listed with
  | statement wellFormed => exact .statement (wellFormed.mono weaker)
  | doc filled each => exact .doc filled each

theorem Script.WellFormed.mono {good other : Expr → Prop} {script : Script}
    (weaker : ∀ x, good x → other x) (wellFormed : script.WellFormed good) :
    script.WellFormed other :=
  ⟨wellFormed.docGood, fun argument member => (wellFormed.argsGood argument member).mono weaker,
    wellFormed.variadicLast,
    fun statement member => (wellFormed.bodyGood statement member).mono weaker⟩

theorem Script.Parsed.printable {script : Script} (parsed : script.Parsed) :
    script.WellFormed Expr.Printable :=
  parsed.wellFormed.mono fun _ => Expr.Parsed.printable

theorem Script.Parsed.denoted_body {script : Script} {dialect : Dialect} {change : Expr → Expr}
    (parsed : script.Parsed) (agrees : ∀ x, Expr.Parsed x → x.denoted dialect = change x) :
    ∀ statement ∈ script.body,
      statement.denoted dialect = statement.rewrite change (Stmt.tidy dialect) := by
  intro statement member
  cases parsed.wellFormed.bodyGood statement member with
  | statement wellFormed =>
      exact (wellFormed.denoted_eq_iff agrees).mpr (parsed.elsesKept statement member)
  | doc => rfl

theorem Script.Parsed.denoted_extended {script : Script} (parsed : script.Parsed) :
    script.denoted .extended = script.normalized := by
  have agrees (x : Expr) (xParsed : x.Parsed) : x.denoted .extended = x.nameInfinity :=
    xParsed.canonical.denoted_eq xParsed.wellFormed (by decide)
  have same : script.rewrite (Expr.denoted .extended) (Stmt.denoted .extended) =
      script.rewrite Expr.nameInfinity Stmt.normalized := by
    refine Script.rewrite_congr (fun argument member =>
      (parsed.wellFormed.argsGood argument member).mapValue_eq agrees) fun statement member => ?_
    rw [parsed.denoted_body agrees statement member, Stmt.tidy_eq_dropNoops (by decide)]
    rfl
  rw [Script.denoted, Script.normalized, same]

/-- Canonical printing round-trips: the text of a script that was read is read as its normal form,
which has the same text. -/
theorem canonical_text_reads_back {chars : List Char} {script : Script} {indent : String}
    (read : parse chars = .ok script) (blank : ∀ c ∈ indent.toList, c = ' ' ∨ c = '\t') :
    ∃ text, script.render (.ofOptions indent .extended) = .ok text ∧
      parse text.toList = .ok script.normalized ∧
      script.normalized.render (.ofOptions indent .extended) = .ok text := by
  have parsed := Script.parsed_of_parse read
  obtain ⟨text, rendered, readBack⟩ :=
    parsed.printable.parse_text (Style.all_indent blank .extended) (Or.inl rfl)
  refine ⟨text, Script.render_eq_ok_iff.mpr rendered, parsed.denoted_extended ▸ readBack, ?_⟩
  rw [Script.render_eq_ok_iff, ← rendered, Script.render?, Script.render?,
    parsed.print_normalized rfl]

theorem canonical_text_reads_back_example :
    ∃ script, parse "///a\n;\n/// b\nx = 1e999;\nif (a) ; else \x7b;z++;\x7d".toList = .ok script ∧
      script.render (.ofOptions "\t" .extended) =
        .ok "/// a\n/// b\nx = infinity;\nif (a); else \x7b\n\tz++;\n\x7d\n" ∧
      parse "/// a\n/// b\nx = infinity;\nif (a); else \x7b\n\tz++;\n\x7d\n".toList =
        .ok script.normalized ∧
      script.normalized.render (.ofOptions "\t" .extended) =
        .ok "/// a\n/// b\nx = infinity;\nif (a); else \x7b\n\tz++;\n\x7d\n" := by
  have compiled : compile (.ofOptions "\t" .extended)
      "///a\n;\n/// b\nx = 1e999;\nif (a) ; else \x7b;z++;\x7d".toList =
        .ok "/// a\n/// b\nx = infinity;\nif (a); else \x7b\n\tz++;\n\x7d\n" := by
    decide +kernel
  unfold compile at compiled
  split at compiled
  next script read =>
    obtain ⟨text, rendered, readBack, again⟩ :=
      @canonical_text_reads_back _ _ "\t" read (by simp)
    obtain rfl := Except.ok.inj (compiled.symm.trans rendered)
    exact ⟨script, read, compiled, readBack, again⟩
  next => simp at compiled

end GameScript
