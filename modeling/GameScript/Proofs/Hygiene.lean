import GameScript.Issue
import GameScript.Proofs.Prologue
import Mathlib.Data.List.Nodup

/-!
The names that a prologue declares. Main statement: they are pairwise distinct exactly if no
argument is named like the counter of a variadic one, and the copy loop changes such an argument
only.
-/

namespace GameScript

/-! Duplicate arguments. -/

theorem Argument.nodup_of_listIssues {earlier args : List Argument}
    (distinct : (earlier.map Argument.name).Nodup)
    (unique : ∀ issue ∈ listIssues earlier args, ∀ name, issue.fault ≠ .duplicateArgument name) :
    ((earlier ++ args).map Argument.name).Nodup := by
  induction args generalizing earlier with
  | nil => simpa using distinct
  | cons first others ih =>
      have fresh : first.name ∉ earlier.map Argument.name := by
        intro member
        have found : earlier.any (·.name = first.name) = true := by simpa using member
        refine unique ⟨.duplicateArgument first.name, Location.argument earlier.length⟩ ?_ _ rfl
        simp [listIssues, issues, found]
      have longer : ((earlier ++ [first]).map Argument.name).Nodup := by
        rw [List.map_append, List.map_singleton, ← List.concat_eq_append, List.nodup_concat]
        exact ⟨fresh, distinct⟩
      have later := ih longer fun issue member => unique issue (by simp [listIssues, member])
      rwa [List.append_assoc] at later

theorem Script.nodup_of_issues {script : Script} {options : CheckOptions}
    (unique : ∀ issue ∈ script.issues options, ∀ name, issue.fault ≠ .duplicateArgument name) :
    (script.args.map Argument.name).Nodup := by
  have nothing : (([] : List Argument).map Argument.name).Nodup := List.nodup_nil
  exact Argument.nodup_of_listIssues nothing fun issue member =>
    unique issue (List.mem_append_left _ member)

/-! Declared names. -/

def SimpleCommand.declared : SimpleCommand → List String
  | .declare name => [name]
  | .declareAs name _ => [name]
  | _ => []

def Command.declared : Command → List String
  | .simple command => command.declared
  | .branch _ yes no => yes.declared ++ no.declared
  | .loop counter _ _ body => counter :: body.declared

theorem Argument.WellFormed.declared_prologue {good : Expr → Prop} {argument : Argument}
    (wellFormed : argument.WellFormed good) (notVariadic : argument.passing ≠ .variadic)
    (index : Nat) :
    ((argument.prologue index).map PrologueCommand.command).flatMap Command.declared =
      [argument.name] := by
  cases wellFormed with
  | required | optional | defaulted => rfl
  | variadic => exact absurd rfl notVariadic

theorem Argument.declared_variadic {argument : Argument} (variadic : argument.passing = .variadic)
    (index : Nat) :
    ((argument.prologue index).map PrologueCommand.command).flatMap Command.declared =
      [argument.name, argument.counter] := by
  rw [prologue, variadic]
  rfl

theorem Script.declared_prologueFrom {good : Expr → Prop} {args : List Argument}
    (argsGood : ∀ argument ∈ args, argument.WellFormed good)
    (noVariadic : ∀ argument ∈ args, argument.passing ≠ .variadic) (index : Nat) :
    ((prologueFrom index args).map PrologueCommand.command).flatMap Command.declared =
      args.map Argument.name := by
  induction args generalizing index with
  | nil => rfl
  | cons first others ih =>
      have here := (argsGood first (by simp)).declared_prologue (noVariadic first (by simp)) index
      have there := ih (fun argument member => argsGood argument (by simp [member]))
        (fun argument member => noVariadic argument (by simp [member])) (index + 1)
      rw [prologueFrom, List.map_append, List.flatMap_append, here, there]
      rfl

theorem Script.Bindable.nodup_declared_iff {args : List Argument} (bindable : Bindable args) :
    (((prologueFrom 0 args).map PrologueCommand.command).flatMap Command.declared).Nodup ↔
      ∀ variadic ∈ args, variadic.passing = .variadic →
        ∀ argument ∈ args, argument.name ≠ variadic.counter := by
  rcases List.eq_nil_or_concat args with rfl | ⟨before, last, rfl⟩
  · simp [prologueFrom]
  · rw [List.concat_eq_append] at *
    have early := declared_prologueFrom
      (fun argument member => bindable.good argument (by simp [member])) bindable.notVariadic 0
    have whole : ((prologueFrom 0 (before ++ [last])).map PrologueCommand.command).flatMap
        Command.declared = before.map Argument.name ++
          ((last.prologue before.length).map PrologueCommand.command).flatMap Command.declared := by
      rw [prologueFrom_append, List.map_append, List.flatMap_append, early, Nat.zero_add]
      simp [prologueFrom]
    -- Only the last argument can be variadic, and it alone declares a counter.
    by_cases variadic : last.passing = .variadic
    · have longer : before.map Argument.name ++ [last.name, last.counter] =
          ((before ++ [last]).map Argument.name).concat last.counter := by simp
      rw [whole, last.declared_variadic variadic, longer, List.nodup_concat,
        and_iff_left bindable.distinct]
      constructor
      · intro apart other member isVariadic argument isArgument same
        rcases List.mem_append.mp member with early | late
        · exact bindable.notVariadic other early isVariadic
        · obtain rfl := List.mem_singleton.mp late
          exact apart (same ▸ List.mem_map_of_mem isArgument)
      · intro apart member
        obtain ⟨argument, isArgument, same⟩ := List.mem_map.mp member
        exact apart last (by simp) variadic argument isArgument same
    · have none : ∀ argument ∈ before ++ [last], argument.passing ≠ .variadic := by
        simpa [or_imp, forall_and] using ⟨bindable.notVariadic, variadic⟩
      have names := (bindable.good last (by simp)).declared_prologue variadic before.length
      have distinct := bindable.distinct
      rw [List.map_append, List.map_singleton] at distinct
      rw [whole, names]
      exact iff_of_true distinct fun other member isVariadic =>
        absurd isVariadic (none other member)

/-! The copy loop. -/

theorem Call.run_copyLoop {α : Type} {call : Call α} {before : List Argument} {last : Argument}
    (arrays : List (List (Value α))) (bindable : Script.Bindable (before ++ [last]))
    (reaches : call.Reaches (before ++ [last])) :
    ∃ middle final : Memory α,
      (∀ fuel, call.actuals.length < fuel →
        Command.runAll call fuel (Memory.start arrays)
            ((Script.prologueFrom 0 before).map PrologueCommand.command ++
              [(PrologueCommand.allocate last.name before.length).command]) = some middle ∧
          (PrologueCommand.copyRest last.name last.counter before.length).command.run call fuel
            middle = some final) ∧
      ∀ name, final.values name =
        if name = last.counter then some (.number (max before.length call.actuals.length : Nat))
        else middle.values name := by
  let memory : Memory α := call.enter 0 (Memory.start arrays) before
  refine ⟨call.allocated last.name before.length memory,
    call.copied last.name last.counter before.length memory, fun fuel enough => ⟨?_, ?_⟩, ?_⟩
  · rw [runAll_append, runAll_before arrays bindable reaches fuel]
    simp [Command.runAll, run_allocate, memory]
  · exact run_copyRest last.name_ne_counter before.length memory enough
  · intro name
    by_cases same : name = last.counter
    · simp [copied, same]
    · simp [copied, allocated, same]

/-- Without duplicate arguments, the names that a prologue declares are pairwise distinct exactly if
no argument is named like the counter of a variadic one. The copy loop leaves the earlier arguments
as they are, but for one with that name, which ends as a number. -/
theorem prologue_names_distinct_iff {chars : List Char} {script : Script} {options : CheckOptions}
    (read : parse chars = .ok script)
    (unique : ∀ issue ∈ script.issues options, ∀ name, issue.fault ≠ .duplicateArgument name) :
    ∃ commands, Command.ofText? (Script.prologueText script.args) = some commands ∧
      ((commands.flatMap Command.declared).Nodup ↔
        ∀ variadic ∈ script.args, variadic.passing = .variadic →
          ∀ argument ∈ script.args, argument.name ≠ variadic.counter) ∧
      ∀ before last, script.args = before ++ [last] → last.passing = .variadic →
        ∃ front loop, commands = front ++ [loop] ∧
          ∀ (α : Type) (call : Call α) (arrays : List (List (Value α))),
            call.Reaches script.args → ∃ middle final : Memory α,
              (∀ fuel, call.actuals.length < fuel →
                Command.runAll call fuel (Memory.start arrays) front = some middle ∧
                  loop.run call fuel middle = some final) ∧
              ∀ argument ∈ before, final.values argument.name =
                if argument.name = last.counter then
                  some (.number (max before.length call.actuals.length : Nat))
                else middle.values argument.name := by
  have parsed := Script.parsed_of_parse read
  have bindable : Script.Bindable script.args :=
    ⟨parsed.wellFormed.argsGood, parsed.wellFormed.variadicLast, Script.nodup_of_issues unique⟩
  refine ⟨_, Script.ofText?_prologueText parsed.printable.argsGood, bindable.nodup_declared_iff, ?_⟩
  intro before last split variadic
  rw [split] at bindable ⊢
  refine ⟨(Script.prologueFrom 0 before).map PrologueCommand.command ++
    [(PrologueCommand.allocate last.name before.length).command],
    (PrologueCommand.copyRest last.name last.counter before.length).command, ?_, ?_⟩
  · rw [Script.prologueFrom_append, Nat.zero_add]
    simp [Script.prologueFrom, Argument.prologue, variadic]
  · intro α call arrays reaches
    obtain ⟨middle, final, ran, values⟩ := Call.run_copyLoop arrays bindable reaches
    exact ⟨middle, final, ran, fun argument _ => values argument.name⟩

theorem prologue_names_distinct_iff_mixed :
    let call : Call Nat :=
      ⟨[.other 1, .other 2], fun environment _ => (.undefined, environment.arrays)⟩
    ∃ script commands,
      parse "argument a\nargument b = a\nargument c?\nargument ...d".toList = .ok script ∧
      script.issues {} = [] ∧ Command.ofText? (Script.prologueText script.args) = some commands ∧
      (commands.flatMap Command.declared).Nodup ∧
      ∃ front loop middle final, commands = front ++ [loop] ∧
        Command.runAll call 3 (Memory.start []) front = some middle ∧
        loop.run call 3 middle = some final ∧ final.values "a" = middle.values "a" := by
  intro call
  obtain ⟨script, read, checked⟩ := exists_ok_of_any
    (show (parse "argument a\nargument b = a\nargument c?\nargument ...d".toList).toOption.any
      (fun script => Argument.areMixed script.args && script.issues {} = []) = true by
        decide +kernel)
  obtain ⟨shape, noIssues⟩ : Argument.areMixed script.args = true ∧ script.issues {} = [] := by
    simpa using checked
  have args := Argument.eq_mixed shape
  have unique : ∀ issue ∈ script.issues {}, ∀ name, issue.fault ≠ .duplicateArgument name := by
    simp [noIssues]
  obtain ⟨commands, reads, distinct, loops⟩ := prologue_names_distinct_iff read unique
  obtain ⟨front, loop, ends, runs⟩ := loops [_, _, _] _ args rfl
  obtain ⟨middle, final, ran, values⟩ :=
    runs Nat call [] (args ▸ Call.reaches_mixed (by simp [call]))
  have kept := values ⟨"a", .required⟩ (by simp)
  rw [if_neg (by simp [Argument.counter])] at kept
  exact ⟨script, commands, read, noIssues, reads, distinct.mpr (args ▸ Argument.apart_mixed), front,
    loop, middle, final, ends, (ran 3 (by decide)).1, (ran 3 (by decide)).2, kept⟩

/-- An argument that is named like a counter is accepted and loses its value. -/
theorem prologue_counter_clash :
    let call : Call Nat := ⟨[.other 7], fun environment _ => (.undefined, environment.arrays)⟩
    ∃ script commands final,
      parse "argument _a_i\nargument ...a\n".toList = .ok script ∧ script.issues {} = [] ∧
      Command.ofText? (Script.prologueText script.args) = some commands ∧
      ¬(commands.flatMap Command.declared).Nodup ∧
      Command.runAll call 2 (Memory.start []) commands = some final ∧
      final.values "_a_i" = some (.number 1) := by
  intro call
  obtain ⟨script, read, checked⟩ := exists_ok_of_any
    (show (parse "argument _a_i\nargument ...a\n".toList).toOption.any (fun script =>
      script.issues {} = [] &&
        (Command.ofText? (Script.prologueText script.args)).any fun commands =>
          ¬(commands.flatMap Command.declared).Nodup &&
            (Command.runAll call 2 (Memory.start []) commands).any fun final =>
              final.values "_a_i" = some (.number 1)) = true by decide +kernel)
  simp only [Bool.and_eq_true, decide_eq_true_eq, Option.any_eq_true] at checked
  obtain ⟨noIssues, commands, reads, clash, final, ran, lost⟩ := checked
  exact ⟨script, commands, final, read, noIssues, reads, clash, ran, lost⟩

end GameScript
