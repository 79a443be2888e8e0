import GameScript.Proofs.CommandText
import GameScript.Proofs.Evaluation
import GameScript.Proofs.Joining
import GameScript.Proofs.Lowering

/-!
What the prologue of a script does. Main statement: in every call it ends, with each argument bound
to what the call gives for it. A default that is left out comes to what it stands for exactly if it
is worth the same in the prologue, where its argument is declared already and hides what else has the
name.
-/

namespace GameScript

variable {α : Type}

/-! What a prologue gives for arguments. -/

def Memory.bind (name : String) (result : Value α × List (List (Value α))) (memory : Memory α) :
    Memory α where
  declared := memory.declared ++ [name]
  values := Function.update memory.values name (some result.1)
  arrays := result.2

namespace Call

variable (call : Call α)

/-- What the prologue gives for the argument at an index, behind the earlier ones. A default has its
plain form, and is evaluated when the argument has been declared. -/
def give (index : Nat) (memory : Memory α) (argument : Argument) :
    Value α × List (List (Value α)) :=
  match argument.passing, call.actuals[index]? with
  | .variadic, _ => (.array memory.arrays.length, memory.arrays ++ [call.actuals.drop index])
  | _, some value => (value, memory.arrays)
  | .defaulted (some x), none =>
      call.valueOf (memory.declare argument.name none) x.lower.nameInfinity
  | _, none => (.undefined, memory.arrays)

def enter (index : Nat) (memory : Memory α) : List Argument → Memory α
  | [] => memory
  | argument :: rest =>
      enter (index + 1) (memory.bind argument.name (call.give index memory argument)) rest

variable {call}

theorem enter_append (index : Nat) (memory : Memory α) (before rest : List Argument) :
    call.enter index memory (before ++ rest) =
      call.enter (index + before.length) (call.enter index memory before) rest := by
  induction before generalizing index memory with
  | nil => rfl
  | cons first before ih =>
      rw [List.cons_append, enter, ih, enter, List.length_cons, Nat.add_right_comm, Nat.add_assoc]

theorem values_enter_of_not_mem {name : String} {args : List Argument} (index : Nat)
    (memory : Memory α) (other : name ∉ args.map Argument.name) :
    (call.enter index memory args).values name = memory.values name := by
  induction args generalizing index memory with
  | nil => rfl
  | cons first others ih =>
      rw [List.map_cons, List.mem_cons, not_or] at other
      rw [enter, ih _ _ other.2]
      exact Function.update_of_ne other.1 _ _

theorem declared_enter (index : Nat) (memory : Memory α) (args : List Argument) :
    (call.enter index memory args).declared = memory.declared ++ args.map Argument.name := by
  induction args generalizing index memory with
  | nil => simp [enter]
  | cons first others ih => simp [enter, ih, Memory.bind]

end Call

/-! Numbers. -/

@[simp] theorem toNat?_natCast (value : Nat) : (value : Int).toNat? = some value := rfl

theorem toNat?_natCast_sub {value less : Nat} (lower : less ≤ value) :
    ((value : Int) - less).toNat? = some (value - less) := by
  rw [← Int.ofNat_sub lower]
  rfl

theorem toNat?_max_sub (value less : Nat) :
    (max 0 ((value : Int) - less)).toNat? = some (value - less) := by
  have whole : max 0 ((value : Int) - less) = (value - less : Nat) := by omega
  rw [whole]
  rfl

namespace Call

variable (call : Call α) {fuel : Nat}

/-! The copy loop. -/

def copying (counter : String) (first number : Nat) (memory : Memory α) : Memory α where
  values := Function.update memory.values counter (some (.number number))
  arrays := memory.arrays ++ [(call.actuals.drop first).take (number - first) ++
    List.replicate (call.actuals.length - number) (.number 0)]
  declared := memory.declared

def copyStep (name counter : String) (first : Nat) : SimpleCommand :=
  .store name (.minus (.named counter) (.number first)) (.actual (.named counter))

theorem set_take_append {items : List (Value α)} {first number : Nat} {value blank : Value α}
    (lower : first ≤ number) (found : items[number]? = some value) :
    ((items.drop first).take (number - first) ++
        List.replicate (items.length - number) blank).set (number - first) value =
      (items.drop first).take (number + 1 - first) ++
        List.replicate (items.length - (number + 1)) blank := by
  obtain ⟨upper, _⟩ := List.getElem?_eq_some_iff.mp found
  have filled : ((items.drop first).take (number - first)).length = number - first := by
    rw [List.length_take, List.length_drop]
    omega
  have left : items.length - number = items.length - (number + 1) + 1 := by omega
  have next : (items.drop first)[number - first]? = some value := by
    rw [List.getElem?_drop, Nat.add_sub_cancel' lower, found]
  rw [List.set_append_right _ _ filled.le, filled, Nat.sub_self, left, List.replicate_succ,
    List.set_cons_zero, Nat.succ_sub lower, List.take_add_one, next]
  simp

theorem arrays_copying_max (counter : String) (first : Nat) (memory : Memory α) :
    (call.copying counter first (max first call.actuals.length) memory).arrays =
      memory.arrays ++ [call.actuals.drop first] := by
  have whole : (call.actuals.drop first).length ≤ max first call.actuals.length - first := by
    rw [List.length_drop]
    omega
  have none : call.actuals.length - max first call.actuals.length = 0 := by omega
  simp [copying, List.take_of_length_le whole, none]

variable {call} {name counter : String} {first : Nat} {memory : Memory α}
  (holds : memory.values name = some (.array memory.arrays.length)) (apart : name ≠ counter)
  (declared : counter ∈ memory.declared)

include holds apart declared

omit declared in
theorem store_copying {number : Nat} {value : Value α} (lower : first ≤ number)
    (found : call.actuals[number]? = some value) :
    (call.copying counter first number memory).store name (number - first) value =
      some { call.copying counter first number memory with
        arrays := (call.copying counter first (number + 1) memory).arrays } := by
  have held : (call.copying counter first number memory).values name =
      some (.array memory.arrays.length) := (Function.update_of_ne apart _ _).trans holds
  obtain ⟨upper, _⟩ := List.getElem?_eq_some_iff.mp found
  have inside : number - first < min (number - first) (call.actuals.length - first) +
      (call.actuals.length - number) := by omega
  simp only [Memory.store, held]
  simp [copying, inside, set_take_append lower found]

theorem run_copyStep {number : Nat} (lower : first ≤ number)
    (upper : number < call.actuals.length) :
    ((copyStep name counter first).run call (call.copying counter first number memory)).bind
        (Memory.increment counter) =
      some (call.copying counter first (number + 1) memory) := by
  obtain ⟨value, found⟩ : ∃ value, call.actuals[number]? = some value :=
    ⟨_, List.getElem?_eq_getElem upper⟩
  have counted : (call.copying counter first number memory).values counter =
      some (.number number) := Function.update_self ..
  have ran : (copyStep name counter first).run call (call.copying counter first number memory) =
      (call.copying counter first number memory).store name (number - first) value := by
    simp [copyStep, SimpleCommand.run, Operand.eval, Quantity.eval, counted, found,
      toNat?_natCast_sub lower]
  rw [ran, store_copying holds apart lower found]
  simp [Memory.increment, Memory.assign, copying, declared]

theorem repeatWhile_copyStep {number : Nat} (lower : first ≤ number)
    (upper : number ≤ max first call.actuals.length)
    (enough : call.actuals.length - number < fuel) :
    Command.repeatWhile call counter (.less (.named counter) .count) (copyStep name counter first)
        fuel (call.copying counter first number memory) =
      some (call.copying counter first (max first call.actuals.length) memory) := by
  induction fuel generalizing number with
  | zero => omega
  | succ fuel ih =>
      have tested : Test.eval call (call.copying counter first number memory)
          (.less (.named counter) .count) = some (decide (number < call.actuals.length)) := by
        simp [Test.eval, Quantity.eval, copying]
      by_cases inside : number < call.actuals.length
      · have round := run_copyStep holds apart declared lower inside
        obtain ⟨stored, ran, counted⟩ := Option.bind_eq_some_iff.mp round
        have goesOn := @ih (number + 1) (by omega) (by omega) (by omega)
        simp [Command.repeatWhile, tested, inside, ran, counted, goesOn]
      · have last : number = max first call.actuals.length := by omega
        simp [Command.repeatWhile, tested, inside, ← last]

end Call

theorem Argument.name_ne_counter (argument : Argument) : argument.name ≠ argument.counter := by
  intro same
  have lengths := congrArg (fun text => text.toList.length) same
  simp only [toList_counter, List.length_cons, List.length_append] at lengths
  omega

namespace Call

variable {call : Call α} {memory : Memory α} {index : Nat}

theorem runAll_append (fuel : Nat) (memory : Memory α) (commands others : List Command) :
    Command.runAll call fuel memory (commands ++ others) =
      (Command.runAll call fuel memory commands).bind (Command.runAll call fuel · others) :=
  List.foldlM_append ..

def allocated (call : Call α) (name : String) (first : Nat) (memory : Memory α) : Memory α where
  values := Function.update memory.values name (some (.array memory.arrays.length))
  arrays := memory.arrays ++ [List.replicate (call.actuals.length - first) (.number 0)]
  declared := memory.declared ++ [name]

def copied (call : Call α) (name counter : String) (first : Nat) (memory : Memory α) :
    Memory α where
  values := Function.update
    (Function.update memory.values name (some (.array memory.arrays.length))) counter
      (some (.number (max first call.actuals.length : Nat)))
  arrays := memory.arrays ++ [call.actuals.drop first]
  declared := memory.declared ++ [name, counter]

theorem run_allocate (name : String) (first : Nat) (memory : Memory α) (fuel : Nat) :
    (PrologueCommand.allocate name first).command.run call fuel memory =
      some (call.allocated name first memory) := by
  simp [PrologueCommand.command, Command.run, SimpleCommand.run, Operand.eval, Quantity.eval,
    toNat?_max_sub, Memory.declare, allocated]

theorem run_copyRest {name counter : String} (apart : name ≠ counter) (first : Nat)
    (memory : Memory α) (enough : call.actuals.length < fuel) :
    (PrologueCommand.copyRest name counter first).command.run call fuel
        (call.allocated name first memory) = some (call.copied name counter first memory) := by
  -- The memory that the rounds start from: the array itself is left to `copying`.
  let named : Memory α :=
    { memory with
      values := Function.update memory.values name (some (.array memory.arrays.length))
      declared := memory.declared ++ [name, counter] }
  have holds : named.values name = some (.array named.arrays.length) := Function.update_self ..
  have counts : counter ∈ named.declared := by simp [named]
  have begins : (call.allocated name first memory).declare counter (some (.number first)) =
      call.copying counter first first named := by
    simp [allocated, Memory.declare, copying, named]
  have ends : call.copying counter first (max first call.actuals.length) named =
      call.copied name counter first memory := by
    rw [copied, ← arrays_copying_max call counter first memory]
    rfl
  have looped := repeatWhile_copyStep holds apart counts le_rfl (le_max_left _ _)
    (Nat.lt_of_le_of_lt (Nat.sub_le _ first) enough)
  rw [← begins, ends] at looped
  exact looped

theorem runAll_variadic {argument : Argument} (variadic : argument.passing = .variadic)
    (enough : call.actuals.length < fuel) :
    Command.runAll call fuel memory ((argument.prologue index).map PrologueCommand.command) =
      some (call.copied argument.name argument.counter index memory) := by
  have ran := run_copyRest argument.name_ne_counter index memory enough
  simp [Argument.prologue, variadic, Command.runAll, run_allocate, ran]

theorem runAll_takeOr (name : String) (value : Option Expr) (fuel : Nat) :
    Command.runAll call fuel memory
        ([PrologueCommand.declare name, .takeOr name index value].map PrologueCommand.command) =
      some (memory.bind name (match call.actuals[index]? with
        | some actual => (actual, memory.arrays)
        | none => call.valueOf (memory.declare name none)
            ((value.getD (.literal .undefined)).denoted .plain))) := by
  by_cases given : index < call.actuals.length <;>
    simp [PrologueCommand.command, Command.runAll, Command.run, SimpleCommand.run, Test.eval,
      Operand.eval, Quantity.eval, given, Memory.declare, Memory.assign, Memory.bind]

theorem runAll_argument {argument : Argument} (memory : Memory α)
    (wellFormed : argument.WellFormed Expr.Parsed) (notVariadic : argument.passing ≠ .variadic)
    (given : argument.passing = .required → index < call.actuals.length) (fuel : Nat) :
    Command.runAll call fuel memory ((argument.prologue index).map PrologueCommand.command) =
      some (memory.bind argument.name (call.give index memory argument)) := by
  cases wellFormed with
  | required named =>
      have found := List.getElem?_eq_getElem (given rfl)
      simp [Argument.prologue, PrologueCommand.command, Command.runAll, Command.run,
        SimpleCommand.run, Operand.eval, Quantity.eval, found, give, Memory.bind, Memory.declare]
  | optional named =>
      rw [Argument.prologue, runAll_takeOr]
      cases found : call.actuals[index]? with
      | none =>
          simp only [give, found, Option.getD_none]
          rfl
      | some value => simp [give, found]
  | defaulted named parsed =>
      rw [Argument.prologue, runAll_takeOr]
      have plain := parsed.canonical.denoted_plain parsed.wellFormed
      cases found : call.actuals[index]? <;> simp [give, found, plain]
  | variadic => exact absurd rfl notVariadic

theorem runAll_arguments {args : List Argument}
    (good : ∀ argument ∈ args, argument.WellFormed Expr.Parsed)
    (noVariadic : ∀ argument ∈ args, argument.passing ≠ .variadic)
    (given : ∀ argument offset, args[offset]? = some argument → argument.passing = .required →
      index + offset < call.actuals.length) (fuel : Nat) :
    Command.runAll call fuel memory
        ((Script.prologueFrom index args).map PrologueCommand.command) =
      some (call.enter index memory args) := by
  induction args generalizing index memory with
  | nil => simp [Script.prologueFrom, Command.runAll, enter]
  | cons first others ih =>
      have firstGiven : first.passing = .required → index < call.actuals.length :=
        given first 0 rfl
      have ran := runAll_argument memory (good first (by simp)) (noVariadic first (by simp))
        firstGiven fuel
      rw [Script.prologueFrom, List.map_append, runAll_append, ran, Option.bind_some, ih]
      · rfl
      · exact fun argument member => good argument (by simp [member])
      · exact fun argument member => noVariadic argument (by simp [member])
      · intro argument offset found required
        have bound := given argument (offset + 1) found required
        omega

end Call

theorem Script.prologueFrom_append (index : Nat) (before rest : List Argument) :
    prologueFrom index (before ++ rest) =
      prologueFrom index before ++ prologueFrom (index + before.length) rest := by
  induction before generalizing index with
  | nil => rfl
  | cons first before ih =>
      rw [List.cons_append, prologueFrom, ih, prologueFrom, List.append_assoc, List.length_cons,
        Nat.add_right_comm, Nat.add_assoc]

def Call.Reaches (call : Call α) (args : List Argument) : Prop :=
  ∀ argument index, args[index]? = some argument → argument.passing = .required →
    index < call.actuals.length

structure Script.Bindable (args : List Argument) : Prop where
  good : ∀ argument ∈ args, argument.WellFormed Expr.Parsed
  variadicLast : args.Pairwise fun argument _ => argument.passing ≠ .variadic
  distinct : (args.map Argument.name).Nodup

theorem Script.Bindable.notVariadic {before after : List Argument} {argument : Argument}
    (bindable : Bindable (before ++ argument :: after)) :
    ∀ earlier ∈ before, earlier.passing ≠ .variadic :=
  fun earlier member =>
    (List.pairwise_append.mp bindable.variadicLast).2.2 earlier member argument (by simp)

namespace Call

variable {call : Call α} {before after : List Argument} {argument : Argument}
  (arrays : List (List (Value α)))

theorem runAll_before (bindable : Script.Bindable (before ++ argument :: after))
    (reaches : call.Reaches (before ++ argument :: after)) (fuel : Nat) :
    Command.runAll call fuel (Memory.start arrays)
        ((Script.prologueFrom 0 before).map PrologueCommand.command) =
      some (call.enter 0 (Memory.start arrays) before) := by
  have good : ∀ earlier ∈ before, earlier.WellFormed Expr.Parsed :=
    fun earlier member => bindable.good earlier (by simp [member])
  refine runAll_arguments good bindable.notVariadic ?_ fuel
  intro earlier offset found required
  have inside : offset < before.length := (List.getElem?_eq_some_iff.mp found).1
  rw [Nat.zero_add]
  exact reaches earlier offset (by rwa [List.getElem?_append_left inside]) required

/-- A prologue ends, with the values that it gives; only counters are left besides. -/
theorem exists_final {args : List Argument} (bindable : Script.Bindable args)
    (reaches : call.Reaches args) :
    ∃ final : Memory α,
      (∀ fuel, call.actuals.length < fuel →
        Command.runAll call fuel (Memory.start arrays)
          ((Script.prologueFrom 0 args).map PrologueCommand.command) = some final) ∧
      final.arrays = (call.enter 0 (Memory.start arrays) args).arrays ∧
      ∀ name, (∀ argument ∈ args, argument.passing = .variadic → name ≠ argument.counter) →
        final.values name = (call.enter 0 (Memory.start arrays) args).values name := by
  rcases List.eq_nil_or_concat args with rfl | ⟨before, last, rfl⟩
  · exact ⟨Memory.start arrays, fun _ _ => rfl, rfl, fun _ _ => rfl⟩
  · rw [List.concat_eq_append] at *
    -- Only the last argument may be variadic, so the others are bound one by one before it.
    let memory := call.enter 0 (Memory.start arrays) before
    have entered : call.enter 0 (Memory.start arrays) (before ++ [last]) =
        memory.bind last.name (call.give before.length memory last) := by
      rw [enter_append, Nat.zero_add]
      rfl
    have ranBefore := runAll_before arrays bindable reaches
    have ends (fuel : Nat) : Command.runAll call fuel (Memory.start arrays)
        ((Script.prologueFrom 0 (before ++ [last])).map PrologueCommand.command) =
          Command.runAll call fuel memory
            ((last.prologue before.length).map PrologueCommand.command) := by
      rw [Script.prologueFrom_append, List.map_append, runAll_append, ranBefore, Nat.zero_add]
      simp [Script.prologueFrom, memory]
    by_cases variadic : last.passing = .variadic
    · refine ⟨call.copied last.name last.counter before.length memory,
        fun fuel enough => (ends fuel).trans (runAll_variadic variadic enough), ?_, ?_⟩
      · rw [entered]
        simp [copied, Memory.bind, give, variadic]
      · intro name other
        have apart : name ≠ last.counter := other last (by simp) variadic
        rw [entered]
        simp [copied, Memory.bind, give, variadic, Function.update_of_ne apart]
    · have given : last.passing = .required → before.length < call.actuals.length :=
        reaches last before.length (by simp)
      have ran := runAll_argument memory (bindable.good last (by simp)) variadic given
      refine ⟨_, fun fuel _ => (ends fuel).trans (ran fuel), ?_, fun name _ => ?_⟩
      · rw [entered]
      · rw [entered]

/-! Arguments one by one. -/

section Split

variable {memory : Memory α}
  (distinct : ((before ++ argument :: after).map Argument.name).Nodup)

include distinct

theorem enter_split_of_mem_before {name : String} (member : name ∈ before.map Argument.name) :
    (call.enter 0 memory (before ++ argument :: after)).values name =
      (call.enter 0 memory before).values name := by
  rw [enter_append]
  refine values_enter_of_not_mem _ _ fun again => ?_
  rw [List.map_append, List.nodup_append] at distinct
  exact distinct.2.2 name member name again rfl

theorem values_enter_split :
    (call.enter 0 memory (before ++ argument :: after)).values argument.name =
      some (call.give before.length (call.enter 0 memory before) argument).1 := by
  rw [List.map_append, List.nodup_append, List.map_cons, List.nodup_cons] at distinct
  rw [enter_append, Nat.zero_add, enter, values_enter_of_not_mem _ _ distinct.2.1.1]
  exact Function.update_self ..

end Split

end Call

namespace Host

variable (host : Host α) (actuals : List (Value α)) (memory : Memory α)

def value (x : Expr) : Value α := ((host.eval actuals memory x).run memory.arrays).1

/-- The value of a default as a prologue has it: the argument has been declared, and the default has
its plain form. -/
def writtenValue (own : String) (x : Expr) : Value α :=
  host.value actuals (memory.declare own none) x.lower.nameInfinity

theorem writtenValue_eq {x : Expr} {own : String} (parsed : x.Parsed) (unnamed : own ∉ x.names)
    (clear : ∀ name ∈ x.addedNames, name ∉ memory.declared ∧ name ≠ own) :
    host.writtenValue actuals memory own x = host.value actuals memory x := by
  have same := host.eval_plain_declare actuals parsed.wellFormed unnamed clear
  rw [writtenValue, value, same]
  rfl

end Host

/-- What an argument is bound to in the end: the actual argument at its index if there is one, and
else what it stands for by itself. A variadic argument holds a new array. -/
structure Argument.Receives (argument : Argument) (actuals : List (Value α)) (index : Nat)
    (memory final : Memory α) (default : Expr → Value α) : Prop where
  actual : argument.passing ≠ .variadic → ∀ value, actuals[index]? = some value →
    final.values argument.name = some value
  optional : argument.passing = .optional → actuals.length ≤ index →
    final.values argument.name = some .undefined
  defaulted : ∀ x, argument.passing = .defaulted (some x) → actuals.length ≤ index →
    final.values argument.name = some (default x)
  variadic : argument.passing = .variadic →
    final.values argument.name = some (.array memory.arrays.length) ∧
      final.arrays = memory.arrays ++ [actuals.drop index]

theorem Argument.receives_of_give {argument : Argument} {host : Host α} {actuals : List (Value α)}
    {index : Nat} {memory final : Memory α}
    (value : final.values argument.name =
      some ((host.call actuals).give index memory argument).1)
    (arrays : argument.passing = .variadic →
      final.arrays = ((host.call actuals).give index memory argument).2) :
    argument.Receives actuals index memory final
      (host.writtenValue actuals memory argument.name) := by
  have known : (host.call actuals).actuals = actuals := rfl
  refine ⟨fun notVariadic actual found => ?_, fun optional short => ?_, fun x defaulted short => ?_,
    fun variadic => ⟨?_, ?_⟩⟩
  · rw [value, Call.give, known]
    cases passing : argument.passing <;> simp_all
  · rw [value, Call.give, known, optional, List.getElem?_eq_none short]
  · rw [value, Call.give, known, defaulted, List.getElem?_eq_none short]
    simp only [host.valueOf_call]
    rfl
  · rw [value, Call.give, variadic]
  · rw [arrays variadic, Call.give, variadic, known]

theorem Argument.Receives.default_iff {argument : Argument} {actuals : List (Value α)} {index : Nat}
    {memory final : Memory α} {default other : Expr → Value α}
    (receives : argument.Receives actuals index memory final default) :
    argument.Receives actuals index memory final other ↔
      ∀ x, argument.passing = .defaulted (some x) → actuals.length ≤ index → default x = other x := by
  constructor
  · intro also x defaulted short
    have both := (receives.defaulted x defaulted short).symm.trans (also.defaulted x defaulted short)
    exact Option.some.inj both
  · intro same
    refine ⟨receives.actual, receives.optional, fun x defaulted short => ?_, receives.variadic⟩
    rw [receives.defaulted x defaulted short, same x defaulted short]

/-- The prologue of a script ends in every call with actual arguments for all required ones, and
binds every argument. A default that is left out is bound to its value where the argument itself has
been declared, which is the value behind the earlier arguments unless the default names the argument,
or its plain form adds a name of an argument that has been declared. -/
theorem prologue_binds {chars : List Char} {script : Script} (host : Host α)
    (actuals : List (Value α)) (arrays : List (List (Value α))) (read : parse chars = .ok script)
    (distinct : (script.args.map Argument.name).Nodup)
    (apart : ∀ variadic ∈ script.args, variadic.passing = .variadic →
      ∀ argument ∈ script.args, argument.name ≠ variadic.counter)
    (reaches : (host.call actuals).Reaches script.args) :
    ∃ commands final, Command.ofText? (Script.prologueText script.args) = some commands ∧
      (∀ fuel, actuals.length < fuel →
        Command.runAll (host.call actuals) fuel (Memory.start arrays) commands = some final) ∧
      ∀ before argument after, script.args = before ++ argument :: after →
        ∃ front memory, Command.ofText? (Script.prologueText before) = some front ∧
          front <+: commands ∧
          (∀ fuel, Command.runAll (host.call actuals) fuel (Memory.start arrays) front =
            some memory) ∧
          memory.declared = before.map Argument.name ∧
          (∀ earlier ∈ before, memory.values earlier.name = final.values earlier.name) ∧
          argument.Receives actuals before.length memory final
            (host.writtenValue actuals memory argument.name) ∧
          (argument.Receives actuals before.length memory final (host.value actuals memory) ↔
            ∀ x, argument.passing = .defaulted (some x) → actuals.length ≤ before.length →
              host.writtenValue actuals memory argument.name x = host.value actuals memory x) ∧
          ∀ x, argument.passing = .defaulted (some x) → argument.name ∉ x.names →
            (∀ name ∈ x.addedNames, name ∉ (before ++ [argument]).map Argument.name) →
            host.writtenValue actuals memory argument.name x = host.value actuals memory x := by
  have parsed := Script.parsed_of_parse read
  have bindable : Script.Bindable script.args :=
    ⟨parsed.wellFormed.argsGood, parsed.wellFormed.variadicLast, distinct⟩
  obtain ⟨final, ran, finalArrays, finalValues⟩ := Call.exists_final arrays bindable reaches
  have printable := parsed.printable.argsGood
  refine ⟨_, final, Script.ofText?_prologueText printable, ran, ?_⟩
  intro before argument after split
  have bound (other : Argument) (member : other ∈ script.args) : final.values other.name =
      ((host.call actuals).enter 0 (Memory.start arrays) script.args).values other.name :=
    finalValues other.name fun variadic isMember isVariadic =>
      apart variadic isMember isVariadic other member
  rw [split] at distinct bound finalArrays bindable reaches printable ⊢
  let memory := (host.call actuals).enter 0 (Memory.start arrays) before
  have declared : memory.declared = before.map Argument.name := Call.declared_enter ..
  have receives : argument.Receives actuals before.length memory final
      (host.writtenValue actuals memory argument.name) := by
    refine Argument.receives_of_give ?_ fun variadic => ?_
    · rw [bound argument (by simp), Call.values_enter_split distinct]
    · have last : after = [] := by
        have pairs := bindable.variadicLast
        rw [List.pairwise_append, List.pairwise_cons] at pairs
        refine List.eq_nil_iff_forall_not_mem.mpr fun later member => ?_
        exact pairs.2.1.1 later member variadic
      rw [finalArrays, last, Call.enter_append, Nat.zero_add]
      rfl
  refine ⟨_, memory, Script.ofText?_prologueText fun earlier member =>
    printable earlier (by simp [member]), ?_, Call.runAll_before arrays bindable reaches, declared, ?_,
    receives, receives.default_iff, ?_⟩
  · rw [Script.prologueFrom_append, List.map_append]
    exact List.prefix_append _ _
  · intro earlier member
    rw [bound earlier (by simp [member]),
      Call.enter_split_of_mem_before distinct (List.mem_map_of_mem member)]
  · intro x defaulted unnamed clear
    have good := bindable.good argument (by simp)
    rw [show argument = ⟨argument.name, .defaulted (some x)⟩ by rw [← defaulted]] at good
    cases good with
    | defaulted named isParsed =>
        refine host.writtenValue_eq actuals memory isParsed unnamed fun name added => ?_
        simpa [declared] using clear name added

def Argument.mixed : List Argument :=
  [⟨"a", .required⟩, ⟨"b", .defaulted (some (.ident "a"))⟩, ⟨"c", .optional⟩, ⟨"d", .variadic⟩]

def Argument.areMixed : List Argument → Bool
  | [⟨"a", .required⟩, ⟨"b", .defaulted (some (.ident "a"))⟩, ⟨"c", .optional⟩, ⟨"d", .variadic⟩] =>
      true
  | _ => false

theorem Argument.eq_mixed {args : List Argument} (shape : areMixed args = true) : args = mixed := by
  unfold areMixed at shape
  split at shape
  · rfl
  · simp at shape

theorem Argument.apart_mixed : ∀ variadic ∈ mixed, variadic.passing = .variadic →
    ∀ argument ∈ mixed, argument.name ≠ variadic.counter := by
  simp [mixed, counter]

theorem Call.reaches_mixed {call : Call α} (given : 0 < call.actuals.length) :
    call.Reaches Argument.mixed := by
  intro argument index found required
  rcases index with _ | _ | _ | _ | index
  · exact given
  all_goals simp [Argument.mixed] at found
  all_goals simp [← found] at required

def Host.sevens : Host Nat where
  outer _ _ := .other 7
  unset := .undefined
  number _ := .other 7
  bool _ := .other 7
  string _ := .other 7
  truth _ := true
  unary _ value := value
  binary _ left _ := left
  decided? _ _ := none
  function _ values := pure (values.headD .undefined)
  invoke value _ := pure value
  outer_infinity _ := rfl
  decided?_power _ := rfl
  function_power _ _ := rfl

theorem prologue_binds_mixed :
    let call (actuals : List (Value Nat)) : Call Nat := Host.sevens.call actuals
    ∃ script, parse "argument a\nargument b = a\nargument c?\nargument ...d".toList = .ok script ∧
      ∃ commands, Command.ofText? (Script.prologueText script.args) = some commands ∧
      (∃ final, Command.runAll (call [.other 1]) 2 (Memory.start []) commands = some final ∧
        final.values "a" = some (.other 1) ∧ final.values "b" = some (.other 1) ∧
        final.values "c" = some .undefined ∧
        ∃ place, final.values "d" = some (.array place) ∧ final.arrays[place]? = some []) ∧
      ∃ final, Command.runAll (call [.other 1, .other 2, .other 3, .other 4, .other 5]) 6
          (Memory.start []) commands = some final ∧
        final.values "a" = some (.other 1) ∧ final.values "b" = some (.other 2) ∧
        final.values "c" = some (.other 3) ∧
        ∃ place, final.values "d" = some (.array place) ∧
          final.arrays[place]? = some [.other 4, .other 5] := by
  intro call
  obtain ⟨script, accepted, shape⟩ := exists_ok_of_any
    (show (parse "argument a\nargument b = a\nargument c?\nargument ...d".toList).toOption.any
      (fun script => Argument.areMixed script.args) = true by decide +kernel)
  have args := Argument.eq_mixed shape
  have distinct : (script.args.map Argument.name).Nodup := by
    rw [args]
    decide
  have reaches (first : Value Nat) (others : List (Value Nat)) :
      (call (first :: others)).Reaches script.args :=
    args ▸ Call.reaches_mixed (Nat.succ_pos _)
  obtain ⟨commands, few, reads, ranFew, bindsFew⟩ := prologue_binds Host.sevens [.other 1] []
    accepted distinct (args ▸ Argument.apart_mixed) (reaches _ _)
  obtain ⟨_, many, again, ranMany, bindsMany⟩ := prologue_binds Host.sevens
    [.other 1, .other 2, .other 3, .other 4, .other 5] [] accepted distinct
    (args ▸ Argument.apart_mixed) (reaches _ _)
  obtain rfl := Option.some.inj (reads.symm.trans again)
  refine ⟨script, accepted, commands, reads, ⟨few, ranFew 2 (by decide), ?_⟩,
    many, ranMany 6 (by decide), ?_⟩
  · obtain ⟨_, _, _, _, _, _, _, a, _⟩ := bindsFew [] _ _ args
    obtain ⟨_, memory, _, _, _, declared, kept, _, exactly, clear⟩ := bindsFew [_] _ _ args
    obtain ⟨_, _, _, _, _, _, _, c, _⟩ := bindsFew [_, _] _ _ args
    obtain ⟨_, _, _, _, _, _, _, d, _⟩ := bindsFew [_, _, _] _ _ args
    have first : few.values "a" = some (.other 1) := a.actual (by simp) _ rfl
    have b := exactly.mpr fun x isDefault _ => by
      cases isDefault
      exact clear _ rfl (by simp [Expr.names]) (by simp [Expr.addedNames])
    have held : memory.held? "a" = some (some (.other 1)) := by
      have earlier := (kept ⟨"a", .required⟩ (by simp)).trans first
      simp [Memory.held?, declared, isReserved, earlier]
    have second := b.defaulted _ rfl (by simp)
    simp [Host.value, Host.eval, Host.read, held] at second
    obtain ⟨held, arrays⟩ := d.variadic rfl
    exact ⟨first, second, c.optional rfl (by simp), _, held, by simp [arrays]⟩
  · obtain ⟨_, _, _, _, _, _, _, a, _⟩ := bindsMany [] _ _ args
    obtain ⟨_, _, _, _, _, _, _, b, _⟩ := bindsMany [_] _ _ args
    obtain ⟨_, _, _, _, _, _, _, c, _⟩ := bindsMany [_, _] _ _ args
    obtain ⟨_, _, _, _, _, _, _, d, _⟩ := bindsMany [_, _, _] _ _ args
    obtain ⟨held, arrays⟩ := d.variadic rfl
    exact ⟨a.actual (by simp) _ rfl, b.actual (by simp) _ rfl, c.actual (by simp) _ rfl, _, held,
      by simp [arrays]⟩

/-- A default that is the name of its own argument does not come to what the name stands for
outside. -/
theorem prologue_default_names_itself :
    ∃ script commands final, parse "argument hp = hp\n".toList = .ok script ∧
      (script.args.map Argument.name).Nodup ∧
      Command.ofText? (Script.prologueText script.args) = some commands ∧
      Command.runAll (Host.sevens.call []) 1 (Memory.start []) commands = some final ∧
      final.values "hp" = some .undefined ∧
      Host.sevens.value [] (Memory.start []) (.ident "hp") = .other 7 := by
  obtain ⟨script, read, checked⟩ := exists_ok_of_any
    (show (parse "argument hp = hp\n".toList).toOption.any (fun script =>
      (script.args.map Argument.name).Nodup &&
        (Command.ofText? (Script.prologueText script.args)).any fun commands =>
          (Command.runAll (Host.sevens.call []) 1 (Memory.start []) commands).any fun final =>
            final.values "hp" = some .undefined) = true by decide +kernel)
  simp only [Bool.and_eq_true, decide_eq_true_eq, Option.any_eq_true] at checked
  obtain ⟨distinct, commands, reads, final, ran, lost⟩ := checked
  exact ⟨script, commands, final, read, distinct, reads, ran, lost, rfl⟩

-- An infinite number is written as a name, which stands for an argument of that name.
example : ((parse "argument infinity\nargument x = 1e999".toList).toOption.bind fun script =>
    (Command.ofText? (Script.prologueText script.args)).bind fun commands =>
      (Command.runAll (Host.sevens.call [.other 1]) 2 (Memory.start []) commands).bind fun final =>
        final.values "x") = some (.other 1) := by
  decide +kernel

end GameScript
