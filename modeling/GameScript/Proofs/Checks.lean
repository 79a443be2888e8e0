import GameScript.Proofs.Navigation

/-!
What the structural checks report. The walk through a script keeps two flags for each list; without
flags, an issue belongs to the node it is found at. Main statements: each fault is reported once, at
the path that leads to it, and leaving out a check leaves out its issues only.
-/

namespace GameScript

def Stmt.deadAt (statements : List Stmt) (index : Nat) : Bool :=
  (statements[index]?).any (fun statement => !statement.isIdle) &&
    (statements.take index).any Stmt.jumps

def Stmt.FirstDead (statements : List Stmt) (index : Nat) : Prop :=
  deadAt statements index = true ∧ ∀ earlier < index, deadAt statements earlier = false

instance (statements : List Stmt) (index : Nat) : Decidable (Stmt.FirstDead statements index) :=
  inferInstanceAs (Decidable (_ ∧ _))

def Stmt.isEmptyLoop : Stmt → Bool
  | loop _ _ body | repeats _ body | forLoop _ _ _ body => body.isNoop
  | _ => false

namespace Node

def issues (options : CheckOptions) (location : Location) : Node → List Issue
  | list statements => Stmt.listIssues options location 0 false false statements
  | statement inner => inner.issues options location

/-- The issue of the node itself that is reported before those of the part behind a step. -/
def issueBefore (options : CheckOptions) (location : Location) : Node → LocationStep → List Issue
  | list statements, .item index =>
      if !options.skipUnreachable && Stmt.FirstDead statements index then
        [⟨.unreachable, location.below (.item index)⟩] else []
  | list _, _ => []
  | statement inner, _ =>
      if !options.skipEmptyLoop && inner.isEmptyLoop then [⟨.emptyLoop, location⟩] else []

end Node

namespace Stmt

theorem deadAt_length (earlier rest : List Stmt) (first : Stmt) :
    deadAt (earlier ++ first :: rest) earlier.length = (!first.isIdle && earlier.any jumps) := by
  simp [deadAt]

theorem FirstDead.exists_getElem? {statements : List Stmt} {index : Nat}
    (dead : FirstDead statements index) : ∃ inner, statements[index]? = some inner := by
  have found := dead.1
  simp only [deadAt, Bool.and_eq_true, Option.any_eq_true] at found
  obtain ⟨⟨inner, shape, _⟩, _⟩ := found
  exact ⟨inner, shape⟩

/-- The flags of the walk: whether a jump came before, and whether a statement that is never reached
did. The second one is not kept where the check is left out. -/
structure WalkFlags (options : CheckOptions) (earlier rest : List Stmt) (dead reported : Bool) :
    Prop where
  dead_eq : dead = earlier.any jumps
  reported_iff : options.skipUnreachable = false →
    (reported = true ↔ ∃ index < earlier.length, deadAt (earlier ++ rest) index = true)

namespace WalkFlags

variable {options : CheckOptions} {earlier rest : List Stmt} {first : Stmt} {dead reported : Bool}

theorem found_iff (flags : WalkFlags options earlier (first :: rest) dead reported) :
    (dead && !reported && !options.skipUnreachable && !first.isIdle) = true ↔
      (!options.skipUnreachable && FirstDead (earlier ++ first :: rest) earlier.length) = true := by
  cases skip : options.skipUnreachable with
  | true => simp
  | false =>
      have none : reported = false ↔
          ∀ index < earlier.length, deadAt (earlier ++ first :: rest) index = false := by
        rw [← Bool.not_eq_true, flags.reported_iff skip]
        simp
      simp only [FirstDead, deadAt_length, flags.dead_eq, ← none, Bool.not_false, Bool.and_true,
        Bool.true_and, Bool.and_eq_true, Bool.not_eq_true', decide_eq_true_eq]
      tauto

theorem step (flags : WalkFlags options earlier (first :: rest) dead reported) :
    WalkFlags options (earlier ++ [first]) rest (dead || first.jumps)
      (reported || (dead && !reported && !options.skipUnreachable && !first.isIdle)) := by
  refine ⟨by simp [flags.dead_eq], ?_⟩
  intro skip
  have found := flags.found_iff
  have earlierFound := flags.reported_iff skip
  simp only [skip, Bool.not_false, Bool.true_and, decide_eq_true_eq] at found
  rw [Bool.or_eq_true, skip, Bool.not_false, found, earlierFound]
  simp only [List.append_assoc, List.singleton_append, List.length_append, List.length_singleton]
  constructor
  · rintro (⟨index, below, isDead⟩ | ⟨isDead, _⟩)
    · exact ⟨index, by omega, isDead⟩
    · exact ⟨earlier.length, by omega, isDead⟩
  · rintro ⟨index, below, isDead⟩
    by_cases early : ∃ other < earlier.length, deadAt (earlier ++ first :: rest) other = true
    · exact Or.inl early
    · have last : index = earlier.length := by
        by_contra different
        exact early ⟨index, by omega, isDead⟩
      refine Or.inr ⟨last ▸ isDead, ?_⟩
      intro other before
      by_contra isDead
      exact early ⟨other, before, by simpa using isDead⟩

end WalkFlags

theorem listIssues_eq {options : CheckOptions} {location : Location} {earlier rest : List Stmt}
    {dead reported : Bool} (flags : WalkFlags options earlier rest dead reported) :
    listIssues options location earlier.length dead reported rest =
      (rest.zipIdx earlier.length).flatMap fun (inner, index) =>
        (Node.list (earlier ++ rest)).issueBefore options location (.item index) ++
          inner.issues options (location.below (.item index)) := by
  induction rest generalizing earlier dead reported with
  | nil => simp [listIssues]
  | cons first rest ih =>
      have later := ih flags.step
      simp only [List.length_append, List.length_singleton, List.append_assoc,
        List.singleton_append] at later
      simp only [listIssues, List.zipIdx_cons, List.flatMap_cons, later, Node.issueBefore,
        flags.found_iff]

end Stmt

namespace Node

theorem issues_eq (options : CheckOptions) (location : Location) (node : Node) :
    node.issues options location =
      node.parts.flatMap fun (step, part) =>
        node.issueBefore options location step ++ part.issues options (location.below step) := by
  cases node with
  | list statements =>
      have flags : Stmt.WalkFlags options [] statements false false := ⟨rfl, by simp⟩
      have walk : (list statements).issues options location = _ := Stmt.listIssues_eq flags
      rw [walk, parts, List.flatMap_map]
      rfl
  | statement inner =>
      cases inner with
      | loop | repeats | forLoop =>
          simp [parts, issues, issueBefore, Stmt.issues, Stmt.emptyLoopIssues, Stmt.isEmptyLoop,
            Bool.and_comm]
      | _ => simp [parts, issues, issueBefore, Stmt.issues, Stmt.isEmptyLoop]

end Node

/-! Checks that are left out. -/

def CheckOptions.keeps (options : CheckOptions) (issue : Issue) : Bool :=
  !(options.skipUnreachable && issue.fault.code = "unreachable") &&
    !(options.skipEmptyLoop && issue.fault.code = "empty_loop")

namespace Node

theorem issueBefore_filter (options : CheckOptions) (location : Location) (node : Node)
    (step : LocationStep) :
    node.issueBefore options location step =
      (node.issueBefore {} location step).filter options.keeps := by
  have unreachable (place : Location) :
      options.keeps ⟨.unreachable, place⟩ = !options.skipUnreachable := by
    simp [CheckOptions.keeps, Fault.code]
  have emptyLoop (place : Location) :
      options.keeps ⟨.emptyLoop, place⟩ = !options.skipEmptyLoop := by
    simp [CheckOptions.keeps, Fault.code]
  cases node with
  | list statements =>
      cases step with
      | item index =>
          by_cases dead : Stmt.FirstDead statements index
          · cases skip : options.skipUnreachable <;>
              simp [issueBefore, dead, skip, unreachable]
          · simp [issueBefore, dead]
      | body | otherwise => rfl
  | statement inner =>
      by_cases empty : inner.isEmptyLoop = true
      · cases skip : options.skipEmptyLoop <;> simp [issueBefore, empty, skip, emptyLoop]
      · simp [issueBefore, empty]

theorem issues_filter (options : CheckOptions) (location : Location) (node : Node) :
    node.issues options location = (node.issues {} location).filter options.keeps := by
  induction node using ofParts generalizing location with
  | whole node ih =>
      rw [issues_eq options, issues_eq {}, List.filter_flatMap]
      apply List.flatMap_congr
      rintro ⟨step, part⟩ isPart
      rw [List.filter_append, ← issueBefore_filter, ← ih step part isPart]

end Node

/-! Issues of arguments. -/

def Fault.argument? : Fault → Option String
  | duplicateArgument name | argumentOrder name => some name
  | _ => none

theorem Fault.eq_of_code {first second : Fault} (sameCode : first.code = second.code)
    (sameArgument : first.argument? = second.argument?) : first = second := by
  cases first <;> cases second <;> simp_all [code, argument?]

namespace Argument

theorem mem_issues_iff {earlier : List Argument} {index : Nat} {argument : Argument}
    {issue : Issue} :
    issue ∈ argument.issues earlier index ↔
      issue.location = Location.argument index ∧
        (issue.fault = .duplicateArgument argument.name ∧
            (∃ other ∈ earlier, other.name = argument.name) ∨
          issue.fault = .argumentOrder argument.name ∧ argument.isRequired = true ∧
            ∃ other ∈ earlier, other.mayBeLeftOut = true) := by
  obtain ⟨fault, location⟩ := issue
  by_cases twice : ∃ other ∈ earlier, other.name = argument.name
  · by_cases late : argument.isRequired = true ∧ ∃ other ∈ earlier, other.mayBeLeftOut = true
    · simp [issues, twice, late]
      tauto
    · simp [issues, twice, late]
      tauto
  · by_cases late : argument.isRequired = true ∧ ∃ other ∈ earlier, other.mayBeLeftOut = true
    · simp [issues, twice, late]
      tauto
    · simp [issues, twice, late]

theorem mem_listIssues_iff {earlier args : List Argument} {issue : Issue} :
    issue ∈ listIssues earlier args ↔
      ∃ (index : Nat) (argument : Argument), args[index]? = some argument ∧
        issue ∈ argument.issues (earlier ++ args.take index) (earlier.length + index) := by
  induction args generalizing earlier with
  | nil => simp [listIssues]
  | cons first rest ih =>
      rw [listIssues, List.mem_append, ih]
      constructor
      · rintro (here | ⟨index, argument, found, member⟩)
        · exact ⟨0, first, rfl, by simpa using here⟩
        · refine ⟨index + 1, argument, found, ?_⟩
          simpa [Nat.add_assoc, Nat.add_comm 1] using member
      · rintro ⟨index, argument, found, member⟩
        cases index with
        | zero =>
            obtain rfl : first = argument := by simpa using found
            exact Or.inl (by simpa using member)
        | succ index =>
            refine Or.inr ⟨index, argument, found, ?_⟩
            simpa [Nat.add_assoc, Nat.add_comm 1] using member

theorem issues_nodup (earlier : List Argument) (index : Nat) (argument : Argument) :
    (argument.issues earlier index).Nodup := by
  unfold issues
  split <;> split <;> simp

theorem listIssues_nodup (earlier args : List Argument) : (listIssues earlier args).Nodup := by
  induction args generalizing earlier with
  | nil => exact List.nodup_nil
  | cons first rest ih =>
      refine (issues_nodup earlier earlier.length first).append (ih (earlier ++ [first])) ?_
      intro issue here there
      obtain ⟨index, argument, _, member⟩ := mem_listIssues_iff.mp there
      have location := (mem_issues_iff.mp here).1
      rw [(mem_issues_iff.mp member).1] at location
      simp [Location.argument] at location
      omega

theorem code_of_mem {earlier args : List Argument} {issue : Issue}
    (member : issue ∈ listIssues earlier args) :
    issue.fault.code = "duplicate_argument" ∨ issue.fault.code = "argument_order" := by
  obtain ⟨index, argument, _, here⟩ := mem_listIssues_iff.mp member
  rcases (mem_issues_iff.mp here).2 with ⟨fault, _⟩ | ⟨fault, _⟩
  · exact Or.inl (by rw [fault]; rfl)
  · exact Or.inr (by rw [fault]; rfl)

theorem keeps_of_mem {options : CheckOptions} {earlier args : List Argument} {issue : Issue}
    (member : issue ∈ listIssues earlier args) : options.keeps issue = true := by
  rcases code_of_mem member with code | code <;> simp [CheckOptions.keeps, code]

end Argument

/-- Leaving out a check leaves out its issues, and the others stay in their order. -/
theorem left_out_checks_filter (options : CheckOptions) (script : Script) :
    script.issues options = (script.issues {}).filter options.keeps := by
  have args : (Argument.listIssues [] script.args).filter options.keeps =
      Argument.listIssues [] script.args :=
    List.filter_eq_self.mpr fun issue member => Argument.keeps_of_mem member
  have body := Node.issues_filter options Location.scriptBody (.list script.body)
  rw [Script.issues, Script.issues, List.filter_append, args]
  exact congrArg _ body

/-! Where issues are found. -/

namespace Node

theorem mem_issueBefore_iff {options : CheckOptions} {location : Location} {node : Node}
    {step : LocationStep} {issue : Issue} :
    issue ∈ node.issueBefore options location step ↔
      (∃ statements index, node = .list statements ∧ step = .item index ∧
        options.skipUnreachable = false ∧ Stmt.FirstDead statements index ∧
        issue = ⟨.unreachable, location.below (.item index)⟩) ∨
      (∃ inner, node = .statement inner ∧ options.skipEmptyLoop = false ∧
        inner.isEmptyLoop = true ∧ issue = ⟨.emptyLoop, location⟩) := by
  cases node with
  | list statements =>
      cases step with
      | item index => simp [issueBefore, and_assoc]
      | body | otherwise => simp [issueBefore]
  | statement inner => simp [issueBefore, and_assoc]

theorem mem_issues_iff {options : CheckOptions} {location : Location} {node : Node}
    {issue : Issue} :
    issue ∈ node.issues options location ↔
      ∃ step part, (step, part) ∈ node.parts ∧
        (issue ∈ node.issueBefore options location step ∨
          issue ∈ part.issues options (location.below step)) := by
  rw [issues_eq, List.mem_flatMap]
  simp

theorem location_of_mem {options : CheckOptions} {location : Location} {node : Node} {issue : Issue}
    (member : issue ∈ node.issues options location) :
    ∃ steps, issue.location = ⟨location.inArgs, location.steps ++ steps⟩ ∧
      (steps = [] → issue.fault = .emptyLoop) := by
  induction node using ofParts generalizing location with
  | whole node ih =>
      obtain ⟨step, part, isPart, own | inside⟩ := mem_issues_iff.mp member
      · rcases mem_issueBefore_iff.mp own with ⟨_, index, _, _, _, _, rfl⟩ | ⟨_, _, _, _, rfl⟩
        · exact ⟨[.item index], rfl, by simp⟩
        · exact ⟨[], by simp, fun _ => rfl⟩
      · obtain ⟨steps, found, _⟩ := ih step part isPart inside
        exact ⟨step :: steps, by simpa [Location.below] using found, by simp⟩

theorem step_of_isEmptyLoop {inner : Stmt} {step : LocationStep} {part : Node}
    (empty : inner.isEmptyLoop = true) (isPart : (step, part) ∈ (statement inner).parts) :
    step = .body := by
  cases inner with
  | loop | repeats | forLoop =>
      simp only [parts, List.mem_singleton, Prod.mk.injEq] at isPart
      exact isPart.1
  | _ => simp [Stmt.isEmptyLoop] at empty

theorem exists_part_of_isEmptyLoop {inner : Stmt} (empty : inner.isEmptyLoop = true) :
    ∃ part, (.body, part) ∈ (statement inner).parts := by
  cases inner with
  | loop | repeats | forLoop => exact ⟨_, List.mem_singleton_self _⟩
  | _ => simp [Stmt.isEmptyLoop] at empty

theorem issueBefore_nodup (options : CheckOptions) (location : Location) (node : Node)
    (step : LocationStep) : (node.issueBefore options location step).Nodup := by
  unfold issueBefore
  split
  · split <;> simp
  · simp
  · split <;> simp

theorem location_of_part {options : CheckOptions} {location : Location} {node part : Node}
    {step : LocationStep} {issue : Issue} (isPart : (step, part) ∈ node.parts)
    (member : issue ∈ node.issueBefore options location step ++
      part.issues options (location.below step)) :
    (∃ steps, issue.location = ⟨location.inArgs, location.steps ++ step :: steps⟩) ∨
      step = .body ∧ issue.location = location := by
  rcases List.mem_append.mp member with own | inside
  · rcases mem_issueBefore_iff.mp own with ⟨_, index, _, rfl, _, _, rfl⟩ | ⟨_, rfl, _, empty, rfl⟩
    · exact Or.inl ⟨[], rfl⟩
    · exact Or.inr ⟨step_of_isEmptyLoop empty isPart, rfl⟩
  · obtain ⟨steps, found, _⟩ := location_of_mem inside
    exact Or.inl ⟨steps, by simpa [Location.below] using found⟩

theorem issues_nodup (options : CheckOptions) (location : Location) (node : Node) :
    (node.issues options location).Nodup := by
  induction node using ofParts generalizing location with
  | whole node ih =>
      rw [issues_eq, List.nodup_flatMap]
      constructor
      · rintro ⟨step, part⟩ isPart
        refine (issueBefore_nodup options location node step).append (ih step part isPart _) ?_
        intro issue own inside
        obtain ⟨steps, found, atNode⟩ := location_of_mem inside
        rcases mem_issueBefore_iff.mp own with ⟨_, index, _, rfl, _, _, rfl⟩ | ⟨_, _, _, _, rfl⟩
        · have same : steps = [] := by simpa [Location.below] using found
          simpa using atNode same
        · have longer := congrArg (List.length ∘ Location.steps) found
          simp [Location.below] at longer
      · have apart : node.parts.Pairwise fun first second => first.1 ≠ second.1 :=
          List.pairwise_map.mp node.steps_nodup
        refine apart.imp_of_mem ?_
        rintro ⟨step, part⟩ ⟨otherStep, otherPart⟩ isPart isOther different issue here there
        rcases location_of_part isPart here with ⟨steps, found⟩ | ⟨isBody, found⟩
        · rcases location_of_part isOther there with ⟨others, otherwise⟩ | ⟨_, otherwise⟩
          · have same : step = otherStep ∧ steps = others := by
              simpa using found.symm.trans otherwise
            exact different same.1
          · have longer := congrArg (List.length ∘ Location.steps) (found.symm.trans otherwise)
            simp at longer
        · rcases location_of_part isOther there with ⟨others, otherwise⟩ | ⟨otherBody, _⟩
          · have longer := congrArg (List.length ∘ Location.steps) (found.symm.trans otherwise)
            simp at longer
          · exact different (isBody.trans otherBody.symm)

end Node

namespace Script

theorem Leads.mem_issues {script : Script} {path : String} {node : Node}
    (leads : script.Leads path node) :
    ∃ location : Location, location.text = path ∧
      ∀ issue ∈ node.issues {} location, issue ∈ (Node.list script.body).issues {} .scriptBody := by
  induction leads with
  | body => exact ⟨Location.scriptBody, by decide, fun issue member => member⟩
  | @step _ _ part step _ isPart ih =>
      obtain ⟨location, rfl, all⟩ := ih
      refine ⟨location.below step, location.text_below step, ?_⟩
      intro issue member
      exact all issue (Node.mem_issues_iff.mpr ⟨step, part, isPart, Or.inr member⟩)

theorem exists_owner {script : Script} {location : Location} {node : Node} {issue : Issue}
    (leads : script.Leads location.text node) (member : issue ∈ node.issues {} location) :
    ∃ place owner step part, script.Leads (Location.text place) owner ∧
      (step, part) ∈ owner.parts ∧ issue ∈ owner.issueBefore {} place step := by
  induction node using Node.ofParts generalizing location with
  | whole node ih =>
      obtain ⟨step, part, isPart, own | inside⟩ := Node.mem_issues_iff.mp member
      · exact ⟨location, node, step, part, leads, isPart, own⟩
      · have further : script.Leads (location.below step).text part := by
          rw [location.text_below]
          exact leads.step isPart
        exact ih step part isPart further inside

theorem mem_bodyIssues_iff {script : Script} {issue : Issue} :
    issue ∈ (Node.list script.body).issues {} .scriptBody ↔
      ∃ place owner step part, script.Leads (Location.text place) owner ∧
        (step, part) ∈ owner.parts ∧ issue ∈ owner.issueBefore {} place step := by
  constructor
  · intro member
    exact exists_owner .body member
  · rintro ⟨place, owner, step, part, leads, isPart, own⟩
    obtain ⟨location, same, all⟩ := leads.mem_issues
    obtain rfl := Location.text_injective same
    exact all issue (Node.mem_issues_iff.mpr ⟨step, part, isPart, Or.inl own⟩)

theorem fault_of_mem {script : Script} {issue : Issue}
    (member : issue ∈ (Node.list script.body).issues {} .scriptBody) :
    issue.fault = .unreachable ∨ issue.fault = .emptyLoop := by
  obtain ⟨_, _, _, _, _, _, own⟩ := mem_bodyIssues_iff.mp member
  rcases Node.mem_issueBefore_iff.mp own with ⟨_, _, _, _, _, _, rfl⟩ | ⟨_, _, _, _, rfl⟩
  · exact Or.inl rfl
  · exact Or.inr rfl

/-- An issue with the code is reported at the path. -/
def Reports (script : Script) (code path : String) : Prop :=
  ∃ issue ∈ script.issues {}, issue.fault.code = code ∧ issue.location.text = path

theorem mem_issues_iff {script : Script} {issue : Issue} :
    issue ∈ script.issues {} ↔
      issue ∈ Argument.listIssues [] script.args ∨
        issue ∈ (Node.list script.body).issues {} .scriptBody := by
  rw [issues, List.mem_append]
  rfl

theorem mem_bodyIssues_of_code {script : Script} {issue : Issue} (member : issue ∈ script.issues {})
    (code : issue.fault.code ≠ "duplicate_argument" ∧ issue.fault.code ≠ "argument_order") :
    issue ∈ (Node.list script.body).issues {} .scriptBody := by
  rcases mem_issues_iff.mp member with inArgs | inBody
  · rcases Argument.code_of_mem inArgs with twice | late
    · exact absurd twice code.1
    · exact absurd late code.2
  · exact inBody

theorem reports_of_own {script : Script} {location : Location} {owner part : Node}
    {step : LocationStep} {issue : Issue} (leads : script.Leads location.text owner)
    (isPart : (step, part) ∈ owner.parts) (own : issue ∈ owner.issueBefore {} location step) :
    script.Reports issue.fault.code issue.location.text := by
  have inBody := mem_bodyIssues_iff.mpr ⟨location, owner, step, part, leads, isPart, own⟩
  exact ⟨issue, mem_issues_iff.mpr (Or.inr inBody), rfl, rfl⟩

theorem reports_unreachable_iff {script : Script} {path : String} :
    script.Reports "unreachable" path ↔
      ∃ place statements index, script.Leads place (.list statements) ∧
        Stmt.FirstDead statements index ∧ path = place ++ (LocationStep.item index).text := by
  constructor
  · rintro ⟨issue, member, code, rfl⟩
    obtain ⟨place, owner, step, part, leads, _, own⟩ :=
      mem_bodyIssues_iff.mp (mem_bodyIssues_of_code member (by rw [code]; decide))
    rcases Node.mem_issueBefore_iff.mp own with
      ⟨statements, index, rfl, rfl, _, dead, rfl⟩ | ⟨_, _, _, _, rfl⟩
    · exact ⟨place.text, statements, index, leads, dead, place.text_below _⟩
    · simp [Fault.code] at code
  · rintro ⟨place, statements, index, leads, dead, rfl⟩
    obtain ⟨location, _, rfl⟩ := leads.exists_location
    obtain ⟨inner, found⟩ := dead.exists_getElem?
    have isPart := Node.mem_parts_list.mpr ⟨index, inner, found, rfl, rfl⟩
    have own : ⟨.unreachable, location.below (.item index)⟩ ∈
        (Node.list statements).issueBefore {} location (.item index) :=
      Node.mem_issueBefore_iff.mpr (Or.inl ⟨statements, index, rfl, rfl, rfl, dead, rfl⟩)
    rw [← location.text_below]
    exact reports_of_own leads isPart own

theorem reports_emptyLoop_iff {script : Script} {path : String} :
    script.Reports "empty_loop" path ↔
      ∃ inner, script.Leads path (.statement inner) ∧ inner.isEmptyLoop = true := by
  constructor
  · rintro ⟨issue, member, code, rfl⟩
    obtain ⟨place, owner, step, part, leads, _, own⟩ :=
      mem_bodyIssues_iff.mp (mem_bodyIssues_of_code member (by rw [code]; decide))
    rcases Node.mem_issueBefore_iff.mp own with
      ⟨_, _, _, _, _, _, rfl⟩ | ⟨inner, rfl, _, empty, rfl⟩
    · simp [Fault.code] at code
    · exact ⟨inner, leads, empty⟩
  · rintro ⟨inner, leads, empty⟩
    obtain ⟨location, _, rfl⟩ := leads.exists_location
    obtain ⟨part, isPart⟩ := Node.exists_part_of_isEmptyLoop empty
    have own : ⟨.emptyLoop, location⟩ ∈ (Node.statement inner).issueBefore {} location .body :=
      Node.mem_issueBefore_iff.mpr (Or.inr ⟨inner, rfl, rfl, empty, rfl⟩)
    exact reports_of_own leads isPart own

theorem reports_argument_iff {script : Script} {code path : String} {wrong : Nat → Argument → Prop}
    (bodyCode : code ≠ "unreachable" ∧ code ≠ "empty_loop")
    (argumentCode : ∀ index argument, wrong index argument ↔
      ∃ issue ∈ argument.issues (script.args.take index) index, issue.fault.code = code) :
    script.Reports code path ↔
      ∃ (index : Nat) (argument : Argument), script.args[index]? = some argument ∧
        wrong index argument ∧ path = "args" ++ (LocationStep.item index).text := by
  have written (index : Nat) :
      (Location.argument index).text = "args" ++ (LocationStep.item index).text :=
    Location.text_below ⟨true, []⟩ (.item index)
  constructor
  · rintro ⟨issue, member, sameCode, rfl⟩
    rcases mem_issues_iff.mp member with inArgs | inBody
    · obtain ⟨index, argument, found, here⟩ := Argument.mem_listIssues_iff.mp inArgs
      rw [List.nil_append, List.length_nil, Nat.zero_add] at here
      refine ⟨index, argument, found, (argumentCode _ _).mpr ⟨issue, here, sameCode⟩, ?_⟩
      rw [(Argument.mem_issues_iff.mp here).1, written]
    · rcases fault_of_mem inBody with fault | fault <;> rw [fault] at sameCode
      · exact absurd sameCode.symm bodyCode.1
      · exact absurd sameCode.symm bodyCode.2
  · rintro ⟨index, argument, found, isWrong, rfl⟩
    obtain ⟨issue, here, sameCode⟩ := (argumentCode _ _).mp isWrong
    have inArgs : issue ∈ Argument.listIssues [] script.args := by
      refine Argument.mem_listIssues_iff.mpr ⟨index, argument, found, ?_⟩
      rwa [List.nil_append, List.length_nil, Nat.zero_add]
    refine ⟨issue, mem_issues_iff.mpr (Or.inl inArgs), sameCode, ?_⟩
    rw [(Argument.mem_issues_iff.mp here).1, written]

theorem issues_nodup (script : Script) : (script.issues {}).Nodup := by
  refine (Argument.listIssues_nodup [] script.args).append
    (Node.issues_nodup {} .scriptBody (.list script.body)) ?_
  intro issue inArgs inBody
  have inNode : issue ∈ (Node.list script.body).issues {} .scriptBody := inBody
  obtain ⟨_, _, _, here⟩ := Argument.mem_listIssues_iff.mp inArgs
  obtain ⟨_, found, _⟩ := Node.location_of_mem inNode
  rw [(Argument.mem_issues_iff.mp here).1] at found
  simp [Location.argument, Location.scriptBody] at found

def argumentAt? (script : Script) (location : Location) : Option String :=
  match location with
  | ⟨true, [.item index]⟩ => (script.args[index]?).map Argument.name
  | _ => none

theorem argument?_of_mem {script : Script} {issue : Issue} (member : issue ∈ script.issues {}) :
    issue.fault.argument? = script.argumentAt? issue.location := by
  rcases mem_issues_iff.mp member with inArgs | inBody
  · obtain ⟨index, argument, found, here⟩ := Argument.mem_listIssues_iff.mp inArgs
    obtain ⟨place, wrong⟩ := Argument.mem_issues_iff.mp here
    have named : script.argumentAt? issue.location = some argument.name := by
      simp [place, argumentAt?, Location.argument, found]
    rcases wrong with ⟨fault, _⟩ | ⟨fault, _⟩ <;> rw [named, fault] <;> rfl
  · obtain ⟨steps, place, _⟩ := Node.location_of_mem inBody
    have unnamed : script.argumentAt? issue.location = none := by
      simp [place, argumentAt?, Location.scriptBody]
    rcases fault_of_mem inBody with fault | fault <;> rw [unnamed, fault] <;> rfl

theorem issue_eq_of_key {script : Script} {first second : Issue}
    (isFirst : first ∈ script.issues {}) (isSecond : second ∈ script.issues {})
    (sameCode : first.fault.code = second.fault.code)
    (samePlace : first.location = second.location) : first = second := by
  have sameArgument : first.fault.argument? = second.fault.argument? := by
    rw [argument?_of_mem isFirst, argument?_of_mem isSecond, samePlace]
  have sameFault := Fault.eq_of_code sameCode sameArgument
  cases first
  cases second
  simp_all

end Script

/-- The structural checks find each fault once, at the path that leads to it: the first statement of
a list that stands behind a jump, a loop that has nothing to repeat, an argument that has the name
of an earlier one, and a required argument behind one that may be left out. -/
theorem issues_found_exactly (script : Script) :
    (∀ path, script.Reports "unreachable" path ↔
      ∃ place statements index, script.Leads place (.list statements) ∧
        Stmt.FirstDead statements index ∧ path = place ++ (LocationStep.item index).text) ∧
    (∀ path, script.Reports "empty_loop" path ↔
      ∃ inner, script.Leads path (.statement inner) ∧ inner.isEmptyLoop = true) ∧
    (∀ path, script.Reports "duplicate_argument" path ↔
      ∃ (index : Nat) (argument : Argument), script.args[index]? = some argument ∧
        (∃ earlier ∈ script.args.take index, earlier.name = argument.name) ∧
        path = "args" ++ (LocationStep.item index).text) ∧
    (∀ path, script.Reports "argument_order" path ↔
      ∃ (index : Nat) (argument : Argument), script.args[index]? = some argument ∧
        (argument.isRequired = true ∧
          ∃ earlier ∈ script.args.take index, earlier.mayBeLeftOut = true) ∧
        path = "args" ++ (LocationStep.item index).text) ∧
    (∀ path first second, script.Leads path first → script.Leads path second → first = second) ∧
    ((script.issues {}).map fun issue => (issue.fault.code, issue.location.text)).Nodup := by
  refine ⟨fun path => Script.reports_unreachable_iff, fun path => Script.reports_emptyLoop_iff,
    fun path => ?_, fun path => ?_, fun path first second leads otherwise => leads.unique otherwise,
    ?_⟩
  · apply Script.reports_argument_iff (by decide)
    intro index argument
    constructor
    · intro twice
      exact ⟨⟨.duplicateArgument argument.name, .argument index⟩,
        Argument.mem_issues_iff.mpr ⟨rfl, Or.inl ⟨rfl, twice⟩⟩, rfl⟩
    · rintro ⟨issue, member, code⟩
      rcases (Argument.mem_issues_iff.mp member).2 with ⟨_, twice⟩ | ⟨fault, _⟩
      · exact twice
      · simp [fault, Fault.code] at code
  · apply Script.reports_argument_iff (by decide)
    intro index argument
    constructor
    · intro late
      exact ⟨⟨.argumentOrder argument.name, .argument index⟩,
        Argument.mem_issues_iff.mpr ⟨rfl, Or.inr ⟨rfl, late⟩⟩, rfl⟩
    · rintro ⟨issue, member, code⟩
      rcases (Argument.mem_issues_iff.mp member).2 with ⟨fault, _⟩ | ⟨_, late⟩
      · simp [fault, Fault.code] at code
      · exact late
  · refine List.Nodup.map_on ?_ script.issues_nodup
    intro first isFirst second isSecond same
    have keys := Prod.mk.inj same
    exact Script.issue_eq_of_key isFirst isSecond keys.1 (Location.text_injective keys.2)

end GameScript
