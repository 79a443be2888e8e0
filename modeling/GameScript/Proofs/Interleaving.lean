import GameScript.Batch
import Mathlib.Data.List.Basic

/-!
Batches whose entries take their steps in any order. An entry looks whether the batch has been
cancelled, then reads and compiles its source, then writes the compiled file. No entry writes what
another one reads, so each result is that of compiling the file alone.
-/

namespace GameScript

variable {σ : Type}

inductive Batch.Progress where
  | waiting
  | started
  | ready (file : Pending)
  | finished (outcome : Except FileFailure String)

structure Batch.Entry where
  source : String
  progress : Batch.Progress

structure Batch (σ : Type) where
  files : σ
  cancelled : Bool
  entries : List Batch.Entry
  writes : List (Nat × Pending)

inductive Batch.Action where
  | cancel
  | advance (index : Nat)
deriving DecidableEq

def BatchResult.output (result : BatchResult) : String :=
  match result.outcome with
  | .ok path => path
  | .error _ => ""

namespace Batch

def start (files : σ) (paths : List String) : Batch σ :=
  ⟨files, false, paths.map (⟨·, .waiting⟩), []⟩

def move (batch : Batch σ) (index : Nat) (source : String) (progress : Progress) : Batch σ :=
  { batch with entries := batch.entries.set index ⟨source, progress⟩ }

/-- One step of an entry. An entry that is finished takes no more steps. -/
def advance (access : FileAccess σ) (style : Style) (batch : Batch σ) (index : Nat) : Batch σ :=
  match batch.entries[index]? with
  | none => batch
  | some ⟨source, .waiting⟩ =>
      batch.move index source
        (if batch.cancelled then .finished (.error .cancelled) else .started)
  | some ⟨source, .started⟩ =>
      match prepareFile access style batch.files source with
      | .error reason => batch.move index source (.finished (.error reason))
      | .ok file => batch.move index source (.ready file)
  | some ⟨source, .ready file⟩ =>
      match access.write batch.files file.path file.content with
      | .error reason => batch.move index source (.finished (.error (.file reason)))
      | .ok after =>
          { batch.move index source (.finished (.ok file.path)) with
            files := after
            writes := batch.writes ++ [(index, file)] }
  | some ⟨_, .finished _⟩ => batch

def act (access : FileAccess σ) (style : Style) (batch : Batch σ) : Action → Batch σ
  | .cancel => { batch with cancelled := true }
  | .advance index => batch.advance access style index

def run (access : FileAccess σ) (style : Style) (batch : Batch σ) (schedule : List Action) :
    Batch σ :=
  schedule.foldl (act access style) batch

def Entry.result? : Entry → Option BatchResult
  | ⟨source, .finished outcome⟩ => some ⟨source, outcome⟩
  | _ => none

def results (batch : Batch σ) : List BatchResult :=
  batch.entries.filterMap Entry.result?

def Over (batch : Batch σ) : Prop :=
  ∀ entry ∈ batch.entries, entry.result?.isSome = true

/-! What one step can do. -/

inductive Moves (access : FileAccess σ) (style : Style) (batch : Batch σ) (index : Nat) :
    Batch σ → Prop where
  | idle (isOver : ∀ entry, batch.entries[index]? = some entry → entry.result?.isSome = true) :
      Moves access style batch index batch
  | stop {source : String} (here : batch.entries[index]? = some ⟨source, .waiting⟩)
      (cancelled : batch.cancelled = true) :
      Moves access style batch index (batch.move index source (.finished (.error .cancelled)))
  | go {source : String} (here : batch.entries[index]? = some ⟨source, .waiting⟩)
      (running : batch.cancelled = false) :
      Moves access style batch index (batch.move index source .started)
  | fail {source : String} {reason : FileFailure}
      (here : batch.entries[index]? = some ⟨source, .started⟩)
      (fails : prepareFile access style batch.files source = .error reason) :
      Moves access style batch index (batch.move index source (.finished (.error reason)))
  | prepare {source : String} {file : Pending}
      (here : batch.entries[index]? = some ⟨source, .started⟩)
      (prepared : prepareFile access style batch.files source = .ok file) :
      Moves access style batch index (batch.move index source (.ready file))
  | refuse {source : String} {file : Pending} {reason : FileError}
      (here : batch.entries[index]? = some ⟨source, .ready file⟩)
      (refused : access.write batch.files file.path file.content = .error reason) :
      Moves access style batch index (batch.move index source (.finished (.error (.file reason))))
  | write {source : String} {file : Pending} {after : σ}
      (here : batch.entries[index]? = some ⟨source, .ready file⟩)
      (written : access.write batch.files file.path file.content = .ok after) :
      Moves access style batch index
        ⟨after, batch.cancelled, batch.entries.set index ⟨source, .finished (.ok file.path)⟩,
          batch.writes ++ [(index, file)]⟩

theorem advance_moves (access : FileAccess σ) (style : Style) (batch : Batch σ) (index : Nat) :
    Moves access style batch index (batch.advance access style index) := by
  unfold advance
  split
  next missing => exact .idle (by simp [missing])
  next source here =>
    split_ifs with cancelled
    · exact .stop here cancelled
    · exact .go here (by simpa using cancelled)
  next source here =>
    split
    next reason fails => exact .fail here fails
    next file prepared => exact .prepare here prepared
  next source file here =>
    split
    next reason refused => exact .refuse here refused
    next after written => exact .write here written
  next source outcome here => exact .idle (by simp [here, Entry.result?])

section Moves

variable {access : FileAccess σ} {style : Style} {batch after : Batch σ} {index : Nat}

theorem getElem?_set_here {entries : List Entry} {entry : Entry}
    (here : entries[index]? = some entry) (next : Entry) :
    (entries.set index next)[index]? = some next := by
  obtain ⟨bound, _⟩ := List.getElem?_eq_some_iff.mp here
  exact List.getElem?_set_self bound

theorem getElem?_set_cases {entries : List Entry} {entry next other : Entry} {place : Nat}
    (here : entries[index]? = some entry) (found : (entries.set index next)[place]? = some other) :
    index = place ∧ other = next ∨ entries[place]? = some other := by
  by_cases same : index = place
  · subst place
    rw [getElem?_set_here here] at found
    exact Or.inl ⟨rfl, (Option.some.inj found).symm⟩
  · rw [List.getElem?_set_ne same] at found
    exact Or.inr found

theorem Moves.sources (moves : Moves access style batch index after) (place : Nat) :
    after.entries[place]?.map Entry.source = batch.entries[place]?.map Entry.source := by
  have kept {source : String} {old new : Progress}
      (here : batch.entries[index]? = some ⟨source, old⟩) :
      (batch.entries.set index ⟨source, new⟩)[place]?.map Entry.source =
        batch.entries[place]?.map Entry.source := by
    by_cases same : index = place
    · subst place
      rw [getElem?_set_here here, here]
      rfl
    · rw [List.getElem?_set_ne same]
  cases moves with
  | idle => rfl
  | stop here | go here | fail here | prepare here | refuse here | write here => exact kept here

theorem Moves.cancelled_eq (moves : Moves access style batch index after) :
    after.cancelled = batch.cancelled := by
  cases moves <;> rfl

end Moves

section Runs

variable {access : FileAccess σ} {style : Style} {batch : Batch σ}

theorem sources_run (schedule : List Action) (place : Nat) :
    (batch.run access style schedule).entries[place]?.map Entry.source =
      batch.entries[place]?.map Entry.source := by
  induction schedule generalizing batch with
  | nil => rfl
  | cons action schedule ih =>
      change ((batch.act access style action).run access style schedule).entries[place]?.map _ = _
      rw [ih]
      cases action with
      | cancel => rfl
      | advance index => exact (advance_moves access style batch index).sources place

theorem sources_start (files : σ) (paths : List String) (schedule : List Action) (place : Nat) :
    ((start files paths).run access style schedule).entries[place]?.map Entry.source =
      paths[place]? := by
  rw [sources_run]
  simp [start, Function.comp_def]

/-! Every step brings an entry nearer to its end, which is three steps away at most. -/

def Progress.rank : Progress → Nat
  | .waiting => 0
  | .started => 1
  | .ready _ => 2
  | .finished _ => 3

def rankAt (batch : Batch σ) (place : Nat) : Nat :=
  (batch.entries[place]?.map (·.progress.rank)).getD 3

theorem rank_of_result? {entry : Entry} (isOver : entry.result?.isSome = true) :
    entry.progress.rank = 3 := by
  obtain ⟨source, progress⟩ := entry
  cases progress with
  | finished => rfl
  | _ => simp [Entry.result?] at isOver

theorem result?_of_rank {entry : Entry} (isOver : 3 ≤ entry.progress.rank) :
    entry.result?.isSome = true := by
  obtain ⟨source, progress⟩ := entry
  cases progress with
  | finished => rfl
  | _ => simp [Progress.rank] at isOver

theorem Moves.rankAt_le {after : Batch σ} {index : Nat}
    (moves : Moves access style batch index after) (place : Nat) :
    min 3 (batch.rankAt place + if index = place then 1 else 0) ≤ after.rankAt place := by
  have moved {source : String} {old new : Progress}
      (here : batch.entries[index]? = some ⟨source, old⟩) (nearer : old.rank + 1 ≤ new.rank)
      {entries : List Entry} (same : entries = batch.entries.set index ⟨source, new⟩) :
      min 3 (batch.rankAt place + if index = place then 1 else 0) ≤
        (entries[place]?.map (·.progress.rank)).getD 3 := by
    subst same
    by_cases same : index = place
    · subst place
      rw [getElem?_set_here here]
      simp only [rankAt, here, Option.map_some, Option.getD_some, if_true]
      omega
    · rw [List.getElem?_set_ne same, if_neg same]
      exact Nat.min_le_right _ _
  cases moves with
  | idle isOver =>
      by_cases same : index = place
      · subst place
        cases found : batch.entries[index]? with
        | none => simp [rankAt, found]
        | some entry => simp [rankAt, found, rank_of_result? (isOver entry found)]
      · rw [if_neg same]
        exact Nat.min_le_right _ _
  | stop here => exact moved here (by decide) rfl
  | go here | fail here | prepare here | refuse here | write here =>
      exact moved here (by simp [Progress.rank]) rfl

theorem rankAt_run (schedule : List Action) (place : Nat) :
    min 3 (batch.rankAt place + schedule.count (.advance place)) ≤
      (batch.run access style schedule).rankAt place := by
  induction schedule generalizing batch with
  | nil => exact Nat.min_le_right _ _
  | cons action schedule ih =>
      have later := @ih (batch.act access style action)
      refine Nat.le_trans ?_ later
      cases action with
      | cancel => simp [act, rankAt]
      | advance index =>
          have step := (advance_moves access style batch index).rankAt_le place
          have counted : (Action.advance index :: schedule).count (.advance place) =
              schedule.count (.advance place) + if index = place then 1 else 0 := by
            simp [List.count_cons]
          rw [counted]
          simp only [act]
          omega

theorem over_of_fair {files : σ} {paths : List String} {schedule : List Action}
    (fair : ∀ index < paths.length, 3 ≤ schedule.count (.advance index)) :
    ((start files paths).run access style schedule).Over := by
  intro entry member
  obtain ⟨place, found⟩ := List.mem_iff_getElem?.mp member
  have source := @sources_start _ access style files paths schedule place
  rw [found] at source
  obtain ⟨bound, _⟩ := List.getElem?_eq_some_iff.mp source.symm
  have near := @rankAt_run _ access style (start files paths) schedule place
  have enough := fair place bound
  apply result?_of_rank
  simp only [rankAt, found, Option.map_some, Option.getD_some] at near
  omega

end Runs

end Batch

/-! Paths of sources and of compiled files. -/

theorem outputPath?_eq_some {path output : String} (found : outputPath? path = some output) :
    ∃ stem, path.toList = stem ++ sourceEnding.toList ∧
      output.toList = stem ++ outputEnding.toList := by
  simp only [outputPath?] at found
  split_ifs at found with ending
  cases found
  exact ⟨_, ending, by simp⟩

theorem outputPath?_injective {first second output : String}
    (firstFound : outputPath? first = some output)
    (secondFound : outputPath? second = some output) : first = second := by
  obtain ⟨stem, firstShape, shape⟩ := outputPath?_eq_some firstFound
  obtain ⟨other, secondShape, otherShape⟩ := outputPath?_eq_some secondFound
  obtain rfl : stem = other := List.append_cancel_right (shape.symm.trans otherShape)
  exact String.toList_inj.mp (firstShape.trans secondShape.symm)

theorem outputPath?_of_output {path output : String} (found : outputPath? path = some output) :
    outputPath? output = none := by
  cases again : outputPath? output with
  | none => rfl
  | some other =>
      obtain ⟨stem, _, shape⟩ := outputPath?_eq_some found
      obtain ⟨longer, ending, _⟩ := outputPath?_eq_some again
      have last := congrArg List.getLast? (shape.symm.trans ending)
      simp [sourceEnding, outputEnding] at last

theorem output_ne_empty {path output : String} (found : outputPath? path = some output) :
    output ≠ "" := by
  rintro rfl
  obtain ⟨stem, _, shape⟩ := outputPath?_eq_some found
  simp [outputEnding] at shape

theorem outputPath?_of_prepareFile {access : FileAccess σ} {style : Style} {files : σ}
    {path : String} {file : Pending} (prepared : prepareFile access style files path = .ok file) :
    outputPath? path = some file.path := by
  unfold prepareFile at prepared
  split at prepared
  · simp at prepared
  · next output found =>
      split at prepared
      · simp at prepared
      · split at prepared
        · simp at prepared
        · cases prepared
          exact found

/-! Files as a map from paths. -/

def FileMap := String → Except FileError String

namespace FileMap

def put (files : FileMap) (file : Pending) : FileMap :=
  fun path => if path = file.path then .ok file.content else files path

/-- Access to a map, where the path alone decides whether a file can be written. -/
def access (refusal : String → Option FileError) : FileAccess FileMap where
  read files path := files path
  write files path content :=
    match refusal path with
    | some reason => .error reason
    | none => .ok (files.put ⟨path, content⟩)

def replay (files : FileMap) (writes : List (Nat × Pending)) : FileMap :=
  writes.foldl (fun files write => files.put write.2) files

variable {refusal : String → Option FileError} {style : Style} {files now : FileMap}
  {path : String} {writes : List (Nat × Pending)}

theorem replay_of_ne (never : ∀ write ∈ writes, write.2.path ≠ path) :
    files.replay writes path = files path := by
  induction writes generalizing files with
  | nil => rfl
  | cons write writes ih =>
      change (files.put write.2).replay writes path = files path
      rw [ih fun other member => never other (by simp [member])]
      exact if_neg (never write (by simp)).symm

theorem replay_of_mem {content : String} (written : ∃ write ∈ writes, write.2.path = path)
    (same : ∀ write ∈ writes, write.2.path = path → write.2.content = content) :
    files.replay writes path = .ok content := by
  induction writes generalizing files with
  | nil => simp at written
  | cons write writes ih =>
      change (files.put write.2).replay writes path = .ok content
      by_cases later : ∃ other ∈ writes, other.2.path = path
      · exact ih later fun other member => same other (by simp [member])
      · have last : write.2.path = path := by simpa [later] using written
        rw [replay_of_ne (by simpa using later)]
        simp [put, last, same write (by simp) last]

theorem prepareFile_congr
    (unchanged : ∀ path, (outputPath? path).isSome = true → now path = files path) :
    prepareFile (access refusal) style now path =
      prepareFile (access refusal) style files path := by
  unfold prepareFile
  split
  · rfl
  · next output found =>
      have same : (access refusal).read now path = (access refusal).read files path :=
        unchanged path (by simp [found])
      rw [same]

theorem compileFile_outcome :
    (compileFile (access refusal) style files path).1 =
      match prepareFile (access refusal) style files path with
      | .error reason => .error reason
      | .ok file =>
          match refusal file.path with
          | some reason => .error (.file reason)
          | none => .ok file.path := by
  unfold compileFile
  cases prepareFile (access refusal) style files path with
  | error reason => rfl
  | ok file =>
      cases refused : refusal file.path with
      | none => simp [access, refused]
      | some reason => simp [access, refused]

theorem prepareFile_of_compileFile {output : String}
    (compiled : (compileFile (access refusal) style files path).1 = .ok output) :
    ∃ file, prepareFile (access refusal) style files path = .ok file ∧ file.path = output ∧
      refusal output = none := by
  rw [compileFile_outcome] at compiled
  cases prepared : prepareFile (access refusal) style files path with
  | error reason => simp [prepared] at compiled
  | ok file =>
      cases refused : refusal file.path with
      | some reason => simp [prepared, refused] at compiled
      | none =>
          have same : file.path = output := by simpa [prepared, refused] using compiled
          exact ⟨file, rfl, same, same ▸ refused⟩

end FileMap

namespace Batch

open FileMap (access)

/-- The entry has done what compiling its file on the initial files does, as far as it has come,
unless the batch was cancelled before it started. -/
def Entry.Right (refusal : String → Option FileError) (style : Style) (files : FileMap)
    (cancelled : Bool) : Entry → Prop
  | ⟨source, .ready file⟩ => prepareFile (access refusal) style files source = .ok file
  | ⟨source, .finished outcome⟩ =>
      outcome = (compileFile (access refusal) style files source).1 ∨
        cancelled = true ∧ outcome = .error .cancelled
  | _ => True

structure Faithful (refusal : String → Option FileError) (style : Style) (files : FileMap)
    (batch : Batch FileMap) : Prop where
  replayed : batch.files = files.replay batch.writes
  writer : ∀ index file, (index, file) ∈ batch.writes →
    ∃ source, batch.entries[index]? = some ⟨source, .finished (.ok file.path)⟩ ∧
      prepareFile (access refusal) style files source = .ok file
  written : ∀ index source path,
    batch.entries[index]? = some ⟨source, .finished (.ok path)⟩ →
      ∃ file, (index, file) ∈ batch.writes ∧ file.path = path
  right : ∀ (index : Nat) (entry : Entry), batch.entries[index]? = some entry →
    entry.Right refusal style files batch.cancelled

section Faithful

variable {refusal : String → Option FileError} {style : Style} {files : FileMap}
  {batch after : Batch FileMap} {index : Nat} {source : String}

theorem faithful_start (paths : List String) :
    Faithful refusal style files (start files paths) where
  replayed := rfl
  writer := by simp [start]
  written := by simp [start]
  right := by
    intro index entry found
    obtain ⟨path, _, rfl⟩ : ∃ path, paths[index]? = some path ∧ ⟨path, .waiting⟩ = entry := by
      simpa [start] using found
    trivial

namespace Faithful

theorem unchanged (faithful : Faithful refusal style files batch) (path : String)
    (isSource : (outputPath? path).isSome = true) : batch.files path = files path := by
  rw [faithful.replayed]
  apply FileMap.replay_of_ne
  rintro ⟨index, file⟩ member rfl
  obtain ⟨source, _, prepared⟩ := faithful.writer index file member
  rw [outputPath?_of_output (outputPath?_of_prepareFile prepared)] at isSource
  simp at isSource

theorem prepareFile_eq (faithful : Faithful refusal style files batch) :
    prepareFile (access refusal) style batch.files source =
      prepareFile (access refusal) style files source :=
  FileMap.prepareFile_congr faithful.unchanged

theorem cancel (faithful : Faithful refusal style files batch) :
    Faithful refusal style files { batch with cancelled := true } where
  replayed := faithful.replayed
  writer := faithful.writer
  written := faithful.written
  right := by
    rintro index ⟨source, progress⟩ found
    have was := faithful.right index _ found
    cases progress with
    | finished outcome => exact was.imp_right fun stopped => ⟨rfl, stopped.2⟩
    | _ => exact was

theorem step {old new : Progress} {more : List (Nat × Pending)}
    (faithful : Faithful refusal style files batch)
    (here : batch.entries[index]? = some ⟨source, old⟩)
    (unfinished : ∀ outcome, old ≠ .finished outcome)
    (writes : ∀ place file, (place, file) ∈ more → place = index ∧
      new = .finished (.ok file.path) ∧ prepareFile (access refusal) style files source = .ok file)
    (written : ∀ path, new = .finished (.ok path) → ∃ file, (index, file) ∈ more ∧ file.path = path)
    (right : Entry.Right refusal style files batch.cancelled ⟨source, new⟩) :
    Faithful refusal style files
      ⟨batch.files.replay more, batch.cancelled, batch.entries.set index ⟨source, new⟩,
        batch.writes ++ more⟩ where
  replayed := by
    rw [faithful.replayed]
    exact List.foldl_append.symm
  writer := by
    intro place file member
    rcases List.mem_append.mp member with before | now
    · obtain ⟨writer, found, prepared⟩ := faithful.writer place file before
      -- A file that was written is finished, and takes no further step.
      have other : index ≠ place := by
        rintro rfl
        rw [here] at found
        cases found
        exact unfinished _ rfl
      exact ⟨writer, by rw [List.getElem?_set_ne other, found], prepared⟩
    · obtain ⟨rfl, rfl, prepared⟩ := writes place file now
      exact ⟨source, getElem?_set_here here _, prepared⟩
  written := by
    intro place writer path found
    rcases getElem?_set_cases here found with ⟨rfl, same⟩ | before
    · cases same
      obtain ⟨file, member, path⟩ := written path rfl
      exact ⟨file, by simp [member], path⟩
    · obtain ⟨file, member, path⟩ := faithful.written place writer path before
      exact ⟨file, by simp [member], path⟩
  right := by
    intro place entry found
    rcases getElem?_set_cases here found with ⟨rfl, same⟩ | before
    · rw [same]
      exact right
    · exact faithful.right place entry before

theorem silentStep {old new : Progress} (faithful : Faithful refusal style files batch)
    (here : batch.entries[index]? = some ⟨source, old⟩)
    (unfinished : ∀ outcome, old ≠ .finished outcome)
    (silent : ∀ path, new ≠ .finished (.ok path))
    (right : Entry.Right refusal style files batch.cancelled ⟨source, new⟩) :
    Faithful refusal style files (batch.move index source new) := by
  have moved := @step _ _ _ _ _ _ _ new [] faithful here unfinished (by simp)
    (fun path same => absurd same (silent path)) right
  rwa [List.append_nil] at moved

theorem write {file : Pending} (faithful : Faithful refusal style files batch)
    (here : batch.entries[index]? = some ⟨source, .ready file⟩)
    (granted : refusal file.path = none) :
    Faithful refusal style files
      ⟨batch.files.put file, batch.cancelled,
        batch.entries.set index ⟨source, .finished (.ok file.path)⟩,
        batch.writes ++ [(index, file)]⟩ := by
  have prepared : prepareFile (access refusal) style files source = .ok file :=
    faithful.right index _ here
  refine @step _ _ _ _ _ _ _ _ [(index, file)] faithful here (by simp) ?_ ?_ (Or.inl ?_)
  · intro place other member
    obtain ⟨rfl, rfl⟩ : place = index ∧ other = file := by simpa using member
    exact ⟨rfl, rfl, prepared⟩
  · intro path same
    cases same
    exact ⟨file, by simp, rfl⟩
  · rw [FileMap.compileFile_outcome, prepared]
    simp [granted]

theorem moves (faithful : Faithful refusal style files batch)
    (moves : Moves (access refusal) style batch index after) :
    Faithful refusal style files after := by
  cases moves with
  | idle => exact faithful
  | stop here cancelled =>
      exact faithful.silentStep here (by simp) (by simp) (Or.inr ⟨cancelled, rfl⟩)
  | go here => exact faithful.silentStep here (by simp) (by simp) trivial
  | fail here fails =>
      rw [faithful.prepareFile_eq] at fails
      refine faithful.silentStep here (by simp) (by simp) (Or.inl ?_)
      rw [FileMap.compileFile_outcome, fails]
  | prepare here prepared =>
      rw [faithful.prepareFile_eq] at prepared
      exact faithful.silentStep here (by simp) (by simp) prepared
  | @refuse source file reason here refused =>
      have prepared : prepareFile (access refusal) style files source = .ok file :=
        faithful.right index _ here
      refine faithful.silentStep here (by simp) (by simp) (Or.inl ?_)
      rw [FileMap.compileFile_outcome, prepared]
      cases known : refusal file.path with
      | none => simp [FileMap.access, known] at refused
      | some other =>
          have same : other = reason := by simpa [FileMap.access, known] using refused
          simp [known, same]
  | @write source file after here written =>
      cases known : refusal file.path with
      | some reason => simp [FileMap.access, known] at written
      | none =>
          have same : batch.files.put file = after := by simpa [FileMap.access, known] using written
          subst same
          exact faithful.write here known

theorem run (faithful : Faithful refusal style files batch) (schedule : List Action) :
    Faithful refusal style files (batch.run (access refusal) style schedule) := by
  induction schedule generalizing batch with
  | nil => exact faithful
  | cons action schedule ih =>
      cases action with
      | cancel => exact ih faithful.cancel
      | advance index => exact ih (faithful.moves (advance_moves _ style batch index))

end Faithful

end Faithful

/-! Compiling the files one after the other is one of the orders. -/

section Sequential

variable {access : FileAccess σ} {style : Style} {files : σ} {done rest : List Entry}
  {writes : List (Nat × Pending)} {path : String}

theorem run_append (batch : Batch σ) (first second : List Action) :
    batch.run access style (first ++ second) =
      (batch.run access style first).run access style second :=
  List.foldl_append

theorem run_three :
    ∃ more, run access style ⟨files, false, done ++ ⟨path, .waiting⟩ :: rest, writes⟩
        [.advance done.length, .advance done.length, .advance done.length] =
      ⟨(compileFile access style files path).2, false,
        done ++ ⟨path, .finished (compileFile access style files path).1⟩ :: rest,
        writes ++ more⟩ := by
  cases prepared : prepareFile access style files path with
  | error reason =>
      exact ⟨[], by simp [run, act, advance, move, compileFile, prepared]⟩
  | ok file =>
      cases written : access.write files file.path file.content with
      | error reason =>
          exact ⟨[], by simp [run, act, advance, move, compileFile, prepared, written]⟩
      | ok after =>
          exact ⟨[(done.length, file)],
            by simp [run, act, advance, move, compileFile, prepared, written]⟩

theorem run_cancelled (cancelled : Bool) :
    run access style ⟨files, cancelled, done ++ ⟨path, .waiting⟩ :: rest, writes⟩
        [.cancel, .advance done.length] =
      ⟨files, true, done ++ ⟨path, .finished (.error .cancelled)⟩ :: rest, writes⟩ := by
  simp [run, act, advance, move]

theorem compileFiles_run_from {limit : Option Nat} {cancelled : Bool} {paths : List String}
    (atLimit : cancelled = true → limit = some 0) :
    ∃ schedule finished more flag, (limit = none → .cancel ∉ schedule) ∧
      run access style ⟨files, cancelled, done ++ paths.map (⟨·, .waiting⟩), writes⟩ schedule =
        ⟨(compileFiles access style limit files paths).2, flag, done ++ finished, writes ++ more⟩ ∧
      finished.map Entry.result? = (compileFiles access style limit files paths).1.map some := by
  -- Each file in turn takes all its steps, three of them; past the limit, it takes the one that
  -- finds the batch cancelled.
  induction paths generalizing limit cancelled files done writes with
  | nil => exact ⟨[], [], [], cancelled, by simp, by simp [run, compileFiles], rfl⟩
  | cons path paths ih =>
      by_cases stop : limit = some 0
      · obtain ⟨schedule, finished, more, flag, clean, ran, results⟩ :=
          @ih files (done ++ [⟨path, .finished (.error .cancelled)⟩]) writes limit true
            fun _ => stop
        refine ⟨[.cancel, .advance done.length] ++ schedule,
          ⟨path, .finished (.error .cancelled)⟩ :: finished, more, flag, by simp [stop], ?_, ?_⟩
        · rw [run_append, List.map_cons, run_cancelled]
          simpa [compileFiles, stop] using ran
        · simp only [List.map_cons, results]
          simp [compileFiles, stop, Entry.result?]
      · have running : cancelled = false := by
          cases cancelled with
          | false => rfl
          | true => exact absurd (atLimit rfl) stop
        subst running
        obtain ⟨first, three⟩ := @run_three _ access style files done
          (paths.map (⟨·, .waiting⟩)) writes path
        obtain ⟨schedule, finished, more, flag, clean, ran, results⟩ :=
          @ih (compileFile access style files path).2
            (done ++ [⟨path, .finished (compileFile access style files path).1⟩]) (writes ++ first)
            (limit.map (· - 1)) false (by simp)
        refine ⟨[.advance done.length, .advance done.length, .advance done.length] ++ schedule,
          ⟨path, .finished (compileFile access style files path).1⟩ :: finished, first ++ more,
          flag, ?_, ?_, ?_⟩
        · intro unlimited
          simpa using clean (by simp [unlimited])
        · rw [run_append, List.map_cons, three]
          simpa [compileFiles, stop] using ran
        · simp only [List.map_cons, results]
          simp [compileFiles, stop, Entry.result?]

theorem compileFiles_run (limit : Option Nat) (paths : List String) :
    ∃ schedule, (limit = none → .cancel ∉ schedule) ∧
      ((start files paths).run access style schedule).Over ∧
      ((start files paths).run access style schedule).results =
        (compileFiles access style limit files paths).1 ∧
      ((start files paths).run access style schedule).files =
        (compileFiles access style limit files paths).2 := by
  obtain ⟨schedule, finished, more, flag, clean, ran, results⟩ :=
    @compileFiles_run_from _ access style files [] [] limit false paths (by simp)
  rw [List.nil_append] at ran
  refine ⟨schedule, clean, ?_, ?_, ?_⟩
  · rw [start, ran]
    intro entry member
    have mapped : entry.result? ∈ finished.map Entry.result? := List.mem_map_of_mem member
    rw [results] at mapped
    obtain ⟨result, _, same⟩ := List.mem_map.mp mapped
    simp [← same]
  · rw [start, ran]
    calc finished.filterMap Entry.result?
        = (finished.map Entry.result?).filterMap id := by simp [List.filterMap_map]
      _ = (compileFiles access style limit files paths).1 := by
          rw [results]
          simp [List.filterMap_map]
  · rw [start, ran]

end Sequential

/-! Batches that are over. -/

theorem cancelled_run {access : FileAccess σ} {style : Style} {batch : Batch σ}
    {schedule : List Action} (clean : .cancel ∉ schedule) :
    (batch.run access style schedule).cancelled = batch.cancelled := by
  induction schedule generalizing batch with
  | nil => rfl
  | cons action schedule ih =>
      simp only [List.mem_cons, not_or] at clean
      change ((batch.act access style action).run access style schedule).cancelled = _
      rw [ih clean.2]
      cases action with
      | cancel => exact absurd rfl clean.1
      | advance index => exact (advance_moves access style batch index).cancelled_eq

theorem Over.getElem?_results {batch : Batch σ} (isOver : batch.Over) (place : Nat) :
    batch.results[place]? = batch.entries[place]?.bind Entry.result? := by
  obtain ⟨files, cancelled, entries, writes⟩ := batch
  change ∀ entry ∈ entries, entry.result?.isSome = true at isOver
  change (entries.filterMap Entry.result?)[place]? = entries[place]?.bind Entry.result?
  induction entries generalizing place with
  | nil => simp
  | cons entry entries ih =>
      obtain ⟨result, found⟩ := Option.isSome_iff_exists.mp (isOver entry (by simp))
      rw [List.filterMap_cons_some found]
      cases place with
      | zero => simp [found]
      | succ place => simpa using ih place fun other member => isOver other (by simp [member])

theorem Entry.result?_eq_some {entry : Entry} {result : BatchResult} :
    entry.result? = some result ↔ entry = ⟨result.source, .finished result.outcome⟩ := by
  obtain ⟨source, progress⟩ := entry
  obtain ⟨path, outcome⟩ := result
  cases progress <;> simp [Entry.result?]

theorem Over.source_results {batch : Batch σ} (isOver : batch.Over) (place : Nat) :
    batch.results[place]?.map BatchResult.source = batch.entries[place]?.map Entry.source := by
  rw [isOver.getElem?_results]
  cases found : batch.entries[place]? with
  | none => rfl
  | some entry =>
      obtain ⟨result, shape⟩ :=
        Option.isSome_iff_exists.mp (isOver entry (List.mem_of_getElem? found))
      rw [Option.bind_some, shape]
      rw [Entry.result?_eq_some] at shape
      simp [shape]

section Outcome

variable {refusal : String → Option FileError} {style : Style} {files : FileMap}
  {batch other : Batch FileMap} {paths : List String}

theorem Faithful.outcome {place : Nat} {result : BatchResult}
    (faithful : Faithful refusal style files batch) (isOver : batch.Over)
    (found : batch.results[place]? = some result) :
    batch.entries[place]? = some ⟨result.source, .finished result.outcome⟩ ∧
      (result.outcome = (compileFile (access refusal) style files result.source).1 ∨
        batch.cancelled = true ∧ result.outcome = .error .cancelled) := by
  rw [isOver.getElem?_results, Option.bind_eq_some_iff] at found
  obtain ⟨entry, here, shape⟩ := found
  rw [Entry.result?_eq_some] at shape
  subst shape
  exact ⟨here, faithful.right place _ here⟩

theorem Faithful.ne_of_failed {place : Nat} {result : BatchResult}
    (faithful : Faithful refusal style files batch)
    (here : batch.entries[place]? = some ⟨result.source, .finished result.outcome⟩)
    (failed : result.failed = true) : ∀ write ∈ batch.writes, write.1 ≠ place := by
  rintro ⟨index, file⟩ member rfl
  obtain ⟨source, there, _⟩ := faithful.writer index file member
  rw [here] at there
  obtain ⟨_, succeeded⟩ : result.source = source ∧ result.outcome = .ok file.path := by
    simpa using there
  simp [BatchResult.failed, succeeded] at failed

structure Completed (refusal : String → Option FileError) (style : Style) (files : FileMap)
    (paths : List String) (batch : Batch FileMap) : Prop where
  faithful : Faithful refusal style files batch
  isOver : batch.Over
  sources : ∀ place : Nat, batch.entries[place]?.map Entry.source = paths[place]?
  running : batch.cancelled = false

namespace Completed

theorem entries_eq (completed : Completed refusal style files paths batch) (place : Nat) :
    batch.entries[place]? = paths[place]?.map fun path =>
      ⟨path, .finished (compileFile (access refusal) style files path).1⟩ := by
  have same := completed.sources place
  cases found : batch.entries[place]? with
  | none =>
      rw [found] at same
      simp [← same]
  | some entry =>
      obtain ⟨result, shape⟩ := Option.isSome_iff_exists.mp
        (completed.isOver entry (List.mem_of_getElem? found))
      rw [Entry.result?_eq_some] at shape
      subst shape
      rw [found] at same
      rcases completed.faithful.right place _ found with outcome | ⟨cancelled, _⟩
      · simp [← same, outcome]
      · rw [completed.running] at cancelled
        simp at cancelled

theorem results_eq (completed : Completed refusal style files paths batch) :
    batch.results = paths.map fun path =>
      ⟨path, (compileFile (access refusal) style files path).1⟩ := by
  apply List.ext_getElem?
  intro place
  rw [completed.isOver.getElem?_results, completed.entries_eq]
  cases found : paths[place]? with
  | none => simp [found]
  | some path => simp [found, Entry.result?]

theorem replay_eq_of_mem {path : String} (completed : Completed refusal style files paths batch)
    (completedToo : Completed refusal style files paths other)
    (written : ∃ write ∈ batch.writes, write.2.path = path) :
    batch.files path = other.files path := by
  obtain ⟨⟨place, file⟩, member, rfl⟩ := written
  obtain ⟨source, here, prepared⟩ := completed.faithful.writer place file member
  -- A path is written from one source only, with the content that the source had at the start.
  have unique {some : Batch FileMap} (faithful : Faithful refusal style files some) :
      ∀ write ∈ some.writes, write.2.path = file.path → write.2.content = file.content := by
    rintro ⟨otherPlace, written⟩ otherMember same
    obtain ⟨writer, _, otherPrepared⟩ := faithful.writer otherPlace written otherMember
    have output := outputPath?_of_prepareFile otherPrepared
    rw [same] at output
    obtain rfl := outputPath?_injective output (outputPath?_of_prepareFile prepared)
    rw [prepared] at otherPrepared
    cases otherPrepared
    rfl
  have there : other.entries[place]? = some ⟨source, .finished (.ok file.path)⟩ := by
    rw [completedToo.entries_eq, ← completed.entries_eq, here]
  obtain ⟨otherFile, otherMember, same⟩ := completedToo.faithful.written place source _ there
  rw [completed.faithful.replayed, completedToo.faithful.replayed,
    FileMap.replay_of_mem ⟨_, member, rfl⟩ (unique completed.faithful),
    FileMap.replay_of_mem ⟨_, otherMember, same⟩ (unique completedToo.faithful)]

theorem files_eq (completed : Completed refusal style files paths batch)
    (completedToo : Completed refusal style files paths other) : batch.files = other.files := by
  funext path
  by_cases written : ∃ write ∈ batch.writes, write.2.path = path
  · exact completed.replay_eq_of_mem completedToo written
  · by_cases writtenToo : ∃ write ∈ other.writes, write.2.path = path
    · exact (completedToo.replay_eq_of_mem completed writtenToo).symm
    · rw [completed.faithful.replayed, completedToo.faithful.replayed,
        FileMap.replay_of_ne (by simpa using written),
        FileMap.replay_of_ne (by simpa using writtenToo)]

end Completed

theorem completed_run {schedule : List Action} (clean : .cancel ∉ schedule)
    (isOver : ((start files paths).run (access refusal) style schedule).Over) :
    Completed refusal style files paths
      ((start files paths).run (access refusal) style schedule) where
  faithful := (faithful_start paths).run schedule
  isOver := isOver
  sources := sources_start files paths schedule
  running := cancelled_run clean

end Outcome

end Batch

theorem BatchResult.output_ne_empty_iff {refusal : String → Option FileError} {style : Style}
    {files : FileMap} {result : BatchResult}
    (outcome : result.outcome = (compileFile (FileMap.access refusal) style files result.source).1 ∨
      result.outcome = .error .cancelled) :
    result.output ≠ "" ↔ result.failed = false := by
  obtain ⟨source, done⟩ := result
  cases done with
  | error reason => simp [output, failed]
  | ok path =>
      have written : path ≠ "" := by
        rcases outcome with same | cancelled
        · obtain ⟨file, prepared, rfl, _⟩ := FileMap.prepareFile_of_compileFile same.symm
          exact GameScript.output_ne_empty (outputPath?_of_prepareFile prepared)
        · simp at cancelled
      simp [output, failed, written]

section Schedules

open Batch FileMap

/-- Whatever the order of the steps and the moment of cancellation, a batch ends with one result for
each path, in order: either the entry was cancelled, or it has the outcome of compiling its file
alone on the initial files. Entries that fail write nothing. Without cancellation, results and files
are those of compiling the files one after the other. -/
theorem batch_schedule_irrelevant (refusal : String → Option FileError) (style : Style)
    (files : FileMap) (paths : List String) (schedule : List Action) :
    let last := (start files paths).run (access refusal) style schedule
    ((∀ index < paths.length, 3 ≤ schedule.count (.advance index)) → last.Over) ∧
    (last.Over →
      last.results.map BatchResult.source = paths ∧
      (∀ (index : Nat) (result : BatchResult), last.results[index]? = some result →
        ((result.outcome = .error .cancelled ∧ result.output = "" ∧
            ∀ write ∈ last.writes, write.1 ≠ index) ∨
          result.outcome = (compileFile (access refusal) style files result.source).1) ∧
        (result.output ≠ "" ↔ result.failed = false) ∧
        (result.failed = true → ∀ write ∈ last.writes, write.1 ≠ index)) ∧
      last.files = files.replay last.writes ∧
      (.cancel ∉ schedule →
        last.results = (compileFiles (access refusal) style none files paths).1 ∧
        last.files = (compileFiles (access refusal) style none files paths).2)) := by
  intro last
  have faithful : Faithful refusal style files last := (faithful_start paths).run schedule
  refine ⟨over_of_fair, fun isOver => ⟨?_, ?_, faithful.replayed, ?_⟩⟩
  · apply List.ext_getElem?
    intro place
    rw [List.getElem?_map, isOver.source_results, sources_start]
  · intro index result found
    obtain ⟨here, outcome⟩ := faithful.outcome isOver found
    have unwritten := faithful.ne_of_failed here
    refine ⟨?_, BatchResult.output_ne_empty_iff (outcome.imp_right And.right), unwritten⟩
    rcases outcome with compiled | ⟨_, cancelled⟩
    · exact Or.inr compiled
    · have empty : result.output = "" := by simp [BatchResult.output, cancelled]
      exact Or.inl ⟨cancelled, empty, unwritten (by simp [BatchResult.failed, cancelled])⟩
  · intro clean
    obtain ⟨inOrder, orderly, orderOver, results, filesAfter⟩ :=
      @compileFiles_run _ (access refusal) style files none paths
    have completed := completed_run clean isOver
    have sequential := completed_run (orderly rfl) orderOver
    rw [← results, ← filesAfter, sequential.results_eq]
    exact ⟨completed.results_eq, completed.files_eq sequential⟩

/-- Two entries for one source, the second of which starts first, and one that is no source. -/
theorem batch_schedule_irrelevant_twice :
    let files : FileMap := fun path => if path = "a.gmlpp" then .ok "x" else .error .missing
    let paths := ["a.gmlpp", "b.txt", "a.gmlpp"]
    let style : Style := .ofOptions "\t" .extended
    let schedule : List Action := [2, 0, 1, 0, 2, 1, 2, 0, 1].map .advance
    let last := (start files paths).run (access fun _ => none) style schedule
    last.Over ∧ last.results = (compileFiles (access fun _ => none) style none files paths).1 ∧
      last.files = (compileFiles (access fun _ => none) style none files paths).2 ∧
      last.files "a.gml" = .ok "x;\n" := by
  intro files paths style schedule last
  have whole := batch_schedule_irrelevant (fun _ => none) style files paths schedule
  have isOver : last.Over := whole.1 (by decide)
  obtain ⟨results, filesAfter⟩ := (whole.2 isOver).2.2.2 (by decide)
  exact ⟨isOver, results, filesAfter, by decide +kernel⟩

end Schedules

end GameScript
