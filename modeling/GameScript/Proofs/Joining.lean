import GameScript.Proofs.Rescanning

/-!
Texts one below the other. What was over at the end of a text is over at the end of a line, and
nothing of the next text is drawn into it.
-/

namespace GameScript

open Scanner (State Mode ahead)

theorem Scanner.scan_break {scanner : Scanner} (ends : scanner.canEnd = true) (later : List Char) :
    ∃ breaking : Scanner, breaking.state.mode = .lineEnd ∧
      (scanner.scan ('\n' :: later) = (scanner.pendingToken?.toList ++ ·) <$> breaking.scan later ∨
        scanner.state.mode = .lineEnd ∧ scanner.scan ('\n' :: later) = breaking.scan later) := by
  have lineBreak : Mode.ofChar? '\n' = some .lineEnd := by decide
  by_cases start : scanner.state.mode = .start
  · have absorbed : scanner.state.next '\n' = .absorb ⟨.lineEnd, scanner.state.depth⟩ := by
      simp [State.next, start, lineBreak]
    have noToken : scanner.pendingToken? = none := by simp [pendingToken?, start, Mode.token?]
    refine ⟨scanner.absorb ⟨.lineEnd, scanner.state.depth⟩ '\n', rfl, Or.inl ?_⟩
    rw [scan_absorb absorbed, noToken]
    cases (scanner.absorb ⟨.lineEnd, scanner.state.depth⟩ '\n').scan later <;> rfl
  · rcases ended_of_canEnd start ends with complete | ⟨inLineEnd, _⟩
    · have completeHere : scanner.state.next (ahead ('\n' :: later)) = .complete := complete
      have absorbed := (reset_fresh scanner).next_of_ofChar? lineBreak
      refine ⟨scanner.reset.absorb ⟨.lineEnd, 0⟩ '\n', rfl, Or.inl ?_⟩
      rw [scan_complete completeHere, scan_absorb absorbed]
    · have blank : Text.isBlank '\n' = true := by decide
      have absorbed : scanner.state.next '\n' = .absorb ⟨.lineEnd, scanner.state.depth⟩ := by
        simp [State.next, inLineEnd, blank]
      refine ⟨scanner.absorb ⟨.lineEnd, scanner.state.depth⟩ '\n', rfl, Or.inr ⟨inLineEnd, ?_⟩⟩
      rw [scan_absorb absorbed]

theorem Scanner.abuts_scan_break {scanner : Scanner} {later : List Char} {tokens : List Token}
    (ends : scanner.canEnd = true) {fresh : Scanner} (isFresh : fresh.Fresh)
    (scanned : fresh.scan later = .ok tokens) :
    ∃ after joined, scanner.scan ('\n' :: later) = .ok joined ∧ Rebroken after tokens ∧
      Abuts after (scanner.pendingToken?.toList ++ [⟨.finish, "", scanner.position⟩]) joined := by
  obtain ⟨breaking, breaks, goesOn⟩ := scan_break ends later
  have matched := rebroken_scan breaks isFresh later
  rw [scanned] at matched
  generalize found : breaking.scan later = result at matched
  cases matched with
  | @ok after _ rebroken =>
      have closing : Extends after [⟨.finish, "", scanner.position⟩] after :=
        .closing rfl rfl rfl
      rcases goesOn with emitted | ⟨inLineEnd, joined⟩
      · refine ⟨after, scanner.pendingToken?.toList ++ after, ?_, rebroken, ?_⟩
        · rw [emitted, found]
          rfl
        · have here : Abuts after [⟨.finish, "", scanner.position⟩] after :=
            ⟨closing, Or.inr ⟨rfl, rebroken.1⟩⟩
          refine here.append ?_
          intro token member
          exact kind_ne_finish_of_pendingToken? (Option.mem_toList.mp member)
      · refine ⟨after, after, joined.trans found, rebroken, ?_⟩
        rw [pendingToken?_lineEnd inLineEnd]
        exact ⟨closing.congr (skipEnds_lineEnd rfl _) rfl, Or.inl rebroken.1⟩

theorem ReadsScript.lists_body {script : Script} {tokens : List Token}
    (reads : ReadsScript script tokens) (noDoc : script.doc = []) (noArgs : script.args = []) :
    Lists script.body tokens ∧ headKind (skipEnds tokens) ≠ .docComment := by
  obtain ⟨middle, rest, docs, takesAll, lists⟩ := reads
  rw [noDoc] at docs
  rw [noArgs] at takesAll
  cases docs with
  | done noDocHere =>
      cases takesAll with
      | done => exact ⟨lists.congr (skipEnds_idem tokens).symm, noDocHere⟩

/-- A text without doc comment and arguments may be written below another one: its statements come
after those of the other. -/
theorem joined_texts_parse {before later : List Char} {first second : Script}
    (firstParses : parse before = .ok first) (secondParses : parse later = .ok second)
    (unmarked : later.head? ≠ some byteOrderMark) (noDoc : second.doc = [])
    (noArgs : second.args = []) :
    parse (before ++ '\n' :: later) =
      .ok ⟨first.doc, first.args, first.body ++ second.body⟩ := by
  rw [parse_ok_iff_scan] at firstParses secondParses ⊢
  obtain ⟨_, firstScanned, firstReads⟩ := firstParses
  obtain ⟨laterTokens, secondScanned, secondReads⟩ := secondParses
  have laterWhole : dropMark later = later := by simp [dropMark, unmarked]
  rw [laterWhole] at secondScanned
  obtain ⟨emitted, scanner, fed, ends, rfl⟩ := Scanner.scan_ok firstScanned
  obtain ⟨after, joined, scanned, rebroken, abuts⟩ :=
    Scanner.abuts_scan_break ends Scanner.initial_fresh secondScanned
  -- What comes after the break is read as the second text by itself.
  have finished := Scanner.finished_of_scan secondScanned
  obtain ⟨last, closes, goesOn⟩ := extends_of_skipEnds rebroken.2.symm finished
  obtain ⟨lists, noDocAfter⟩ := (secondReads.closed_again closes goesOn).lists_body noDoc noArgs
  have whole := abuts.append (Scanner.kind_ne_finish_of_feedAll fed)
  refine ⟨emitted ++ joined, ?_, firstReads.extended lists noDocAfter whole.loosely⟩
  have lineBreak : ('\n' :: later).head? ≠ some byteOrderMark := by simp [byteOrderMark]
  rw [dropMark_append lineBreak, Scanner.scan_append fed, scanned]
  rfl

theorem exists_ok_of_any {ε α : Type} {result : Except ε α} {test : α → Bool}
    (passes : result.toOption.any test = true) :
    ∃ value, result = .ok value ∧ test value = true := by
  cases result with
  | error reason => simp [Except.toOption] at passes
  | ok value => exact ⟨value, rfl, by simpa [Except.toOption] using passes⟩

/-- The first text ends in a branch and a comment that the line break ends, and the second one
starts with a line end and a comment. -/
theorem joined_texts_parse_branch :
    let before := "/// d\nargument x = y\nif (x)\n\tdo f(); until (x) // a".toList
    let later := "\n\n/* b */ while (x) x--;; return".toList
    ∃ first second, parse before = .ok first ∧ parse later = .ok second ∧ second.doc = [] ∧
      second.args = [] ∧
      parse (before ++ '\n' :: later) =
        .ok ⟨first.doc, first.args, first.body ++ second.body⟩ := by
  intro before later
  obtain ⟨first, firstRead, _⟩ := exists_ok_of_any
    (show (parse before).toOption.any (fun _ => true) = true by decide +kernel)
  obtain ⟨second, secondRead, plain⟩ := exists_ok_of_any
    (show (parse later).toOption.any (fun read => read.doc.isEmpty && read.args.isEmpty) = true by
      decide +kernel)
  obtain ⟨noDoc, noArgs⟩ : second.doc = [] ∧ second.args = [] := by simpa using plain
  have unmarked : later.head? ≠ some byteOrderMark := by decide
  exact ⟨first, second, firstRead, secondRead, noDoc, noArgs,
    joined_texts_parse firstRead secondRead unmarked noDoc noArgs⟩

end GameScript
