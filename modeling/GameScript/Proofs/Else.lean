import GameScript.Printer.Stmt
import GameScript.Proofs.Statement

/-!
Which `if` an `else` belongs to. A statement ends open if an `else` after it would be taken by an
`if` inside it. Main statements: what the grammar reads never leaves an `else` that it could have
taken, and reading on after an open statement attaches what follows to its last open `if`.
-/

namespace GameScript

namespace Stmt

/-- Whether an `else` after the statement would belong to an `if` inside it. -/
def endsOpen : Stmt → Bool
  | branch _ _ no => no.isHole || no.endsOpen
  | loop kind _ body => testsFirst kind && body.endsOpen
  | repeats _ body => body.endsOpen
  | withTarget _ body => body.endsOpen
  | forLoop _ _ _ body => body.endsOpen
  | _ => false

/-- The statement with another one as the `else` branch of the last `if` that can take it. -/
def attach : Stmt → Stmt → Stmt
  | branch test yes no, taken =>
      if no.isHole then
        if yes.endsOpen then branch test (yes.attach taken) no else branch test yes taken
      else branch test yes (no.attach taken)
  | loop kind test body, taken => loop kind test (body.attach taken)
  | repeats count body, taken => repeats count (body.attach taken)
  | withTarget target body, taken => withTarget target (body.attach taken)
  | forLoop init test update body, taken => forLoop init test update (body.attach taken)
  | other, _ => other

theorem attach_branch_open {test : Expr} {yes taken : Stmt} (yesOpen : yes.endsOpen = true) :
    (branch test yes .hole).attach taken = .branch test (yes.attach taken) .hole := by
  simp [attach, isHole, yesOpen]

theorem attach_branch_shut {test : Expr} {yes taken : Stmt} (yesShut : yes.endsOpen = false) :
    (branch test yes .hole).attach taken = .branch test yes taken := by
  simp [attach, isHole, yesShut]

theorem isHole_attach {whole : Stmt} (taken : Stmt) (filled : whole.isHole = false) :
    (whole.attach taken).isHole = false := by
  unfold attach
  split
  · split_ifs <;> rfl
  · rfl
  · rfl
  · rfl
  · rfl
  · exact filled

theorem endsOpen_attach {whole taken : Stmt} (isOpen : whole.endsOpen = true)
    (takenOpen : taken.endsOpen = true) : (whole.attach taken).endsOpen = true := by
  fun_induction endsOpen whole with
  | case1 test yes no ih =>
      by_cases hole : no.isHole = true
      · by_cases yesOpen : yes.endsOpen = true
        · simp [attach, hole, yesOpen, endsOpen]
        · simp [attach, hole, yesOpen, endsOpen, takenOpen]
      · have noOpen : no.endsOpen = true := by simpa [hole] using isOpen
        simp [attach, hole, endsOpen, ih noOpen]
  | case2 kind test body ih =>
      obtain ⟨first, bodyOpen⟩ : testsFirst kind = true ∧ body.endsOpen = true := by
        simpa using isOpen
      simp [attach, endsOpen, first, ih bodyOpen]
  | case3 _ _ ih | case4 _ _ ih | case5 _ _ _ _ ih => exact ih isOpen
  | case6 => simp at isOpen

theorem attach_attach {whole taken : Stmt} (next : Stmt) (isOpen : whole.endsOpen = true)
    (filled : taken.isHole = false) (takenOpen : taken.endsOpen = true) :
    (whole.attach taken).attach next = whole.attach (taken.attach next) := by
  fun_induction attach whole taken with
  | case1 test yes no taken hole yesOpen ih =>
      have yesTaken := endsOpen_attach yesOpen takenOpen
      simp [attach, hole, yesOpen, yesTaken, ih yesOpen filled takenOpen]
  | case2 test yes no taken hole yesShut => simp [attach, hole, yesShut, filled]
  | case3 test yes no taken noFilled ih =>
      have noOpen : no.endsOpen = true := by simpa [endsOpen, noFilled] using isOpen
      have stillFilled := isHole_attach taken (by simpa using noFilled)
      simp [attach, noFilled, stillFilled, ih noOpen filled takenOpen]
  | case4 kind test body taken ih =>
      have bodyOpen : body.endsOpen = true := by
        simp only [endsOpen, Bool.and_eq_true] at isOpen
        exact isOpen.2
      simp [attach, ih bodyOpen filled takenOpen]
  | case5 _ _ _ ih | case6 _ _ _ ih | case7 _ _ _ _ _ ih =>
      simp [attach, ih isOpen filled takenOpen]
  | case8 whole taken notBranch notLoop notRepeat notWith notFor =>
      cases whole with
      | branch => exact absurd rfl (notBranch _ _ _)
      | loop => exact absurd rfl (notLoop _ _ _)
      | repeats => exact absurd rfl (notRepeat _ _)
      | withTarget => exact absurd rfl (notWith _ _)
      | forLoop => exact absurd rfl (notFor _ _ _ _)
      | _ => simp [endsOpen] at isOpen

end Stmt

theorem Keyword.testsFirst_of_loopKind? {word : Keyword} {kind : LoopKind}
    (loops : word.loopKind? = some kind) : Stmt.testsFirst kind = false := by
  cases word with
  | while_ | until_ =>
      cases loops
      rfl
  | _ => simp [loopKind?] at loops

def Part.Shut (rest : List Token) : Part → Prop
  | .statement read | .begun read =>
      read.isHole = false ∧ (read.endsOpen = true → headKind (skipEnds rest) ≠ .keyword .else_)
  | .inside _ => True

theorem Forms.shut {part : Part} {tokens rest : List Token} (forms : Forms part tokens rest) :
    part.Shut rest := by
  have plain : ∀ {read : Stmt} {rest : List Token}, read.isHole = false → read.endsOpen = false →
      Part.Shut rest (.begun read) := by
    intro read rest filled shut
    exact ⟨filled, by simp [shut]⟩
  induction forms with
  | statement _ begun => exact begun
  | noop | block | declare | ret | expr | assign => exact plain rfl rfl
  | branch _ _ _ noElse => exact ⟨rfl, fun _ => noElse⟩
  | branchElse _ _ _ _ _ _ _ no =>
      refine ⟨rfl, fun isOpen => no.2 ?_⟩
      simpa [Stmt.endsOpen, no.1] using isOpen
  | doLoop _ _ tails =>
      obtain ⟨_, _, loops, _, _⟩ := tails
      exact plain rfl (by simp [Stmt.endsOpen, Keyword.testsFirst_of_loopKind? loops])
  | @headed _ keyword _ _ _ _ _ _ _ _ _ made body =>
      cases keyword with
      | repeat_ | with_ | while_ | until_ =>
          cases made
          exact ⟨rfl, body.2⟩
      | _ => simp [Keyword.headed?] at made
  | forLoop _ _ _ _ _ _ _ _ _ _ body => exact ⟨rfl, body.2⟩
  | @jump _ keyword _ _ _ _ made =>
      cases keyword with
      | break_ | continue_ | exit_ =>
          cases made
          exact plain rfl rfl
      | _ => simp [Keyword.jump?] at made
  | close | inside => trivial

/-- Reading on after a statement: as long as it ends open and an `else` is ahead, what follows the
`else` is attached to it. -/
inductive Continues : Stmt → List Token → Stmt → List Token → Prop where
  | stop {whole : Stmt} {rest : List Token}
      (shut : whole.endsOpen = true → headKind (skipEnds rest) ≠ .keyword .else_) :
      Continues whole rest whole rest
  | take {whole taken result : Stmt} {word : Token} {rest more middle last : List Token}
      (isOpen : whole.endsOpen = true) (shape : skipEnds rest = word :: more)
      (otherwise : word.kind = .keyword .else_) (forms : Forms (.statement taken) more middle)
      (goesOn : Continues (whole.attach taken) middle result last) :
      Continues whole rest result last

namespace Continues

variable {whole result : Stmt} {rest other last : List Token}

theorem ofShut (shut : whole.endsOpen = false) : Continues whole rest whole rest :=
  stop (by simp [shut])

theorem eq_of_shut (continues : Continues whole rest result last) (shut : whole.endsOpen = false) :
    result = whole ∧ last = rest := by
  cases continues with
  | stop => exact ⟨rfl, rfl⟩
  | take isOpen => simp [shut] at isOpen

theorem congr (continues : Continues whole rest result last) (same : skipEnds other = skipEnds rest) :
    ∃ final, Continues whole other result final ∧ skipEnds final = skipEnds last := by
  cases continues with
  | stop shut => exact ⟨other, .stop (same ▸ shut), same⟩
  | take isOpen shape otherwise forms goesOn =>
      exact ⟨last, .take isOpen (same ▸ shape) otherwise forms goesOn, rfl⟩

theorem unwrap {body : Stmt} (wrap : Stmt → Stmt)
    (opens : ∀ body, (wrap body).endsOpen = body.endsOpen)
    (attaches : ∀ body taken, (wrap body).attach taken = wrap (body.attach taken))
    (continues : Continues (wrap body) rest result last) :
    ∃ inner, wrap inner = result ∧ Continues body rest inner last := by
  generalize shape : wrap body = whole at continues
  induction continues generalizing body with
  | stop shut =>
      subst shape
      exact ⟨body, rfl, .stop (opens body ▸ shut)⟩
  | take isOpen ahead otherwise forms _ ih =>
      subst shape
      obtain ⟨inner, rfl, continues⟩ := ih (attaches body _).symm
      exact ⟨inner, rfl, .take (opens body ▸ isOpen) ahead otherwise forms continues⟩

theorem split {taken : Stmt} (isOpen : whole.endsOpen = true) (filled : taken.isHole = false)
    (continues : Continues (whole.attach taken) rest result last) :
    ∃ grown middle, Continues taken rest grown middle ∧
      Continues (whole.attach grown) middle result last := by
  generalize shape : whole.attach taken = joined at continues
  induction continues generalizing taken with
  | stop shut =>
      subst shape
      exact ⟨taken, _, .stop fun takenOpen => shut (Stmt.endsOpen_attach isOpen takenOpen), .stop shut⟩
  | @take joined next _ _ _ _ _ _ joinedOpen ahead otherwise forms goesOn ih =>
      subst shape
      cases takenOpen : taken.endsOpen with
      | true =>
          obtain ⟨grown, middle, continues, later⟩ := ih (Stmt.isHole_attach next filled)
            (Stmt.attach_attach next isOpen filled takenOpen).symm
          exact ⟨grown, middle, .take takenOpen ahead otherwise forms continues, later⟩
      | false =>
          exact ⟨taken, _, .ofShut takenOpen, .take joinedOpen ahead otherwise forms goesOn⟩

theorem branch {word : Token} {test : Expr} {yes : Stmt} {tokens input : List Token}
    (found : word.kind = .keyword .if_) (tests : Reads (.value (.paren test)) tokens input)
    (yesForms : ∀ {inner final}, Continues yes rest inner final →
      ∃ final', Forms (.statement inner) input final' ∧ skipEnds final' = skipEnds final)
    (continues : Continues (.branch test yes .hole) rest result last) :
    ∃ last', Forms (.begun result) (word :: tokens) last' ∧ skipEnds last' = skipEnds last := by
  generalize shape : Stmt.branch test yes .hole = whole at continues
  induction continues generalizing yes with
  | stop shut =>
      subst shape
      have noElse := shut rfl
      obtain ⟨final, forms, same⟩ := yesForms (.stop fun _ => noElse)
      exact ⟨final, .branch found tests forms (same ▸ noElse), same⟩
  | @take _ taken _ _ rest _ middle _ _ ahead otherwise forms goesOn ih =>
      subst shape
      cases yesOpen : yes.endsOpen with
      | true =>
          exact ih (fun continues => yesForms (.take yesOpen ahead otherwise forms continues))
            (Stmt.attach_branch_open yesOpen).symm
      | false =>
          obtain ⟨filled, shut⟩ := forms.shut
          obtain ⟨final, yesRead, same⟩ := yesForms (.ofShut yesOpen)
          rw [Stmt.attach_branch_shut yesOpen] at goesOn
          cases goesOn with
          | stop => exact ⟨middle, .branchElse found tests yesRead (same ▸ ahead) otherwise forms, rfl⟩
          | take isOpen again otherwiseAgain =>
              -- The attached statement has taken every `else` that it could.
              have takenOpen : taken.endsOpen = true := by
                simpa [Stmt.endsOpen, filled] using isOpen
              refine absurd ?_ (shut takenOpen)
              rw [again]
              exact otherwiseAgain

end Continues

end GameScript
