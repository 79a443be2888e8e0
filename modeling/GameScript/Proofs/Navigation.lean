import GameScript.Issue
import GameScript.Proofs.Numeral
import Mathlib.Data.List.Induction
import Mathlib.Data.List.Nodup

/-!
Paths in a script, read as navigation. A path leads to one place only, and different locations are
written as different paths.
-/

namespace GameScript

inductive Node where
  | list (statements : List Stmt)
  | statement (inner : Stmt)

namespace Node

/-- The parts of a node, with the steps that lead to them. The clauses of a `for` header are no
bodies. -/
def parts : Node → List (LocationStep × Node)
  | list statements => statements.zipIdx.map fun (inner, index) => (.item index, .statement inner)
  | statement (.block body) => [(.body, .list body)]
  | statement (.branch _ yes no) => [(.body, .statement yes), (.otherwise, .statement no)]
  | statement (.loop _ _ body) | statement (.repeats _ body) | statement (.withTarget _ body)
  | statement (.forLoop _ _ _ body) => [(.body, .statement body)]
  | statement _ => []

theorem mem_parts_list {statements : List Stmt} {step : LocationStep} {part : Node} :
    (step, part) ∈ (list statements).parts ↔
      ∃ index inner, statements[index]? = some inner ∧ step = .item index ∧
        part = .statement inner := by
  simp only [parts, List.mem_map, Prod.mk.injEq, Prod.exists, List.mem_zipIdx_iff_getElem?]
  constructor
  · rintro ⟨inner, index, found, rfl, rfl⟩
    exact ⟨index, inner, found, rfl, rfl⟩
  · rintro ⟨index, inner, found, rfl, rfl⟩
    exact ⟨inner, index, found, rfl, rfl⟩

theorem steps_nodup (node : Node) : (node.parts.map Prod.fst).Nodup := by
  cases node with
  | list statements =>
      have steps : (list statements).parts.map Prod.fst =
          (List.range' 0 statements.length).map LocationStep.item := by
        rw [← List.zipIdx_map_snd, parts, List.map_map, List.map_map]
        rfl
      rw [steps]
      apply List.Nodup.map
      · intro first second same
        exact LocationStep.item.inj same
      · exact List.nodup_range'
  | statement inner =>
      cases inner with
      | branch => simp [parts]
      | block | loop | repeats | withTarget | forLoop => exact List.nodup_singleton _
      | _ => exact List.nodup_nil

theorem parts_unique {node first second : Node} {step : LocationStep}
    (isFirst : (step, first) ∈ node.parts) (isSecond : (step, second) ∈ node.parts) :
    first = second := by
  have same := List.inj_on_of_nodup_map node.steps_nodup isFirst isSecond rfl
  exact congrArg Prod.snd same

theorem sizeOf_part {node part : Node} {step : LocationStep} (isPart : (step, part) ∈ node.parts) :
    sizeOf part < sizeOf node := by
  cases node with
  | list statements =>
      obtain ⟨index, inner, found, _, rfl⟩ := mem_parts_list.mp isPart
      have smaller := List.sizeOf_lt_of_mem (List.mem_of_getElem? found)
      simp only [Node.statement.sizeOf_spec, Node.list.sizeOf_spec]
      omega
  | statement inner =>
      cases inner with
      | block =>
          simp only [parts, List.mem_singleton, Prod.mk.injEq] at isPart
          simp [isPart.2]
      | loop | repeats | withTarget | forLoop =>
          simp only [parts, List.mem_singleton, Prod.mk.injEq] at isPart
          simp only [isPart.2, Node.statement.sizeOf_spec, Stmt.loop.sizeOf_spec,
            Stmt.repeats.sizeOf_spec, Stmt.withTarget.sizeOf_spec, Stmt.forLoop.sizeOf_spec]
          omega
      | branch =>
          simp only [parts, List.mem_cons, List.not_mem_nil, or_false, Prod.mk.injEq] at isPart
          rcases isPart with ⟨_, rfl⟩ | ⟨_, rfl⟩ <;>
            · simp only [Node.statement.sizeOf_spec, Stmt.branch.sizeOf_spec]
              omega
      | _ => simp [parts] at isPart

theorem ofParts {motive : Node → Prop}
    (whole : ∀ node, (∀ step part, (step, part) ∈ node.parts → motive part) → motive node)
    (node : Node) : motive node :=
  whole node fun _ part _ => ofParts whole part
termination_by sizeOf node
decreasing_by exact sizeOf_part ‹_›

/-- A property holds of all nodes if it holds of a list whenever it holds of the items, and of a
statement whenever it holds of its parts. -/
theorem ofItems {motive : Node → Prop}
    (ofList : ∀ statements, (∀ inner ∈ statements, motive (statement inner)) →
      motive (list statements))
    (ofStatement : ∀ inner,
      (∀ step part, (step, part) ∈ (statement inner).parts → motive part) →
      motive (statement inner))
    (node : Node) : motive node := by
  refine ofParts (fun whole parts => ?_) node
  cases whole with
  | list statements =>
      refine ofList statements fun inner isItem => ?_
      obtain ⟨index, found⟩ := List.mem_iff_getElem?.mp isItem
      exact parts _ _ (mem_parts_list.mpr ⟨index, inner, found, rfl, rfl⟩)
  | statement inner => exact ofStatement inner parts

end Node

/-! Paths in writing. -/

def LocationStep.text : LocationStep → String
  | .item index => "[" ++ toString index ++ "]"
  | .body => ".body"
  | .otherwise => ".else"

namespace Location

theorem text_eq (location : Location) :
    location.text =
      (if location.inArgs then "args" else "body") ++
        String.join (location.steps.map LocationStep.text) := by
  have steps : LocationStep.text = fun
      | .item index => "[" ++ toString index ++ "]"
      | .body => ".body"
      | .otherwise => ".else" := by
    funext step
    cases step <;> rfl
  rw [steps]
  rfl

theorem text_below (location : Location) (step : LocationStep) :
    (location.below step).text = location.text ++ step.text := by
  have steps : (location.below step).steps = location.steps ++ [step] := rfl
  have list : (location.below step).inArgs = location.inArgs := rfl
  rw [text_eq, text_eq, steps, list, List.map_append, String.join_append, String.append_assoc]
  simp

end Location

theorem LocationStep.text_toList (index : Nat) :
    (item index).text.toList = '[' :: (Nat.toDigits 10 index ++ [']']) := by
  simp [text, Nat.toString_eq_repr, Nat.toList_repr]

theorem LocationStep.item_cancel {front others : List Char} {first second : Nat}
    (same : front ++ '[' :: (Nat.toDigits 10 first ++ [']']) =
      others ++ '[' :: (Nat.toDigits 10 second ++ [']'])) :
    front = others ∧ first = second := by
  have digits (value : Nat) : ∀ c ∈ (Nat.toDigits 10 value).reverse, c.isDigit = true := by
    intro c member
    exact Nat.isDigit_of_mem_toDigits (by decide) (by decide) (List.mem_reverse.mp member)
  have bracket (list : List Char) : ∀ c ∈ ('[' :: list).head?, c.isDigit = false := by
    rintro c ⟨⟩
    rfl
  -- Read from the end, the digits go on up to the bracket.
  have reversed : (Nat.toDigits 10 first).reverse ++ '[' :: front.reverse =
      (Nat.toDigits 10 second).reverse ++ '[' :: others.reverse := by
    simpa using congrArg List.reverse same
  obtain ⟨taken, dropped⟩ := Double.split_digits (digits first) (bracket front.reverse)
  obtain ⟨otherTaken, otherDropped⟩ := Double.split_digits (digits second) (bracket others.reverse)
  rw [reversed] at taken dropped
  constructor
  · simpa using dropped.symm.trans otherDropped
  · have values := congrArg (Nat.ofDigitChars 10 · 0) (List.reverse_inj.mp
      (taken.symm.trans otherTaken))
    simpa using values

def LocationStep.lastChar : LocationStep → Char
  | .item _ => ']'
  | .body => 'y'
  | .otherwise => 'e'

theorem LocationStep.getLast?_append_text (front : List Char) (step : LocationStep) :
    (front ++ step.text.toList).getLast? = some step.lastChar := by
  cases step with
  | item index =>
      have split : front ++ (item index).text.toList =
          (front ++ '[' :: Nat.toDigits 10 index) ++ [']'] := by simp [text_toList]
      rw [split, List.getLast?_concat]
      rfl
  | body | otherwise => simp [text, lastChar]

theorem LocationStep.append_text_inj {front others : String} {first second : LocationStep}
    (same : front ++ first.text = others ++ second.text) : front = others ∧ first = second := by
  have lists := congrArg String.toList same
  simp only [String.toList_append] at lists
  have ends := congrArg List.getLast? lists
  rw [getLast?_append_text, getLast?_append_text, Option.some.injEq] at ends
  cases first with
  | item first =>
      cases second with
      | item second =>
          rw [text_toList, text_toList] at lists
          obtain ⟨fronts, rfl⟩ := item_cancel lists
          exact ⟨String.toList_inj.mp fronts, rfl⟩
      | body | otherwise => simp [lastChar] at ends
  | body =>
      cases second with
      | body => exact ⟨String.toList_inj.mp (List.append_cancel_right lists), rfl⟩
      | item | otherwise => simp [lastChar] at ends
  | otherwise =>
      cases second with
      | otherwise => exact ⟨String.toList_inj.mp (List.append_cancel_right lists), rfl⟩
      | item | body => simp [lastChar] at ends

theorem LocationStep.length_text (step : LocationStep) : 0 < step.text.length := by
  cases step with
  | item index => simp [← String.length_toList, text_toList]
  | body | otherwise => decide

namespace Location

theorem length_start (list : Bool) : (Location.mk list []).text.length = 4 := by
  cases list <;> decide

theorem length_text (location : Location) : 4 ≤ location.text.length := by
  obtain ⟨list, steps⟩ := location
  induction steps using List.reverseRecOn with
  | nil => exact Nat.le_of_eq (length_start list).symm
  | append_singleton steps step ih =>
      have longer := text_below ⟨list, steps⟩ step
      rw [below] at longer
      rw [longer, String.length_append]
      omega

theorem text_below_ne_start (location : Location) (step : LocationStep) (list : Bool) :
    (location.below step).text ≠ (Location.mk list []).text := by
  intro same
  have lengths := congrArg String.length same
  have long := location.length_text
  have filled := step.length_text
  rw [text_below, String.length_append, length_start] at lengths
  omega

theorem text_injective : Function.Injective Location.text := by
  rintro ⟨list, steps⟩ ⟨otherList, otherSteps⟩ same
  induction steps using List.reverseRecOn generalizing otherSteps with
  | nil =>
      cases otherSteps using List.reverseRecOn with
      | nil => revert same; cases list <;> cases otherList <;> decide
      | append_singleton otherSteps otherStep =>
          exact absurd same.symm (text_below_ne_start ⟨otherList, otherSteps⟩ otherStep list)
  | append_singleton steps step ih =>
      cases otherSteps using List.reverseRecOn with
      | nil => exact absurd same (text_below_ne_start ⟨list, steps⟩ step otherList)
      | append_singleton otherSteps otherStep =>
          have split := text_below ⟨list, steps⟩ step
          have otherSplit := text_below ⟨otherList, otherSteps⟩ otherStep
          obtain ⟨fronts, rfl⟩ :=
            LocationStep.append_text_inj (split.symm.trans (same.trans otherSplit))
          have shorter := ih _ fronts
          simp only [Location.mk.injEq] at shorter ⊢
          rw [shorter.1, shorter.2]
          exact ⟨rfl, rfl⟩

end Location

/-! Navigation. -/

/-- The path leads to the node: `body` to the statements of the script, and a longer one to a part
of what its front leads to. -/
inductive Script.Leads (script : Script) : String → Node → Prop where
  | body : Leads script "body" (.list script.body)
  | step {path : String} {node part : Node} {step : LocationStep} (leads : Leads script path node)
      (isPart : (step, part) ∈ node.parts) : Leads script (path ++ step.text) part

namespace Script.Leads

variable {script : Script} {path : String} {node other : Node}

theorem exists_location (leads : script.Leads path node) :
    ∃ location : Location, location.inArgs = false ∧ location.text = path := by
  induction leads with
  | body => exact ⟨Location.scriptBody, rfl, by decide⟩
  | @step _ _ _ step _ _ ih =>
      obtain ⟨location, inBody, rfl⟩ := ih
      exact ⟨location.below step, inBody, location.text_below step⟩

theorem ne_body (leads : script.Leads path node) (step : LocationStep) :
    path ++ step.text ≠ "body" := by
  obtain ⟨location, _, rfl⟩ := leads.exists_location
  rw [← location.text_below]
  exact location.text_below_ne_start step false

theorem unique (leads : script.Leads path node) (otherwise : script.Leads path other) :
    node = other := by
  induction leads generalizing other with
  | body =>
      generalize start : "body" = path at otherwise
      cases otherwise with
      | body => rfl
      | step leads => exact absurd start.symm (leads.ne_body _)
  | @step path node part step leads isPart ih =>
      generalize whole : path ++ step.text = longer at otherwise
      cases otherwise with
      | body => exact absurd whole (leads.ne_body step)
      | step otherLeads otherPart =>
          obtain ⟨rfl, rfl⟩ := LocationStep.append_text_inj whole
          obtain rfl := ih otherLeads
          exact Node.parts_unique isPart otherPart

end Script.Leads

end GameScript
