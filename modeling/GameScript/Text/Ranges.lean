/-! Sets of code points given by ascending ranges. -/

namespace GameScript.Text

/-- Membership in ascending, disjoint ranges; the search stops at the first range above. -/
def inRanges : List (Nat × Nat) → Nat → Bool
  | [], _ => false
  | (low, high) :: rest, code =>
      if code < low then false else code ≤ high || inRanges rest code

end GameScript.Text
