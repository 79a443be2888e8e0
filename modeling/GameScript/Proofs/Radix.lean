import GameScript.Proofs.Rounding

/-!
Hexadecimal and binary numerals. Their value is accumulated digit by digit and rounded at every
step. Main statement: once the value has more than 53 bits, further digits count as zeros, so the
result is the nearest double unless the digits before them end in a tie that they would break.
-/

namespace GameScript.Double

/-- The number that digits lead on to from a value, where digits count as zeros once the value has
more than 53 bits. -/
def leadingFrom (base : Nat) : Nat → List Char → Nat
  | value, [] => value
  | value, c :: rest =>
      leadingFrom base (value * base + if value < 2 ^ 53 then digitValue c else 0) rest

def leadingValue (base : Nat) (digits : List Char) : Nat := leadingFrom base 0 digits

theorem le_leadingFrom {base : Nat} (positive : 0 < base) (value : Nat) (digits : List Char) :
    value ≤ leadingFrom base value digits := by
  induction digits generalizing value with
  | nil => exact Nat.le_refl _
  | cons c rest ih =>
      have grown : value ≤ value * base := Nat.le_mul_of_pos_right value positive
      rw [leadingFrom]
      exact Nat.le_trans (Nat.le_trans grown (Nat.le_add_right _ _)) (ih _)

theorem mul_add_ofInt {bits value digit : Nat} (base : bits < 53) (below : digit < 2 ^ bits)
    (fits : significant (value * 2 ^ bits) < 2 ^ 1024) :
    ((ofInt value).mul (ofInt (2 ^ bits : Nat))).add (ofInt digit) =
      ofInt (value * 2 ^ bits + if value < 2 ^ 53 then digit else 0 : Nat) := by
  have baseSmall : 2 ^ bits < 2 ^ 53 := Nat.pow_lt_pow_right (by decide) base
  have exactBase : significant (2 ^ bits) = 2 ^ bits := significant_eq_self baseSmall
  have exactDigit : significant digit = digit := significant_eq_self (by omega)
  have product : significant (significant value * 2 ^ bits) = significant value * 2 ^ bits := by
    rw [significant_mul_two_pow, significant_significant]
  have fitsScaled : significant value * 2 ^ bits < 2 ^ 1024 := by
    rw [← significant_mul_two_pow]
    exact fits
  have large : 2 ^ 53 < 2 ^ 1024 := by apply Nat.pow_lt_pow_right <;> decide
  have fitsValue : significant value < 2 ^ 1024 :=
    Nat.lt_of_le_of_lt (Nat.le_mul_of_pos_right _ (Nat.two_pow_pos bits)) fitsScaled
  rw [mul_ofInt fitsValue (by omega), exactBase, add_ofInt (by omega) (by omega), product,
    exactDigit]
  by_cases small : value < 2 ^ 53
  · rw [if_pos small, significant_eq_self small]
  · have lost := (significant_tail_iff (two_pow_le_significant (Nat.le_of_not_lt small))
      below).mpr fun tie => not_tiesDown_significant value tie.1
    rw [significant_significant] at lost
    rw [if_neg small, Nat.add_zero, ofInt_eq_iff (by omega) fits, lost, significant_mul_two_pow]

theorem foldl_ofInt {bits : Nat} (base : bits < 53) {digits : List Char}
    (below : ∀ c ∈ digits, digitValue c < 2 ^ bits) (value : Nat)
    (fits : leadingFrom (2 ^ bits) value digits < 2 ^ 1023) :
    digits.foldl (fun value c => (value.mul (ofInt (2 ^ bits : Nat))).add (ofInt (digitValue c)))
      (ofInt value) = ofInt (leadingFrom (2 ^ bits) value digits) := by
  induction digits generalizing value with
  | nil => rfl
  | cons c rest ih =>
      rw [leadingFrom] at fits ⊢
      have reached := le_leadingFrom (Nat.two_pow_pos bits)
        (value * 2 ^ bits + if value < 2 ^ 53 then digitValue c else 0) rest
      have fitsProduct : significant (value * 2 ^ bits) < 2 ^ 1024 :=
        significant_fits (by omega)
      rw [List.foldl_cons, mul_add_ofInt base (below c (by simp)) fitsProduct]
      exact ih (fun d member => below d (by simp [member])) _ fits

theorem ofRadix_eq {bits : Nat} (base : bits < 53) {text : List Char}
    (below : ∀ c ∈ text, digitValue c < 2 ^ bits)
    (fits : leadingValue (2 ^ bits) (text.filter (· ≠ '_')) < 2 ^ 1023) :
    ofRadix (2 ^ bits : Nat) text =
      ofInt (leadingValue (2 ^ bits) (text.filter (· ≠ '_'))) := by
  have belowRow : ∀ c ∈ text.filter (· ≠ '_'), digitValue c < 2 ^ bits :=
    fun c member => below c ((List.mem_filter.mp member).1)
  have folded := foldl_ofInt base belowRow 0 fits
  rw [List.foldl_filter] at folded
  simp only [ne_eq, decide_eq_true_eq, ite_not] at folded
  have finite := not_infinite_ofInt (significant_fits fits)
  rw [leadingValue, ← folded] at finite ⊢
  rw [ofRadix, if_neg (by rw [Bool.not_eq_true]; exact finite)]
  rfl

theorem foldl_digits {base : Nat} {digits : List Char} (below : ∀ c ∈ digits, digitValue c < base)
    (value : Nat) :
    ∃ tail < base ^ digits.length,
      digits.foldl (fun value c => value * base + digitValue c) value =
        value * base ^ digits.length + tail := by
  induction digits generalizing value with
  | nil => exact ⟨0, by simp, by simp⟩
  | cons c rest ih =>
      obtain ⟨tail, small, sum⟩ :=
        ih (fun d member => below d (by simp [member])) (value * base + digitValue c)
      have digit : digitValue c + 1 ≤ base := below c (by simp)
      refine ⟨digitValue c * base ^ rest.length + tail, ?_, ?_⟩
      · have scaled := Nat.mul_le_mul_right (base ^ rest.length) digit
        rw [Nat.succ_mul] at scaled
        rw [List.length_cons, Nat.pow_succ']
        omega
      · rw [List.foldl_cons, sum, List.length_cons, Nat.pow_succ', Nat.add_mul, Nat.mul_assoc,
          Nat.add_assoc]

theorem leadingFrom_wide {base value : Nat} (positive : 0 < base) (wide : 2 ^ 53 ≤ value)
    (digits : List Char) : leadingFrom base value digits = value * base ^ digits.length := by
  induction digits generalizing value with
  | nil => simp [leadingFrom]
  | cons c rest ih =>
      have grown : value ≤ value * base := Nat.le_mul_of_pos_right value positive
      rw [leadingFrom, if_neg (Nat.not_lt_of_le wide), Nat.add_zero,
        ih (Nat.le_trans wide grown), List.length_cons, Nat.pow_succ', Nat.mul_assoc]

theorem leadingFrom_spec {bits : Nat} {digits : List Char}
    (below : ∀ c ∈ digits, digitValue c < 2 ^ bits) (value : Nat) :
    ∃ head shift, ∃ tail < 2 ^ shift,
      leadingFrom (2 ^ bits) value digits = head * 2 ^ shift ∧
      digits.foldl (fun value c => value * 2 ^ bits + digitValue c) value =
        head * 2 ^ shift + tail ∧
      (2 ^ 53 ≤ head ∨ tail = 0) := by
  induction digits generalizing value with
  | nil => exact ⟨value, 0, 0, by simp, by simp [leadingFrom], by simp, Or.inr rfl⟩
  | cons c rest ih =>
      by_cases small : value < 2 ^ 53
      · rw [leadingFrom, if_pos small, List.foldl_cons]
        exact ih (fun d member => below d (by simp [member])) _
      · obtain ⟨tail, short, sum⟩ := foldl_digits below value
        have wide := Nat.le_of_not_lt small
        refine ⟨value, bits * (c :: rest).length, tail, ?_, ?_, ?_, Or.inl wide⟩
        · rw [Nat.pow_mul]
          exact short
        · rw [Nat.pow_mul]
          exact leadingFrom_wide (Nat.two_pow_pos bits) wide _
        · rw [Nat.pow_mul]
          exact sum

theorem significant_leadingValue_iff {bits : Nat} {digits : List Char}
    (below : ∀ c ∈ digits, digitValue c < 2 ^ bits) :
    significant (leadingValue (2 ^ bits) digits) = significant (natOfDigits (2 ^ bits) digits) ↔
      ¬ (leadingValue (2 ^ bits) digits ≠ natOfDigits (2 ^ bits) digits ∧
        TiesDown (leadingValue (2 ^ bits) digits)) := by
  obtain ⟨head, shift, tail, short, leading, whole, wide⟩ := leadingFrom_spec below 0
  rw [leadingValue, leading, natOfDigits, whole]
  by_cases none : tail = 0
  · simp [none]
  · have wide : 2 ^ 53 ≤ head := by omega
    rw [tiesDown_mul_two_pow wide, significant_mul_two_pow, eq_comm,
      significant_tail_iff wide short, and_comm]
    simp [none]

theorem leadingValue_le {bits : Nat} {digits : List Char}
    (below : ∀ c ∈ digits, digitValue c < 2 ^ bits) :
    leadingValue (2 ^ bits) digits ≤ natOfDigits (2 ^ bits) digits := by
  obtain ⟨head, shift, tail, _, leading, whole, _⟩ := leadingFrom_spec below 0
  rw [leadingValue, leading, natOfDigits, whole]
  exact Nat.le_add_right _ _

end GameScript.Double

namespace GameScript

open Double

/-- A decimal numeral denotes the double nearest to its number. A hexadecimal or binary one denotes
the double nearest to the number of its leading digits, which is the one nearest to its own number
unless the leading digits end in a tie that goes down and a digit behind them is not zero. -/
theorem radix_nearest_iff {base : Nat} {text : List Char} (known : base = 2 ∨ base = 16)
    (below : ∀ c ∈ text, digitValue c < base)
    (small : natOfDigits base (text.filter (· ≠ '_')) < 2 ^ 1023) :
    let digits := text.filter (· ≠ '_')
    let n := natOfDigits base digits
    (∀ x, ofNumeral? (Nat.toDigits 10 n) = some x ↔ IsNearest n x) ∧
    IsNearest (leadingValue base digits) (ofRadix base text) ∧
    (IsNearest n (ofRadix base text) ↔
      ¬ (leadingValue base digits ≠ n ∧ TiesDown (leadingValue base digits))) := by
  obtain ⟨bits, limit, rfl⟩ : ∃ bits < 53, base = 2 ^ bits := by
    rcases known with rfl | rfl
    · exact ⟨1, by decide, rfl⟩
    · exact ⟨4, by decide, rfl⟩
  intro digits n
  have belowDigits : ∀ c ∈ digits, digitValue c < 2 ^ bits :=
    fun c member => below c ((List.mem_filter.mp member).1)
  have smallLeading : leadingValue (2 ^ bits) digits < 2 ^ 1023 :=
    Nat.lt_of_le_of_lt (leadingValue_le belowDigits) small
  have fits := significant_fits small
  have fitsLeading := significant_fits smallLeading
  have value : ofRadix (2 ^ bits : Nat) text = ofInt (leadingValue (2 ^ bits) digits) :=
    ofRadix_eq limit below smallLeading
  refine ⟨?_, ?_, ?_⟩
  · intro x
    rw [ofNumeral?_toDigits, isNearest_iff fits, Option.some.injEq, eq_comm]
  · rw [value]
    exact isNearest_ofInt fitsLeading
  · rw [isNearest_iff fits, value, ofInt_eq_iff fitsLeading fits]
    exact significant_leadingValue_iff belowDigits

/-- The first fourteen digits end in a tie that goes up, and the last one cannot change that. -/
theorem radix_nearest_tie_up :
    let text := "8000_0000_0000_0c01".toList
    let n := natOfDigits 16 (text.filter (· ≠ '_'))
    text.all (digitValue · < 16) = true ∧ n < 2 ^ 1023 ∧
      leadingValue 16 (text.filter (· ≠ '_')) ≠ n ∧ IsNearest n (ofRadix 16 text) := by
  intro text n
  have below : text.all (digitValue · < 16) = true := by decide +kernel
  have small : n < 2 ^ 1023 := by decide +kernel
  have rounded := @radix_nearest_iff 16 text (Or.inr rfl)
    (fun c member => of_decide_eq_true (List.all_eq_true.mp below c member)) small
  exact ⟨below, small, by decide +kernel, rounded.2.2.mpr (by decide +kernel)⟩

/-- The first fifteen digits end in a tie that goes down, although the last digit lies above it. -/
theorem radix_misses_nearest :
    let text := "1000000000000081".toList
    let n := natOfDigits 16 (text.filter (· ≠ '_'))
    n < 2 ^ 1023 ∧ ofRadix 16 text = ofInt (2 ^ 60 : Nat) ∧
      IsNearest n (ofInt (2 ^ 60 + 256 : Nat)) ∧ ¬ IsNearest n (ofRadix 16 text) := by
  intro text n
  have small : n < 2 ^ 1023 := by decide +kernel
  have fits := significant_fits small
  refine ⟨small, by decide +kernel, ?_, ?_⟩
  · rw [isNearest_iff fits]
    decide +kernel
  · rw [isNearest_iff fits]
    decide +kernel

end GameScript
