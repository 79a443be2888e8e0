import GameScript.Proofs.Numeral

/-!
Whole numbers as doubles. Main statements: the double of a whole number is the nearest one, and of
two that are equally near the one with the even significand; products and sums of such doubles are
the doubles of the products and sums of the rounded numbers.
-/

namespace GameScript.Double

theorem roundQuotient_bounds (num den : Nat) :
    num / den ≤ roundQuotient num den ∧ roundQuotient num den ≤ num / den + 1 := by
  simp only [roundQuotient]
  split
  · omega
  · split <;> omega

def spacing (n : Nat) : Nat := 2 ^ (n.log2 - 52)

theorem spacing_pos (n : Nat) : 0 < spacing n := Nat.two_pow_pos _

theorem log2_le_of_lt {n bits : Nat} (small : n < 2 ^ (bits + 1)) : n.log2 ≤ bits := by
  by_cases zero : n = 0
  · simp [zero]
  · exact Nat.le_of_lt_succ ((Nat.log2_lt zero).mpr small)

theorem spacing_eq_one {n : Nat} (small : n < 2 ^ 53) : spacing n = 1 := by
  have log := log2_le_of_lt small
  rw [spacing, show n.log2 - 52 = 0 by omega, Nat.pow_zero]

theorem spacing_even {n : Nat} (wide : 2 ^ 53 ≤ n) : spacing n = 2 * 2 ^ (n.log2 - 53) := by
  have log : 53 ≤ n.log2 := (Nat.le_log2 (by omega)).mpr wide
  rw [spacing, ← Nat.pow_succ', show (n.log2 - 53).succ = n.log2 - 52 by omega]

theorem log2_mul_two_pow_add {n shift tail : Nat} (positive : n ≠ 0) (below : tail < 2 ^ shift) :
    (n * 2 ^ shift + tail).log2 = n.log2 + shift := by
  have lower : 2 ^ n.log2 ≤ n := Nat.log2_self_le positive
  have upper : n + 1 ≤ 2 ^ (n.log2 + 1) := Nat.lt_log2_self
  apply log2_eq_of_bounds
  · have scaled := Nat.mul_le_mul_right (2 ^ shift) lower
    rw [← Nat.pow_add] at scaled
    omega
  · have scaled := Nat.mul_le_mul_right (2 ^ shift) upper
    rw [← Nat.pow_add, Nat.add_mul, Nat.one_mul,
      show n.log2 + 1 + shift = n.log2 + shift + 1 by omega] at scaled
    omega

theorem spacing_mul_two_pow_add {n shift tail : Nat} (wide : 2 ^ 52 ≤ n)
    (below : tail < 2 ^ shift) : spacing (n * 2 ^ shift + tail) = spacing n * 2 ^ shift := by
  have positive : n ≠ 0 := by omega
  have log : 52 ≤ n.log2 := (Nat.le_log2 positive).mpr wide
  rw [spacing, log2_mul_two_pow_add positive below, spacing, ← Nat.pow_add,
    show n.log2 + shift - 52 = n.log2 - 52 + shift by omega]

theorem spacing_mul_two_pow {n : Nat} (wide : 2 ^ 52 ≤ n) (shift : Nat) :
    spacing (n * 2 ^ shift) = spacing n * 2 ^ shift := by
  have scaled := spacing_mul_two_pow_add wide (Nat.two_pow_pos shift)
  rwa [Nat.add_zero] at scaled

theorem quotient_bounds {n : Nat} (wide : 2 ^ 52 ≤ n) :
    2 ^ 52 ≤ n / spacing n ∧ n / spacing n < 2 ^ 53 := by
  have positive : n ≠ 0 := by omega
  have log : 52 ≤ n.log2 := (Nat.le_log2 positive).mpr wide
  constructor
  · rw [Nat.le_div_iff_mul_le (spacing_pos n), spacing, ← Nat.pow_add, Nat.add_sub_cancel' log]
    exact Nat.log2_self_le positive
  · rw [Nat.div_lt_iff_lt_mul (spacing_pos n), spacing, ← Nat.pow_add,
      show 53 + (n.log2 - 52) = n.log2 + 1 by omega]
    exact Nat.lt_log2_self

theorem significand_bounds {n : Nat} (wide : 2 ^ 52 ≤ n) :
    2 ^ 52 ≤ roundQuotient n (spacing n) ∧ roundQuotient n (spacing n) ≤ 2 ^ 53 := by
  have quotient := quotient_bounds wide
  have rounded := roundQuotient_bounds n (spacing n)
  omega

/-- A number rounded to 53 significant bits; a tie goes to the even one. -/
def significant (n : Nat) : Nat := roundQuotient n (spacing n) * spacing n

theorem significant_of_dvd {n : Nat} (multiple : spacing n ∣ n) : significant n = n := by
  obtain ⟨count, product⟩ := multiple
  rw [Nat.mul_comm] at product
  have exact := roundQuotient_mul_self count (spacing n) (spacing_pos n)
  rw [← product] at exact
  rw [significant, exact, ← product]

theorem significant_exact {n : Nat} (small : n < 2 ^ 53) (shift : Nat) :
    significant (n * 2 ^ shift) = n * 2 ^ shift := by
  apply significant_of_dvd
  by_cases zero : n = 0
  · rw [zero, Nat.zero_mul]
    exact Nat.dvd_zero _
  · have log := log2_le_of_lt small
    have scaled : (n * 2 ^ shift).log2 = n.log2 + shift :=
      log2_mul_two_pow_add zero (Nat.two_pow_pos shift)
    rw [spacing, scaled]
    exact Nat.dvd_mul_left_of_dvd (Nat.pow_dvd_pow 2 (by omega)) n

theorem significant_eq_self {n : Nat} (small : n < 2 ^ 53) : significant n = n := by
  apply significant_of_dvd
  rw [spacing_eq_one small]
  exact Nat.one_dvd n

theorem significant_mul_two_pow (n shift : Nat) :
    significant (n * 2 ^ shift) = significant n * 2 ^ shift := by
  by_cases small : n < 2 ^ 53
  · rw [significant_exact small, significant_eq_self small]
  · rw [significant, spacing_mul_two_pow (by omega), significant, ← Nat.mul_assoc,
      roundQuotient_mul_right _ _ _ (Nat.two_pow_pos shift)]

theorem significant_significant (n : Nat) : significant (significant n) = significant n := by
  by_cases small : n < 2 ^ 53
  · rw [significant_eq_self small, significant_eq_self small]
  · have upper := (significand_bounds (n := n) (by omega)).2
    rw [show significant n = roundQuotient n (spacing n) * 2 ^ (n.log2 - 52) from rfl]
    generalize roundQuotient n (spacing n) = significand at upper ⊢
    by_cases carry : significand = 2 ^ 53
    · rw [carry, ← Nat.one_mul (2 ^ 53), Nat.mul_assoc, ← Nat.pow_add]
      exact significant_exact (by decide) _
    · exact significant_exact (by omega) _

theorem significant_le {n bits : Nat} (small : n < 2 ^ bits) : significant n ≤ 2 ^ bits := by
  by_cases narrow : n < 2 ^ 53
  · rw [significant_eq_self narrow]
    exact Nat.le_of_lt small
  · have positive : n ≠ 0 := by omega
    have log : n.log2 < bits := (Nat.log2_lt positive).mpr small
    have wide : 53 ≤ n.log2 := (Nat.le_log2 positive).mpr (Nat.le_of_not_lt narrow)
    have significand := (significand_bounds (n := n) (by omega)).2
    calc significant n ≤ 2 ^ 53 * 2 ^ (n.log2 - 52) := Nat.mul_le_mul_right _ significand
      _ = 2 ^ (53 + (n.log2 - 52)) := (Nat.pow_add 2 53 _).symm
      _ ≤ 2 ^ bits := Nat.pow_le_pow_right (by decide) (by omega)

theorem two_pow_le_significant {n : Nat} (wide : 2 ^ 53 ≤ n) : 2 ^ 53 ≤ significant n := by
  have lower := (significand_bounds (n := n) (by omega)).1
  have unit : 2 ≤ spacing n := by
    rw [spacing_even wide]
    exact Nat.le_mul_of_pos_right 2 (Nat.two_pow_pos _)
  exact Nat.mul_le_mul lower unit

theorem significant_fits {n : Nat} (small : n < 2 ^ 1023) : significant n < 2 ^ 1024 := by
  apply Nat.lt_of_le_of_lt (significant_le small)
  apply Nat.pow_lt_pow_right <;> decide

/-- The number lies half-way between two numbers of 53 significant bits, and the lower one is the
even one. -/
def TiesDown (n : Nat) : Prop := 2 * (n % spacing n) = spacing n ∧ n / spacing n % 2 = 0

instance (n : Nat) : Decidable (TiesDown n) :=
  inferInstanceAs (Decidable (2 * (n % spacing n) = spacing n ∧ n / spacing n % 2 = 0))

theorem tiesDown_mul_two_pow {n : Nat} (wide : 2 ^ 53 ≤ n) (shift : Nat) :
    TiesDown (n * 2 ^ shift) ↔ TiesDown n := by
  have factor := Nat.two_pow_pos shift
  rw [TiesDown, spacing_mul_two_pow (by omega), Nat.mul_mod_mul_right,
    Nat.mul_div_mul_right _ _ factor, ← Nat.mul_assoc, Nat.mul_right_cancel_iff factor, TiesDown]

theorem not_tiesDown_significant (n : Nat) : ¬ TiesDown (significant n) := by
  rintro ⟨half, _⟩
  have multiple : spacing (significant n) ∣ significant n := by
    conv => rhs; rw [← significant_significant n]
    exact Nat.dvd_mul_left _ _
  have unit := spacing_pos (significant n)
  rw [Nat.mod_eq_zero_of_dvd multiple] at half
  omega

/-- What stands behind the point that is rounded to, and behind that, matters only after a tie that
goes down. -/
theorem roundQuotient_tail_iff {num half factor tail : Nat} (below : tail < factor) :
    roundQuotient (num * factor + tail) (2 * half * factor) = roundQuotient num (2 * half) ↔
      ¬ ((2 * (num % (2 * half)) = 2 * half ∧ num / (2 * half) % 2 = 0) ∧ tail ≠ 0) := by
  have positive : 0 < factor := by omega
  have quotient : (num * factor + tail) / (2 * half * factor) = num / (2 * half) := by
    rw [Nat.mul_comm (2 * half), ← Nat.div_div_eq_div_mul, Nat.mul_comm num,
      Nat.mul_add_div positive, Nat.div_eq_of_lt below, Nat.add_zero]
  have remainder : (num * factor + tail) % (2 * half * factor) =
      num % (2 * half) * factor + tail := by
    rw [Nat.mul_comm (2 * half), Nat.mod_mul, Nat.mul_comm num, Nat.mul_add_mod,
      Nat.mod_eq_of_lt below, Nat.mul_add_div positive, Nat.div_eq_of_lt below, Nat.add_zero,
      Nat.mul_comm factor, Nat.add_comm]
  simp only [roundQuotient, quotient, remainder]
  generalize num % (2 * half) = rest
  generalize num / (2 * half) = whole
  rw [show 2 * half * factor = 2 * (half * factor) from Nat.mul_assoc _ _ _]
  -- The tail is less than one unit of the remainder: it matters at the middle only.
  rcases Nat.lt_trichotomy rest half with down | tie | up
  · have scaled := Nat.mul_le_mul_right factor down
    rw [Nat.succ_mul] at scaled
    rw [if_pos (by omega), if_pos (by omega)]
    omega
  · subst rest
    rw [if_neg (by omega), if_neg (Nat.lt_irrefl _), if_neg (Nat.lt_irrefl _)]
    by_cases zero : tail = 0
    · rw [if_neg (by omega)]
      omega
    · rw [if_pos (by omega)]
      omega
  · have scaled := Nat.mul_le_mul_right factor up
    rw [Nat.succ_mul] at scaled
    rw [if_neg (by omega), if_pos (by omega), if_neg (by omega), if_pos (by omega)]
    omega

theorem significant_tail_iff {n shift tail : Nat} (wide : 2 ^ 53 ≤ n) (below : tail < 2 ^ shift) :
    significant (n * 2 ^ shift + tail) = significant n * 2 ^ shift ↔ ¬ (TiesDown n ∧ tail ≠ 0) := by
  rw [significant, spacing_mul_two_pow_add (by omega) below, significant, ← Nat.mul_assoc,
    Nat.mul_right_cancel_iff (Nat.two_pow_pos shift), Nat.mul_right_cancel_iff (spacing_pos n),
    TiesDown, spacing_even wide]
  exact roundQuotient_tail_iff below

theorem ofInt_eq (n : Nat) : ofInt n = ofMagnitude false (roundUnits (n * 2 ^ 1074) 1) := by
  have sign : decide ((n : Int) < 0) = false := by simp
  rw [ofInt, sign, ofRatio, Int.natAbs_natCast]

theorem magnitude_ofMagnitude {magnitude : Nat} (bound : magnitude ≤ infiniteMagnitude) :
    (ofMagnitude false magnitude).magnitude = magnitude := by
  rw [(unsigned_ofMagnitude bound).magnitude_eq, ofMagnitude, if_neg Bool.false_ne_true,
    Nat.zero_add, UInt64.toNat_ofNat']
  exact Nat.mod_eq_of_lt (Nat.lt_of_le_of_lt bound (by decide))

theorem magnitude_ofInt (n : Nat) : (ofInt n).magnitude = roundUnits (n * 2 ^ 1074) 1 := by
  rw [ofInt_eq, magnitude_ofMagnitude (roundUnits_le _ _)]

theorem roundUnits_eq {value : Nat} (finite : roundUnits value 1 < infiniteMagnitude) :
    roundUnits value 1 = (value.log2 - 52) * 2 ^ 52 + roundQuotient value (spacing value) := by
  simp only [roundUnits, Nat.div_one, Nat.one_mul] at finite ⊢
  exact Nat.min_eq_left (by omega)

theorem unitsOf_roundUnits {value : Nat} (finite : roundUnits value 1 < infiniteMagnitude) :
    unitsOf (roundUnits value 1) = significant value := by
  rw [roundUnits_eq finite]
  by_cases small : value < 2 ^ 53
  · have log := log2_le_of_lt small
    have kept := significant_eq_self small
    rw [significant, spacing_eq_one small, Nat.mul_one] at kept
    rw [significant_eq_self small, spacing_eq_one small, kept, unitsOf,
      show value.log2 - 52 = 0 by omega, Nat.zero_mul, Nat.zero_add]
    split
    · rfl
    · rw [show value / 2 ^ 52 = 1 by omega, Nat.sub_self, Nat.pow_zero]
      omega
  · obtain ⟨lower, upper⟩ := significand_bounds (n := value) (by omega)
    rw [significant]
    generalize roundQuotient value (spacing value) = significand at lower upper ⊢
    rw [spacing, unitsOf_normal (by omega)]
    generalize value.log2 - 52 = scale
    by_cases carry : significand = 2 ^ 53
    · rw [show (scale * 2 ^ 52 + significand) % 2 ^ 52 = 0 by omega,
        show (scale * 2 ^ 52 + significand) / 2 ^ 52 - 1 = scale + 1 by omega, Nat.pow_succ, carry]
      omega
    · rw [show (scale * 2 ^ 52 + significand) % 2 ^ 52 + 2 ^ 52 = significand by omega,
        show (scale * 2 ^ 52 + significand) / 2 ^ 52 - 1 = scale by omega]

theorem exponent_le {significand scale limit : Nat} (lower : 2 ^ 52 ≤ significand)
    (bound : significand * 2 ^ scale < 2 ^ 53 * 2 ^ limit) :
    scale < limit ∨ scale = limit ∧ significand < 2 ^ 53 := by
  rcases Nat.lt_trichotomy scale limit with less | same | greater
  · exact Or.inl less
  · rw [same] at bound
    exact Or.inr ⟨same, Nat.lt_of_mul_lt_mul_right bound⟩
  · have least := Nat.mul_le_mul lower (Nat.pow_le_pow_right (Nat.succ_pos 1) greater)
    rw [← Nat.pow_add, show 52 + limit.succ = 53 + limit by omega, Nat.pow_add] at least
    exact absurd bound (Nat.not_lt_of_le least)

theorem two_pow_mul_two_pow {a b c d : Nat} (same : a + b = c + d) :
    2 ^ a * 2 ^ b = 2 ^ c * 2 ^ d := by
  rw [← Nat.pow_add, same, Nat.pow_add]

theorem two_pow_le_mul_two_pow {n bits shift : Nat} (positive : n ≠ 0) (le : bits ≤ shift) :
    2 ^ bits ≤ n * 2 ^ shift :=
  Nat.le_trans (Nat.pow_le_pow_right (Nat.succ_pos 1) le)
    (Nat.le_mul_of_pos_left _ (Nat.pos_of_ne_zero positive))

theorem roundUnits_lt {n : Nat} (fits : significant n < 2 ^ 1024) :
    roundUnits (n * 2 ^ 1074) 1 < infiniteMagnitude := by
  by_cases zero : n = 0
  · rw [zero, Nat.zero_mul]
    decide
  · have scaled := significant_mul_two_pow n 1074
    have wide : 2 ^ 52 ≤ n * 2 ^ 1074 := two_pow_le_mul_two_pow zero (by decide)
    obtain ⟨lower, upper⟩ := significand_bounds wide
    simp only [roundUnits, Nat.div_one, Nat.one_mul]
    rw [significant] at scaled
    rw [spacing] at lower upper scaled
    generalize (n * 2 ^ 1074).log2 - 52 = scale at lower upper scaled ⊢
    generalize roundQuotient (n * 2 ^ 1074) (2 ^ scale) = significand at lower upper scaled ⊢
    have bound : significand * 2 ^ scale < 2 ^ 53 * 2 ^ 2045 := by
      rw [scaled, two_pow_mul_two_pow (show 53 + 2045 = 1024 + 1074 by rfl)]
      exact Nat.mul_lt_mul_of_pos_right fits (by apply Nat.two_pow_pos)
    have exponent := exponent_le lower bound
    apply Nat.lt_of_le_of_lt (Nat.min_le_left _ _)
    clear bound scaled wide fits
    rw [infiniteMagnitude]
    omega

theorem finite_ofInt {n : Nat} (fits : significant n < 2 ^ 1024) :
    (ofInt n).magnitude < infiniteMagnitude := by
  rw [magnitude_ofInt]
  exact roundUnits_lt fits

theorem unitsOf_ofInt {n : Nat} (fits : significant n < 2 ^ 1024) :
    unitsOf (ofInt n).magnitude = significant n * 2 ^ 1074 := by
  rw [magnitude_ofInt, unitsOf_roundUnits (roundUnits_lt fits), significant_mul_two_pow]

theorem units_ofInt {n : Nat} (fits : significant n < 2 ^ 1024) :
    (ofInt n).units = (significant n * 2 ^ 1074 : Nat) := by
  rw [units, (unsigned_ofInt n).not_negative, unitsOf_ofInt fits, if_neg Bool.false_ne_true]

theorem not_infinite_ofInt {n : Nat} (fits : significant n < 2 ^ 1024) :
    (ofInt n).isInfinite = false := by
  simp only [isInfinite, decide_eq_false_iff_not]
  exact Nat.ne_of_lt (finite_ofInt fits)

/-- Two whole numbers have the same double exactly if they have the same significant bits. -/
theorem ofInt_eq_iff {left right : Nat} (fitsLeft : significant left < 2 ^ 1024)
    (fitsRight : significant right < 2 ^ 1024) :
    ofInt left = ofInt right ↔ significant left = significant right := by
  constructor
  · intro same
    have units := congrArg (fun x => unitsOf (magnitude x)) same
    simp only [unitsOf_ofInt fitsLeft, unitsOf_ofInt fitsRight] at units
    exact Nat.eq_of_mul_eq_mul_right (by apply Nat.two_pow_pos) units
  · intro same
    have units : unitsOf (ofInt left).magnitude = unitsOf (ofInt right).magnitude := by
      rw [unitsOf_ofInt fitsLeft, unitsOf_ofInt fitsRight, same]
    rw [ofInt_eq, ofInt_eq, ← magnitude_ofInt, ← magnitude_ofInt,
      ← roundUnits_unitsOf (finite_ofInt fitsLeft), units,
      roundUnits_unitsOf (finite_ofInt fitsRight)]

theorem mul_ofInt {left right : Nat} (fitsLeft : significant left < 2 ^ 1024)
    (fitsRight : significant right < 2 ^ 1024) :
    (ofInt left).mul (ofInt right) = ofInt (significant left * significant right : Nat) := by
  have product : significant left * 2 ^ 1074 * (significant right * 2 ^ 1074) =
      significant left * significant right * 2 ^ 1074 * 2 ^ 1074 := by
    rw [Nat.mul_mul_mul_comm, ← Nat.mul_assoc]
  have scaled := roundUnits_mul_right (significant left * significant right * 2 ^ 1074) 1
    (2 ^ 1074) (by apply Nat.two_pow_pos)
  rw [Nat.one_mul] at scaled
  simp only [mul, (unsigned_ofInt left).not_nan, (unsigned_ofInt right).not_nan,
    (unsigned_ofInt left).not_negative, (unsigned_ofInt right).not_negative,
    not_infinite_ofInt fitsLeft, not_infinite_ofInt fitsRight, unitsOf_ofInt fitsLeft,
    unitsOf_ofInt fitsRight, Bool.or_self, Bool.false_eq_true, if_false, bne_self_eq_false]
  rw [product, scaled, ofInt_eq]

theorem add_ofInt {left right : Nat} (fitsLeft : significant left < 2 ^ 1024)
    (fitsRight : significant right < 2 ^ 1024) :
    (ofInt left).add (ofInt right) = ofInt (significant left + significant right : Nat) := by
  have sum : (ofInt left).units + (ofInt right).units =
      ((significant left + significant right) * 2 ^ 1074 : Nat) := by
    rw [units_ofInt fitsLeft, units_ofInt fitsRight, Nat.add_mul, Int.natCast_add]
  simp only [add, (unsigned_ofInt left).not_nan, (unsigned_ofInt right).not_nan,
    (unsigned_ofInt left).not_negative, (unsigned_ofInt right).not_negative,
    not_infinite_ofInt fitsLeft, not_infinite_ofInt fitsRight, Bool.or_self, Bool.false_eq_true,
    if_false, Bool.and_self, sum]
  rw [ofInt_eq]
  generalize significant left + significant right = value
  split
  next zero =>
    have none : value * 2 ^ 1074 = 0 := Int.ofNat.inj zero
    rw [none]
    rfl
  next =>
    have sign : decide (((value * 2 ^ 1074 : Nat) : Int) < 0) = false := by
      simp only [decide_eq_false_iff_not]
      omega
    rw [sign, Int.natAbs_natCast]

/-! The nearest double. -/

def distance (x : Double) (n : Nat) : Nat := (x.units - (n * 2 ^ 1074 : Nat)).natAbs

/-- No finite number lies nearer to `n`, and if another one lies as near, the significand is
even. -/
structure IsNearest (n : Nat) (x : Double) : Prop where
  unsigned : x.negative = false
  finite : x.magnitude < infiniteMagnitude
  least : ∀ y : Double, y.magnitude < infiniteMagnitude → x.distance n ≤ y.distance n
  even : ∀ y : Double, y.magnitude < infiniteMagnitude → y ≠ x → y.distance n = x.distance n →
    x.magnitude % 2 = 0

theorem roundQuotient_nearest {num den : Nat} (positive : 0 < den) {other : Int}
    (apart : other ≤ (num / den * den : Nat) ∨ ((num / den + 1) * den : Nat) ≤ other) :
    let best : Int := (roundQuotient num den * den : Nat)
    (best - num).natAbs ≤ (other - num).natAbs ∧
      ((other - num).natAbs = (best - num).natAbs →
        other = best ∨ roundQuotient num den % 2 = 0) := by
  have whole := Nat.div_add_mod num den
  have remainder := Nat.mod_lt num positive
  simp only [roundQuotient]
  rw [Nat.mul_comm] at whole
  rw [Nat.succ_mul] at apart
  generalize num % den = rest at whole remainder ⊢
  generalize num / den = quotient at whole apart ⊢
  split
  · omega
  · split
    · rw [Nat.succ_mul]
      omega
    · rcases Nat.mod_two_eq_zero_or_one quotient with even | odd
      · rw [even, Nat.add_zero]
        omega
      · rw [odd, Nat.succ_mul]
        omega

theorem dvd_unitsOf {magnitude scale : Nat} (large : 2 ^ (52 + scale) ≤ unitsOf magnitude) :
    2 ^ scale ∣ unitsOf magnitude := by
  by_cases subnormal : magnitude < 2 ^ 52
  · simp only [unitsOf, subnormal, if_true] at large
    have least : 2 ^ 52 ≤ 2 ^ (52 + scale) := Nat.pow_le_pow_right (Nat.succ_pos 1) (by omega)
    omega
  · rw [unitsOf_normal (Nat.le_of_not_lt subnormal)] at large ⊢
    have exponent : scale ≤ magnitude / 2 ^ 52 - 1 := by
      apply Nat.le_of_not_lt
      intro short
      have significand : magnitude % 2 ^ 52 + 2 ^ 52 < 2 ^ 53 := by omega
      have bound : (magnitude % 2 ^ 52 + 2 ^ 52) * 2 ^ (magnitude / 2 ^ 52 - 1) <
          2 ^ 53 * 2 ^ (magnitude / 2 ^ 52 - 1) :=
        Nat.mul_lt_mul_of_pos_right significand (Nat.two_pow_pos _)
      rw [← Nat.pow_add] at bound
      have most : 2 ^ (53 + (magnitude / 2 ^ 52 - 1)) ≤ 2 ^ (52 + scale) :=
        Nat.pow_le_pow_right (Nat.succ_pos 1) (by omega)
      omega
    exact Nat.dvd_mul_left_of_dvd (Nat.pow_dvd_pow 2 exponent) _

theorem spacing_dvd_unitsOf {value magnitude : Nat}
    (above : value / spacing value * spacing value ≤ unitsOf magnitude) :
    spacing value ∣ unitsOf magnitude := by
  by_cases small : value < 2 ^ 53
  · rw [spacing_eq_one small]
    exact Nat.one_dvd _
  · have scaled := Nat.mul_le_mul_right (spacing value) (quotient_bounds (n := value) (by omega)).1
    apply dvd_unitsOf
    rw [Nat.pow_add]
    exact Nat.le_trans scaled above

theorem units_apart (value : Nat) (x : Double) :
    x.units ≤ (value / spacing value * spacing value : Nat) ∨
      ((value / spacing value + 1) * spacing value : Nat) ≤ x.units := by
  rw [units]
  split
  · omega
  · by_cases low : unitsOf x.magnitude ≤ value / spacing value * spacing value
    · omega
    · obtain ⟨count, multiple⟩ := spacing_dvd_unitsOf (Nat.le_of_not_le low)
      rw [Nat.mul_comm] at multiple
      have more : value / spacing value < count := by
        apply Nat.lt_of_mul_lt_mul_right (a := spacing value)
        omega
      have reached : (value / spacing value + 1) * spacing value ≤ count * spacing value :=
        Nat.mul_le_mul_right _ more
      omega

theorem magnitude_ofInt_even {n : Nat} (fits : significant n < 2 ^ 1024)
    (even : roundQuotient (n * 2 ^ 1074) (spacing (n * 2 ^ 1074)) % 2 = 0) :
    (ofInt n).magnitude % 2 = 0 := by
  rw [magnitude_ofInt, roundUnits_eq (roundUnits_lt fits)]
  omega

theorem eq_or_zero_of_units {x y : Double} (unsigned : x.negative = false)
    (finite : x.magnitude < infiniteMagnitude) (finiteOther : y.magnitude < infiniteMagnitude)
    (same : y.units = x.units) : y = x ∨ x.magnitude = 0 := by
  have unsignedUnits : x.units = unitsOf x.magnitude := by
    rw [units, unsigned, if_neg Bool.false_ne_true]
  by_cases sign : y.negative = true
  · right
    have zero : unitsOf x.magnitude = 0 := by
      rw [unsignedUnits, units, if_pos sign] at same
      omega
    rw [← roundUnits_unitsOf finite, zero]
    rfl
  · left
    have equal : unitsOf y.magnitude = unitsOf x.magnitude := by
      rw [unsignedUnits, units, if_neg sign] at same
      exact Int.ofNat.inj same
    rw [← ofMagnitude_magnitude (Bool.eq_false_iff.mpr sign),
      ← roundUnits_unitsOf finiteOther, equal, roundUnits_unitsOf finite,
      ofMagnitude_magnitude unsigned]

theorem isNearest_ofInt {n : Nat} (fits : significant n < 2 ^ 1024) : IsNearest n (ofInt n) := by
  have units : (ofInt n).units = (significant (n * 2 ^ 1074) : Nat) := by
    rw [units_ofInt fits, significant_mul_two_pow]
  have compared (y : Double) := roundQuotient_nearest (spacing_pos _)
    (units_apart (n * 2 ^ 1074) y)
  refine ⟨(unsigned_ofInt n).not_negative, finite_ofInt fits, ?_, ?_⟩
  · intro y _
    rw [distance, units]
    exact (compared y).1
  · intro y finite other same
    rw [distance, distance, units] at same
    rcases (compared y).2 same with equal | even
    · rcases eq_or_zero_of_units (unsigned_ofInt n).not_negative (finite_ofInt fits) finite
        (equal.trans units.symm) with this | zero
      · exact absurd this other
      · rw [zero]
    · exact magnitude_ofInt_even fits even

theorem unitsOf_lt_succ (magnitude : Nat) : unitsOf magnitude < unitsOf (magnitude + 1) := by
  by_cases subnormal : magnitude + 1 < 2 ^ 52
  · simp only [unitsOf, subnormal, show magnitude < 2 ^ 52 by omega, if_true]
    omega
  · rw [unitsOf_normal (Nat.le_of_not_lt subnormal)]
    by_cases first : magnitude + 1 = 2 ^ 52
    · simp only [unitsOf, show magnitude < 2 ^ 52 by omega, if_true]
      rw [first]
      omega
    · rw [unitsOf_normal (by omega)]
      have unit := Nat.two_pow_pos (magnitude / 2 ^ 52 - 1)
      by_cases carry : (magnitude + 1) % 2 ^ 52 = 0
      · rw [carry, show (magnitude + 1) / 2 ^ 52 - 1 = 1 + (magnitude / 2 ^ 52 - 1) by omega,
          Nat.pow_add 2 1, ← Nat.mul_assoc]
        exact Nat.mul_lt_mul_of_pos_right (by omega) unit
      · rw [show (magnitude + 1) / 2 ^ 52 = magnitude / 2 ^ 52 by omega]
        exact Nat.mul_lt_mul_of_pos_right (by omega) unit

theorem unitsOf_lt {low high : Nat} (less : low < high) : unitsOf low < unitsOf high := by
  induction high with
  | zero => omega
  | succ high ih =>
      have last := unitsOf_lt_succ high
      by_cases same : low = high
      · rw [same]
        exact last
      · exact Nat.lt_trans (ih (by omega)) last

theorem IsNearest.magnitude_le {n : Nat} {x y : Double} (first : IsNearest n x)
    (second : IsNearest n y) : x.magnitude ≤ y.magnitude := by
  apply Nat.le_of_not_lt
  intro less
  have distinct : y ≠ x := by
    rintro rfl
    exact Nat.lt_irrefl _ less
  have same : y.distance n = x.distance n :=
    Nat.le_antisymm (second.least x first.finite) (first.least y second.finite)
  have evenFirst := first.even y second.finite distinct same
  have evenSecond := second.even x first.finite distinct.symm same.symm
  -- Both are even, so that a double lies between them, and nearer.
  have between : y.magnitude + 1 < x.magnitude := by omega
  have finite : y.magnitude + 1 < infiniteMagnitude := Nat.lt_trans between first.finite
  have middle := magnitude_ofMagnitude (Nat.le_of_lt finite)
  have nearer := first.least (ofMagnitude false (y.magnitude + 1)) (by rw [middle]; exact finite)
  have above := unitsOf_lt_succ y.magnitude
  have below := unitsOf_lt between
  simp only [distance, units, first.unsigned, second.unsigned,
    (unsigned_ofMagnitude (Nat.le_of_lt finite)).not_negative, middle, Bool.false_eq_true,
    if_false] at same nearer
  generalize n * 2 ^ 1074 = value at same nearer
  omega

theorem isNearest_iff {n : Nat} (fits : significant n < 2 ^ 1024) (x : Double) :
    IsNearest n x ↔ x = ofInt n := by
  constructor
  · intro nearest
    have best := isNearest_ofInt fits
    have same := Nat.le_antisymm (nearest.magnitude_le best) (best.magnitude_le nearest)
    rw [← ofMagnitude_magnitude nearest.unsigned, same, ofMagnitude_magnitude best.unsigned]
  · rintro rfl
    exact isNearest_ofInt fits

theorem ofNumeral?_toDigits (n : Nat) : ofNumeral? (Nat.toDigits 10 n) = some (ofInt n) := by
  have digits : ∀ c ∈ Nat.toDigits 10 n, c.isDigit = true :=
    fun c member => Nat.isDigit_of_mem_toDigits (by decide) (by decide) member
  have nothing : ∀ c ∈ ([] : List Char), c.isDigit = true := by simp
  have read := ofNumeral?_pointed Nat.toDigits_ne_nil digits nothing
  rw [List.append_nil, natOfDigits_eq_ofDigitChars digits, Nat.ofDigitChars_ten_toDigits,
    List.length_nil, Nat.pow_zero] at read
  rw [ofInt_eq]
  exact read

end GameScript.Double
