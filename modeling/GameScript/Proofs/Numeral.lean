import GameScript.Double.Numeral
import GameScript.Double.Shortest

/-!
Numbers read back: the text of a finite number that is not negative is a plain decimal numeral, and
the numeral denotes the number.
-/

namespace GameScript.Double

theorem roundQuotient_mul_right (num den factor : Nat) (positive : 0 < factor) :
    roundQuotient (num * factor) (den * factor) = roundQuotient num den := by
  have quotient : num * factor / (den * factor) = num / den :=
    Nat.mul_div_mul_right num den positive
  have remainder : num * factor % (den * factor) = num % den * factor :=
    Nat.mul_mod_mul_right factor num den
  have twice : 2 * (num % den * factor) = 2 * (num % den) * factor := by
    rw [Nat.mul_assoc]
  simp only [roundQuotient, quotient, remainder, twice,
    Nat.mul_lt_mul_right positive]

theorem roundUnits_mul_right (num den factor : Nat) (positive : 0 < factor) :
    roundUnits (num * factor) (den * factor) = roundUnits num den := by
  have quotient : num * factor / (den * factor) = num / den :=
    Nat.mul_div_mul_right num den positive
  have scaled (scale : Nat) : den * factor * scale = den * scale * factor := by
    rw [Nat.mul_right_comm]
  simp only [roundUnits, quotient, scaled, roundQuotient_mul_right _ _ _ positive]

theorem roundQuotient_mul_self (value den : Nat) (positive : 0 < den) :
    roundQuotient (value * den) den = value := by
  have half : 2 * (value * den % den) < den := by simpa using positive
  simp only [roundQuotient, half, if_true]
  exact Nat.mul_div_cancel value positive

theorem log2_eq_of_bounds {value exponent : Nat} (lower : 2 ^ exponent ≤ value)
    (upper : value < 2 ^ (exponent + 1)) : value.log2 = exponent := by
  have nonzero : value ≠ 0 := by
    have positive : 0 < 2 ^ exponent := Nat.two_pow_pos exponent
    omega
  have below : value.log2 < exponent + 1 := (Nat.log2_lt nonzero).mpr upper
  have above : exponent ≤ value.log2 := (Nat.le_log2 nonzero).mpr lower
  omega

theorem unitsOf_normal {magnitude : Nat} (normal : 2 ^ 52 ≤ magnitude) :
    unitsOf magnitude = (magnitude % 2 ^ 52 + 2 ^ 52) * 2 ^ (magnitude / 2 ^ 52 - 1) := by
  simp only [unitsOf]
  rw [if_neg (by omega)]

theorem roundUnits_unitsOf {magnitude : Nat} (finite : magnitude < infiniteMagnitude) :
    roundUnits (unitsOf magnitude) 1 = magnitude := by
  by_cases subnormal : magnitude < 2 ^ 52
  · have units : unitsOf magnitude = magnitude := by simp only [unitsOf, subnormal, if_true]
    have scale : magnitude.log2 - 52 = 0 := by
      by_cases zero : magnitude = 0
      · simp [zero]
      · have := (Nat.log2_lt zero).mpr subnormal
        omega
    have rounded := roundQuotient_mul_self magnitude 1 Nat.one_pos
    simp only [Nat.mul_one] at rounded
    simp only [roundUnits, units, Nat.div_one, scale, Nat.zero_mul, Nat.pow_zero, Nat.mul_one,
      Nat.zero_add, rounded]
    exact Nat.min_eq_left (Nat.le_of_lt finite)
  · have units := unitsOf_normal (Nat.le_of_not_lt subnormal)
    generalize significandEq : magnitude % 2 ^ 52 + 2 ^ 52 = significand at units
    generalize exponentEq : magnitude / 2 ^ 52 - 1 = exponent at units
    have lower : 2 ^ 52 ≤ significand := by omega
    have upper : significand < 2 ^ 53 := by omega
    have positive : 0 < 2 ^ exponent := Nat.two_pow_pos exponent
    -- The significand fills its 53 bits, so that no digit of it is rounded away.
    have log : (unitsOf magnitude).log2 = 52 + exponent := by
      rw [units]
      apply log2_eq_of_bounds
      · rw [Nat.pow_add]
        exact Nat.mul_le_mul_right _ lower
      · rw [show 52 + exponent + 1 = 53 + exponent by omega, Nat.pow_add]
        exact (Nat.mul_lt_mul_right positive).mpr upper
    simp only [roundUnits, Nat.div_one, log, Nat.one_mul, Nat.add_sub_cancel_left]
    rw [units, roundQuotient_mul_self _ _ positive]
    have whole : exponent * 2 ^ 52 + significand = magnitude := by omega
    rw [whole]
    exact Nat.min_eq_left (Nat.le_of_lt finite)

theorem two_pow_twos_dvd (bound value : Nat) : 2 ^ twos bound value ∣ value := by
  induction bound generalizing value with
  | zero => simp [twos]
  | succ bound ih =>
      simp only [twos]
      by_cases even : value % 2 = 0
      · simp only [even, if_true, Nat.pow_succ]
        have half : value / 2 * 2 = value := by omega
        rw [← half]
        simpa using Nat.mul_dvd_mul_right (ih (value / 2)) 2
      · simp [even]

theorem two_pow_dvd_mul_ten_pow {exponent value : Nat} (divides : 2 ^ exponent ∣ value)
    (bound : Nat) : 2 ^ bound ∣ value * 10 ^ (bound - exponent) := by
  have tens : 2 ^ (bound - exponent) ∣ 10 ^ (bound - exponent) := by
    rw [show 10 = 2 * 5 by rfl, Nat.mul_pow]
    exact Nat.dvd_mul_right _ _
  have product : 2 ^ exponent * 2 ^ (bound - exponent) ∣ value * 10 ^ (bound - exponent) :=
    Nat.mul_dvd_mul divides tens
  rw [← Nat.pow_add] at product
  exact Nat.dvd_trans (Nat.pow_dvd_pow 2 (by omega)) product

theorem exactDecimal_mul (magnitude : Nat) :
    exactDecimal magnitude * 2 ^ 1074 = unitsOf magnitude * 10 ^ places magnitude := by
  apply Nat.div_mul_cancel
  by_cases subnormal : magnitude < 2 ^ 52
  · simp only [unitsOf, places, subnormal, if_true]
    exact two_pow_dvd_mul_ten_pow (two_pow_twos_dvd 1074 magnitude) 1074
  · rw [unitsOf_normal (Nat.le_of_not_lt subnormal)]
    simp only [places, subnormal, if_false]
    apply two_pow_dvd_mul_ten_pow
    rw [Nat.pow_add]
    exact Nat.mul_dvd_mul_right (two_pow_twos_dvd 1074 _) _

theorem readsBack_exactDecimal {magnitude : Nat} (finite : magnitude < infiniteMagnitude) :
    readsBack magnitude (exactDecimal magnitude) = true := by
  have positive : 0 < 10 ^ places magnitude := Nat.pow_pos (by decide)
  have scaled := roundUnits_mul_right (unitsOf magnitude) 1 (10 ^ places magnitude) positive
  rw [Nat.one_mul] at scaled
  rw [readsBack, exactDecimal_mul, scaled, roundUnits_unitsOf finite]
  exact decide_eq_true rfl

theorem nearest?_satisfies {test : Nat → Bool} {exact unit decimal : Nat}
    (found : nearest? test exact unit = some decimal) : test decimal = true := by
  simp only [nearest?] at found
  split at found
  next below above =>
    split at found
    · exact Option.some.inj found ▸ below
    · split at found
      · exact Option.some.inj found ▸ above
      · split at found
        · exact Option.some.inj found ▸ below
        · exact Option.some.inj found ▸ above
  next below _ => exact Option.some.inj found ▸ below
  next _ above => exact Option.some.inj found ▸ above
  next => simp at found

theorem readsBack_shortestDecimal {magnitude : Nat} (finite : magnitude < infiniteMagnitude) :
    readsBack magnitude (shortestDecimal magnitude) = true := by
  simp only [shortestDecimal]
  generalize searched : List.findSome? _ _ = outcome
  cases outcome with
  | none => exact readsBack_exactDecimal finite
  | some decimal =>
      obtain ⟨kept, _, found⟩ := List.exists_of_findSome?_eq_some searched
      exact nearest?_satisfies found

def pointed (whole fraction : List Char) : List Char :=
  match fraction with
  | [] => whole
  | digits => whole ++ '.' :: digits

theorem pointed_cons (c : Char) (whole fraction : List Char) :
    pointed (c :: whole) fraction = c :: pointed whole fraction := by
  cases fraction <;> rfl

theorem digitValue_of_isDigit {c : Char} (digit : c.isDigit = true) :
    digitValue c = c.toNat - '0'.toNat := by
  simp [digitValue, digit]

theorem natOfDigits_eq_ofDigitChars {digits : List Char}
    (all : ∀ c ∈ digits, c.isDigit = true) :
    natOfDigits 10 digits = Nat.ofDigitChars 10 digits 0 := by
  have fromStart (start : Nat) :
      digits.foldl (fun value c => value * 10 + digitValue c) start =
        Nat.ofDigitChars 10 digits start := by
    induction digits generalizing start with
    | nil => simp
    | cons c rest ih =>
        rw [List.foldl_cons, Nat.ofDigitChars_cons, digitValue_of_isDigit (all c (by simp)),
          Nat.mul_comm start]
        exact ih (fun d member => all d (by simp [member])) _
  exact fromStart 0

theorem ofDigitChars_append_zeros (digits : List Char) (count : Nat) :
    Nat.ofDigitChars 10 (digits ++ List.replicate count '0') 0 =
      Nat.ofDigitChars 10 digits 0 * 10 ^ count := by
  rw [Nat.ofDigitChars_append, Nat.ofDigitChars_replicate_zero, Nat.mul_comm]

theorem trimmed_append_zeros (row : List Char) :
    ∃ count, row = (row.reverse.dropWhile (· = '0')).reverse ++ List.replicate count '0' := by
  have zeros : row.reverse.takeWhile (· = '0') =
      List.replicate (row.reverse.takeWhile (· = '0')).length '0' := by
    apply List.eq_replicate_of_mem
    intro c member
    simpa using List.all_eq_true.mp List.all_takeWhile c member
  refine ⟨(row.reverse.takeWhile (· = '0')).length, ?_⟩
  have split := List.takeWhile_append_dropWhile (p := (· = '0')) (l := row.reverse)
  rw [zeros] at split
  have reversed := congrArg List.reverse split
  simpa using reversed.symm

theorem fractionDigits_isDigit (places fraction : Nat) :
    ∀ c ∈ fractionDigits places fraction, c.isDigit = true := by
  intro c member
  simp only [fractionDigits, List.mem_reverse] at member
  have inRow := List.dropWhile_subset _ member
  simp only [List.mem_reverse, List.mem_append] at inRow
  rcases inRow with padding | digit
  · rw [List.eq_of_mem_replicate padding]
    rfl
  · exact Nat.isDigit_of_mem_toDigits (by decide) (by decide) digit

theorem fractionDigits_value {places fraction : Nat} (bound : fraction < 10 ^ places) :
    (fractionDigits places fraction).length ≤ places ∧
      Nat.ofDigitChars 10 (fractionDigits places fraction) 0 *
        10 ^ (places - (fractionDigits places fraction).length) = fraction := by
  cases places with
  | zero =>
      have zero : fraction = 0 := by simpa using bound
      subst fraction
      decide
  | succ places =>
      let digits := Nat.toDigits 10 fraction
      let row := List.replicate (places + 1 - digits.length) '0' ++ digits
      have digitsLength : digits.length ≤ places + 1 :=
        (Nat.length_toDigits_le_iff (by decide) (Nat.succ_pos places)).mpr bound
      have rowLength : row.length = places + 1 := by
        simp only [row, List.length_append, List.length_replicate]
        omega
      have rowValue : Nat.ofDigitChars 10 row 0 = fraction := by
        simp [row, digits, Nat.ofDigitChars_append]
      obtain ⟨count, split⟩ := trimmed_append_zeros row
      change row = fractionDigits (places + 1) fraction ++ List.replicate count '0' at split
      have lengths := congrArg List.length split
      simp only [rowLength, List.length_append, List.length_replicate] at lengths
      refine ⟨by omega, ?_⟩
      rw [show places + 1 - (fractionDigits (places + 1) fraction).length = count by omega,
        ← ofDigitChars_append_zeros, ← split, rowValue]

theorem plainDecimal_toList (places decimal : Nat) :
    (plainDecimal places decimal).toList =
      pointed (Nat.toDigits 10 (decimal / 10 ^ places))
        (fractionDigits places (decimal % 10 ^ places)) := by
  simp only [plainDecimal, pointed]
  split <;> simp_all

theorem split_digits {digits rest : List Char} (all : ∀ c ∈ digits, c.isDigit = true)
    (stops : ∀ c ∈ rest.head?, c.isDigit = false) :
    (digits ++ rest).takeWhile Char.isDigit = digits ∧
      (digits ++ rest).dropWhile Char.isDigit = rest := by
  rw [List.takeWhile_append_of_pos all, List.dropWhile_append_of_pos all]
  cases rest with
  | nil => simp
  | cons c more => simp [stops c rfl]

theorem splitDigits_whole {whole rest : List Char} (wholeDigits : ∀ c ∈ whole, c.isDigit = true)
    (stops : ∀ c ∈ rest.head?, c.isDigit = false ∧ c ≠ '.') :
    splitDigits Char.isDigit (whole ++ rest) = (whole, 0, rest) := by
  obtain ⟨taken, dropped⟩ := split_digits wholeDigits fun c first => (stops c first).1
  simp only [splitDigits, taken, dropped]
  split
  · exact absurd rfl (stops '.' rfl).2
  · rfl

theorem splitDigits_fraction {whole fraction rest : List Char}
    (wholeDigits : ∀ c ∈ whole, c.isDigit = true)
    (fractionDigits : ∀ c ∈ fraction, c.isDigit = true)
    (stops : ∀ c ∈ rest.head?, c.isDigit = false) :
    splitDigits Char.isDigit (whole ++ '.' :: (fraction ++ rest)) =
      (whole ++ fraction, fraction.length, rest) := by
  have point : ∀ c ∈ ('.' :: (fraction ++ rest)).head?, c.isDigit = false := by
    rintro c ⟨⟩
    rfl
  obtain ⟨taken, dropped⟩ := split_digits wholeDigits point
  obtain ⟨takenAfter, droppedAfter⟩ := split_digits fractionDigits stops
  simp only [splitDigits, taken, dropped, takenAfter, droppedAfter]

theorem splitDigits_pointed {whole fraction : List Char}
    (wholeDigits : ∀ c ∈ whole, c.isDigit = true)
    (fractionDigits : ∀ c ∈ fraction, c.isDigit = true) :
    splitDigits Char.isDigit (pointed whole fraction) =
      (whole ++ fraction, fraction.length, []) := by
  have nothing : ∀ c ∈ ([] : List Char).head?, c.isDigit = false ∧ c ≠ '.' := by simp
  cases fraction with
  | nil => simpa [pointed] using splitDigits_whole wholeDigits nothing
  | cons c rest =>
      simpa [pointed] using
        splitDigits_fraction wholeDigits fractionDigits fun c first => (nothing c first).1

theorem scaled_negative_places (digits places : Nat) :
    scaled digits 10 (0 - (places : Int)) =
      ofMagnitude false (roundUnits (digits * 2 ^ 1074) (10 ^ places)) := by
  cases places with
  | zero =>
      change ofRatio false (digits * 10 ^ 0) 1 = _
      rw [Nat.pow_zero, Nat.mul_one]
      rfl
  | succ places =>
      rw [show (0 : Int) - ((places + 1 : Nat) : Int) = Int.negSucc places by omega]
      rfl

def StartsNumeral (c : Char) : Prop := c.isDigit = true ∨ c = '.'

theorem StartsNumeral.toLower {c : Char} (start : StartsNumeral c) : c.toLower = c := by
  rcases start with digit | rfl
  · simp only [Char.isDigit, Bool.and_eq_true, decide_eq_true_eq] at digit
    have notUpper : ¬ (c.val ≥ 'A'.val ∧ c.val ≤ 'Z'.val) := by
      intro upper
      have below : c.val ≤ 57 := digit.2
      have above : 65 ≤ c.val := upper.1
      exact absurd (UInt32.le_trans above below) (by decide)
    exact dif_neg notUpper
  · rfl

theorem StartsNumeral.ne_of_word {c letter : Char} (start : StartsNumeral c)
    (notDigit : letter.isDigit = false) (notPoint : letter ≠ '.') : c ≠ letter := by
  rintro rfl
  rcases start with digit | point
  · simp [notDigit] at digit
  · exact notPoint point

theorem StartsNumeral.lower_ne {c letter : Char} {rest letters : List Char}
    (start : StartsNumeral c) (notDigit : letter.isDigit = false) (notPoint : letter ≠ '.') :
    String.ofList ((c :: rest).map Char.toLower) ≠ String.ofList (letter :: letters) := by
  intro same
  have lists := String.ofList_injective same
  simp only [List.map_cons, List.cons.injEq] at lists
  exact start.ne_of_word notDigit notPoint (start.toLower ▸ lists.1)

theorem ofNumeral?_eq_unsigned? {c : Char} {rest : List Char} (start : StartsNumeral c) :
    ofNumeral? (c :: rest) = unsigned? (c :: rest) := by
  have notMinus : c ≠ '-' := start.ne_of_word (by decide) (by decide)
  have notPlus : c ≠ '+' := start.ne_of_word (by decide) (by decide)
  have notNan : String.ofList ((c :: rest).map Char.toLower) ≠ "nan" :=
    start.lower_ne (by decide) (by decide)
  unfold ofNumeral?
  split
  · simp_all
  · simp_all
  · rw [if_neg notNan]

theorem unsigned?_eq_decimal? {c : Char} {rest : List Char} (start : StartsNumeral c)
    (notHex : rest.head? ≠ some 'x' ∧ rest.head? ≠ some 'X') :
    unsigned? (c :: rest) = decimal? (c :: rest) := by
  have notInf : String.ofList ((c :: rest).map Char.toLower) ≠ "inf" :=
    start.lower_ne (by decide) (by decide)
  have notInfinity : String.ofList ((c :: rest).map Char.toLower) ≠ "infinity" :=
    start.lower_ne (by decide) (by decide)
  simp only [unsigned?, notInf, notInfinity, decide_false, Bool.or_self, Bool.false_eq_true,
    if_false]
  split
  · simp_all
  · simp_all
  · rfl

theorem ofNumeral?_pointed {whole fraction : List Char} (nonempty : whole ≠ [])
    (wholeDigits : ∀ c ∈ whole, c.isDigit = true)
    (fractionDigits : ∀ c ∈ fraction, c.isDigit = true) :
    ofNumeral? (pointed whole fraction) =
      some (ofMagnitude false
        (roundUnits (natOfDigits 10 (whole ++ fraction) * 2 ^ 1074) (10 ^ fraction.length))) := by
  have split := splitDigits_pointed wholeDigits fractionDigits
  obtain ⟨c, rest, rfl⟩ := List.exists_cons_of_ne_nil nonempty
  rw [pointed_cons] at split ⊢
  have start : StartsNumeral c := Or.inl (wholeDigits c (by simp))
  have second : ∀ d, (pointed rest fraction).head? = some d → StartsNumeral d := by
    intro d found
    cases rest with
    | nil =>
        cases fraction with
        | nil => simp [pointed] at found
        | cons _ _ => exact Or.inr (by simpa [pointed] using found.symm)
    | cons e rest =>
        rw [pointed_cons, List.head?_cons, Option.some.injEq] at found
        exact Or.inl (found ▸ wholeDigits e (by simp))
  have notHex : (pointed rest fraction).head? ≠ some 'x' ∧
      (pointed rest fraction).head? ≠ some 'X' := by
    constructor
    · intro mark
      exact (second _ mark).ne_of_word (by decide) (by decide) rfl
    · intro mark
      exact (second _ mark).ne_of_word (by decide) (by decide) rfl
  rw [ofNumeral?_eq_unsigned? start, unsigned?_eq_decimal? start notHex]
  simp only [decimal?, split, List.cons_append, List.isEmpty_cons, Bool.false_eq_true, if_false,
    Option.map_some, scaled_negative_places]

theorem ofMagnitude_magnitude {x : Double} (positive : x.negative = false) :
    ofMagnitude false x.magnitude = x := by
  have below : x.bits.toNat < 2 ^ 63 := by
    simpa only [negative, decide_eq_false_iff_not, Nat.not_le] using positive
  have magnitude : x.magnitude = x.bits.toNat := Nat.mod_eq_of_lt below
  simp [ofMagnitude, magnitude]

/-- The text of a finite number that is not negative is a plain numeral that denotes it. -/
theorem text_reads_back {x : Double} (finite : x.magnitude < infiniteMagnitude)
    (positive : x.negative = false) :
    ∃ whole fraction, x.text.toList = pointed whole fraction ∧ whole ≠ [] ∧
      (∀ c ∈ whole, c.isDigit = true) ∧ (∀ c ∈ fraction, c.isDigit = true) ∧
      ofNumeral? x.text.toList = some x := by
  let decimal := shortestDecimal x.magnitude
  let count := places x.magnitude
  have notNaN : x.isNaN = false := by
    simp only [isNaN, decide_eq_false_iff_not, Nat.not_lt]
    exact Nat.le_of_lt finite
  have notInfinite : x.isInfinite = false := by
    simp only [isInfinite, decide_eq_false_iff_not]
    exact Nat.ne_of_lt finite
  have shape : x.text.toList = pointed (Nat.toDigits 10 (decimal / 10 ^ count))
      (fractionDigits count (decimal % 10 ^ count)) := by
    rw [← plainDecimal_toList]
    simp [text, notNaN, notInfinite, positive, decimal, count]
  have wholeDigits : ∀ c ∈ Nat.toDigits 10 (decimal / 10 ^ count), c.isDigit = true :=
    fun c member => Nat.isDigit_of_mem_toDigits (by decide) (by decide) member
  have restDigits := fractionDigits_isDigit count (decimal % 10 ^ count)
  refine ⟨_, _, shape, Nat.toDigits_ne_nil, wholeDigits, restDigits, ?_⟩
  rw [shape, ofNumeral?_pointed Nat.toDigits_ne_nil wholeDigits restDigits]
  have tens : 0 < 10 ^ count := Nat.pow_pos (by decide)
  obtain ⟨length, value⟩ := fractionDigits_value (Nat.mod_lt decimal tens)
  generalize fractionDigits count (decimal % 10 ^ count) = fraction at restDigits length value ⊢
  have padding : 0 < 10 ^ (count - fraction.length) := Nat.pow_pos (by decide)
  have joined : natOfDigits 10 (Nat.toDigits 10 (decimal / 10 ^ count) ++ fraction) *
      10 ^ (count - fraction.length) = decimal := by
    rw [natOfDigits_eq_ofDigitChars (by
      intro c member
      rcases List.mem_append.mp member with inWhole | inFraction
      · exact wholeDigits c inWhole
      · exact restDigits c inFraction)]
    rw [Nat.ofDigitChars_append, Nat.ofDigitChars_ten_toDigits,
      Nat.ofDigitChars_eq_ofDigitChars_zero, Nat.add_mul, value, Nat.mul_right_comm,
      ← Nat.pow_add, Nat.add_sub_cancel' length]
    exact Nat.div_add_mod decimal (10 ^ count)
  have read : roundUnits (decimal * 2 ^ 1074) (10 ^ count) = x.magnitude :=
    of_decide_eq_true (readsBack_shortestDecimal finite)
  rw [← roundUnits_mul_right _ _ _ padding, Nat.mul_right_comm, joined, ← Nat.pow_add,
    Nat.add_sub_cancel' length, read, ofMagnitude_magnitude positive]

/-! Numerals without a sign denote numbers without a sign. -/

/-- Zero, a positive number or positive infinity. -/
def Unsigned (x : Double) : Prop := x.bits.toNat ≤ infiniteMagnitude

theorem Unsigned.magnitude_eq {x : Double} (unsigned : Unsigned x) :
    x.magnitude = x.bits.toNat := by
  have bound : infiniteMagnitude < 2 ^ 63 := by decide
  exact Nat.mod_eq_of_lt (Nat.lt_of_le_of_lt unsigned bound)

theorem Unsigned.not_negative {x : Double} (unsigned : Unsigned x) : x.negative = false := by
  have bound : infiniteMagnitude < 2 ^ 63 := by decide
  simp only [negative, decide_eq_false_iff_not, Nat.not_le]
  exact Nat.lt_of_le_of_lt unsigned bound

theorem Unsigned.not_nan {x : Double} (unsigned : Unsigned x) : x.isNaN = false := by
  simp only [isNaN, decide_eq_false_iff_not, Nat.not_lt, unsigned.magnitude_eq]
  exact unsigned

theorem unsigned_ofMagnitude {magnitude : Nat} (bound : magnitude ≤ infiniteMagnitude) :
    Unsigned (ofMagnitude false magnitude) := by
  have small : magnitude < 2 ^ 64 := Nat.lt_of_le_of_lt bound (by decide)
  have bits : (ofMagnitude false magnitude).bits.toNat = magnitude := by
    rw [ofMagnitude, if_neg Bool.false_ne_true, Nat.zero_add, UInt64.toNat_ofNat']
    exact Nat.mod_eq_of_lt small
  rw [Unsigned, bits]
  exact bound

theorem roundUnits_le (num den : Nat) : roundUnits num den ≤ infiniteMagnitude :=
  Nat.min_le_right _ _

theorem unsigned_scaled (digits base : Nat) (exponent : Int) :
    Unsigned (scaled digits base exponent) := by
  cases exponent with
  | ofNat power => exact unsigned_ofMagnitude (roundUnits_le _ _)
  | negSucc power => exact unsigned_ofMagnitude (roundUnits_le _ _)

theorem unsigned_of_unsigned? {text : List Char} {x : Double} (found : unsigned? text = some x) :
    Unsigned x := by
  have fromHex {rest : List Char} (read : hexadecimal? rest = some x) : Unsigned x := by
    simp only [hexadecimal?] at read
    split at read
    · simp at read
    · split at read
      · simp at read
      · split at read
        · obtain ⟨exponent, _, rfl⟩ := Option.map_eq_some_iff.mp read
          exact unsigned_scaled _ _ _
        · simp at read
  simp only [unsigned?] at found
  split at found
  · obtain rfl := Option.some.inj found
    exact unsigned_ofMagnitude (Nat.le_refl _)
  · split at found
    · exact fromHex found
    · exact fromHex found
    · simp only [decimal?] at found
      split at found
      · simp at found
      · obtain ⟨exponent, _, rfl⟩ := Option.map_eq_some_iff.mp found
        exact unsigned_scaled _ _ _

theorem unsigned_ofNumeral? {c : Char} {rest : List Char} {x : Double} (start : StartsNumeral c)
    (found : ofNumeral? (c :: rest) = some x) : Unsigned x := by
  rw [ofNumeral?_eq_unsigned? start] at found
  exact unsigned_of_unsigned? found

theorem unsigned_ofInt (value : Nat) : Unsigned (ofInt value) := by
  have sign : decide ((value : Int) < 0) = false := by simp
  rw [ofInt, sign]
  exact unsigned_ofMagnitude (roundUnits_le _ _)

theorem unsigned_mul {x y : Double} (left : Unsigned x) (right : Unsigned y)
    (nonzero : y.magnitude ≠ 0) (finite : y.isInfinite = false) : Unsigned (x.mul y) := by
  have infinite (infiniteLeft : x.isInfinite = true) : x.magnitude ≠ 0 := by
    simp only [isInfinite, decide_eq_true_eq] at infiniteLeft
    rw [infiniteLeft]
    decide
  simp only [mul, left.not_nan, right.not_nan, left.not_negative, right.not_negative, finite,
    Bool.or_self, Bool.or_false, Bool.false_eq_true, if_false, bne_self_eq_false]
  split
  next infiniteLeft =>
    simp only [infinite infiniteLeft, nonzero, decide_false, Bool.or_self, Bool.false_eq_true,
      if_false]
    exact unsigned_ofMagnitude (Nat.le_refl _)
  next => exact unsigned_ofMagnitude (roundUnits_le _ _)

theorem unsigned_add {x y : Double} (left : Unsigned x) (right : Unsigned y) :
    Unsigned (x.add y) := by
  have leftUnits : x.units = unitsOf x.magnitude := by simp [units, left.not_negative]
  have rightUnits : y.units = unitsOf y.magnitude := by simp [units, right.not_negative]
  simp only [add, left.not_nan, right.not_nan, left.not_negative, right.not_negative,
    Bool.or_self, Bool.false_eq_true, if_false, bne_self_eq_false, Bool.and_false, Bool.and_self]
  split
  · exact left
  · split
    · exact right
    · split
      · exact unsigned_ofMagnitude (Nat.zero_le _)
      · have sign : decide (x.units + y.units < 0) = false := by
          rw [leftUnits, rightUnits]
          simp only [decide_eq_false_iff_not]
          omega
        rw [sign]
        exact unsigned_ofMagnitude (roundUnits_le _ _)

theorem unsigned_ofRadix {base : Nat} (nonzero : (ofInt base).magnitude ≠ 0)
    (finite : (ofInt base).isInfinite = false) (digits : List Char) :
    Unsigned (ofRadix base digits) := by
  have folded : ∀ start, Unsigned start → Unsigned (digits.foldl
      (fun value c =>
        if c = '_' then value else (value.mul (ofInt base)).add (ofInt (digitValue c))) start) := by
    induction digits with
    | nil => exact fun _ unsigned => unsigned
    | cons c rest ih =>
        intro start unsigned
        apply ih
        dsimp only
        split
        · exact unsigned
        · exact unsigned_add (unsigned_mul unsigned (unsigned_ofInt base) nonzero finite)
            (unsigned_ofInt _)
  simp only [ofRadix]
  split
  · exact unsigned_ofMagnitude (by decide)
  · exact folded _ (unsigned_ofInt 0)

end GameScript.Double
