import GameScript.Proofs.Occurrence
import Mathlib.Computability.RegularExpressions

/-!
The grammar of numerals. In each mode of the machine, what may still come of a numeral is a regular
expression, and each character takes the expression of a mode to that of the next one. So the machine
runs through exactly the texts that the expression of the whole numeral matches.
-/

namespace GameScript

open Scanner (State Mode ahead isAlnum)
open RegularExpression (char star)
open Computability

def oneOf (chars : List Char) : RegularExpression Char :=
  chars.foldr (fun c others => char c + others) 0

theorem mem_oneOf {chars text : List Char} :
    text ∈ (oneOf chars).matches' ↔ ∃ c ∈ chars, text = [c] := by
  induction chars with
  | nil => simp [oneOf]
  | cons first others ih =>
      have shape : oneOf (first :: others) = char first + oneOf others := rfl
      rw [shape, RegularExpression.matches'_add, Language.mem_add, ih]
      constructor
      · rintro (here | ⟨c, member, same⟩)
        · exact ⟨first, by simp, here⟩
        · exact ⟨c, by simp [member], same⟩
      · rintro ⟨c, member, same⟩
        rcases List.mem_cons.mp member with rfl | there
        · exact Or.inl same
        · exact Or.inr ⟨c, there, same⟩

section Derivatives

variable {c first : Char} {chars rest : List Char} {later : Language Char}

theorem cons_mem_oneOf_mul :
    c :: rest ∈ (oneOf chars).matches' * later ↔ c ∈ chars ∧ rest ∈ later := by
  rw [Language.mem_mul]
  constructor
  · rintro ⟨text, inClass, more, inLater, split⟩
    obtain ⟨d, member, rfl⟩ := mem_oneOf.mp inClass
    cases split
    exact ⟨member, inLater⟩
  · rintro ⟨member, inLater⟩
    exact ⟨[c], mem_oneOf.mpr ⟨c, member, rfl⟩, rest, inLater, rfl⟩

theorem mem_char_mul {text : List Char} :
    text ∈ ({[first]} : Language Char) * later ↔ ∃ rest ∈ later, text = first :: rest := by
  rw [Language.mem_mul]
  constructor
  · rintro ⟨_, rfl, rest, inLater, rfl⟩
    exact ⟨rest, inLater, rfl⟩
  · rintro ⟨rest, inLater, rfl⟩
    exact ⟨[first], rfl, rest, inLater, rfl⟩

theorem cons_mem_char_mul :
    c :: rest ∈ ({[first]} : Language Char) * later ↔ c = first ∧ rest ∈ later := by
  rw [mem_char_mul]
  constructor
  · rintro ⟨_, inLater, same⟩
    cases same
    exact ⟨rfl, inLater⟩
  · rintro ⟨rfl, inLater⟩
    exact ⟨rest, inLater, rfl⟩

theorem cons_mem_star_mul :
    c :: rest ∈ (oneOf chars).matches'∗ * later ↔
      (c ∈ chars ∧ rest ∈ (oneOf chars).matches'∗ * later) ∨ c :: rest ∈ later := by
  have unrolled : (oneOf chars).matches'∗ * later =
      later + (oneOf chars).matches' * ((oneOf chars).matches'∗ * later) := by
    conv => lhs; rw [← Language.one_add_self_mul_kstar_eq_kstar]
    rw [add_mul, one_mul, mul_assoc]
  conv => lhs; rw [unrolled]
  rw [Language.mem_add, cons_mem_oneOf_mul, or_comm]

theorem cons_mem_star :
    c :: rest ∈ (oneOf chars).matches'∗ ↔ c ∈ chars ∧ rest ∈ (oneOf chars).matches'∗ := by
  have goesOn : c :: rest ∈ (oneOf chars).matches'∗ * 1 ↔ _ := cons_mem_star_mul
  simpa using goesOn

end Derivatives

namespace Numeral

def digits : List Char := ['0', '1', '2', '3', '4', '5', '6', '7', '8', '9']

def hexDigits : List Char :=
  digits ++ ['a', 'b', 'c', 'd', 'e', 'f', 'A', 'B', 'C', 'D', 'E', 'F']

def row (digits : List Char) : RegularExpression Char :=
  star (oneOf ('_' :: digits))

def exponent : RegularExpression Char :=
  1 + char 'e' * (1 + char '-') * oneOf digits * row digits

/-- `[0-9][0-9_]*(\.[0-9_]*)?(e-?[0-9][0-9_]*)?` or `\.[0-9][0-9_]*(e-?[0-9][0-9_]*)?` -/
def decimal : RegularExpression Char :=
  oneOf digits * row digits * (1 + char '.' * row digits) * exponent +
    char '.' * oneOf digits * row digits * exponent

/-- A zero and a mark, and then digits of another base: `0x_*[0-9a-fA-F][0-9a-fA-F_]*` -/
def marked (mark : Char) (digits : List Char) : RegularExpression Char :=
  char '0' * char mark * star (oneOf ['_']) * oneOf digits * row digits

inductive Base where
  | decimal
  | hex
  | binary
deriving DecidableEq, Repr

namespace Base

def numeral : Base → RegularExpression Char
  | decimal => Numeral.decimal
  | hex => marked 'x' hexDigits
  | binary => marked 'b' ['0', '1']

/-- What may still come of a numeral of the base. -/
def remainder : Base → Mode → RegularExpression Char
  | base, .start => base.numeral
  | decimal, .symbol .dot => oneOf digits * row digits * exponent
  | decimal, .zero | decimal, .decimal => row digits * (1 + char '.' * row digits) * exponent
  | decimal, .fraction => row digits * exponent
  | decimal, .exponentMark => (1 + char '-') * oneOf digits * row digits
  | decimal, .exponentSign => oneOf digits * row digits
  | decimal, .exponent => row digits
  | hex, .zero => char 'x' * star (oneOf ['_']) * oneOf hexDigits * row hexDigits
  | hex, .hexMark => star (oneOf ['_']) * oneOf hexDigits * row hexDigits
  | hex, .hex => row hexDigits
  | binary, .zero => char 'b' * star (oneOf ['_']) * oneOf ['0', '1'] * row ['0', '1']
  | binary, .binaryMark => star (oneOf ['_']) * oneOf ['0', '1'] * row ['0', '1']
  | binary, .binary => row ['0', '1']
  | _, _ => 0

def endsIn : Base → Mode → Bool
  | decimal, .zero | decimal, .decimal | decimal, .fraction | decimal, .exponent => true
  | hex, .hex | binary, .binary => true
  | _, _ => false

end Base

end Numeral

namespace Scanner

def Mode.beforeNumeral : Mode → Bool
  | .start | .symbol .dot | .zero | .hexMark | .binaryMark | .hex | .binary | .decimal | .fraction
  | .exponentMark | .exponentSign | .exponent => true
  | _ => false

def Mode.numeralMoves : Mode → List (List Char × Mode)
  | .start =>
      [(['0'], .zero), (['1', '2', '3', '4', '5', '6', '7', '8', '9'], .decimal),
        (['.'], .symbol .dot)]
  | .symbol .dot => [(Numeral.digits, .fraction)]
  | .zero =>
      [(['x'], .hexMark), (['b'], .binaryMark), ('_' :: Numeral.digits, .decimal),
        (['e'], .exponentMark), (['.'], .fraction)]
  | .decimal => [('_' :: Numeral.digits, .decimal), (['e'], .exponentMark), (['.'], .fraction)]
  | .fraction => [('_' :: Numeral.digits, .fraction), (['e'], .exponentMark)]
  | .exponentMark => [(Numeral.digits, .exponent), (['-'], .exponentSign)]
  | .exponentSign => [(Numeral.digits, .exponent)]
  | .exponent => [('_' :: Numeral.digits, .exponent)]
  | .hexMark => [(['_'], .hexMark), (Numeral.hexDigits, .hex)]
  | .hex => [('_' :: Numeral.hexDigits, .hex)]
  | .binaryMark => [(['_'], .binaryMark), (['0', '1'], .binary)]
  | .binary => [(['_', '0', '1'], .binary)]
  | _ => []

def numeralModes : List Mode :=
  [.start, .symbol .dot, .zero, .decimal, .fraction, .exponentMark, .exponentSign, .exponent,
    .hexMark, .hex, .binaryMark, .binary]

end Scanner

namespace Numeral

theorem nil_mem_remainder {base : Base} {mode : Mode} :
    [] ∈ (base.remainder mode).matches' ↔ base.endsIn mode = true := by
  rw [← RegularExpression.rmatch_iff_matches']
  cases mode with
  | symbol sign => cases base <;> cases sign <;> decide
  | directive name missing => cases base <;> simp [Base.remainder, Base.endsIn]
  | _ => cases base <;> decide

theorem cons_mem_row_mul {c : Char} {digits rest : List Char} {later : Language Char} :
    c :: rest ∈ (row digits).matches' * later ↔
      (c ∈ '_' :: digits ∧ rest ∈ (row digits).matches' * later) ∨ c :: rest ∈ later :=
  cons_mem_star_mul

theorem cons_mem_row {c : Char} {digits rest : List Char} :
    c :: rest ∈ (row digits).matches' ↔ c ∈ '_' :: digits ∧ rest ∈ (row digits).matches' :=
  cons_mem_star

theorem cons_mem_exponent {c : Char} {rest : List Char} :
    c :: rest ∈ exponent.matches' ↔
      c = 'e' ∧ rest ∈ (Base.decimal.remainder .exponentMark).matches' := by
  simp only [exponent, Base.remainder, RegularExpression.matches'_add,
    RegularExpression.matches'_epsilon, RegularExpression.matches'_mul,
    RegularExpression.matches'_char, mul_assoc, Language.mem_add, Language.mem_one,
    cons_mem_char_mul, reduceCtorEq, false_or]

theorem mem_digits_cons {c : Char} :
    c ∈ digits ↔ c = '0' ∨ c ∈ ['1', '2', '3', '4', '5', '6', '7', '8', '9'] :=
  List.mem_cons

theorem cons_mem_remainder {base : Base} {mode : Mode} {c : Char} {rest : List Char} :
    c :: rest ∈ (base.remainder mode).matches' ↔
      ∃ move ∈ mode.numeralMoves, c ∈ move.1 ∧ rest ∈ (base.remainder move.2).matches' := by
  cases mode with
  | start =>
      cases base with
      | decimal =>
          simp only [Mode.numeralMoves, Base.remainder, Base.numeral, decimal,
            RegularExpression.matches'_add, RegularExpression.matches'_epsilon,
            RegularExpression.matches'_mul, RegularExpression.matches'_char, mul_assoc, add_mul,
            one_mul, cons_mem_oneOf_mul, cons_mem_char_mul, Language.mem_add,
            List.exists_mem_cons_iff, List.mem_singleton, exists_eq_left, mem_digits_cons,
            or_and_right, or_assoc]
      | hex | binary =>
          simp only [Mode.numeralMoves, Base.remainder, Base.numeral, marked,
            RegularExpression.matches'_mul, RegularExpression.matches'_char,
            RegularExpression.matches'_zero, mul_assoc, cons_mem_char_mul,
            List.exists_mem_cons_iff, List.mem_singleton, exists_eq_left, Language.notMem_zero,
            and_false, or_false]
  | symbol sign =>
      by_cases isDot : sign = .dot
      · subst sign
        cases base <;>
          simp only [Mode.numeralMoves, Base.remainder, RegularExpression.matches'_mul,
            RegularExpression.matches'_zero, mul_assoc, cons_mem_oneOf_mul, List.mem_singleton,
            exists_eq_left, Language.notMem_zero, and_false]
      · have dead : base.remainder (.symbol sign) = 0 := by
          cases base <;> cases sign <;> first | rfl | contradiction
        have noMoves : Mode.numeralMoves (.symbol sign) = [] := by
          cases sign <;> first | rfl | contradiction
        simp [dead, noMoves]
  | decimal | zero | fraction | exponentMark | exponentSign | exponent | hexMark | hex | binaryMark
  | binary =>
      cases base <;>
        simp only [Mode.numeralMoves, Base.remainder, RegularExpression.matches'_add,
          RegularExpression.matches'_epsilon, RegularExpression.matches'_mul,
          RegularExpression.matches'_char, RegularExpression.matches'_star,
          RegularExpression.matches'_zero, mul_assoc, add_mul, one_mul, cons_mem_row_mul,
          cons_mem_row, cons_mem_star_mul, cons_mem_oneOf_mul, cons_mem_char_mul, cons_mem_exponent,
          Language.mem_add, List.exists_mem_cons_iff, List.mem_singleton, exists_eq_left,
          Language.notMem_zero, and_false, or_false, false_or]
  | _ => cases base <;> simp [Mode.numeralMoves, Base.remainder]

theorem mem_digits_iff {c : Char} : c ∈ digits ↔ c.isDigit = true := by
  constructor
  · intro member
    simp only [digits, List.mem_cons, List.not_mem_nil, or_false] at member
    rcases member with rfl | rfl | rfl | rfl | rfl | rfl | rfl | rfl | rfl | rfl <;> rfl
  · exact Text.mem_digits_of_isDigit

theorem mem_hexDigits_iff {c : Char} : c ∈ hexDigits ↔ Text.isHexDigit c = true := by
  constructor
  · intro member
    have table : hexDigits.all Text.isHexDigit = true := by decide
    exact List.all_eq_true.mp table c member
  · intro digit
    have within (low count : Nat) (lower : low ≤ c.toNat) (upper : c.toNat < low + count)
        (table : ∀ offset < count, Char.ofNat (low + offset) ∈ hexDigits) : c ∈ hexDigits := by
      have found := table (c.toNat - low) (by omega)
      rwa [Nat.add_sub_cancel' lower, Char.ofNat_toNat] at found
    simp only [Text.isHexDigit, Bool.or_eq_true, Bool.and_eq_true, decide_eq_true_eq,
      Char.le_def, UInt32.le_iff_toNat_le] at digit
    rcases digit with (decimal | lower) | upper
    · exact List.mem_append_left _ (mem_digits_iff.mpr decimal)
    · exact within 97 6 lower.1 (Nat.lt_succ_of_le lower.2) (by decide)
    · exact within 65 6 upper.1 (Nat.lt_succ_of_le upper.2) (by decide)

end Numeral

namespace Scanner

theorem mem_numeralModes {mode : Mode} {move : List Char × Mode}
    (member : move ∈ mode.numeralMoves) : mode ∈ numeralModes := by
  cases mode with
  | symbol sign =>
      cases sign <;> first | exact absurd member List.not_mem_nil | simp [numeralModes]
  | _ => first | exact absurd member List.not_mem_nil | simp [numeralModes]

theorem State.next_of_numeralMoves {mode : Mode} {move : List Char × Mode} {c : Char}
    (member : move ∈ mode.numeralMoves) (inClass : c ∈ move.1) :
    State.next ⟨mode, 0⟩ c = .absorb ⟨move.2, 0⟩ ∧ move.2 ≠ .start := by
  have table : numeralModes.all (fun mode => mode.numeralMoves.all fun move => move.1.all fun c =>
      State.next ⟨mode, 0⟩ c = .absorb ⟨move.2, 0⟩ && move.2 ≠ .start) = true := by
    decide +kernel
  simp only [List.all_eq_true] at table
  simpa using table mode (mem_numeralModes member) move member c inClass

theorem beforeNumeral_of_absorb {state next : State} {c : Char}
    (never : state.mode.beforeNumeral = false) (absorbed : state.next c = .absorb next) :
    next.mode.beforeNumeral = false := by
  obtain ⟨mode, depth⟩ := state
  cases mode with
  | start | zero | hexMark | binaryMark | hex | binary | decimal | fraction | exponentMark
  | exponentSign | exponent => simp [Mode.beforeNumeral] at never
  | symbol sign =>
      simp only [State.next] at absorbed
      split at absorbed <;> try contradiction
      · split_ifs at absorbed <;> cases absorbed <;> rfl
      · split_ifs at absorbed <;> cases absorbed <;> rfl
      · split_ifs at absorbed
        cases absorbed
        rfl
      next known =>
        cases known
        simp [Mode.beforeNumeral] at never
      · split_ifs at absorbed
      · split at absorbed
        next longer extended =>
          cases absorbed
          unfold Symbol.extend? at extended
          split at extended <;> first | (cases extended; rfl) | simp at extended
        next => simp at absorbed
  | directive name missing =>
      cases missing <;> simp only [State.next] at absorbed
      all_goals
        split_ifs at absorbed
        try (cases absorbed; rfl)
  | _ =>
      simp only [State.next] at absorbed
      repeat' split at absorbed
      all_goals first | (cases absorbed; rfl) | simp at absorbed

theorem numeralMoves_of_ofChar? {mode : Mode} {c : Char} (found : Mode.ofChar? c = some mode)
    (started : mode ≠ .start) (numeral : mode.beforeNumeral = true) :
    ∃ move ∈ Mode.start.numeralMoves, c ∈ move.1 ∧ mode = move.2 := by
  unfold Mode.ofChar? at found
  split at found
  next sign isSymbol =>
    cases found
    obtain rfl : sign = .dot := by
      cases sign <;> first | rfl | simp [Mode.beforeNumeral] at numeral
    have text : Symbol.dot.text.toList = [c] := Symbol.text_of_ofChar? isSymbol
    have isPoint : c = '.' := by simpa [Symbol.text] using text.symm
    exact ⟨(['.'], .symbol .dot), by simp [Mode.numeralMoves], by simp [isPoint], rfl⟩
  next =>
    split_ifs at found with zero _ _ _ _ digit <;> cases found
    · exact ⟨(['0'], .zero), by simp [Mode.numeralMoves], by simp [zero], rfl⟩
    · simp [Mode.beforeNumeral] at numeral
    · simp [Mode.beforeNumeral] at numeral
    · simp [Mode.beforeNumeral] at numeral
    · exact absurd rfl started
    · have inDigits := Numeral.mem_digits_cons.mp (Numeral.mem_digits_iff.mpr digit)
      exact ⟨(['1', '2', '3', '4', '5', '6', '7', '8', '9'], .decimal),
        by simp [Mode.numeralMoves], inDigits.resolve_left zero, rfl⟩
    · simp [Mode.beforeNumeral] at numeral

theorem numeralMoves_of_absorb {mode : Mode} {next : State} {c : Char}
    (absorbed : State.next ⟨mode, 0⟩ c = .absorb next) (started : next.mode ≠ .start)
    (numeral : next.mode.beforeNumeral = true) :
    ∃ move ∈ mode.numeralMoves, c ∈ move.1 ∧ next = ⟨move.2, 0⟩ := by
  have live : mode.beforeNumeral = true := by
    by_contra never
    have stillNever := beforeNumeral_of_absorb (Bool.not_eq_true _ ▸ never) absorbed
    simp [stillNever] at numeral
  cases mode with
  | start =>
      simp only [State.next] at absorbed
      split at absorbed
      next mode found =>
        cases absorbed
        obtain ⟨move, member, inClass, rfl⟩ := numeralMoves_of_ofChar? found started numeral
        exact ⟨move, member, inClass, rfl⟩
      next => simp at absorbed
  | symbol sign =>
      obtain rfl : sign = .dot := by
        cases sign <;> first | rfl | simp [Mode.beforeNumeral] at live
      simp only [State.next] at absorbed
      split_ifs at absorbed with isDot digit <;> cases absorbed
      · simp [Mode.beforeNumeral] at numeral
      · simpa [Mode.numeralMoves, Numeral.mem_digits_iff] using digit
  | zero | decimal | fraction | exponentMark | exponentSign | exponent | hexMark | hex | binaryMark
  | binary =>
      simp only [State.next] at absorbed
      split_ifs at absorbed <;> cases absorbed
      all_goals
        simp_all [Mode.numeralMoves, Numeral.mem_digits_iff, Numeral.mem_hexDigits_iff, or_assoc]
  | _ => simp [Mode.beforeNumeral] at live

theorem State.beforeNumeral_of_run? {state final : State} {text : List Char}
    (never : state.mode.beforeNumeral = false) (ran : state.run? text = some final) :
    final.mode.beforeNumeral = false := by
  induction text generalizing state with
  | nil =>
      cases ran
      exact never
  | cons c rest ih =>
      obtain ⟨next, absorbed, _, ranOn⟩ := State.run?_cons_some ran
      exact ih (beforeNumeral_of_absorb never absorbed) ranOn

end Scanner

namespace Numeral

theorem Base.beforeNumeral_of_endsIn {base : Base} {mode : Mode} (ends : base.endsIn mode = true) :
    mode.beforeNumeral = true := by
  cases base <;> cases mode <;> first | rfl | simp [endsIn] at ends

theorem run?_iff_remainder {base : Base} {mode : Mode} {text : List Char} :
    (∃ final, State.run? ⟨mode, 0⟩ text = some final ∧ base.endsIn final.mode = true) ↔
      text ∈ (base.remainder mode).matches' := by
  induction text generalizing mode with
  | nil => simp [State.run?, nil_mem_remainder]
  | cons c rest ih =>
      rw [cons_mem_remainder]
      constructor
      · rintro ⟨final, ran, ends⟩
        obtain ⟨next, absorbed, started, ranOn⟩ := State.run?_cons_some ran
        have numeral : next.mode.beforeNumeral = true := by
          by_contra never
          have stillNever := State.beforeNumeral_of_run? (Bool.not_eq_true _ ▸ never) ranOn
          simp [Base.beforeNumeral_of_endsIn ends] at stillNever
        obtain ⟨move, member, inClass, rfl⟩ :=
          Scanner.numeralMoves_of_absorb absorbed started numeral
        exact ⟨move, member, inClass, ih.mp ⟨final, ranOn, ends⟩⟩
      · rintro ⟨move, member, inClass, goesOn⟩
        obtain ⟨absorbed, started⟩ := State.next_of_numeralMoves member inClass
        rw [State.run?_cons absorbed started]
        exact ih.mpr goesOn

end Numeral

end GameScript
