import GameScript.Proofs.NumeralGrammar
import GameScript.Proofs.Respelling

/-!
Numerals as tokens. A text is one token of a base exactly if it is a numeral of the base. Without its
underscores a decimal numeral is digits with an optional point and an optional exponent, so that it
denotes a number.
-/

namespace GameScript

open Scanner (State Mode ahead)
open Double (StartsNumeral)

def ScansAs (text : List Char) (kind : TokenKind) (lit : String) : Prop :=
  ∃ position last, tokenize text = .ok [Token.first, ⟨kind, lit, position⟩, last] ∧
    last.kind = .finish

theorem ScansAs.ofRun {text : List Char} {state : State} {kind : TokenKind} {lit : String}
    (ran : State.initial.run? text = some state)
    (emitted : state.mode.token? text = some (kind, lit))
    (written : ∀ position, Token.isWritten ⟨kind, lit, position⟩ = true) :
    ScansAs text kind lit := by
  have complete : state.next (ahead []) = .complete :=
    Scanner.State.next_of_token? emitted (written ⟨1, 1⟩) (Or.inr rfl)
  obtain ⟨tokens, last, scanned, ⟨position, rfl⟩, closes⟩ :=
    (Scans.ofRun ran emitted).tokenize complete
  exact ⟨position, last, scanned, closes⟩

namespace Numeral

def Base.kind : Base → TokenKind
  | decimal => .decimal
  | hex => .hex
  | binary => .binary

/-- What a token holds of the numeral: all but the mark of the base. -/
def Base.lit : Base → List Char → String
  | decimal, text => String.ofList text
  | hex, text | binary, text => String.ofList (text.drop 2)

theorem Base.token?_of_endsIn {base : Base} {mode : Mode} (ends : base.endsIn mode = true)
    (text : List Char) : mode.token? text = some (base.kind, base.lit text) := by
  cases base <;> cases mode <;> first | rfl | simp [endsIn] at ends

theorem Base.endsIn_of_token? {base : Base} {mode : Mode} {text : List Char} {held : String}
    (emitted : mode.token? text = some (base.kind, held)) :
    base.endsIn mode = true ∧ held = base.lit text := by
  cases mode with
  | word =>
      simp only [Mode.token?, Option.some.injEq, Prod.mk.injEq] at emitted
      have sorts := wordKind_cases (String.ofList text)
      rw [emitted.1] at sorts
      cases base <;> simp [kind] at sorts
  | directive name missing => cases missing <;> cases base <;> simp [Mode.token?, kind] at emitted
  | _ => cases base <;> simp_all [Mode.token?, kind, endsIn, lit]

theorem mem_of_standsIn {base : Base} {token : Token} {before spelling later : List Char}
    (stands : token.StandsIn before spelling later) (kind : token.kind = base.kind) :
    spelling ∈ base.numeral.matches' ∧ token.lit = base.lit spelling := by
  obtain ⟨state, ran, emitted, _⟩ := stands.emitted
  rw [kind] at emitted
  obtain ⟨ends, holds⟩ := Base.endsIn_of_token? emitted
  exact ⟨run?_iff_remainder.mp ⟨state, ran, ends⟩, holds⟩

theorem length_le_of_spans {base : Base} {token : Token} {text spelling later : List Char}
    (spans : token.Spans spelling later) (kind : token.kind = base.kind)
    (holds : token.lit = base.lit text) : text.length ≤ spelling.length := by
  unfold Token.Spans at spans
  rw [kind] at spans
  cases base with
  | decimal => simp_all [Token.text, Base.kind, Base.lit]
  | hex | binary =>
      simp_all only [Token.text, Base.kind, Base.lit, String.toList_append, String.toList_ofList,
        List.length_append, List.length_drop]
      change text.length ≤ 2 + (text.length - 2)
      omega

theorem scansAs_iff_mem {base : Base} {text : List Char} :
    ScansAs text base.kind (base.lit text) ↔ text ∈ base.numeral.matches' := by
  constructor
  · rintro ⟨position, last, scanned, _⟩
    have inner : base.kind ≠ .start ∧ base.kind ≠ .finish := by cases base <;> simp [Base.kind]
    have member : ⟨base.kind, base.lit text, position⟩ ∈
        [Token.first, ⟨base.kind, base.lit text, position⟩, last] := by simp
    obtain ⟨before, spelling, later, split, stands⟩ :=
      Token.stands_of_tokenize scanned member inner
    have inside : spelling <:+: text := by
      have infixOfRest : spelling <:+: dropMark text := ⟨before, later, by simp [split]⟩
      exact infixOfRest.trans (dropMark_suffix text).isInfix
    have whole : spelling = text := by
      apply inside.eq_of_length_le
      exact length_le_of_spans stands.spans rfl rfl
    exact whole ▸ (mem_of_standsIn stands rfl).1
  · intro member
    obtain ⟨state, ran, ends⟩ : ∃ state, State.initial.run? text = some state ∧
        base.endsIn state.mode = true := run?_iff_remainder.mpr member
    refine ScansAs.ofRun ran (Base.token?_of_endsIn ends text) fun position => ?_
    cases base <;> rfl

def IsDigits (text : List Char) : Prop :=
  text ≠ [] ∧ ∀ c ∈ text, c.isDigit = true

theorem IsDigits.append {first second : List Char} (firstGood : IsDigits first)
    (digits : ∀ c ∈ second, c.isDigit = true) : IsDigits (first ++ second) := by
  refine ⟨by simp [firstGood.1], ?_⟩
  intro c member
  rcases List.mem_append.mp member with front | back
  · exact firstGood.2 c front
  · exact digits c back

inductive IsMantissa : List Char → Prop
  | whole {digits : List Char} (good : IsDigits digits) : IsMantissa digits
  | pointed {whole fraction : List Char} (good : IsDigits (whole ++ fraction)) :
      IsMantissa (whole ++ '.' :: fraction)

inductive IsExponent : List Char → Prop
  | absent : IsExponent []
  | positive {digits : List Char} (good : IsDigits digits) : IsExponent ('e' :: digits)
  | negative {digits : List Char} (good : IsDigits digits) : IsExponent ('e' :: '-' :: digits)

theorem IsExponent.head {text : List Char} (exponent : IsExponent text) :
    ∀ c ∈ text.head?, c = 'e' := by
  cases exponent <;> simp

theorem IsMantissa.startsNumeral {text : List Char} (mantissa : IsMantissa text) :
    text ≠ [] ∧ ∀ c ∈ text, StartsNumeral c := by
  cases mantissa with
  | whole good => exact ⟨good.1, fun c member => Or.inl (good.2 c member)⟩
  | @pointed whole fraction good =>
      refine ⟨by simp, ?_⟩
      intro c member
      rcases List.mem_append.mp member with front | back
      · exact Or.inl (good.2 c (List.mem_append_left _ front))
      · rcases List.mem_cons.mp back with point | after
        · exact Or.inr point
        · exact Or.inl (good.2 c (List.mem_append_right _ after))

theorem IsMantissa.splitDigits {text rest : List Char} (mantissa : IsMantissa text)
    (exponent : IsExponent rest) :
    ∃ digits places, Double.splitDigits Char.isDigit (text ++ rest) = (digits, places, rest) ∧
      digits ≠ [] := by
  have stops : ∀ c ∈ rest.head?, c.isDigit = false ∧ c ≠ '.' := by
    intro c first
    rw [exponent.head c first]
    decide
  cases mantissa with
  | whole good => exact ⟨text, 0, Double.splitDigits_whole good.2 stops, good.1⟩
  | @pointed whole fraction good =>
      refine ⟨whole ++ fraction, fraction.length, ?_, good.1⟩
      rw [List.append_assoc, List.cons_append]
      exact Double.splitDigits_fraction (fun c member => good.2 c (List.mem_append_left _ member))
        (fun c member => good.2 c (List.mem_append_right _ member)) fun c first => (stops c first).1

theorem IsDigits.exponentValue? {digits : List Char} (good : IsDigits digits) :
    ∃ value, Double.exponentValue? digits = some value := by
  have all : digits.all Char.isDigit = true := List.all_eq_true.mpr good.2
  simp [Double.exponentValue?, good.1, all]

theorem IsDigits.signedExponent? {digits : List Char} (good : IsDigits digits) :
    ∃ value, Double.signedExponent? digits = some value := by
  obtain ⟨value, read⟩ := good.exponentValue?
  have unsigned : ∀ sign, sign.isDigit = false → ∀ rest, digits ≠ sign :: rest := by
    rintro sign notDigit rest rfl
    simp [good.2 sign (by simp)] at notDigit
  unfold Double.signedExponent?
  split
  · exact absurd rfl (unsigned '-' (by decide) _)
  · exact absurd rfl (unsigned '+' (by decide) _)
  · simp [read]

theorem IsMantissa.decimal? {text rest : List Char} (mantissa : IsMantissa text)
    (exponent : IsExponent rest) : ∃ value, Double.decimal? (text ++ rest) = some value := by
  obtain ⟨digits, places, split, nonempty⟩ := mantissa.splitDigits exponent
  unfold Double.decimal?
  rw [split]
  cases exponent with
  | absent => simp [nonempty]
  | positive good =>
      obtain ⟨value, read⟩ := good.signedExponent?
      simp [nonempty, read]
  | negative good =>
      obtain ⟨value, read⟩ := good.exponentValue?
      simp [nonempty, Double.signedExponent?, read]

theorem IsMantissa.ofNumeral? {text rest : List Char} (mantissa : IsMantissa text)
    (exponent : IsExponent rest) : ∃ value, Double.ofNumeral? (text ++ rest) = some value := by
  obtain ⟨value, read⟩ := mantissa.decimal? exponent
  obtain ⟨nonempty, starts⟩ := mantissa.startsNumeral
  obtain ⟨c, more, rfl⟩ := List.exists_cons_of_ne_nil nonempty
  have start : StartsNumeral c := starts c (by simp)
  have unmarked : ∀ mark, mark.isDigit = false → mark ≠ '.' → mark ≠ 'e' →
      (more ++ rest).head? ≠ some mark := by
    intro mark notDigit notPoint notExponent first
    cases more with
    | nil => exact notExponent (exponent.head mark first)
    | cons d more =>
        have second : StartsNumeral d := starts d (by simp)
        exact second.ne_of_word notDigit notPoint (Option.some.inj first)
  have notHex := And.intro (unmarked 'x' (by decide) (by decide) (by decide))
    (unmarked 'X' (by decide) (by decide) (by decide))
  rw [List.cons_append] at read ⊢
  rw [Double.ofNumeral?_eq_unsigned? start, Double.unsigned?_eq_decimal? start notHex]
  exact ⟨value, read⟩

/-! Decimal numerals without their underscores. -/

theorem isDigit_of_mem_row {text : List Char} (member : text ∈ (row digits).matches') :
    ∀ c ∈ text.filter (· ≠ '_'), c.isDigit = true := by
  induction text with
  | nil => simp
  | cons c rest ih =>
      obtain ⟨inRow, restInRow⟩ := cons_mem_row.mp member
      intro d inside
      obtain ⟨listed, visible⟩ := List.mem_filter.mp inside
      rcases List.mem_cons.mp listed with rfl | later
      · have isDigit := (List.mem_cons.mp inRow).resolve_left (by simpa using visible)
        exact mem_digits_iff.mp isDigit
      · exact ih restInRow d (List.mem_filter.mpr ⟨later, visible⟩)

theorem isDigits_of_mem {text : List Char}
    (member : text ∈ (oneOf digits).matches' * (row digits).matches') :
    IsDigits (text.filter (· ≠ '_')) := by
  obtain ⟨first, inClass, rest, inRow, rfl⟩ := Language.mem_mul.mp member
  obtain ⟨c, isDigit, rfl⟩ := mem_oneOf.mp inClass
  have digit : c.isDigit = true := mem_digits_iff.mp isDigit
  have visible : c ≠ '_' := by
    rintro rfl
    simp at digit
  have shape : ([c] ++ rest).filter (· ≠ '_') = c :: rest.filter (· ≠ '_') := by simp [visible]
  rw [shape]
  refine ⟨by simp, ?_⟩
  intro d inside
  rcases List.mem_cons.mp inside with rfl | later
  · exact digit
  · exact isDigit_of_mem_row inRow d later

theorem isExponent_of_mem {text : List Char} (member : text ∈ exponent.matches') :
    IsExponent (text.filter (· ≠ '_')) := by
  cases text with
  | nil => exact .absent
  | cons c rest =>
      obtain ⟨rfl, inRest⟩ := cons_mem_exponent.mp member
      simp only [Base.remainder, RegularExpression.matches'_mul, RegularExpression.matches'_add,
        RegularExpression.matches'_epsilon, RegularExpression.matches'_char, mul_assoc, add_mul,
        one_mul, Language.mem_add] at inRest
      rcases inRest with plain | signed
      · exact .positive (isDigits_of_mem plain)
      · obtain ⟨unsigned, inDigits, rfl⟩ := mem_char_mul.mp signed
        exact .negative (isDigits_of_mem inDigits)

theorem isMantissa_of_mem {text : List Char} (member : text ∈ decimal.matches') :
    ∃ mantissa exponent, text.filter (· ≠ '_') = mantissa ++ exponent ∧ IsMantissa mantissa ∧
      IsExponent exponent := by
  simp only [decimal, RegularExpression.matches'_add, RegularExpression.matches'_mul,
    RegularExpression.matches'_epsilon, RegularExpression.matches'_char, Language.mem_add] at member
  rcases member with digitFirst | pointFirst
  · obtain ⟨front, inFront, exponent, inExponent, rfl⟩ := Language.mem_mul.mp digitFirst
    obtain ⟨whole, inWhole, tail, inTail, rfl⟩ := Language.mem_mul.mp inFront
    have wholeDigits := isDigits_of_mem inWhole
    rcases (Language.mem_add _ _ _).mp inTail with none | inFraction
    · obtain rfl : tail = [] := none
      exact ⟨whole.filter (· ≠ '_'), exponent.filter (· ≠ '_'), by simp, .whole wholeDigits,
        isExponent_of_mem inExponent⟩
    · obtain ⟨fraction, inRow, rfl⟩ := mem_char_mul.mp inFraction
      exact ⟨whole.filter (· ≠ '_') ++ '.' :: fraction.filter (· ≠ '_'),
        exponent.filter (· ≠ '_'), by simp, .pointed (wholeDigits.append (isDigit_of_mem_row inRow)),
        isExponent_of_mem inExponent⟩
  · obtain ⟨front, inFront, exponent, inExponent, rfl⟩ := Language.mem_mul.mp pointFirst
    rw [mul_assoc] at inFront
    obtain ⟨fraction, inFraction, rfl⟩ := mem_char_mul.mp inFront
    have fractionDigits : IsDigits ([] ++ fraction.filter (· ≠ '_')) := isDigits_of_mem inFraction
    exact ⟨[] ++ '.' :: fraction.filter (· ≠ '_'), exponent.filter (· ≠ '_'), by simp,
      .pointed fractionDigits, isExponent_of_mem inExponent⟩

theorem literal_of_mem {base : Base} {token : Token} {spelling : List Char}
    (kind : token.kind = base.kind) (holds : token.lit = base.lit spelling)
    (member : spelling ∈ base.numeral.matches') :
    ∃ value, token.literal = .ok (.number value) := by
  unfold Token.literal
  rw [kind, holds]
  cases base with
  | decimal =>
      obtain ⟨mantissa, exponent, parts, good, goodExponent⟩ := isMantissa_of_mem member
      obtain ⟨value, read⟩ := good.ofNumeral? goodExponent
      refine ⟨value, ?_⟩
      simp only [Base.kind, Base.lit, String.toList_ofList, parts, read]
  | hex => exact ⟨_, rfl⟩
  | binary => exact ⟨_, rfl⟩

end Numeral

/-- A text is one numeral token exactly if it matches the grammar of the base, and every numeral
token of a text is read as a number. -/
theorem numerals_recognized :
    (∀ (base : Numeral.Base) (text : List Char),
      ScansAs text base.kind (base.lit text) ↔ text ∈ base.numeral.matches') ∧
    ∀ (chars : List Char) (tokens : List Token), tokenize chars = .ok tokens →
      ∀ token ∈ tokens, ∀ base : Numeral.Base, token.kind = base.kind →
        ∀ cursor : Cursor, cursor.peek = token →
          ∃ value, Parser.literal cursor = .ok (.number value) cursor.advance := by
  refine ⟨fun base text => Numeral.scansAs_iff_mem, ?_⟩
  intro chars tokens scanned token member base kind cursor here
  have inner : token.kind ≠ .start ∧ token.kind ≠ .finish := by
    rw [kind]
    cases base <;> simp [Numeral.Base.kind]
  obtain ⟨_, spelling, _, _, stands⟩ := Token.stands_of_tokenize scanned member inner
  obtain ⟨inGrammar, holds⟩ := Numeral.mem_of_standsIn stands kind
  obtain ⟨value, denotes⟩ := Numeral.literal_of_mem kind holds inGrammar
  refine ⟨value, Parser.literal_ok_iff.mpr ⟨?_, rfl⟩⟩
  rw [here]
  exact denotes

theorem numerals_recognized_touching :
    let text := "1_0._e-3_".toList
    let tokens : List Token :=
      [Token.first, ⟨.decimal, "1_0._e-3_", ⟨1, 1⟩⟩, ⟨.decimal, ".5", ⟨1, 10⟩⟩,
        ⟨.hex, "_1F", ⟨1, 13⟩⟩, ⟨.finish, "", ⟨1, 18⟩⟩]
    let cursor : Cursor := ⟨[Token.first], tokens.tail, by simp⟩
    ScansAs text .decimal "1_0._e-3_" ∧ text ∈ Numeral.decimal.matches' ∧
      tokenize (text ++ ".5 0x_1F".toList) = .ok tokens ∧
      ∃ value, Parser.literal cursor = .ok (.number value) cursor.advance := by
  intro text tokens cursor
  have one : ScansAs text .decimal "1_0._e-3_" :=
    ⟨⟨1, 1⟩, ⟨.finish, "", ⟨1, 10⟩⟩, by decide +kernel, rfl⟩
  have scanned : tokenize (text ++ ".5 0x_1F".toList) = .ok tokens := by decide +kernel
  refine ⟨one, (numerals_recognized.1 .decimal text).mp one, scanned, ?_⟩
  exact numerals_recognized.2 _ tokens scanned ⟨.decimal, "1_0._e-3_", ⟨1, 1⟩⟩ (by simp [tokens])
    .decimal rfl cursor rfl

end GameScript
