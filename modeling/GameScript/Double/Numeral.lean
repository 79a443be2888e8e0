import GameScript.Double

/-! Numerals: the doubles that decimal, hexadecimal and binary texts denote. -/

namespace GameScript.Double

def digitValue (c : Char) : Nat :=
  if c.isDigit then c.toNat - '0'.toNat
  else if 'a' ≤ c && c ≤ 'f' then c.toNat - 'a'.toNat + 10
  else if 'A' ≤ c && c ≤ 'F' then c.toNat - 'A'.toNat + 10
  else 0

def natOfDigits (base : Nat) (digits : List Char) : Nat :=
  digits.foldl (fun value c => value * base + digitValue c) 0

/-- The digits of an exponent. Once its value reaches 10000 further digits are ignored: no
numeral of a reasonable length can tell the difference. -/
def exponentValue? (digits : List Char) : Option Nat :=
  if digits.isEmpty || !digits.all Char.isDigit then none
  else
    some (digits.foldl
      (fun value c => if value < 10000 then value * 10 + digitValue c else value) 0)

def signedExponent? : List Char → Option Int
  | '-' :: digits => (exponentValue? digits).map fun value => -(value : Int)
  | '+' :: digits => (exponentValue? digits).map fun value => (value : Int)
  | digits => (exponentValue? digits).map fun value => (value : Int)

def splitDigits (isDigit : Char → Bool) (text : List Char) : List Char × Nat × List Char :=
  let whole := text.takeWhile isDigit
  match text.dropWhile isDigit with
  | '.' :: rest =>
      let fraction := rest.takeWhile isDigit
      (whole ++ fraction, fraction.length, rest.dropWhile isDigit)
  | rest => (whole, 0, rest)

def scaled (digits base : Nat) (exponent : Int) : Double :=
  match exponent with
  | .ofNat power => ofRatio false (digits * base ^ power) 1
  | .negSucc power => ofRatio false digits (base ^ (power + 1))

def decimal? (text : List Char) : Option Double :=
  let (digits, places, rest) := splitDigits Char.isDigit text
  if digits.isEmpty then none
  else
    let exponent? : Option Int :=
      match rest with
      | [] => some 0
      | mark :: exponent => if mark = 'e' || mark = 'E' then signedExponent? exponent else none
    exponent?.map fun exponent => scaled (natOfDigits 10 digits) 10 (exponent - places)

def hexadecimal? (text : List Char) : Option Double :=
  let isHexDigit (c : Char) : Bool := c.isDigit || ('a' ≤ c.toLower && c.toLower ≤ 'f')
  let (digits, places, rest) := splitDigits isHexDigit text
  if digits.isEmpty then none
  else
    match rest with
    | [] => none
    | mark :: exponent =>
        if mark = 'p' || mark = 'P' then
          (signedExponent? exponent).map fun exponent =>
            scaled (natOfDigits 16 digits) 2 (exponent - 4 * places)
        else none

def unsigned? (text : List Char) : Option Double :=
  let word := String.ofList (text.map Char.toLower)
  if word = "inf" || word = "infinity" then some (ofMagnitude false infiniteMagnitude)
  else
    match text with
    | '0' :: 'x' :: rest => hexadecimal? rest
    | '0' :: 'X' :: rest => hexadecimal? rest
    | _ => decimal? text

def ofNumeral? (text : List Char) : Option Double :=
  match text with
  | '-' :: rest => (unsigned? rest).map negate
  | '+' :: rest => unsigned? rest
  | _ => if String.ofList (text.map Char.toLower) = "nan" then some nan else unsigned? text

/-- The number that digits of some base denote, rounded at each step. Underscores are skipped, and
what is too great becomes the greatest finite number. -/
def ofRadix (base : Int) (digits : List Char) : Double :=
  let step (value : Double) (c : Char) : Double :=
    if c = '_' then value else (value.mul (ofInt base)).add (ofInt (digitValue c))
  let value := digits.foldl step (ofInt 0)
  if value.isInfinite then greatest else value

end GameScript.Double
