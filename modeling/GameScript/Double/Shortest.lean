import GameScript.Double

/-!
The shortest decimal of a double: the fewest digits that read back, and of those decimals the
nearest. A decimal is a natural number together with the count of its places after the point, and
the count is large enough to write the double exactly.
-/

namespace GameScript.Double

def twos : (bound : Nat) → Nat → Nat
  | 0, _ => 0
  | bound + 1, n => if n % 2 = 0 then twos bound (n / 2) + 1 else 0

def places (magnitude : Nat) : Nat :=
  if magnitude < 2 ^ 52 then 1074 - twos 1074 magnitude
  else 1074 - (twos 1074 (magnitude % 2 ^ 52 + 2 ^ 52) + (magnitude / 2 ^ 52 - 1))

def exactDecimal (magnitude : Nat) : Nat :=
  unitsOf magnitude * 10 ^ places magnitude / 2 ^ 1074

def readsBack (magnitude decimal : Nat) : Bool :=
  roundUnits (decimal * 2 ^ 1074) (10 ^ places magnitude) = magnitude

/-- The decimal that satisfies a test among the two neighbours of `exact` that are multiples of
`unit`; the nearer if both do, and on a tie the one with an even last digit. -/
def nearest? (test : Nat → Bool) (exact unit : Nat) : Option Nat :=
  let below := exact / unit * unit
  let above := below + unit
  match test below, test above with
  | true, true =>
      if exact - below < above - exact then some below
      else if above - exact < exact - below then some above
      else if exact / unit % 2 = 0 then some below
      else some above
  | true, false => some below
  | false, true => some above
  | false, false => none

def neighbour? (magnitude unit : Nat) : Option Nat :=
  nearest? (readsBack magnitude) (exactDecimal magnitude) unit

/-- The shortest decimal of a finite magnitude. Seventeen digits always suffice; the exact value
stands behind them. -/
def shortestDecimal (magnitude : Nat) : Nat :=
  let length := (Nat.toDigits 10 (exactDecimal magnitude)).length
  ((List.range 17).findSome? fun kept =>
    neighbour? magnitude (10 ^ (length - (kept + 1)))).getD (exactDecimal magnitude)

def fractionDigits (places fraction : Nat) : List Char :=
  let digits := Nat.toDigits 10 fraction
  let row := List.replicate (places - digits.length) '0' ++ digits
  (row.reverse.dropWhile (· = '0')).reverse

def plainDecimal (places decimal : Nat) : String :=
  let whole := String.ofList (Nat.toDigits 10 (decimal / 10 ^ places))
  match fractionDigits places (decimal % 10 ^ places) with
  | [] => whole
  | digits => whole ++ "." ++ String.ofList digits

def text (x : Double) : String :=
  if x.isNaN then "NaN"
  else
    (if x.negative then "-" else "") ++
      (if x.isInfinite then "infinity"
      else plainDecimal (places x.magnitude) (shortestDecimal x.magnitude))

def printsNegative (x : Double) : Bool :=
  x.negative && !x.isNaN

end GameScript.Double
