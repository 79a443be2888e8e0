/-!
Double precision numbers, as 64-bit words. Every finite double is a whole number of units of
2^-1074, so rounding and arithmetic are exact computations on natural numbers.
-/

namespace GameScript

-- Powers of natural numbers are those of the core library, also where other libraries are in use.
instance (priority := 2000) natPower : Pow Nat Nat := instPowNat

attribute [default_instance high] natPower

/-- A binary64 number: a sign bit above a magnitude of 63 bits. -/
structure Double where
  bits : UInt64
deriving DecidableEq, Repr

namespace Double

def infiniteMagnitude : Nat := 2047 * 2 ^ 52

def magnitude (x : Double) : Nat := x.bits.toNat % 2 ^ 63

def negative (x : Double) : Bool := 2 ^ 63 ≤ x.bits.toNat

def ofMagnitude (negative : Bool) (magnitude : Nat) : Double :=
  ⟨UInt64.ofNat ((if negative then 2 ^ 63 else 0) + magnitude)⟩

def nan : Double := ofMagnitude false (infiniteMagnitude + 2 ^ 51 + 1)

def greatest : Double := ofMagnitude false (infiniteMagnitude - 1)

def isNaN (x : Double) : Bool := infiniteMagnitude < x.magnitude

def isInfinite (x : Double) : Bool := x.magnitude = infiniteMagnitude

def negate (x : Double) : Double := ofMagnitude (!x.negative) x.magnitude

/-- The size of a finite magnitude in units of 2^-1074. -/
def unitsOf (magnitude : Nat) : Nat :=
  if magnitude < 2 ^ 52 then magnitude
  else (magnitude % 2 ^ 52 + 2 ^ 52) * 2 ^ (magnitude / 2 ^ 52 - 1)

def units (x : Double) : Int :=
  if x.negative then -(unitsOf x.magnitude : Int) else unitsOf x.magnitude

def roundQuotient (num den : Nat) : Nat :=
  let quotient := num / den
  let twice := 2 * (num % den)
  if twice < den then quotient
  else if den < twice then quotient + 1
  else quotient + quotient % 2

/-- The magnitude nearest to `num / den` units of 2^-1074: 53 significant bits are kept, a tie goes
to the even one, and what is too great becomes infinite. -/
def roundUnits (num den : Nat) : Nat :=
  let scale := (num / den).log2 - 52
  -- A carry out of the 53 bits moves on to the next power of two by itself.
  min (scale * 2 ^ 52 + roundQuotient num (den * 2 ^ scale)) infiniteMagnitude

def ofRatio (negative : Bool) (num den : Nat) : Double :=
  ofMagnitude negative (roundUnits (num * 2 ^ 1074) den)

def ofInt (n : Int) : Double := ofRatio (n < 0) n.natAbs 1

def mul (x y : Double) : Double :=
  let negative := x.negative != y.negative
  if x.isNaN || y.isNaN then nan
  else if x.isInfinite || y.isInfinite then
    if x.magnitude = 0 || y.magnitude = 0 then nan else ofMagnitude negative infiniteMagnitude
  else ofMagnitude negative (roundUnits (unitsOf x.magnitude * unitsOf y.magnitude) (2 ^ 1074))

def add (x y : Double) : Double :=
  if x.isNaN || y.isNaN then nan
  else if x.isInfinite then if y.isInfinite && x.negative != y.negative then nan else x
  else if y.isInfinite then y
  else
    let sum := x.units + y.units
    if sum = 0 then ofMagnitude (x.negative && y.negative) 0
    else ofMagnitude (sum < 0) (roundUnits sum.natAbs 1)

end Double

end GameScript
