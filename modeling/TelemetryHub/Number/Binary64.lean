/-!
# Double-precision numbers

The finite numbers of the 64-bit binary format as a sign, a mantissa and a power of two, with exact
integer arithmetic behind every operation: a result is the exact quotient rounded once, to the
nearest mantissa and to the even one of two nearest, and there is no result beyond the largest
finite number.

`ofDecimal` turns decimal digits and a power of ten into such a number the quick way, by one
multiplication or division with a rounded power of ten; the outcome can differ from the nearest
number in its last bit.
-/

namespace TelemetryHub

/-- The finite double `± mantissa · 2 ^ exponent`. The mantissa has 53 bits, fewer only at the
smallest exponent. -/
structure Binary64 where
  negative : Bool
  mantissa : Nat
  exponent : Int
deriving DecidableEq, Inhabited

namespace Binary64

def minExponent : Int := -1074

def maxExponent : Int := 971

/-- The two zeros. -/
def signedZero (negative : Bool) : Binary64 := ⟨negative, 0, minExponent⟩

def twoTo (n : Nat) : Nat := Nat.pow 2 n

def tenTo (n : Nat) : Nat := Nat.pow 10 n

def leastMantissa : Nat := twoTo 52

def mantissaBound : Nat := twoTo 53

/-- `num / den` rounded to an integer, half to even. -/
def roundHalfEven (num den : Nat) : Nat :=
  let quotient := num / den
  let twice := 2 * (num % den)
  if twice < den then quotient
  else if den < twice then quotient + 1
  else quotient + quotient % 2

/-- The quotient `num / den` in units of `2 ^ exponent`, as a quotient again. -/
def inUnits (num den : Nat) (exponent : Int) : Nat × Nat :=
  if 0 ≤ exponent then (num, den * twoTo exponent.toNat)
  else (num * twoTo (-exponent).toNat, den)

/-- The exponent at which `num / den` has a mantissa of 53 bits, or the smallest one. -/
def place (num den : Nat) : Int :=
  let guess : Int := (num.log2 : Int) - den.log2 - 52
  let (n, d) := inUnits num den guess
  max minExponent (if n / d < leastMantissa then guess - 1 else guess)

/-- The double nearest to `± num / den`, if it is finite. -/
def ofRatio (negative : Bool) (num den : Nat) : Option Binary64 :=
  if num = 0 then some (signedZero negative)
  else
    let exponent := place num den
    let (n, d) := inUnits num den exponent
    let mantissa := roundHalfEven n d
    if mantissa = mantissaBound then
      if exponent < maxExponent then some ⟨negative, leastMantissa, exponent + 1⟩ else none
    else if exponent ≤ maxExponent then some ⟨negative, mantissa, exponent⟩
    else none

def ofNat (n : Nat) : Option Binary64 := ofRatio false n 1

def neg (x : Binary64) : Binary64 := { x with negative := !x.negative }

/-- `num · 2 ^ exponent / den` as a quotient of natural numbers, rounded. -/
def ofScaled (negative : Bool) (num den : Nat) (exponent : Int) : Option Binary64 :=
  if 0 ≤ exponent then ofRatio negative (num * twoTo exponent.toNat) den
  else ofRatio negative num (den * twoTo (-exponent).toNat)

def mul (x y : Binary64) : Option Binary64 :=
  ofScaled (x.negative != y.negative) (x.mantissa * y.mantissa) 1 (x.exponent + y.exponent)

def div (x y : Binary64) : Option Binary64 :=
  ofScaled (x.negative != y.negative) x.mantissa y.mantissa (x.exponent - y.exponent)

/-- The largest exponent of a power of ten that is finite. -/
def maxPowerOfTen : Nat := 308

/-- Scale a number by a power of ten that may lie beyond the finite ones: downwards in steps of the
largest one, until nothing is left. Three steps reduce every 64-bit integer to zero. -/
def scale (steps : Nat) (x : Binary64) (power : Int) : Option Binary64 :=
  if power.natAbs ≤ maxPowerOfTen then do
    let factor ← ofNat (tenTo power.natAbs)
    if 0 ≤ power then x.mul factor else x.div factor
  else if x.mantissa = 0 then some x
  else if 0 ≤ power then none
  else
    match steps with
    | 0 => some (signedZero false)
    | steps + 1 => do
      let smaller ← x.div (← ofNat (tenTo maxPowerOfTen))
      scale steps smaller (power + maxPowerOfTen)

/-- The double that `significand · 10 ^ power` is read as. -/
def ofDecimal (significand : Nat) (power : Int) : Option Binary64 := do
  scale 3 (← ofNat significand) power

end Binary64
end TelemetryHub
