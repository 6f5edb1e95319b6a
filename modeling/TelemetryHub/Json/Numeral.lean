import TelemetryHub.Json.Fault

/-!
# Numerals

A numeral has an integer part without needless zeros at its front and may have a fraction and an
exponent. Digits are gathered into a significand as long as it fits 64 bits; digits of the integer
part beyond that count as powers of ten, and digits of the fraction beyond it are dropped. A numeral
without fraction and exponent whose digits all fit is an integer, unless it is a negative zero or too
far below zero; everything else is a double.
-/

namespace TelemetryHub.Json

def digitValue (c : Char) : Nat := c.toNat - '0'.toNat

def dropDigits (cs : List Char) : List Char := cs.dropWhile Char.isDigit

/-- The significands lie below this bound, which is `2 ^ 64`. -/
def significandBound : Nat := 18446744073709551616

/-- A significand with digits appended as long as it stays in bounds, how many there were, and
what is left. -/
def gather (significand count : Nat) : List Char → Nat × Nat × List Char
  | [] => (significand, count, [])
  | c :: rest =>
    if c.isDigit && significand * 10 + digitValue c < significandBound then
      gather (significand * 10 + digitValue c) (count + 1) rest
    else (significand, count, c :: rest)

/-- The exponents that are read exactly lie below this bound, which is `2 ^ 31`. -/
def exponentBound : Nat := 2147483648

/-- The digits of an exponent, and `none` behind the first digit that leads out of bounds. -/
def gatherExponent (power : Nat) : List Char → Option Nat × List Char
  | [] => (some power, [])
  | c :: rest =>
    if c.isDigit then
      if power * 10 + digitValue c < exponentBound then
        gatherExponent (power * 10 + digitValue c) rest
      else (none, rest)
    else (some power, c :: rest)

/-- The double with the given sign, significand and power of ten, in front of `rest`. -/
def real (negative : Bool) (significand : Nat) (power : Int) (rest : List Char) :
    Outcome Number :=
  match Binary64.ofDecimal significand power with
  | some x => .ok (.real (if negative then x.neg else x), rest)
  | none => stop .numberTooBig rest 0

def exponentPart (negative : Bool) (significand : Nat) (power : Int) (cs : List Char) :
    Outcome Number :=
  let (down, cs) := match cs with
    | '-' :: rest => (true, rest)
    | '+' :: rest => (false, rest)
    | _ => (false, cs)
  match cs with
  | [] => stop .endInValue [] 0
  | c :: rest =>
    if c.isDigit then
      match gatherExponent (digitValue c) rest with
      | (some exponent, rest) =>
        real negative significand (if down then power - exponent else power + exponent) rest
      | (none, rest) =>
        if significand ≠ 0 && !down then stop .numberTooBig rest 0
        else .ok (.real (.signedZero negative), dropDigits rest)
    else stop .badNumber (c :: rest) 1

def fractionPart (negative : Bool) (significand : Nat) (power : Int) (cs : List Char) :
    Outcome Number :=
  match cs with
  | [] => stop .endInValue [] 0
  | c :: rest =>
    if c.isDigit then
      let (significand, count, rest) := gather significand 0 (c :: rest)
      match dropDigits rest with
      | 'e' :: rest | 'E' :: rest => exponentPart negative significand (power - count) rest
      | rest => real negative significand (power - count) rest
    else stop .badNumber (c :: rest) 1

/-- An integer with a given sign; a negative zero and integers too far below zero are doubles. -/
def integral (negative : Bool) (significand : Nat) (rest : List Char) : Outcome Number :=
  let value : Int := if negative then -significand else significand
  match if negative && significand = 0 then none else Whole.ofInt? value with
  | some n => .ok (.whole n, rest)
  | none => real negative significand 0 rest

/-- What follows the digits of the integer part; `extra` of them did not fit the significand. -/
def afterInteger (negative : Bool) (significand extra : Nat) (cs : List Char) : Outcome Number :=
  match cs with
  | '.' :: rest => fractionPart negative significand extra rest
  | 'e' :: rest | 'E' :: rest => exponentPart negative significand extra rest
  | rest =>
    if extra = 0 then integral negative significand rest else real negative significand extra rest

def unsignedNumeral (negative : Bool) (cs : List Char) : Outcome Number :=
  match cs with
  | [] => stop .endInValue [] 0
  | '0' :: rest =>
    match rest with
    | c :: _ => if c.isDigit then stop .badNumber rest 1 else afterInteger negative 0 0 rest
    | [] => afterInteger negative 0 0 rest
  | c :: rest =>
    if c.isDigit then
      let (significand, _, rest) := gather (digitValue c) 1 rest
      afterInteger negative significand (rest.takeWhile Char.isDigit).length (dropDigits rest)
    else stop .badNumber (c :: rest) 1

def numeral (cs : List Char) : Outcome Number :=
  match cs with
  | '-' :: rest => unsignedNumeral true rest
  | rest => unsignedNumeral false rest

end TelemetryHub.Json
