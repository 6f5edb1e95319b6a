import TelemetryHub.Number.Binary64
import TelemetryHub.Text.Basic

/-!
# The shortest decimal form

A double is written with the fewest decimal digits that are nearer to it than to any other double,
and among those with the digits nearest to it. The search tries one digit, two digits and so on;
on each decimal grid only the two neighbours of the number can be hits.

`Layout` decides where the digits stand: between `0.00001` and `10^16` they are written out with a
point, elsewhere with an exponent that carries its sign.
-/

namespace TelemetryHub

namespace Binary64

/-- A positive decimal `digits · 10 ^ power`. -/
structure Decimal where
  digits : Nat
  power : Int
deriving DecidableEq

/-- How far the decimals that are read back as the number can be below it and above it, in quarters
of a unit of the mantissa. Below a power of two the gap is half as wide. -/
def margins (x : Binary64) : Nat × Nat :=
  (if x.mantissa = leastMantissa ∧ minExponent < x.exponent then 1 else 2, 2)

/-- The hit on the grid of multiples of `10 ^ power`, if there is one: a neighbour of the number that
is within its margin, and exactly on it only if the mantissa is even. Of two hits the nearer one is
taken, and the even one if they are equally near. -/
def hit (x : Binary64) (power : Int) : Option Decimal :=
  let exponent := x.exponent - 2
  let quarter := twoTo exponent.toNat * tenTo (-power).toNat
  let unit := twoTo (-exponent).toNat * tenTo power.toNat
  let value := 4 * x.mantissa * quarter
  let down := value / unit
  let toDown := value - down * unit
  let toUp := unit - toDown
  let (below, above) := x.margins
  let within (distance margin : Nat) : Bool :=
    if x.mantissa % 2 = 0 then distance ≤ margin * quarter else distance < margin * quarter
  let isDown := down ≠ 0 && within toDown below
  let isUp := within toUp above
  if isDown && (!isUp || toDown < toUp || (toDown = toUp && down % 2 = 0)) then some ⟨down, power⟩
  else if isUp then some ⟨down + 1, power⟩
  else none

/-- The power of ten of the leading digit. It is read off the number scaled by a power of ten; since
`10 ^ (3 n / 10) ≤ 2 ^ n ≤ 10 ^ (31 n / 100 + 1)`, what is left is at least 1 and has few digits. -/
def leadingPower (x : Binary64) : Int :=
  let exponent := x.exponent
  let down := exponent.toNat * 3 / 10
  let up := (-exponent).toNat * 31 / 100 + 1
  let scaled := x.mantissa * twoTo exponent.toNat * tenTo up /
    (twoTo (-exponent).toNat * tenTo down)
  (Text.digits scaled).length - 1 + down - up

/-- The first hit with `count` digits or more; seventeen always suffice. -/
def search (x : Binary64) (leading : Int) : Nat → Nat → Option Decimal
  | 0, _ => none
  | left + 1, count =>
    match x.hit (leading - count + 1) with
    | some decimal => some decimal
    | none => search x leading left (count + 1)

/-- The shortest decimal that is read back as the number; zero is written with one digit. -/
def shortest (x : Binary64) : Decimal :=
  if x.mantissa = 0 then ⟨0, 0⟩
  else (x.search x.leadingPower 17 1).getD ⟨x.mantissa, x.exponent⟩

/-- How the digits of a number are laid out. -/
structure Layout where
  /-- The smallest power of the leading digit that is written out. -/
  least : Int
  /-- The first power of the leading digit that is not written out any more. -/
  beyond : Int

def documents : Layout := ⟨-5, 16⟩

def significant (digits : List Char) : List Char :=
  match (digits.reverse.dropWhile (· = '0')).reverse with
  | [] => ['0']
  | kept => kept

def Layout.write (layout : Layout) (digits : List Char) (leading : Int) : List Char :=
  if layout.least ≤ leading ∧ leading < 0 then
    "0.".toList ++ List.replicate (-leading - 1).toNat '0' ++ digits
  else if 0 ≤ leading ∧ leading < layout.beyond then
    let whole := leading.toNat + 1
    if digits.length ≤ whole then
      digits ++ List.replicate (whole - digits.length) '0' ++ ".0".toList
    else digits.take whole ++ '.' :: digits.drop whole
  else
    let mantissa := match digits with
      | first :: second :: rest => first :: '.' :: second :: rest
      | short => short
    mantissa ++ 'e' :: (if leading < 0 then '-' else '+') :: Text.digits leading.natAbs

def text (x : Binary64) : List Char :=
  let decimal := x.shortest
  let all := Text.digits decimal.digits
  let leading := if x.mantissa = 0 then 0 else (all.length : Int) - 1 + decimal.power
  (if x.negative then ['-'] else []) ++ documents.write (significant all) leading

end Binary64
end TelemetryHub
