import Mathlib.Algebra.Order.Field.Basic
import Mathlib.Algebra.Order.Field.Power
import Mathlib.Algebra.Order.Field.Rat
import Mathlib.Tactic.FieldSimp
import Mathlib.Tactic.Linarith
import Mathlib.Tactic.NormNum
import Mathlib.Tactic.Ring
import TelemetryHub.Number.Binary64

/-!
# Rounding

What the arithmetic of doubles keeps. A quotient is rounded to a double of the format (`Proper`), and
the result stays on the same side of every double of the format that the quotient is on (`Rounds`): this
is all that is needed to see that a number which is not beyond the largest double is never rounded
beyond it. `exists_ofDecimal`: decimals of seventeen digits that are not too large have a double.
-/

namespace TelemetryHub.Binary64

/-- The number without its sign. -/
def size (x : Binary64) : ℚ := x.mantissa * 2 ^ x.exponent

/-- The doubles of the format: a mantissa of 53 bits and an exponent within bounds. -/
structure Proper (x : Binary64) : Prop where
  mantissa : x.mantissa < mantissaBound
  least : minExponent ≤ x.exponent
  most : x.exponent ≤ maxExponent

/-- The largest double. -/
def largest : ℚ := (2 ^ 53 - 1 : Nat) * 2 ^ maxExponent

theorem mantissaBound_eq : mantissaBound = 2 ^ 53 := rfl

theorem leastMantissa_eq : leastMantissa = 2 ^ 52 := rfl

/-- Of two powers of two, the one with the larger exponent is larger by a power that is natural. -/
theorem two_zpow_of_le {low high : Int} (le : low ≤ high) :
    (2 : ℚ) ^ high = (2 ^ (high - low).toNat : Nat) * 2 ^ low := by
  have split : high = ((high - low).toNat : Int) + low := by omega
  conv_lhs => rw [split]
  rw [zpow_add₀ (by norm_num), zpow_natCast, Nat.cast_pow, Nat.cast_ofNat]

theorem cast_twoTo (n : Nat) : ((twoTo n : Nat) : ℚ) = 2 ^ (n : Int) := by
  rw [zpow_natCast]
  exact_mod_cast rfl

theorem two_zpow_pos (e : Int) : (0 : ℚ) < 2 ^ e := zpow_pos (by norm_num) e

theorem two_zpow_succ (e : Int) : (2 : ℚ) ^ (e + 1) = 2 * 2 ^ e := by
  rw [zpow_add₀ (by norm_num), zpow_one, mul_comm]

/-! ## Rounding to an integer -/

theorem roundHalfEven_le {num den bound : Nat} (positive : 0 < den) (le : num ≤ bound * den) :
    roundHalfEven num den ≤ bound := by
  have quotient : num / den ≤ bound := Nat.div_le_of_le_mul (by rwa [Nat.mul_comm])
  rcases Nat.lt_or_eq_of_le quotient with less | same
  · unfold roundHalfEven
    dsimp only
    split
    · omega
    split <;> omega
  · have exact_ : num % den = 0 := by
      have parts := Nat.div_add_mod num den
      rw [same, Nat.mul_comm] at parts
      omega
    simp [roundHalfEven, exact_, positive, same]

theorem le_roundHalfEven {num den bound : Nat} (positive : 0 < den) (le : bound * den ≤ num) :
    bound ≤ roundHalfEven num den := by
  have quotient : bound ≤ num / den := (Nat.le_div_iff_mul_le positive).mpr le
  unfold roundHalfEven
  dsimp only
  split
  · omega
  split <;> omega

/-! ## The place of a quotient -/

theorem inUnits_pos (num : Nat) {den : Nat} (positive : 0 < den) (exponent : Int) :
    0 < (inUnits num den exponent).2 := by
  unfold inUnits
  split
  · exact Nat.mul_pos positive (Nat.two_pow_pos _)
  · exact positive

/-- A quotient in units of a power of two is the quotient by that power. -/
theorem inUnits_eq (num den : Nat) (exponent : Int) :
    ((inUnits num den exponent).1 : ℚ) / (inUnits num den exponent).2 =
      num / den / 2 ^ exponent := by
  unfold inUnits
  split
  · next nonneg =>
    rw [Nat.cast_mul, cast_twoTo, Int.toNat_of_nonneg nonneg, div_div]
  · next negative =>
    rw [Nat.cast_mul, cast_twoTo, Int.toNat_of_nonneg (by omega), zpow_neg, div_right_comm,
      div_eq_mul_inv (num : ℚ)]

theorem cast_log2_le {n : Nat} (positive : 0 < n) : (2 : ℚ) ^ (n.log2 : Int) ≤ n := by
  rw [zpow_natCast]
  exact_mod_cast Nat.log2_self_le positive.ne'

theorem lt_cast_log2 (n : Nat) : (n : ℚ) < 2 ^ (n.log2 + 1 : Int) := by
  have less : n < 2 ^ (n.log2 + 1) := Nat.lt_log2_self
  have cast : (n.log2 + 1 : Int) = ((n.log2 + 1 : Nat) : Int) := by norm_cast
  rw [cast, zpow_natCast]
  exact_mod_cast less

theorem two_pow_mul_zpow (n : Nat) (k : Int) : (2 : ℚ) ^ n * 2 ^ k = 2 ^ (k + n) := by
  rw [← zpow_natCast, ← zpow_add₀ (by norm_num), add_comm]

/-- The place that the lengths of the two numbers in bits suggest: it is right or one too large. -/
def guess (num den : Nat) : Int := (num.log2 : Int) - den.log2 - 52

section Place

variable {num den : Nat} (positive : 0 < num) (positive' : 0 < den)

include positive' in
theorem lt_guess : (num / den : ℚ) < 2 ^ 53 * 2 ^ guess num den := by
  rw [div_lt_iff₀ (Nat.cast_pos.mpr positive')]
  calc (num : ℚ) < 2 ^ (num.log2 + 1 : Int) := lt_cast_log2 num
    _ = 2 ^ 53 * 2 ^ guess num den * 2 ^ (den.log2 : Int) := by
      rw [two_pow_mul_zpow, ← zpow_add₀ (by norm_num), guess]
      congr 1
      omega
    _ ≤ 2 ^ 53 * 2 ^ guess num den * den :=
      mul_le_mul_of_nonneg_left (cast_log2_le positive') (by positivity)

include positive positive' in
theorem guess_le : (2 ^ 51 * 2 ^ guess num den : ℚ) ≤ num / den := by
  rw [le_div_iff₀ (Nat.cast_pos.mpr positive')]
  calc (2 ^ 51 * 2 ^ guess num den * den : ℚ)
      ≤ 2 ^ 51 * 2 ^ guess num den * 2 ^ (den.log2 + 1 : Int) :=
        mul_le_mul_of_nonneg_left (lt_cast_log2 den).le (by positivity)
    _ = 2 ^ (num.log2 : Int) := by
      rw [two_pow_mul_zpow, ← zpow_add₀ (by norm_num), guess]
      congr 1
      omega
    _ ≤ num := cast_log2_le positive

include positive' in
/-- What `place` compares to see whether its guess is too large. -/
theorem inUnits_lt_leastMantissa (exponent : Int) :
    (inUnits num den exponent).1 / (inUnits num den exponent).2 < leastMantissa ↔
      (num / den : ℚ) < 2 ^ 52 * 2 ^ exponent := by
  have units_pos := inUnits_pos num positive' exponent
  rw [Nat.div_lt_iff_lt_mul units_pos, ← div_lt_iff₀ (two_zpow_pos exponent), ← inUnits_eq,
    div_lt_iff₀ (Nat.cast_pos.mpr units_pos), leastMantissa_eq]
  exact_mod_cast Iff.rfl

include positive positive' in
/-- The place is the exponent at which the quotient has 53 bits, or the smallest one. -/
theorem exists_place : ∃ exponent, place num den = max minExponent exponent ∧
    (num / den : ℚ) < 2 ^ 53 * 2 ^ exponent ∧ (2 ^ 52 * 2 ^ exponent : ℚ) ≤ num / den := by
  have small := @inUnits_lt_leastMantissa num den positive' (guess num den)
  have unfolded : place num den = max minExponent
      (if (inUnits num den (guess num den)).1 / (inUnits num den (guess num den)).2 < leastMantissa
        then guess num den - 1 else guess num den) := rfl
  rw [unfolded]
  split
  · next less =>
    have twice : (2 : ℚ) ^ guess num den = 2 * 2 ^ (guess num den - 1) := by
      rw [← two_zpow_succ, sub_add_cancel]
    refine ⟨guess num den - 1, rfl, ?_, ?_⟩
    · calc (num / den : ℚ) < 2 ^ 52 * 2 ^ guess num den := small.mp less
        _ = 2 ^ 53 * 2 ^ (guess num den - 1) := by rw [twice]; ring
    · calc (2 ^ 52 * 2 ^ (guess num den - 1) : ℚ) = 2 ^ 51 * 2 ^ guess num den := by
            rw [twice]; ring
        _ ≤ num / den := guess_le positive positive'
  · next notLess =>
    exact ⟨guess num den, rfl, lt_guess positive', not_lt.mp fun less => notLess (small.mpr less)⟩

include positive positive' in
/-- At its place a quotient has 53 bits, or fewer at the smallest exponent. -/
theorem place_spec :
    minExponent ≤ place num den ∧ (num / den : ℚ) < 2 ^ 53 * 2 ^ place num den ∧
      (place num den = minExponent ∨ (2 ^ 52 * 2 ^ place num den : ℚ) ≤ num / den) := by
  obtain ⟨exponent, isPlace, fits, full⟩ := exists_place positive positive'
  rw [isPlace]
  rcases le_total minExponent exponent with le | le
  · rw [max_eq_right le]
    exact ⟨le, fits, .inr full⟩
  · rw [max_eq_left le]
    refine ⟨le_rfl, fits.trans_le ?_, .inl rfl⟩
    exact mul_le_mul_of_nonneg_left (zpow_le_zpow_right₀ (by norm_num) le) (by positivity)

include positive positive' in
/-- At a place above an exponent of the format the mantissa is full. -/
theorem full_of_lt {exponent : Int} (least : minExponent ≤ exponent)
    (less : exponent < place num den) : (2 ^ 52 * 2 ^ place num den : ℚ) ≤ num / den := by
  obtain ⟨-, -, atLeast | full⟩ := place_spec positive positive'
  · omega
  · exact full

end Place

/-- A full mantissa at a higher exponent is more than a double. -/
theorem lt_full {mantissa : Nat} {low high : Int} (fits : mantissa < 2 ^ 53) (less : low < high) :
    (mantissa * 2 ^ low : ℚ) < 2 ^ 52 * 2 ^ high := by
  have small : (mantissa : ℚ) < 2 ^ 53 := by exact_mod_cast fits
  calc (mantissa * 2 ^ low : ℚ) < 2 ^ 53 * 2 ^ low :=
        mul_lt_mul_of_pos_right small (two_zpow_pos low)
    _ = 2 ^ 52 * 2 ^ (low + 1) := by rw [two_zpow_succ]; ring
    _ ≤ 2 ^ 52 * 2 ^ high :=
        mul_le_mul_of_nonneg_left (zpow_le_zpow_right₀ (by norm_num) less) (by positivity)

/-! ## Rounding to a double -/

/-- The mantissa of a quotient before it is brought into bounds. -/
def nearest (num den : Nat) : Nat :=
  roundHalfEven (inUnits num den (place num den)).1 (inUnits num den (place num den)).2

section Nearest

variable {num den mantissa : Nat} {exponent : Int} (positive : 0 < num) (positive' : 0 < den)
  (fits : mantissa < 2 ^ 53) (least : minExponent ≤ exponent)

include positive' in
theorem nearest_le {bound : Nat} (le : (num / den : ℚ) ≤ bound * 2 ^ place num den) :
    nearest num den ≤ bound := by
  have units_pos := inUnits_pos num positive' (place num den)
  refine roundHalfEven_le units_pos ?_
  rw [← div_le_iff₀ (two_zpow_pos _), ← inUnits_eq, div_le_iff₀ (Nat.cast_pos.mpr units_pos)] at le
  exact_mod_cast le

include positive' in
theorem le_nearest {bound : Nat} (le : (bound * 2 ^ place num den : ℚ) ≤ num / den) :
    bound ≤ nearest num den := by
  have units_pos := inUnits_pos num positive' (place num den)
  refine le_roundHalfEven units_pos ?_
  rw [← le_div_iff₀ (two_zpow_pos _), ← inUnits_eq, le_div_iff₀ (Nat.cast_pos.mpr units_pos)] at le
  exact_mod_cast le

include positive positive' fits least

/-- A quotient that is not above a double of the format is not rounded above it. -/
theorem nearest_below (below : (num / den : ℚ) ≤ mantissa * 2 ^ exponent) :
    (nearest num den * 2 ^ place num den : ℚ) ≤ mantissa * 2 ^ exponent := by
  rcases le_or_gt (place num den) exponent with le | less
  · have scaled := two_zpow_of_le le
    rw [scaled, ← mul_assoc] at below ⊢
    refine mul_le_mul_of_nonneg_right ?_ (two_zpow_pos _).le
    exact_mod_cast nearest_le positive' (by exact_mod_cast below)
  · have full := full_of_lt positive positive' least less
    exact absurd (below.trans_lt (lt_full fits less)) (not_lt.mpr full)

/-- A quotient that is not below a double of the format is not rounded below it. -/
theorem nearest_above (above : (mantissa * 2 ^ exponent : ℚ) ≤ num / den) :
    (mantissa * 2 ^ exponent : ℚ) ≤ nearest num den * 2 ^ place num den := by
  rcases le_or_gt (place num den) exponent with le | less
  · have scaled := two_zpow_of_le le
    rw [scaled, ← mul_assoc] at above ⊢
    refine mul_le_mul_of_nonneg_right ?_ (two_zpow_pos _).le
    exact_mod_cast le_nearest positive' (by exact_mod_cast above)
  · have full := full_of_lt positive positive' least less
    have kept : 2 ^ 52 ≤ nearest num den := le_nearest positive' (by exact_mod_cast full)
    calc (mantissa * 2 ^ exponent : ℚ) ≤ 2 ^ 52 * 2 ^ place num den := (lt_full fits less).le
      _ ≤ nearest num den * 2 ^ place num den :=
        mul_le_mul_of_nonneg_right (by exact_mod_cast kept) (two_zpow_pos _).le

end Nearest

/-- The double is the quotient in the format: one of its doubles, and on the same side of every other
one as the quotient. -/
structure Rounds (quotient : ℚ) (x : Binary64) : Prop where
  proper : x.Proper
  below : ∀ (mantissa : Nat) (exponent : Int), mantissa < 2 ^ 53 → minExponent ≤ exponent →
    quotient ≤ mantissa * 2 ^ exponent → x.size ≤ mantissa * 2 ^ exponent
  above : ∀ (mantissa : Nat) (exponent : Int), mantissa < 2 ^ 53 → minExponent ≤ exponent →
    (mantissa * 2 ^ exponent : ℚ) ≤ quotient → (mantissa * 2 ^ exponent : ℚ) ≤ x.size

theorem size_nonneg (x : Binary64) : 0 ≤ x.size :=
  mul_nonneg (Nat.cast_nonneg _) (two_zpow_pos _).le

theorem size_signedZero (negative : Bool) : (signedZero negative).size = 0 := by
  simp [size, signedZero]

theorem proper_signedZero (negative : Bool) : (signedZero negative).Proper :=
  ⟨(by decide : 0 < mantissaBound), le_rfl, (by decide : minExponent ≤ maxExponent)⟩

theorem Proper.neg {x : Binary64} (proper : x.Proper) : x.neg.Proper :=
  ⟨proper.mantissa, proper.least, proper.most⟩

theorem Proper.le_largest {x : Binary64} (proper : x.Proper) : x.size ≤ largest := by
  have mantissa : x.mantissa ≤ 2 ^ 53 - 1 := Nat.le_sub_one_of_lt proper.mantissa
  exact mul_le_mul (Nat.cast_le.mpr mantissa) (zpow_le_zpow_right₀ (by norm_num) proper.most)
    (two_zpow_pos _).le (Nat.cast_nonneg _)

/-- What comes of a quotient that is not zero: the rounded mantissa, unless it is out of bounds. -/
theorem ofRatio_eq {num den : Nat} (positive : 0 < num) (negative : Bool) :
    ofRatio negative num den =
      if nearest num den = mantissaBound then
        if place num den < maxExponent then some ⟨negative, leastMantissa, place num den + 1⟩
        else none
      else if place num den ≤ maxExponent then some ⟨negative, nearest num den, place num den⟩
      else none := by
  unfold ofRatio
  rw [if_neg positive.ne']
  rfl

/-- The result of rounding is of the format and on the right side of its doubles. -/
theorem rounds_of_ofRatio {negative : Bool} {num den : Nat} {x : Binary64} (positive : 0 < den)
    (found : ofRatio negative num den = some x) : Rounds (num / den) x := by
  rcases Nat.eq_zero_or_pos num with rfl | nonzero
  · cases found
    refine ⟨proper_signedZero negative, fun _ _ _ _ _ => ?_, fun _ _ _ _ above => ?_⟩
    · rw [size_signedZero]
      exact mul_nonneg (Nat.cast_nonneg _) (two_zpow_pos _).le
    · rw [size_signedZero]
      simpa using above
  · obtain ⟨least, fits, -⟩ := place_spec nonzero positive
    have bounded : nearest num den ≤ 2 ^ 53 := nearest_le positive (by exact_mod_cast fits.le)
    suffices proper : x.Proper ∧ x.size = nearest num den * 2 ^ place num den by
      obtain ⟨proper, same⟩ := proper
      refine ⟨proper, fun _ _ few least below => ?_, fun _ _ few least above => ?_⟩
      · rw [same]
        exact nearest_below nonzero positive few least below
      · rw [same]
        exact nearest_above nonzero positive few least above
    rw [ofRatio_eq nonzero] at found
    split at found
    · next overflows =>
      split at found
      · next room =>
        cases found
        refine ⟨⟨(by decide : leastMantissa < mantissaBound), by dsimp only; omega,
          by dsimp only; omega⟩, ?_⟩
        rw [overflows, size, two_zpow_succ, leastMantissa_eq, mantissaBound_eq]
        push_cast
        ring
      · cases found
    · next inBounds =>
      split at found
      · next room =>
        cases found
        refine ⟨⟨?_, least, room⟩, rfl⟩
        rw [mantissaBound_eq] at inBounds ⊢
        dsimp only
        omega
      · cases found

/-- A quotient that is not beyond the largest double has a double. -/
theorem exists_ofRatio {num den : Nat} (positive : 0 < den) (fits : (num / den : ℚ) ≤ largest)
    (negative : Bool) : ∃ x, ofRatio negative num den = some x ∧ Rounds (num / den) x := by
  suffices found : ∃ x, ofRatio negative num den = some x by
    obtain ⟨x, found⟩ := found
    exact ⟨x, found, rounds_of_ofRatio positive found⟩
  rcases Nat.eq_zero_or_pos num with rfl | nonzero
  · exact ⟨_, rfl⟩
  · have small : (nearest num den * 2 ^ place num den : ℚ) ≤ (2 ^ 53 - 1 : Nat) * 2 ^ maxExponent :=
      nearest_below nonzero positive (by norm_num) (by decide) fits
    have large (exponent : Int) (le : maxExponent < exponent) {mantissa : Nat}
        (full : 2 ^ 52 ≤ mantissa) :
        ¬(mantissa * 2 ^ exponent : ℚ) ≤ (2 ^ 53 - 1 : Nat) * 2 ^ maxExponent := by
      have step : (2 : ℚ) ^ (maxExponent + 1) ≤ 2 ^ exponent :=
        zpow_le_zpow_right₀ (by norm_num) le
      have cast : (2 ^ 52 : ℚ) ≤ mantissa := by exact_mod_cast full
      have := two_zpow_pos maxExponent
      rw [two_zpow_succ] at step
      push_cast
      nlinarith
    obtain ⟨least, -, full⟩ := place_spec nonzero positive
    rw [ofRatio_eq nonzero]
    split
    · next overflows =>
      rw [overflows, mantissaBound_eq] at small
      split
      · exact ⟨_, rfl⟩
      · next noRoom =>
        refine absurd ?_ (large (place num den + 1) (by omega) le_rfl)
        rw [two_zpow_succ]
        refine le_trans (le_of_eq ?_) small
        push_cast
        ring
    · split
      · exact ⟨_, rfl⟩
      · next noRoom =>
        refine absurd small (large _ (by omega) ?_)
        refine le_nearest positive ?_
        rcases full with atLeast | full
        · rw [atLeast] at noRoom
          exact absurd (by decide) noRoom
        · exact_mod_cast full

/-! ## Products and quotients -/

/-- A scaled quotient is a quotient of natural numbers. -/
theorem exists_ofScaled (negative : Bool) (num : Nat) {den : Nat} (positive : 0 < den)
    (exponent : Int) :
    ∃ num' den' : Nat, ofScaled negative num den exponent = ofRatio negative num' den' ∧ 0 < den' ∧
      (num' / den' : ℚ) = num * 2 ^ exponent / den := by
  unfold ofScaled
  split
  · next nonneg =>
    refine ⟨_, _, rfl, positive, ?_⟩
    rw [Nat.cast_mul, cast_twoTo, Int.toNat_of_nonneg nonneg]
  · next below =>
    refine ⟨_, _, rfl, Nat.mul_pos positive (Nat.two_pow_pos _), ?_⟩
    rw [Nat.cast_mul, cast_twoTo, Int.toNat_of_nonneg (by omega), zpow_neg]
    field_simp

/-- A product that is not beyond the largest double has a double. -/
theorem exists_mul {x y : Binary64} (fits : x.size * y.size ≤ largest) :
    ∃ z, x.mul y = some z ∧ Rounds (x.size * y.size) z := by
  obtain ⟨num, den, scaled, positive, same⟩ := exists_ofScaled (x.negative != y.negative)
    (x.mantissa * y.mantissa) (Nat.one_pos) (x.exponent + y.exponent)
  have product : (num / den : ℚ) = x.size * y.size := by
    rw [same, size, size, zpow_add₀ (by norm_num)]
    push_cast
    ring
  obtain ⟨z, found, rounds⟩ := exists_ofRatio positive (product ▸ fits) (x.negative != y.negative)
  exact ⟨z, scaled.trans found, product ▸ rounds⟩

theorem proper_of_mul {x y z : Binary64} (found : x.mul y = some z) : z.Proper := by
  obtain ⟨num, den, scaled, positive, -⟩ := exists_ofScaled (x.negative != y.negative)
    (x.mantissa * y.mantissa) (Nat.one_pos) (x.exponent + y.exponent)
  exact (rounds_of_ofRatio positive (scaled.symm.trans found)).proper

/-- The quotient by a double of one or more has a double. -/
theorem exists_div {x y : Binary64} (proper : x.Proper) (atLeast : 1 ≤ y.size) :
    ∃ z, x.div y = some z ∧ z.Proper := by
  have nonzero : 0 < y.mantissa := by
    refine Nat.pos_of_ne_zero fun zero => ?_
    rw [size, zero] at atLeast
    norm_num at atLeast
  obtain ⟨num, den, scaled, positive, same⟩ := exists_ofScaled (x.negative != y.negative)
    x.mantissa nonzero (x.exponent - y.exponent)
  have quotient : (num / den : ℚ) = x.size / y.size := by
    rw [same, size, size, zpow_sub₀ (by norm_num)]
    field_simp
  have fits : (num / den : ℚ) ≤ largest := by
    rw [quotient]
    exact (div_le_self x.size_nonneg atLeast).trans proper.le_largest
  obtain ⟨z, found, rounds⟩ := exists_ofRatio positive fits (x.negative != y.negative)
  exact ⟨z, scaled.trans found, rounds.proper⟩

/-! ## Decimals -/

/-- The largest double as a natural number. -/
def largestNat : Nat := (2 ^ 53 - 1) * 2 ^ 971

theorem cast_largestNat : (largestNat : ℚ) = largest := by
  have power : (2 : ℚ) ^ maxExponent = ((2 ^ 971 : Nat) : ℚ) := by
    rw [Nat.cast_pow, Nat.cast_ofNat]
    exact zpow_natCast 2 971
  rw [largest, power, ← Nat.cast_mul, largestNat]

theorem cast_tenTo (power : Nat) : ((tenTo power : Nat) : ℚ) = 10 ^ (power : Int) := by
  rw [zpow_natCast]
  exact_mod_cast rfl

theorem ten_zpow_pos (power : Int) : (0 : ℚ) < 10 ^ power := zpow_pos (by norm_num) power

/-- Where a decimal is not beyond the largest double, neither is its power of ten. -/
theorem power_lt {significand : Nat} {power : Int} (positive : 0 < significand)
    (fits : (significand * 10 ^ power : ℚ) ≤ largest) : power < 309 := by
  by_contra beyond
  have large : (10 : ℚ) ^ (309 : Int) ≤ 10 ^ power :=
    zpow_le_zpow_right₀ (by norm_num) (not_lt.mp beyond)
  have one : (1 : ℚ) ≤ significand := by exact_mod_cast positive
  have top : largest < 10 ^ (309 : Int) := by
    have ten : (10 : ℚ) ^ (309 : Int) = ((tenTo 309 : Nat) : ℚ) := (cast_tenTo 309).symm
    rw [ten, ← cast_largestNat, Nat.cast_lt]
    decide +kernel
  have least := le_mul_of_one_le_left (ten_zpow_pos power).le one
  exact absurd (large.trans (least.trans fits)) (not_le.mpr top)

theorem rounds_of_ofNat {n : Nat} {x : Binary64} (found : ofNat n = some x) : Rounds n x := by
  have rounds := rounds_of_ofRatio Nat.one_pos found
  rwa [Nat.cast_one, div_one] at rounds

theorem exists_ofNat {n : Nat} (fits : n ≤ largestNat) : ∃ x, ofNat n = some x ∧ Rounds n x := by
  have fits' : (n / (1 : Nat) : ℚ) ≤ largest := by
    rw [Nat.cast_one, div_one, ← cast_largestNat]
    exact_mod_cast fits
  obtain ⟨x, found, -⟩ := exists_ofRatio Nat.one_pos fits' false
  exact ⟨x, found, rounds_of_ofNat found⟩

theorem le_one_of_rounds {x : Binary64} (rounds : Rounds (1 : Nat) x) : x.size ≤ 1 := by
  simpa using rounds.below 1 0 (by norm_num) (by decide) (by simp)

/-- A power of ten that is finite has a double, which is not below one. -/
theorem exists_tenTo {power : Nat} (finite : power ≤ maxPowerOfTen) :
    ∃ x, ofNat (tenTo power) = some x ∧ Rounds (tenTo power : Nat) x ∧ 1 ≤ x.size := by
  have fits : tenTo power ≤ largestNat :=
    (Nat.pow_le_pow_right (by decide) finite).trans (by decide +kernel)
  obtain ⟨x, found, rounds⟩ := exists_ofNat fits
  refine ⟨x, found, rounds, ?_⟩
  have positive : 1 ≤ tenTo power := Nat.one_le_pow _ _ (by decide)
  simpa using rounds.above 1 0 (by norm_num) (by decide)
    (by simpa using positive)

theorem proper_of_scale {steps : Nat} {x z : Binary64} {power : Int} (proper : x.Proper)
    (found : scale steps x power = some z) : z.Proper := by
  fun_induction scale steps x power with
  | case1 steps x power finite =>
    obtain ⟨factor, isFactor, -, atLeast⟩ := exists_tenTo finite
    rw [isFactor, Option.bind_eq_bind, Option.bind_some] at found
    split at found
    · exact proper_of_mul found
    · obtain ⟨y, quotient, proper'⟩ := exists_div proper atLeast
      cases quotient.symm.trans found
      exact proper'
  | case2 =>
    cases found
    exact proper
  | case3 => cases found
  | case4 =>
    cases found
    exact proper_signedZero false
  | case5 x power infinite nonzero negative steps ih =>
    obtain ⟨factor, isFactor, -, atLeast⟩ := exists_tenTo (Nat.le_refl maxPowerOfTen)
    obtain ⟨y, quotient, proper'⟩ := exists_div proper atLeast
    simp only [isFactor, quotient, Option.bind_eq_bind, Option.bind_some] at found
    exact ih y proper' found

/-- Every double that a decimal is read as is of the format. -/
theorem proper_of_ofDecimal {significand : Nat} {power : Int} {x : Binary64}
    (found : ofDecimal significand power = some x) : x.Proper := by
  obtain ⟨start, isStart, scaled⟩ := Option.bind_eq_some_iff.mp found
  exact proper_of_scale (rounds_of_ofNat isStart).proper scaled

/-- Scaling downwards never fails. -/
theorem exists_scale_down (steps : Nat) {x : Binary64} {power : Int} (proper : x.Proper)
    (down : power ≤ 0) : ∃ z, scale steps x power = some z := by
  fun_induction scale steps x power with
  | case1 steps x power finite =>
    obtain ⟨factor, isFactor, rounds, atLeast⟩ := exists_tenTo finite
    rw [isFactor, Option.bind_eq_bind, Option.bind_some]
    split
    · next up =>
      have zero : power = 0 := le_antisymm down up
      rw [zero] at rounds
      have fits : x.size * factor.size ≤ largest :=
        (mul_le_of_le_one_right x.size_nonneg (le_one_of_rounds rounds)).trans proper.le_largest
      obtain ⟨z, product, -⟩ := exists_mul fits
      exact ⟨z, product⟩
    · obtain ⟨z, quotient, -⟩ := exists_div proper atLeast
      exact ⟨z, quotient⟩
  | case2 | case4 => exact ⟨_, rfl⟩
  | case3 steps x power infinite nonzero up =>
    have zero : power = 0 := le_antisymm down up
    rw [zero] at infinite
    exact absurd (Nat.zero_le _) infinite
  | case5 x power infinite nonzero negative steps ih =>
    obtain ⟨factor, isFactor, -, atLeast⟩ := exists_tenTo (Nat.le_refl maxPowerOfTen)
    obtain ⟨y, quotient, proper'⟩ := exists_div proper atLeast
    simp only [isFactor, quotient, Option.bind_eq_bind, Option.bind_some]
    refine ih y proper' ?_
    have far : maxPowerOfTen < power.natAbs := Nat.lt_of_not_le infinite
    omega

/-- A natural number that is not above a natural double is not rounded above it. -/
theorem Rounds.below_nat {n : Nat} {x : Binary64} (rounds : Rounds n x) (mantissa exponent : Nat)
    (fits : mantissa < 2 ^ 53) (below : n ≤ mantissa * twoTo exponent) :
    x.size ≤ (mantissa * twoTo exponent : Nat) := by
  have least : minExponent ≤ (exponent : Int) := by
    have : minExponent ≤ 0 := by decide
    omega
  rw [Nat.cast_mul, cast_twoTo]
  refine rounds.below _ _ fits least ?_
  rw [← cast_twoTo]
  exact_mod_cast below

/-- The largest significand of a decimal with the given power of ten that is not beyond the largest
double; at the first of these powers, the last even one. -/
def topSignificand (power : Nat) : Nat :=
  if power = 292 then 17976931348623156 else largestNat / tenTo power

/-- Near the largest double, the product with the rounded power of ten stays within bounds. -/
theorem top_product :
    ∀ power < 309, 292 ≤ power → ∀ factor, ofNat (tenTo power) = some factor →
      0 ≤ factor.exponent ∧
        topSignificand power * (factor.mantissa * twoTo factor.exponent.toNat) ≤ largestNat := by
  have table : ∀ power < 309, 292 ≤ power →
      (ofNat (tenTo power)).any (fun factor => 0 ≤ factor.exponent &&
        topSignificand power * (factor.mantissa * twoTo factor.exponent.toNat) ≤ largestNat) =
          true := by
    decide +kernel
  intro power below above factor found
  have bounds := table power below above
  rwa [found, Option.any_some, Bool.and_eq_true, decide_eq_true_eq, decide_eq_true_eq] at bounds

theorem tenTo_pos (power : Nat) : 0 < tenTo power := Nat.pow_pos (by decide)

/-- Scaling upwards does not fail if the decimal is not beyond the largest double. The one significand
that lies between two doubles at the largest scale is left out. -/
theorem exists_scale_up (steps : Nat) {significand power : Nat} (positive : 0 < significand)
    (few : significand ≤ tenTo 17) (fits : significand * tenTo power ≤ largestNat) {x : Binary64}
    (rounds : Rounds significand x) (notTop : (significand, power) ≠ (17976931348623157, 292)) :
    ∃ z, scale steps x (power : Int) = some z := by
  have tens : ∀ {low high : Nat}, low ≤ high → tenTo low ≤ tenTo high :=
    Nat.pow_le_pow_right (by decide)
  have finite : power ≤ maxPowerOfTen := by
    have below : (power : Int) < 309 := by
      refine power_lt positive ?_
      rw [← cast_tenTo, ← cast_largestNat]
      exact_mod_cast fits
    have top : maxPowerOfTen = 308 := rfl
    omega
  obtain ⟨factor, isFactor, rounds', -⟩ := exists_tenTo finite
  suffices small : x.size * factor.size ≤ largest by
    obtain ⟨z, product, -⟩ := exists_mul small
    refine ⟨z, ?_⟩
    unfold scale
    rw [if_pos (by simpa using finite), Int.natAbs_natCast, isFactor, Option.bind_eq_bind,
      Option.bind_some, if_pos (Int.natCast_nonneg power), product]
  have ofBounds : ∀ {a b : Nat}, x.size ≤ a → factor.size ≤ b → a * b ≤ largestNat →
      x.size * factor.size ≤ largest := by
    intro a b left right within
    refine (mul_le_mul left right factor.size_nonneg (Nat.cast_nonneg a)).trans ?_
    rw [← cast_largestNat]
    exact_mod_cast within
  rcases Nat.lt_or_ge power 292 with low | high
  · have left := rounds.below_nat 762939453125 17 (by norm_num)
      (few.trans (by decide +kernel))
    have right := rounds'.below_nat 1 967 (by norm_num)
      ((tens (Nat.le_of_lt_succ low)).trans (by decide +kernel))
    exact ofBounds left right (by decide +kernel)
  · obtain ⟨nonneg, within⟩ := top_product power (Nat.lt_succ_of_le finite) high factor isFactor
    have exact_ : factor.size = (factor.mantissa * twoTo factor.exponent.toNat : Nat) := by
      rw [Nat.cast_mul, cast_twoTo, Int.toNat_of_nonneg nonneg, size]
    refine ofBounds ?_ exact_.le within
    have quotient : significand ≤ largestNat / tenTo power :=
      (Nat.le_div_iff_mul_le (tenTo_pos power)).mpr fits
    unfold topSignificand
    split
    · next first =>
      subst first
      have quotient' : significand ≤ 17976931348623157 := quotient.trans (by decide +kernel)
      have even : significand ≤ 8988465674311578 * twoTo 1 := by
        have : significand ≠ 17976931348623157 := fun same => notTop (by rw [same])
        have : twoTo 1 = 2 := rfl
        omega
      exact rounds.below_nat _ _ (by norm_num) even
    · next later =>
      have small : significand < 2 ^ 53 := by
        have power' : largestNat / tenTo power ≤ largestNat / tenTo 293 :=
          Nat.div_le_div_left (tens (by omega)) (tenTo_pos 293)
        have first : largestNat / tenTo 293 < 2 ^ 53 := by decide +kernel
        exact (quotient.trans power').trans_lt first
      have same := rounds.below_nat _ 0 small (by simp [twoTo])
      refine same.trans (Nat.cast_le.mpr ?_)
      simpa [twoTo] using quotient

/-- A decimal of seventeen digits that is not beyond the largest double is read as a double. -/
theorem exists_ofDecimal {significand : Nat} {power : Int} (few : significand ≤ tenTo 17)
    (fits : 0 < power → 0 < significand ∧ significand * tenTo power.toNat ≤ largestNat) :
    ∃ x, ofDecimal significand power = some x := by
  obtain ⟨start, isStart, rounds⟩ := exists_ofNat (few.trans (by decide +kernel : _ ≤ largestNat))
  suffices scaled : ∃ x, scale 3 start power = some x by
    obtain ⟨x, scaled⟩ := scaled
    exact ⟨x, by rw [ofDecimal, isStart, Option.bind_eq_bind, Option.bind_some, scaled]⟩
  rcases lt_or_ge 0 power with up | down
  · obtain ⟨positive, fits⟩ := fits up
    have same : ((power.toNat : Nat) : Int) = power := Int.toNat_of_nonneg up.le
    by_cases top : (significand, power.toNat) = (17976931348623157, 292)
    · obtain ⟨isTop, isPower⟩ := Prod.mk.inj top
      have both : ofDecimal 17976931348623157 292 = some ⟨false, 9007199254740991, 971⟩ := by
        decide +kernel
      rw [ofDecimal, Option.bind_eq_bind, Option.bind_eq_some_iff] at both
      obtain ⟨start', isStart', scaled⟩ := both
      rw [isTop, isStart'] at isStart
      rw [← same, isPower, ← Option.some.inj isStart]
      exact ⟨_, scaled⟩
    · rw [← same]
      exact exists_scale_up 3 positive few fits rounds top
  · exact exists_scale_down 3 rounds.proper down

end TelemetryHub.Binary64
