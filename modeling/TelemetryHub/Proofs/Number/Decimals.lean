import TelemetryHub.Number.Shortest
import TelemetryHub.Proofs.Number.Rounding

/-!
# The shortest decimal of a double

A double of the format that is not zero has a shortest decimal of at most seventeen digits, and it is
not beyond the largest double (`shortest_spec`). The leading power is the one of the number
(`leadingPower_spec`); seventeen digits hit every number, as a grid of seventeen digits is finer than
the doubles (`exists_hit`); and a hit is no further away than half of the next step (`hit_spec`).
-/

namespace TelemetryHub.Binary64

/-! ## The leading digit -/

theorem tenTo_le_twoTo (n : Nat) : tenTo (n * 3 / 10) ≤ twoTo n := by
  have table : ∀ r < 10, 10 ^ (r * 3 / 10) ≤ 2 ^ r := by decide
  have split : n * 3 / 10 = 3 * (n / 10) + n % 10 * 3 / 10 := by omega
  have whole : 10 * (n / 10) + n % 10 = n := Nat.div_add_mod n 10
  calc tenTo (n * 3 / 10) = (10 ^ 3) ^ (n / 10) * 10 ^ (n % 10 * 3 / 10) := by
        rw [split, ← Nat.pow_mul]
        exact Nat.pow_add 10 _ _
    _ ≤ (2 ^ 10) ^ (n / 10) * 2 ^ (n % 10) :=
        Nat.mul_le_mul (Nat.pow_le_pow_left (by decide) _) (table _ (Nat.mod_lt n (by decide)))
    _ = twoTo n := by
        rw [← Nat.pow_mul, ← Nat.pow_add, whole]
        rfl

theorem twoTo_le_tenTo (n : Nat) : twoTo n ≤ tenTo (n * 31 / 100 + 1) := by
  have table : ∀ r < 100, 2 ^ r ≤ 10 ^ (r * 31 / 100 + 1) := by decide +kernel
  have split : n * 31 / 100 + 1 = 31 * (n / 100) + (n % 100 * 31 / 100 + 1) := by omega
  have whole : 100 * (n / 100) + n % 100 = n := Nat.div_add_mod n 100
  calc twoTo n = (2 ^ 100) ^ (n / 100) * 2 ^ (n % 100) := by
        rw [← Nat.pow_mul, ← Nat.pow_add, whole]
        rfl
    _ ≤ (10 ^ 31) ^ (n / 100) * 10 ^ (n % 100 * 31 / 100 + 1) :=
        Nat.mul_le_mul (Nat.pow_le_pow_left (by decide) _) (table _ (Nat.mod_lt n (by decide)))
    _ = tenTo (n * 31 / 100 + 1) := by
        rw [← Nat.pow_mul, ← Nat.pow_add, ← split]
        rfl

theorem digits_bounds {n : Nat} (positive : 0 < n) :
    10 ^ ((Text.digits n).length - 1) ≤ n ∧ n < 10 ^ (Text.digits n).length := by
  have nonempty : 0 < (Text.digits n).length := Nat.length_toDigits_pos
  refine ⟨?_, (Nat.length_toDigits_le_iff (by decide) nonempty).mp le_rfl⟩
  by_contra less
  rcases Nat.eq_zero_or_pos ((Text.digits n).length - 1) with zero | more
  · rw [zero, Nat.pow_zero] at less
    omega
  · have short := (Nat.length_toDigits_le_iff (by decide) more).mpr (Nat.lt_of_not_le less)
    have short : (Text.digits n).length ≤ (Text.digits n).length - 1 := short
    omega

/-- A power with an integer exponent as a quotient of powers with natural ones. -/
theorem zpow_eq_div {base : ℚ} (nonzero : base ≠ 0) (exponent : Int) :
    base ^ exponent = base ^ (exponent.toNat : Int) / base ^ ((-exponent).toNat : Int) := by
  rw [← zpow_sub₀ nonzero]
  congr 1
  omega

/-- The leading power is the one of the number. -/
theorem leadingPower_spec {x : Binary64} (nonzero : 0 < x.mantissa) :
    (10 : ℚ) ^ x.leadingPower ≤ x.size ∧ x.size < 10 ^ (x.leadingPower + 1) := by
  obtain ⟨down, isDown⟩ : ∃ down, down = x.exponent.toNat * 3 / 10 := ⟨_, rfl⟩
  obtain ⟨up, isUp⟩ : ∃ up, up = (-x.exponent).toNat * 31 / 100 + 1 := ⟨_, rfl⟩
  obtain ⟨num, isNum⟩ : ∃ num, num = x.mantissa * twoTo x.exponent.toNat * tenTo up := ⟨_, rfl⟩
  obtain ⟨den, isDen⟩ : ∃ den, den = twoTo (-x.exponent).toNat * tenTo down := ⟨_, rfl⟩
  have leading : x.leadingPower = ((Text.digits (num / den)).length : Int) - 1 + down - up := by
    rw [isNum, isDen, isUp, isDown]
    rfl
  have den_pos : 0 < den := by
    rw [isDen]
    exact Nat.mul_pos (Nat.two_pow_pos _) (tenTo_pos _)
  have ratio : (num / den : ℚ) = x.size * 10 ^ ((up : Int) - down) := by
    rw [isNum, isDen, size, zpow_eq_div (by norm_num) x.exponent, zpow_sub₀ (by norm_num)]
    push_cast
    rw [cast_tenTo, cast_tenTo, cast_twoTo, cast_twoTo]
    field_simp
  have least : 0 < num / den := by
    refine Nat.div_pos ?_ den_pos
    rw [isNum, isDen, isDown, isUp]
    calc twoTo (-x.exponent).toNat * tenTo (x.exponent.toNat * 3 / 10) ≤
          tenTo ((-x.exponent).toNat * 31 / 100 + 1) * twoTo x.exponent.toNat :=
          Nat.mul_le_mul (twoTo_le_tenTo _) (tenTo_le_twoTo _)
      _ = twoTo x.exponent.toNat * tenTo ((-x.exponent).toNat * 31 / 100 + 1) := Nat.mul_comm _ _
      _ ≤ x.mantissa * (twoTo x.exponent.toNat * tenTo ((-x.exponent).toNat * 31 / 100 + 1)) :=
          Nat.le_mul_of_pos_left _ nonzero
      _ = _ := (Nat.mul_assoc _ _ _).symm
  obtain ⟨lower, upper⟩ := digits_bounds least
  have den_pos' : (0 : ℚ) < den := Nat.cast_pos.mpr den_pos
  have count : 1 ≤ (Text.digits (num / den)).length := Nat.length_toDigits_pos
  have below : (10 : ℚ) ^ (((Text.digits (num / den)).length : Int) - 1) ≤ num / den := by
    have cast : ((Text.digits (num / den)).length : Int) - 1 =
        (((Text.digits (num / den)).length - 1 : Nat) : Int) := by omega
    rw [cast, zpow_natCast, le_div_iff₀ den_pos']
    exact_mod_cast (Nat.le_div_iff_mul_le den_pos).mp lower
  have above : (num / den : ℚ) < 10 ^ ((Text.digits (num / den)).length : Int) := by
    rw [zpow_natCast, div_lt_iff₀ den_pos']
    exact_mod_cast (Nat.div_lt_iff_lt_mul den_pos).mp upper
  rw [ratio] at below above
  have shift := ten_zpow_pos ((up : Int) - down)
  constructor
  · refine le_of_mul_le_mul_right ?_ shift
    rw [← zpow_add₀ (by norm_num), leading]
    refine le_trans (le_of_eq (congrArg _ ?_)) below
    omega
  · refine lt_of_mul_lt_mul_right ?_ shift.le
    rw [← zpow_add₀ (by norm_num), leading]
    refine lt_of_lt_of_eq above (congrArg _ ?_)
    omega

theorem leadingPower_ge {x : Binary64} (proper : x.Proper) : -334 ≤ x.leadingPower := by
  have least : -1074 ≤ x.exponent := proper.least
  unfold leadingPower
  dsimp only
  omega

/-! ## Hits on a grid -/

/-- A quarter of the last place of the mantissa, measured on the grid of a power of ten. -/
def quarterOn (x : Binary64) (power : Int) : Nat :=
  twoTo (x.exponent - 2).toNat * tenTo (-power).toNat

/-- The step of the grid of a power of ten, in the same measure. -/
def stepOn (x : Binary64) (power : Int) : Nat :=
  twoTo (-(x.exponent - 2)).toNat * tenTo power.toNat

theorem quarterOn_pos (x : Binary64) (power : Int) : 0 < x.quarterOn power :=
  Nat.mul_pos (Nat.two_pow_pos _) (tenTo_pos _)

theorem stepOn_pos (x : Binary64) (power : Int) : 0 < x.stepOn power :=
  Nat.mul_pos (Nat.two_pow_pos _) (tenTo_pos _)

theorem quarter_ratio (x : Binary64) (power : Int) :
    (x.quarterOn power / x.stepOn power : ℚ) = 2 ^ (x.exponent - 2) / 10 ^ power := by
  rw [quarterOn, stepOn, zpow_eq_div (by norm_num) (x.exponent - 2),
    zpow_eq_div (by norm_num : (10 : ℚ) ≠ 0) power]
  push_cast
  rw [cast_tenTo, cast_tenTo, cast_twoTo, cast_twoTo]
  field_simp

/-- Whether a distance is within some quarters, and exactly so many only if the mantissa is even. -/
def reaches (x : Binary64) (power : Int) (distance quarters : Nat) : Bool :=
  if x.mantissa % 2 = 0 then distance ≤ quarters * x.quarterOn power
  else distance < quarters * x.quarterOn power

theorem le_of_reaches {x : Binary64} {power : Int} {distance quarters : Nat}
    (reached : x.reaches power distance quarters = true) :
    distance ≤ quarters * x.quarterOn power := by
  unfold reaches at reached
  split at reached
  · exact of_decide_eq_true reached
  · exact (of_decide_eq_true reached).le

theorem le_of_not_reaches {x : Binary64} {power : Int} {distance quarters : Nat}
    (missed : x.reaches power distance quarters = false) :
    quarters * x.quarterOn power ≤ distance := by
  unfold reaches at missed
  split at missed
  · exact (Nat.lt_of_not_le (of_decide_eq_false missed)).le
  · exact Nat.le_of_not_lt (of_decide_eq_false missed)

/-- The number in quarters of its last place, measured on the grid of a power of ten. -/
def valueOn (x : Binary64) (power : Int) : Nat := 4 * x.mantissa * x.quarterOn power

/-- On the grid of a power of ten the number is itself in units of that power. -/
theorem value_ratio (x : Binary64) (power : Int) :
    (x.valueOn power / x.stepOn power : ℚ) = x.size / 10 ^ power := by
  have quarters : (4 : ℚ) * 2 ^ (x.exponent - 2) = 2 ^ x.exponent := by
    have step := zpow_add₀ (by norm_num : (2 : ℚ) ≠ 0) 2 (x.exponent - 2)
    rw [add_sub_cancel] at step
    rw [step]
    norm_num
  rw [valueOn, Nat.cast_mul, mul_div_assoc, quarter_ratio, size, ← quarters]
  push_cast
  ring

/-- A hit in terms of the neighbours of the number. -/
theorem hit_eq (x : Binary64) (power : Int) :
    x.hit power =
      let down := x.valueOn power / x.stepOn power
      let toDown := x.valueOn power - down * x.stepOn power
      let toUp := x.stepOn power - toDown
      if down ≠ 0 && x.reaches power toDown x.margins.1 &&
          (!x.reaches power toUp 2 || toDown < toUp || (toDown = toUp && down % 2 = 0)) then
        some ⟨down, power⟩
      else if x.reaches power toUp 2 then some ⟨down + 1, power⟩
      else none := rfl

/-- A hit is a neighbour of the number, and no further above it than two quarters. -/
theorem of_hit {x : Binary64} {power : Int} {decimal : Decimal}
    (found : x.hit power = some decimal) :
    decimal.power = power ∧ 0 < decimal.digits ∧
      decimal.digits ≤ x.valueOn power / x.stepOn power + 1 ∧
      decimal.digits * x.stepOn power ≤ x.valueOn power + 2 * x.quarterOn power := by
  have floor : x.valueOn power / x.stepOn power * x.stepOn power ≤ x.valueOn power :=
    Nat.div_mul_le_self _ _
  rw [hit_eq] at found
  dsimp only at found
  split at found
  · next isDown =>
    cases found
    rw [Bool.and_eq_true, Bool.and_eq_true, decide_eq_true_eq] at isDown
    dsimp only
    exact ⟨rfl, Nat.pos_of_ne_zero isDown.1.1, by omega, by omega⟩
  · split at found
    · next isUp =>
      cases found
      have near := le_of_reaches isUp
      refine ⟨rfl, Nat.succ_pos _, le_rfl, ?_⟩
      dsimp only
      rw [Nat.add_mul, Nat.one_mul]
      omega
    · cases found

/-- Without a hit the grid is so wide that both neighbours are out of reach. -/
theorem step_of_no_hit {x : Binary64} {power : Int} (missed : x.hit power = none) :
    x.valueOn power / x.stepOn power = 0 ∨
      (x.margins.1 + 2) * x.quarterOn power ≤ x.stepOn power := by
  have remainder : x.valueOn power - x.valueOn power / x.stepOn power * x.stepOn power <
      x.stepOn power := by
    rw [Nat.mul_comm, ← Nat.mod_eq_sub_mul_div]
    exact Nat.mod_lt _ (x.stepOn_pos power)
  rw [hit_eq] at missed
  dsimp only at missed
  split at missed
  · cases missed
  next notDown =>
  split at missed
  · cases missed
  next notUp =>
  have notUp := Bool.eq_false_of_not_eq_true notUp
  have farUp := le_of_not_reaches notUp
  rw [notUp, Bool.not_false, Bool.true_or, Bool.true_or, Bool.and_true, Bool.and_eq_true,
    decide_eq_true_eq, not_and_or, not_not] at notDown
  rcases notDown with zero | notDown
  · exact .inl zero
  · have farDown := le_of_not_reaches (Bool.eq_false_of_not_eq_true notDown)
    rw [Nat.add_mul]
    omega

/-- A grid on which the number has more than sixteen digits has a hit. -/
theorem exists_hit {x : Binary64} (proper : x.Proper) {power : Int}
    (fine : 10 ^ 16 * x.stepOn power ≤ x.valueOn power) : ∃ decimal, x.hit power = some decimal := by
  cases missed : x.hit power with
  | some decimal => exact ⟨decimal, rfl⟩
  | none =>
    exfalso
    have step := x.stepOn_pos power
    rcases step_of_no_hit missed with zero | wide
    · have less := (Nat.div_eq_zero_iff_lt step).mp zero
      omega
    · -- the mantissa would need more than 53 bits
      have digits : (x.margins.1 + 2) * 10 ^ 16 ≤ 4 * x.mantissa := by
        refine Nat.le_of_mul_le_mul_right ?_ (x.quarterOn_pos power)
        calc (x.margins.1 + 2) * 10 ^ 16 * x.quarterOn power =
              10 ^ 16 * ((x.margins.1 + 2) * x.quarterOn power) := by ring
          _ ≤ 10 ^ 16 * x.stepOn power := Nat.mul_le_mul_left _ wide
          _ ≤ 4 * x.mantissa * x.quarterOn power := fine
      have bound : x.mantissa < 2 ^ 53 := proper.mantissa
      unfold margins at digits
      split at digits
      · next least =>
        rw [least.1, leastMantissa_eq] at digits
        omega
      · dsimp only at digits
        omega

/-! ## The search -/

theorem of_search {x : Binary64} {leading : Int} {left count : Nat} {decimal : Decimal}
    (found : x.search leading left count = some decimal) :
    ∃ digits : Nat, digits < count + left ∧ x.hit (leading - digits + 1) = some decimal := by
  induction left generalizing count with
  | zero => cases found
  | succ left ih =>
    unfold search at found
    split at found
    · next hit =>
      cases found
      exact ⟨count, by omega, hit⟩
    · obtain ⟨digits, below, hit⟩ := ih found
      exact ⟨digits, by omega, hit⟩

theorem exists_search {x : Binary64} {leading : Int} {decimal : Decimal} (left count : Nat)
    (hit : x.hit (leading - (count + left : Nat) + 1) = some decimal) :
    ∃ first, x.search leading (left + 1) count = some first := by
  induction left generalizing count with
  | zero =>
    unfold search
    rw [Nat.add_zero] at hit
    rw [hit]
    exact ⟨_, rfl⟩
  | succ left ih =>
    unfold search
    split
    · exact ⟨_, rfl⟩
    · exact ih (count + 1) (by rwa [Nat.add_assoc, Nat.add_comm 1])

/-- A double of the format that is not zero has a shortest decimal: it has at most seventeen digits,
and it is at most half of the next step above the number. -/
theorem shortest_near {x : Binary64} (proper : x.Proper) (nonzero : 0 < x.mantissa) :
    0 < x.shortest.digits ∧ x.shortest.digits ≤ tenTo 17 ∧ -400 ≤ x.shortest.power ∧
      (x.shortest.digits * 10 ^ x.shortest.power : ℚ) ≤ (x.mantissa + 1 / 2) * 2 ^ x.exponent := by
  obtain ⟨lower, upper⟩ := leadingPower_spec nonzero
  have step_pos (power : Int) : (0 : ℚ) < x.stepOn power := Nat.cast_pos.mpr (x.stepOn_pos power)
  have fine : 10 ^ 16 * x.stepOn (x.leadingPower - (1 + 16 : Nat) + 1) ≤
      x.valueOn (x.leadingPower - (1 + 16 : Nat) + 1) := by
    have ratio := x.value_ratio (x.leadingPower - (1 + 16 : Nat) + 1)
    have many : (10 ^ 16 : ℚ) ≤ x.size / 10 ^ (x.leadingPower - (1 + 16 : Nat) + 1) := by
      rw [le_div_iff₀ (ten_zpow_pos _)]
      refine le_trans (le_of_eq ?_) lower
      rw [← zpow_natCast, ← zpow_add₀ (by norm_num)]
      congr 1
      omega
    rw [← ratio, le_div_iff₀ (step_pos _)] at many
    exact_mod_cast many
  obtain ⟨last, hitLast⟩ := exists_hit proper fine
  obtain ⟨decimal, found⟩ := exists_search 16 1 hitLast
  have isShortest : x.shortest = decimal := by
    unfold shortest
    rw [if_neg nonzero.ne', found, Option.getD_some]
  obtain ⟨digits, few, hit⟩ := of_search found
  obtain ⟨isPower, positive, neighbour, near⟩ := of_hit hit
  rw [isShortest, isPower]
  have least := leadingPower_ge proper
  generalize power_eq : x.leadingPower - digits + 1 = power at hit isPower neighbour near ⊢
  have ratio := x.value_ratio power
  refine ⟨positive, ?_, by omega, ?_⟩
  · -- the number has `digits` digits on this grid
    have count : x.valueOn power / x.stepOn power < 10 ^ digits := by
      rw [Nat.div_lt_iff_lt_mul (x.stepOn_pos power)]
      have less : x.size / 10 ^ power < 10 ^ digits := by
        rw [div_lt_iff₀ (ten_zpow_pos _), ← zpow_natCast, ← zpow_add₀ (by norm_num)]
        refine lt_of_lt_of_eq upper ?_
        congr 1
        omega
      rw [← ratio, div_lt_iff₀ (step_pos power)] at less
      exact_mod_cast less
    calc decimal.digits ≤ 10 ^ digits := by omega
      _ ≤ tenTo 17 := Nat.pow_le_pow_right (by decide) (by omega)
  · have quarters := x.quarter_ratio power
    have cast : (decimal.digits * x.stepOn power : ℚ) ≤
        x.valueOn power + 2 * x.quarterOn power := by exact_mod_cast near
    have scaled : (decimal.digits : ℚ) ≤
        x.valueOn power / x.stepOn power + 2 * (x.quarterOn power / x.stepOn power) := by
      rw [mul_div_assoc', ← add_div, le_div_iff₀ (step_pos power)]
      exact cast
    rw [ratio, quarters, mul_div_assoc', ← add_div, le_div_iff₀ (ten_zpow_pos power)] at scaled
    refine scaled.trans (le_of_eq ?_)
    rw [size, zpow_sub₀ (by norm_num)]
    ring

theorem shortest_top (negative : Bool) :
    (⟨negative, 9007199254740991, 971⟩ : Binary64).shortest = ⟨17976931348623157, 292⟩ := by
  cases negative <;> decide +kernel

/-- The shortest decimal of a double of the format that is not zero has at most seventeen digits and is
not beyond the largest double. -/
theorem shortest_spec {x : Binary64} (proper : x.Proper) (nonzero : 0 < x.mantissa) :
    0 < x.shortest.digits ∧ x.shortest.digits ≤ tenTo 17 ∧ -400 ≤ x.shortest.power ∧
      (x.shortest.digits * 10 ^ x.shortest.power : ℚ) ≤ largest := by
  obtain ⟨positive, few, least, near⟩ := shortest_near proper nonzero
  refine ⟨positive, few, least, ?_⟩
  obtain ⟨negative, mantissa, exponent⟩ := x
  have mantissa_lt : mantissa < 2 ^ 53 := proper.mantissa
  have most : exponent ≤ maxExponent := proper.most
  rcases eq_or_lt_of_le most with rfl | less
  · rcases Nat.lt_or_ge mantissa 9007199254740991 with below | top
    · -- half a step above a smaller mantissa is still below the largest one
      refine near.trans (mul_le_mul_of_nonneg_right ?_ (two_zpow_pos _).le)
      have cast : ((mantissa + 1 : Nat) : ℚ) ≤ (2 ^ 53 - 1 : Nat) := Nat.cast_le.mpr (by omega)
      rw [Nat.cast_add, Nat.cast_one] at cast
      refine le_trans ?_ cast
      dsimp only
      linarith
    · have same : mantissa = 9007199254740991 := by omega
      have isTop := shortest_top negative
      rw [same, maxExponent, isTop, ← cast_largestNat]
      have power : (10 : ℚ) ^ (292 : Int) = ((tenTo 292 : Nat) : ℚ) := (cast_tenTo 292).symm
      rw [power, ← Nat.cast_mul, Nat.cast_le]
      decide +kernel
  · refine near.trans ?_
    have step : (2 : ℚ) ^ (exponent + 1) ≤ 2 ^ maxExponent :=
      zpow_le_zpow_right₀ (by norm_num) less
    rw [two_zpow_succ] at step
    have cast : ((mantissa + 1 : Nat) : ℚ) ≤ (2 ^ 53 : Nat) := Nat.cast_le.mpr mantissa_lt
    rw [Nat.cast_add, Nat.cast_one] at cast
    have := two_zpow_pos exponent
    unfold largest
    dsimp only
    push_cast at cast ⊢
    nlinarith

end TelemetryHub.Binary64
