import TelemetryHub.Proofs.Json.Documents
import TelemetryHub.Proofs.Number.Decimals

/-!
# A printed double is read again

Every double that comes out of the reader is one of the format (`proper_numeral`), and what is printed
for such a double is a numeral that the reader takes (`numeral_text`). Its digits may be rounded to
another double than the one that was printed: `Binary64.reread` is the one that comes back.
-/

namespace TelemetryHub

/-- The number is an integer, or a double of the format. -/
def Number.Proper : Number → Prop
  | .whole _ => True
  | .real x => x.Proper

namespace Json

/-! ## What a numeral is read as -/

section Read

variable {negative : Bool} {significand : Nat} {power : Int} {cs rest : List Char} {n : Number}

theorem proper_real (read : real negative significand power cs = .ok (n, rest)) : n.Proper := by
  unfold real at read
  split at read
  · next x found =>
    cases read
    have proper := Binary64.proper_of_ofDecimal found
    cases negative with
    | true => exact proper.neg
    | false => exact proper
  · cases read

theorem proper_exponentPart (read : exponentPart negative significand power cs = .ok (n, rest)) :
    n.Proper := by
  unfold exponentPart at read
  split at read
  split at read
  · cases read
  split at read
  · split at read
    · exact proper_real read
    · split at read
      · cases read
      · cases read
        exact Binary64.proper_signedZero negative
  · cases read

theorem proper_fractionPart (read : fractionPart negative significand power cs = .ok (n, rest)) :
    n.Proper := by
  unfold fractionPart at read
  split at read
  · cases read
  · split at read
    · simp only at read
      split at read
      · exact proper_exponentPart read
      · exact proper_exponentPart read
      · exact proper_real read
    · cases read

theorem proper_integral (read : integral negative significand cs = .ok (n, rest)) : n.Proper := by
  unfold integral at read
  dsimp only at read
  split at read
  · cases read
    trivial
  · exact proper_real read

theorem proper_afterInteger {extra : Nat}
    (read : afterInteger negative significand extra cs = .ok (n, rest)) : n.Proper := by
  unfold afterInteger at read
  split at read
  · exact proper_fractionPart read
  · exact proper_exponentPart read
  · exact proper_exponentPart read
  · split at read
    · exact proper_integral read
    · exact proper_real read

theorem proper_unsignedNumeral (read : unsignedNumeral negative cs = .ok (n, rest)) : n.Proper := by
  unfold unsignedNumeral at read
  split at read
  · cases read
  · split at read
    · split at read
      · cases read
      · exact proper_afterInteger read
    · exact proper_afterInteger read
  · split at read
    · exact proper_afterInteger read
    · cases read

/-- Every double that a numeral is read as is one of the format. -/
theorem proper_numeral (read : numeral cs = .ok (n, rest)) : n.Proper := by
  unfold numeral at read
  split at read <;> exact proper_unsignedNumeral read

end Read

/-! ## Digits -/

theorem ofDigitChars_lt {digits : List Char} (all : ∀ c ∈ digits, c.isDigit = true) :
    Nat.ofDigitChars 10 digits 0 < 10 ^ digits.length := by
  induction digits with
  | nil => exact Nat.one_pos
  | cons c digits ih =>
    have rest := ih fun d member => all d (List.mem_cons_of_mem c member)
    have first : digitValue c < 10 := digitValue_lt (all c List.mem_cons_self)
    have value : 10 * 0 + (c.toNat - '0'.toNat) = digitValue c := by
      rw [Nat.mul_zero, Nat.zero_add]
      rfl
    rw [Nat.ofDigitChars_cons, value, Nat.ofDigitChars_eq_ofDigitChars_zero, List.length_cons,
      Nat.pow_succ]
    calc 10 ^ digits.length * digitValue c + Nat.ofDigitChars 10 digits 0
        < 10 ^ digits.length * (digitValue c + 1) := by
          rw [Nat.mul_succ]
          exact Nat.add_lt_add_left rest _
      _ ≤ 10 ^ digits.length * 10 := Nat.mul_le_mul_left _ first

/-- The digits of a number are a first one and more, with the number as their value. -/
theorem digits_cons (n : Nat) :
    ∃ c more, Text.digits n = c :: more ∧ c.isDigit = true ∧ (∀ d ∈ more, d.isDigit = true) ∧
      Nat.ofDigitChars 10 more (digitValue c) = n := by
  cases form : Text.digits n with
  | nil => exact absurd form Nat.toDigits_ne_nil
  | cons c more =>
    have all : ∀ d ∈ c :: more, d.isDigit = true := by
      intro d member
      exact isDigit_of_mem_digits (form ▸ member)
    have value : Nat.ofDigitChars 10 (Text.digits n) 0 = n := Nat.ofDigitChars_ten_toDigits
    rw [form, Nat.ofDigitChars_cons, Nat.mul_zero, Nat.zero_add] at value
    exact ⟨c, more, rfl, all c List.mem_cons_self,
      fun d member => all d (List.mem_cons_of_mem c member), value⟩

/-! ## The parts of a numeral with a point or an exponent -/

theorem gatherExponent_append {digits rest : List Char} (all : ∀ c ∈ digits, c.isDigit = true)
    (noDigit : NoDigit rest) {power : Nat}
    (fits : Nat.ofDigitChars 10 digits power < exponentBound) :
    gatherExponent power (digits ++ rest) = (some (Nat.ofDigitChars 10 digits power), rest) := by
  induction digits generalizing power with
  | nil =>
    cases rest with
    | nil => rfl
    | cons c rest => simp [gatherExponent, noDigit c rfl, Nat.ofDigitChars_nil]
  | cons c digits ih =>
    have next : 10 * power + (c.toNat - '0'.toNat) = power * 10 + digitValue c := by
      rw [Nat.mul_comm]
      rfl
    rw [Nat.ofDigitChars_cons, next] at fits ⊢
    have within := Nat.lt_of_le_of_lt (le_ofDigitChars digits _) fits
    rw [List.cons_append, gatherExponent, if_pos (all c List.mem_cons_self), if_pos within]
    exact ih (fun d member => all d (List.mem_cons_of_mem c member)) fits

/-- The exponent as it is printed, with its sign. -/
def exponentText (leading : Int) : List Char :=
  (if leading < 0 then '-' else '+') :: Text.digits leading.natAbs

theorem exponentPart_text (negative : Bool) (significand : Nat) (power : Int) {leading : Int}
    (small : leading.natAbs < exponentBound) {rest : List Char} (ends : Ends rest) :
    exponentPart negative significand power (exponentText leading ++ rest) =
      real negative significand (power + leading) rest := by
  obtain ⟨c, more, form, digit, all, value⟩ := digits_cons leading.natAbs
  have gathered : gatherExponent (digitValue c) (more ++ rest) = (some leading.natAbs, rest) := by
    rw [gatherExponent_append all ends.noDigit (by rw [value]; exact small), value]
  unfold exponentText
  rw [form]
  rcases lt_or_ge leading 0 with below | above
  · have sum : power - (leading.natAbs : Int) = power + leading := by omega
    rw [if_pos below, List.cons_append, List.cons_append, exponentPart]
    simp only [digit, if_true, gathered, sum]
  · have sum : power + (leading.natAbs : Int) = power + leading := by omega
    rw [if_neg (not_lt.mpr above), List.cons_append, List.cons_append, exponentPart]
    simp only [digit, if_true, gathered, sum, Bool.false_eq_true, if_false]

/-- A fraction that ends with the numeral. -/
theorem fractionPart_ends (negative : Bool) (significand : Nat) (power : Int)
    {digits rest : List Char} (all : Digits digits) (ends : Ends rest)
    (fits : Nat.ofDigitChars 10 digits significand < significandBound) :
    fractionPart negative significand power (digits ++ rest) =
      real negative (Nat.ofDigitChars 10 digits significand) (power - digits.length) rest := by
  have gathered := gather_append all.2 ends.noDigit 0 fits
  have dropped := dropDigits_of_noDigit ends.noDigit
  obtain ⟨c, more, rfl, digit, -⟩ := all.exists_cons ends.noDigit
  unfold fractionPart
  rw [List.cons_append] at gathered ⊢
  simp only [digit, if_true, gathered, dropped, Nat.zero_add]
  split
  · exact absurd rfl ends.head.2.2.1
  · exact absurd rfl ends.head.2.2.2
  · rfl

/-- A fraction in front of an exponent. -/
theorem fractionPart_exponent (negative : Bool) {significand : Nat} (power : Int)
    {digits : List Char} (rest : List Char) (all : Digits digits)
    (fits : Nat.ofDigitChars 10 digits significand < significandBound) :
    fractionPart negative significand power (digits ++ 'e' :: rest) =
      exponentPart negative (Nat.ofDigitChars 10 digits significand) (power - digits.length)
        rest := by
  have noDigit : NoDigit ('e' :: rest) := by
    intro c first
    cases first
    decide
  have gathered := gather_append all.2 noDigit 0 fits
  have dropped := dropDigits_of_noDigit noDigit
  obtain ⟨c, more, rfl, digit, -⟩ := all.exists_cons noDigit
  unfold fractionPart
  rw [List.cons_append] at gathered ⊢
  simp only [digit, if_true, gathered, dropped, Nat.zero_add]

/-- The integer part of a numeral whose digits fit. -/
theorem unsignedNumeral_integer (negative : Bool) {integer rest : List Char}
    (whole : IntegerPart integer) (noDigit : NoDigit rest)
    (fits : Nat.ofDigitChars 10 integer 0 < significandBound) :
    unsignedNumeral negative (integer ++ rest) =
      afterInteger negative (Nat.ofDigitChars 10 integer 0) 0 rest := by
  have dropped := dropDigits_of_noDigit noDigit
  have taken : (rest.takeWhile Char.isDigit).length = 0 := by
    cases rest with
    | nil => rfl
    | cons d rest => simp [noDigit d rfl]
  rcases whole with rfl | ⟨⟨nonempty, all⟩, notZero⟩
  · have zero : Nat.ofDigitChars 10 ['0'] 0 = 0 := rfl
    rw [zero, List.singleton_append]
    unfold unsignedNumeral
    cases rest with
    | nil => rfl
    | cons d rest => simp [noDigit d rfl]
  · cases integer with
    | nil => exact absurd rfl nonempty
    | cons c more =>
      have other : c ≠ '0' := fun same => notZero (by rw [same]; rfl)
      have digit : c.isDigit = true := all c List.mem_cons_self
      have value : Nat.ofDigitChars 10 (c :: more) 0 = Nat.ofDigitChars 10 more (digitValue c) := by
        rw [Nat.ofDigitChars_cons, Nat.mul_zero, Nat.zero_add]
        rfl
      rw [value] at fits ⊢
      have gathered := gather_append (fun d member => all d (List.mem_cons_of_mem c member)) noDigit 1 fits
      rw [List.cons_append, unsignedNumeral]
      · simp only [digit, if_true, gathered, taken, dropped]
      · exact other

/-! ## The printed form -/

open Binary64 (documents tenTo significant largest)

/-- What the reader makes of a numeral before it looks at its size: from some decimal that it hands on,
whatever follows. The decimal is the given one if its power is positive. -/
def ReadsDecimal (negative : Bool) (text : List Char) (significand : Nat) (power : Int) : Prop :=
  ∃ significand' power', significand' ≤ tenTo 17 ∧
    (0 < power' → significand' = significand ∧ power' = power) ∧
    ∀ rest, Ends rest → unsignedNumeral negative (text ++ rest) = real negative significand' power' rest

/-- The digits in front of an exponent: a point stands behind the first one, if there are more. -/
def mantissaText : List Char → List Char
  | first :: second :: rest => first :: '.' :: second :: rest
  | short => short

section Layouts

variable {digits : List Char} {leading : Int} (negative : Bool) (all : Digits digits)
  (few : Nat.ofDigitChars 10 digits 0 ≤ tenTo 17)

include all few

/-- A number below one. -/
theorem readsDecimal_fraction (zeros : Nat) {significand : Nat} {power : Int} :
    ReadsDecimal negative ("0.".toList ++ List.replicate zeros '0' ++ digits) significand power := by
  have value : Nat.ofDigitChars 10 (List.replicate zeros '0' ++ digits) 0 =
      Nat.ofDigitChars 10 digits 0 := by
    rw [Nat.ofDigitChars_append, Nat.ofDigitChars_replicate_zero, Nat.mul_zero]
  have fits : Nat.ofDigitChars 10 digits 0 < significandBound := few.trans_lt (by decide)
  have all' : Digits (List.replicate zeros '0' ++ digits) := by
    refine ⟨by simp [all.1], fun c member => ?_⟩
    rcases List.mem_append.mp member with zero | digit
    · rw [(List.mem_replicate.mp zero).2]
      decide
    · exact all.2 c digit
  refine ⟨_, 0 - ((List.replicate zeros '0' ++ digits).length : Int), few, fun positive => by omega,
    fun rest ends => ?_⟩
  have point : NoDigit ('.' :: (List.replicate zeros '0' ++ digits ++ rest)) := by
    intro c first
    cases first
    decide
  have read := unsignedNumeral_integer negative (.inl rfl : IntegerPart ['0']) point (by decide)
  have fraction := fractionPart_ends negative 0 0 all' ends (by rwa [value])
  rw [value] at fraction
  rw [← fraction]
  refine Eq.trans ?_ read
  simp

/-- A number whose digits end in front of the point or before. -/
theorem readsDecimal_integer (notZero : digits.head? ≠ some '0' ∨ digits = ['0'] ∧ leading = 0)
    (zeros : Nat) (count : digits.length + zeros = leading.toNat + 1) (below : leading < 16)
    {significand : Nat} {power : Int} :
    ReadsDecimal negative (digits ++ List.replicate zeros '0' ++ ".0".toList) significand power := by
  have all' : Digits (digits ++ List.replicate zeros '0') := by
    refine ⟨by simp [all.1], fun c member => ?_⟩
    rcases List.mem_append.mp member with digit | zero
    · exact all.2 c digit
    · rw [(List.mem_replicate.mp zero).2]
      decide
  have whole : IntegerPart (digits ++ List.replicate zeros '0') := by
    rcases notZero with notZero | ⟨rfl, rfl⟩
    · refine .inr ⟨all', ?_⟩
      rwa [List.head?_append_of_ne_nil _ all.1]
    · have none : zeros = 0 := by
        simp only [List.length_singleton] at count
        omega
      rw [none]
      exact .inl rfl
  have small : Nat.ofDigitChars 10 (digits ++ List.replicate zeros '0') 0 < 10 ^ 16 := by
    refine (ofDigitChars_lt all'.2).trans_le (Nat.pow_le_pow_right (by decide) ?_)
    rw [List.length_append, List.length_replicate, count]
    omega
  have tenfold : Nat.ofDigitChars 10 ['0'] (Nat.ofDigitChars 10 (digits ++ List.replicate zeros '0') 0) <
      10 ^ 17 := by
    rw [Nat.ofDigitChars_cons, Nat.ofDigitChars_nil]
    have : '0'.toNat = 48 := rfl
    omega
  refine ⟨_, 0 - ((['0'] : List Char).length : Int), tenfold.le, fun positive => by simp at positive,
    fun rest ends => ?_⟩
  have point : NoDigit ('.' :: '0' :: rest) := by
    intro c first
    cases first
    decide
  have read := unsignedNumeral_integer negative whole point (small.trans (by decide))
  have fraction := fractionPart_ends negative _ 0 (⟨by simp, by simp⟩ : Digits ['0']) ends
    (tenfold.trans (by decide))
  rw [← fraction]
  refine Eq.trans ?_ read
  simp

/-- A number with digits on both sides of the point. -/
theorem readsDecimal_point (notZero : digits.head? ≠ some '0') {whole : Nat} (least : 0 < whole)
    (more : whole < digits.length) {significand : Nat} {power : Int} :
    ReadsDecimal negative (digits.take whole ++ '.' :: digits.drop whole) significand power := by
  have fits : Nat.ofDigitChars 10 digits 0 < significandBound := few.trans_lt (by decide)
  have integer : IntegerPart (digits.take whole) := by
    refine .inr ⟨⟨?_, fun c member => all.2 c (List.mem_of_mem_take member)⟩, ?_⟩
    · rw [Ne, List.take_eq_nil_iff, not_or]
      exact ⟨least.ne', all.1⟩
    · rwa [List.head?_take, if_neg least.ne']
  have behind : Digits (digits.drop whole) := by
    refine ⟨?_, fun c member => all.2 c (List.mem_of_mem_drop member)⟩
    rw [Ne, List.drop_eq_nil_iff, not_le]
    exact more
  have value : Nat.ofDigitChars 10 (digits.drop whole)
      (Nat.ofDigitChars 10 (digits.take whole) 0) = Nat.ofDigitChars 10 digits 0 := by
    rw [← Nat.ofDigitChars_append, List.take_append_drop]
  refine ⟨_, 0 - ((digits.drop whole).length : Int), few, fun positive => by omega,
    fun rest ends => ?_⟩
  have point : NoDigit ('.' :: (digits.drop whole ++ rest)) := by
    intro c first
    cases first
    decide
  have read := unsignedNumeral_integer negative integer point
    ((le_ofDigitChars (digits.drop whole) _).trans_lt (value.trans_lt fits))
  have fraction := fractionPart_ends negative _ 0 behind ends (value.trans_lt fits)
  rw [value] at fraction
  rw [← fraction]
  refine Eq.trans ?_ read
  simp

/-- A number with an exponent. -/
theorem readsDecimal_exponent (notZero : digits.head? ≠ some '0')
    (small : leading.natAbs < exponentBound) :
    ReadsDecimal negative (mantissaText digits ++ 'e' :: exponentText leading)
      (Nat.ofDigitChars 10 digits 0) (leading + 1 - digits.length) := by
  have fits : Nat.ofDigitChars 10 digits 0 < significandBound := few.trans_lt (by decide)
  refine ⟨Nat.ofDigitChars 10 digits 0, leading + 1 - digits.length, few, fun _ => ⟨rfl, rfl⟩,
    fun rest ends => ?_⟩
  match digits, all, notZero, fits with
  | [], all, _, _ => exact absurd rfl all.1
  | [first], all, notZero, fits =>
    have letter : NoDigit ('e' :: (exponentText leading ++ rest)) := by
      intro c first
      cases first
      decide
    have read := unsignedNumeral_integer negative (.inr ⟨all, notZero⟩) letter fits
    have exponent := exponentPart_text negative (Nat.ofDigitChars 10 [first] 0) (0 : Nat) small ends
    have sum : leading + 1 - (([first] : List Char).length : Int) = (0 : Nat) + leading := by
      rw [List.length_singleton]
      omega
    rw [sum, ← exponent]
    refine Eq.trans ?_ read
    simp [mantissaText]
  | first :: second :: more, all, notZero, fits =>
    have integer : IntegerPart [first] :=
      .inr ⟨⟨by simp, by simpa using all.2 first List.mem_cons_self⟩, notZero⟩
    have behind : Digits (second :: more) :=
      ⟨by simp, fun c member => all.2 c (List.mem_cons_of_mem first member)⟩
    have value : Nat.ofDigitChars 10 (second :: more) (Nat.ofDigitChars 10 [first] 0) =
        Nat.ofDigitChars 10 (first :: second :: more) 0 := by
      rw [← Nat.ofDigitChars_append, List.singleton_append]
    have point : NoDigit ('.' :: (second :: more ++ 'e' :: (exponentText leading ++ rest))) := by
      intro c first
      cases first
      decide
    have read := unsignedNumeral_integer negative integer point
      ((le_ofDigitChars (second :: more) _).trans_lt (value.trans_lt fits))
    have fraction := fractionPart_exponent negative (0 : Nat) (exponentText leading ++ rest) behind
      (value.trans_lt fits)
    have exponent := exponentPart_text negative
      (Nat.ofDigitChars 10 (first :: second :: more) 0)
      ((0 : Nat) - ((second :: more).length : Int)) small ends
    have sum : leading + 1 - ((first :: second :: more).length : Int) =
        (0 : Nat) - ((second :: more).length : Int) + leading := by
      simp only [List.length_cons]
      omega
    rw [sum, ← exponent, ← value, ← fraction]
    refine Eq.trans ?_ read
    simp [mantissaText]

end Layouts

/-- However the digits of a number are laid out, the reader hands its decimal on, or one that is small. -/
theorem readsDecimal_write {digits : List Char} {leading : Int} (negative : Bool)
    (all : Digits digits) (few : Nat.ofDigitChars 10 digits 0 ≤ tenTo 17)
    (notZero : digits.head? ≠ some '0' ∨ digits = ['0'] ∧ leading = 0)
    (small : leading.natAbs < exponentBound) :
    ReadsDecimal negative (documents.write digits leading) (Nat.ofDigitChars 10 digits 0)
      (leading + 1 - digits.length) := by
  unfold Binary64.Layout.write
  split
  · exact readsDecimal_fraction negative all few _
  split
  · next within =>
    have below : leading < 16 := within.2
    dsimp only
    split
    · next short =>
      exact readsDecimal_integer negative all few notZero _ (by omega) below
    · next long =>
      refine readsDecimal_point negative all few ?_ (Nat.succ_pos _) (Nat.lt_of_not_le long)
      rcases notZero with notZero | ⟨rfl, rfl⟩
      · exact notZero
      · exact absurd (Nat.le_refl 1) long
  · next beyond =>
    have notZero : digits.head? ≠ some '0' := by
      rcases notZero with notZero | ⟨rfl, rfl⟩
      · exact notZero
      · exact absurd ⟨le_rfl, by decide⟩ beyond
    exact readsDecimal_exponent negative all few notZero small

/-- Without its last zeros a number has the digits in front of them. -/
theorem exists_significant {digits : List Char} {c : Char} (member : c ∈ digits) (other : c ≠ '0') :
    ∃ zeros, digits = significant digits ++ List.replicate zeros '0' ∧ significant digits ≠ [] := by
  obtain ⟨behind, isBehind⟩ : ∃ behind, behind = digits.reverse.takeWhile (· = '0') := ⟨_, rfl⟩
  have split : digits = (digits.reverse.dropWhile (· = '0')).reverse ++ behind.reverse := by
    rw [isBehind, ← List.reverse_append, List.takeWhile_append_dropWhile, List.reverse_reverse]
  have zeros : behind = List.replicate behind.length '0' := by
    refine List.eq_replicate_iff.mpr ⟨rfl, fun d isIn => ?_⟩
    have all : (digits.reverse.takeWhile (· = '0')).all (· = '0') = true := List.all_takeWhile
    rw [isBehind] at isIn
    exact of_decide_eq_true (List.all_eq_true.mp all d isIn)
  have kept : (digits.reverse.dropWhile (· = '0')).reverse ≠ [] := by
    intro nothing
    rw [nothing, List.nil_append, zeros, List.reverse_replicate] at split
    rw [split] at member
    exact other (List.mem_replicate.mp member).2
  have same : significant digits = (digits.reverse.dropWhile (· = '0')).reverse := by
    unfold significant
    split
    · next nothing => exact absurd nothing kept
    · rfl
  refine ⟨behind.length, ?_, same ▸ kept⟩
  rw [same, ← List.reverse_replicate, ← zeros]
  exact split

/-! ## Doubles -/

/-- A decimal that is not beyond the largest double is read as a double. -/
theorem ReadsDecimal.exists_real {negative : Bool} {text : List Char} {significand : Nat} {power : Int}
    (reads : ReadsDecimal negative text significand power) (positive : 0 < significand ∨ power ≤ 0)
    (fits : (significand * 10 ^ power : ℚ) ≤ largest) :
    ∃ y : Binary64, ∀ rest, Ends rest →
      unsignedNumeral negative (text ++ rest) = .ok (.real y, rest) := by
  obtain ⟨significand', power', few, same, read⟩ := reads
  have fits' : 0 < power' → 0 < significand' ∧
      significand' * tenTo power'.toNat ≤ Binary64.largestNat := by
    intro up
    obtain ⟨rfl, rfl⟩ := same up
    refine ⟨by omega, ?_⟩
    rw [← Binary64.cast_largestNat] at fits
    have cast : (10 : ℚ) ^ power' = ((tenTo power'.toNat : Nat) : ℚ) := by
      rw [Binary64.cast_tenTo, Int.toNat_of_nonneg up.le]
    rw [cast, ← Nat.cast_mul, Nat.cast_le] at fits
    exact fits
  obtain ⟨y, found⟩ := Binary64.exists_ofDecimal few fits'
  refine ⟨if negative then y.neg else y, fun rest ends => (read rest ends).trans ?_⟩
  unfold real
  rw [found]

theorem unsignedNumeral_starts {negative : Bool} {cs rest : List Char} {n : Number}
    (read : unsignedNumeral negative cs = .ok (n, rest)) :
    ∃ c more, cs = c :: more ∧ c.isDigit = true := by
  unfold unsignedNumeral at read
  split at read
  · cases read
  · exact ⟨'0', _, rfl, rfl⟩
  · split at read
    · next digit => exact ⟨_, _, rfl, digit⟩
    · cases read

/-- The digits of a double and where the first one stands, up to the zeros behind them. -/
theorem exists_digits {x : Binary64} (proper : x.Proper) (nonzero : 0 < x.mantissa) :
    ∃ digits leading, x.text =
        (if x.negative then ['-'] else []) ++ documents.write digits leading ∧
      Digits digits ∧ digits.head? ≠ some '0' ∧ leading.natAbs < exponentBound ∧
      Nat.ofDigitChars 10 digits 0 ≤ tenTo 17 ∧ 0 < Nat.ofDigitChars 10 digits 0 ∧
      (Nat.ofDigitChars 10 digits 0 * 10 ^ (leading + 1 - digits.length) : ℚ) ≤ largest := by
  obtain ⟨positive, few, least, fits⟩ := Binary64.shortest_spec proper nonzero
  obtain ⟨decimal, isDecimal⟩ : ∃ decimal, decimal = x.shortest := ⟨_, rfl⟩
  rw [← isDecimal] at positive few least fits
  obtain ⟨c, more, form, -, other, -⟩ := digits_positive positive
  have member : c ∈ Text.digits decimal.digits := by
    rw [form]
    exact List.mem_cons_self
  obtain ⟨zeros, split, nonempty⟩ := exists_significant member other
  generalize isSignificant : significant (Text.digits decimal.digits) = digits at split nonempty
  have value : 10 ^ zeros * Nat.ofDigitChars 10 digits 0 = decimal.digits := by
    have whole : Nat.ofDigitChars 10 (Text.digits decimal.digits) 0 = decimal.digits :=
      Nat.ofDigitChars_ten_toDigits
    rwa [split, Nat.ofDigitChars_append, Nat.ofDigitChars_replicate_zero] at whole
  have length : (Text.digits decimal.digits).length = digits.length + zeros := by
    rw [split, List.length_append, List.length_replicate]
  have short : (Text.digits decimal.digits).length ≤ 18 :=
    (Nat.length_toDigits_le_iff (by decide) (by decide)).mpr (few.trans_lt (by decide))
  have bounded : decimal.power < 309 := Binary64.power_lt positive fits
  refine ⟨digits, (Text.digits decimal.digits).length - 1 + decimal.power, ?_, ⟨nonempty, ?_⟩, ?_, ?_,
    ?_, ?_, ?_⟩
  · unfold Binary64.text
    dsimp only
    rw [← isDecimal, if_neg nonzero.ne', isSignificant]
  · intro d isIn
    refine isDigit_of_mem_digits (n := decimal.digits) ?_
    rw [split]
    exact List.mem_append_left _ isIn
  · have first : (digits ++ List.replicate zeros '0').head? = digits.head? :=
      List.head?_append_of_ne_nil _ nonempty
    rw [← first, ← split]
    exact head?_digits positive
  · have bound : exponentBound = 2147483648 := rfl
    omega
  · refine le_trans ?_ (value.trans_le few)
    exact Nat.le_mul_of_pos_left _ (Nat.pow_pos (by decide))
  · refine Nat.pos_of_ne_zero fun zero => ?_
    rw [zero, Nat.mul_zero] at value
    omega
  · refine le_trans (le_of_eq ?_) fits
    have power : ((Text.digits decimal.digits).length - 1 + decimal.power + 1 - digits.length : Int) =
        zeros + decimal.power := by
      rw [length]
      push_cast
      omega
    rw [power, zpow_add₀ (by norm_num), zpow_natCast, ← value]
    push_cast
    ring

/-- What is printed behind the sign of a double is read as one. -/
theorem exists_unsigned {x : Binary64} (proper : x.Proper) :
    ∃ body, x.text = (if x.negative then ['-'] else []) ++ body ∧
      ∀ negative, ∃ y : Binary64, ∀ rest, Ends rest →
        unsignedNumeral negative (body ++ rest) = .ok (.real y, rest) := by
  rcases Nat.eq_zero_or_pos x.mantissa with zero | nonzero
  · refine ⟨documents.write ['0'] 0, ?_, fun negative => ?_⟩
    · have nothing : x.shortest = ⟨0, 0⟩ := by
        unfold Binary64.shortest
        rw [if_pos zero]
      unfold Binary64.text
      dsimp only
      rw [nothing, if_pos zero]
      rfl
    · have reads := readsDecimal_write negative (⟨by simp, by simp⟩ : Digits ['0']) (by decide)
        (.inr ⟨rfl, rfl⟩) (by decide)
      refine reads.exists_real (.inr (by decide)) ?_
      have digit : Nat.ofDigitChars 10 ['0'] 0 = 0 := rfl
      rw [digit, Nat.cast_zero, zero_mul, ← Binary64.cast_largestNat]
      exact Nat.cast_nonneg _
  · obtain ⟨digits, leading, form, all, notZero, small, few, positive, fits⟩ :=
      exists_digits proper nonzero
    refine ⟨_, form, fun negative => ?_⟩
    exact (readsDecimal_write negative all few (.inl notZero) small).exists_real (.inl positive) fits

/-- What is printed for a double of the format is a numeral, and the reader takes it as a double. -/
theorem exists_numeral_text {x : Binary64} (proper : x.Proper) :
    ∃ y : Binary64, ∀ rest, Ends rest → numeral (x.text ++ rest) = .ok (.real y, rest) := by
  obtain ⟨body, form, reads⟩ := exists_unsigned proper
  obtain ⟨y, read⟩ := reads x.negative
  refine ⟨y, fun rest ends => ?_⟩
  rw [form]
  cases sign : x.negative with
  | true =>
    rw [sign] at read
    exact read rest ends
  | false =>
    rw [sign] at read
    have read := read rest ends
    obtain ⟨c, more, starts, digit⟩ := unsignedNumeral_starts read
    have noSign : c ≠ '-' := by
      rintro rfl
      exact absurd digit (by decide)
    rw [if_neg Bool.false_ne_true, List.nil_append]
    rw [starts] at read ⊢
    unfold numeral
    split
    · next same => exact absurd (List.cons.inj same).1 noSign
    · exact read

end Json

namespace Binary64

open Json (Ends)

/-- The double that comes back when the double is printed and read again. -/
def reread (x : Binary64) : Binary64 :=
  match Json.numeral x.text with
  | .ok (.real y, _) => y
  | _ => x

theorem numeral_text {x : Binary64} (proper : x.Proper) {rest : List Char} (ends : Ends rest) :
    Json.numeral (x.text ++ rest) = .ok (.real x.reread, rest) := by
  obtain ⟨y, read⟩ := Json.exists_numeral_text proper
  have alone := read [] (fun c first => by cases first)
  rw [List.append_nil] at alone
  have same : x.reread = y := by
    unfold reread
    rw [alone]
  rw [same]
  exact read rest ends

/-- A printed double begins with its sign or a digit. -/
theorem text_starts {x : Binary64} (proper : x.Proper) :
    ∃ c more, x.text = c :: more ∧ (c = '-' ∨ c.isDigit = true) := by
  obtain ⟨body, form, reads⟩ := Json.exists_unsigned proper
  obtain ⟨y, read⟩ := reads x.negative
  obtain ⟨c, more, starts, digit⟩ := Json.unsignedNumeral_starts (read [] (fun c first => by cases first))
  rw [List.append_nil] at starts
  rw [form, starts]
  cases x.negative with
  | true => exact ⟨'-', c :: more, rfl, .inl rfl⟩
  | false => exact ⟨c, more, rfl, .inr digit⟩

/-- Nine tenths come back as they were. -/
example : (⟨false, 8106479329266893, -53⟩ : Binary64).reread = ⟨false, 8106479329266893, -53⟩ := by
  decide +kernel

end Binary64
end TelemetryHub
