import TelemetryHub.Json.Numeral
import TelemetryHub.Proofs.Json.Grammar

/-!
# Numerals are read exactly

An integer that fits 64 bits is read from its decimal form and from no other text
(`integer_of_numeral`, `numeral_integer`). A numeral that is passed over is any numeral of the grammar
(`passNumber_ok`, `numeralText_of_passNumber`).
-/

namespace TelemetryHub

theorem Whole.ext {v w : Whole} (same : v.val = w.val) : v = w := by
  cases v
  cases w
  simpa using same

theorem Whole.ofInt?_eq_some_iff (i : Int) (w : Whole) : Whole.ofInt? i = some w ↔ w.val = i := by
  unfold Whole.ofInt?
  constructor
  · intro fits
    split at fits
    · split at fits
      · cases fits
        rfl
      · cases fits
    · cases fits
  · rintro rfl
    simp [w.least, w.below]

namespace Json

/-! ## Digits -/

theorem isDigit_bounds {c : Char} (digit : c.isDigit = true) : 48 ≤ c.toNat ∧ c.toNat ≤ 57 := by
  simp only [Char.isDigit, Bool.and_eq_true, decide_eq_true_eq] at digit
  exact ⟨UInt32.le_iff_toNat_le.mp digit.1, UInt32.le_iff_toNat_le.mp digit.2⟩

theorem digitValue_lt {c : Char} (digit : c.isDigit = true) : digitValue c < 10 := by
  have bounds := isDigit_bounds digit
  have zero : '0'.toNat = 48 := rfl
  unfold digitValue
  omega

/-- A digit is written as what it is worth. -/
theorem digitChar_digitValue {c : Char} (digit : c.isDigit = true) :
    Nat.digitChar (digitValue c) = c := by
  have bounds := isDigit_bounds digit
  have zero : '0'.toNat = 48 := rfl
  apply Char.toNat_inj.mp
  rw [Nat.toNat_digitChar_of_lt_ten (digitValue_lt digit)]
  unfold digitValue
  omega

theorem digitValue_pos {c : Char} (digit : c.isDigit = true) (nonzero : c ≠ '0') :
    0 < digitValue c := by
  have bounds := isDigit_bounds digit
  have zero : '0'.toNat = 48 := rfl
  have different : c.toNat ≠ 48 := fun same => nonzero (Char.toNat_inj.mp same)
  unfold digitValue
  omega

/-- A character that is no digit, as the first one of a text if there is any. -/
def NoDigit (rest : List Char) : Prop := ∀ c, rest.head? = some c → c.isDigit = false

theorem Ends.head {c : Char} {rest : List Char} (ends : Ends (c :: rest)) :
    c.isDigit = false ∧ c ≠ '.' ∧ c ≠ 'e' ∧ c ≠ 'E' := by
  rcases ends c rfl with space | rfl | rfl | rfl
  · simp only [isSpace, Bool.or_eq_true, decide_eq_true_eq] at space
    rcases space with ((rfl | rfl) | rfl) | rfl <;> decide
  all_goals decide

theorem Ends.noDigit {rest : List Char} (ends : Ends rest) : NoDigit rest := by
  intro c first
  cases rest with
  | nil => cases first
  | cons d rest =>
    cases first
    exact ends.head.1

theorem dropDigits_append {digits rest : List Char} (all : ∀ c ∈ digits, c.isDigit = true)
    (noDigit : NoDigit rest) : dropDigits (digits ++ rest) = rest := by
  unfold dropDigits
  rw [List.dropWhile_append_of_pos all]
  cases rest with
  | nil => rfl
  | cons c rest => simp [noDigit c rfl]

theorem dropDigits_of_noDigit {rest : List Char} (noDigit : NoDigit rest) : dropDigits rest = rest :=
  dropDigits_append (List.forall_mem_nil _) noDigit

/-- What is dropped are digits, and no digit is left in front. -/
theorem exists_dropDigits (cs : List Char) :
    ∃ digits, cs = digits ++ dropDigits cs ∧ (∀ c ∈ digits, c.isDigit = true) ∧
      NoDigit (dropDigits cs) := by
  refine ⟨cs.takeWhile Char.isDigit, (List.takeWhile_append_dropWhile).symm,
    List.all_eq_true.mp List.all_takeWhile, ?_⟩
  intro c first
  have kept := List.head?_dropWhile_not Char.isDigit cs
  unfold dropDigits at first
  rw [first] at kept
  simpa using kept

/-! ## Significands -/

/-- The digits that are gathered continue the decimal form of the significand, and the digit behind
them, if there is one, does not fit any more. -/
theorem digits_of_gather {significand count count' value : Nat} {cs rest : List Char}
    (positive : 0 < significand) (gathered : gather significand count cs = (value, count', rest)) :
    ∃ digits, cs = digits ++ rest ∧
      Text.digits significand ++ digits = Text.digits value ∧ 0 < value := by
  induction cs generalizing significand count with
  | nil =>
    simp only [gather, Prod.mk.injEq] at gathered
    obtain ⟨rfl, _, rfl⟩ := gathered
    exact ⟨[], rfl, by simp, positive⟩
  | cons c cs ih =>
    unfold gather at gathered
    split at gathered
    · next fits =>
      simp only [Bool.and_eq_true, decide_eq_true_eq] at fits
      have small := digitValue_lt fits.1
      obtain ⟨digits, rfl, same, bigger⟩ := ih (by omega) gathered
      refine ⟨c :: digits, rfl, ?_, bigger⟩
      have step := Nat.toDigits_append_toDigits (by decide : 1 < 10) positive small
      rw [Nat.toDigits_of_lt_base small, digitChar_digitValue fits.1, Nat.mul_comm] at step
      calc Text.digits significand ++ c :: digits
          = Text.digits significand ++ [c] ++ digits := by simp
        _ = Text.digits (significand * 10 + digitValue c) ++ digits := by
          unfold Text.digits
          rw [step]
        _ = Text.digits value := same
    · simp only [Prod.mk.injEq] at gathered
      obtain ⟨rfl, _, rfl⟩ := gathered
      exact ⟨[], rfl, by simp, positive⟩

theorem le_ofDigitChars (digits : List Char) (start : Nat) :
    start ≤ Nat.ofDigitChars 10 digits start := by
  rw [Nat.ofDigitChars_eq_ofDigitChars_zero]
  have : 1 ≤ 10 ^ digits.length := Nat.one_le_pow _ _ (by decide)
  have := Nat.mul_le_mul_right start this
  omega

/-- Digits whose value fits are gathered up to their end. -/
theorem gather_append {digits rest : List Char} (all : ∀ c ∈ digits, c.isDigit = true)
    (noDigit : NoDigit rest) {significand : Nat} (count : Nat)
    (fits : Nat.ofDigitChars 10 digits significand < significandBound) :
    gather significand count (digits ++ rest) =
      (Nat.ofDigitChars 10 digits significand, count + digits.length, rest) := by
  induction digits generalizing significand count with
  | nil =>
    cases rest with
    | nil => rfl
    | cons c rest => simp [gather, noDigit c rfl, Nat.ofDigitChars_nil]
  | cons c digits ih =>
    have next : 10 * significand + (c.toNat - '0'.toNat) = significand * 10 + digitValue c := by
      rw [Nat.mul_comm]
      rfl
    rw [Nat.ofDigitChars_cons, next] at fits ⊢
    have within := Nat.lt_of_le_of_lt (le_ofDigitChars digits _) fits
    have digit : c.isDigit = true := all c List.mem_cons_self
    rw [List.cons_append, gather]
    simp only [digit, within, decide_true, Bool.and_self, if_true]
    rw [ih (fun d member => all d (List.mem_cons_of_mem c member)) (count + 1) fits]
    simp only [List.length_cons]
    congr 2
    omega

/-- The decimal form of a positive number begins with no zero. -/
theorem head?_digits {n : Nat} (positive : 0 < n) : (Text.digits n).head? ≠ some '0' := by
  induction n using Nat.strongRecOn with
  | ind n ih =>
    unfold Text.digits at ih ⊢
    rw [Nat.toDigits_eq_if (by decide)]
    split
    · next small =>
      intro zero
      have same : n.digitChar = Nat.digitChar 0 := Option.some.inj zero
      have codes := congrArg Char.toNat same
      rw [Nat.toNat_digitChar_of_lt_ten small, Nat.toNat_digitChar_of_lt_ten (by decide)] at codes
      omega
    · next large =>
      have shorter := ih (n / 10) (by omega) (by omega)
      cases form : Nat.toDigits 10 (n / 10) with
      | nil => exact absurd form Nat.toDigits_ne_nil
      | cons c more =>
        rw [form] at shorter
        exact shorter

/-- The decimal form of a positive number: a digit that is not zero, and more digits. -/
theorem digits_positive {n : Nat} (positive : 0 < n) :
    ∃ c more, Text.digits n = c :: more ∧ c.isDigit = true ∧ c ≠ '0' ∧
      (∀ d ∈ more, d.isDigit = true) ∧ Nat.ofDigitChars 10 more (digitValue c) = n := by
  have value : Nat.ofDigitChars 10 (Text.digits n) 0 = n := Nat.ofDigitChars_ten_toDigits
  have all : ∀ d ∈ Text.digits n, d.isDigit = true := fun d member =>
    Nat.isDigit_of_mem_toDigits (by decide) (by decide) member
  cases form : Text.digits n with
  | nil => exact absurd form Nat.toDigits_ne_nil
  | cons c more =>
    rw [form] at value all
    rw [Nat.ofDigitChars_cons] at value
    have start : 10 * 0 + (c.toNat - '0'.toNat) = digitValue c := by simp [digitValue]
    rw [start] at value
    refine ⟨c, more, rfl, all c List.mem_cons_self, ?_, fun d member =>
      all d (List.mem_cons_of_mem c member), value⟩
    rintro rfl
    exact head?_digits positive (by rw [form]; rfl)

/-! ## Integers -/


theorem real_ne_whole {negative : Bool} {significand : Nat} {power : Int} {rest rest' : List Char}
    {w : Whole} : real negative significand power rest ≠ .ok (.whole w, rest') := by
  intro accepted
  unfold real at accepted
  split at accepted
  · simp at accepted
  · cases accepted

theorem integral_ok_iff (negative : Bool) (significand : Nat) (rest rest' : List Char) (w : Whole) :
    integral negative significand rest = .ok (.whole w, rest') ↔
      rest' = rest ∧ (negative = true → 0 < significand) ∧
        w.val = if negative then -(significand : Int) else significand := by
  unfold integral
  cases zero : negative && decide (significand = 0) with
  | true =>
    simp only [Bool.and_eq_true, decide_eq_true_eq] at zero
    simp only [if_true]
    constructor
    · intro accepted
      exact absurd accepted real_ne_whole
    · rintro ⟨_, positive, _⟩
      exact absurd (positive zero.1) (by omega)
  | false =>
    simp only [Bool.and_eq_false_iff, decide_eq_false_iff_not] at zero
    have positive : negative = true → 0 < significand := by
      intro isNegative
      rcases zero with other | nonzero
      · rw [isNegative] at other
        cases other
      · exact Nat.pos_of_ne_zero nonzero
    simp only [Bool.false_eq_true, if_false]
    cases fits : Whole.ofInt? (if negative = true then -(significand : Int) else significand) with
    | none =>
      simp only
      constructor
      · intro accepted
        exact absurd accepted real_ne_whole
      · rintro ⟨_, _, value⟩
        rw [(Whole.ofInt?_eq_some_iff _ _).mpr value] at fits
        cases fits
    | some n =>
      have value := (Whole.ofInt?_eq_some_iff _ _).mp fits
      simp only [Except.ok.injEq, Prod.mk.injEq, Number.whole.injEq]
      constructor
      · rintro ⟨rfl, rfl⟩
        exact ⟨rfl, positive, value⟩
      · rintro ⟨rfl, _, same⟩
        exact ⟨Whole.ext (value.trans same.symm), rfl⟩

theorem exponentPart_ne_whole {negative : Bool} {significand : Nat} {power : Int}
    {cs rest : List Char} {w : Whole} :
    exponentPart negative significand power cs ≠ .ok (.whole w, rest) := by
  intro accepted
  unfold exponentPart at accepted
  split at accepted
  split at accepted
  · cases accepted
  split at accepted
  · split at accepted
    · exact real_ne_whole accepted
    · split at accepted
      · cases accepted
      · simp at accepted
  · cases accepted

theorem fractionPart_ne_whole {negative : Bool} {significand : Nat} {power : Int}
    {cs rest : List Char} {w : Whole} :
    fractionPart negative significand power cs ≠ .ok (.whole w, rest) := by
  intro accepted
  unfold fractionPart at accepted
  split at accepted
  · cases accepted
  · split at accepted
    · simp only at accepted
      split at accepted
      · exact exponentPart_ne_whole accepted
      · exact exponentPart_ne_whole accepted
      · exact real_ne_whole accepted
    · cases accepted

/-- An integer has neither a fraction nor an exponent, and all its digits fit. -/
theorem afterInteger_whole {negative : Bool} {significand extra : Nat} {cs rest : List Char}
    {w : Whole} (accepted : afterInteger negative significand extra cs = .ok (.whole w, rest)) :
    extra = 0 ∧ integral negative significand cs = .ok (.whole w, rest) := by
  unfold afterInteger at accepted
  split at accepted
  · exact absurd accepted fractionPart_ne_whole
  · exact absurd accepted exponentPart_ne_whole
  · exact absurd accepted exponentPart_ne_whole
  · split at accepted
    · next none => exact ⟨none, accepted⟩
    · exact absurd accepted real_ne_whole

theorem afterInteger_ends {negative : Bool} {significand : Nat} {rest : List Char}
    (ends : Ends rest) :
    afterInteger negative significand 0 rest = integral negative significand rest := by
  unfold afterInteger
  split
  · exact absurd rfl ends.head.2.1
  · exact absurd rfl ends.head.2.2.1
  · exact absurd rfl ends.head.2.2.2
  · rfl

/-- The digits of an integer without its sign are its decimal form. -/
theorem digits_of_unsignedNumeral {negative : Bool} {cs rest : List Char} {w : Whole}
    (accepted : unsignedNumeral negative cs = .ok (.whole w, rest)) :
    ∃ n : Nat, cs = Text.digits n ++ rest ∧ integral negative n rest = .ok (.whole w, rest) := by
  unfold unsignedNumeral at accepted
  split at accepted
  · cases accepted
  · next behind =>
    have zero : afterInteger negative 0 0 behind = .ok (.whole w, rest) := by
      split at accepted
      · split at accepted
        · cases accepted
        · exact accepted
      · exact accepted
    have read := (afterInteger_whole zero).2
    obtain ⟨rfl, -⟩ := (integral_ok_iff _ _ _ _ _).mp read
    exact ⟨0, by simp [Text.digits, Nat.toDigits_zero], read⟩
  · next c behind nonzero =>
    split at accepted
    · next digit =>
      have notZero : c ≠ '0' := nonzero
      obtain ⟨value, count, left, gathered⟩ :
          ∃ value count left, gather (digitValue c) 1 behind = (value, count, left) :=
        ⟨_, _, _, rfl⟩
      simp only [gathered] at accepted
      obtain ⟨noMore, read⟩ := afterInteger_whole accepted
      obtain ⟨digits, rfl, same, -⟩ := digits_of_gather (digitValue_pos digit notZero) gathered
      have kept : dropDigits left = left := by
        cases left with
        | nil => rfl
        | cons d left =>
          have noDigit : ¬d.isDigit = true := by
            intro isDigit
            simp [isDigit] at noMore
          simp [dropDigits, noDigit]
      rw [kept] at read
      obtain ⟨rfl, -⟩ := (integral_ok_iff _ _ _ _ _).mp read
      have first : Text.digits (digitValue c) = [c] := by
        unfold Text.digits
        rw [Nat.toDigits_of_lt_base (digitValue_lt digit), digitChar_digitValue digit]
      rw [first] at same
      exact ⟨value, by rw [← same]; rfl, read⟩
    · cases accepted

/-- A text from which an integer is read begins with its decimal form. -/
theorem integer_of_numeral {cs rest : List Char} {w : Whole}
    (accepted : numeral cs = .ok (.whole w, rest)) : cs = Text.integer w.val ++ rest := by
  unfold numeral at accepted
  split at accepted
  · next behind =>
    obtain ⟨n, rfl, read⟩ := digits_of_unsignedNumeral accepted
    obtain ⟨-, positive, value⟩ := (integral_ok_iff _ _ _ _ _).mp read
    obtain ⟨m, rfl⟩ := Nat.exists_eq_add_of_lt (positive rfl)
    have form : w.val = Int.negSucc m := by
      rw [value]
      simp [Int.negSucc_eq]
    rw [form]
    simp [Text.integer]
  · next negative =>
    obtain ⟨n, rfl, read⟩ := digits_of_unsignedNumeral accepted
    have value : w.val = Int.ofNat n := by simpa using ((integral_ok_iff _ _ _ _ _).mp read).2.2
    rw [value]
    rfl

/-- The decimal form of a number that fits with its sign is read as that integer. -/
theorem unsignedNumeral_digits {w : Whole} (negative : Bool) (n : Nat)
    (positive : negative = true → 0 < n) (value : w.val = if negative then -(n : Int) else n)
    {rest : List Char} (ends : Ends rest) :
    unsignedNumeral negative (Text.digits n ++ rest) = .ok (.whole w, rest) := by
  have read : afterInteger negative n 0 rest = .ok (.whole w, rest) := by
    rw [afterInteger_ends ends]
    exact (integral_ok_iff _ _ _ _ _).mpr ⟨rfl, positive, value⟩
  rcases Nat.eq_zero_or_pos n with rfl | nonzero
  · have form : Text.digits 0 = ['0'] := Nat.toDigits_zero 10
    rw [form]
    cases rest with
    | nil => exact read
    | cons c rest => simpa [unsignedNumeral, ends.head.1] using read
  · obtain ⟨c, more, form, digit, notZero, all, same⟩ := digits_positive nonzero
    have fits : Nat.ofDigitChars 10 more (digitValue c) < significandBound := by
      rw [same]
      have least := w.least
      have below := w.below
      have bound : significandBound = 18446744073709551616 := rfl
      cases negative <;> simp at value <;> omega
    have gathered := gather_append all ends.noDigit 1 fits
    rw [same] at gathered
    have noMore : rest.takeWhile Char.isDigit = [] := by
      cases rest with
      | nil => rfl
      | cons d rest => simp [ends.head.1]
    have kept := dropDigits_of_noDigit ends.noDigit
    rw [form, List.cons_append]
    unfold unsignedNumeral
    split
    · next impossible => cases impossible
    · next same => exact absurd (List.cons.inj same).1 notZero
    · next d behind _ same =>
      obtain ⟨rfl, rfl⟩ := List.cons.inj same
      simp only [digit, if_true, gathered, noMore, kept, List.length_nil]
      exact read

theorem isDigit_of_mem_digits {n : Nat} {c : Char} (member : c ∈ Text.digits n) : c.isDigit = true :=
  Nat.isDigit_of_mem_toDigits (by decide) (by decide) member

/-- The decimal form of an integer is read as the integer. -/
theorem numeral_integer (w : Whole) {rest : List Char} (ends : Ends rest) :
    numeral (Text.integer w.val ++ rest) = .ok (.whole w, rest) := by
  cases form : w.val with
  | ofNat n =>
    have value : w.val = (n : Int) := form
    have read := unsignedNumeral_digits false n (by simp) (by simpa using value) ends
    have noSign : ∀ more, Text.digits n ++ rest ≠ '-' :: more := by
      intro more same
      cases digits : Text.digits n with
      | nil => exact absurd digits Nat.toDigits_ne_nil
      | cons c others =>
        rw [digits, List.cons_append] at same
        obtain ⟨rfl, -⟩ := List.cons.inj same
        have digit : '-'.isDigit = true :=
          isDigit_of_mem_digits (by rw [digits]; exact List.mem_cons_self)
        exact absurd digit (by decide)
    unfold numeral
    split
    · next same => exact absurd same (noSign _)
    · exact read
  | negSucc n =>
    exact unsignedNumeral_digits true (n + 1) (by simp) (by simp [form, Int.negSucc_eq]) ends

/-! ## Numerals of any size -/

theorem passExponent?_ends {rest : List Char} (ends : Ends rest) : passExponent? rest = .ok rest := by
  unfold passExponent?
  split
  · exact absurd rfl ends.head.2.2.1
  · exact absurd rfl ends.head.2.2.2
  · rfl

/-- A run of digits is dropped behind its first one. -/
theorem Digits.exists_cons {digits rest : List Char} (all : Digits digits) (noDigit : NoDigit rest) :
    ∃ c more, digits = c :: more ∧ c.isDigit = true ∧ dropDigits (more ++ rest) = rest := by
  obtain ⟨nonempty, all⟩ := all
  cases digits with
  | nil => exact absurd rfl nonempty
  | cons c more =>
    exact ⟨c, more, rfl, all c List.mem_cons_self,
      dropDigits_append (fun d member => all d (List.mem_cons_of_mem c member)) noDigit⟩

theorem passExponent?_append {text rest : List Char} (exponent : ExponentPart text)
    (ends : Ends rest) : passExponent? (text ++ rest) = .ok rest := by
  rcases exponent with rfl | ⟨letter, sign, digits, rfl, isLetter, isSign, all⟩
  · exact passExponent?_ends ends
  · obtain ⟨c, more, rfl, digit, dropped⟩ := all.exists_cons ends.noDigit
    have read : passExponent (sign ++ (c :: more) ++ rest) = .ok rest := by
      rcases isSign with rfl | rfl | rfl
      · have noMinus : c ≠ '-' := by
          rintro rfl
          exact absurd digit (by decide)
        have noPlus : c ≠ '+' := by
          rintro rfl
          exact absurd digit (by decide)
        simp [passExponent, noMinus, noPlus, digit, dropped]
      · simp [passExponent, digit, dropped]
      · simp [passExponent, digit, dropped]
    rcases isLetter with rfl | rfl
    · exact read
    · exact read

/-- A character that does not continue the digits of a numeral. -/
theorem ExponentPart.noDigit {text rest : List Char} (exponent : ExponentPart text)
    (ends : Ends rest) : NoDigit (text ++ rest) := by
  rcases exponent with rfl | ⟨letter, sign, digits, rfl, isLetter, _⟩
  · exact ends.noDigit
  · intro c first
    rcases isLetter with rfl | rfl
    · cases first
      decide
    · cases first
      decide

theorem passFraction_append {fraction exponent rest : List Char} (fractional : FractionPart fraction)
    (exponential : ExponentPart exponent) (ends : Ends rest) :
    passFraction (fraction ++ (exponent ++ rest)) = .ok rest := by
  have behind := passExponent?_append exponential ends
  rcases fractional with rfl | ⟨digits, rfl, all⟩
  · have noPoint : ∀ more, exponent ++ rest ≠ '.' :: more := by
      intro more same
      rcases exponential with rfl | ⟨letter, sign, digits, rfl, isLetter, _⟩
      · rw [List.nil_append] at same
        subst same
        exact ends.head.2.1 rfl
      · obtain ⟨rfl, -⟩ := List.cons.inj same
        rcases isLetter with impossible | impossible <;> exact absurd impossible (by decide)
    rw [List.nil_append]
    unfold passFraction
    split
    · next same => exact absurd same (noPoint _)
    · exact behind
  · obtain ⟨c, more, rfl, digit, dropped⟩ := all.exists_cons (exponential.noDigit ends)
    simp only [List.cons_append, passFraction, digit, if_true, dropped]
    exact behind

/-- What follows the integer part of a numeral does not continue its digits. -/
theorem FractionPart.noDigit {fraction exponent rest : List Char} (fractional : FractionPart fraction)
    (exponential : ExponentPart exponent) (ends : Ends rest) :
    NoDigit (fraction ++ (exponent ++ rest)) := by
  rcases fractional with rfl | ⟨digits, rfl, _⟩
  · exact exponential.noDigit ends
  · intro c first
    cases first
    decide

theorem passNumeral_append {integer fraction exponent rest : List Char}
    (whole : IntegerPart integer) (fractional : FractionPart fraction)
    (exponential : ExponentPart exponent) (ends : Ends rest) :
    passNumeral (integer ++ (fraction ++ (exponent ++ rest))) = .ok rest := by
  have behind := passFraction_append fractional exponential ends
  have noDigit := fractional.noDigit exponential ends
  rcases whole with rfl | ⟨all, notZero⟩
  · rw [List.singleton_append]
    unfold passNumeral
    generalize fraction ++ (exponent ++ rest) = more at behind noDigit
    cases more with
    | nil => simpa [passFraction, passExponent?] using behind
    | cons c more => simpa [noDigit c rfl] using behind
  · obtain ⟨c, more, rfl, digit, dropped⟩ := all.exists_cons noDigit
    have nonzero : c ≠ '0' := by
      rintro rfl
      exact notZero rfl
    simp only [List.cons_append, passNumeral, nonzero, digit, if_true, if_false, dropped]
    exact behind

/-- A numeral is passed over as a whole. -/
theorem passScalar_numeral {text rest : List Char} (numeral : NumeralText text) (ends : Ends rest) :
    passScalar (text ++ rest) = .ok rest := by
  obtain ⟨sign, integer, fraction, exponent, rfl, isSign, whole, fractional, exponential⟩ := numeral
  have read := passNumeral_append whole fractional exponential ends
  rcases isSign with rfl | rfl
  · obtain ⟨c, more, form, digit⟩ : ∃ c more, integer = c :: more ∧ c.isDigit = true := by
      rcases whole with rfl | ⟨⟨nonempty, all⟩, -⟩
      · exact ⟨'0', [], rfl, by decide⟩
      · cases integer with
        | nil => exact absurd rfl nonempty
        | cons c more => exact ⟨c, more, rfl, all c List.mem_cons_self⟩
    rw [form] at read ⊢
    have notLetter : c ≠ 'n' ∧ c ≠ 't' ∧ c ≠ 'f' ∧ c ≠ '"' ∧ c ≠ '-' := by
      refine ⟨?_, ?_, ?_, ?_, ?_⟩ <;>
        rintro rfl <;> exact absurd digit (by decide)
    simpa [passScalar, notLetter, digit] using read
  · simpa [passScalar] using read

/-! ### Nothing else is passed over -/

theorem digits_of_dropDigits {c : Char} (digit : c.isDigit = true) (more : List Char) :
    ∃ digits, c :: more = digits ++ dropDigits more ∧ Digits digits := by
  obtain ⟨digits, same, all, -⟩ := exists_dropDigits more
  refine ⟨c :: digits, by rw [List.cons_append, ← same], by simp, ?_⟩
  intro d member
  rcases List.mem_cons.mp member with rfl | later
  · exact digit
  · exact all d later

/-- Behind the sign of an exponent there must be digits. -/
theorem digits_of_exponent {cs rest : List Char}
    (accepted : (match cs with
      | [] => stop .badNumber [] 0
      | c :: more => if c.isDigit then .ok (dropDigits more) else stop .badNumber (c :: more) 1) =
        Except.ok rest) : ∃ digits, cs = digits ++ rest ∧ Digits digits := by
  split at accepted
  · cases accepted
  · split at accepted
    · next digit =>
      cases accepted
      exact digits_of_dropDigits digit _
    · cases accepted

theorem exponent_of_passExponent {cs rest : List Char} (accepted : passExponent cs = .ok rest) :
    ∃ sign digits, cs = sign ++ (digits ++ rest) ∧ (sign = [] ∨ sign = ['-'] ∨ sign = ['+']) ∧
      Digits digits := by
  unfold passExponent at accepted
  split at accepted
  · obtain ⟨digits, rfl, all⟩ := digits_of_exponent accepted
    exact ⟨['-'], digits, rfl, .inr (.inl rfl), all⟩
  · obtain ⟨digits, rfl, all⟩ := digits_of_exponent accepted
    exact ⟨['+'], digits, rfl, .inr (.inr rfl), all⟩
  · obtain ⟨digits, rfl, all⟩ := digits_of_exponent accepted
    exact ⟨[], digits, rfl, .inl rfl, all⟩

theorem exponent_of_passExponent? {cs rest : List Char} (accepted : passExponent? cs = .ok rest) :
    ∃ text, cs = text ++ rest ∧ ExponentPart text := by
  unfold passExponent? at accepted
  split at accepted
  · obtain ⟨sign, digits, rfl, isSign, all⟩ := exponent_of_passExponent accepted
    exact ⟨'e' :: (sign ++ digits), by simp, .inr ⟨'e', sign, digits, rfl, .inl rfl, isSign, all⟩⟩
  · obtain ⟨sign, digits, rfl, isSign, all⟩ := exponent_of_passExponent accepted
    exact ⟨'E' :: (sign ++ digits), by simp, .inr ⟨'E', sign, digits, rfl, .inr rfl, isSign, all⟩⟩
  · cases accepted
    exact ⟨[], rfl, .inl rfl⟩

theorem fraction_of_passFraction {cs rest : List Char} (accepted : passFraction cs = .ok rest) :
    ∃ fraction exponent, cs = fraction ++ (exponent ++ rest) ∧ FractionPart fraction ∧
      ExponentPart exponent := by
  unfold passFraction at accepted
  split at accepted
  · split at accepted
    · cases accepted
    · next c more =>
      split at accepted
      · next digit =>
        obtain ⟨exponent, behind, exponential⟩ := exponent_of_passExponent? accepted
        obtain ⟨digits, taken, all⟩ := digits_of_dropDigits digit more
        exact ⟨'.' :: digits, exponent, by rw [taken, behind]; simp, .inr ⟨digits, rfl, all⟩,
          exponential⟩
      · cases accepted
  · obtain ⟨exponent, rfl, exponential⟩ := exponent_of_passExponent? accepted
    exact ⟨[], exponent, rfl, .inl rfl, exponential⟩

theorem integer_of_passNumeral {cs rest : List Char} (accepted : passNumeral cs = .ok rest) :
    ∃ integer fraction exponent, cs = integer ++ (fraction ++ (exponent ++ rest)) ∧
      IntegerPart integer ∧ FractionPart fraction ∧ ExponentPart exponent := by
  unfold passNumeral at accepted
  split at accepted
  · cases accepted
  · next c behind =>
    split at accepted
    · next isZero =>
      have read : passFraction behind = .ok rest := by
        split at accepted
        · split at accepted
          · cases accepted
          · exact accepted
        · exact accepted
      obtain ⟨fraction, exponent, rfl, fractional, exponential⟩ := fraction_of_passFraction read
      exact ⟨['0'], fraction, exponent, by rw [isZero]; rfl, .inl rfl, fractional, exponential⟩
    · next notZero =>
      split at accepted
      · next digit =>
        obtain ⟨fraction, exponent, left, fractional, exponential⟩ :=
          fraction_of_passFraction accepted
        obtain ⟨digits, taken, all⟩ := digits_of_dropDigits digit behind
        refine ⟨digits, fraction, exponent, by rw [taken, left], .inr ⟨all, ?_⟩, fractional,
          exponential⟩
        intro startsWithZero
        cases digits with
        | nil => cases startsWithZero
        | cons d digits =>
          obtain ⟨rfl, -⟩ := List.cons.inj taken
          exact notZero (Option.some.inj startsWithZero)
      · cases accepted

/-- What is passed over as a numeral is one. -/
theorem numeral_of_passNumeral {cs rest : List Char} {sign : List Char}
    (isSign : sign = [] ∨ sign = ['-']) (accepted : passNumeral cs = .ok rest) :
    ∃ text, sign ++ cs = text ++ rest ∧ NumeralText text := by
  obtain ⟨integer, fraction, exponent, rfl, whole, fractional, exponential⟩ :=
    integer_of_passNumeral accepted
  exact ⟨sign ++ (integer ++ (fraction ++ exponent)), by simp,
    sign, integer, fraction, exponent, rfl, isSign, whole, fractional, exponential⟩

end Json
end TelemetryHub
