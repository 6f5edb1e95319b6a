import TelemetryHub.Proofs.Json.Grammar

/-!
# Strings are read exactly

Both readers of strings take exactly what the grammar says: `string_ok_iff` for the one that returns
the characters, `passString_ok_iff` for the one that passes over them. The loops are bounded by the
room they are given, so their lemmas ask for a room that is longer than the string.
-/

namespace TelemetryHub.Json

open Text (hexValue?)

/-! ## Code units -/

theorem utf8Size_of_hexValue? {c : Char} {n : Nat} (digit : hexValue? c = some n) :
    c.utf8Size = 1 := by
  have small : c.toNat ≤ 127 := by
    unfold hexValue? at digit
    split at digit
    · next decimal =>
      simp only [Char.isDigit, Bool.and_eq_true, decide_eq_true_eq] at decimal
      have bound := UInt32.le_iff_toNat_le.mp decimal.2
      exact Nat.le_trans bound (by decide)
    split at digit
    · next lower =>
      simp only [Bool.and_eq_true, decide_eq_true_eq] at lower
      have bound := UInt32.le_iff_toNat_le.mp lower.2
      exact Nat.le_trans bound (by decide)
    split at digit
    · next upper =>
      simp only [Bool.and_eq_true, decide_eq_true_eq] at upper
      have bound := UInt32.le_iff_toNat_le.mp upper.2
      exact Nat.le_trans bound (by decide)
    · cases digit
  have asWord : c.val ≤ 127 := UInt32.le_iff_toNat_le.mpr small
  exact Char.utf8Size_eq_one_iff.mpr asWord

/-- Reading a code unit takes four hexadecimal digits. -/
theorem codeUnit_ok_iff (cs rest : List Char) (unit : Nat) :
    codeUnit cs = .ok (unit, rest) ↔ ∃ digits, cs = digits ++ rest ∧ CodeUnit digits unit := by
  constructor
  · intro accepted
    unfold codeUnit at accepted
    split at accepted
    · cases accepted
    split at accepted
    · next a b c d more =>
      split at accepted
      · next i j k l readsA readsB readsC readsD =>
        cases accepted
        exact ⟨[_, _, _, _], rfl, _, _, _, _, i, j, k, l, rfl, readsA, readsB, readsC, readsD, rfl⟩
      · cases accepted
    · cases accepted
  · rintro ⟨_, rfl, a, b, c, d, i, j, k, l, rfl, readsA, readsB, readsC, readsD, rfl⟩
    have enough : Text.byteLength [a, b, c, d] = 4 := by
      simp [Text.byteLength, utf8Size_of_hexValue? readsA, utf8Size_of_hexValue? readsB,
        utf8Size_of_hexValue? readsC, utf8Size_of_hexValue? readsD]
    simp [codeUnit, enough, readsA, readsB, readsC, readsD]

/-- The second half of a pair is an escaped trailing code unit. -/
theorem trailingUnit_ok_iff (leading : Nat) (cs rest : List Char) (c : Char) :
    trailingUnit leading cs = .ok (c, rest) ↔ ∃ digits unit, cs = '\\' :: 'u' :: (digits ++ rest) ∧
      CodeUnit digits unit ∧ isTrailing unit = true ∧ c = pairChar leading unit := by
  constructor
  · intro accepted
    unfold trailingUnit at accepted
    split at accepted
    · cases accepted
    · split at accepted
      · cases accepted
      · split at accepted
        · cases accepted
        · next unit _ unitRead =>
          obtain ⟨digits, rfl, reads⟩ := (codeUnit_ok_iff _ _ _).mp unitRead
          split at accepted
          · next trailing =>
            simp only [Except.ok.injEq, Prod.mk.injEq] at accepted
            obtain ⟨paired, rfl⟩ := accepted
            exact ⟨digits, unit, rfl, reads, trailing, paired.symm⟩
          · cases accepted
      · cases accepted
    · cases accepted
  · rintro ⟨digits, unit, rfl, reads, trailing, paired⟩
    have unitRead := (codeUnit_ok_iff (digits ++ rest) rest unit).mpr ⟨digits, rfl, reads⟩
    simp [trailingUnit, unitRead, trailing, paired]

/-! ## Escapes -/

theorem shortEscape?_u : shortEscape? 'u' = none := by decide

theorem escape_ok_iff (cs rest : List Char) (d : Char) :
    escape cs = .ok (d, rest) ↔ ∃ text, cs = text ++ rest ∧ EscapeText text d := by
  constructor
  · intro accepted
    unfold escape at accepted
    split at accepted
    · cases accepted
    · next c more =>
      split at accepted
      · next known =>
        cases accepted
        exact ⟨[c], rfl, .short known⟩
      split at accepted
      · next isU =>
        subst isU
        split at accepted
        · cases accepted
        · next unit behind unitRead =>
          obtain ⟨digits, rfl, reads⟩ := (codeUnit_ok_iff _ _ _).mp unitRead
          split at accepted
          · cases accepted
          · next notTrailing =>
            split at accepted
            · next leading =>
              obtain ⟨low, n, rfl, second, trailing, paired⟩ :=
                (trailingUnit_ok_iff _ _ _ _).mp accepted
              rw [paired]
              exact ⟨_, by simp, .pair reads leading second trailing⟩
            · next notLeading =>
              cases accepted
              exact ⟨'u' :: digits, rfl, .unit reads (Bool.eq_false_iff.mpr notTrailing)
                (Bool.eq_false_iff.mpr notLeading)⟩
      · cases accepted
  · rintro ⟨text, rfl, reads⟩
    cases reads with
    | short known => simp [escape, known]
    | @unit digits n reads notTrailing notLeading =>
      have unitRead := (codeUnit_ok_iff (digits ++ rest) rest n).mpr ⟨digits, rfl, reads⟩
      simp [escape, shortEscape?_u, unitRead, notTrailing, notLeading]
    | @pair high low m n first leading second trailing =>
      have unitRead := (codeUnit_ok_iff (high ++ '\\' :: 'u' :: (low ++ rest)) _ m).mpr
        ⟨high, rfl, first⟩
      have pairRead := (trailingUnit_ok_iff m ('\\' :: 'u' :: (low ++ rest)) rest _).mpr
        ⟨low, n, rfl, second, trailing, rfl⟩
      have notTrailing : isTrailing m = false := by
        simp only [isLeading, isTrailing, Bool.and_eq_true, decide_eq_true_eq] at leading ⊢
        simp only [Bool.and_eq_false_iff, decide_eq_false_iff_not]
        omega
      simp [escape, shortEscape?_u, unitRead, notTrailing, leading, pairRead]

/-! ## Strings with their characters -/

/-- The loop takes the inside of a string and its closing quote. -/
theorem stringFrom_body {text value : List Char} (body : StringBody text value) :
    ∀ (taken room rest : List Char), text.length < room.length →
      stringFrom taken room (text ++ '"' :: rest) = .ok (taken.reverse ++ value, rest) := by
  induction body with
  | nil =>
    intro taken room rest enough
    obtain ⟨_, room, rfl⟩ := List.exists_cons_of_length_pos enough
    simp [stringFrom]
  | @plain c text value visible more ih =>
    intro taken room rest enough
    obtain ⟨_, room, rfl⟩ := List.exists_cons_of_length_pos (Nat.zero_lt_of_lt enough)
    have small : ¬c.toNat < 0x20 := Nat.not_lt.mpr visible.2.2
    simp only [List.cons_append, stringFrom, visible.1, visible.2.1, small, if_false]
    rw [ih _ _ _ (by simpa using enough)]
    simp
  | @escaped d shown text value reads more ih =>
    intro taken room rest enough
    obtain ⟨_, room, rfl⟩ := List.exists_cons_of_length_pos (Nat.zero_lt_of_lt enough)
    have read := (escape_ok_iff (shown ++ (text ++ '"' :: rest)) _ d).mpr ⟨shown, rfl, reads⟩
    have notQuote : '\\' ≠ '"' := by decide
    simp only [List.cons_append, List.append_assoc, stringFrom, read, notQuote, if_true, if_false]
    rw [ih _ _ _ (by simp at enough; omega)]
    simp

/-- Whatever the loop takes is the inside of a string with its closing quote. -/
theorem body_of_stringFrom {room taken cs value rest : List Char}
    (accepted : stringFrom taken room cs = .ok (value, rest)) :
    ∃ text tail, cs = text ++ '"' :: rest ∧ value = taken.reverse ++ tail ∧ StringBody text tail := by
  induction room generalizing taken cs with
  | nil => cases cs <;> simp [stringFrom, stop] at accepted
  | cons _ room ih =>
    cases cs with
    | nil => simp [stringFrom, stop] at accepted
    | cons c cs =>
      unfold stringFrom at accepted
      split at accepted
      · next isQuote =>
        cases accepted
        exact ⟨[], [], by rw [isQuote]; rfl, by simp, .nil⟩
      · next notQuote =>
        split at accepted
        · next isBackslash =>
          split at accepted
          · next d behind read =>
            obtain ⟨shown, rfl, reads⟩ := (escape_ok_iff _ _ _).mp read
            obtain ⟨text, tail, rfl, rfl, body⟩ := ih accepted
            exact ⟨'\\' :: (shown ++ text), d :: tail, by simp [isBackslash], by simp,
              .escaped reads body⟩
          · cases accepted
        · next notBackslash =>
          split at accepted
          · cases accepted
          · next visible =>
            obtain ⟨text, tail, rfl, rfl, body⟩ := ih accepted
            exact ⟨c :: text, c :: tail, rfl, by simp,
              .plain ⟨notQuote, notBackslash, Nat.not_lt.mp visible⟩ body⟩

/-- Reading a string behind its opening quote takes its inside and its closing quote. -/
theorem string_ok_iff (cs rest : List Char) (s : String) :
    string cs = .ok (s, rest) ↔ ∃ body, cs = body ++ '"' :: rest ∧ StringBody body s.toList := by
  unfold string
  constructor
  · intro accepted
    split at accepted
    · next value behind read =>
      cases accepted
      obtain ⟨text, tail, same, rfl, body⟩ := body_of_stringFrom read
      exact ⟨text, same, by simpa using body⟩
    · cases accepted
  · rintro ⟨body, rfl, reads⟩
    rw [stringFrom_body reads [] _ rest (by simp)]
    simp

/-! ## Strings by their syntax -/

theorem LooseEscape.eq_cons {text : List Char} (reads : LooseEscape text) :
    ∃ d digits, text = d :: digits ∧ ((shortEscape? d).isSome = true ∧ digits = [] ∨
      shortEscape? d = none ∧ d = 'u' ∧ ∃ n, CodeUnit digits n) := by
  cases reads with
  | @short c known => exact ⟨c, [], rfl, .inl ⟨known, rfl⟩⟩
  | @unit digits n reads => exact ⟨'u', digits, rfl, .inr ⟨shortEscape?_u, rfl, n, reads⟩⟩

/-- The loop passes over the inside of a string and its closing quote. -/
theorem passString_body {text : List Char} (body : LooseBody text) :
    ∀ room rest : List Char, text.length < room.length →
      passString room (text ++ '"' :: rest) = .ok rest := by
  induction body with
  | nil =>
    intro room rest enough
    obtain ⟨_, room, rfl⟩ := List.exists_cons_of_length_pos enough
    simp [passString]
  | @plain c text visible more ih =>
    intro room rest enough
    obtain ⟨_, room, rfl⟩ := List.exists_cons_of_length_pos (Nat.zero_lt_of_lt enough)
    have small : ¬c.toNat < 0x20 := Nat.not_lt.mpr visible.2.2
    simp only [List.cons_append, passString, visible.1, visible.2.1, small, if_false]
    exact ih _ _ (by simpa using enough)
  | @escaped shown text reads more ih =>
    intro room rest enough
    obtain ⟨_, room, rfl⟩ := List.exists_cons_of_length_pos (Nat.zero_lt_of_lt enough)
    have notQuote : '\\' ≠ '"' := by decide
    obtain ⟨d, digits, rfl, ⟨known, rfl⟩ | ⟨unknown, rfl, n, unit⟩⟩ := reads.eq_cons
    · simp only [List.cons_append, List.nil_append, passString, notQuote, known, if_true, if_false]
      exact ih _ _ (by simp at enough; omega)
    · have read := (codeUnit_ok_iff (digits ++ (text ++ '"' :: rest)) _ n).mpr ⟨digits, rfl, unit⟩
      simp only [List.cons_append, List.append_assoc, passString, notQuote, unknown, read, if_true,
        if_false, Option.isSome_none, Bool.false_eq_true]
      exact ih _ _ (by simp at enough; omega)

/-- Whatever the loop passes over is the inside of a string with its closing quote. -/
theorem body_of_passString {room cs rest : List Char} (accepted : passString room cs = .ok rest) :
    ∃ text, cs = text ++ '"' :: rest ∧ LooseBody text := by
  induction room generalizing cs with
  | nil => cases cs <;> simp [passString, stop] at accepted
  | cons _ room ih =>
    cases cs with
    | nil => simp [passString, stop] at accepted
    | cons c cs =>
      unfold passString at accepted
      split at accepted
      · next isQuote =>
        cases accepted
        exact ⟨[], by rw [isQuote]; rfl, .nil⟩
      · next notQuote =>
        split at accepted
        · next isBackslash =>
          split at accepted
          · cases accepted
          · next d behind =>
            split at accepted
            · next known =>
              obtain ⟨text, rfl, body⟩ := ih accepted
              exact ⟨'\\' :: d :: text, by simp [isBackslash], .escaped (.short known) body⟩
            · split at accepted
              · next isU =>
                split at accepted
                · next n more read =>
                  obtain ⟨digits, rfl, unit⟩ := (codeUnit_ok_iff _ _ _).mp read
                  obtain ⟨text, rfl, body⟩ := ih accepted
                  exact ⟨'\\' :: 'u' :: (digits ++ text), by simp [isBackslash, isU],
                    .escaped (.unit unit) body⟩
                · cases accepted
              · cases accepted
        · next notBackslash =>
          split at accepted
          · cases accepted
          · next visible =>
            obtain ⟨text, rfl, body⟩ := ih accepted
            exact ⟨c :: text, rfl, .plain ⟨notQuote, notBackslash, Nat.not_lt.mp visible⟩ body⟩

/-- Passing over a string behind its opening quote takes its inside and its closing quote. -/
theorem passString_ok_iff (cs rest : List Char) :
    passString cs cs = .ok rest ↔ ∃ body, cs = body ++ '"' :: rest ∧ LooseBody body := by
  constructor
  · exact body_of_passString
  · rintro ⟨body, rfl, reads⟩
    exact passString_body reads _ rest (by simp)

end TelemetryHub.Json
