import TelemetryHub.Text.Utf8

/-!
# Texts survive as bytes

Every character is cut out of its bytes as a whole, whatever follows (`scan_character`), so a text
is decoded from its encoding (`decode?_encode`).
-/

namespace TelemetryHub.Text

/-- The first byte of a sequence by its number. -/
theorem lead_ofNat {n : Nat} (byte : n < 256) :
    lead (UInt8.ofNat n) =
      if n < 0x80 then .done (Char.ofNat n)
      else if n < 0xC2 then .bad
      else if n < 0xE0 then .more ⟨n % 0x20, 1, 0x80, 0xBF⟩
      else if n = 0xE0 then .more ⟨0, 2, 0xA0, 0xBF⟩
      else if n = 0xED then .more ⟨0xD, 2, 0x80, 0x9F⟩
      else if n < 0xF0 then .more ⟨n % 0x10, 2, 0x80, 0xBF⟩
      else if n = 0xF0 then .more ⟨0, 3, 0x90, 0xBF⟩
      else if n < 0xF4 then .more ⟨n % 0x08, 3, 0x80, 0xBF⟩
      else if n = 0xF4 then .more ⟨4, 3, 0x80, 0x8F⟩
      else .bad := by
  have value : (UInt8.ofNat n).toNat = n := by
    rw [UInt8.toNat_ofNat']
    exact Nat.mod_eq_of_lt byte
  unfold lead
  simp only [UInt8.lt_iff_toNat_lt, ← UInt8.toNat_inj, value, UInt8.reduceToNat]

section Continuing

variable {bits n : Nat} {low high : UInt8} (small : n < 64) (least : low.toNat ≤ n + 128)
  (most : n + 128 ≤ high.toNat) (rest : List UInt8)

include small least most

/-- A byte that continues a sequence gives six bits, and the last one completes it. -/
theorem scan_next (missing : Nat) :
    scan (some ⟨bits, missing, low, high⟩) (UInt8.ofNat (n + 128) :: rest) =
      if missing = 1 then some (Char.ofNat (bits * 64 + n)) :: scan none rest
      else scan (some ⟨bits * 64 + n, missing - 1, 0x80, 0xBF⟩) rest := by
  generalize given : UInt8.ofNat (n + 128) = byte
  have value : byte.toNat = n + 128 := by
    rw [← given, UInt8.toNat_ofNat']
    omega
  have within : (low ≤ byte && byte ≤ high) = true := by
    simp only [UInt8.le_iff_toNat_le, value, Bool.and_eq_true, decide_eq_true_eq]
    exact ⟨least, most⟩
  have low6 : (n + 128) % 64 = n := by omega
  rw [scan, if_pos within, value, low6]

theorem scan_last :
    scan (some ⟨bits, 1, low, high⟩) (UInt8.ofNat (n + 128) :: rest) =
      some (Char.ofNat (bits * 64 + n)) :: scan none rest := by
  rw [scan_next small least most, if_pos rfl]

theorem scan_third :
    scan (some ⟨bits, 2, low, high⟩) (UInt8.ofNat (n + 128) :: rest) =
      scan (some ⟨bits * 64 + n, 1, 0x80, 0xBF⟩) rest := by
  rw [scan_next small least most, if_neg (by decide)]

theorem scan_fourth :
    scan (some ⟨bits, 3, low, high⟩) (UInt8.ofNat (n + 128) :: rest) =
      scan (some ⟨bits * 64 + n, 2, 0x80, 0xBF⟩) rest := by
  rw [scan_next small least most, if_neg (by decide)]

end Continuing

/-- A character is cut out of its bytes, whatever stands behind them. -/
theorem scan_character (c : Char) (rest : List UInt8) :
    scan none (String.utf8EncodeChar c ++ rest) = some c :: scan none rest := by
  have scalar : c.val.toNat < 0xD800 ∨ 0xDFFF < c.val.toNat ∧ c.val.toNat < 0x110000 := c.valid
  have whole : ∀ {n : Nat}, n = c.val.toNat →
      some (Char.ofNat n) :: scan none rest = some c :: scan none rest := by
    rintro n rfl
    exact congrArg (fun d => some d :: scan none rest) (Char.ofNat_toNat c)
  have begin : ∀ {n : Nat} {bytes : List UInt8} {pending : Pending},
      lead (UInt8.ofNat n) = .more pending →
        scan none (UInt8.ofNat n :: bytes) = scan (some pending) bytes := by
    intro n bytes pending begun
    rw [scan, begun]
  have tail : ∀ n : Nat, (0x80 : UInt8).toNat ≤ n + 128 := fun n => Nat.le_add_left 128 n
  have tail' : ∀ {n : Nat}, n < 64 → n + 128 ≤ (0xBF : UInt8).toNat := fun small =>
    Nat.add_le_add_right (Nat.le_of_lt_succ small) 128
  unfold String.utf8EncodeChar
  generalize c.val.toNat = v at scalar whole ⊢
  dsimp only
  split
  · next one =>
    have done : lead (UInt8.ofNat v) = .done (Char.ofNat v) := by
      rw [lead_ofNat (by omega), if_pos (by omega)]
    rw [List.singleton_append, scan, done]
    exact whole rfl
  split
  · next two =>
    have begun : lead (UInt8.ofNat (v / 64 % 32 + 192)) = .more ⟨v / 64, 1, 0x80, 0xBF⟩ := by
      have bits : (v / 64 % 32 + 192) % 32 = v / 64 := by omega
      rw [lead_ofNat (by omega), if_neg (by omega), if_neg (by omega), if_pos (by omega), bits]
    rw [List.cons_append, List.cons_append, begin begun,
      scan_last (by omega) (tail _) (tail' (by omega))]
    exact whole (by omega)
  split
  · next three =>
    -- the second byte is confined behind the least lead and behind the one of the surrogates
    have begun : ∃ low high,
        lead (UInt8.ofNat (v / 4096 % 16 + 224)) = .more ⟨v / 4096, 2, low, high⟩ ∧
        low.toNat ≤ v / 64 % 64 + 128 ∧ v / 64 % 64 + 128 ≤ high.toNat := by
      have bits : (v / 4096 % 16 + 224) % 16 = v / 4096 := by omega
      rw [lead_ofNat (by omega), if_neg (by omega), if_neg (by omega), if_neg (by omega)]
      by_cases least : v / 4096 = 0
      · rw [if_pos (by omega), least]
        exact ⟨_, _, rfl, by change 160 ≤ _; omega, tail' (by omega)⟩
      by_cases surrogate : v / 4096 = 13
      · rw [if_neg (by omega), if_pos (by omega), surrogate]
        exact ⟨_, _, rfl, tail _, by change _ ≤ 159; omega⟩
      · rw [if_neg (by omega), if_neg (by omega), if_pos (by omega), bits]
        exact ⟨_, _, rfl, tail _, tail' (by omega)⟩
    obtain ⟨low, high, begun, least, most⟩ := begun
    rw [List.cons_append, List.cons_append, List.cons_append, begin begun,
      scan_third (by omega) least most, scan_last (by omega) (tail _) (tail' (by omega))]
    exact whole (by omega)
  · next four =>
    -- the second byte is confined behind the least and the greatest lead
    have begun : ∃ low high,
        lead (UInt8.ofNat (v / 262144 % 8 + 240)) = .more ⟨v / 262144, 3, low, high⟩ ∧
        low.toNat ≤ v / 4096 % 64 + 128 ∧ v / 4096 % 64 + 128 ≤ high.toNat := by
      have bits : (v / 262144 % 8 + 240) % 8 = v / 262144 := by omega
      rw [lead_ofNat (by omega), if_neg (by omega), if_neg (by omega), if_neg (by omega),
        if_neg (by omega), if_neg (by omega), if_neg (by omega)]
      by_cases least : v / 262144 = 0
      · rw [if_pos (by omega), least]
        exact ⟨_, _, rfl, by change 144 ≤ _; omega, tail' (by omega)⟩
      by_cases greatest : v / 262144 = 4
      · rw [if_neg (by omega), if_neg (by omega), if_pos (by omega), greatest]
        exact ⟨_, _, rfl, tail _, by change _ ≤ 143; omega⟩
      · rw [if_neg (by omega), if_pos (by omega), bits]
        exact ⟨_, _, rfl, tail _, tail' (by omega)⟩
    obtain ⟨low, high, begun, least, most⟩ := begun
    rw [List.cons_append, List.cons_append, List.cons_append, List.cons_append, begin begun,
      scan_fourth (by omega) least most, scan_third (by omega) (tail _) (tail' (by omega)),
      scan_last (by omega) (tail _) (tail' (by omega))]
    exact whole (by omega)

theorem encode_cons (c : Char) (cs : List Char) : encode (c :: cs) = String.utf8EncodeChar c ++ encode cs :=
  List.flatMap_cons

theorem encode_append (first second : List Char) : encode (first ++ second) = encode first ++ encode second :=
  List.flatMap_append

theorem scan_encode (cs : List Char) : scan none (encode cs) = cs.map some := by
  induction cs with
  | nil => rfl
  | cons c cs ih =>
    rw [encode_cons, scan_character, ih]
    rfl

/-- Every text is decoded from its bytes. -/
theorem decode?_encode (cs : List Char) : decode? (encode cs) = some cs := by
  unfold decode?
  rw [scan_encode]
  induction cs with
  | nil => rfl
  | cons c cs ih => simp [List.mapM_cons, ih]

theorem decodeLossy_encode (cs : List Char) : decodeLossy (encode cs) = cs := by
  unfold decodeLossy
  rw [scan_encode, List.map_map]
  exact List.map_id'' (fun _ => rfl) cs

/-- A byte below 128 is a character of its own. -/
theorem toNat_of_mem_utf8EncodeChar {c : Char} {byte : UInt8} (isIn : byte ∈ String.utf8EncodeChar c)
    (small : byte.toNat < 128) : c.toNat = byte.toNat := by
  have scalar : c.val.toNat < 0xD800 ∨ 0xDFFF < c.val.toNat ∧ c.val.toNat < 0x110000 := c.valid
  have ofNat : ∀ {n : Nat}, byte = UInt8.ofNat n → byte.toNat = n % 256 := by
    rintro n rfl
    exact UInt8.toNat_ofNat'
  change c.val.toNat = byte.toNat
  unfold String.utf8EncodeChar at isIn
  generalize c.val.toNat = v at scalar isIn ⊢
  dsimp only at isIn
  split at isIn
  · have value := ofNat (List.mem_singleton.mp isIn)
    omega
  split at isIn
  · simp only [List.mem_cons, List.not_mem_nil, or_false] at isIn
    rcases isIn with same | same <;> have value := ofNat same <;> omega
  split at isIn
  · simp only [List.mem_cons, List.not_mem_nil, or_false] at isIn
    rcases isIn with same | same | same <;> have value := ofNat same <;> omega
  · simp only [List.mem_cons, List.not_mem_nil, or_false] at isIn
    rcases isIn with same | same | same | same <;> have value := ofNat same <;> omega

theorem exists_of_mem_encode {cs : List Char} {byte : UInt8} (isIn : byte ∈ encode cs)
    (small : byte.toNat < 128) : ∃ c ∈ cs, c.toNat = byte.toNat := by
  obtain ⟨c, cIn, byteIn⟩ := List.mem_flatMap.mp isIn
  exact ⟨c, cIn, toNat_of_mem_utf8EncodeChar byteIn small⟩

theorem utf8EncodeChar_ne_nil (c : Char) : String.utf8EncodeChar c ≠ [] := by
  unfold String.utf8EncodeChar
  dsimp only
  split
  · simp
  split
  · simp
  split <;> simp

/-- The last byte of a text is below 128 only if it is its last character. -/
theorem getLast?_of_encode {cs : List Char} {byte : UInt8} (last : (encode cs).getLast? = some byte)
    (small : byte.toNat < 128) : ∃ c, cs.getLast? = some c ∧ c.toNat = byte.toNat := by
  rcases List.eq_nil_or_concat cs with rfl | ⟨front, c, rfl⟩
  · cases last
  · refine ⟨c, by simp, toNat_of_mem_utf8EncodeChar (List.mem_of_getLast? ?_) small⟩
    have single : encode [c] = String.utf8EncodeChar c := (encode_cons c []).trans (List.append_nil _)
    rw [List.concat_eq_append, encode_append, single, List.getLast?_append] at last
    cases found : (String.utf8EncodeChar c).getLast? with
    | none => exact absurd (List.getLast?_eq_none_iff.mp found) (utf8EncodeChar_ne_nil c)
    | some final =>
      rw [found] at last
      exact last

end TelemetryHub.Text
