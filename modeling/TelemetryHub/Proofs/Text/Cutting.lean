import TelemetryHub.Proofs.Text.Utf8
import TelemetryHub.Text.Basic

/-!
# Where the bytes of a text can be cut

A cut between two bytes of a text is one between two of its characters, or inside one (`cut_encode`). The
bytes of a character that is cut are read as replacement characters on both sides: exactly one in front of
the cut, and at least one behind it. So what is read in front of a cut is the front of the text and perhaps
a replacement character (`Cut.decode_front`), and what is read behind it is the rest of the text or begins
with a replacement character (`Cut.decode_back`).
-/

namespace TelemetryHub.Text

/-! ## Cuts inside a character -/

theorem scan_pending_ne_nil (pending : Pending) (bytes : List UInt8) : scan (some pending) bytes ≠ [] := by
  induction bytes generalizing pending with
  | nil => exact List.cons_ne_nil _ _
  | cons byte bytes ih =>
    rw [scan]
    split
    · dsimp only
      split
      · exact List.cons_ne_nil _ _
      · exact ih _
    · exact List.cons_ne_nil _ _

/-- Bytes do not pass without a trace. -/
theorem scan_ne_nil {bytes : List UInt8} (nonempty : bytes ≠ []) (pending? : Option Pending) :
    scan pending? bytes ≠ [] := by
  cases pending? with
  | some pending => exact scan_pending_ne_nil pending bytes
  | none =>
    obtain ⟨byte, bytes, rfl⟩ := List.exists_cons_of_ne_nil nonempty
    rw [scan]
    split
    · exact List.cons_ne_nil _ _
    · exact scan_pending_ne_nil _ _
    · exact List.cons_ne_nil _ _

/-- Behind bytes the cut goes on from where they leave it, whatever follows. -/
theorem exists_scan_append (pending? : Option Pending) (front : List UInt8) :
    ∃ units after, ∀ back, scan pending? (front ++ back) = units ++ scan after back := by
  induction front generalizing pending? with
  | nil => exact ⟨[], pending?, fun _ => rfl⟩
  | cons byte front ih =>
    have afresh : ∃ units after, ∀ back, scan none (byte :: (front ++ back)) = units ++ scan after back := by
      cases first : lead byte with
      | done c =>
        obtain ⟨units, after, same⟩ := ih none
        exact ⟨some c :: units, after, fun back => by rw [scan, first]; exact congrArg _ (same back)⟩
      | more pending =>
        obtain ⟨units, after, same⟩ := ih (some pending)
        exact ⟨units, after, fun back => by rw [scan, first]; exact same back⟩
      | bad =>
        obtain ⟨units, after, same⟩ := ih none
        exact ⟨none :: units, after, fun back => by rw [scan, first]; exact congrArg _ (same back)⟩
    cases pending? with
    | none => exact afresh
    | some pending =>
      by_cases continues : (pending.low ≤ byte && byte ≤ pending.high) = true
      · by_cases last : pending.missing = 1
        · obtain ⟨units, after, same⟩ := ih none
          refine ⟨some (Char.ofNat (pending.bits * 0x40 + byte.toNat % 0x40)) :: units, after, fun back => ?_⟩
          rw [List.cons_append, scan, if_pos continues]
          dsimp only
          rw [if_pos last]
          exact congrArg _ (same back)
        · obtain ⟨units, after, same⟩ := ih
            (some ⟨pending.bits * 0x40 + byte.toNat % 0x40, pending.missing - 1, 0x80, 0xBF⟩)
          refine ⟨units, after, fun back => ?_⟩
          rw [List.cons_append, scan, if_pos continues]
          dsimp only
          rw [if_neg last]
          exact same back
      · obtain ⟨units, after, same⟩ := afresh
        refine ⟨none :: units, after, fun back => ?_⟩
        rw [List.cons_append, scan, if_neg continues, List.cons_append, ← same back]
        exact congrArg _ rfl

/-- The bytes of a character behind its first one are those that continue a sequence. -/
theorem continues_of_mem_tail {c : Char} {byte : UInt8} (isIn : byte ∈ (String.utf8EncodeChar c).tail) :
    0x80 ≤ byte.toNat ∧ byte.toNat < 0xC0 := by
  have ofNat : ∀ {n : Nat}, byte = UInt8.ofNat n → byte.toNat = n % 256 := by
    rintro n rfl
    exact UInt8.toNat_ofNat'
  unfold String.utf8EncodeChar at isIn
  generalize c.val.toNat = v at isIn
  dsimp only at isIn
  split at isIn
  · cases isIn
  split at isIn
  · have value := ofNat (List.mem_singleton.mp isIn)
    omega
  split at isIn
  · simp only [List.tail_cons, List.mem_cons, List.not_mem_nil, or_false] at isIn
    rcases isIn with same | same <;> have value := ofNat same <;> omega
  · simp only [List.tail_cons, List.mem_cons, List.not_mem_nil, or_false] at isIn
    rcases isIn with same | same | same <;> have value := ofNat same <;> omega

theorem lead_of_continues {byte : UInt8} (continues : 0x80 ≤ byte.toNat ∧ byte.toNat < 0xC0) :
    lead byte = .bad := by
  have same : UInt8.ofNat byte.toNat = byte := by simp
  rw [← same, lead_ofNat (by omega), if_neg (by omega), if_pos (by omega)]

section Character

variable {c : Char} {front back : List UInt8} (parts : front ++ back = String.utf8EncodeChar c)
  (begun : front ≠ []) (more : back ≠ [])

include parts begun more

/-- In front of a cut inside a character there is a sequence that has begun. -/
theorem scan_front : scan none front = [none] := by
  obtain ⟨units, after, same⟩ := exists_scan_append none front
  have whole : units ++ scan after back = [some c] := by
    rw [← same, parts, ← List.append_nil (String.utf8EncodeChar c), scan_character]
    rfl
  have nothing : units = [] := by
    rcases List.append_eq_singleton_iff.mp whole with ⟨nothing, -⟩ | ⟨-, none⟩
    · exact nothing
    · exact absurd none (scan_ne_nil more after)
  have here := same []
  rw [List.append_nil, nothing, List.nil_append] at here
  cases after with
  | none => exact absurd here (scan_ne_nil begun none)
  | some pending => exact here

/-- Behind a cut inside a character there is a byte that begins no sequence. -/
theorem scan_back (rest : List UInt8) : ∃ units, scan none (back ++ rest) = none :: units := by
  obtain ⟨first, front, rfl⟩ := List.exists_cons_of_ne_nil begun
  obtain ⟨byte, back, rfl⟩ := List.exists_cons_of_ne_nil more
  have behind : byte ∈ (String.utf8EncodeChar c).tail := by
    rw [← parts]
    exact List.mem_append_right front List.mem_cons_self
  have bad : lead byte = .bad := lead_of_continues (continues_of_mem_tail behind)
  rw [List.cons_append, scan, bad]
  exact ⟨_, rfl⟩

end Character

/-! ## Cuts of a text -/

/-- All ways in which the bytes of a text can be cut. -/
inductive Cut (cs : List Char) : List UInt8 → List UInt8 → Prop where
  | between {front back : List Char} (parts : cs = front ++ back) : Cut cs (encode front) (encode back)
  | inside {front back : List Char} {c : Char} {begun more : List UInt8} (parts : cs = front ++ c :: back)
      (bytes : begun ++ more = String.utf8EncodeChar c) (nonempty : begun ≠ []) (nonempty' : more ≠ []) :
      Cut cs (encode front ++ begun) (more ++ encode back)

/-- A character in front of the cut. -/
theorem Cut.cons {cs : List Char} {front back : List UInt8} (cut : Cut cs front back) (c : Char) :
    Cut (c :: cs) (String.utf8EncodeChar c ++ front) back := by
  cases cut with
  | @between front back parts =>
    rw [← encode_cons]
    exact .between (by rw [parts]; rfl)
  | @inside front back d begun more parts bytes nonempty nonempty' =>
    rw [← List.append_assoc, ← encode_cons]
    exact .inside (by rw [parts]; rfl) bytes nonempty nonempty'

theorem cut_encode (cs : List Char) (n : Nat) : Cut cs ((encode cs).take n) ((encode cs).drop n) := by
  induction cs generalizing n with
  | nil =>
    have nothing : Cut [] (encode []) (encode []) := .between rfl
    simpa [encode] using nothing
  | cons c cs ih =>
    rw [encode_cons]
    rcases Nat.eq_zero_or_pos n with rfl | positive
    · have first : Cut (c :: cs) (encode []) (encode (c :: cs)) := .between rfl
      simpa [encode] using first
    rcases Nat.lt_or_ge n (String.utf8EncodeChar c).length with within | beyond
    · have inside : Cut (c :: cs) (encode [] ++ (String.utf8EncodeChar c).take n)
          ((String.utf8EncodeChar c).drop n ++ encode cs) := by
        refine .inside rfl (List.take_append_drop n _) (fun nothing => ?_) fun nothing => ?_
        · rcases List.take_eq_nil_iff.mp nothing with zero | empty
          · exact absurd zero (Nat.ne_of_gt positive)
          · exact utf8EncodeChar_ne_nil c empty
        · exact absurd (List.drop_eq_nil_iff.mp nothing) (Nat.not_le.mpr within)
      rw [List.take_append_of_le_length (Nat.le_of_lt within),
        List.drop_append_of_le_length (Nat.le_of_lt within)]
      exact inside
    · rw [List.take_append, List.drop_append, List.take_of_length_le beyond, List.drop_of_length_le beyond,
        List.nil_append]
      exact (ih _).cons c

/-! ## What is read on both sides of a cut -/

theorem scan_encode_append (cs : List Char) (bytes : List UInt8) :
    scan none (encode cs ++ bytes) = cs.map some ++ scan none bytes := by
  induction cs with
  | nil => rfl
  | cons c cs ih =>
    rw [encode_cons, List.append_assoc, scan_character, ih]
    rfl

theorem decodeLossy_encode_append (cs : List Char) (bytes : List UInt8) :
    decodeLossy (encode cs ++ bytes) = cs ++ decodeLossy bytes := by
  unfold decodeLossy
  rw [scan_encode_append, List.map_append, List.map_map]
  exact congrArg (· ++ _) (List.map_id'' (fun _ => rfl) cs)

/-- In front of a cut the front of the text is read, and perhaps a replacement character. -/
theorem Cut.decode_front {cs : List Char} {front back : List UInt8} (cut : Cut cs front back)
    (more : back ≠ []) : ∃ front' back', cs = front' ++ back' ∧ back' ≠ [] ∧
      (decodeLossy front = front' ∨ decodeLossy front = front' ++ ['\uFFFD']) := by
  cases cut with
  | @between front back parts =>
    refine ⟨front, back, parts, ?_, .inl (decodeLossy_encode front)⟩
    rintro rfl
    exact more rfl
  | @inside front back c begun rest parts bytes nonempty nonempty' =>
    refine ⟨front, c :: back, parts, List.cons_ne_nil _ _, .inr ?_⟩
    rw [decodeLossy_encode_append]
    unfold decodeLossy
    rw [scan_front bytes nonempty nonempty']
    rfl

/-- Behind a cut the rest of the text is read, or a replacement character comes first. -/
theorem Cut.decode_back {cs : List Char} {front back : List UInt8} (cut : Cut cs front back)
    (begun : front ≠ []) (tail : List UInt8) :
    (∃ front' back', cs = front' ++ back' ∧ front' ≠ [] ∧
      decodeLossy (back ++ tail) = back' ++ decodeLossy tail) ∨
    ∃ others, decodeLossy (back ++ tail) = '\uFFFD' :: others := by
  cases cut with
  | @between front back parts =>
    refine .inl ⟨front, back, parts, ?_, decodeLossy_encode_append back tail⟩
    rintro rfl
    exact begun rfl
  | @inside front back c part rest parts bytes nonempty nonempty' =>
    right
    obtain ⟨units, same⟩ := scan_back bytes nonempty nonempty' (encode back ++ tail)
    unfold decodeLossy
    rw [List.append_assoc, same]
    exact ⟨_, rfl⟩

/-! ## The ends of what is read -/

/-- Trimming takes away blanks at both ends. -/
theorem exists_trim (cs : List Char) : ∃ before behind, cs = before ++ (trim cs ++ behind) ∧
    (∀ c ∈ before, isBlank c = true) ∧ ∀ c ∈ behind, isBlank c = true := by
  refine ⟨cs.takeWhile isBlank, ((cs.dropWhile isBlank).reverse.takeWhile isBlank).reverse, ?_,
    List.all_eq_true.mp List.all_takeWhile,
    fun c isIn => List.all_eq_true.mp List.all_takeWhile c (List.mem_reverse.mp isIn)⟩
  unfold trim trimEnd
  rw [← List.reverse_append, List.takeWhile_append_dropWhile, List.reverse_reverse,
    List.takeWhile_append_dropWhile]

theorem eq_nil_of_visible_head {blanks rest : List Char} {c : Char} (blank : ∀ d ∈ blanks, isBlank d = true)
    (first : (blanks ++ rest).head? = some c) (visible : isBlank c = false) : blanks = [] := by
  cases blanks with
  | nil => rfl
  | cons d blanks =>
    cases first
    exact absurd (blank c List.mem_cons_self) (by simp [visible])

theorem eq_nil_of_visible_last {front blanks : List Char} {c : Char} (blank : ∀ d ∈ blanks, isBlank d = true)
    (last : (front ++ blanks).getLast? = some c) (visible : isBlank c = false) : blanks = [] := by
  rcases List.eq_nil_or_concat blanks with nothing | ⟨blanks, d, rfl⟩
  · exact nothing
  · have isLast : d = c := by simpa using last
    exact absurd (blank d (by simp)) (by simp [isLast, visible])

/-- A text that begins with a visible character begins with what is left of it. -/
theorem exists_trim_append {cs : List Char} {c : Char} (first : cs.head? = some c)
    (visible : isBlank c = false) : ∃ behind, cs = trim cs ++ behind ∧ trim cs ≠ [] := by
  obtain ⟨before, behind, same, blank, blank'⟩ := exists_trim cs
  rw [eq_nil_of_visible_head blank (same ▸ first) visible, List.nil_append] at same
  refine ⟨behind, same, fun nothing => ?_⟩
  rw [nothing, List.nil_append] at same
  have isIn : c ∈ behind := same ▸ List.mem_of_mem_head? first
  exact absurd (blank' c isIn) (by simp [visible])

/-- A text that ends with a visible character ends with what is left of it. -/
theorem exists_append_trim {cs : List Char} {c : Char} (last : cs.getLast? = some c)
    (visible : isBlank c = false) : ∃ before, cs = before ++ trim cs ∧ trim cs ≠ [] := by
  obtain ⟨before, behind, same, blank, blank'⟩ := exists_trim cs
  rw [← List.append_assoc] at same
  rw [eq_nil_of_visible_last blank' (same ▸ last) visible, List.append_nil] at same
  refine ⟨before, same, fun nothing => ?_⟩
  rw [nothing, List.append_nil] at same
  have isIn : c ∈ before := same ▸ List.mem_of_getLast? last
  exact absurd (blank c isIn) (by simp [visible])

/-- Nothing is taken away from a text that is visible at both ends. -/
theorem trim_eq_self {cs : List Char} {c d : Char} (first : cs.head? = some c) (visible : isBlank c = false)
    (last : cs.getLast? = some d) (visible' : isBlank d = false) : trim cs = cs := by
  obtain ⟨before, behind, same, blank, blank'⟩ := exists_trim cs
  rw [eq_nil_of_visible_head blank (same ▸ first) visible, List.nil_append] at same
  rw [eq_nil_of_visible_last blank' (same ▸ last) visible', List.append_nil] at same
  exact same.symm

theorem trim_append_blanks (cs : List Char) {blanks : List Char} (blank : ∀ c ∈ blanks, isBlank c = true) :
    trim (cs ++ blanks) = trim cs := by
  have reversed : ∀ c ∈ blanks.reverse, isBlank c = true := fun c isIn => blank c (List.mem_reverse.mp isIn)
  have atEnd : ∀ text, trimEnd (text ++ blanks) = trimEnd text := by
    intro text
    unfold trimEnd
    rw [List.reverse_append, List.dropWhile_append_of_pos reversed]
  unfold trim
  rw [List.dropWhile_append]
  split
  · next nothing =>
    rw [List.isEmpty_iff.mp nothing, (dropBlanks_eq_nil_iff blanks).mpr blank]
  · exact atEnd _

/-- Bytes are what is left of them without the end of a line, and that end. -/
theorem exists_terminator (bytes : List UInt8) :
    ∃ terminator, bytes = stripTerminator bytes ++ terminator ∧ terminator.length ≤ 2 := by
  unfold stripTerminator
  split
  · next front same => exact ⟨[0x0D, 0x0A], by rw [← List.reverse_reverse bytes, same]; simp, Nat.le_refl 2⟩
  · next front _ same => exact ⟨[0x0A], by rw [← List.reverse_reverse bytes, same]; simp, by decide⟩
  · exact ⟨[], (List.append_nil _).symm, Nat.zero_le 2⟩

/-- Bytes that end with another byte are left as they are. -/
theorem stripTerminator_of_ne {bytes : List UInt8} (last : bytes.getLast? ≠ some 0x0A) :
    stripTerminator bytes = bytes := by
  have other : ∀ front, bytes.reverse ≠ 0x0A :: front := by
    intro front same
    rw [← List.head?_reverse, same] at last
    exact last rfl
  unfold stripTerminator
  split
  · next front same => exact absurd same (other _)
  · next front _ same => exact absurd same (other _)
  · rfl

theorem stripTerminator_crlf (bytes : List UInt8) : stripTerminator (bytes ++ [0x0D, 0x0A]) = bytes := by
  unfold stripTerminator
  rw [List.reverse_append]
  simp

end TelemetryHub.Text
