import TelemetryHub.Json.Printer
import TelemetryHub.Proofs.Text.Utf8

/-!
# The compact form is one line

No printed form of a string or a number has a control character, so the compact form of a value has
none, and no byte of it ends a line. Values that are written each with the end of a line behind it are
told apart again by these ends (`splitOn_lines`).
-/

namespace TelemetryHub

/-! ## Control characters -/

namespace Text

/-- No control characters. -/
def Visible (text : List Char) : Prop := ∀ c ∈ text, 0x20 ≤ c.toNat

@[simp] theorem visible_nil : Visible [] := fun _ isIn => by cases isIn

@[simp] theorem visible_cons {c : Char} {text : List Char} :
    Visible (c :: text) ↔ 0x20 ≤ c.toNat ∧ Visible text := List.forall_mem_cons

@[simp] theorem visible_append {first second : List Char} :
    Visible (first ++ second) ↔ Visible first ∧ Visible second := List.forall_mem_append

/-- No byte of a text without control characters ends a line. -/
theorem lineEnd_notIn_encode {text : List Char} (visible : Visible text) : 0x0A ∉ encode text := by
  intro isIn
  obtain ⟨c, cIn, same⟩ := exists_of_mem_encode isIn (by decide)
  exact absurd (same ▸ visible c cIn) (by decide)

end Text

open Text (Visible)

/-! ## Numbers -/

/-- The characters of numbers. -/
def Numeric (c : Char) : Prop := c.isDigit = true ∨ c ∈ ['.', 'e', '+', '-']

theorem numeric_digits (n : Nat) : ∀ c ∈ Text.digits n, Numeric c := fun _ isIn =>
  .inl (Nat.isDigit_of_mem_toDigits (by decide) (by decide) isIn)

theorem numeric_integer (i : Int) : ∀ c ∈ Text.integer i, Numeric c := by
  cases i with
  | ofNat n => exact numeric_digits n
  | negSucc n => exact List.forall_mem_cons.mpr ⟨.inr (by decide), numeric_digits _⟩

theorem numeric_zeros (n : Nat) : ∀ c ∈ List.replicate n '0', Numeric c := by
  intro c isIn
  rw [(List.mem_replicate.mp isIn).2]
  exact .inl rfl

namespace Binary64

variable {digits : List Char}

theorem numeric_significant (numeric : ∀ c ∈ digits, Numeric c) : ∀ c ∈ significant digits, Numeric c := by
  unfold significant
  split
  · exact List.forall_mem_singleton.mpr (.inl rfl)
  · intro c isIn
    exact numeric c (List.mem_reverse.mp ((List.dropWhile_sublist _).subset (List.mem_reverse.mp isIn)))

theorem numeric_write (layout : Layout) (numeric : ∀ c ∈ digits, Numeric c) (leading : Int) :
    ∀ c ∈ layout.write digits leading, Numeric c := by
  have point : Numeric '.' := .inr (by decide)
  have zero : Numeric '0' := .inl rfl
  unfold Layout.write
  split
  · have front : ∀ c ∈ "0.".toList, Numeric c := by simp [zero, point]
    exact List.forall_mem_append.mpr ⟨List.forall_mem_append.mpr ⟨front, numeric_zeros _⟩, numeric⟩
  split
  · dsimp only
    split
    · have behind : ∀ c ∈ ".0".toList, Numeric c := by simp [zero, point]
      exact List.forall_mem_append.mpr ⟨List.forall_mem_append.mpr ⟨numeric, numeric_zeros _⟩, behind⟩
    · refine List.forall_mem_append.mpr ⟨fun c isIn => ?_, List.forall_mem_cons.mpr ⟨point, fun c isIn => ?_⟩⟩
      · exact numeric c (List.mem_of_mem_take isIn)
      · exact numeric c (List.mem_of_mem_drop isIn)
  · refine List.forall_mem_append.mpr ⟨?_, List.forall_mem_cons.mpr ⟨.inr (by decide), ?_⟩⟩
    · split
      · rw [List.forall_mem_cons] at numeric ⊢
        exact ⟨numeric.1, List.forall_mem_cons.mpr ⟨point, numeric.2⟩⟩
      · exact numeric
    · refine List.forall_mem_cons.mpr ⟨?_, numeric_digits _⟩
      split <;> exact .inr (by decide)

end Binary64

theorem Number.numeric_print (n : Number) : ∀ c ∈ n.print, Numeric c := by
  cases n with
  | whole w => exact numeric_integer w.val
  | real x =>
    refine List.forall_mem_append.mpr ⟨?_, ?_⟩
    · split
      · exact List.forall_mem_singleton.mpr (.inr (by decide))
      · exact nofun
    · exact Binary64.numeric_write _ (Binary64.numeric_significant (numeric_digits _)) _

theorem Number.visible_print (n : Number) : Visible n.print := by
  intro c isIn
  rcases n.numeric_print c isIn with digit | sign
  · simp only [Char.isDigit, Bool.and_eq_true, decide_eq_true_eq] at digit
    have least : 48 ≤ c.toNat := UInt32.le_iff_toNat_le.mp digit.1
    omega
  · simp only [List.mem_cons, List.not_mem_nil, or_false] at sign
    rcases sign with rfl | rfl | rfl | rfl <;> decide

/-! ## Values -/

namespace Json

theorem visible_printString (cs : List Char) : Visible (printString cs) := by
  have inside : Visible (cs.flatMap escaped) := by
    intro c isIn
    obtain ⟨d, _, found⟩ := List.mem_flatMap.mp isIn
    exact escaped_visible found
  simp [printString, inside]

mutual

/-- The compact form of a value has no control character. -/
theorem visible_printCompact : (value : Json) → Visible (printCompact value)
  | .null => by simp [printCompact]
  | .bool true => by simp [printCompact, printBool]
  | .bool false => by simp [printCompact, printBool]
  | .num n => by
    rw [printCompact]
    exact n.visible_print
  | .str s => by
    rw [printCompact]
    exact visible_printString s.toList
  | .arr [] => by simp [printCompact]
  | .arr (item :: items) => by
    have first := visible_printCompact item
    have others := visible_printCompactItems items
    simp [printCompact, first, others]
  | .obj [] => by simp [printCompact]
  | .obj ((key, value) :: members) => by
    have name := visible_printString key.toList
    have first := visible_printCompact value
    have others := visible_printCompactMembers members
    simp [printCompact, name, first, others]

theorem visible_printCompactItems : (items : List Json) → Visible (printCompactItems items)
  | [] => by simp [printCompactItems]
  | item :: items => by
    have next := visible_printCompact item
    have others := visible_printCompactItems items
    simp [printCompactItems, next, others]

theorem visible_printCompactMembers :
    (members : List (String × Json)) → Visible (printCompactMembers members)
  | [] => by simp [printCompactMembers]
  | (key, value) :: members => by
    have name := visible_printString key.toList
    have next := visible_printCompact value
    have others := visible_printCompactMembers members
    simp [printCompactMembers, name, next, others]

end

/-- No byte of the compact form ends a line. -/
theorem lineEnd_notIn_compact (value : Json) : 0x0A ∉ Text.encode (printCompact value) :=
  Text.lineEnd_notIn_encode (visible_printCompact value)

end Json

/-- Lines that are written one after the other are told apart by their ends, and so is what follows
them. -/
theorem splitOn_lines {α : Type} (line : α → List UInt8) (xs : List α)
    (whole : ∀ x ∈ xs, 0x0A ∉ line x) {last : List UInt8} (open' : 0x0A ∉ last) :
    ((xs.flatMap fun x => line x ++ [0x0A]) ++ last).splitOn 0x0A = xs.map line ++ [last] := by
  induction xs with
  | nil => simpa using List.splitOn_eq_singleton open'
  | cons x xs ih =>
    have others := ih fun y isIn => whole y (List.mem_cons_of_mem x isIn)
    have first := List.splitOn_append_cons_self_of_not_mem (whole x List.mem_cons_self)
      ((xs.flatMap fun x => line x ++ [0x0A]) ++ last)
    rw [others] at first
    simpa using first

end TelemetryHub
