import Mathlib.Data.List.Basic
import TelemetryHub.Proofs.Command.Documents
import TelemetryHub.Proofs.Json.Cutting
import TelemetryHub.Proofs.Text.Cutting

/-!
# The parts of a command that is cut

The bytes of a container, cut in two at any place, are read as two texts of which neither is a message:
the front does not close its container (`not_spells_front`), and what is behind the cut is no container
(`not_spells_back`).
-/

namespace TelemetryHub.Message

open Json (Balanced Bracketed Container)
open Text (Cut decodeLossy isBlank trim)

theorem Member.ValueText.balanced {member : Member} {text : List Char} (spelled : member.ValueText text) :
    Balanced text :=
  Json.balanced_of_valid spelled.valid

theorem Spells.bracketed {text : List Char} {message : Message} (spells : Spells text message) :
    Bracketed text := by
  obtain ⟨members, gives, -⟩ := spells
  have key : ∀ name text, Json.StringText name text → Balanced text := by
    rintro name _ ⟨body, rfl, reads⟩
    exact Json.balanced_quoted reads.loose
  have value : ∀ (member : Member) text, member.ValueText text → Balanced text :=
    fun _ _ => Member.ValueText.balanced
  cases gives with
  | object enclosed => exact enclosed.bracketed .object fun _ _ => Json.Keyed.balanced key value
  | list enclosed => exact enclosed.bracketed .list value

theorem not_isBlank_opening (container : Container) : isBlank container.opening = false := by
  cases container <;> decide

theorem not_isBlank_closing (container : Container) : isBlank container.closing = false := by
  cases container <;> decide

/-- A replacement character is at neither end of a text of which a container is left. -/
theorem not_replaced {text : List Char} (bracketed : Bracketed (trim text)) :
    text.head? ≠ some '\uFFFD' ∧ text.getLast? ≠ some '\uFFFD' := by
  obtain ⟨container, opens, closes⟩ := bracketed.exists_ends
  constructor
  · intro first
    obtain ⟨behind, whole, nonempty⟩ := Text.exists_trim_append first (by decide)
    rw [whole, List.head?_append_of_ne_nil _ nonempty, opens] at first
    cases container <;> cases first
  · intro last
    obtain ⟨before, whole, nonempty⟩ := Text.exists_append_trim last (by decide)
    rw [whole, List.getLast?_append_of_ne_nil _ nonempty, closes] at last
    cases container <;> cases last

section Cuts

variable {cs : List Char} (bracketed : Bracketed cs) {front back : List UInt8} (cut : Cut cs front back)

include bracketed cut

/-- What is read in front of a cut is no message. -/
theorem not_spells_front (more : back ≠ []) (message : Message) :
    ¬Spells (trim (decodeLossy front)) message := by
  intro spells
  have bracketed' := spells.bracketed
  obtain ⟨container, opens, -⟩ := bracketed.exists_ends
  obtain ⟨front', back', rfl, more', read⟩ := cut.decode_front more
  rcases read with read | read
  · rw [read] at bracketed'
    have nonempty : front' ≠ [] := by
      rintro rfl
      exact bracketed'.ne_nil rfl
    rw [List.head?_append_of_ne_nil _ nonempty] at opens
    obtain ⟨behind, whole, -⟩ := Text.exists_trim_append opens (not_isBlank_opening container)
    rw [whole, List.append_assoc] at bracketed
    exact bracketed.not_front (List.append_ne_nil_of_right_ne_nil _ more') bracketed'
  · exact (not_replaced bracketed').2 (by rw [read]; simp)

/-- What is read behind a cut is no message, whether a stray CR follows or not. -/
theorem not_spells_back (begun : front ≠ []) {tail : List UInt8} (stray : tail = [] ∨ tail = [0x0D])
    (message : Message) : ¬Spells (trim (decodeLossy (back ++ tail))) message := by
  intro spells
  have bracketed' := spells.bracketed
  obtain ⟨container, -, closes⟩ := bracketed.exists_ends
  rcases cut.decode_back begun tail with ⟨front', back', rfl, begun', read⟩ | ⟨others, read⟩
  · have blank : ∀ c ∈ decodeLossy tail, isBlank c = true := by
      rcases stray with rfl | rfl
      · exact List.forall_mem_nil _
      · have single : decodeLossy [0x0D] = ['\r'] := rfl
        rw [single, List.forall_mem_singleton]
        decide
    rw [read, Text.trim_append_blanks _ blank] at bracketed'
    have nonempty : back' ≠ [] := by
      rintro rfl
      exact bracketed'.ne_nil rfl
    rw [List.getLast?_append_of_ne_nil _ nonempty] at closes
    obtain ⟨before, whole, -⟩ := Text.exists_append_trim closes (not_isBlank_closing container)
    rw [whole, ← List.append_assoc] at bracketed
    exact bracketed.not_back (List.append_ne_nil_of_left_ne_nil begun' _) bracketed'
  · exact (not_replaced bracketed').1 (by rw [read]; rfl)

end Cuts

end TelemetryHub.Message
