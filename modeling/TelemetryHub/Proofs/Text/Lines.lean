import Mathlib.Data.List.Basic
import Mathlib.Data.List.Induction
import TelemetryHub.Text.Basic

/-!
# What the lines of a text are

`Lined` says which lines a text has, line by line and without the open line that the cut carries along:
an LF ends a line, a CR in front of it goes with it, and what stands behind the last LF is a line as it is,
unless it is empty. There is exactly one such list of lines (`lined_iff`), so facts about all texts are
inductions on their lines: texts that end with a line's end are cut one by one (`Lined.append`), and a text
without CRs has the same lines with CR LF as with LF (`Lined.withReturns`).
-/

namespace TelemetryHub.Text

/-- A text and its lines. -/
inductive Lined : List Char → List (List Char) → Prop where
  | empty : Lined [] []
  /-- The last line has no end, and keeps a CR that it ends with. -/
  | last {line : List Char} (nonempty : line ≠ []) (inside : '\n' ∉ line) : Lined line [line]
  | lf {line text : List Char} {lines : List (List Char)} (inside : '\n' ∉ line)
    (bare : line.getLast? ≠ some '\r') (rest : Lined text lines) :
    Lined (line ++ '\n' :: text) (line :: lines)
  | crlf {line text : List Char} {lines : List (List Char)} (inside : '\n' ∉ line)
    (rest : Lined text lines) : Lined (line ++ '\r' :: '\n' :: text) (line :: lines)

/-- The text of whole lines: nothing, or something that ends with an LF. -/
def Whole (text : List Char) : Prop := text = [] ∨ ∃ front, text = front ++ ['\n']

/-- A text with CR LF for each LF. -/
def withReturns (text : List Char) : List Char :=
  text.flatMap fun c => if c = '\n' then ['\r', '\n'] else [c]

/-! ## The cut into lines -/

theorem linesFrom_cons {c : Char} (inside : c ≠ '\n') (current rest : List Char) :
    linesFrom current (c :: rest) = linesFrom (c :: current) rest :=
  if_neg inside

theorem linesFrom_append {line : List Char} (inside : '\n' ∉ line) (current rest : List Char) :
    linesFrom current (line ++ rest) = linesFrom (line.reverse ++ current) rest := by
  induction line generalizing current with
  | nil => rfl
  | cons c line ih =>
    rw [List.mem_cons, not_or] at inside
    rw [List.cons_append, linesFrom_cons (Ne.symm inside.1), ih inside.2, List.reverse_cons, List.append_assoc]
    rfl

theorem linesFrom_lf {current : List Char} (bare : current.head? ≠ some '\r') (rest : List Char) :
    linesFrom current ('\n' :: rest) = current.reverse :: lines rest := by
  refine (if_pos rfl).trans ?_
  split
  · exact absurd rfl bare
  · rfl

theorem lines_last {line : List Char} (nonempty : line ≠ []) (inside : '\n' ∉ line) :
    lines line = [line] := by
  have taken := linesFrom_append inside [] []
  rw [List.append_nil, List.append_nil] at taken
  simp [lines, taken, linesFrom, nonempty]

theorem lines_lf {line : List Char} (inside : '\n' ∉ line) (bare : line.getLast? ≠ some '\r')
    (rest : List Char) : lines (line ++ '\n' :: rest) = line :: lines rest := by
  rw [List.getLast?_eq_head?_reverse] at bare
  rw [lines, linesFrom_append inside, List.append_nil, linesFrom_lf bare, List.reverse_reverse]

theorem lines_crlf {line : List Char} (inside : '\n' ∉ line) (rest : List Char) :
    lines (line ++ '\r' :: '\n' :: rest) = line :: lines rest := by
  rw [lines, linesFrom_append inside, List.append_nil]
  change line.reverse.reverse :: linesFrom [] rest = _
  rw [List.reverse_reverse, lines]

theorem Lined.eq_lines {text : List Char} {ls : List (List Char)} (lined : Lined text ls) :
    ls = lines text := by
  induction lined with
  | empty => rfl
  | last nonempty inside => rw [lines_last nonempty inside]
  | lf inside bare _ ih => rw [lines_lf inside bare, ih]
  | crlf inside _ ih => rw [lines_crlf inside, ih]

/-- By the length of the text, since a line is cut off at a time. -/
theorem exists_lined (text : List Char) : ∃ ls, Lined text ls := by
  by_cases ends : '\n' ∈ text
  · obtain ⟨line, rest, same, inside⟩ := List.eq_append_cons_of_mem ends
    have shorter : rest.length < text.length := by
      rw [same, List.length_append, List.length_cons]
      omega
    obtain ⟨ls, lined⟩ := exists_lined rest
    subst same
    by_cases bare : line.getLast? = some '\r'
    · obtain ⟨front, rfl⟩ := List.getLast?_eq_some_iff.mp bare
      refine ⟨front :: ls, ?_⟩
      rw [List.append_assoc]
      exact .crlf (fun isIn => inside (List.mem_append_left _ isIn)) lined
    · exact ⟨line :: ls, .lf inside bare lined⟩
  · by_cases empty : text = []
    · exact ⟨[], empty ▸ .empty⟩
    · exact ⟨[text], .last empty ends⟩
termination_by text.length
decreasing_by exact shorter

theorem lined_iff {text : List Char} {ls : List (List Char)} : Lined text ls ↔ ls = lines text := by
  refine ⟨Lined.eq_lines, fun same => ?_⟩
  obtain ⟨ls', lined⟩ := exists_lined text
  rwa [same, ← lined.eq_lines]

theorem lined_lines (text : List Char) : Lined text (lines text) := lined_iff.mpr rfl

theorem Lined.inside {text : List Char} {ls : List (List Char)} (lined : Lined text ls) :
    ∀ line ∈ ls, '\n' ∉ line := by
  induction lined with
  | empty => exact nofun
  | last _ inside => exact List.forall_mem_singleton.mpr inside
  | lf inside _ _ ih | crlf inside _ ih => exact List.forall_mem_cons.mpr ⟨inside, ih⟩

/-- No line has the end of one inside. -/
theorem lineEnd_notIn_lines (text : List Char) : ∀ line ∈ lines text, '\n' ∉ line :=
  (lined_lines text).inside

/-! ## Two texts -/

theorem Whole.of_append {line text : List Char} (whole : Whole (line ++ '\n' :: text)) : Whole text := by
  rcases whole with empty | ⟨front, same⟩
  · simp at empty
  · cases text using List.reverseRecOn with
    | nil => exact .inl rfl
    | append_singleton text c =>
      rw [← List.cons_append, ← List.append_assoc] at same
      obtain ⟨-, last⟩ := List.append_inj' same rfl
      exact .inr ⟨text, by rw [last]⟩

theorem Whole.not_last {line : List Char} (whole : Whole line) (nonempty : line ≠ []) : '\n' ∈ line := by
  rcases whole with empty | ⟨front, rfl⟩
  · exact absurd empty nonempty
  · exact List.mem_append_right front (List.mem_singleton_self _)

/-- Behind whole lines the cut begins anew. -/
theorem Lined.append {first second : List Char} {ls ls' : List (List Char)} (lined : Lined first ls)
    (whole : Whole first) (lined' : Lined second ls') : Lined (first ++ second) (ls ++ ls') := by
  induction lined with
  | empty => exact lined'
  | last nonempty inside => exact absurd (whole.not_last nonempty) inside
  | lf inside bare _ ih =>
    rw [List.append_assoc]
    exact .lf inside bare (ih whole.of_append)
  | @crlf line text _ inside _ ih =>
    rw [List.append_assoc]
    refine .crlf inside (ih ?_)
    rw [List.append_cons] at whole
    exact whole.of_append

theorem lines_append {first : List Char} (whole : Whole first) (second : List Char) :
    lines (first ++ second) = lines first ++ lines second :=
  ((lined_lines first).append whole (lined_lines second)).eq_lines.symm

/-! ## CR LF for LF -/

theorem withReturns_eq_self {line : List Char} (inside : '\n' ∉ line) : withReturns line = line := by
  induction line with
  | nil => rfl
  | cons c line ih =>
    rw [List.mem_cons, not_or] at inside
    rw [withReturns, List.flatMap_cons, if_neg (Ne.symm inside.1), ← withReturns, ih inside.2]
    rfl

theorem withReturns_lf {line : List Char} (inside : '\n' ∉ line) (text : List Char) :
    withReturns (line ++ '\n' :: text) = line ++ '\r' :: '\n' :: withReturns text := by
  rw [withReturns, List.flatMap_append, ← withReturns, withReturns_eq_self inside]
  rfl

theorem Lined.withReturns {text : List Char} {ls : List (List Char)} (lined : Lined text ls)
    (plain : '\r' ∉ text) : Lined (withReturns text) ls := by
  induction lined with
  | empty => exact .empty
  | last nonempty inside =>
    rw [withReturns_eq_self inside]
    exact .last nonempty inside
  | lf inside _ _ ih =>
    rw [withReturns_lf inside]
    exact .crlf inside (ih fun isIn => plain (List.mem_append_right _ (List.mem_cons_of_mem _ isIn)))
  | crlf => exact absurd (List.mem_append_right _ List.mem_cons_self) plain

theorem lines_withReturns {text : List Char} (plain : '\r' ∉ text) : lines (withReturns text) = lines text :=
  ((lined_lines text).withReturns plain).eq_lines.symm

end TelemetryHub.Text
