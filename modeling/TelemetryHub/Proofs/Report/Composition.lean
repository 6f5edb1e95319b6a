import TelemetryHub.Proofs.Text.Lines
import TelemetryHub.Report

/-!
# Reports line by line

The samples of a report come from its lines one by one: a line has a sample or has none whatever number the
sample gets (`line?_eq_map`), and the numbers are given afterwards, to the samples that there are. So two
reports behind each other have the samples of both, those of the second one with higher numbers
(`samples_append`), nothing but the lines that have a sample is recorded (`Itemised`), and it makes no
difference whether lines end with LF or with CR LF.
-/

namespace TelemetryHub

/-- A sample that others have been put in front of. -/
def Sample.raise (count : Nat) (sample : Sample) : Sample := { sample with id := sample.id + count }

namespace Report

/-! ## Numbers -/

variable {next : Nat} {line : String} {id : Nat} {sample : Sample}

/-- The number is only copied into the sample. -/
theorem line?_eq_map (line : String) (id : Nat) :
    line? line id = (line? line 0).map fun sample => { sample with id := id } := by
  unfold line?
  cases object? (line.toList.dropWhile Text.isBlank) with
  | none => rfl
  | some found =>
    obtain ⟨front, dso⟩ := found
    cases name : name? front <;> simp [name]

theorem record_of_line? (read : line? line id = some sample) : sample.record = line := by
  unfold line? at read
  simp only [Option.bind_eq_bind, Option.bind_eq_some_iff] at read
  obtain ⟨_, -, _, -, made⟩ := read
  rw [← Option.some.inj made]

theorem ids_numbered (next : Nat) (samples : List Sample) :
    (numbered next samples).map Sample.id = List.range' next samples.length := by
  induction samples generalizing next with
  | nil => rfl
  | cons sample rest ih => rw [numbered, List.map_cons, ih, List.length_cons, List.range'_succ]

theorem records_numbered (next : Nat) (samples : List Sample) :
    (numbered next samples).map Sample.record = samples.map Sample.record := by
  induction samples generalizing next with
  | nil => rfl
  | cons sample rest ih => rw [numbered, List.map_cons, ih, List.map_cons]

theorem numbered_add (next count : Nat) (samples : List Sample) :
    numbered (next + count) samples = (numbered next samples).map (Sample.raise count) := by
  induction samples generalizing next with
  | nil => rfl
  | cons sample rest ih =>
    rw [numbered, numbered, List.map_cons, ← ih, Nat.add_right_comm]
    rfl

theorem exists_of_mem_numbered {samples : List Sample} (isIn : sample ∈ numbered next samples) :
    ∃ original ∈ samples, sample = { original with id := sample.id } := by
  induction samples generalizing next with
  | nil => cases isIn
  | cons first rest ih =>
    rcases List.mem_cons.mp isIn with rfl | isIn
    · exact ⟨first, List.mem_cons_self, rfl⟩
    · obtain ⟨original, isIn, same⟩ := ih isIn
      exact ⟨original, List.mem_cons_of_mem first isIn, same⟩

/-! ## Lines -/

/-- The samples that lines have, all of them without a number of their own. -/
def unnumbered (lines : List (List Char)) : List Sample :=
  lines.filterMap fun line => line? (String.ofList line) 0

theorem samples_eq (report : String) : samples report = numbered 0 (unnumbered (Text.lines report.toList)) := rfl

/-- Whether a line has a sample. -/
def isSampled (line : String) : Bool := (line? line 0).isSome

theorem records_unnumbered (lines : List (List Char)) :
    (unnumbered lines).map Sample.record = (lines.map String.ofList).filter isSampled := by
  induction lines with
  | nil => rfl
  | cons line lines ih =>
    unfold unnumbered at ih ⊢
    cases read : line? (String.ofList line) 0 with
    | none =>
      have skipped : ¬isSampled (String.ofList line) = true := by simp [isSampled, read]
      simp only [List.filterMap_cons, read, ih, List.map_cons, List.filter_cons_of_neg skipped]
    | some sample =>
      have taken : isSampled (String.ofList line) = true := by simp [isSampled, read]
      simp only [List.filterMap_cons, read, ih, List.map_cons, List.filter_cons_of_pos taken,
        record_of_line? read]

/-- What is in a report: the lines that have a sample, all of them and in their order, each with the sample
that it has and with the number of its place. -/
structure Itemised (report : String) (samples : List Sample) : Prop where
  ids : samples.map Sample.id = List.range samples.length
  records : ∃ lines, Text.Lined report.toList lines ∧
    samples.map Sample.record = (lines.map String.ofList).filter isSampled
  fields : ∀ sample ∈ samples, line? sample.record sample.id = some sample

theorem itemised (report : String) : Itemised report (samples report) where
  ids := by
    rw [samples, ids_numbered, length_numbered, List.range_eq_range']
  records := by
    refine ⟨_, Text.lined_lines report.toList, ?_⟩
    rw [samples_eq, records_numbered, records_unnumbered]
  fields sample isIn := by
    rw [samples_eq] at isIn
    obtain ⟨original, isIn, same⟩ := exists_of_mem_numbered isIn
    obtain ⟨line, -, read⟩ := List.mem_filterMap.mp isIn
    have record : sample.record = String.ofList line := by rw [same, record_of_line? read]
    rw [record, line?_eq_map, read, Option.map_some, ← same]

theorem samples_append {first : String} (whole : Text.Whole first.toList) (second : String) :
    samples (first ++ second) =
      samples first ++ (samples second).map (Sample.raise (samples first).length) := by
  rw [samples_eq, String.toList_append, Text.lines_append whole, unnumbered, List.filterMap_append,
    numbered_append, numbered_add, samples_eq, length_numbered]
  rfl

/-- A report with CR LF for each LF. -/
def withReturns (report : String) : String := String.ofList (Text.withReturns report.toList)

theorem samples_withReturns {report : String} (plain : '\r' ∉ report.toList) :
    samples (withReturns report) = samples report := by
  rw [samples_eq, withReturns, String.toList_ofList, Text.lines_withReturns plain, samples_eq]

/-- **Reports are read line by line**: behind whole lines a report begins anew, with the next number; a
report has the samples of its lines; and CR LF ends a line as LF does. -/
theorem composes_over_lines :
    (∀ first second : String, first = "" ∨ (∃ front, first = front ++ "\n") →
      samples (first ++ second) =
        samples first ++ (samples second).map (Sample.raise (samples first).length)) ∧
    (∀ report : String, Itemised report (samples report)) ∧
    ∀ report : String, '\r' ∉ report.toList → samples (withReturns report) = samples report := by
  refine ⟨fun first second whole => samples_append ?_ second, itemised, fun _ => samples_withReturns⟩
  rcases whole with rfl | ⟨front, rfl⟩
  · exact .inl rfl
  · exact .inr ⟨front.toList, String.toList_append⟩

/-- A report with one sample, and one behind it that begins with something else and has no end. -/
theorem composes_over_lines_two_reports :
    let first := "java 1 2.3: 4 cycles: 5 main (app)" ++ "\n"
    let second := "two lines\njava 6 7.8: 9 cycles: a main (app)"
    (first = "" ∨ ∃ front, first = front ++ "\n") ∧ '\r' ∉ second.toList ∧
      (samples first).length = 1 ∧ (samples second).length = 1 ∧
      samples (first ++ second) = samples first ++ (samples second).map (Sample.raise 1) ∧
      samples (withReturns second) = samples second := by
  intro first second
  have whole : first = "" ∨ ∃ front, first = front ++ "\n" := .inr ⟨_, rfl⟩
  have plain : '\r' ∉ second.toList := by decide
  have single : (samples first).length = 1 := by decide +kernel
  refine ⟨whole, plain, single, by decide +kernel, ?_, composes_over_lines.2.2 second plain⟩
  rw [composes_over_lines.1 first second whole, single]

end Report
end TelemetryHub
