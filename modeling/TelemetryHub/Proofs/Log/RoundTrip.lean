import TelemetryHub.Log
import TelemetryHub.Proofs.Json.Extent
import TelemetryHub.Proofs.Json.Printing

/-!
# A log is read back

The log is followed call by call: `Holds` says what the file has after a number of entries, every call
that is taken keeps it (`Holds.append`), and so does a run of calls (`Holds.appendAll`). Such a file is
no document as long as the log is open, and one list of exactly its records once it is closed or once
its last comma gives way to a bracket.
-/

namespace TelemetryHub

open Json (Blank KeysDistinct Shallow Spells Valid)

namespace Log

/-! ## Entries -/

/-- What one call gives to the log. -/
inductive Entry where
  /-- a message that is a text -/
  | text (message source now : String)
  /-- a message that is a value already -/
  | value (body : Json) (source now : String)

namespace Entry

/-- What is stored of the message: of a text what it reads as, or else the text itself. -/
def body : Entry → Json
  | text message _ _ => Json.ofMessage message
  | value body _ _ => body

def source : Entry → String
  | text _ source _ | value _ source _ => source

def now : Entry → String
  | text _ _ now | value _ _ now => now

/-- The record of the entry. -/
def record (entry : Entry) : Json :=
  .obj [("body", entry.body), ("from", .str entry.source), ("timestamp", .str entry.now)]

/-- The call, on a device that takes everything. -/
def append (log : Log) : Entry → Option Failure × Log
  | text message source now => log.appendText message source now none
  | value body source now => log.append body source now none

/-- The message has no double and at most 125 containers inside each other. A value that comes from
elsewhere has to keep its keys apart, as a text that is read does by itself. -/
def Fits : Entry → Prop
  | text message _ _ => Shallow 125 (Json.ofMessage message)
  | value body _ _ => Shallow 125 body ∧ KeysDistinct body

theorem Fits.shallow {entry : Entry} (fits : entry.Fits) : Shallow 125 entry.body := by
  cases entry with
  | text message source now => exact fits
  | value body source now => exact fits.1

theorem Fits.distinct {entry : Entry} (fits : entry.Fits) : KeysDistinct entry.body := by
  cases entry with
  | text message source now => exact Json.keysDistinct_ofMessage message
  | value body source now => exact fits.2

/-- The record of an entry that fits is spelled by its pretty form. -/
theorem Fits.spells {entry : Entry} (fits : entry.Fits) :
    Spells 126 entry.record (Json.printPretty 0 entry.record) := by
  have text : ∀ s, Shallow 125 (.str s) := fun s => by simp [Shallow]
  have shallow : Shallow 126 entry.record := by
    intro member isIn
    simp only [List.mem_cons, List.not_mem_nil, or_false] at isIn
    rcases isIn with rfl | rfl | rfl
    · exact fits.shallow
    · exact text _
    · exact text _
  have distinct : KeysDistinct entry.record := by
    refine .obj (by simp) ?_
    intro member isIn
    simp only [List.mem_cons, List.not_mem_nil, or_false] at isIn
    rcases isIn with rfl | rfl | rfl
    · exact fits.distinct
    · exact .str _
    · exact .str _
  exact Json.spells_pretty shallow distinct 0

end Entry

/-- Entries one after the other, until one of them is refused. -/
def appendAll (log : Log) : List Entry → Except Failure Log
  | [] => .ok log
  | entry :: entries =>
    match entry.append log with
    | (none, log) => log.appendAll entries
    | (some failure, _) => .error failure

theorem appendAll_append (log : Log) (first second : List Entry) :
    log.appendAll (first ++ second) = (log.appendAll first).bind (·.appendAll second) := by
  induction first generalizing log with
  | nil => rfl
  | cons entry first ih =>
    rw [List.cons_append, appendAll, appendAll]
    split
    · exact ih _
    · rfl

/-! ## What the file has -/

/-- The text of records, each with the separator behind it. -/
def recordsText (entries : List Entry) : List Char :=
  entries.flatMap fun entry => Json.printPretty 0 entry.record ++ [',', '\n']

/-- What a log has whose entries were all taken. -/
structure Holds (log : Log) (entries : List Entry) : Prop where
  written : log.written.toList = '[' :: '\n' :: recordsText entries
  nothingPending : log.pending = ""
  counted : log.records = entries.length

theorem holds_create (path : String) :
    ∃ log, create path (.ok ()) none = .ok log ∧ log.Holds [] :=
  ⟨⟨path, "" ++ "[\n", "", 0⟩, rfl, ⟨by simp [recordsText], rfl, rfl⟩⟩

/-- A call that is taken adds its record to the file. -/
theorem Holds.append {log : Log} {entries : List Entry} (holds : log.Holds entries) (entry : Entry) :
    ∃ log', entry.append log = (none, log') ∧ log'.Holds (entries ++ [entry]) := by
  have call : entry.append log = log.append entry.body entry.source entry.now none := by
    cases entry <;> rfl
  refine ⟨_, by rw [call]; rfl, ?_, rfl, ?_⟩
  · have same : Log.record entry.body entry.source entry.now = entry.record := rfl
    simp [same, holds.written, holds.nothingPending, recordsText, Json.pretty, separator]
  · simp [holds.counted]

theorem Holds.appendAll {log : Log} {before : List Entry} (holds : log.Holds before)
    (entries : List Entry) :
    ∃ log', log.appendAll entries = .ok log' ∧ log'.Holds (before ++ entries) := by
  induction entries generalizing log before with
  | nil => exact ⟨log, rfl, by rw [List.append_nil]; exact holds⟩
  | cons entry entries ih =>
    obtain ⟨next, taken, holdsNext⟩ := holds.append entry
    obtain ⟨last, run, holdsLast⟩ := ih holdsNext
    refine ⟨last, ?_, by simpa using holdsLast⟩
    rw [Log.appendAll, taken]
    exact run

/-- The last separator stands at the end of the records. -/
theorem recordsText_cons (entry : Entry) (entries : List Entry) :
    recordsText (entry :: entries) = Json.printPretty 0 entry.record ++
      entries.flatMap (fun entry => ',' :: '\n' :: Json.printPretty 0 entry.record) ++
        [',', '\n'] := by
  induction entries generalizing entry with
  | nil => simp [recordsText]
  | cons next entries ih =>
    have first : recordsText (entry :: next :: entries) =
        Json.printPretty 0 entry.record ++ [',', '\n'] ++ recordsText (next :: entries) := rfl
    rw [first, ih]
    simp

/-- The records between brackets are a list. -/
theorem spells_records {entry : Entry} {entries : List Entry}
    (fits : ∀ other ∈ entry :: entries, other.Fits) :
    Spells 127 (.arr ((entry :: entries).map Entry.record))
      ('[' :: '\n' :: (Json.printPretty 0 entry.record ++
        entries.flatMap (fun entry => ',' :: '\n' :: Json.printPretty 0 entry.record) ++
          ['\n', ']'])) := by
  have blank : Blank ['\n'] := Json.blank_newline 0
  have each : ∀ value ∈ entry.record :: entries.map Entry.record,
      Spells 126 value (Json.printPretty 0 value) := by
    intro value isIn
    obtain ⟨other, otherIn, rfl⟩ := List.mem_map.mp (List.map_cons ▸ isIn)
    exact (fits other otherIn).spells
  have spelled := Json.spells_items blank blank each
  simpa [List.flatMap_map] using spelled

theorem spells_nothing : Spells 127 (.arr []) ('[' :: (['\n'] ++ [']'])) :=
  .inr (.inl ⟨[], rfl, .none (Json.blank_newline 0)⟩)

/-! ## The file while the log is open -/

/-- The file of an open log is no document, with blanks around it or without. -/
theorem Holds.not_valid {log : Log} {entries : List Entry} (holds : log.Holds entries)
    {before text behind : List Char} (blank : Blank before) (blank' : Blank behind)
    (same : log.written.toList = before ++ (text ++ behind)) : ¬Valid text := by
  rintro valid
  rw [holds.written] at same
  -- a value that begins with the bracket ends with one, behind which only blanks may follow
  obtain ⟨inside, -, ends⟩ := valid.exists_inside blank same
  have closing := Json.skipSpace_reverse inside blank' (rfl : Json.isSpace ']' = false)
  rw [← ends] at closing
  cases entries with
  | nil => cases closing
  | cons entry entries =>
    have comma := Json.skipSpace_reverse ('\n' :: (Json.printPretty 0 entry.record ++
        entries.flatMap fun entry => ',' :: '\n' :: Json.printPretty 0 entry.record))
      (Json.blank_newline 0) (rfl : Json.isSpace ',' = false)
    have whole := comma.symm.trans (by simpa [recordsText_cons, Json.newline] using closing)
    exact absurd (List.cons.inj whole).1 (by decide)

/-- The reader does not take the file of an open log. -/
theorem Holds.not_read {log : Log} {entries : List Entry} (holds : log.Holds entries) (value : Json) :
    Json.read log.written ≠ .ok value := by
  intro read
  obtain ⟨before, document, behind, blank, blank', same, valid⟩ := Json.document_of_read read
  exact holds.not_valid blank blank' same valid

/-- A text without its last comma. -/
def withoutLastComma (text : String) : String := String.ofList (text.toList.reverse.erase ',').reverse

/-- The file of an open log becomes the list of its records when a bracket takes the place of its last
comma. -/
theorem Holds.read_repaired {log : Log} {entries : List Entry} (holds : log.Holds entries)
    (fits : ∀ entry ∈ entries, entry.Fits) :
    Json.read (withoutLastComma log.written ++ "]") = .ok (.arr (entries.map Entry.record)) := by
  cases entries with
  | nil =>
    have read := Json.read_spells spells_nothing .nil .nil
    refine (congrArg Json.read (String.toList_injective ?_)).trans read
    simp [withoutLastComma, holds.written, recordsText]
  | cons entry entries =>
    have read := Json.read_spells (spells_records fits) .nil .nil
    refine (congrArg Json.read (String.toList_injective ?_)).trans read
    simp [withoutLastComma, holds.written, recordsText_cons]

theorem withoutSeparator_append {text : String} {cs : List Char}
    (same : text.toList = cs ++ [',', '\n']) : withoutSeparator text = String.ofList cs := by
  have length : (cs ++ [',', '\n']).length - separator.length = cs.length := by
    rw [List.length_append]
    exact Nat.add_sub_cancel _ 2
  rw [withoutSeparator, same, length, List.take_left]

/-- The text of a closed log. -/
def closedText : List Entry → List Char
  | [] => ['[', '\n', ']', '\n']
  | entry :: entries => '[' :: '\n' :: (Json.printPretty 0 entry.record ++
      entries.flatMap (fun entry => ',' :: '\n' :: Json.printPretty 0 entry.record) ++
        ['\n', ']', '\n'])

theorem Holds.closed_eq {log : Log} {entries : List Entry} (holds : log.Holds entries) :
    log.closed = String.ofList (closedText entries) := by
  refine String.toList_injective ?_
  cases entries with
  | nil =>
    simp [closed, holds.counted, holds.nothingPending, holds.written, recordsText, closedText]
  | cons entry entries =>
    have text : (log.written ++ log.pending).toList =
        '[' :: '\n' :: (Json.printPretty 0 entry.record ++
          entries.flatMap fun entry => ',' :: '\n' :: Json.printPretty 0 entry.record) ++
            [',', '\n'] := by
      simp [holds.nothingPending, holds.written, recordsText_cons]
    simp [closed, holds.counted, withoutSeparator_append text, closedText]

/-- The list of the records, without the end of its last line. -/
def listText : List Entry → List Char
  | [] => ['[', '\n', ']']
  | entry :: entries => '[' :: '\n' :: (Json.printPretty 0 entry.record ++
      entries.flatMap (fun entry => ',' :: '\n' :: Json.printPretty 0 entry.record) ++ ['\n', ']'])

theorem closedText_eq (entries : List Entry) :
    closedText entries = listText entries ++ Json.newline 0 := by
  cases entries <;> simp [closedText, listText, Json.newline]

theorem spells_listText {entries : List Entry} (fits : ∀ entry ∈ entries, entry.Fits) :
    Spells 127 (.arr (entries.map Entry.record)) (listText entries) := by
  cases entries with
  | nil => exact spells_nothing
  | cons entry entries => exact spells_records fits

/-- A closed log is the list of its records. -/
theorem Holds.read_closed {log : Log} {entries : List Entry} (holds : log.Holds entries)
    (fits : ∀ entry ∈ entries, entry.Fits) :
    Json.read log.closed = .ok (.arr (entries.map Entry.record)) := by
  have read := Json.read_spells (spells_listText fits) .nil (Json.blank_newline 0)
  rw [List.nil_append] at read
  rw [holds.closed_eq, closedText_eq]
  exact read

/-- **Round trip**: whatever the file had before, a new log takes every entry, and the closed file is
read as the list of their records in order. Between two calls the file is no document, and with a
bracket in the place of its last comma it is the list of the records so far. -/
theorem appendAll_round_trip (path : String) (entries : List Entry)
    (fits : ∀ entry ∈ entries, entry.Fits) :
    ∃ log full, create path (.ok ()) none = .ok log ∧ log.appendAll entries = .ok full ∧
      full.close none = (none, full.closed) ∧
      Json.read full.closed = .ok (.arr (entries.map Entry.record)) ∧
      ∀ earlier later, entries = earlier ++ later →
        ∃ now, log.appendAll earlier = .ok now ∧ now.appendAll later = .ok full ∧
          (∀ value, Json.read now.written ≠ .ok value) ∧
          (∀ before text behind, Blank before → Blank behind →
            now.written.toList = before ++ (text ++ behind) → ¬Valid text) ∧
          Json.read (withoutLastComma now.written ++ "]") =
            .ok (.arr (earlier.map Entry.record)) := by
  obtain ⟨log, created, holds⟩ := holds_create path
  obtain ⟨full, run, holdsFull⟩ := holds.appendAll entries
  refine ⟨log, full, created, run, rfl, holdsFull.read_closed fits, ?_⟩
  rintro earlier later rfl
  obtain ⟨now, runEarlier, holdsNow⟩ := holds.appendAll earlier
  obtain ⟨last, runLater, _⟩ := holdsNow.appendAll later
  have fitsEarlier : ∀ entry ∈ earlier, entry.Fits := fun entry isIn =>
    fits entry (List.mem_append_left later isIn)
  have whole : log.appendAll (earlier ++ later) = .ok last := by
    rw [appendAll_append, runEarlier]
    exact runLater
  rw [run] at whole
  rw [Except.ok.inj whole]
  exact ⟨now, runEarlier, runLater, holdsNow.not_read,
    fun _ _ _ => holdsNow.not_valid, holdsNow.read_repaired fitsEarlier⟩

/-- The round trip of a text that is no document and a value with a quote and a line end inside. -/
theorem round_trip_two_entries :
    ∃ log full, create "log.json" (.ok ()) none = .ok log ∧
      log.appendAll [.text "not json" "client-0" "t0",
        .value (.obj [("seq", .ofNat 7), ("note", .str "a \"b\"\n")]) "agent" "t1"] = .ok full ∧
      Json.read full.closed = .ok (.arr [
        .obj [("body", .str "not json"), ("from", .str "client-0"), ("timestamp", .str "t0")],
        .obj [("body", .obj [("seq", .ofNat 7), ("note", .str "a \"b\"\n")]),
          ("from", .str "agent"), ("timestamp", .str "t1")]]) := by
  have raw : Json.ofMessage "not json" = .str "not json" := rfl
  have fits : ∀ entry ∈ [Entry.text "not json" "client-0" "t0",
      .value (.obj [("seq", .ofNat 7), ("note", .str "a \"b\"\n")]) "agent" "t1"], entry.Fits := by
    intro entry isIn
    simp only [List.mem_cons, List.not_mem_nil, or_false] at isIn
    rcases isIn with rfl | rfl
    · rw [Entry.Fits, raw]
      simp [Shallow]
    · refine ⟨by simp [Shallow, Json.ofNat], .obj (by simp) ?_⟩
      intro member memberIn
      simp only [List.mem_cons, List.not_mem_nil, or_false] at memberIn
      rcases memberIn with rfl | rfl
      · exact .num _
      · exact .str _
  obtain ⟨log, full, created, run, -, read, -⟩ := appendAll_round_trip "log.json" _ fits
  exact ⟨log, full, created, run, read⟩

end Log
end TelemetryHub
