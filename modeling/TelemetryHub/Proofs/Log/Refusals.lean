import TelemetryHub.Proofs.Log.Legible
import TelemetryHub.Proofs.Text.Utf8

/-!
# What refused records come to

A device can refuse a record and take the next one. The record is in the log's buffer then, and nothing takes
it out again: the call fails and does not count, but the text goes to the file with the next one that is
taken, or with the end of the list (`Stands`). So the closed file has the records of all calls, if one of
them was taken; if none was, its list ends with a comma and is no document (`not_document_trailing_comma`).
All of this is about records that fit into the buffer as long as they have to wait there (`Buffered`).
-/

namespace TelemetryHub

namespace Json

/-! ## Lists with a comma at their end -/

/-- The last character of a text is neither a blank nor a comma. -/
def Closes (text : List Char) : Prop := ∃ front c, text = front ++ [c] ∧ isSpace c = false ∧ c ≠ ','

theorem Closes.behind (front : List Char) {back : List Char} (closes : Closes back) :
    Closes (front ++ back) := by
  obtain ⟨before, c, rfl, visible, other⟩ := closes
  exact ⟨front ++ before, c, (List.append_assoc ..).symm, visible, other⟩

theorem Digits.closes {digits : List Char} (all : Digits digits) : Closes digits := by
  obtain ⟨nonempty, all⟩ := all
  have digit := all _ (List.getLast_mem nonempty)
  refine ⟨digits.dropLast, digits.getLast nonempty, (List.dropLast_append_getLast nonempty).symm, ?_, ?_⟩
  · generalize digits.getLast nonempty = c at digit
    refine Bool.eq_false_iff.mpr fun blank => ?_
    simp only [isSpace, Bool.or_eq_true, decide_eq_true_eq] at blank
    rcases blank with ((rfl | rfl) | rfl) | rfl <;> exact absurd digit (by decide)
  · intro comma
    rw [comma] at digit
    exact absurd digit (by decide)

theorem NumeralText.closes {text : List Char} (numeral : NumeralText text) : Closes text := by
  obtain ⟨sign, integer, fraction, exponent, rfl, -, whole, fractional, exponential⟩ := numeral
  refine .behind sign ?_
  rcases exponential with rfl | ⟨letter, sign, digits, rfl, -, -, all⟩
  · rw [List.append_nil]
    rcases fractional with rfl | ⟨digits, rfl, all⟩
    · rw [List.append_nil]
      rcases whole with rfl | ⟨all, -⟩
      · exact ⟨[], '0', rfl, by decide, by decide⟩
      · exact all.closes
    · exact (all.closes.behind ['.']).behind integer
  · exact (((all.closes.behind sign).behind [letter]).behind fraction).behind integer

theorem Valid.closes {text : List Char} (valid : Valid text) : Closes text := by
  have scalar : ValidScalar text → Closes text := by
    rintro (rfl | rfl | rfl | numeral | ⟨body, rfl, -⟩)
    · exact ⟨"nul".toList, 'l', rfl, by decide, by decide⟩
    · exact ⟨"tru".toList, 'e', rfl, by decide, by decide⟩
    · exact ⟨"fals".toList, 'e', rfl, by decide, by decide⟩
    · exact numeral.closes
    · exact ⟨'"' :: body, '"', rfl, by decide, by decide⟩
  obtain ⟨depth, valid⟩ := valid
  cases depth with
  | zero => exact scalar valid
  | succ depth =>
    rcases valid with isScalar | ⟨container, parts, enclosed⟩
    · exact scalar isScalar
    · have other : container.closing ≠ ',' := by cases container <;> decide
      cases enclosed with
      | none => exact ⟨_ :: _, container.closing, rfl, container.isSpace_closing, other⟩
      | some => exact ⟨_ :: _, container.closing, rfl, container.isSpace_closing, other⟩

/-- Behind the last part there are only blanks. -/
theorem Divided.closes {α : Type} {part : α → List Char → Prop} {xs : List α} {body : List Char}
    (divided : Divided part xs body) (closes : ∀ x text, part x text → Closes text) :
    ∃ front blanks, Closes front ∧ Blank blanks ∧ body = front ++ blanks := by
  induction divided with
  | @one x before text behind _ reads blank =>
    exact ⟨before ++ text, behind, (closes x text reads).behind before, blank, by simp⟩
  | @more x xs before text behind rest _ _ _ _ ih =>
    obtain ⟨front, blanks, closed, blank, rfl⟩ := ih
    exact ⟨before ++ (text ++ (behind ++ [','])) ++ front, blanks, closed.behind _, blank, by simp⟩

/-- A list does not end with a comma. -/
theorem not_valid_trailing_comma (inside : List Char) {blanks : List Char} (blank : Blank blanks) :
    ¬Valid ('[' :: (inside ++ ',' :: (blanks ++ [']']))) := by
  intro valid
  obtain ⟨depth, parts, enclosed⟩ := valid.list
  have shape : inside ++ ',' :: (blanks ++ [']']) = inside ++ ',' :: blanks ++ [']'] := by simp
  rw [shape] at enclosed
  generalize whole : '[' :: (inside ++ ',' :: blanks ++ [']']) = text at enclosed
  cases enclosed with
  | @none blanks' blank' =>
    have same := List.append_cancel_right (List.cons.inj whole).2
    have isBlank := blank' ',' (same ▸ List.mem_append_right inside List.mem_cons_self)
    exact absurd isBlank (by decide)
  | some divided =>
    obtain ⟨_, blanks', ⟨front, c, rfl, visible, other⟩, blank', same⟩ :=
      divided.closes fun _ _ valid => Valid.closes ⟨depth, valid⟩
    -- both the comma and the end of the last part are the last character that is no blank
    have found := skipSpace_reverse inside blank (rfl : isSpace ',' = false)
    have found' := skipSpace_reverse front blank' visible
    rw [List.append_assoc, List.singleton_append] at same
    rw [List.append_cancel_right (List.cons.inj whole).2, same, found'] at found
    exact other (List.cons.inj found).1

/-- A text of a list that ends with a comma is no document, with blanks around it or without. -/
theorem not_document_trailing_comma {inside blanks behind before list rest : List Char} (blank : Blank blanks)
    (blankBehind : Blank behind) (blankBefore : Blank before) (blankRest : Blank rest)
    (same : '[' :: (inside ++ ',' :: (blanks ++ ']' :: behind)) = before ++ (list ++ rest)) : ¬Valid list := by
  intro valid
  obtain ⟨inside', rfl, ends⟩ := valid.exists_inside blankBefore same
  -- both ways the last bracket is the one behind which there are only blanks
  have closing := skipSpace_reverse inside' blankRest (rfl : isSpace ']' = false)
  have closing' := skipSpace_reverse (inside ++ ',' :: blanks) blankBehind (rfl : isSpace ']' = false)
  rw [List.append_assoc, List.cons_append, ends, closing] at closing'
  have same' := List.reverse_inj.mp (List.cons.inj closing').2
  rw [same', List.append_assoc, List.cons_append] at valid
  exact not_valid_trailing_comma inside blank valid

end Json

namespace Log

open Json (Blank Nested Valid)

/-! ## Calls on a device that may refuse -/

/-- A call on the log, and the answer of the device if it takes nothing during the call. -/
structure Attempt where
  entry : Entry
  refusal : Option Failure

def Attempt.append (log : Log) (attempt : Attempt) : Option Failure × Log :=
  match attempt.entry with
  | .text message source now => log.appendText message source now attempt.refusal
  | .value body source now => log.append body source now attempt.refusal

/-- Calls one after the other, whatever comes of each. -/
def attemptAll (log : Log) : List Attempt → Log
  | [] => log
  | attempt :: attempts => (attempt.append log).2.attemptAll attempts

/-- The entries of the calls that succeed. -/
def taken (log : Log) : List Attempt → List Entry
  | [] => []
  | attempt :: attempts =>
    match attempt.append log with
    | (none, log) => attempt.entry :: log.taken attempts
    | (some _, log) => log.taken attempts

/-- The calls that are not refused. -/
def accepted (attempts : List Attempt) : List Attempt := attempts.filter fun attempt => attempt.refusal.isNone

theorem mem_accepted {attempt : Attempt} {attempts : List Attempt} :
    attempt ∈ accepted attempts ↔ attempt ∈ attempts ∧ attempt.refusal = none := by
  rw [accepted, List.mem_filter, Option.isNone_iff_eq_none]

/-- The text of an entry in the file. -/
def Entry.line (entry : Entry) : String := entry.record.pretty ++ separator

/-- The records of calls, each with the separator behind it. -/
def attemptsText (attempts : List Attempt) : List Char := recordsText (attempts.map Attempt.entry)

theorem attemptsText_append (first second : List Attempt) :
    attemptsText (first ++ second) = attemptsText first ++ attemptsText second := by
  simp [attemptsText, recordsText]

theorem attemptsText_singleton (attempt : Attempt) : attemptsText [attempt] = attempt.entry.line.toList := by
  simp [attemptsText, recordsText, Entry.line, Json.pretty, separator]

/-- How many bytes the buffer has room for. More than these would be sent to the device before the end of a
call, which then is not refused as a whole. -/
def capacity : Nat := 8192

/-- Records that are refused one behind the other fit into the buffer together. -/
def Buffered (attempts : List Attempt) : Prop :=
  ∀ run, run <:+: attempts → (∀ attempt ∈ run, attempt.refusal ≠ none) →
    (Text.encode (attemptsText run)).length ≤ capacity

theorem buffered_of_short {attempts : List Attempt}
    (short : (Text.encode (attemptsText attempts)).length ≤ capacity) : Buffered attempts := by
  rintro run ⟨front, back, rfl⟩ -
  refine Nat.le_trans ?_ short
  simp only [attemptsText_append, Text.encode_append, List.length_append]
  omega

/-- A call that is refused leaves its record on the way to the file. -/
theorem Attempt.append_of_refused {attempt : Attempt} {failure : Failure}
    (refused : attempt.refusal = some failure) (log : Log) :
    attempt.append log = (some failure, { log with pending := log.pending ++ attempt.entry.line }) := by
  obtain ⟨entry, _⟩ := attempt
  cases refused
  cases entry <;> rfl

/-- A call that is taken brings everything that is on the way to the file. -/
theorem Attempt.append_of_taken {attempt : Attempt} (accepts : attempt.refusal = none) (log : Log) :
    attempt.append log =
      (none, { log with
        written := log.written ++ (log.pending ++ attempt.entry.line)
        pending := ""
        records := log.records + 1 }) := by
  obtain ⟨entry, _⟩ := attempt
  cases accepts
  cases entry <;> rfl

/-- The calls that the device does not refuse are the ones that succeed. -/
theorem taken_eq (log : Log) (attempts : List Attempt) :
    log.taken attempts = (accepted attempts).map Attempt.entry := by
  induction attempts generalizing log with
  | nil => rfl
  | cons attempt attempts ih =>
    unfold taken accepted
    cases refusal : attempt.refusal with
    | none =>
      rw [Attempt.append_of_taken refusal, List.filter_cons_of_pos (by rw [refusal]; rfl), List.map_cons]
      exact congrArg (attempt.entry :: ·) (ih _)
    | some failure =>
      rw [Attempt.append_of_refused refusal, List.filter_cons_of_neg (by rw [refusal]; exact nofun)]
      exact ih _

/-! ## What the log has -/

/-- How a log stands behind calls. -/
structure Stands (log : Log) (attempts : List Attempt) : Prop where
  /-- The file has the records up to the last one that was taken, the refused ones among them too; the
  records that were refused since are on their way. -/
  file : ∃ flushed waiting, attempts = flushed ++ waiting ∧
    log.written.toList = '[' :: '\n' :: attemptsText flushed ∧ log.pending.toList = attemptsText waiting ∧
    (∀ last, flushed.getLast? = some last → last.refusal = none) ∧
    ∀ attempt ∈ waiting, attempt.refusal ≠ none
  /-- The records that were taken are counted. -/
  counted : log.records = (accepted attempts).length

theorem stands_create (path : String) :
    ∃ log, create path (.ok ()) none = .ok log ∧ log.Stands [] :=
  ⟨⟨path, "" ++ "[\n", "", 0⟩, rfl, ⟨[], [], rfl, by simp [attemptsText, recordsText], rfl, nofun, nofun⟩, rfl⟩

variable {log : Log} {before attempts : List Attempt}

/-- **Step**: a refused record waits, a record that is taken brings along the ones that wait. -/
theorem Stands.append (stands : log.Stands before) (attempt : Attempt) :
    (attempt.append log).2.Stands (before ++ [attempt]) := by
  obtain ⟨flushed, waiting, rfl, written, pending, last, refused⟩ := stands.file
  cases refusal : attempt.refusal with
  | some failure =>
    rw [Attempt.append_of_refused refusal]
    refine ⟨⟨flushed, waiting ++ [attempt], List.append_assoc .., written, ?_, last, ?_⟩, ?_⟩
    · rw [String.toList_append, pending, attemptsText_append, attemptsText_singleton]
    · intro other isIn
      rcases List.mem_append.mp isIn with earlier | now
      · exact refused other earlier
      · rw [List.mem_singleton.mp now, refusal]
        exact nofun
    · simp [stands.counted, accepted, refusal]
  | none =>
    rw [Attempt.append_of_taken refusal]
    refine ⟨⟨flushed ++ waiting ++ [attempt], [], by simp, ?_, rfl, ?_, by simp⟩, ?_⟩
    · simp [written, pending, attemptsText_append, attemptsText_singleton]
    · intro other isLast
      rw [List.getLast?_concat] at isLast
      rwa [← Option.some.inj isLast]
    · simp [stands.counted, accepted, refusal, Nat.add_assoc]

theorem Stands.attemptAll (stands : log.Stands before) (attempts : List Attempt) :
    (log.attemptAll attempts).Stands (before ++ attempts) := by
  induction attempts generalizing log before with
  | nil => rwa [List.append_nil]
  | cons attempt attempts ih =>
    rw [List.append_cons]
    exact ih (stands.append attempt)

theorem Stands.text (stands : log.Stands attempts) :
    (log.written ++ log.pending).toList = '[' :: '\n' :: attemptsText attempts := by
  obtain ⟨flushed, waiting, rfl, written, pending, -⟩ := stands.file
  rw [String.toList_append, written, pending, attemptsText_append]
  rfl

/-! ## The closed file -/

/-- A log that has counted a record, or has no record at all, is closed like one to which all calls were
taken. -/
theorem Stands.closed_of_taken (stands : log.Stands attempts)
    (someTaken : attempts = [] ∨ log.records ≠ 0) :
    ∃ other : Log, log.closed = other.closed ∧ other.Holds (attempts.map Attempt.entry) := by
  refine ⟨⟨log.path, log.written ++ log.pending, "", attempts.length⟩, ?_, stands.text, rfl, by simp⟩
  rcases someTaken with rfl | counted
  · have none : log.records = 0 := stands.counted
    simp [closed, none]
  · have some : attempts.length ≠ 0 := by
      rintro empty
      rw [List.length_eq_zero_iff.mp empty] at stands
      exact counted stands.counted
    simp [closed, counted, some]

/-- A log that has records and has counted none is closed behind a comma. -/
theorem Stands.not_document (stands : log.Stands attempts) (nonempty : attempts ≠ []) (none : log.records = 0)
    {start text behind : List Char} (blank : Blank start) (blank' : Blank behind)
    (same : log.closed.toList = start ++ (text ++ behind)) : ¬Valid text := by
  have nothing : Blank ['\n'] := Json.blank_newline 0
  obtain ⟨first, others, rfl⟩ := List.exists_cons_of_ne_nil nonempty
  have shape : log.closed.toList = '[' :: ('\n' :: (Json.printPretty 0 first.entry.record ++
      (others.map Attempt.entry).flatMap fun entry => ',' :: '\n' :: Json.printPretty 0 entry.record) ++
        ',' :: (['\n'] ++ ']' :: ['\n'])) := by
    rw [closed, if_pos none, String.toList_append, stands.text, attemptsText, List.map_cons, recordsText_cons]
    simp
  exact Json.not_document_trailing_comma nothing nothing blank blank' (shape.symm.trans same)

/-- A closed log is read if something was taken or nothing was tried, and no message is too deep; then as the
list of all records, the refused ones among them too. -/
theorem Stands.read_iff (stands : log.Stands attempts) (sane : ∀ attempt ∈ attempts, attempt.entry.Sane)
    (value : Json) :
    Json.read log.closed = .ok value ↔ (attempts = [] ∨ log.records ≠ 0) ∧
      (∀ attempt ∈ attempts, Nested 125 attempt.entry.body) ∧
      value = Json.reread (recordList (attempts.map Attempt.entry)) := by
  by_cases someTaken : attempts = [] ∨ log.records ≠ 0
  · obtain ⟨other, same, holds⟩ := stands.closed_of_taken someTaken
    have read := holds.read_closed_iff (by simpa using sane) value
    rw [← same, List.forall_mem_map] at read
    rw [read, and_iff_right someTaken]
  · rw [not_or, not_not] at someTaken
    refine ⟨fun read => ?_, fun all => absurd all.1 (by simpa using someTaken)⟩
    obtain ⟨start, list, rest, blank, blank', same, valid⟩ := Json.document_of_read read
    exact absurd valid (stands.not_document someTaken.1 someTaken.2 blank blank' same)

theorem length_of_reread_eq {entries entries' : List Entry}
    (same : Json.reread (recordList entries) = Json.reread (recordList entries')) :
    entries.length = entries'.length := by
  rw [recordList, recordList, Json.reread, Json.reread, Json.rereadItems_eq, Json.rereadItems_eq] at same
  simpa using congrArg List.length (Json.arr.inj same)

/-- What a log has behind calls that a device has refused or not. -/
structure Retains (log : Log) (attempts : List Attempt) : Prop where
  stands : (log.attemptAll attempts).Stands attempts
  counted : (log.attemptAll attempts).records = (log.taken attempts).length
  /-- A call that is refused changes neither the file nor the count; its record waits in the buffer. -/
  refused : ∀ earlier attempt later failure, attempts = earlier ++ attempt :: later →
    attempt.refusal = some failure →
      let now := log.attemptAll earlier
      attempt.append now = (some failure, { now with pending := now.pending ++ attempt.entry.line })
  buffered : ∀ earlier, earlier <+: attempts →
    (Text.encode (log.attemptAll earlier).pending.toList).length ≤ capacity
  closes : (log.attemptAll attempts).close none = (none, (log.attemptAll attempts).closed)
  /-- The closed file is read as the list of all records, if at least one was taken. -/
  read_iff : ∀ value, Json.read (log.attemptAll attempts).closed = .ok value ↔
    (attempts = [] ∨ log.taken attempts ≠ []) ∧
      (∀ attempt ∈ attempts, Nested 125 attempt.entry.body) ∧
      value = Json.reread (recordList (attempts.map Attempt.entry))
  /-- If all were refused, it is no document. -/
  unread : attempts ≠ [] → log.taken attempts = [] → ∀ before text behind, Blank before → Blank behind →
    (log.attemptAll attempts).closed.toList = before ++ (text ++ behind) → ¬Valid text
  /-- So it has just the records that were taken if and only if nothing was refused. -/
  exact_iff : (∀ attempt ∈ attempts, Nested 125 attempt.entry.body) →
    (Json.read (log.attemptAll attempts).closed = .ok (Json.reread (recordList (log.taken attempts))) ↔
      ∀ attempt ∈ attempts, attempt.refusal = none)

theorem Stands.buffered (stands : log.Stands before) (fits : Buffered attempts) (front : before <+: attempts) :
    (Text.encode log.pending.toList).length ≤ capacity := by
  obtain ⟨flushed, waiting, rfl, -, pending, -, refused⟩ := stands.file
  rw [pending]
  exact fits waiting ((List.suffix_append flushed waiting).isInfix.trans front.isInfix) refused

theorem retains {log : Log} (started : log.Stands []) {attempts : List Attempt} (fits : Buffered attempts)
    (sane : ∀ attempt ∈ attempts, attempt.entry.Sane) : log.Retains attempts := by
  have stands : (log.attemptAll attempts).Stands attempts := started.attemptAll attempts
  have counted : (log.attemptAll attempts).records = (log.taken attempts).length := by
    rw [stands.counted, taken_eq, List.length_map]
  have read_iff : ∀ value, Json.read (log.attemptAll attempts).closed = .ok value ↔
      (attempts = [] ∨ log.taken attempts ≠ []) ∧
        (∀ attempt ∈ attempts, Nested 125 attempt.entry.body) ∧
        value = Json.reread (recordList (attempts.map Attempt.entry)) := by
    intro value
    rw [stands.read_iff sane value, counted, Ne, List.length_eq_zero_iff]
  refine
    { stands, counted, read_iff
      refused := fun _ _ _ _ _ refused => Attempt.append_of_refused refused _
      buffered := fun earlier front => (started.attemptAll earlier).buffered fits front
      closes := rfl
      unread := fun nonempty nothing _ _ _ => stands.not_document nonempty (by rw [counted, nothing]; rfl)
      exact_iff := fun nested => ?_ }
  rw [read_iff, and_iff_right nested]
  constructor
  · rintro ⟨-, same⟩
    have length := length_of_reread_eq same
    rw [taken_eq, List.length_map, List.length_map] at length
    have all := List.filter_sublist.eq_of_length length
    exact fun attempt isIn => (mem_accepted.mp (all ▸ isIn)).2
  · intro accepts
    have all : log.taken attempts = attempts.map Attempt.entry := by
      rw [taken_eq, accepted, List.filter_eq_self.mpr fun attempt isIn => by rw [accepts attempt isIn]; rfl]
    refine ⟨?_, by rw [all]⟩
    rw [all, Ne, List.map_eq_nil_iff]
    exact em _

/-- **Refused records**: whatever a device refuses and takes in between, the closed file has the records of
all calls or is no document; it has just those that were taken if and only if no call was refused. -/
theorem refused_records_come_along (path : String) {attempts : List Attempt} (fits : Buffered attempts)
    (sane : ∀ attempt ∈ attempts, attempt.entry.Sane) :
    ∃ log, create path (.ok ()) none = .ok log ∧ log.Retains attempts := by
  obtain ⟨log, created, stands⟩ := stands_create path
  exact ⟨log, created, retains stands fits sane⟩

/-- One record that a full device refuses, and one that it takes. -/
def lostAndKept : List Attempt :=
  [⟨.value (.str "lost") "agent" "noon", some (.system .noSpace)⟩,
    ⟨.value (.str "kept") "agent" "one", none⟩]

theorem sane_lostAndKept : ∀ attempt ∈ lostAndKept, attempt.entry.Sane := by
  intro attempt isIn
  simp only [lostAndKept, List.mem_cons, List.not_mem_nil, or_false] at isIn
  rcases isIn with rfl | rfl <;> exact ⟨.str _, .str _⟩

theorem buffered_lostAndKept : Buffered lostAndKept := buffered_of_short (by decide +kernel)

/-- The record that was refused is in the file as well. -/
theorem refused_records_come_along_lost :
    Buffered lostAndKept ∧ (∀ attempt ∈ lostAndKept, attempt.entry.Sane) ∧
      ∃ log, create "log" (.ok ()) none = .ok log ∧ log.Retains lostAndKept ∧
        Json.read (log.attemptAll lostAndKept).closed = .ok (.arr [
          .obj [("body", .str "lost"), ("from", .str "agent"), ("timestamp", .str "noon")],
          .obj [("body", .str "kept"), ("from", .str "agent"), ("timestamp", .str "one")]]) := by
  obtain ⟨log, created, retained⟩ := refused_records_come_along "log" buffered_lostAndKept sane_lostAndKept
  cases (show create "log" (.ok ()) none = .ok ⟨"log", "[\n", "", 0⟩ from rfl).symm.trans created
  have read := retained.read_iff
  refine ⟨buffered_lostAndKept, sane_lostAndKept, _, created, retained, (read _).mpr ⟨.inr ?_, ?_, rfl⟩⟩
  · exact List.cons_ne_nil _ _
  · intro attempt isIn
    simp only [lostAndKept, List.mem_cons, List.not_mem_nil, or_false] at isIn
    rcases isIn with rfl | rfl <;> simp [Entry.body, Nested]

/-- **A refused record is in the file**: the first call fails and leaves the file and the count as they are,
and yet its record is in the closed file, in front of the one that was taken. Where nothing else is tried the
closed file is no document. -/
theorem refused_record_is_read :
    ∃ log, create "log" (.ok ()) none = .ok log ∧
      log.taken lostAndKept = [.value (.str "kept") "agent" "one"] ∧
      (log.attemptAll lostAndKept).close none = (none, (log.attemptAll lostAndKept).closed) ∧
      Json.read (log.attemptAll lostAndKept).closed ≠
        .ok (Json.reread (recordList (log.taken lostAndKept))) ∧
      ∀ before text behind, Blank before → Blank behind →
        (log.attemptAll (lostAndKept.take 1)).closed.toList = before ++ (text ++ behind) → ¬Valid text := by
  obtain ⟨log, created, stands⟩ := stands_create "log"
  cases (show create "log" (.ok ()) none = .ok ⟨"log", "[\n", "", 0⟩ from rfl).symm.trans created
  have retained := retains stands buffered_lostAndKept sane_lostAndKept
  refine ⟨_, created, rfl, rfl, fun read => ?_, ?_⟩
  · have fewer := length_of_reread_eq ((retained.read_iff _).mp read).2.2
    exact absurd fewer (by decide)
  · intro _ _ _
    exact (stands.attemptAll (lostAndKept.take 1)).not_document (List.cons_ne_nil _ _) rfl

end Log
end TelemetryHub
