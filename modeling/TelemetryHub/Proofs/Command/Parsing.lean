import TelemetryHub.Proofs.Command.Reading

/-!
# Commands are parsed by their grammar

A text is a command exactly if what is left of it without the blanks at its ends spells a message and
the message is one of the known pairs. The command depends on the fields that the text gives and on
nothing else (`parse_grammar`).
-/

namespace TelemetryHub

/-! ## The blanks at the ends -/

namespace Text

theorem isBlank_of_isSpace {c : Char} (space : Json.isSpace c = true) : isBlank c = true := by
  simp only [Json.isSpace, Bool.or_eq_true, decide_eq_true_eq] at space
  rcases space with ((rfl | rfl) | rfl) | rfl <;> decide

theorem not_isBlank_of_head_dropWhile {cs more : List Char} {c : Char}
    (found : cs.dropWhile isBlank = c :: more) : isBlank c = false := by
  have first := List.head?_dropWhile_not isBlank cs
  rw [found] at first
  exact first

/-- A trimmed text has no blank at its front. -/
theorem not_isBlank_of_trim_cons {cs more : List Char} {c : Char} (found : trim cs = c :: more) :
    isBlank c = false := by
  have front : trim cs <+: cs.dropWhile isBlank := by
    rw [← List.reverse_suffix]
    simpa [trim, trimEnd] using List.dropWhile_suffix isBlank (l := (cs.dropWhile isBlank).reverse)
  rw [found] at front
  obtain ⟨behind, same⟩ := front
  exact not_isBlank_of_head_dropWhile same.symm

/-- A trimmed text has no blank at its end. -/
theorem not_isBlank_of_trim_append {cs front : List Char} {c : Char}
    (found : trim cs = front ++ [c]) : isBlank c = false := by
  have reversed : (cs.dropWhile isBlank).reverse.dropWhile isBlank = c :: front.reverse := by
    have both := congrArg List.reverse found
    simpa [trim, trimEnd] using both
  exact not_isBlank_of_head_dropWhile reversed

end Text

/-! ## Messages and commands -/

namespace Message

/-- The pairs of a functionality and a command that are known: start and stop, and configure except
for the sampling session. -/
def Supported (message : Message) : Prop :=
  message.command = "start" ∨ message.command = "stop" ∨
    message.command = "configure" ∧ message.functionality ≠ "perf"

theorem isSome_action?_iff (message : Message) : message.action?.isSome = true ↔ message.Supported := by
  have different : "start" ≠ "stop" ∧ "start" ≠ "configure" ∧ "stop" ≠ "configure" := by decide
  obtain ⟨functionality, command, sampleRate, time⟩ := message
  simp only [Supported, action?, sessionFunctionality]
  by_cases session : functionality = "perf"
  · by_cases start : command = "start"
    · simp [session, start]
    · by_cases stop : command = "stop" <;> simp [session, start, stop]
  · by_cases start : command = "start"
    · simp [session, start]
    · by_cases stop : command = "stop"
      · simp [session, stop, different.1.symm]
      · by_cases configure : command = "configure" <;> simp_all

theorem exists_toCommand_iff (message : Message) :
    (∃ command, message.toCommand = .ok command) ↔ message.Supported := by
  rw [← isSome_action?_iff]
  unfold toCommand
  cases message.action? <;> simp

theorem toCommand_error_iff (message : Message) (error : CommandError) :
    message.toCommand = .error error ↔
      ¬message.Supported ∧ error = .unknownAction message.functionality message.command := by
  rw [← isSome_action?_iff]
  unfold toCommand
  cases message.action? <;> simp [eq_comm]

/-- A trimmed text is read exactly if it spells a message as it stands. -/
theorem read_trim_iff (text : List Char) (message : Message) :
    read (Text.trim text) = .ok message ↔ Spells (Text.trim text) message := by
  rw [read_ok_iff]
  constructor
  · rintro ⟨before, document, behind, blank, blank', same, spells⟩
    have atFront : before = [] := by
      cases before with
      | nil => rfl
      | cons c before =>
        have space := Text.isBlank_of_isSpace (blank c List.mem_cons_self)
        rw [Text.not_isBlank_of_trim_cons same] at space
        cases space
    have atEnd : behind = [] := by
      rcases List.eq_nil_or_concat behind with nothing | ⟨front, c, rfl⟩
      · exact nothing
      · have space := Text.isBlank_of_isSpace (blank' c (by simp))
        rw [← List.append_assoc, List.concat_eq_append, ← List.append_assoc] at same
        rw [Text.not_isBlank_of_trim_append same] at space
        cases space
    rw [same, atFront, atEnd, List.nil_append, List.append_nil]
    exact spells
  · intro spells
    exact ⟨[], Text.trim text, [], .nil, .nil, by simp, spells⟩

end Message

namespace Command

open Message (Gives Says Spells Supported known)

/-- A text that spells a message is parsed as what the message stands for. -/
theorem parse_of_spells {text : String} {message : Message}
    (spells : Spells (Text.trim text.toList) message) : parse text = message.toCommand := by
  unfold parse
  rw [(Message.read_trim_iff _ _).mpr spells]

/-- A text that spells no message is malformed. -/
theorem parse_of_not_spells {text : String}
    (nothing : ∀ message, ¬Spells (Text.trim text.toList) message) :
    ∃ mistake, parse text = .error (.malformed mistake) := by
  unfold parse
  cases found : Message.read (Text.trim text.toList) with
  | error mistake => exact ⟨mistake, rfl⟩
  | ok message => exact absurd ((Message.read_trim_iff _ _).mp found) (nothing message)

/-- **Exact grammar**: a text is a command exactly if without the blanks at its ends it spells a known
pair. The command is that of the message, for every text that gives the same fields: in another order,
among other members, or as a list. A message of an unknown pair is reported as such, and every other
text is malformed. -/
theorem parse_grammar (text : String) :
    ((∃ command, parse text = .ok command) ↔
      ∃ message, Spells (Text.trim text.toList) message ∧ message.Supported) ∧
    (∀ members message, Gives (Text.trim text.toList) members → Says members message →
      parse text = message.toCommand ∧
      ∀ (text' : String) members', Gives (Text.trim text'.toList) members' →
        (known members).Perm (known members') → parse text' = message.toCommand) ∧
    (∀ functionality command, parse text = .error (.unknownAction functionality command) ↔
      ∃ message, Spells (Text.trim text.toList) message ∧ ¬message.Supported ∧
        message.functionality = functionality ∧ message.command = command) ∧
    ((∃ mistake, parse text = .error (.malformed mistake)) ↔
      ∀ message, ¬Spells (Text.trim text.toList) message) := by
  refine ⟨⟨?_, ?_⟩, ?_, fun functionality command => ⟨?_, ?_⟩, ⟨?_, parse_of_not_spells⟩⟩
  · rintro ⟨command, parsed⟩
    by_cases spelled : ∃ message, Spells (Text.trim text.toList) message
    · obtain ⟨message, spells⟩ := spelled
      rw [parse_of_spells spells] at parsed
      exact ⟨message, spells, message.exists_toCommand_iff.mp ⟨command, parsed⟩⟩
    · obtain ⟨mistake, malformed⟩ := parse_of_not_spells (not_exists.mp spelled)
      rw [malformed] at parsed
      cases parsed
  · rintro ⟨message, spells, supported⟩
    rw [parse_of_spells spells]
    exact message.exists_toCommand_iff.mpr supported
  · intro members message gives said
    refine ⟨parse_of_spells ⟨members, gives, said⟩, ?_⟩
    intro text' members' gives' perm
    exact parse_of_spells ⟨members', gives', said.of_perm perm⟩
  · intro unknown
    by_cases spelled : ∃ message, Spells (Text.trim text.toList) message
    · obtain ⟨message, spells⟩ := spelled
      rw [parse_of_spells spells] at unknown
      obtain ⟨unsupported, same⟩ := (message.toCommand_error_iff _).mp unknown
      cases same
      exact ⟨message, spells, unsupported, rfl, rfl⟩
    · obtain ⟨mistake, malformed⟩ := parse_of_not_spells (not_exists.mp spelled)
      rw [malformed] at unknown
      cases unknown
  · rintro ⟨message, spells, unsupported, rfl, rfl⟩
    rw [parse_of_spells spells]
    exact (message.toCommand_error_iff _).mpr ⟨unsupported, rfl⟩
  · rintro ⟨mistake, malformed⟩ message spells
    rw [parse_of_spells spells] at malformed
    obtain ⟨-, same⟩ := (message.toCommand_error_iff _).mp malformed
    cases same

end Command

end TelemetryHub
