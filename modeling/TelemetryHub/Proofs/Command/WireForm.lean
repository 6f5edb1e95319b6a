import TelemetryHub.Proofs.Command.Parsing
import TelemetryHub.Proofs.Json.Printing
import TelemetryHub.Source

/-!
# The wire form of a command

A command is written as the compact form of its message. The printed message is an object of the
fields that it has (`gives_compact`), so parsing gives the command back, and every command that comes
out of a text or a script is one that can be written so.
-/

namespace TelemetryHub

namespace Text

/-- A text that neither begins nor ends with a blank is left as it is. -/
theorem trim_visible {c d : Char} {inside : List Char} (first : isBlank c = false)
    (last : isBlank d = false) : trim (c :: (inside ++ [d])) = c :: (inside ++ [d]) := by
  simp [trim, trimEnd, first, last]

end Text

namespace Message

open Json (Divided Enclosed StringText ScalarText compactMember)

/-- The members that give the fields of a message. -/
def given (message : Message) : List Member :=
  [.functionality message.functionality, .command message.command] ++
    (message.sampleRate.map fun rate => .sampleRate (some rate)).toList ++
    (message.time.map fun seconds => .time (some seconds)).toList

/-- A member of a document that gives a field. -/
def Member.entry (member : Member) : String × Json := (member.key, member.value?.getD .null)

theorem entries_given (message : Message) : (given message).map Member.entry = message.members := by
  obtain ⟨functionality, command, sampleRate, time⟩ := message
  cases sampleRate <;> cases time <;> rfl

theorem says_given (message : Message) : Says (given message) message := by
  obtain ⟨functionality, command, sampleRate, time⟩ := message
  constructor
  · cases sampleRate <;> cases time <;> simp [given, fieldsIn, Member.field?]
  · simp [given]
  · simp [given]
  · cases sampleRate with
    | none => cases time <;> simp [given, fieldsIn, Member.field?]
    | some rate => simp [given]
  · cases time with
    | none => cases sampleRate <;> simp [given, fieldsIn, Member.field?]
    | some seconds => simp [given]

theorem spelled_entry {member : Member} {field : Field} (gives : member.field? = some field) :
    member.Spelled (compactMember member.entry) := by
  have value : member.ValueText (Json.printCompact member.entry.2) := by
    cases member with
    | functionality s => exact Json.stringText_print s
    | command s => exact Json.stringText_print s
    | sampleRate rate => cases rate <;> rfl
    | time seconds => cases seconds <;> rfl
    | other key unknown => cases gives
  exact ⟨_, [], [], _, rfl, Json.stringText_print member.key, .nil, .nil, value⟩

/-- The compact form of a message is an object of its fields. -/
theorem gives_compact (message : Message) : ∃ inside,
    Json.printCompact message.toJson = '\x7b' :: (inside ++ ['\x7d']) ∧
      Gives ('\x7b' :: (inside ++ ['\x7d'])) (given message) := by
  have each : ∀ member ∈ given message, member.Spelled (compactMember member.entry) := by
    intro member isIn
    obtain ⟨field, gives⟩ : ∃ field, member.field? = some field := by
      obtain ⟨functionality, command, sampleRate, time⟩ := message
      cases sampleRate <;> cases time <;>
        simp only [given, Option.map_none, Option.map_some, Option.toList_none, Option.toList_some,
          List.append_nil, List.cons_append, List.nil_append, List.mem_cons, List.not_mem_nil,
          or_false] at isIn <;>
        rcases isIn with rfl | rfl | rfl | rfl <;> exact ⟨_, rfl⟩
    exact spelled_entry gives
  obtain ⟨first, others, begins⟩ : ∃ first others, given message = first :: others := ⟨_, _, rfl⟩
  rw [begins] at each ⊢
  refine ⟨_, ?_, .object (.some (Divided.ofPrinted .nil .nil each))⟩
  rw [toJson, ← entries_given, begins, List.map_cons, Json.printCompact, Json.printCompactMembers_eq,
    List.flatMap_map]
  simp [compactMember]

end Message

namespace Command

/-- The wire form of a command. -/
def wire (command : Command) : String := command.message.toJson.compact

/-- A command is parsed back from its wire form. -/
theorem parse_wire {command : Command} (wellFormed : command.WellFormed) :
    parse command.wire = .ok command := by
  obtain ⟨inside, printed, gives⟩ := Message.gives_compact command.message
  have trimmed : Text.trim command.wire.toList = '\x7b' :: (inside ++ ['\x7d']) := by
    rw [wire, Json.compact, String.toList_ofList, printed]
    exact Text.trim_visible (by decide) (by decide)
  have spells : Message.Spells (Text.trim command.wire.toList) command.message := by
    rw [trimmed]
    exact ⟨_, gives, Message.says_given command.message⟩
  rw [parse_of_spells spells]
  exact toCommand_message wellFormed

theorem wellFormed_of_parse {text : String} {command : Command} (parsed : parse text = .ok command) :
    command.WellFormed := by
  unfold parse at parsed
  split at parsed
  · exact wellFormed_of_toCommand parsed
  · cases parsed

theorem wellFormed_of_ofJson {value : Json} {command : Command}
    (converted : ofJson value = .ok command) : command.WellFormed := by
  unfold ofJson at converted
  split at converted
  · exact wellFormed_of_toCommand converted
  · cases converted

theorem wellFormed_of_select {index : Nat} {items : List Json} {command : Command}
    (selected : command ∈ (Script.select index items).1) : command.WellFormed := by
  induction items generalizing index with
  | nil => cases selected
  | cons item items ih =>
    simp only [Script.select] at selected
    split at selected
    · next converted =>
      rcases List.mem_cons.mp selected with rfl | later
      · exact wellFormed_of_ofJson converted
      · exact ih later
    · exact ih selected

theorem wellFormed_of_load {path : String} {bytes : Except Failure (List UInt8)} {clock : Countdown}
    {script : Script} {warnings : List String}
    (loaded : Script.load path bytes clock = .ok (script, warnings)) {command : Command}
    (isIn : command ∈ script.pending) : command.WellFormed := by
  unfold Script.load at loaded
  split at loaded
  · cases loaded
  · split at loaded
    · cases loaded
    · cases loaded
      exact wellFormed_of_select isIn

/-- **Wire round trip**: the commands that come out of texts and scripts are the well-formed ones, each
of them is parsed back from its wire form, and an accepted text keeps the wire form of its command. -/
theorem wire_round_trip :
    (∀ command : Command, command.WellFormed ↔ ∃ text, parse text = .ok command) ∧
    (∀ path bytes clock script warnings, Script.load path bytes clock = .ok (script, warnings) →
      ∀ command ∈ script.pending, command.WellFormed) ∧
    (∀ command : Command, command.WellFormed → parse command.wire = .ok command) ∧
    (∀ text command, parse text = .ok command → ∃ again, parse command.wire = .ok again ∧
      Text.encode again.wire.toList = Text.encode command.wire.toList) := by
  refine ⟨fun command => ⟨fun wellFormed => ⟨command.wire, parse_wire wellFormed⟩, ?_⟩, ?_,
    fun command => parse_wire, ?_⟩
  · rintro ⟨text, parsed⟩
    exact wellFormed_of_parse parsed
  · intro path bytes clock script warnings loaded command isIn
    exact wellFormed_of_load loaded isIn
  · intro text command parsed
    exact ⟨command, parse_wire (wellFormed_of_parse parsed), rfl⟩

end Command

end TelemetryHub
