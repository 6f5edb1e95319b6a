import TelemetryHub.Proofs.Command.WireForm
import TelemetryHub.Proofs.Server.Refusals
import TelemetryHub.Proofs.Source.Loading

/-!
# A command is recovered from the log

A text is logged as what the reader of documents makes of it, while its command is read by another
reader. What is logged still tells the command (`Tells`): where the document was made, its compact form
is parsed as the very command of the text (`parse_compact`), though the document has put the members
with one key together; and where no document was made, the record has the text itself. The reason is
that the fields of a text that is a command are given once (`fieldsOnce_of_parse`), and that a printed
form has every key once (`givenOnce_compact`).
-/

namespace TelemetryHub

namespace Json

/-! ## Values without doubles -/

/-- The value has no double. -/
inductive Integral : Json → Prop where
  | null : Integral .null
  | bool (b : Bool) : Integral (.bool b)
  | whole (n : Whole) : Integral (.num (.whole n))
  | str (s : String) : Integral (.str s)
  | arr {items : List Json} (each : ∀ item ∈ items, Integral item) : Integral (.arr items)
  | obj {members : Members} (each : ∀ member ∈ members, Integral member.2) : Integral (.obj members)

theorem Shallow.mono {depth depth' : Nat} {v : Json} (shallow : Shallow depth v)
    (more : depth ≤ depth') : Shallow depth' v := by
  induction depth generalizing v depth' with
  | zero =>
    cases v with
    | num n => cases n <;> cases depth' <;> simp [Shallow] at shallow ⊢
    | arr items => simp [Shallow] at shallow
    | obj members => simp [Shallow] at shallow
    | _ => cases depth' <;> simp [Shallow]
  | succ depth ih =>
    obtain ⟨depth', rfl⟩ := Nat.exists_eq_add_of_le' (Nat.le_trans (Nat.succ_pos depth) more)
    have inner : depth ≤ depth' := Nat.le_of_succ_le_succ more
    cases v with
    | num n => cases n <;> simp [Shallow] at shallow ⊢
    | arr items => exact fun item isIn => ih (shallow item isIn) inner
    | obj members => exact fun member isIn => ih (shallow member isIn) inner
    | _ => simp [Shallow]

theorem Integral.exists_shallow {v : Json} (integral : Integral v) : ∃ depth, Shallow depth v := by
  induction integral with
  | null | bool | whole | str => exact ⟨0, by simp [Shallow]⟩
  | arr _ ih =>
    obtain ⟨depth, shallow⟩ := exists_bound (P := Shallow) (fun le shallow => shallow.mono le) ih
    exact ⟨depth + 1, shallow⟩
  | obj _ ih =>
    obtain ⟨depth, shallow⟩ :=
      exists_bound (P := fun depth (member : String × Json) => Shallow depth member.2)
        (fun le shallow => shallow.mono le) ih
    exact ⟨depth + 1, shallow⟩

/-! ## The compact form as a text -/

/-- Blanks in front of a value are skipped. -/
theorem value_blank {blanks : List Char} (blank : Blank blanks) (depth : Nat) (cs : List Char) :
    value depth (blanks ++ cs) = value depth cs := by
  cases depth <;> rw [value, value, skipSpace_append blank]

/-- A spelling is read as its value up to its end, and is valid by its syntax. -/
theorem Spells.read {depth : Nat} {v : Json} {text : List Char} (spells : Spells depth v text) :
    value depth (text ++ []) = .ok (v, []) ∧ Valid text := by
  have atEnd : Ends [] := fun c first => nomatch first
  have read := value_spells depth v text spells [] [] .nil atEnd
  obtain ⟨before, inside, blank, same, valid⟩ := value_valid depth _ _ _ read
  refine ⟨read, ?_⟩
  obtain ⟨c, more, rfl, visible, -⟩ := spells.starts
  -- there are no blanks in front of a spelling
  cases before with
  | nil =>
    simp only [List.nil_append, List.append_nil] at same
    exact same ▸ valid
  | cons b before =>
    have space := blank b List.mem_cons_self
    rw [← (List.cons.inj same).1, visible] at space
    cases space

/-- The compact form of an object has the keys of its members. -/
theorem enclosed_compact {depth : Nat} {members : Members} (shallow : Shallow depth (.obj members))
    (distinct : KeysDistinct (.obj members)) :
    Enclosed '\x7b' '\x7d' KeyedValid (members.map Prod.fst) (printCompact (.obj members)) := by
  obtain _ | _ | _ | _ | _ | ⟨-, each⟩ := distinct
  cases depth with
  | zero => simp [Shallow] at shallow
  | succ depth =>
    have keyed : ∀ member ∈ members, KeyedValid member.1 (compactMember member) := by
      intro member isIn
      have valid := (spells_compact (shallow member isIn) (each member isIn)).read.2
      exact ⟨_, [], [], _, rfl, stringText_print member.1, .nil, .nil, valid⟩
    cases members with
    | nil => exact .none .nil
    | cons member members =>
      have parts : Enclosed '\x7b' '\x7d' (fun member => KeyedValid member.1) (member :: members) _ :=
        .some (Divided.ofPrinted .nil .nil keyed)
      rw [printCompact, printCompactMembers_eq]
      simpa [compactMember] using parts.map Prod.fst fun _ _ keyed => keyed

end Json

namespace Message

open Json (Integral KeysDistinct Shallow)

/-- Only the name of a field names it. -/
theorem Field.named?_eq_some {key : String} {field : Field} (named : Field.named? key = some field) :
    key = field.name := by
  unfold Field.named? at named
  split at named
  · next same => cases named; exact same
  split at named
  · next same => cases named; exact same
  split at named
  · next same => cases named; exact same
  split at named
  · next same => cases named; exact same
  · cases named

/-- A compact form gives every field once. -/
theorem givenOnce_compact {depth : Nat} {v : Json} (shallow : Shallow depth v)
    (distinct : KeysDistinct v) : GivenOnce (Json.printCompact v) := by
  intro keys enclosed
  have isObject : ∃ members, v = .obj members := by
    have begins : ∀ {text : List Char}, Json.Enclosed '\x7b' '\x7d' Json.KeyedValid keys text →
        text.head? = some '\x7b' := fun enclosed => by cases enclosed <;> rfl
    have first := begins enclosed
    cases v with
    | obj members => exact ⟨members, rfl⟩
    | arr items => cases items <;> simp [Json.printCompact] at first
    | str s => simp [Json.printCompact, Json.printString] at first
    | bool b => cases b <;> simp [Json.printCompact, Json.printBool] at first
    | null => simp [Json.printCompact] at first
    | num n =>
      cases n with
      | real x => cases depth <;> simp [Shallow] at shallow
      | whole n =>
        obtain ⟨c, more, same, isNumeral⟩ := Json.integer_cons n.val
        simp only [Json.printCompact, Number.print, same, List.head?_cons, Option.some.injEq] at first
        subst first
        exact absurd isNumeral (by decide)
  obtain ⟨members, rfl⟩ := isObject
  rw [Json.keys_unique enclosed (Json.enclosed_compact shallow distinct)]
  obtain _ | _ | _ | _ | _ | ⟨nodup, -⟩ := distinct
  refine List.Pairwise.filterMap _ ?_ nodup
  intro key key' different field named field' named' same
  rw [Field.named?_eq_some named, Field.named?_eq_some named', same] at different
  exact different rfl

end Message

namespace Command

open Json (Integral KeysDistinct)
open Script (Taken)

/-! ## From the text to the document and back -/

theorem Alike.ok {outcome outcome' : Except CommandError Command} (alike : Alike outcome outcome')
    {command : Command} (accepts : outcome = .ok command) : outcome' = .ok command := by
  cases alike with
  | same => exact accepts
  | malformed => cases accepts

/-- A document that is a command is parsed as that command from its compact form. -/
theorem parse_compact {command : Command} {v : Json} (integral : Integral v)
    (distinct : KeysDistinct v) (made : ofJson v = .ok command) :
    parse v.compact = .ok command := by
  obtain ⟨depth, shallow⟩ := integral.exists_shallow
  obtain ⟨read, valid⟩ := (Json.spells_compact shallow distinct).read
  have alike := parse_of_value .nil .nil valid read (Message.givenOnce_compact shallow distinct)
  rw [List.nil_append, List.append_nil] at alike
  exact alike.symm.ok made

/-- A text that is read as a document is the text of that document. -/
theorem taken_of_read {text : String} {v : Json} (read : Json.read text = .ok v) :
    Taken Json.depthLimit text v := by
  obtain ⟨rest, value, skipped⟩ := (Json.read_value_iff text v).mp read
  obtain ⟨before, inside, blank, same, valid⟩ := Json.value_valid _ _ _ _ value
  have blank' := Json.blank_of_skipSpace skipped
  rw [same, Json.value_blank blank] at value
  exact ⟨inside, rest, ⟨valid, before, rest, blank, blank', same⟩, value⟩

/-- Where a text is a command and is read as a document too, the document is made into that command. -/
theorem ofJson_of_parse {text : String} {command : Command} {v : Json}
    (parsed : parse text = .ok command) (read : Json.read text = .ok v) : ofJson v = .ok command :=
  (Script.alike_of_taken (taken_of_read read) (Script.fieldsOnce_of_parse parsed)).ok parsed

theorem container_of_ofJson {command : Command} {v : Json} (made : ofJson v = .ok command) :
    (∃ items, v = .arr items) ∨ ∃ members, v = .obj members := by
  cases v with
  | arr items => exact .inl ⟨items, rfl⟩
  | obj members => exact .inr ⟨members, rfl⟩
  | _ => cases made

/-! ## What the log tells -/

/-- What is logged for a text tells a command: it is the text, which is parsed as the command, or it is
a list or an object, whose compact form is parsed as the command unless there are doubles in it. -/
inductive Tells (text : String) (command : Command) : Json → Prop where
  | verbatim (again : parse text = .ok command) : Tells text command (.str text)
  | list {items : List Json}
      (again : Integral (.arr items) → parse (Json.arr items).compact = .ok command) :
      Tells text command (.arr items)
  | object {members : Json.Members}
      (again : Integral (.obj members) → parse (Json.obj members).compact = .ok command) :
      Tells text command (.obj members)

theorem tells_ofMessage {text : String} {command : Command} (parsed : parse text = .ok command) :
    Tells text command (Json.ofMessage text) := by
  have distinct := Json.keysDistinct_ofMessage text
  unfold Json.ofMessage at distinct ⊢
  split at distinct
  · next v read =>
    have made := ofJson_of_parse parsed read
    rcases container_of_ofJson made with ⟨items, rfl⟩ | ⟨members, rfl⟩
    · exact .list fun integral => parse_compact integral distinct made
    · exact .object fun integral => parse_compact integral distinct made
  · exact .verbatim parsed

theorem integral_toJson (message : Message) : Integral message.toJson := by
  obtain ⟨functionality, command, sampleRate, time⟩ := message
  refine .obj fun member isIn => ?_
  cases sampleRate <;> cases time <;>
    simp only [Message.members, Option.map_none, Option.map_some, Option.toList_none,
      Option.toList_some, List.append_nil, List.cons_append, List.nil_append, List.mem_cons,
      List.not_mem_nil, or_false] at isIn <;>
    rcases isIn with rfl | rfl | rfl | rfl <;> first | exact .str _ | exact .whole _

end Command

namespace Server

open Json (Integral)

/-- The command is dispatched once the body has a record behind those that the log has. -/
def Recorded (server : Server) (log : Log) (body : Json) (tag : String) (command : Command)
    (attempt : Attempt) : Prop :=
  ∃ log', attempt = { server with log := some log' }.dispatch command ∧
    log'.written ++ log'.pending =
      log.written ++ log.pending ++ ((Log.record body tag server.now).pretty ++ Log.separator)

theorem recorded_handleCommand {server : Server} {log : Log} (isOpen : server.log = some log)
    (command : Command) (tag : String) :
    server.Recorded log command.message.toJson tag command (server.handleCommand command tag) := by
  have notes := notes_appendLog server (.value command.message.toJson tag server.now) rfl
  obtain ⟨log', isOpen', text, -⟩ := notes.logged log isOpen
  refine ⟨log', ?_, text⟩
  unfold handleCommand
  rw [← isOpen']
  exact congrArg (dispatch · command) notes.rest

theorem recorded_handleText {server : Server} {log : Log} (isOpen : server.log = some log)
    {text : String} {command : Command} (parsed : Command.parse text = .ok command) (tag : String) :
    server.Recorded log (Json.ofMessage text) tag command (server.handleText text tag) := by
  have notes := notes_appendLog server (.text text tag server.now) rfl
  obtain ⟨log', isOpen', logged, -⟩ := notes.logged log isOpen
  refine ⟨log', ?_, logged⟩
  simp only [handleText, parsed]
  rw [← isOpen']
  exact congrArg (dispatch · command) notes.rest

/-- **Recovery**: while the log is open, a text that is a command has its record before the command is
dispatched, and what is recorded tells that command. The same holds for the commands of a script, which
are recorded as objects without doubles. -/
theorem record_tells_command (server : Server) (log : Log) (isOpen : server.log = some log)
    (tag : String) :
    (∀ text command, Command.parse text = .ok command →
      server.Recorded log (Json.ofMessage text) tag command (server.handleText text tag) ∧
      Command.Tells text command (Json.ofMessage text)) ∧
    ∀ path bytes clock script warnings, Script.load path bytes clock = .ok (script, warnings) →
      ∀ command ∈ script.pending,
        server.Recorded log command.message.toJson tag command (server.handleCommand command tag) ∧
        (∃ members, command.message.toJson = .obj members) ∧ Integral command.message.toJson ∧
        Command.parse command.message.toJson.compact = .ok command := by
  constructor
  · intro text command parsed
    exact ⟨recorded_handleText isOpen parsed tag, Command.tells_ofMessage parsed⟩
  · intro path bytes clock script warnings loaded command isIn
    have wellFormed := Command.wellFormed_of_load loaded isIn
    exact ⟨recorded_handleCommand isOpen command tag, ⟨_, rfl⟩,
      Command.integral_toJson command.message, Command.parse_wire wellFormed⟩

/-- A text that gives an unknown member twice. -/
def repeating : String :=
  "\x7b\"x\":1,\"functionality\":\"monitorEvents\",\"x\":2,\"command\":\"stop\"\x7d"

/-- The record of that text has the member once, and tells the same command. -/
theorem record_tells_repeated_member :
    let log : Log := ⟨"log.json", "[\n", "", 0⟩
    let server := new 1 (some log) none none ⟨⟨0⟩, ⟨0⟩⟩ "now"
    let body : Json :=
      .obj [("x", .ofNat 2), ("functionality", .str "monitorEvents"), ("command", .str "stop")]
    Json.ofMessage repeating = body ∧
      server.Recorded log body "client-0" ⟨"monitorEvents", .stop, none⟩
        (server.handleText repeating "client-0") ∧
      Command.parse body.compact = .ok ⟨"monitorEvents", .stop, none⟩ := by
  intro log server body
  have parsed : Command.parse repeating = .ok ⟨"monitorEvents", .stop, none⟩ := by rfl
  have logged : Json.ofMessage repeating =
      .obj [("x", .ofNat 2), ("functionality", .str "monitorEvents"), ("command", .str "stop")] := by
    rfl
  obtain ⟨recorded, tells⟩ :=
    (record_tells_command server log rfl "client-0").1 repeating _ parsed
  rw [logged] at recorded tells
  cases tells with
  | object again =>
    refine ⟨logged, recorded, again (.obj fun member isIn => ?_)⟩
    simp only [List.mem_cons, List.not_mem_nil, or_false] at isIn
    rcases isIn with rfl | rfl | rfl
    · exact .whole _
    · exact .str _
    · exact .str _

end Server
end TelemetryHub
