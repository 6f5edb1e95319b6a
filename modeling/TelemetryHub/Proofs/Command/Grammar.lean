import TelemetryHub.Command.Reader
import TelemetryHub.Proofs.Json.Documents

/-!
# The grammar of messages

A text gives members: as an object, in any order and among members that are no fields, or as a list in
the order of the fields (`Gives`). Members say a message when each field is given at most once and both
necessary ones are (`Says`). What they say depends on the fields alone (`Says.of_perm`), and the fields
that are taken member by member hold it (`says_iff`).
-/

namespace TelemetryHub.Message

open Json (Blank Enclosed Keyed StringText ScalarText Valid)

/-- A member of an object that is read as a message. -/
inductive Member where
  | functionality (s : String)
  | command (s : String)
  | sampleRate (rate : Option Int64)
  | time (seconds : Option UInt64)
  /-- a member that is no field; what its value is does not matter -/
  | other (key : String) (unknown : Field.named? key = none)

namespace Member

/-- The field that the member gives. -/
def field? : Member → Option Field
  | functionality _ => some .functionality
  | command _ => some .command
  | sampleRate _ => some .sampleRate
  | time _ => some .time
  | other _ _ => none

/-- The key of the member. -/
def key : Member → String
  | other key _ => key
  | functionality _ => "functionality"
  | command _ => "command"
  | sampleRate _ => "sampleRate"
  | time _ => "time"

/-- A text for the value of the member: a string, an integer or `null`, or any value that is no more
than passed over. -/
def ValueText : Member → List Char → Prop
  | functionality s, text | command s, text => StringText s text
  | sampleRate none, text | time none, text => text = "null".toList
  | sampleRate (some rate), text => text = Text.integer rate.toInt
  | time (some seconds), text => text = Text.integer seconds.toNat
  | other _ _, text => Valid text

/-- A text for the member: its key, a colon and its value. -/
def Spelled (member : Member) (text : List Char) : Prop :=
  Keyed StringText ValueText (member.key, member) text

end Member

/-- The fields of a list of members, in their order. -/
def fieldsIn (members : List Member) : List Field := members.filterMap Member.field?

theorem fieldsIn_cons (member : Member) (members : List Member) :
    fieldsIn (member :: members) = member.field?.toList ++ fieldsIn members := by
  cases given : member.field? <;> simp [fieldsIn, given]

/-- The members give the first ones of the fields, in this order. -/
def Ordered (fields : List Field) (members : List Member) : Prop :=
  members.length ≤ fields.length ∧ members.map Member.field? = (fields.take members.length).map some

theorem fieldsIn_of_ordered {fields : List Field} {members : List Member}
    (ordered : Ordered fields members) : fieldsIn members = fields.take members.length := by
  have same : fieldsIn members = (members.map Member.field?).filterMap id := by
    rw [List.filterMap_map]
    rfl
  rw [same, ordered.2, List.filterMap_map]
  exact List.filterMap_some

/-- The text is an object of the members, or the list of their values: at least two, in the order of
the fields. -/
inductive Gives (text : List Char) (members : List Member) : Prop where
  | object (enclosed : Enclosed '\x7b' '\x7d' Member.Spelled members text)
  | list (enclosed : Enclosed '[' ']' Member.ValueText members text) (least : 2 ≤ members.length)
      (ordered : Ordered listed members)

/-- What members say: each field is given at most once, the first two are given, and a field that is
not given is absent. -/
structure Says (members : List Member) (message : Message) : Prop where
  once : (fieldsIn members).Nodup
  functionality : .functionality message.functionality ∈ members
  command : .command message.command ∈ members
  sampleRate : .sampleRate message.sampleRate ∈ members ∨
    message.sampleRate = none ∧ .sampleRate ∉ fieldsIn members
  time : .time message.time ∈ members ∨ message.time = none ∧ .time ∉ fieldsIn members

/-- The text says the message. -/
def Spells (text : List Char) (message : Message) : Prop :=
  ∃ members, Gives text members ∧ Says members message

/-! ## Other members and the order do not matter -/

/-- The members that are fields. -/
def known (members : List Member) : List Member := members.filter fun member => member.field?.isSome

theorem fieldsIn_known (members : List Member) : fieldsIn (known members) = fieldsIn members := by
  unfold fieldsIn known
  rw [List.filterMap_filter]
  congr 1
  funext member
  cases member.field? <;> rfl

theorem mem_known {member : Member} {members : List Member} (field : member.field?.isSome = true) :
    member ∈ known members ↔ member ∈ members := by
  simp [known, field]

/-- What members say depends on the fields among them, in whatever order. -/
theorem Says.of_perm {members members' : List Member} {message : Message}
    (perm : (known members).Perm (known members')) (said : Says members message) :
    Says members' message := by
  have fields : (fieldsIn members).Perm (fieldsIn members') := by
    rw [← fieldsIn_known members, ← fieldsIn_known members']
    exact perm.filterMap Member.field?
  have transfer : ∀ {member : Member}, member.field?.isSome = true → member ∈ members →
      member ∈ members' := by
    intro member field isIn
    exact (mem_known field).mp (perm.mem_iff.mp ((mem_known field).mpr isIn))
  refine ⟨fields.nodup_iff.mp said.once, transfer rfl said.functionality, transfer rfl said.command,
    ?_, ?_⟩
  · rcases said.sampleRate with given | ⟨absent, missing⟩
    · exact .inl (transfer rfl given)
    · exact .inr ⟨absent, fun isIn => missing (fields.mem_iff.mpr isIn)⟩
  · rcases said.time with given | ⟨absent, missing⟩
    · exact .inl (transfer rfl given)
    · exact .inr ⟨absent, fun isIn => missing (fields.mem_iff.mpr isIn)⟩

/-! ## Collecting fields -/

namespace Fields

/-- Take what a member gives. -/
def set (fields : Fields) : Member → Fields
  | .functionality s => { fields with functionality := some s }
  | .command s => { fields with command := some s }
  | .sampleRate rate => { fields with sampleRate := some rate }
  | .time seconds => { fields with time := some seconds }
  | .other _ _ => fields

/-- The field has the value that the member gives. -/
def Holds (fields : Fields) : Member → Prop
  | .functionality s => fields.functionality = some s
  | .command s => fields.command = some s
  | .sampleRate rate => fields.sampleRate = some rate
  | .time seconds => fields.time = some seconds
  | .other _ _ => True

/-- Take what members give, one after the other. -/
def setAll (fields : Fields) (members : List Member) : Fields := members.foldl set fields

theorem holds_set (fields : Fields) (member : Member) : (fields.set member).Holds member := by
  cases member <;> simp [set, Holds]

theorem holds_set_of_ne {fields : Fields} {member later : Member}
    (different : member.field? ≠ later.field?) :
    (fields.set later).Holds member ↔ fields.Holds member := by
  cases member <;> cases later <;> simp_all [set, Holds, Member.field?]

theorem has_set (fields : Fields) (member : Member) (field : Field) :
    (fields.set member).has field = (fields.has field || decide (member.field? = some field)) := by
  cases member <;> cases field <;> simp [set, has, Member.field?]

end Fields

/-! ## What the collected fields are -/

namespace Fields

theorem has_setAll (fields : Fields) (members : List Member) (field : Field) :
    (fields.setAll members).has field = true ↔
      fields.has field = true ∨ field ∈ fieldsIn members := by
  induction members generalizing fields with
  | nil => simp [setAll, fieldsIn]
  | cons member members ih =>
    have step : (fields.setAll (member :: members)) = (fields.set member).setAll members := rfl
    rw [step, ih, has_set, fieldsIn_cons]
    cases member.field? with
    | none => simp
    | some other =>
      have swap : other = field ↔ field = other := eq_comm
      simp [or_assoc, swap]

theorem holds_setAll_of_notIn {fields : Fields} {member : Member} {members : List Member}
    (holds : fields.Holds member)
    (absent : ∀ field, member.field? = some field → field ∉ fieldsIn members) :
    (fields.setAll members).Holds member := by
  induction members generalizing fields with
  | nil => exact holds
  | cons later members ih =>
    have kept : (fields.set later).Holds member := by
      cases given : member.field? with
      | none =>
        cases member with
        | other key unknown => exact trivial
        | _ => cases given
      | some field =>
        refine (holds_set_of_ne ?_).mpr holds
        intro same
        refine absent field given (List.mem_filterMap.mpr ⟨later, List.mem_cons_self, ?_⟩)
        rw [← same, given]
    refine ih kept fun field given isIn => absent field given ?_
    obtain ⟨other, otherIn, same⟩ := List.mem_filterMap.mp isIn
    exact List.mem_filterMap.mpr ⟨other, List.mem_cons_of_mem later otherIn, same⟩

/-- Of members that give each field at most once, every one is held. -/
theorem holds_setAll_of_mem {fields : Fields} {member : Member} {members : List Member}
    (once : (fieldsIn members).Nodup) (isIn : member ∈ members) :
    (fields.setAll members).Holds member := by
  induction members generalizing fields with
  | nil => cases isIn
  | cons first members ih =>
    rw [fieldsIn_cons] at once
    rcases List.mem_cons.mp isIn with rfl | later
    · have first : ∀ field, member.field? = some field → field ∉ fieldsIn members := by
        intro field given
        rw [given] at once
        exact (List.nodup_cons.mp once).1
      have held : ((fields.set member).setAll members).Holds member :=
        holds_setAll_of_notIn (holds_set fields member) first
      exact held
    · exact ih (List.nodup_append.mp once).2.1 later

theorem Holds.has {fields : Fields} {member : Member} {field : Field} (holds : fields.Holds member)
    (given : member.field? = some field) : fields.has field = true := by
  cases member <;> cases given <;> simp_all [Holds, Fields.has]

theorem Holds.unique {fields : Fields} {member other : Member} {field : Field}
    (holds : fields.Holds member) (holds' : fields.Holds other) (given : member.field? = some field)
    (given' : other.field? = some field) : member = other := by
  cases member <;> cases given <;> cases other <;> cases given' <;> simp_all [Holds]

/-- The collected fields hold the members that give them and no others. -/
theorem holds_setAll_iff {member : Member} {field : Field} {members : List Member}
    (once : (fieldsIn members).Nodup) (given : member.field? = some field) :
    (Fields.empty.setAll members).Holds member ↔ member ∈ members := by
  refine ⟨fun holds => ?_, holds_setAll_of_mem once⟩
  have taken := (has_setAll .empty members field).mp (holds.has given)
  have nothing : Fields.empty.has field = false := by cases field <;> rfl
  rw [nothing] at taken
  obtain ⟨other, otherIn, given'⟩ := List.mem_filterMap.mp (taken.resolve_left nofun)
  have same := holds.unique (holds_setAll_of_mem once otherIn) given given'
  rw [same]
  exact otherIn

theorem message_ok_iff (fields : Fields) (m : Message) :
    fields.message = .ok m ↔
      fields.functionality = some m.functionality ∧ fields.command = some m.command ∧
        (fields.sampleRate = some m.sampleRate ∨ m.sampleRate = none ∧ fields.sampleRate = none) ∧
        (fields.time = some m.time ∨ m.time = none ∧ fields.time = none) := by
  obtain ⟨functionality, command, sampleRate, time⟩ := fields
  obtain ⟨functionality', command', sampleRate', time'⟩ := m
  cases functionality with
  | none => simp [message]
  | some functionality =>
    cases command with
    | none => simp [message]
    | some command =>
      cases sampleRate <;> cases time <;> simp [message, eq_comm]

theorem has_eq_false_iff {fields : Fields} :
    (fields.has .sampleRate = false ↔ fields.sampleRate = none) ∧
      (fields.has .time = false ↔ fields.time = none) := by
  simp [has]

end Fields

/-- Members say a message exactly if they give each field at most once and their fields, taken one
after the other, make up the message. -/
theorem says_iff (members : List Member) (message : Message) :
    Says members message ↔
      (fieldsIn members).Nodup ∧ (Fields.empty.setAll members).message = .ok message := by
  have missing : ∀ field, (Fields.empty.setAll members).has field = false ↔
      field ∉ fieldsIn members := by
    intro field
    have nothing : Fields.empty.has field = false := by cases field <;> rfl
    rw [← Bool.not_eq_true, Fields.has_setAll, nothing]
    simp
  constructor
  · intro said
    refine ⟨said.once, (Fields.message_ok_iff _ _).mpr ⟨?_, ?_, ?_, ?_⟩⟩
    · exact Fields.holds_setAll_of_mem said.once said.functionality
    · exact Fields.holds_setAll_of_mem said.once said.command
    · rcases said.sampleRate with given | ⟨absent, notIn⟩
      · exact .inl (Fields.holds_setAll_of_mem said.once given)
      · exact .inr ⟨absent, Fields.has_eq_false_iff.1.mp ((missing _).mpr notIn)⟩
    · rcases said.time with given | ⟨absent, notIn⟩
      · exact .inl (Fields.holds_setAll_of_mem said.once given)
      · exact .inr ⟨absent, Fields.has_eq_false_iff.2.mp ((missing _).mpr notIn)⟩
  · rintro ⟨once, made⟩
    obtain ⟨functionality, command, sampleRate, time⟩ := (Fields.message_ok_iff _ _).mp made
    have given : ∀ {member : Member} {field : Field}, member.field? = some field →
        (Fields.empty.setAll members).Holds member → member ∈ members :=
      fun field => (Fields.holds_setAll_iff once field).mp
    refine ⟨once, given rfl functionality, given rfl command, ?_, ?_⟩
    · rcases sampleRate with held | ⟨absent, nothing⟩
      · exact .inl (given rfl held)
      · exact .inr ⟨absent, (missing _).mp (Fields.has_eq_false_iff.1.mpr nothing)⟩
    · rcases time with held | ⟨absent, nothing⟩
      · exact .inl (given rfl held)
      · exact .inr ⟨absent, (missing _).mp (Fields.has_eq_false_iff.2.mpr nothing)⟩

end TelemetryHub.Message
