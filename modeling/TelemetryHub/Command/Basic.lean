import TelemetryHub.Json.Fault

/-!
# Commands

A command names a category and says what is to happen to it, perhaps with a sampling rate. On the
wire it is a `Message` of four fields; the functionality `perf` addresses the sampling session, all
others address gates. `toCommand_message` says that a well-formed command is what its message stands for.
-/

namespace TelemetryHub

inductive Action where
  | start
  | stop
  | configure
  /-- Start a sampling session of so many seconds. -/
  | sessionStart (seconds : UInt64)
  | sessionStop
deriving DecidableEq

/-- A command. Negative rates are refused only when the command is carried out. -/
structure Command where
  category : String
  action : Action
  rate : Option Int64
deriving DecidableEq

/-- A command as it is written on the wire and in command files. -/
structure Message where
  functionality : String
  command : String
  sampleRate : Option Int64
  time : Option UInt64
deriving DecidableEq

inductive CommandError where
  | malformed (mistake : Json.Mistake)
  | unknownAction (functionality command : String)
deriving DecidableEq

def CommandError.name : CommandError → String
  | .malformed _ => "Malformed"
  | .unknownAction _ _ => "UnknownAction"

def CommandError.phrase : CommandError → String
  | .malformed mistake => "Malformed command: " ++ mistake.phrase
  | .unknownAction functionality command =>
    "Unknown command '" ++ command ++ "' for functionality '" ++ functionality ++ "'"

def sessionFunctionality : String := "perf"

/-- The length in seconds of a session whose command gives none. -/
def defaultSessionSeconds : UInt64 := 10

namespace Message

/-- The action that a message asks for, if it is one of the known pairs. -/
def action? (message : Message) : Option Action :=
  if message.functionality = sessionFunctionality then
    if message.command = "start" then
      some (.sessionStart (message.time.getD defaultSessionSeconds))
    else if message.command = "stop" then some .sessionStop
    else none
  else if message.command = "start" then some .start
  else if message.command = "stop" then some .stop
  else if message.command = "configure" then some .configure
  else none

def toCommand (message : Message) : Except CommandError Command :=
  match message.action? with
  | some action => .ok ⟨message.functionality, action, message.sampleRate⟩
  | none => .error (.unknownAction message.functionality message.command)

/-- The members of a message; fields that are absent have none. -/
def members (message : Message) : Json.Members :=
  [("functionality", .str message.functionality), ("command", .str message.command)] ++
    (message.sampleRate.map fun rate => ("sampleRate", .ofInt64 rate)).toList ++
    (message.time.map fun time => ("time", .ofUInt64 time)).toList

def toJson (message : Message) : Json := .obj message.members

end Message

namespace Action

def name : Action → String
  | .start => "start"
  | .stop => "stop"
  | .configure => "configure"
  | .sessionStart _ => "serverStart"
  | .sessionStop => "serverStop"

def word : Action → String
  | .start | .sessionStart _ => "start"
  | .stop | .sessionStop => "stop"
  | .configure => "configure"

def seconds? : Action → Option UInt64
  | .sessionStart seconds => some seconds
  | _ => none

def onSession : Action → Bool
  | .sessionStart _ | .sessionStop => true
  | _ => false

end Action

namespace Command

def message (command : Command) : Message where
  functionality := command.category
  command := command.action.word
  sampleRate := command.rate
  time := command.action.seconds?

/-- A command whose action fits its category: session actions belong to the session's functionality
and to no other. -/
def WellFormed (command : Command) : Prop :=
  command.action.onSession = decide (command.category = sessionFunctionality)

theorem action?_message {command : Command} (wellFormed : command.WellFormed) :
    command.message.action? = some command.action := by
  obtain ⟨category, action, rate⟩ := command
  have fits : action.onSession = decide (category = sessionFunctionality) := wellFormed
  cases action with
  | start => exact (if_neg (of_decide_eq_false fits.symm)).trans (if_pos rfl)
  | stop =>
    have other : ¬"stop" = "start" := by decide
    exact (if_neg (of_decide_eq_false fits.symm)).trans ((if_neg other).trans (if_pos rfl))
  | configure =>
    have first : ¬"configure" = "start" := by decide
    have second : ¬"configure" = "stop" := by decide
    exact (if_neg (of_decide_eq_false fits.symm)).trans
      ((if_neg first).trans ((if_neg second).trans (if_pos rfl)))
  | sessionStart seconds =>
    exact (if_pos (of_decide_eq_true fits.symm)).trans (if_pos rfl)
  | sessionStop =>
    have other : ¬"stop" = "start" := by decide
    exact (if_pos (of_decide_eq_true fits.symm)).trans ((if_neg other).trans (if_pos rfl))

theorem toCommand_message {command : Command} (wellFormed : command.WellFormed) :
    command.message.toCommand = .ok command := by
  unfold Message.toCommand
  rw [action?_message wellFormed]
  rfl

theorem onSession_of_action? {m : Message} {action : Action} (known : m.action? = some action) :
    action.onSession = decide (m.functionality = sessionFunctionality) := by
  unfold Message.action? at known
  split at known
  · next session =>
    rw [decide_eq_true session]
    split at known
    · cases known; rfl
    split at known
    · cases known; rfl
    · cases known
  · next other =>
    rw [decide_eq_false other]
    split at known
    · cases known; rfl
    split at known
    · cases known; rfl
    split at known
    · cases known; rfl
    · cases known

theorem wellFormed_of_toCommand {m : Message} {command : Command}
    (stands : m.toCommand = .ok command) : command.WellFormed := by
  unfold Message.toCommand at stands
  split at stands
  · next action known =>
    cases stands
    exact onSession_of_action? known
  · cases stands

end Command
end TelemetryHub
