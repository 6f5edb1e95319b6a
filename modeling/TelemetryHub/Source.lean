import TelemetryHub.Clock
import TelemetryHub.Command.Reader
import TelemetryHub.Net.Inbound
import TelemetryHub.Text.Utf8

/-!
# Command sources

Where commands come from apart from the network: an operator types them, or a script has them.

An operator's input is on a descriptor. One read is one message, without the end of its line, and a text
like those of clients; blank messages are nothing. At the end of the input and at a failure the source
is exhausted.

A script replays the commands of a file, one whenever its countdown expires. The file is a list of
messages; those that are no commands are passed over with a warning. When the last command has gone
the countdown runs on without starting again.
-/

namespace TelemetryHub

/-! ## Typed commands -/

def messageText (bytes : List UInt8) : List Char :=
  Text.decodeLossy (Text.stripTerminator bytes)

/-- A source of typed commands. -/
structure Interactive where
  label : String
  input : Inbound
  exhausted : Bool
deriving DecidableEq

/-- What a turn of a source of typed commands yields. -/
inductive Typed where
  | nothing
  | message (text : String)
  | ended
  | failed (failure : Failure)
deriving DecidableEq

namespace Interactive

def new (label : String) (input : Inbound) : Interactive := ⟨label, input, false⟩

/-- The name of the source that reads the program's own input. -/
def ownLabel : String := "stdin"

def listens (source : Interactive) : Bool := !source.exhausted

/-- Whether the descriptor is waited for and a read would not be in vain. -/
def isReady (source : Interactive) : Bool := source.listens && source.input.isReady

/-- A message, unless it is blank. -/
def typed (bytes : List UInt8) : Typed :=
  let text := messageText bytes
  if (Text.trim text).isEmpty then .nothing else .message (String.ofList text)

/-- One turn; `readable` says whether the descriptor was ready. -/
def poll (source : Interactive) (readable : Bool) : Typed × Interactive :=
  if !readable || source.exhausted then (.nothing, source)
  else
    let (reading, input) := source.input.read messageLimit
    let source := { source with input }
    match reading with
    | .bytes bytes => (typed bytes, source)
    | .ended => (.ended, { source with exhausted := true })
    | .failed failure =>
      if failure.isTransient then (.nothing, source)
      else (.failed failure, { source with exhausted := true })

def warning? (label : String) : Typed → Option String
  | .failed failure =>
    some (label ++ ": read failed (" ++ failure.phrase ++ "), disabling source")
  | _ => none

/-- A source that is exhausted stays as it is. -/
theorem poll_exhausted {source : Interactive} (exhausted : source.exhausted = true)
    (readable : Bool) : source.poll readable = (.nothing, source) := by
  simp [poll, exhausted]

end Interactive

/-! ## Scripts -/

/-- Commands that are replayed. -/
structure Script where
  pending : List Command
  clock : Countdown
deriving DecidableEq

inductive ScriptError where
  | unreadable (path : String) (failure : Failure)
  | notAList (path : String) (mistake : Json.Mistake)
deriving DecidableEq

def ScriptError.name : ScriptError → String
  | .unreadable _ _ => "Read"
  | .notAList _ _ => "NotArray"

def ScriptError.phrase : ScriptError → String
  | .unreadable path failure => "Failed to read command file " ++ path ++ ": " ++ failure.phrase
  | .notAList path mistake =>
    "Command file " ++ path ++ " is not a JSON array: " ++ mistake.phrase

namespace Script

/-- The name of scripts in the log. -/
def label : String := "commandFile"

/-- One turn: the command that is due, if any, and the script after it. -/
def poll (script : Script) : Option Command × Script :=
  match script.clock.tick with
  | (false, clock) => (none, { script with clock })
  | (true, clock) =>
    match script.pending with
    | [] => (none, { script with clock })
    | command :: rest => (some command, ⟨rest, clock.reload⟩)

/-- The commands among the items of a file, and the items that are none with their indices, counted
from `index`. -/
def select (index : Nat) : List Json → List Command × List (Nat × CommandError)
  | [] => ([], [])
  | item :: rest =>
    let (commands, refused) := select (index + 1) rest
    match Command.ofJson item with
    | .ok command => (command :: commands, refused)
    | .error error => (commands, (index, error) :: refused)

def warning (path : String) (refused : Nat × CommandError) : String :=
  path ++ ": skipping entry " ++ toString refused.1 ++ ": " ++ refused.2.phrase

def content (bytes : Except Failure (List UInt8)) : Except Failure String :=
  match bytes with
  | .error failure => .error failure
  | .ok bytes =>
    match Text.decode? bytes with
    | some text => .ok (String.ofList text)
    | none => .error .notUtf8

def load (path : String) (bytes : Except Failure (List UInt8)) (clock : Countdown) :
    Except ScriptError (Script × List String) :=
  match content bytes with
  | .error failure => .error (.unreadable path failure)
  | .ok text =>
    match Json.readList text with
    | .error mistake => .error (.notAList path mistake)
    | .ok items =>
      let (commands, refused) := select 0 items
      .ok (⟨commands, clock⟩, refused.map (warning path))

/-- No item is lost. -/
theorem length_select (index : Nat) (items : List Json) :
    (select index items).1.length + (select index items).2.length = items.length := by
  induction items generalizing index with
  | nil => rfl
  | cons item rest ih =>
    have := ih (index + 1)
    simp only [select]
    split <;> simp <;> omega

end Script

/-! ## Sources -/

inductive Source where
  | interactive (source : Interactive)
  | script (script : Script)
deriving DecidableEq

inductive Incoming where
  | raw (text : String)
  | parsed (command : Command)
deriving DecidableEq

namespace Source

def label : Source → String
  | .interactive source => source.label
  | .script _ => Script.label

/-- Whether a wait for the source's descriptor returns at once. A script has no descriptor. -/
def isReady : Source → Bool
  | .interactive source => source.isReady
  | .script _ => false

/-- One turn; `readable` says whether the source's descriptor was ready. -/
def poll (source : Source) (readable : Bool) : Option Incoming × Source :=
  match source with
  | .interactive source =>
    match source.poll readable with
    | (.message text, source) => (some (.raw text), .interactive source)
    | (_, source) => (none, .interactive source)
  | .script replay =>
    let (command, replay) := replay.poll
    (command.map .parsed, .script replay)

end Source

end TelemetryHub
