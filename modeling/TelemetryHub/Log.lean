import TelemetryHub.Failure
import TelemetryHub.Json.Printer
import TelemetryHub.Json.Reader

/-!
# The log

The log is a file with a list of records. It begins with the opening bracket; every record is
written behind it with a comma and the end of a line; `close` puts the closing bracket in the place
of the last comma. Text goes through a buffer: a device that refuses it leaves it there.
-/

namespace TelemetryHub

structure Log where
  path : String
  /-- What the file holds. -/
  written : String
  /-- What is on the way to the file. -/
  pending : String
  records : Nat
deriving DecidableEq

inductive LogError where
  | cannotOpen (path : String) (failure : Failure)
  | cannotWrite (failure : Failure)
deriving DecidableEq

def LogError.name : LogError → String
  | .cannotOpen _ _ => "Open"
  | .cannotWrite _ => "Io"

def LogError.phrase : LogError → String
  | .cannotOpen path failure => "Failed to open log file " ++ path ++ ": " ++ failure.phrase
  | .cannotWrite failure => failure.phrase

namespace Log

/-- What stands behind every record. -/
def separator : String := ",\n"

def record (body : Json) (source now : String) : Json :=
  .obj [("body", body), ("from", .str source), ("timestamp", .str now)]

/-- Send what is pending to the file; `refusal` is the device's answer if it takes nothing. -/
def flush (log : Log) (refusal : Option Failure) : Option Failure × Log :=
  match refusal with
  | some failure => (some failure, log)
  | none => (none, { log with written := log.written ++ log.pending, pending := "" })

/-- A new log at a path, where whatever was there before is gone. `opened` is the answer to opening
the file, `refusal` the one to writing to it. -/
def create (path : String) (opened : Except Failure Unit) (refusal : Option Failure) :
    Except LogError Log :=
  match opened with
  | .error failure => .error (.cannotOpen path failure)
  | .ok () =>
    match flush ⟨path, "", "[\n", 0⟩ refusal with
    | (some failure, _) => .error (.cannotWrite failure)
    | (none, log) => .ok log

def append (log : Log) (body : Json) (source now : String) (refusal : Option Failure) :
    Option Failure × Log :=
  let text := (record body source now).pretty ++ separator
  match flush { log with pending := log.pending ++ text } refusal with
  | (some failure, log) => (some failure, log)
  | (none, log) => (none, { log with records := log.records + 1 })

/-- Append a message that is a text: it is stored as what it reads as, or else as a string. -/
def appendText (log : Log) (message source now : String) (refusal : Option Failure) :
    Option Failure × Log :=
  log.append (Json.ofMessage message) source now refusal

/-- A text without its last characters, as many as the separator has. -/
def withoutSeparator (text : String) : String :=
  String.ofList (text.toList.take (text.toList.length - separator.length))

/-- What the file holds when the list has been closed behind its last record. -/
def closed (log : Log) : String :=
  let text := log.written ++ log.pending
  if log.records = 0 then text ++ "]\n" else withoutSeparator text ++ "\n]\n"

/-- Close the log: what the file holds then. A device that refuses the end leaves the list open. -/
def close (log : Log) (refusal : Option Failure) : Option Failure × String :=
  match refusal with
  | some failure => (some failure, log.written)
  | none => (none, log.closed)

end Log
end TelemetryHub
