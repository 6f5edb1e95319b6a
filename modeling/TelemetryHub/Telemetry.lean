import TelemetryHub.Json.Basic

/-!
# Records

What is broadcast is a record. The one of a producer begins with the category of the producer, followed
by the producer's fields in their order; a field that is called `category` itself takes the first
place's value. The one of a sample has all of the fields that a report gives it, as they stand there, and
the one about a session has its outcome.
-/

namespace TelemetryHub

/-! ## Producers -/

namespace Telemetry

/-- Put fields to those of a record. -/
def extend (record : Json.Members) : Json.Members → Json.Members
  | [] => record
  | (key, value) :: rest => extend (Json.Members.insert key value record) rest

/-- The record of a producer. -/
def tagged (category : String) (fields : Json.Members) : Json :=
  .obj (extend [("category", .str category)] fields)

end Telemetry

/-! ## Samples -/

structure Sample where
  id : Nat
  prog : String
  pid : String
  tid : Option String
  cpu : Option String
  time : String
  cycles : String
  ip : String
  symbol : String
  dso : String
  record : String
deriving DecidableEq

namespace Sample

/-- The members of the record of a sample; fields that are absent have none. -/
def members (sample : Sample) : Json.Members :=
  [("id", .ofNat sample.id), ("prog", .str sample.prog), ("pid", .str sample.pid)] ++
    (sample.tid.map fun tid => ("tid", .str tid)).toList ++
    (sample.cpu.map fun cpu => ("cpu", .str cpu)).toList ++
    [("time", .str sample.time), ("cycles", .str sample.cycles), ("ip", .str sample.ip),
      ("symbol+offset", .str sample.symbol), ("dso", .str sample.dso),
      ("record", .str sample.record)]

/-- The record that is published for a sample. -/
def toRecord (sample : Sample) : Json := .obj [("perfSample", .obj sample.members)]

end Sample

/-! ## Sessions -/

inductive SessionOutcome where
  | completed (samples : Nat)
  | cancelled (samples : Nat)
  | failed (error : String)
  | brokenOff
deriving DecidableEq

namespace SessionOutcome

def status : SessionOutcome → String
  | .completed _ => "completed"
  | .cancelled _ => "cancelled"
  | .failed _ | .brokenOff => "failed"

def samples : SessionOutcome → Nat
  | .completed samples | .cancelled samples => samples
  | .failed _ | .brokenOff => 0

def error? : SessionOutcome → Option String
  | .failed error => some error
  | .brokenOff => some "session thread panicked"
  | _ => none

def toRecord (outcome : SessionOutcome) : Json :=
  .obj [("perfSession", .obj ([("status", .str outcome.status), ("samples", .ofNat outcome.samples)] ++
    (outcome.error?.map fun error => ("error", Json.str error)).toList))]

end SessionOutcome

end TelemetryHub
