import TelemetryHub.Clock
import TelemetryHub.Report
import TelemetryHub.Session.Sampler

/-!
# Sampling sessions

A session starts the sampler, waits for its time or until it is cut short, stops the sampler, reads
its report and publishes one record per sample and a last one about itself. `run` gives all that a
session does, in order. A session whose deadline the clock cannot count breaks off where it would wait
for the sampler to end, and publishes nothing.
-/

namespace TelemetryHub

/-- What a session does. -/
inductive SessionEvent where
  /-- The sampler's process has been started. -/
  | spawned
  /-- The time is over or has been cut short. -/
  | waited
  /-- The process has been sent the signal to stop. -/
  | terminated
  /-- The process has ended in time and been waited for. -/
  | reaped
  /-- The process has been killed and waited for. -/
  | discarded
  /-- The report has been asked for. -/
  | reported
  /-- What the recording has left has been removed. -/
  | cleaned
  | published (record : Json)

/-- The course of a session: what happens before it publishes, the samples and the outcome. -/
structure Course where
  events : List SessionEvent
  samples : List Sample
  outcome : SessionOutcome

namespace Course

def records (course : Course) : List Json :=
  match course.outcome with
  | .brokenOff => []
  | outcome => course.samples.map Sample.toRecord ++ [outcome.toRecord]

def all (course : Course) : List SessionEvent :=
  course.events ++ course.records.map .published

/-- How often the recording's data are removed. -/
def cleanups (course : Course) : Nat :=
  (course.events.filter fun
    | .cleaned => true
    | _ => false).length

def failing (events : List SessionEvent) (error : SessionError) : Course :=
  ⟨events, [], .failed error.phrase⟩

end Course

namespace Sampler

/-- The outcome of a session with so many samples. -/
def outcome (cancelled : Bool) (samples : Nat) : SessionOutcome :=
  if cancelled then .cancelled samples else .completed samples

/-- The course of a session once the sampler's process has ended in time. -/
def afterReaping (sampler : Sampler) (cancelled : Bool) : Course :=
  let events := [.spawned, .waited, .terminated, .reaped, .reported, .cleaned]
  match sampler.report with
  | .error error => .failing events error
  | .ok report =>
    let samples := Report.samples report
    ⟨events, samples, outcome cancelled samples.length⟩

/-- The course of a session whose time is over, or has been cut short. -/
def run (sampler : Sampler) (deadline : Deadline) (cancelled : Bool) : Course :=
  match sampler.child with
  | .error error => .failing [] error
  | .ok child =>
    if child.refusal.isNone && !deadline.isCounted then
      ⟨[.spawned, .waited, .terminated], [], .brokenOff⟩
    else
      match child.stopError? with
      | some error =>
        .failing ([.spawned, .waited] ++ (if child.refusal.isSome then [] else [.terminated]) ++
          [.discarded, .cleaned]) error
      | none => sampler.afterReaping cancelled

end Sampler

/-- How far a session is. -/
inductive Progress where
  | sampling
  | publishing (records : List Json)
  | finished

structure Session where
  sampler : Sampler
  deadline : Deadline
  /-- How long it is to wait. -/
  seconds : UInt64
  progress : Progress

namespace Session

def new (sampler : Sampler) (deadline : Deadline) (seconds : UInt64) : Session :=
  ⟨sampler, deadline, seconds, .sampling⟩

def isFinished (session : Session) : Bool :=
  match session.progress with
  | .finished => true
  | _ => false

/-- End the wait of a session, if it is still waiting. -/
def expire (session : Session) (cancelled : Bool) : Session :=
  match session.progress with
  | .sampling =>
    let course := session.sampler.run session.deadline cancelled
    { session with progress := .publishing course.records }
  | _ => session

/-- The records that are left to be published. -/
def left (session : Session) : List Json :=
  match session.progress with
  | .publishing records => records
  | _ => []

def finish (session : Session) : Session := { session with progress := .finished }

end Session
end TelemetryHub
