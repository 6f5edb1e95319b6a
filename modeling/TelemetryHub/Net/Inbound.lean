import TelemetryHub.Failure

/-!
# What arrives on a descriptor

The bytes that have arrived and not been read, what comes behind them, and perhaps a failure that the
next read meets instead of them. A read takes bytes from the front of the queue, as many as there are
up to its limit.
-/

namespace TelemetryHub

/-- What comes behind the bytes that have arrived. -/
inductive Finish where
  | opened
  | ended
  | failed (failure : Failure)
deriving DecidableEq

/-- The readable side of a descriptor. -/
structure Inbound where
  queue : List UInt8
  interruption : Option Failure
  finish : Finish
deriving DecidableEq

inductive Reading where
  | bytes (bytes : List UInt8)
  | ended
  | failed (failure : Failure)
deriving DecidableEq

/-- How many bytes one read of a message takes at most. -/
def messageLimit : Nat := 255

namespace Inbound

def opened : Inbound := ⟨[], none, .opened⟩

def arrive (inbound : Inbound) (bytes : List UInt8) : Inbound :=
  { inbound with queue := inbound.queue ++ bytes }

def close (inbound : Inbound) : Inbound :=
  if inbound.finish = .opened then { inbound with finish := .ended } else inbound

/-- The connection breaks behind the bytes that have arrived. -/
def broken (inbound : Inbound) (failure : Failure) : Inbound :=
  { inbound with finish := .failed failure }

/-- The next read fails. -/
def interrupt (inbound : Inbound) (failure : Failure) : Inbound :=
  { inbound with interruption := some failure }

/-- Read at most `limit` bytes. Without any, a descriptor that may still get some fails for now. -/
def read (inbound : Inbound) (limit : Nat) : Reading × Inbound :=
  match inbound.interruption with
  | some failure => (.failed failure, { inbound with interruption := none })
  | none =>
    match inbound.queue with
    | [] =>
      match inbound.finish with
      | .opened => (.failed (.system .tryAgain), inbound)
      | .ended => (.ended, inbound)
      | .failed failure => (.failed failure, { inbound with finish := .ended })
    | queue => (.bytes (queue.take limit), { inbound with queue := queue.drop limit })

/-- Whether a wait for input returns at once. -/
def isReady (inbound : Inbound) : Bool :=
  !inbound.queue.isEmpty || inbound.finish != .opened

theorem read_bytes {inbound after : Inbound} {limit : Nat} {taken : List UInt8}
    (happened : inbound.read limit = (.bytes taken, after)) :
    inbound.queue = taken ++ after.queue ∧ taken.length ≤ limit := by
  unfold read at happened
  split at happened
  · cases happened
  · split at happened
    · split at happened <;> cases happened
    · cases happened
      exact ⟨(List.take_append_drop limit _).symm, List.length_take_le limit _⟩

end Inbound
end TelemetryHub
