/-!
# Waiting for descriptors

A set of descriptors that are waited for together. A descriptor has an index in the set, in the order
of registration. A wait counts the descriptors on which anything happened; ready are those on which
a read would not wait: there is input, the other side has gone, or there is an error. A descriptor
that is not open counts but is not ready.
-/

namespace TelemetryHub

/-- What has happened on a descriptor. -/
structure Events where
  input : Bool
  hangup : Bool
  error : Bool
  notOpen : Bool
deriving DecidableEq

namespace Events

def quiet : Events := ⟨false, false, false, false⟩

/-- Whether a wait counts the descriptor. -/
def any (events : Events) : Bool :=
  events.input || events.hangup || events.error || events.notOpen

/-- Whether a read would not wait. -/
def isReady (events : Events) : Bool := events.input || events.hangup || events.error

end Events

/-- Descriptors that are waited for together; `seen` is what the last wait saw. -/
structure PollSet where
  seen : List Events
deriving DecidableEq

namespace PollSet

def empty : PollSet := ⟨[]⟩

def count (set : PollSet) : Nat := set.seen.length

/-- Add a descriptor: its index, and the set with it. Nothing has been seen on it. -/
def register (set : PollSet) : Nat × PollSet := (set.count, ⟨set.seen ++ [.quiet]⟩)

/-- Add a number of descriptors: their indices, and the set with them. -/
def registerMany (set : PollSet) : Nat → List Nat × PollSet
  | 0 => ([], set)
  | n + 1 =>
    let (index, set) := set.register
    let (indices, set) := set.registerMany n
    (index :: indices, set)

/-- Wait, when `happened` is what has happened on the descriptors in their order: how many of them
count, and the set after the wait. -/
def wait (set : PollSet) (happened : List Events) : Nat × PollSet :=
  let seen := happened.take set.count
  ((seen.filter Events.any).length, ⟨seen ++ List.replicate (set.count - seen.length) .quiet⟩)

def isReady (set : PollSet) (index : Nat) : Bool :=
  (set.seen[index]?).elim false Events.isReady

end PollSet
end TelemetryHub
