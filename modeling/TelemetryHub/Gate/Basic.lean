/-!
# Sampling gates

A gate decides which events of a producer carry detail. It counts events while backtraces are on and
lets every `rate`-th of them through. A fresh gate has rate one, counts at once and delivers nothing.
-/

namespace TelemetryHub

/-- The sampling policy of one category of events. -/
structure Gate where
  /-- How many events have been counted, modulo `2 ^ 64`. -/
  count : UInt64
  /-- One of so many counted events carries detail. -/
  rate : UInt64
  /-- Whether events are counted and may carry detail. -/
  backtrace : Bool
  /-- Whether events are delivered at all. -/
  active : Bool
deriving DecidableEq

namespace Gate

def fresh : Gate := ⟨0, 1, true, false⟩

instance : Inhabited Gate := ⟨fresh⟩

def setActive (gate : Gate) (active : Bool) : Gate := { gate with active }

def setBacktrace (gate : Gate) (backtrace : Bool) : Gate := { gate with backtrace }

/-- Store a rate, and say whether it was stored: zero is not. -/
def storeRate (gate : Gate) (rate : UInt64) : Bool × Gate :=
  if rate = 0 then (false, gate) else (true, { gate with rate })

/-- Take a rate the way commands mean it: a positive one is stored and switches backtraces on, any
other one switches them off. -/
def configure (gate : Gate) (rate : Int64) : Gate :=
  if 0 < rate then (gate.storeRate rate.toUInt64).2.setBacktrace true
  else gate.setBacktrace false

/-- One event: its number if it carries detail, and the gate after it. -/
def sample (gate : Gate) : Option UInt64 × Gate :=
  if gate.backtrace then
    (if gate.count % max gate.rate 1 = 0 then some gate.count else none,
      { gate with count := gate.count + 1 })
  else (none, gate)

/-- Continue a series of events; `taken` has the numbers so far, the last one first. -/
def samplesFrom (gate : Gate) (taken : List UInt64) : Nat → List UInt64 × Gate
  | 0 => (taken.reverse, gate)
  | n + 1 =>
    match gate.sample with
    | (some number, gate) => gate.samplesFrom (number :: taken) n
    | (none, gate) => gate.samplesFrom taken n

/-- The numbers that a series of events gets, in order, and the gate after it. -/
def samples (gate : Gate) (n : Nat) : List UInt64 × Gate := gate.samplesFrom [] n

def Sound (gate : Gate) : Prop := gate.rate ≠ 0

theorem sound_fresh : fresh.Sound := by
  show (1 : UInt64) ≠ 0
  decide

theorem sound_storeRate {gate : Gate} (sound : gate.Sound) (rate : UInt64) :
    (gate.storeRate rate).2.Sound := by
  unfold storeRate
  split
  · exact sound
  · assumption

theorem sound_configure {gate : Gate} (sound : gate.Sound) (rate : Int64) :
    (gate.configure rate).Sound := by
  unfold configure
  split
  · exact sound_storeRate sound _
  · exact sound

theorem sound_sample {gate : Gate} (sound : gate.Sound) : gate.sample.2.Sound := by
  unfold sample
  split <;> exact sound

end Gate
end TelemetryHub
