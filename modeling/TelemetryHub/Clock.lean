/-!
# Durations, countdowns and deadlines

A length of time is counted in nanoseconds; most of the program counts in whole milliseconds. A
countdown loses a step of milliseconds in every turn of the server's loop and has expired when nothing
is left of it. It counts in signed 64-bit numbers and stops at their ends. A deadline is a reading of the
clock and some time more, and there are deadlines that the clock cannot count.
-/

namespace TelemetryHub

/-! ## Durations -/

structure Duration where
  nanoseconds : Nat
deriving DecidableEq

namespace Duration

/-- So many milliseconds. -/
def ofMillis (n : Nat) : Duration := ⟨n * 1000000⟩

def second : Nat := 1000000000

def ofSeconds (n : Nat) : Duration := ⟨n * second⟩

/-- The whole seconds of a duration lie below this bound, which is `2 ^ 64`. -/
def secondsBound : Nat := 18446744073709551616

/-- So many seconds and nanoseconds, unless they are too many together. -/
def ofParts? (seconds nanoseconds : Nat) : Option Duration :=
  let total := seconds * second + nanoseconds
  if total / second < secondsBound then some ⟨total⟩ else none

def millis (duration : Duration) : Nat := duration.nanoseconds / 1000000

theorem millis_ofMillis (n : Nat) : (ofMillis n).millis = n := by
  simp [ofMillis, millis]

end Duration

/-! ## Countdowns -/

/-- A countdown, in milliseconds. -/
structure Countdown where
  remaining : Int
  reloadTo : Int
  step : Int
deriving DecidableEq

namespace Countdown

def least : Int := -9223372036854775808

def greatest : Int := 9223372036854775807

/-- The whole milliseconds of a duration, or the greatest number of them. -/
def cap (duration : Duration) : Int := min (duration.millis : Int) greatest

/-- A countdown of `interval` that loses `step` in every turn. -/
def new (interval step : Duration) : Countdown := ⟨cap interval, cap interval, cap step⟩

def lowered (clock : Countdown) : Int := max least (clock.remaining - clock.step)

/-- One turn: whether the countdown has expired, and the countdown after it. -/
def tick (clock : Countdown) : Bool × Countdown :=
  (decide (clock.lowered ≤ 0), { clock with remaining := clock.lowered })

def reload (clock : Countdown) : Countdown := { clock with remaining := clock.reloadTo }

structure Sound (clock : Countdown) : Prop where
  step : 0 ≤ clock.step
  reloadTo : 0 ≤ clock.reloadTo ∧ clock.reloadTo ≤ greatest
  remaining : least ≤ clock.remaining ∧ clock.remaining ≤ greatest

theorem sound_new (interval step : Duration) : (new interval step).Sound := by
  constructor <;> simp only [new, cap, greatest, least] <;> omega

theorem sound_tick {clock : Countdown} (sound : clock.Sound) : clock.tick.2.Sound := by
  obtain ⟨step, reloadTo, remaining⟩ := sound
  refine ⟨step, reloadTo, ?_⟩
  simp only [tick, lowered]
  omega

theorem sound_reload {clock : Countdown} (sound : clock.Sound) : clock.reload.Sound := by
  obtain ⟨step, reloadTo, remaining⟩ := sound
  refine ⟨step, reloadTo, ?_⟩
  simp only [reload, least]
  omega

end Countdown

/-! ## Deadlines -/

/-- When a sampler that has been told to stop has to have ended. -/
structure Deadline where
  reading : Duration
  /-- How long the sampler may take. -/
  grace : Duration
deriving DecidableEq

namespace Deadline

/-- The clock counts seconds below this bound, which is `2 ^ 63`. -/
def clockBound : Nat := 9223372036854775808

def isCounted (deadline : Deadline) : Bool :=
  (deadline.reading.nanoseconds + deadline.grace.nanoseconds) / Duration.second < clockBound

end Deadline

end TelemetryHub
