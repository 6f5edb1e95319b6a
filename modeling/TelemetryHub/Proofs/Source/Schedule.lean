import Mathlib.Algebra.Order.Floor.Div
import Mathlib.Data.List.Basic
import TelemetryHub.Source

/-!
# When the commands of a script are due

A turn of a script counts down, or takes the next command and starts the countdown again (`Script.polled`).
With whole milliseconds of the interval and of the step, the countdown expires in every `period`-th turn as
long as there are commands (`OnSchedule.poll`): it never counts below zero before it is started again, so
that neither end of its range is reached and nothing is carried over. What a script yields over any number
of turns follows from that (`replay_schedule`).
-/

namespace TelemetryHub

namespace Duration

/-- The whole milliseconds of a duration, as far as countdowns can count them. -/
def counted (duration : Duration) : Nat := min duration.millis (2 ^ 63 - 1)

end Duration

theorem Countdown.cap_eq (duration : Duration) : cap duration = duration.counted := by
  unfold cap greatest Duration.counted
  omega

/-! ## The turns of a script -/

namespace Script

/-- What a turn comes to: the countdown runs on, or a command is due and starts it again. -/
inductive Polled (script : Script) : Option Command × Script → Prop where
  | quiet (nothing : script.pending ≠ [] → 0 < script.clock.lowered) :
    Polled script (none, { script with clock := script.clock.tick.2 })
  | yields {command : Command} {rest : List Command} (due : script.clock.lowered ≤ 0)
    (first : script.pending = command :: rest) :
    Polled script (some command, ⟨rest, script.clock.tick.2.reload⟩)

theorem polled (script : Script) : Polled script script.poll := by
  obtain ⟨pending, clock⟩ := script
  unfold poll Countdown.tick
  by_cases due : clock.lowered ≤ 0
  · rw [decide_eq_true due]
    cases pending with
    | nil => exact .quiet fun some => absurd rfl some
    | cons command rest => exact .yields due rfl
  · rw [decide_eq_false due]
    exact .quiet fun _ => Int.not_le.mp due

/-- A turn takes the command that it yields from the front. -/
theorem pending_poll (script : Script) :
    script.pending = script.poll.1.toList ++ script.poll.2.pending := by
  have turn := script.polled
  generalize script.poll = result at turn ⊢
  cases turn with
  | quiet => rfl
  | yields _ first => exact first

theorem step_poll (script : Script) : script.poll.2.clock.step = script.clock.step := by
  have turn := script.polled
  generalize script.poll = result at turn ⊢
  cases turn <;> rfl

theorem sound_poll {script : Script} (sound : script.clock.Sound) : script.poll.2.clock.Sound := by
  have turn := script.polled
  generalize script.poll = result at turn ⊢
  cases turn with
  | quiet => exact Countdown.sound_tick sound
  | yields => exact Countdown.sound_reload (Countdown.sound_tick sound)

end Script

/-! ## Many turns -/

namespace Source

/-- Turns of a source, each with whether the descriptor was ready: what they yield, and the source after
them. -/
def pollAll (source : Source) : List Bool → List (Option Incoming) × Source
  | [] => ([], source)
  | readable :: later =>
    let (incoming, source) := source.poll readable
    let (others, source) := source.pollAll later
    (incoming :: others, source)

end Source

namespace Script

/-- The turns between two commands, for an interval and a step in milliseconds. -/
def period (interval step : Nat) : Nat := max 1 (interval ⌈/⌉ step)

/-- What the turn behind `turns` others yields on a schedule with a command in every `period`-th turn. -/
def due (commands : List Command) (period turns : Nat) : Option Command :=
  if period ∣ turns + 1 then commands[turns / period]? else none

/-- The script as it is behind so many turns. As long as it has commands left its countdown has lost a step
in each turn since it was started. -/
structure OnSchedule (commands : List Command) (interval step turns : Nat) (script : Script) : Prop where
  pending : script.pending = commands.drop (turns / period interval step)
  startsFrom : script.clock.reloadTo = interval
  loses : script.clock.step = step
  remaining : script.pending ≠ [] →
    script.clock.remaining = interval - ((step * (turns % period interval step) : Nat) : Int)

section Schedule

variable {commands : List Command} {interval step turns : Nat} {script : Script}

theorem period_pos (interval step : Nat) : 0 < period interval step := Nat.lt_of_lt_of_le one_pos (le_max_left ..)

/-- As many steps as there are turns in a period use the interval up, and fewer do not. -/
theorem interval_le_iff (runs : 0 < step ∨ interval = 0) {turns : Nat} (begun : 0 < turns) :
    interval ≤ step * turns ↔ period interval step ≤ turns := by
  unfold period
  rcases runs with runs | rfl
  · have := ceilDiv_le_iff_le_mul runs (b := interval) (c := turns)
    omega
  · have : (0 : Nat) ⌈/⌉ step = 0 := zero_ceilDiv step
    omega

/-- Inside a period the next turn is one more in it. -/
theorem next_inside {period turns : Nat} (inside : turns % period + 1 < period) :
    ¬period ∣ turns + 1 ∧ (turns + 1) / period = turns / period ∧
      (turns + 1) % period = turns % period + 1 := by
  have pos : 0 < period := by omega
  have parts : (turns + 1) / period = turns / period ∧ (turns + 1) % period = turns % period + 1 :=
    (Nat.div_mod_unique pos).mpr ⟨by have := Nat.mod_add_div turns period; omega, inside⟩
  exact ⟨fun divides => by have := Nat.mod_eq_zero_of_dvd divides; omega, parts⟩

/-- At the end of a period the next turn completes it. -/
theorem next_complete {period turns : Nat} (complete : turns % period + 1 = period) :
    period ∣ turns + 1 ∧ (turns + 1) / period = turns / period + 1 ∧ (turns + 1) % period = 0 := by
  have pos : 0 < period := by omega
  have parts : (turns + 1) / period = turns / period + 1 ∧ (turns + 1) % period = 0 := by
    refine (Nat.div_mod_unique pos).mpr ⟨?_, pos⟩
    have := Nat.mod_add_div turns period
    rw [Nat.mul_succ]
    omega
  exact ⟨Nat.dvd_of_mod_eq_zero parts.2, parts⟩

/-- **Step**: a turn on schedule yields what is due, and leaves the script on schedule. -/
theorem OnSchedule.poll (runs : 0 < step ∨ interval = 0)
    (onSchedule : OnSchedule commands interval step turns script) :
    script.poll.1 = due commands (period interval step) turns ∧
      OnSchedule commands interval step (turns + 1) script.poll.2 := by
  obtain ⟨pending, startsFrom, loses, remaining⟩ := onSchedule
  have used := @interval_le_iff interval step runs (turns % period interval step + 1) (Nat.succ_pos _)
  have below := Nat.mod_lt turns (period_pos interval step)
  have lowered : script.pending ≠ [] → script.clock.lowered =
      max Countdown.least (interval - ((step * (turns % period interval step + 1) : Nat) : Int)) := by
    intro more
    unfold Countdown.lowered
    rw [remaining more, loses, Nat.mul_succ]
    congr 1
    omega
  have turn := script.polled
  generalize script.poll = result at turn ⊢
  cases turn with
  | quiet nothing =>
    by_cases more : script.pending = []
    · -- nothing is left, so nothing is due any more
      have none : commands.length ≤ turns / period interval step := List.drop_eq_nil_iff.mp (pending ▸ more)
      have later : turns / period interval step ≤ (turns + 1) / period interval step :=
        Nat.div_le_div_right (Nat.le_succ turns)
      refine ⟨?_, ?_, startsFrom, loses, fun some => absurd more some⟩
      · unfold due
        rw [List.getElem?_eq_none none, ite_self]
      · exact more.trans (List.drop_eq_nil_iff.mpr (Nat.le_trans none later)).symm
    · have left := nothing more
      rw [lowered more] at left
      have inside : turns % period interval step + 1 < period interval step := by
        unfold Countdown.least at left
        omega
      obtain ⟨undue, same, next⟩ := next_inside inside
      refine ⟨(if_neg undue).symm, pending.trans (by rw [same]), startsFrom, loses, fun _ => ?_⟩
      rw [next]
      unfold Countdown.least at left lowered
      exact (lowered more).trans (by omega)
  | @yields command rest now first =>
    have more : script.pending ≠ [] := by rw [first]; exact List.cons_ne_nil _ _
    rw [lowered more] at now
    have complete : turns % period interval step + 1 = period interval step := by
      unfold Countdown.least at now
      omega
    obtain ⟨isDue, quotient, remainder⟩ := next_complete complete
    rw [first] at pending
    refine ⟨?_, ?_, startsFrom, loses, fun _ => ?_⟩
    · unfold due
      rw [if_pos isDue, ← List.head?_drop, ← pending]
      rfl
    · rw [quotient, ← List.drop_drop, ← pending]
      rfl
    · rw [remainder]
      exact startsFrom.trans (by simp)

/-- A countdown that loses nothing does not expire. -/
theorem poll_of_stopped (stopped : script.clock.step = 0) (left : 0 < script.clock.remaining) :
    script.poll = (none, script) := by
  have same : script.clock.lowered = script.clock.remaining := by
    unfold Countdown.lowered Countdown.least
    rw [stopped]
    omega
  have turn := script.polled
  generalize script.poll = result at turn ⊢
  cases turn with
  | quiet =>
    unfold Countdown.tick
    rw [same]
  | yields now => exact absurd left (by rw [← same]; omega)

theorem due_eq_some_iff {period : Nat} (pos : 0 < period) {command : Command} :
    due commands period turns = some command ↔
      ∃ j, commands[j]? = some command ∧ turns + 1 = (j + 1) * period := by
  unfold due
  constructor
  · intro found
    split at found
    · next divides =>
      refine ⟨turns / period, found, ?_⟩
      have complete : turns % period + 1 = period := by
        by_contra other
        exact (next_inside (Nat.lt_of_le_of_ne (Nat.mod_lt turns pos) other)).1 divides
      rw [← (next_complete complete).2.1, Nat.div_mul_cancel divides]
    · cases found
  · rintro ⟨j, found, number⟩
    have place : turns / period = j := by
      refine Nat.div_eq_of_lt_le ?_ ?_ <;> rw [Nat.succ_mul] at * <;> omega
    rw [if_pos (number ▸ Nat.dvd_mul_left period (j + 1)), place, found]

/-- The commands that are due in so many turns are that part of the script. -/
theorem filterMap_due {period : Nat} (pos : 0 < period) (turns : Nat) :
    (List.range turns).filterMap (due commands period) = commands.take (turns / period) := by
  induction turns with
  | zero => simp
  | succ turns ih =>
    rw [List.range_succ, List.filterMap_append, ih, List.filterMap_cons, List.filterMap_nil]
    unfold due
    rcases Nat.lt_or_eq_of_le (Nat.mod_lt turns pos) with inside | complete
    · obtain ⟨undue, same, -⟩ := next_inside inside
      rw [if_neg undue, same]
      exact List.append_nil _
    · obtain ⟨isDue, quotient, -⟩ := next_complete complete
      rw [if_pos isDue, quotient, List.take_add_one]
      cases commands[turns / period]? <;> rfl

end Schedule

end Script

namespace Source

theorem pollAll_script (script : Script) (readable : Bool) (later : List Bool) :
    (Source.script script).pollAll (readable :: later) =
      (script.poll.1.map Incoming.parsed :: ((Source.script script.poll.2).pollAll later).1,
        ((Source.script script.poll.2).pollAll later).2) := rfl

theorem length_pollAll (source : Source) (flags : List Bool) :
    (source.pollAll flags).1.length = flags.length := by
  induction flags generalizing source with
  | nil => rfl
  | cons readable later ih => exact congrArg (· + 1) (ih _)

/-- The countdown of a script stays in its range. -/
theorem sound_pollAll {script : Script} (sound : script.clock.Sound) (flags : List Bool) :
    ∃ after : Script, ((Source.script script).pollAll flags).2 = .script after ∧ after.clock.Sound := by
  induction flags generalizing script with
  | nil => exact ⟨script, rfl, sound⟩
  | cons readable later ih => exact ih (Script.sound_poll sound)

/-- **Run**: what a script on schedule yields in turns of any number is what is due in them. -/
theorem pollAll_of_onSchedule {commands : List Command} {interval step turns : Nat} {script : Script}
    (runs : 0 < step ∨ interval = 0) (onSchedule : Script.OnSchedule commands interval step turns script)
    (flags : List Bool) :
    ((Source.script script).pollAll flags).1 = (List.range' turns flags.length).map fun turns =>
      (Script.due commands (Script.period interval step) turns).map Incoming.parsed := by
  induction flags generalizing turns script with
  | nil => rfl
  | cons readable later ih =>
    obtain ⟨yielded, next⟩ := onSchedule.poll runs
    rw [pollAll_script, ih next, yielded]
    rfl

theorem pollAll_of_stopped {script : Script} (stopped : script.clock.step = 0)
    (left : 0 < script.clock.remaining) (flags : List Bool) :
    ∀ incoming ∈ ((Source.script script).pollAll flags).1, incoming = none := by
  induction flags with
  | nil => exact nofun
  | cons readable later ih =>
    rw [pollAll_script, Script.poll_of_stopped stopped left]
    exact List.forall_mem_cons.mpr ⟨rfl, ih⟩

end Source

/-! ## The schedule -/

theorem Script.onSchedule_new (commands : List Command) (interval step : Duration) :
    OnSchedule commands interval.counted step.counted 0 ⟨commands, .new interval step⟩ where
  pending := by rw [Nat.zero_div]; rfl
  startsFrom := Countdown.cap_eq interval
  loses := Countdown.cap_eq step
  remaining := fun _ => by
    rw [Nat.zero_mod, Nat.mul_zero]
    exact (Countdown.cap_eq interval).trans (by simp)

/-- What the turns of a script yield, with a command in every `period`-th turn: each command in its own turn
and nothing in any other one, so that all of them come once and in order. -/
structure Replayed (commands : List Command) (period : Nat) (yielded : List (Option Incoming)) : Prop where
  inTurn : ∀ turns incoming, yielded[turns]? = some (some incoming) ↔
    turns < yielded.length ∧ ∃ j command, commands[j]? = some command ∧ incoming = .parsed command ∧
      turns + 1 = (j + 1) * period
  inOrder : yielded.filterMap id = (commands.take (yielded.length / period)).map .parsed

theorem Script.replayed (commands : List Command) {interval step : Duration}
    (runs : 0 < step.counted ∨ interval.counted = 0) (flags : List Bool) :
    Replayed commands (period interval.counted step.counted)
      ((Source.script ⟨commands, .new interval step⟩).pollAll flags).1 := by
  have pos := period_pos interval.counted step.counted
  have yielded := Source.pollAll_of_onSchedule runs (onSchedule_new commands interval step) flags
  rw [← List.range_eq_range'] at yielded
  constructor
  · intro turns incoming
    rw [Source.length_pollAll, yielded, List.getElem?_map, Option.map_eq_some_iff]
    constructor
    · rintro ⟨number, isIn, answer⟩
      obtain ⟨command, isDue, rfl⟩ := Option.map_eq_some_iff.mp answer
      obtain ⟨j, found, place⟩ := (due_eq_some_iff pos).mp isDue
      obtain ⟨small, rfl⟩ := List.getElem?_eq_some_iff.mp isIn
      rw [List.getElem_range] at place
      exact ⟨by simpa using small, j, command, found, rfl, place⟩
    · rintro ⟨small, j, command, found, rfl, place⟩
      exact ⟨turns, List.getElem?_range small, by rw [(due_eq_some_iff pos).mpr ⟨j, found, place⟩]; rfl⟩
  · rw [Source.length_pollAll, yielded, List.filterMap_map, ← filterMap_due pos, List.map_filterMap]
    rfl

/-- **Schedule.** A script whose countdown loses something in each turn yields its commands in order, one in
every turn that completes as many steps as the interval takes, and nothing in any other turn or behind the
last command. A countdown of nothing that loses nothing expires in every turn, and one of something never.
Its countdown stays in its range whatever the number of turns. -/
theorem replay_schedule (commands : List Command) (interval step : Duration) (flags : List Bool) :
    let replay := (Source.script ⟨commands, .new interval step⟩).pollAll flags
    replay.1.length = flags.length ∧
    (0 < step.counted →
      Replayed commands (max 1 (interval.counted ⌈/⌉ step.counted)) replay.1) ∧
    (step.counted = 0 → interval.counted = 0 → Replayed commands 1 replay.1) ∧
    (step.counted = 0 → 0 < interval.counted → ∀ incoming ∈ replay.1, incoming = none) ∧
    ∃ script, replay.2 = .script script ∧ Countdown.least ≤ script.clock.remaining ∧
      script.clock.remaining ≤ Countdown.greatest := by
  intro replay
  refine ⟨Source.length_pollAll _ flags, fun runs => Script.replayed commands (.inl runs) flags,
    fun stopped nothing => ?_, fun stopped left => ?_, ?_⟩
  · have runs : 0 < step.counted ∨ interval.counted = 0 := .inr nothing
    have replayed := Script.replayed commands runs flags
    rwa [nothing, Script.period, zero_ceilDiv] at replayed
  · exact Source.pollAll_of_stopped (by rw [show Countdown.step _ = _ from Countdown.cap_eq step, stopped]; rfl)
      (by rw [show Countdown.remaining _ = _ from Countdown.cap_eq interval]; omega) flags
  · obtain ⟨script, same, sound⟩ :=
      @Source.sound_pollAll ⟨commands, .new interval step⟩ (Countdown.sound_new interval step) flags
    exact ⟨script, same, sound.remaining⟩

/-- A quarter of a second takes three steps of a tenth, and what is left over is not carried on. -/
theorem replay_schedule_quarters :
    let commands : List Command := [⟨"monitorEvents", .start, none⟩, ⟨"monitorEvents", .stop, none⟩]
    let yielded := ((Source.script ⟨commands, .new (.ofMillis 250) (.ofMillis 100)⟩).pollAll
      [true, false, false, true, false, false, true]).1
    0 < (Duration.ofMillis 100).counted ∧ yielded.filterMap id = commands.map .parsed ∧
      yielded[5]? = some (some (.parsed ⟨"monitorEvents", .stop, none⟩)) := by
  intro commands yielded
  have runs : 0 < (Duration.ofMillis 100).counted := by decide
  have replayed := (replay_schedule commands (.ofMillis 250) (.ofMillis 100)
    [true, false, false, true, false, false, true]).2.1 runs
  have third : max 1 ((Duration.ofMillis 250).counted ⌈/⌉ (Duration.ofMillis 100).counted) = 3 := by decide
  rw [third] at replayed
  have order := replayed.inOrder
  rw [Source.length_pollAll] at order
  exact ⟨runs, order, (replayed.inTurn 5 _).mpr ⟨by decide, 1, _, rfl, rfl, rfl⟩⟩

end TelemetryHub
