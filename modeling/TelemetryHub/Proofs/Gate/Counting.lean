import Mathlib.Algebra.Group.Nat.Defs
import Mathlib.Data.List.Infix
import TelemetryHub.Gate.Basic

/-!
# The numbers of events

A gate that has been fresh counts the events that happen while backtraces are on, modulo `2 ^ 64`, whatever
else is done to it in between (`count_after`). An event gets the number of those before it exactly if the
rate of that moment divides it (`sample_eq_some_iff`). So the numbers of a run are those of the events that
were counted in it (`mem_numbers`), each one greater than the ones before it (`numbers_increase`), and while
the rate stays they are its multiples (`numbers_of_rate`).
-/

namespace TelemetryHub.Gate

/-! ## Calls -/

/-- What can be done to a gate. -/
inductive Call where
  | configure (rate : Int64)
  | storeRate (rate : UInt64)
  | setActive (active : Bool)
  | setBacktrace (backtrace : Bool)
  | sample
deriving DecidableEq

/-- The gate after a call. -/
def call (gate : Gate) : Call → Gate
  | .configure rate => gate.configure rate
  | .storeRate rate => (gate.storeRate rate).2
  | .setActive active => gate.setActive active
  | .setBacktrace backtrace => gate.setBacktrace backtrace
  | .sample => gate.sample.2

def after (gate : Gate) (calls : List Call) : Gate := calls.foldl call gate

/-- The number that a call returns, if any. -/
def number? (gate : Gate) : Call → Option UInt64
  | .sample => gate.sample.1
  | _ => none

/-- The numbers that calls return one after the other. -/
def numbers (gate : Gate) : List Call → List UInt64
  | [] => []
  | call :: later => (gate.number? call).toList ++ (gate.call call).numbers later

/-- How many events a call counts: one, if it is an event and backtraces are on. -/
def counting (gate : Gate) (call : Call) : Nat := if call = .sample ∧ gate.backtrace = true then 1 else 0

/-- How many events calls count. -/
def counted (gate : Gate) : List Call → Nat
  | [] => 0
  | call :: later => gate.counting call + (gate.call call).counted later

theorem numbers_cons (gate : Gate) (call : Call) (later : List Call) :
    gate.numbers (call :: later) = (gate.number? call).toList ++ (gate.call call).numbers later := rfl

theorem counted_cons (gate : Gate) (call : Call) (later : List Call) :
    gate.counted (call :: later) = gate.counting call + (gate.call call).counted later := rfl

theorem after_append (gate : Gate) (calls later : List Call) :
    gate.after (calls ++ later) = (gate.after calls).after later := List.foldl_append ..

theorem counted_append (gate : Gate) (calls later : List Call) :
    gate.counted (calls ++ later) = gate.counted calls + (gate.after calls).counted later := by
  induction calls generalizing gate with
  | nil => exact (Nat.zero_add _).symm
  | cons call calls ih =>
    rw [List.cons_append, counted_cons, counted_cons, ih (gate.call call), Nat.add_assoc]
    rfl

/-! ## One call -/

/-- A gate is sound after every call. -/
theorem sound_call {gate : Gate} (sound : gate.Sound) (call : Call) : (gate.call call).Sound := by
  cases call with
  | configure rate => exact sound_configure sound rate
  | storeRate rate => exact sound_storeRate sound rate
  | setActive | setBacktrace => exact sound
  | sample => exact sound_sample sound

theorem sound_after {gate : Gate} (sound : gate.Sound) (calls : List Call) : (gate.after calls).Sound := by
  induction calls generalizing gate with
  | nil => exact sound
  | cons call calls ih => exact ih (sound_call sound call)

/-- The rate of a sound gate is what the numbers of events are divided by. -/
theorem Sound.max_rate {gate : Gate} (sound : gate.Sound) : max gate.rate 1 = gate.rate := by
  have positive : (1 : UInt64) ≤ gate.rate := by
    rw [UInt64.le_iff_toNat_le]
    exact Nat.pos_of_ne_zero fun zero => sound (UInt64.toNat_inj.mp zero)
  change (if gate.rate ≤ 1 then 1 else gate.rate) = gate.rate
  split
  · next small => exact UInt64.le_antisymm positive small
  · rfl

/-- An event gets its number exactly if it is counted and the rate divides the number. -/
theorem sample_eq_some_iff {gate : Gate} (sound : gate.Sound) {number : UInt64} :
    gate.sample.1 = some number ↔
      gate.backtrace = true ∧ gate.rate.toNat ∣ gate.count.toNat ∧ number = gate.count := by
  have divides : gate.count % max gate.rate 1 = 0 ↔ gate.rate.toNat ∣ gate.count.toNat := by
    rw [sound.max_rate, ← UInt64.toNat_inj, UInt64.toNat_mod]
    exact (Nat.dvd_iff_mod_eq_zero ..).symm
  unfold sample
  split
  · next on => simp [on, divides, eq_comm]
  · next off => simp [off]

theorem counting_eq (gate : Gate) (call : Call) : gate.counting call = 0 ∨ gate.counting call = 1 := by
  unfold counting
  split
  · exact .inr rfl
  · exact .inl rfl

theorem count_storeRate (gate : Gate) (rate : UInt64) : (gate.storeRate rate).2.count = gate.count := by
  unfold storeRate
  split <;> rfl

theorem count_configure (gate : Gate) (rate : Int64) : (gate.configure rate).count = gate.count := by
  unfold configure
  split
  · exact count_storeRate gate _
  · rfl

theorem count_call (gate : Gate) (call : Call) :
    (gate.call call).count.toNat = (gate.count.toNat + gate.counting call) % 2 ^ 64 := by
  cases call with
  | sample =>
    unfold Gate.call counting sample
    by_cases on : gate.backtrace = true <;> simp [on]
  | configure rate =>
    unfold Gate.call
    rw [count_configure]
    exact (Nat.mod_eq_of_lt gate.count.toNat_lt).symm
  | storeRate rate =>
    unfold Gate.call
    rw [count_storeRate]
    exact (Nat.mod_eq_of_lt gate.count.toNat_lt).symm
  | setActive | setBacktrace => exact (Nat.mod_eq_of_lt gate.count.toNat_lt).symm

/-! ## Runs -/

/-- **Run**: the count goes on by the events that are counted, and starts again behind the last number. -/
theorem count_after (gate : Gate) (calls : List Call) :
    (gate.after calls).count.toNat = (gate.count.toNat + gate.counted calls) % 2 ^ 64 := by
  induction calls generalizing gate with
  | nil => exact (Nat.mod_eq_of_lt gate.count.toNat_lt).symm
  | cons call calls ih =>
    have here := gate.count_call call
    rw [counted_cons]
    refine (ih (gate.call call)).trans ?_
    omega

/-- A call returns a number exactly if it counts an event and the rate divides the number. -/
theorem number?_eq_some_iff {gate : Gate} (sound : gate.Sound) {call : Call} {number : UInt64} :
    gate.number? call = some number ↔
      gate.counting call = 1 ∧ gate.rate.toNat ∣ gate.count.toNat ∧ number = gate.count := by
  have counts : gate.counting call = 1 ↔ call = .sample ∧ gate.backtrace = true := by
    unfold counting
    split <;> simp [*]
  rw [counts]
  cases call with
  | sample => exact (sample_eq_some_iff sound).trans (by simp)
  | _ => exact ⟨nofun, fun counted => nomatch counted.1.1⟩

theorem number?_eq {gate : Gate} (sound : gate.Sound) (call : Call) :
    gate.number? call =
      if gate.counting call = 1 ∧ gate.rate.toNat ∣ gate.count.toNat then some gate.count else none := by
  ext number
  rw [number?_eq_some_iff sound]
  split
  · next counted => simp [counted, eq_comm]
  · next uncounted => simpa using fun counts divides _ => uncounted ⟨counts, divides⟩

/-- The numbers of a run are those of events that it counts. -/
theorem mem_numbers {gate : Gate} (sound : gate.Sound) {calls : List Call}
    (small : gate.count.toNat + gate.counted calls < 2 ^ 64) {number : UInt64}
    (isIn : number ∈ gate.numbers calls) :
    gate.count.toNat ≤ number.toNat ∧ number.toNat < gate.count.toNat + gate.counted calls := by
  induction calls generalizing gate with
  | nil => cases isIn
  | cons call calls ih =>
    have next := gate.count_call call
    rw [numbers_cons] at isIn
    rw [counted_cons] at small ⊢
    rcases List.mem_append.mp isIn with here | later
    · obtain ⟨counts, -, rfl⟩ := (number?_eq_some_iff sound).mp (Option.mem_toList.mp here)
      omega
    · have := ih (sound_call sound call) (by omega) later
      omega

/-- Each number is greater than those before it. -/
theorem numbers_increase {gate : Gate} (sound : gate.Sound) {calls : List Call}
    (small : gate.count.toNat + gate.counted calls < 2 ^ 64) : (gate.numbers calls).Pairwise (· < ·) := by
  induction calls generalizing gate with
  | nil => exact .nil
  | cons call calls ih =>
    have next := gate.count_call call
    rw [counted_cons] at small
    rw [numbers_cons]
    have later : (gate.call call).count.toNat + (gate.call call).counted calls < 2 ^ 64 := by omega
    refine List.pairwise_append.mpr ⟨?_, ih (sound_call sound call) later, fun first isFirst second isSecond => ?_⟩
    · cases gate.number? call <;> simp
    · obtain ⟨counts, -, rfl⟩ := (number?_eq_some_iff sound).mp (Option.mem_toList.mp isFirst)
      have := mem_numbers (sound_call sound call) later isSecond
      rw [UInt64.lt_iff_toNat_lt]
      omega

/-- While the rate stays the numbers are its multiples among those of the events that are counted. -/
theorem numbers_of_rate {gate : Gate} (sound : gate.Sound) {calls : List Call} {rate : UInt64}
    (stays : ∀ front, front <+: calls → (gate.after front).rate = rate)
    (small : gate.count.toNat + gate.counted calls < 2 ^ 64) :
    (gate.numbers calls).map UInt64.toNat =
      (List.range' gate.count.toNat (gate.counted calls)).filter (rate.toNat ∣ ·) := by
  induction calls generalizing gate with
  | nil => rfl
  | cons call calls ih =>
    have next := gate.count_call call
    have isRate : gate.rate = rate := stays [] List.nil_prefix
    rw [counted_cons] at small ⊢
    have later := ih (sound_call sound call)
      (fun front isFront => stays (call :: front) ((List.prefix_cons_inj call).mpr isFront)) (by omega)
    rw [numbers_cons, List.map_append, later, next, number?_eq sound]
    rcases gate.counting_eq call with uncounted | counts
    · rw [if_neg (fun counted => by omega), uncounted, Nat.zero_add, Nat.add_zero,
        Nat.mod_eq_of_lt gate.count.toNat_lt]
      rfl
    · rw [counts, Nat.mod_eq_of_lt (by omega), Nat.add_comm 1, List.range'_succ, List.filter_cons]
      by_cases divides : rate.toNat ∣ gate.count.toNat
      · rw [if_pos ⟨rfl, isRate ▸ divides⟩, if_pos (decide_eq_true divides)]
        rfl
      · rw [if_neg (fun counted => divides (isRate ▸ counted.2)), if_neg (by simpa using divides)]
        rfl

/-! ## Fresh gates -/

/-- **Numbers of events.** Whatever is done to a gate that has been fresh, its rate is never zero, so that
nothing is divided by it, and its count is that of the events while backtraces were on, modulo `2 ^ 64`. The
next event gets this number exactly if backtraces are on and the rate of that moment divides it. Up to
`2 ^ 64` events the numbers of the run increase, and over a part of it in which the rate stays they are all
multiples of the rate among the numbers of the events that the part counts. -/
theorem sampling_numbers (calls : List Call) :
    let gate := fresh.after calls
    gate.rate ≠ 0 ∧ max gate.rate 1 = gate.rate ∧
    gate.count.toNat = fresh.counted calls % 2 ^ 64 ∧
    (∀ number, gate.sample.1 = some number ↔ gate.backtrace = true ∧
      gate.rate.toNat ∣ fresh.counted calls % 2 ^ 64 ∧ number.toNat = fresh.counted calls % 2 ^ 64) ∧
    (fresh.counted calls < 2 ^ 64 →
      gate.count.toNat = fresh.counted calls ∧
      (∀ number, gate.sample.1 = some number ↔ gate.backtrace = true ∧
        gate.rate.toNat ∣ fresh.counted calls ∧ number.toNat = fresh.counted calls) ∧
      (fresh.numbers calls).Pairwise (· < ·) ∧
      ∀ before part rate, calls = before ++ part →
        (∀ front, front <+: part → (fresh.after (before ++ front)).rate = rate) →
        ((fresh.after before).numbers part).map UInt64.toNat =
          (List.range' (fresh.counted before) ((fresh.after before).counted part)).filter
            (rate.toNat ∣ ·)) := by
  intro gate
  have sound := sound_after sound_fresh calls
  have count : gate.count.toNat = fresh.counted calls % 2 ^ 64 := by
    have := fresh.count_after calls
    rwa [show fresh.count.toNat = 0 from rfl, Nat.zero_add] at this
  have sampled : ∀ number, gate.sample.1 = some number ↔ gate.backtrace = true ∧
      gate.rate.toNat ∣ fresh.counted calls % 2 ^ 64 ∧ number.toNat = fresh.counted calls % 2 ^ 64 := by
    intro number
    rw [sample_eq_some_iff sound, ← count, UInt64.toNat_inj]
  refine ⟨sound, sound.max_rate, count, sampled, fun small => ?_⟩
  rw [Nat.mod_eq_of_lt small] at count sampled
  refine ⟨count, sampled, numbers_increase sound_fresh ?_, ?_⟩
  · rwa [show fresh.count.toNat = 0 from rfl, Nat.zero_add]
  rintro before part rate rfl stays
  rw [counted_append] at small
  have start : (fresh.after before).count.toNat = fresh.counted before := by
    have := fresh.count_after before
    rwa [show fresh.count.toNat = 0 from rfl, Nat.zero_add, Nat.mod_eq_of_lt (by omega)] at this
  have numbers := numbers_of_rate (sound_after sound_fresh before)
    (fun front isFront => by rw [← after_append]; exact stays front isFront) (by rwa [start])
  rwa [start] at numbers

/-- A pause does not count, and the numbers go on behind it with the new rate. -/
theorem sampling_numbers_two_rates :
    let before : List Call := [.configure 3, .sample, .sample, .sample, .sample, .setBacktrace false, .sample,
      .configure 2]
    let part : List Call := [.sample, .setActive true, .sample, .storeRate 0, .sample]
    fresh.counted (before ++ part) < 2 ^ 64 ∧
      (∀ front, front <+: part → (fresh.after (before ++ front)).rate = 2) ∧
      ((fresh.after before).numbers part).map UInt64.toNat = [4, 6] ∧
      (fresh.numbers (before ++ part)).Pairwise (· < ·) := by
  intro before part
  have small : fresh.counted (before ++ part) < 2 ^ 64 := by decide
  have stays : ∀ front, front <+: part → (fresh.after (before ++ front)).rate = 2 := by
    intro front isFront
    have all : ∀ front ∈ part.inits, (fresh.after (before ++ front)).rate = 2 := by decide
    exact all front ((List.mem_inits front part).mpr isFront)
  obtain ⟨-, -, increase, ofRate⟩ := (sampling_numbers (before ++ part)).2.2.2.2 small
  exact ⟨small, stays, (ofRate before part 2 rfl stays).trans (by decide), increase⟩

end TelemetryHub.Gate
