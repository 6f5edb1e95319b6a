import TelemetryHub.Session.Run

/-!
# The course of a session

`Ran` is all that a session can come to, one case per way out. What happens in a session happens in the
order of its stages (`Ran.staged`), from the start of the sampler to the records, so that the report is asked
for behind the end of the sampler and the data are removed in between (`Orderly`). All this holds of every
session but those that break off (`session_protocol`): a sampler that has been told to stop and whose deadline
the clock cannot count is neither waited for nor cleaned up, and nothing is published about it.
-/

namespace TelemetryHub

namespace SessionEvent

/-- How far a session is when something happens. -/
def stage : SessionEvent → Nat
  | .spawned => 0
  | .waited => 1
  | .terminated => 2
  | .reaped | .discarded => 3
  | .reported => 4
  | .cleaned => 5
  | .published _ => 6

/-- Nothing but a record comes behind something of the same stage. -/
def Before (first second : SessionEvent) : Prop :=
  first.stage < second.stage ∨ first.stage = 6 ∧ second.stage = 6

instance (first second : SessionEvent) : Decidable (first.Before second) :=
  inferInstanceAs (Decidable (_ ∨ _))

def record? : SessionEvent → Option Json
  | .published record => some record
  | _ => none

theorem exists_of_stage {event : SessionEvent} (late : 5 < event.stage) : ∃ record, event = .published record := by
  cases event with
  | published record => exact ⟨record, rfl⟩
  | _ => exact absurd late (by decide)

end SessionEvent

/-- Whether a record is one about a session. -/
def isStatus : Json → Bool
  | .obj [("perfSession", _)] => true
  | _ => false

/-! ## What can go wrong -/

theorem Child.stopError?_eq_none_iff {child : Child} :
    child.stopError? = none ↔ child.refusal = none ∧ child.ending = .exits := by
  unfold stopError?
  cases child.refusal <;> cases child.ending <;> simp

namespace Sampler

/-- The sampler cannot be started, it cannot be told to stop, it does not end in time, or it has no report. -/
def Fails (sampler : Sampler) : Prop :=
  (∃ error, sampler.child = .error error) ∨
  (∃ child failure, sampler.child = .ok child ∧ child.refusal = some failure) ∨
  (∃ child, sampler.child = .ok child ∧ child.ending ≠ .exits) ∨
  ∃ error, sampler.report = .error error

/-- The sampler has been told to stop, and the clock cannot count to when it has to have ended. -/
def BreaksOff (sampler : Sampler) (deadline : Deadline) : Prop :=
  (∃ child, sampler.child = .ok child ∧ child.refusal = none) ∧ deadline.isCounted = false

/-- The ways that a session can take, each with when it is taken. -/
inductive Ran (sampler : Sampler) (deadline : Deadline) (cancelled : Bool) : Course → Prop where
  | unspawned {error : SessionError} (spawn : sampler.child = .error error) :
    Ran sampler deadline cancelled (.failing [] error)
  | brokenOff {child : Child} (spawn : sampler.child = .ok child) (signalled : child.refusal = none)
    (uncounted : deadline.isCounted = false) :
    Ran sampler deadline cancelled ⟨[.spawned, .waited, .terminated], [], .brokenOff⟩
  | unsignalled {child : Child} {failure : Failure} (spawn : sampler.child = .ok child)
    (refused : child.refusal = some failure) :
    Ran sampler deadline cancelled
      (.failing [.spawned, .waited, .discarded, .cleaned] (.signal child.pid failure))
  | unended {child : Child} {error : SessionError} (spawn : sampler.child = .ok child)
    (counted : deadline.isCounted = true) (goesOn : child.ending ≠ .exits) :
    Ran sampler deadline cancelled
      (.failing [.spawned, .waited, .terminated, .discarded, .cleaned] error)
  | unreported {child : Child} {error : SessionError} (spawn : sampler.child = .ok child)
    (counted : deadline.isCounted = true) (report : sampler.report = .error error) :
    Ran sampler deadline cancelled
      (.failing [.spawned, .waited, .terminated, .reaped, .reported, .cleaned] error)
  | reported {child : Child} {report : String} (spawn : sampler.child = .ok child)
    (signalled : child.refusal = none) (counted : deadline.isCounted = true) (ends : child.ending = .exits)
    (told : sampler.report = .ok report) :
    Ran sampler deadline cancelled
      ⟨[.spawned, .waited, .terminated, .reaped, .reported, .cleaned], Report.samples report,
        outcome cancelled (Report.samples report).length⟩

theorem ran (sampler : Sampler) (deadline : Deadline) (cancelled : Bool) :
    Ran sampler deadline cancelled (sampler.run deadline cancelled) := by
  unfold run
  cases spawn : sampler.child with
  | error error => exact .unspawned spawn
  | ok child =>
    dsimp only
    cases refused : child.refusal with
    | some failure =>
      have stop : child.stopError? = some (.signal child.pid failure) := by
        unfold Child.stopError?
        rw [refused]
      rw [stop]
      exact .unsignalled spawn refused
    | none =>
      cases counted : deadline.isCounted with
      | false => exact .brokenOff spawn refused counted
      | true =>
        rw [if_neg (by decide)]
        cases stop : child.stopError? with
        | some error =>
          refine .unended spawn counted fun ends => ?_
          rw [Child.stopError?_eq_none_iff.mpr ⟨refused, ends⟩] at stop
          cases stop
        | none =>
          dsimp only
          unfold afterReaping
          cases report : sampler.report with
          | error error => exact .unreported spawn counted report
          | ok report' =>
            exact .reported spawn refused counted (Child.stopError?_eq_none_iff.mp stop).2 report

end Sampler

/-! ## The order of a session -/

namespace Course

/-- All that a session publishes. -/
def published (course : Course) : List Json := course.all.filterMap SessionEvent.record?

/-- A session with a sampler does what it is to do, and in the right order. -/
structure Orderly (sampler : Sampler) (cancelled : Bool) (course : Course) : Prop where
  published : course.published = course.samples.map Sample.toRecord ++ [course.outcome.toRecord]
  /-- The last record is the only one about the session. -/
  once : course.published.filter isStatus = [course.outcome.toRecord]
  count : course.outcome.samples = course.samples.length
  failed : course.outcome.status = "failed" ↔ sampler.Fails
  silent : sampler.Fails → course.samples = []
  samples : ∀ report, sampler.report = .ok report → ¬sampler.Fails → course.samples = Report.samples report
  otherwise : ¬sampler.Fails → course.outcome.status = if cancelled then "cancelled" else "completed"
  /-- The report is asked for once the process has been waited for. -/
  reaped : ∀ before after, course.all = before ++ .reported :: after → .reaped ∈ before
  /-- The data are removed once, behind everything else but the records. -/
  cleaned : ∀ child, sampler.child = .ok child → ∃ before after, course.all = before ++ .cleaned :: after ∧
    (∀ event ∈ before, event ≠ .cleaned ∧ ∀ record, event ≠ .published record) ∧
    ∀ event ∈ after, ∃ record, event = .published record
  untouched : ∀ error, sampler.child = .error error → .cleaned ∉ course.all
  /-- A process that has been started has been waited for, one way or the other. -/
  waited : ∀ child, sampler.child = .ok child → .spawned ∈ course.all ∧
    (.reaped ∈ course.all ∨ .discarded ∈ course.all)

/-- What stands in front of an event is earlier, and what stands behind it is later. -/
theorem before_of_split {all before after : List SessionEvent} {event : SessionEvent}
    (staged : all.Pairwise SessionEvent.Before) (same : all = before ++ event :: after) :
    (∀ other ∈ before, other.Before event) ∧ ∀ other ∈ after, event.Before other := by
  rw [same, List.pairwise_append, List.pairwise_cons] at staged
  obtain ⟨-, ⟨later, -⟩, earlier⟩ := staged
  exact ⟨fun other isIn => earlier other isIn event List.mem_cons_self, later⟩

theorem records_of_ne {course : Course} (whole : course.outcome ≠ .brokenOff) :
    course.records = course.samples.map Sample.toRecord ++ [course.outcome.toRecord] := by
  unfold records
  cases outcome : course.outcome with
  | brokenOff => exact absurd outcome whole
  | _ => rfl

theorem published_of_early {course : Course} (early : ∀ event ∈ course.events, event.stage < 6) :
    course.published = course.records := by
  have silent : course.events.filterMap SessionEvent.record? = [] := by
    refine List.filterMap_eq_nil_iff.mpr fun event isIn => ?_
    cases event with
    | published => exact absurd (early _ isIn) (Nat.lt_irrefl 6)
    | _ => rfl
  unfold published all
  rw [List.filterMap_append, silent, List.nil_append, List.filterMap_map]
  exact List.filterMap_some

theorem staged_of_early {course : Course} (inOrder : course.events.Pairwise SessionEvent.Before)
    (early : ∀ event ∈ course.events, event.stage < 6) : course.all.Pairwise SessionEvent.Before := by
  refine List.pairwise_append.mpr ⟨inOrder, ?_, fun event isIn other isRecord => ?_⟩
  · exact List.pairwise_map.mpr (List.pairwise_of_forall fun _ _ => .inr ⟨rfl, rfl⟩)
  · obtain ⟨record, -, rfl⟩ := List.mem_map.mp isRecord
    exact .inl (early event isIn)

end Course

namespace Sampler

variable {sampler : Sampler} {deadline : Deadline} {cancelled : Bool} {course : Course}

/-- What happens before a session publishes happens in the order of the stages. -/
theorem Ran.early (ran : Ran sampler deadline cancelled course) :
    course.events.Pairwise SessionEvent.Before ∧ ∀ event ∈ course.events, event.stage < 6 := by
  cases ran <;> dsimp only [Course.failing] <;> decide

theorem Ran.staged (ran : Ran sampler deadline cancelled course) : course.all.Pairwise SessionEvent.Before :=
  Course.staged_of_early ran.early.1 ran.early.2

theorem not_fails {child : Child} {report : String} (spawn : sampler.child = .ok child)
    (signalled : child.refusal = none) (ends : child.ending = .exits) (told : sampler.report = .ok report) :
    ¬sampler.Fails := by
  rintro (⟨error, wrong⟩ | ⟨other, failure, same, wrong⟩ | ⟨other, same, wrong⟩ | ⟨error, wrong⟩)
  · cases spawn.symm.trans wrong
  · cases spawn.symm.trans same
    cases signalled.symm.trans wrong
  · cases spawn.symm.trans same
    exact wrong ends
  · cases told.symm.trans wrong

/-- A session breaks off where its sampler is to be waited for and the clock cannot count its deadline. -/
theorem Ran.brokenOff_iff (ran : Ran sampler deadline cancelled course) :
    course.outcome = .brokenOff ↔ sampler.BreaksOff deadline := by
  have counts : deadline.isCounted = true → ¬sampler.BreaksOff deadline := fun counted ⟨_, uncounted⟩ => by
    cases counted.symm.trans uncounted
  cases ran with
  | unspawned spawn =>
    exact iff_of_false nofun fun ⟨⟨child, started, _⟩, _⟩ => by cases spawn.symm.trans started
  | brokenOff spawn signalled uncounted => exact iff_of_true rfl ⟨⟨_, spawn, signalled⟩, uncounted⟩
  | unsignalled spawn refused =>
    refine iff_of_false nofun fun ⟨⟨child, started, signalled⟩, _⟩ => ?_
    cases spawn.symm.trans started
    cases refused.symm.trans signalled
  | unended _ counted | unreported _ counted => exact iff_of_false nofun (counts counted)
  | reported _ _ counted =>
    refine iff_of_false (fun same => ?_) (counts counted)
    unfold outcome at same
    split at same <;> cases same

/-- How a session ends that does not break off. -/
theorem Ran.outcome_cases (ran : Ran sampler deadline cancelled course) (whole : course.outcome ≠ .brokenOff) :
    (sampler.Fails ∧ (∃ error, course.outcome = .failed error) ∧ course.samples = []) ∨
    (¬sampler.Fails ∧ course.outcome = outcome cancelled course.samples.length ∧
      ∀ report, sampler.report = .ok report → course.samples = Report.samples report) := by
  cases ran with
  | unspawned spawn => exact .inl ⟨.inl ⟨_, spawn⟩, ⟨_, rfl⟩, rfl⟩
  | brokenOff => exact absurd rfl whole
  | unsignalled spawn refused => exact .inl ⟨.inr (.inl ⟨_, _, spawn, refused⟩), ⟨_, rfl⟩, rfl⟩
  | unended spawn _ goesOn => exact .inl ⟨.inr (.inr (.inl ⟨_, spawn, goesOn⟩)), ⟨_, rfl⟩, rfl⟩
  | unreported _ _ report => exact .inl ⟨.inr (.inr (.inr ⟨_, report⟩)), ⟨_, rfl⟩, rfl⟩
  | reported spawn signalled _ ends told =>
    refine .inr ⟨not_fails spawn signalled ends told, rfl, fun report same => ?_⟩
    cases told.symm.trans same
    rfl

/-- A sampler that has been started is waited for, and its data are removed. -/
theorem Ran.spawned (ran : Ran sampler deadline cancelled course) (whole : course.outcome ≠ .brokenOff)
    {child : Child} (spawn : sampler.child = .ok child) :
    .spawned ∈ course.events ∧ .cleaned ∈ course.events ∧
      (.reaped ∈ course.events ∨ .discarded ∈ course.events) := by
  cases ran with
  | unspawned failed => cases spawn.symm.trans failed
  | brokenOff => exact absurd rfl whole
  | _ => simp [Course.failing]

theorem Ran.reaped (ran : Ran sampler deadline cancelled course) (reported : .reported ∈ course.events) :
    .reaped ∈ course.events := by
  cases ran with
  | unreported | reported => simp [Course.failing]
  | _ => simp [Course.failing] at reported

theorem Ran.untouched (ran : Ran sampler deadline cancelled course) {error : SessionError}
    (failed : sampler.child = .error error) : course.events = [] := by
  cases ran with
  | unspawned => rfl
  | brokenOff spawn | unsignalled spawn | unended spawn | unreported spawn | reported spawn =>
    cases spawn.symm.trans failed

/-- What is no record happens before all records. -/
theorem mem_events {event : SessionEvent} (isIn : event ∈ course.all) (early : event.stage < 6) :
    event ∈ course.events := by
  refine (List.mem_append.mp isIn).resolve_right fun isRecord => ?_
  obtain ⟨record, -, rfl⟩ := List.mem_map.mp isRecord
  exact absurd early (Nat.lt_irrefl 6)

theorem samples_outcome (cancelled : Bool) (samples : Nat) : (outcome cancelled samples).samples = samples := by
  cases cancelled <;> rfl

theorem status_outcome (cancelled : Bool) (samples : Nat) :
    (outcome cancelled samples).status = if cancelled then "cancelled" else "completed" := by
  cases cancelled <;> rfl

/-- The report is asked for once the sampler has been waited for. -/
theorem Ran.reaped_before (ran : Ran sampler deadline cancelled course) {before after : List SessionEvent}
    (same : course.all = before ++ .reported :: after) : .reaped ∈ before := by
  obtain ⟨-, later⟩ := Course.before_of_split ran.staged same
  have isReported : .reported ∈ course.events :=
    mem_events (same ▸ List.mem_append_right _ List.mem_cons_self) (by decide)
  have isReaped : .reaped ∈ before ++ .reported :: after := same ▸ List.mem_append_left _ (ran.reaped isReported)
  rcases List.mem_append.mp isReaped with isIn | isIn
  · exact isIn
  · rcases List.mem_cons.mp isIn with wrong | isIn
    · cases wrong
    · exact absurd (later _ isIn) (by decide)

/-- Data that are removed are removed once, and only records come behind that. -/
theorem Ran.cleaned_once (ran : Ran sampler deadline cancelled course) (isIn : .cleaned ∈ course.all) :
    ∃ before after, course.all = before ++ .cleaned :: after ∧
      (∀ event ∈ before, event ≠ .cleaned ∧ ∀ record, event ≠ .published record) ∧
      ∀ event ∈ after, ∃ record, event = .published record := by
  obtain ⟨before, after, same⟩ := List.append_of_mem isIn
  obtain ⟨earlier, later⟩ := Course.before_of_split ran.staged same
  refine ⟨before, after, same, fun event isIn => ⟨?_, fun record => ?_⟩, fun event isIn => ?_⟩
  · rintro rfl
    exact absurd (earlier _ isIn) (by decide)
  · rintro rfl
    rcases earlier _ isIn with wrong | ⟨-, wrong⟩
    · exact absurd wrong (show ¬6 < 5 by decide)
    · exact absurd wrong (by decide)
  · refine SessionEvent.exists_of_stage ((later event isIn).resolve_right fun wrong => ?_)
    exact absurd wrong.1 (by decide)

theorem filter_isStatus_map (samples : List Sample) : (samples.map Sample.toRecord).filter isStatus = [] := by
  refine List.filter_eq_nil_iff.mpr fun record isIn => ?_
  obtain ⟨sample, -, rfl⟩ := List.mem_map.mp isIn
  exact Bool.false_ne_true

theorem Ran.orderly (ran : Ran sampler deadline cancelled course) (whole : course.outcome ≠ .brokenOff) :
    course.Orderly sampler cancelled := by
  have published : course.published = course.samples.map Sample.toRecord ++ [course.outcome.toRecord] :=
    (Course.published_of_early ran.early.2).trans (Course.records_of_ne whole)
  have mem : ∀ {event}, event ∈ course.events → event ∈ course.all := fun isIn => List.mem_append_left _ isIn
  have ends := ran.outcome_cases whole
  refine
    { published := published
      once := ?_
      count := ?_
      failed := ?_
      silent := ?_
      samples := ?_
      otherwise := ?_
      reaped := fun before after => ran.reaped_before
      cleaned := fun child spawn => ran.cleaned_once (mem (ran.spawned whole spawn).2.1)
      untouched := ?_
      waited := ?_ }
  · rw [published, List.filter_append, filter_isStatus_map, List.nil_append]
    rfl
  · rcases ends with ⟨-, ⟨error, failed⟩, silent⟩ | ⟨-, ended, -⟩
    · rw [failed, silent]
      rfl
    · rw [ended, samples_outcome]
  · rcases ends with ⟨fails, ⟨error, failed⟩, -⟩ | ⟨works, ended, -⟩
    · rw [failed]
      exact iff_of_true rfl fails
    · rw [ended, status_outcome]
      exact iff_of_false (by cases cancelled <;> decide) works
  · rcases ends with ⟨-, -, silent⟩ | ⟨works, -, -⟩
    · exact fun _ => silent
    · exact fun fails => absurd fails works
  · rcases ends with ⟨fails, -, -⟩ | ⟨-, -, told⟩
    · exact fun _ _ works => absurd fails works
    · exact fun report same _ => told report same
  · rcases ends with ⟨fails, -, -⟩ | ⟨-, ended, -⟩
    · exact fun works => absurd fails works
    · rw [ended, status_outcome]
      exact fun _ => rfl
  · intro error failed cleaned
    have early := mem_events cleaned (by decide)
    rw [ran.untouched failed] at early
    cases early
  · intro child spawn
    obtain ⟨begins, -, waits⟩ := ran.spawned whole spawn
    exact ⟨mem begins, waits.imp mem mem⟩

theorem Ran.eq_of_brokenOff (ran : Ran sampler deadline cancelled course)
    (brokenOff : course.outcome = .brokenOff) :
    course = ⟨[.spawned, .waited, .terminated], [], .brokenOff⟩ := by
  cases ran with
  | brokenOff => rfl
  | reported =>
    unfold outcome at brokenOff
    split at brokenOff <;> cases brokenOff
  | _ => cases brokenOff

/-- **Sessions**: a session does what it is to do and in the right order, unless it breaks off, in which case
the sampler is told to stop and nothing comes of it. -/
theorem session_protocol (sampler : Sampler) (deadline : Deadline) (cancelled : Bool) :
    let course := sampler.run deadline cancelled
    (course.Orderly sampler cancelled ↔ ¬sampler.BreaksOff deadline) ∧
    (sampler.BreaksOff deadline → course.all = [.spawned, .waited, .terminated]) := by
  intro course
  have ran := ran sampler deadline cancelled
  have silent : sampler.BreaksOff deadline → course.all = [.spawned, .waited, .terminated] := fun breaks =>
    congrArg Course.all (ran.eq_of_brokenOff (ran.brokenOff_iff.mpr breaks))
  refine ⟨⟨fun orderly breaks => ?_, fun whole => ran.orderly (mt ran.brokenOff_iff.mp whole)⟩, silent⟩
  have nothing : course.published = [] := congrArg (List.filterMap SessionEvent.record?) (silent breaks)
  exact List.append_ne_nil_of_right_ne_nil _ (List.cons_ne_nil _ _) (orderly.published.symm.trans nothing)

/-- A sampler with nothing to report, whose process ends as soon as it is told to stop. -/
def prompt : Sampler := ⟨.ok ⟨1, none, .exits⟩, .ok ""⟩

/-- The longest grace that can be given. -/
def unending : Deadline := ⟨⟨0⟩, .ofSeconds 18446744073709551615⟩

/-- Not every session says how it ends: with this grace one neither waits for its sampler nor removes its data
nor publishes anything, although nothing goes wrong with the sampler. -/
theorem session_breaks_off :
    let course := prompt.run unending false
    (¬prompt.Fails ∧ course.published = [] ∧ course.cleanups = 0 ∧ .spawned ∈ course.all ∧
      .reaped ∉ course.all ∧ .discarded ∉ course.all) ∧
    ¬∀ (sampler : Sampler) (deadline : Deadline) (cancelled : Bool),
      (sampler.run deadline cancelled).Orderly sampler cancelled := by
  intro course
  have all : course.all = [.spawned, .waited, .terminated] := rfl
  have nothing : course.published = [] := rfl
  refine ⟨⟨not_fails rfl rfl rfl rfl, nothing, rfl, ?_, ?_, ?_⟩, fun always => ?_⟩
  · simp [all]
  · simp [all]
  · simp [all]
  · have orderly := always prompt unending false
    exact List.append_ne_nil_of_right_ne_nil _ (List.cons_ne_nil _ _) (orderly.published.symm.trans nothing)

end Sampler
end TelemetryHub
