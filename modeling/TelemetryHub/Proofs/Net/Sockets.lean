import TelemetryHub.Net.Connection

/-!
# Reads and writes

A read takes bytes from the front of what has arrived, meets a failure or comes to the end of the stream
(`Inbound.Reads`). A write is taken as a whole, or cut off with a failure (`Outbound.write_taken`).
-/

namespace TelemetryHub

namespace Reading

/-- The bytes that a read has taken, if it has taken any. -/
def piece? : Reading → Option (List UInt8)
  | .bytes taken => some taken
  | .ended | .failed _ => none

end Reading

theorem Failure.isTransient_iff {failure : Failure} :
    failure.isTransient = true ↔ failure.kind = .wouldBlock ∨ failure.kind = .interrupted := by
  simp [isTransient]

namespace Inbound

/-- What a read comes to. -/
inductive Reads (inbound : Inbound) (limit : Nat) : Reading × Inbound → Prop where
  | interrupted {failure : Failure} (stands : inbound.interruption = some failure) :
    Reads inbound limit (.failed failure, { inbound with interruption := none })
  | takes (undisturbed : inbound.interruption = none) (nonempty : inbound.queue ≠ []) :
    Reads inbound limit
      (.bytes (inbound.queue.take limit), { inbound with queue := inbound.queue.drop limit })
  | waits (empty : inbound.queue = []) (opened : inbound.finish = .opened)
    (undisturbed : inbound.interruption = none) :
    Reads inbound limit (.failed (.system .tryAgain), inbound)
  | ends (undisturbed : inbound.interruption = none) (empty : inbound.queue = [])
    (ended : inbound.finish = .ended) : Reads inbound limit (.ended, inbound)
  | breaks {failure : Failure} (broken : inbound.finish = .failed failure) :
    Reads inbound limit (.failed failure, { inbound with finish := .ended })

variable (inbound : Inbound)

theorem reads (limit : Nat) : Reads inbound limit (inbound.read limit) := by
  unfold read
  split
  · next stands => exact .interrupted stands
  · next undisturbed =>
    split
    · next empty =>
      split
      · next opened => exact .waits empty opened undisturbed
      · next ended => exact .ends undisturbed empty ended
      · next broken => exact .breaks broken
    · next nonempty => exact .takes undisturbed nonempty

/-- A read takes its piece from the front of the queue. -/
theorem queue_read (limit : Nat) :
    inbound.queue = (inbound.read limit).1.piece?.toList.flatten ++ (inbound.read limit).2.queue := by
  have reads := inbound.reads limit
  generalize inbound.read limit = result at reads ⊢
  cases reads with
  | takes => simp [Reading.piece?]
  | interrupted | waits | ends | breaks => rfl

/-- A read takes nothing from the queue, or a piece of it. -/
theorem read_cases (limit : Nat) :
    (inbound.read limit).1.piece? = none ∧ (inbound.read limit).2.queue = inbound.queue ∨
    inbound.queue ≠ [] ∧ (inbound.read limit).1.piece? = some (inbound.queue.take limit) ∧
      (inbound.read limit).2.queue = inbound.queue.drop limit := by
  have reads := inbound.reads limit
  generalize inbound.read limit = result at reads ⊢
  cases reads with
  | takes _ nonempty => exact .inr ⟨nonempty, rfl, rfl⟩
  | interrupted | waits | ends | breaks => exact .inl ⟨rfl, rfl⟩

/-- A piece is not empty, and no longer than the limit. -/
theorem length_piece {limit : Nat} {piece : List UInt8} (positive : 0 < limit)
    (taken : (inbound.read limit).1.piece? = some piece) : piece ≠ [] ∧ piece.length ≤ limit := by
  rcases inbound.read_cases limit with ⟨nothing, -⟩ | ⟨nonempty, some, -⟩
  · cases nothing.symm.trans taken
  · cases some.symm.trans taken
    refine ⟨fun none => ?_, List.length_take_le ..⟩
    rcases List.take_eq_nil_iff.mp none with zero | empty
    · exact absurd zero (Nat.ne_of_gt positive)
    · exact nonempty empty

/-- A stream that has ended stays so. -/
theorem finish_read {limit : Nat} (finished : inbound.finish ≠ .opened) :
    (inbound.read limit).2.finish ≠ .opened := by
  have reads := inbound.reads limit
  generalize inbound.read limit = result at reads ⊢
  cases reads with
  | breaks => exact nofun
  | interrupted | takes | waits | ends => exact finished

/-- Behind the end there is nothing. -/
theorem of_read_ended {limit : Nat} (ended : (inbound.read limit).1 = .ended) :
    inbound.queue = [] ∧ inbound.finish ≠ .opened := by
  have reads := inbound.reads limit
  generalize inbound.read limit = result at reads ended
  cases reads with
  | ends _ empty isEnded => exact ⟨empty, by simp [isEnded]⟩
  | interrupted | takes | waits | breaks => cases ended

variable {inbound}

/-- A read that nothing is in the way of takes what there is, up to the limit. -/
theorem fst_read {limit : Nat} (undisturbed : inbound.interruption = none)
    (nonempty : inbound.queue ≠ []) : (inbound.read limit).1 = .bytes (inbound.queue.take limit) := by
  unfold read
  rw [undisturbed]
  dsimp only
  split
  · next empty => exact absurd empty nonempty
  · rfl

theorem of_read_bytes {after : Inbound} {limit : Nat} {piece : List UInt8}
    (read : inbound.read limit = (.bytes piece, after)) :
    inbound.interruption = none ∧ inbound.queue ≠ [] ∧ piece = inbound.queue.take limit ∧
      after = { inbound with queue := inbound.queue.drop limit } := by
  have reads := inbound.reads limit
  rw [read] at reads
  cases reads with
  | takes undisturbed nonempty => exact ⟨undisturbed, nonempty, rfl, rfl⟩

/-- A read that fails takes nothing. -/
theorem queue_of_failed {after : Inbound} {limit : Nat} {failure : Failure}
    (read : inbound.read limit = (.failed failure, after)) : after.queue = inbound.queue := by
  have reads := inbound.reads limit
  rw [read] at reads
  cases reads <;> rfl

/-- All that a failed read leaves behind on a stream that has not failed is that nothing is in the way. -/
theorem of_read_failed {after : Inbound} {limit : Nat} {failure : Failure}
    (read : inbound.read limit = (.failed failure, after)) (proper : ∀ failure, inbound.finish ≠ .failed failure) :
    after = { inbound with interruption := none } := by
  have reads := inbound.reads limit
  rw [read] at reads
  cases reads with
  | interrupted => rfl
  | waits _ _ undisturbed => rw [← undisturbed]
  | breaks broken => exact absurd broken (proper failure)

/-! ### The end of a stream -/

theorem queue_close (inbound : Inbound) : inbound.close.queue = inbound.queue := by
  unfold close
  split <;> rfl

theorem interruption_close (inbound : Inbound) :
    inbound.close.interruption = inbound.interruption := by
  unfold close
  split <;> rfl

theorem finish_close (inbound : Inbound) :
    inbound.close.finish = if inbound.finish = .opened then .ended else inbound.finish := by
  unfold close
  split <;> rfl

theorem not_failed_close {inbound : Inbound}
    (proper : ∀ failure, inbound.finish ≠ .failed failure) (failure : Failure) :
    inbound.close.finish ≠ .failed failure := by
  rw [finish_close]
  split
  · intro ended
    cases ended
  · exact proper failure

/-- Whoever is ready need not wait. -/
theorem not_waits {inbound : Inbound} (ready : inbound.isReady = true) (empty : inbound.queue = []) :
    inbound.finish ≠ .opened := by
  simpa [isReady, empty] using ready

end Inbound

namespace Outbound

/-- A payload is taken as a whole, or cut off with a failure. -/
theorem write_taken (outbound : Outbound) (payload : List UInt8) :
    (∃ after, outbound.write payload = (none, after) ∧ after.sent = outbound.sent ++ payload) ∨
      ∃ failure after taken, outbound.write payload = (some failure, after) ∧ taken <+: payload ∧
        taken.length < payload.length ∧ after.sent = outbound.sent ++ taken := by
  unfold write
  split
  · exact .inl ⟨_, rfl, rfl⟩
  · exact .inl ⟨_, rfl, rfl⟩
  · next room failure limited =>
    split
    · exact .inl ⟨_, rfl, rfl⟩
    · refine .inr ⟨failure, _, payload.take room, rfl, List.take_prefix _ _, ?_, rfl⟩
      rw [List.length_take]
      omega

/-- What a write comes to where everything is taken. -/
theorem write_of_all {outbound : Outbound} (all : outbound.acceptance = .all) (payload : List UInt8) :
    outbound.write payload = (none, ⟨outbound.sent ++ payload, .all⟩) := by
  unfold write
  rw [all]

end Outbound
end TelemetryHub
