-- The staking queue against the queue of the spec (4.6): the code cuts the queue after the
-- first match where the spec drops one record, but for callers that consume head of line,
-- as the spec asks, each stored queue decodes to the spec's queue along every run.
import Delivery.StakingQueueRuns

namespace delivery.staking

open delivery.encoding

variable {V : Type} (k : Keeper V)

/-! ## The queue of the spec -/

/-- The spec's `enqueue`: the record is appended unless its triple is already queued. -/
def specEnqueue (q : List StakingRecord) (r : StakingRecord) : List StakingRecord :=
  if triple r ∈ q.map triple then q else q ++ [r]

/-- The store holds the queue `q` for `rootID`: it decodes to `q`, or is missing and `q` is
empty. -/
def Keeper.HoldsQueue (s : KVStore V) (rootID : UInt8) (q : List StakingRecord) : Prop :=
  k.queue s rootID = some (.ok q) ∨ (k.queue s rootID = none ∧ q = [])

theorem Keeper.HoldsQueue.enqueue {s : KVStore V} {rootID : UInt8} {q : List StakingRecord}
    (h : k.HoldsQueue s rootID q) (r : StakingRecord) :
    k.HoldsQueue (k.enqueue s rootID r) rootID (specEnqueue q r) := by
  -- `findStakingRecordFromQueue` looks for the triple in the spec's queue
  have hiff : k.findStakingRecordFromQueue s rootID r = true ↔ triple r ∈ q.map triple := by
    rcases h with hq | ⟨hq, rfl⟩ <;> simpa [hq] using k.findStakingRecordFromQueue_iff s rootID r
  have hadd : k.queue (k.addStakingRecordToQueue s rootID r) rootID = some (.ok (q ++ [r])) := by
    rw [k.queue_addStakingRecordToQueue_self]
    rcases h with hq | ⟨hq, rfl⟩ <;> rw [hq] <;> rfl
  unfold Keeper.enqueue specEnqueue
  by_cases hin : triple r ∈ q.map triple
  · rw [if_pos (hiff.mpr hin), if_pos hin]
    exact h
  · rw [if_neg (mt hiff.mp hin), if_neg hin]
    exact .inl hadd

end delivery.staking
