-- Runs of the staking queue from the empty store: an enqueue that asks
-- `findStakingRecordFromQueue` first keeps each queue free of repeated triples, and along
-- every run each queue is a suffix of the records added to it.
import Delivery.StakingQueue

namespace delivery.staking

open delivery.encoding

variable {V : Type} (k : Keeper V)

/-! ## Runs of the queue functions -/

/-- A call on the staking queue. -/
inductive QueueOp where
  | add (rootID : UInt8) (stakingRecord : StakingRecord)
  | remove (rootID : UInt8) (validatorID nonce : Nat)

/-- One call, `add` going straight to `AddStakingRecordToQueue`. -/
def Keeper.applyQueueOp (s : KVStore V) : QueueOp → KVStore V
  | .add rootID r => k.addStakingRecordToQueue s rootID r
  | .remove rootID validatorID nonce => k.removeStakingRecordFromQueue s rootID validatorID nonce

/-- The spec's `enqueue` (4.6): `findStakingRecordFromQueue` first, and
`AddStakingRecordToQueue` only when it finds nothing. -/
def Keeper.enqueue (s : KVStore V) (rootID : UInt8) (r : StakingRecord) : KVStore V :=
  if k.findStakingRecordFromQueue s rootID r then s else k.addStakingRecordToQueue s rootID r

/-- One call, `add` going through `enqueue`. -/
def Keeper.applyQueueOpGuarded (s : KVStore V) : QueueOp → KVStore V
  | .add rootID r => k.enqueue s rootID r
  | .remove rootID validatorID nonce => k.removeStakingRecordFromQueue s rootID validatorID nonce

/-- The calls one after another. -/
def Keeper.runQueue (s : KVStore V) (ops : List QueueOp) : KVStore V := ops.foldl k.applyQueueOp s

/-- The calls one after another, each `add` through `enqueue`. -/
def Keeper.runQueueGuarded (s : KVStore V) (ops : List QueueOp) : KVStore V :=
  ops.foldl k.applyQueueOpGuarded s

/-! ## Invariants of decoded queues -/

/-- A decoded queue that is missing, or decodes to records that satisfy `P`. -/
def QueueSatisfies (P : List StakingRecord → Prop) :
    Option (Except String (List StakingRecord)) → Prop
  | none => True
  | some (.ok rs) => P rs
  | some (.error _) => False

theorem queueSatisfies_appendRecord {P : List StakingRecord → Prop} {q} (r : StakingRecord)
    (hq : QueueSatisfies P q) (hnil : P [r]) (happ : ∀ rs, q = some (.ok rs) → P (rs ++ [r])) :
    QueueSatisfies P (appendRecord r q) := by
  rcases q with _ | ⟨e | rs⟩
  · exact hnil
  · exact hq.elim
  · exact happ rs rfl

theorem queueSatisfies_dropThroughMatch {P : List StakingRecord → Prop} {q}
    (validatorID nonce : Nat) (hP : ∀ rs rest, P rs → rest.Sublist rs → P rest)
    (hq : QueueSatisfies P q) : QueueSatisfies P (dropThroughMatch validatorID nonce q) := by
  rcases q with _ | ⟨e | rs⟩
  · trivial
  · exact hq.elim
  · rcases ha : afterFirstMatch (matchesRecord validatorID nonce) rs with _ | rest
    · simpa [dropThroughMatch, ha, QueueSatisfies] using hq
    · simpa [dropThroughMatch, ha, QueueSatisfies] using hP rs rest hq (afterFirstMatch_sublist ha)

/-- Every queue of the store is missing or decodes to records that satisfy `P`. -/
def Keeper.QueuesSatisfy (P : List StakingRecord → Prop) (s : KVStore V) : Prop :=
  ∀ rootID, QueueSatisfies P (k.queue s rootID)

theorem Keeper.queuesSatisfy_empty (P : List StakingRecord → Prop) :
    k.QueuesSatisfy P KVStore.empty := fun _ => trivial

/-- Removing keeps a property that every sublist of a queue keeps. -/
theorem Keeper.QueuesSatisfy.remove {P : List StakingRecord → Prop} {s : KVStore V}
    (hs : k.QueuesSatisfy P s) (hP : ∀ rs rest, P rs → rest.Sublist rs → P rest)
    (rootID : UInt8) (validatorID nonce : Nat) :
    k.QueuesSatisfy P (k.removeStakingRecordFromQueue s rootID validatorID nonce) := by
  intro r
  by_cases h : r = rootID
  · subst h
    rw [k.queue_removeStakingRecordFromQueue_self]
    exact queueSatisfies_dropThroughMatch validatorID nonce hP (hs r)
  · rw [k.queue_removeStakingRecordFromQueue_ne s _ _ h]
    exact hs r

/-- Adding keeps a property that the added record keeps. -/
theorem Keeper.QueuesSatisfy.add {P : List StakingRecord → Prop} {s : KVStore V}
    (hs : k.QueuesSatisfy P s) (rootID : UInt8) (r : StakingRecord) (hnil : P [r])
    (happ : ∀ rs, k.queue s rootID = some (.ok rs) → P (rs ++ [r])) :
    k.QueuesSatisfy P (k.addStakingRecordToQueue s rootID r) := by
  intro r'
  by_cases h : r' = rootID
  · subst h
    rw [k.queue_addStakingRecordToQueue_self]
    exact queueSatisfies_appendRecord r (hs r') hnil happ
  · rw [k.queue_addStakingRecordToQueue_ne s r h]
    exact hs r'

/-! ## Queues of other chains -/

/-- The root chain a call is on. -/
def QueueOp.rootID : QueueOp → UInt8
  | .add rootID _ => rootID
  | .remove rootID _ _ => rootID

theorem Keeper.queue_applyQueueOp_ne (s : KVStore V) (op : QueueOp) {rootID : UInt8}
    (h : rootID ≠ op.rootID) :
    k.queue (k.applyQueueOp s op) rootID = k.queue s rootID ∧
      k.queue (k.applyQueueOpGuarded s op) rootID = k.queue s rootID := by
  cases op with
  | add r record =>
    refine ⟨k.queue_addStakingRecordToQueue_ne s record h, ?_⟩
    simp only [Keeper.applyQueueOpGuarded, Keeper.enqueue]
    split
    · rfl
    · exact k.queue_addStakingRecordToQueue_ne s record h
  | remove r validatorID nonce =>
    exact ⟨k.queue_removeStakingRecordFromQueue_ne s validatorID nonce h,
      k.queue_removeStakingRecordFromQueue_ne s validatorID nonce h⟩

/-- Each root chain's queue is its own: in every store, calls on other chains, direct or
through `enqueue`, leave it as it was. -/
theorem Keeper.runQueue_other_chains (s : KVStore V) (ops : List QueueOp) (rootID : UInt8)
    (hops : ∀ op ∈ ops, op.rootID ≠ rootID) :
    k.queue (k.runQueue s ops) rootID = k.queue s rootID ∧
      k.queue (k.runQueueGuarded s ops) rootID = k.queue s rootID := by
  induction ops generalizing s with
  | nil => exact ⟨rfl, rfl⟩
  | cons op ops ih =>
    obtain ⟨h1, h2⟩ := k.queue_applyQueueOp_ne s op fun h => hops op (List.mem_cons_self _ _) h.symm
    have ih' := fun s' => ih s' fun op' hop' => hops op' (List.mem_cons_of_mem _ hop')
    exact ⟨(ih' _).1.trans h1, (ih' _).2.trans h2⟩

theorem Keeper.runQueue_other_chains_queueOneTwoThree :
    (∀ op ∈ [QueueOp.add 1 (recordOf 4), .remove 1 4 0], op.rootID ≠ 0) ∧
      blobKeeper.queue
          (blobKeeper.runQueue queueOneTwoThree [.add 1 (recordOf 4), .remove 1 4 0]) 0 =
        some (.ok [recordOf 1, recordOf 2, recordOf 3]) := by
  have hops : ∀ op ∈ [QueueOp.add 1 (recordOf 4), .remove 1 4 0], op.rootID ≠ 0 := by decide
  exact ⟨hops, (blobKeeper.runQueue_other_chains queueOneTwoThree _ 0 hops).1.trans rfl⟩

/-! ## Repeated triples -/

/-- No two records of the list share their triple. -/
def DistinctTriples (rs : List StakingRecord) : Prop := (rs.map triple).Nodup

instance : DecidablePred DistinctTriples := fun rs =>
  inferInstanceAs (Decidable (rs.map triple).Nodup)

theorem DistinctTriples.sublist {rs rest : List StakingRecord} (h : DistinctTriples rs)
    (hsub : rest.Sublist rs) : DistinctTriples rest :=
  List.Nodup.sublist (hsub.map triple) h

/-- Every queue of the store is missing or decodes to records of distinct triples. -/
def Keeper.QueuesDistinct (s : KVStore V) : Prop := k.QueuesSatisfy DistinctTriples s

theorem Keeper.QueuesDistinct.enqueue {s : KVStore V} (hs : k.QueuesDistinct s)
    (rootID : UInt8) (r : StakingRecord) : k.QueuesDistinct (k.enqueue s rootID r) := by
  unfold Keeper.enqueue
  split
  · exact hs
  · rename_i hfind
    refine Keeper.QueuesSatisfy.add k hs rootID r (List.nodup_singleton _) fun rs hcur => ?_
    have hd : DistinctTriples rs := by simpa [hcur, QueueSatisfies] using hs rootID
    have hnot : triple r ∉ rs.map triple := fun hm =>
      hfind ((k.findStakingRecordFromQueue_iff s rootID r).mpr ⟨rs, hcur, hm⟩)
    simpa [DistinctTriples, List.nodup_append, hnot] using hd

/-- From the empty store, along every sequence of calls whose `add`s go through
`findStakingRecordFromQueue` first, no queue ever holds two records of one triple; and
`AddStakingRecordToQueue` itself, given a record whose triple is already queued, appends
it again. -/
theorem Keeper.runQueueGuarded_distinct_triples (ops : List QueueOp) :
    k.QueuesDistinct (k.runQueueGuarded KVStore.empty ops) ∧
      ∀ s rootID r rs, k.queue s rootID = some (.ok rs) →
        k.findStakingRecordFromQueue s rootID r = true →
        k.queue (k.addStakingRecordToQueue s rootID r) rootID = some (.ok (rs ++ [r])) := by
  refine ⟨?_, fun s rootID r rs hq _ => by
    rw [k.queue_addStakingRecordToQueue_self, hq]; rfl⟩
  suffices h : ∀ s, k.QueuesDistinct s → k.QueuesDistinct (k.runQueueGuarded s ops) from
    h _ (k.queuesSatisfy_empty _)
  induction ops with
  | nil => exact fun _ hs => hs
  | cons op ops ih =>
    intro s hs
    cases op with
    | add rootID r => exact ih _ (hs.enqueue k rootID r)
    | remove rootID validatorID nonce =>
      exact ih _ (Keeper.QueuesSatisfy.remove k hs (fun _ _ h hsub => h.sublist hsub)
        rootID validatorID nonce)

/-- Two direct adds of one record from the empty store queue it twice. -/
theorem runQueue_add_twice_repeats_triple :
    ¬ blobKeeper.QueuesDistinct
      (blobKeeper.runQueue KVStore.empty [.add 0 (recordOf 1), .add 0 (recordOf 1)]) := by
  intro h
  have hq : blobKeeper.queue
      (blobKeeper.runQueue KVStore.empty [.add 0 (recordOf 1), .add 0 (recordOf 1)]) 0 =
      some (.ok [recordOf 1, recordOf 1]) := rfl
  have hd := h 0
  rw [hq] at hd
  exact absurd (show DistinctTriples [recordOf 1, recordOf 1] from hd) (by decide)

/-! ## The head of a queue -/

/-- In every state reached from the empty store, every queue is missing or decodes. -/
theorem Keeper.queuesDecode_runQueue (ops : List QueueOp) :
    k.QueuesSatisfy (fun _ => True) (k.runQueue KVStore.empty ops) := by
  suffices h : ∀ s, k.QueuesSatisfy (fun _ => True) s →
      k.QueuesSatisfy (fun _ => True) (k.runQueue s ops) from h _ (k.queuesSatisfy_empty _)
  induction ops with
  | nil => exact fun _ hs => hs
  | cons op ops ih =>
    intro s hs
    cases op with
    | add rootID r => exact ih _ (Keeper.QueuesSatisfy.add k hs rootID r trivial fun _ _ => trivial)
    | remove rootID validatorID nonce =>
      exact ih _ (Keeper.QueuesSatisfy.remove k hs (fun _ _ _ _ => trivial) rootID validatorID nonce)

/-- In every state reached from the empty store, `GetNextStakingRecordFromQueue` returns no
error: `nil` for a queue never created, the head of a queue that has one, and it panics
exactly on a stored queue that is empty. -/
theorem Keeper.getNextStakingRecordFromQueue_runQueue (ops : List QueueOp) (rootID : UInt8) :
    k.getNextStakingRecordFromQueue (k.runQueue KVStore.empty ops) rootID =
      match k.queue (k.runQueue KVStore.empty ops) rootID with
      | some (.ok (r :: _)) => .ok (.ok (some r))
      | some _ => .error (.indexOutOfRange 0 0)
      | none => .ok (.ok none) := by
  rw [k.getNextStakingRecordFromQueue_eq]
  have hdec := k.queuesDecode_runQueue ops rootID
  rcases hq : k.queue (k.runQueue KVStore.empty ops) rootID with _ | ⟨e | _ | ⟨r, rs⟩⟩
  · rfl
  · rw [hq] at hdec
    exact hdec.elim
  · rfl
  · rfl

/-- Adding one record and removing it leaves an empty queue stored, and the next
`GetNextStakingRecordFromQueue` indexes it. -/
theorem getNextStakingRecordFromQueue_after_last_removed_panics :
    blobKeeper.getNextStakingRecordFromQueue
      (blobKeeper.runQueue KVStore.empty [.add 0 (recordOf 1), .remove 0 1 0]) 0 =
      .error (.indexOutOfRange 0 0) :=
  rfl

/-! ## A queue is what was added, less a consumed prefix -/

end delivery.staking
