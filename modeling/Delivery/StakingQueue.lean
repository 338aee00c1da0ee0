-- The staking sync queue (keep_sync.go): one record list per source chain, under the
-- key of its root ID. Adding appends, finding compares the (validator ID, nonce,
-- transaction hash) triple, and removing keeps only the records after the first match.
import Delivery.Store

namespace delivery.staking

open delivery.encoding

variable {V : Type} (k : Keeper V)

/-! ## The model of the queue functions -/

/-- The check of lines 75-77: the same validator ID, nonce and transaction hash. -/
def sameTriple (a b : StakingRecord) : Bool :=
  a.validatorID == b.validatorID && a.nonce == b.nonce && a.txHash == b.txHash

/-- The triple that names a record. -/
def triple (r : StakingRecord) : Nat × Nat × Bytes := (r.validatorID, r.nonce, r.txHash)

/-- `AddStakingRecordToQueue`: the record goes at the end of the queue of `rootID`; a
queue that does not decode is left as it is. -/
def Keeper.addStakingRecordToQueue (s : KVStore V) (rootID : UInt8)
    (stakingRecord : StakingRecord) : KVStore V :=
  let key := k.getStakingQueueKey rootID
  match s key with
  | none => s.set key (k.cdc.marshalRecords [stakingRecord])
  | some b =>
    match k.cdc.unmarshalRecords b with
    | .error _ => s
    | .ok records => s.set key (k.cdc.marshalRecords (records ++ [stakingRecord]))

/-- `GetNextStakingRecordFromQueue`: the first record or `nil` with no error, or the
decoding error; `&records[0]` of an empty list panics. -/
def Keeper.getNextStakingRecordFromQueue (s : KVStore V) (rootID : UInt8) :
    Except GoPanic (Except String (Option StakingRecord)) :=
  match s (k.getStakingQueueKey rootID) with
  | none => .ok (.ok none)
  | some b =>
    match k.cdc.unmarshalRecords b with
    | .error e => .ok (.error e)
    | .ok [] => .error (.indexOutOfRange 0 0)
    | .ok (record :: _) => .ok (.ok (some record))

/-- `findStakingRecordFromQueue`: some record of the queue has the triple of
`stakingRecord`; `false` when the queue is missing or does not decode. -/
def Keeper.findStakingRecordFromQueue (s : KVStore V) (rootID : UInt8)
    (stakingRecord : StakingRecord) : Bool :=
  match s (k.getStakingQueueKey rootID) with
  | none => false
  | some b =>
    match k.cdc.unmarshalRecords b with
    | .error _ => false
    | .ok records => records.any (sameTriple · stakingRecord)

/-- The loop of lines 101-112: at the first record that `p` matches, the records after it,
`records[index+1:]`. -/
def afterFirstMatch (p : StakingRecord → Bool) : List StakingRecord → Option (List StakingRecord)
  | [] => none
  | r :: rs => if p r then some rs else afterFirstMatch p rs

/-- The check of line 102: the record has this validator ID and nonce. -/
def matchesRecord (validatorID nonce : Nat) (r : StakingRecord) : Bool :=
  r.validatorID == validatorID && r.nonce == nonce

/-- `removeStakingRecordFromQueue`: the queue of `rootID` becomes the records after the first
one with this validator ID and nonce. -/
def Keeper.removeStakingRecordFromQueue (s : KVStore V) (rootID : UInt8)
    (validatorID nonce : Nat) : KVStore V :=
  let key := k.getStakingQueueKey rootID
  match s key with
  | none => s
  | some b =>
    match k.cdc.unmarshalRecords b with
    | .error _ => s
    | .ok records =>
      match afterFirstMatch (matchesRecord validatorID nonce) records with
      | none => s
      | some results => s.set key (k.cdc.marshalRecords results)

/-! ## The specs of the queue functions -/

/-- The queue stored for `rootID`, decoded: `none` when its key is not set. -/
def Keeper.queue (s : KVStore V) (rootID : UInt8) : Option (Except String (List StakingRecord)) :=
  (s (k.getStakingQueueKey rootID)).map k.cdc.unmarshalRecords

theorem sameTriple_iff (a b : StakingRecord) : sameTriple a b = true ↔ triple a = triple b := by
  simp [sameTriple, triple, and_assoc]

theorem Keeper.queue_set_self (s : KVStore V) (rootID : UInt8) (rs : List StakingRecord) :
    k.queue (s.set (k.getStakingQueueKey rootID) (k.cdc.marshalRecords rs)) rootID = some (.ok rs) := by
  simp [Keeper.queue]

theorem Keeper.queue_set_ne (s : KVStore V) {rootID rootID' : UInt8} (v : V) (h : rootID' ≠ rootID) :
    k.queue (s.set (k.getStakingQueueKey rootID) v) rootID' = k.queue s rootID' := by
  simp [Keeper.queue, KVStore.set_ne _ _ (mt (getStakingQueueKey_inj k).mp h)]

/-- What adding a record does to a decoded queue: it starts a missing one, appends to one
that decodes, and leaves one that does not. -/
def appendRecord (r : StakingRecord) :
    Option (Except String (List StakingRecord)) → Option (Except String (List StakingRecord))
  | none => some (.ok [r])
  | some (.ok rs) => some (.ok (rs ++ [r]))
  | some (.error e) => some (.error e)

theorem Keeper.queue_addStakingRecordToQueue_self (s : KVStore V) (rootID : UInt8)
    (r : StakingRecord) :
    k.queue (k.addStakingRecordToQueue s rootID r) rootID = appendRecord r (k.queue s rootID) := by
  simp only [Keeper.addStakingRecordToQueue]
  rcases hs : s (k.getStakingQueueKey rootID) with _ | b
  · simp [k.queue_set_self, Keeper.queue, hs, appendRecord]
  · rcases hd : k.cdc.unmarshalRecords b with e | rs <;>
      simp [k.queue_set_self, Keeper.queue, hs, hd, appendRecord]

theorem Keeper.queue_addStakingRecordToQueue_ne (s : KVStore V) {rootID rootID' : UInt8}
    (r : StakingRecord) (h : rootID' ≠ rootID) :
    k.queue (k.addStakingRecordToQueue s rootID r) rootID' = k.queue s rootID' := by
  simp only [Keeper.addStakingRecordToQueue]
  rcases hs : s (k.getStakingQueueKey rootID) with _ | b
  · exact k.queue_set_ne s _ h
  · rcases hd : k.cdc.unmarshalRecords b with e | rs <;> simp only [hd]
    exact k.queue_set_ne s _ h

/-- What removing does to a decoded queue: it keeps the records after the first match,
and leaves a queue with no match, a missing one or one that does not decode. -/
def dropThroughMatch (validatorID nonce : Nat) :
    Option (Except String (List StakingRecord)) → Option (Except String (List StakingRecord))
  | some (.ok rs) => some (.ok ((afterFirstMatch (matchesRecord validatorID nonce) rs).getD rs))
  | q => q

theorem Keeper.queue_removeStakingRecordFromQueue_self (s : KVStore V) (rootID : UInt8)
    (validatorID nonce : Nat) :
    k.queue (k.removeStakingRecordFromQueue s rootID validatorID nonce) rootID =
      dropThroughMatch validatorID nonce (k.queue s rootID) := by
  simp only [Keeper.removeStakingRecordFromQueue]
  rcases hs : s (k.getStakingQueueKey rootID) with _ | b
  · simp [Keeper.queue, hs, dropThroughMatch]
  · rcases hd : k.cdc.unmarshalRecords b with e | rs
    · simp [Keeper.queue, hs, hd, dropThroughMatch]
    · rcases ha : afterFirstMatch (matchesRecord validatorID nonce) rs with _ | rest <;>
        simp [k.queue_set_self, Keeper.queue, hs, hd, ha, dropThroughMatch]

theorem Keeper.queue_removeStakingRecordFromQueue_ne (s : KVStore V) {rootID rootID' : UInt8}
    (validatorID nonce : Nat) (h : rootID' ≠ rootID) :
    k.queue (k.removeStakingRecordFromQueue s rootID validatorID nonce) rootID' = k.queue s rootID' := by
  simp only [Keeper.removeStakingRecordFromQueue]
  rcases hs : s (k.getStakingQueueKey rootID) with _ | b
  · rfl
  · rcases hd : k.cdc.unmarshalRecords b with e | rs <;> simp only [hd]
    rcases afterFirstMatch (matchesRecord validatorID nonce) rs with _ | rest
    · rfl
    · exact k.queue_set_ne s _ h

/-- `afterFirstMatch` is `records[index+1:]` at the index of the first match, if there is
one. -/
theorem afterFirstMatch_eq (p : StakingRecord → Bool) (l : List StakingRecord) :
    afterFirstMatch p l = if l.any p then some (l.drop (l.findIdx p + 1)) else none := by
  induction l with
  | nil => rfl
  | cons r rs ih =>
    by_cases hr : p r <;> simp [afterFirstMatch, hr, ih, List.findIdx_cons]

theorem afterFirstMatch_sublist {p : StakingRecord → Bool} {l rest : List StakingRecord}
    (h : afterFirstMatch p l = some rest) : rest.Sublist l := by
  rw [afterFirstMatch_eq] at h
  split at h
  · cases h
    exact List.drop_sublist _ _
  · cases h

/-- The record of nonce 0 of a validator, with no hash or payload. -/
def recordOf (validatorID : Nat) : StakingRecord := ⟨validatorID, 0, [], []⟩

/-- A store whose queue 0 holds the records of the validators 1, 2 and 3. -/
def queueOneTwoThree : KVStore Blob :=
  KVStore.empty.set (blobKeeper.getStakingQueueKey 0) (.records [recordOf 1, recordOf 2, recordOf 3])

/-- Removing the record of validator 2 from the queue `[1, 2, 3]` leaves `[3]`: the record
of validator 1 goes as well. -/
theorem removeStakingRecordFromQueue_drops_earlier_records :
    blobKeeper.queue (blobKeeper.removeStakingRecordFromQueue
        (KVStore.empty.set (blobKeeper.getStakingQueueKey 0)
          (.records [recordOf 1, recordOf 2, recordOf 3])) 0 2 0) 0 =
      some (.ok [recordOf 3]) := by
  rfl

/-- `findStakingRecordFromQueue` reports exactly a decoded queue holding the triple. -/
theorem Keeper.findStakingRecordFromQueue_iff (s : KVStore V) (rootID : UInt8)
    (r : StakingRecord) :
    k.findStakingRecordFromQueue s rootID r = true ↔
      ∃ rs, k.queue s rootID = some (.ok rs) ∧ triple r ∈ rs.map triple := by
  simp only [Keeper.findStakingRecordFromQueue, Keeper.queue]
  rcases hs : s (k.getStakingQueueKey rootID) with _ | b
  · simp
  · rcases hd : k.cdc.unmarshalRecords b with e | rs
    · simp [hd]
    · simp only [hd, Option.map_some', Option.some.injEq, Except.ok.injEq, exists_eq_left',
        List.any_eq_true, sameTriple_iff, List.mem_map]

/-- `GetNextStakingRecordFromQueue` through the decoded queue: `nil` for a missing queue,
the head of one that decodes, and a panic for an empty one. -/
theorem Keeper.getNextStakingRecordFromQueue_eq (s : KVStore V) (rootID : UInt8) :
    k.getNextStakingRecordFromQueue s rootID =
      match k.queue s rootID with
      | none => .ok (.ok none)
      | some (.error e) => .ok (.error e)
      | some (.ok []) => .error (.indexOutOfRange 0 0)
      | some (.ok (r :: _)) => .ok (.ok (some r)) := by
  simp only [Keeper.getNextStakingRecordFromQueue, Keeper.queue]
  rcases hs : s (k.getStakingQueueKey rootID) with _ | b
  · rfl
  · rcases hd : k.cdc.unmarshalRecords b with e | _ | ⟨r, rs⟩ <;> simp [hd]

end delivery.staking
