-- The scans of the validator store: `IterateValidatorsAndApplyFn` walks the values under
-- `ValidatorsKey` in key order. In every reached store the scan lists exactly the records
-- `GetValidatorInfo` finds, and after a rotation it lists the retired record too.
import Delivery.ValidatorIndex

namespace delivery.staking

open delivery.encoding

variable {V : Type} (k : Keeper V)

/-! ## The model of the scans -/

/-- The zero `types.Validator`. -/
def zeroValidator : Validator := ⟨0, 0, 0, 0, [], zeroAddress, 0⟩

/-- `keys` lists the keys of `s`. The store's iterator walks each key once, in ascending
order; what is proved here holds for every listing. -/
def KeysOf (s : KVStore V) (keys : List Bytes) : Prop := ∀ key, key ∈ keys ↔ (s key).isSome

/-- `f` applied to the validators in turn, up to the first on which it returns an error:
the validators it was applied to. -/
def applyUntilError (f : Validator → Option String) : List Validator → List Validator
  | [] => []
  | v :: vs =>
    match f v with
    | none => v :: applyUntilError f vs
    | some _ => [v]

/-- `IterateValidatorsAndApplyFn` on a store whose iterator walks the keys `keys`: the
validators under `ValidatorsKey` that `f` is applied to. The error of
`UnmarshallValidator` is dropped, so a value that does not decode is passed as the zero
validator. -/
def Keeper.iterateValidatorsAndApplyFn (s : KVStore V) (keys : List Bytes)
    (f : Validator → Option String) : List Validator :=
  applyUntilError f ((keys.filter validatorsKey.isPrefixOf).filterMap fun key =>
    (s key).map fun value => (k.cdc.unmarshalValidator value).toOption.getD zeroValidator)

/-- `GetAllValidators`. -/
def Keeper.getAllValidators (s : KVStore V) (keys : List Bytes) : List Validator :=
  k.iterateValidatorsAndApplyFn s keys fun _ => none

/-- `GetCurrentValidators`, with the ack count and `IsCurrentValidator` (outside `src/`)
given: the validators it accepts, as the callback collects them. -/
def Keeper.getCurrentValidators (s : KVStore V) (keys : List Bytes) (ackCount : Nat)
    (isCurrentValidator : Validator → Nat → Bool) : List Validator :=
  (k.iterateValidatorsAndApplyFn s keys fun _ => none).filter fun validator =>
    isCurrentValidator validator ackCount

/-! ## Keys and records -/

@[simp] theorem applyUntilError_none (vs : List Validator) :
    applyUntilError (fun _ => none) vs = vs := by
  induction vs with
  | nil => rfl
  | cons v vs ih => simp [applyUntilError, ih]

theorem isPrefixOf_validatorsKey {key : Bytes} :
    validatorsKey.isPrefixOf key = true ↔ ∃ a, key = getValidatorKey a := by
  cases key with
  | nil => simp [validatorsKey, getValidatorKey, List.isPrefixOf]
  | cons b rest =>
    simp only [validatorsKey, getValidatorKey, List.isPrefixOf, List.singleton_append,
      List.cons.injEq, exists_and_left, exists_eq', and_true, Bool.and_true, beq_iff_eq]
    exact eq_comm

theorem KeysOf.empty : KeysOf (KVStore.empty : KVStore V) [] := fun key => by simp

theorem KeysOf.set {s : KVStore V} {keys : List Bytes} (h : KeysOf s keys) (key : Bytes)
    (v : V) : KeysOf (s.set key v) (key :: keys) := fun key' => by
  by_cases hk : key' = key
  · subst hk
    simp
  · simp [KVStore.set_ne s v hk, hk, h key']

theorem KeysOf.addValidator {s : KVStore V} {keys : List Bytes} (h : KeysOf s keys)
    (v : Validator) :
    KeysOf (k.addValidator s v)
      (getValidatorMapKey (k.validatorIDBytes v.id) :: getValidatorKey v.signer.bytes :: keys) :=
  (h.set _ _).set _ _

/-- Every record `GetValidatorInfo` finds is listed. -/
theorem Keeper.mem_getAllValidators_of_getValidatorInfo {s : KVStore V} {keys : List Bytes}
    (hkeys : KeysOf s keys) {a : Bytes} {v : Validator} (ha : k.getValidatorInfo s a = .ok v) :
    v ∈ k.getAllValidators s keys := by
  rcases hs : s (getValidatorKey a) with _ | b
  · simp [Keeper.getValidatorInfo, hs] at ha
  · simp only [Keeper.getValidatorInfo, hs] at ha
    simp only [Keeper.getAllValidators, Keeper.iterateValidatorsAndApplyFn, applyUntilError_none,
      List.mem_filterMap, List.mem_filter, isPrefixOf_validatorsKey]
    exact ⟨getValidatorKey a, ⟨(hkeys _).mpr (by simp [hs]), a, rfl⟩,
      by simp [hs, ha, Except.toOption]⟩

/-- Every value under a validator key decodes. -/
def Keeper.ValidatorsDecode (s : KVStore V) : Prop :=
  ∀ a b, s (getValidatorKey a) = some b → ∃ v, k.cdc.unmarshalValidator b = .ok v

theorem Keeper.ValidatorsDecode.addValidator {k : Keeper V} {s : KVStore V} (h : k.ValidatorsDecode s)
    (v : Validator) : k.ValidatorsDecode (k.addValidator s v) := by
  intro a b hb
  rw [k.addValidator_validatorKey] at hb
  split at hb
  · cases hb
    exact ⟨v, k.cdc.unmarshalValidator_marshal v⟩
  · exact h a b hb

/-- Where every validator value decodes, the listed validators are exactly the records
`GetValidatorInfo` finds. -/
theorem Keeper.mem_getAllValidators {s : KVStore V} {keys : List Bytes} (hkeys : KeysOf s keys)
    (hdecode : k.ValidatorsDecode s) (v : Validator) :
    v ∈ k.getAllValidators s keys ↔ ∃ a, k.getValidatorInfo s a = .ok v := by
  refine ⟨fun hv => ?_, fun ⟨a, ha⟩ => k.mem_getAllValidators_of_getValidatorInfo hkeys ha⟩
  simp only [Keeper.getAllValidators, Keeper.iterateValidatorsAndApplyFn, applyUntilError_none,
    List.mem_filterMap, List.mem_filter, isPrefixOf_validatorsKey] at hv
  obtain ⟨key, ⟨-, a, rfl⟩, hv⟩ := hv
  rcases hs : s (getValidatorKey a) with _ | b
  · simp [hs] at hv
  · obtain ⟨w, hw⟩ := hdecode a b hs
    simp only [hs, hw, Option.map_some', Except.toOption, Option.getD_some,
      Option.some.injEq] at hv
    exact ⟨a, by simp [Keeper.getValidatorInfo, hs, hw, hv]⟩

/-! ## Scans of the stores the calls reach -/

/-- In every validator store reached from the empty store by `AddValidator`,
`UpdateSigner` and `AddDeactivationEpoch` calls, and whatever order the iterator walks
its keys in, `GetAllValidators` lists a validator exactly when `GetValidatorInfo` finds
it under its own signer. -/
theorem Keeper.getAllValidators_runValidators (ops : List ValidatorOp) (keys : List Bytes)
    (hkeys : KeysOf (k.runValidators KVStore.empty ops) keys) (v : Validator) :
    v ∈ k.getAllValidators (k.runValidators KVStore.empty ops) keys ↔
      k.getValidatorInfo (k.runValidators KVStore.empty ops) v.signer.bytes = .ok v := by
  have hdecode : k.ValidatorsDecode (k.runValidators KVStore.empty ops) :=
    k.runValidators_preserves _ (fun _ v h => h.addValidator v) _ ops fun a b hb => by
      simp at hb
  rw [k.mem_getAllValidators hkeys hdecode]
  exact ⟨fun ⟨a, ha⟩ => k.signerKeyed_runValidators ops a v ha ▸ ha, fun h => ⟨_, h⟩⟩

/-- The keys of `twoValidators`, as its two `AddValidator` calls wrote them. -/
def twoValidatorsKeys : List Bytes :=
  [getValidatorMapKey (blobKeeper.validatorIDBytes 2), getValidatorKey (addressOf 0xa).bytes,
    getValidatorMapKey (blobKeeper.validatorIDBytes 1), getValidatorKey (addressOf 0xc).bytes]

theorem keysOf_twoValidators : KeysOf twoValidators twoValidatorsKeys :=
  (KeysOf.empty.addValidator blobKeeper validatorOne).addValidator blobKeeper validatorTwo

theorem Keeper.getAllValidators_runValidators_twoValidators :
    KeysOf (blobKeeper.runValidators KVStore.empty
        [.addValidator validatorOne, .addValidator validatorTwo]) twoValidatorsKeys ∧
      (validatorTwo ∈ blobKeeper.getAllValidators (blobKeeper.runValidators KVStore.empty
          [.addValidator validatorOne, .addValidator validatorTwo]) twoValidatorsKeys ↔
        blobKeeper.getValidatorInfo (blobKeeper.runValidators KVStore.empty
          [.addValidator validatorOne, .addValidator validatorTwo]) validatorTwo.signer.bytes =
          .ok validatorTwo) :=
  ⟨keysOf_twoValidators,
    blobKeeper.getAllValidators_runValidators [.addValidator validatorOne, .addValidator validatorTwo]
      twoValidatorsKeys keysOf_twoValidators validatorTwo⟩

/-- The record `UpdateSigner` retires stays in the scans: in every store, when `UpdateSigner`
moves a validator `v` that names `prevSigner` to another signer, `GetAllValidators`
afterwards lists `v` with no power under `prevSigner` as well as `v` under the new signer,
and `GetCurrentValidators` keeps the retired record exactly when `IsCurrentValidator`
accepts a validator with no power. -/
theorem Keeper.getAllValidators_updateSigner_keeps_retired (s : KVStore V)
    (newSigner : Address) (newPubkey : Bytes) (prevSigner : Address) (v : Validator)
    (hv : k.getValidatorInfo s prevSigner.bytes = .ok v) (hs : v.signer = prevSigner)
    (hne : newSigner ≠ prevSigner) (keys : List Bytes)
    (hkeys : KeysOf (k.updateSigner s newSigner newPubkey prevSigner).1 keys)
    (ackCount : Nat) (isCurrentValidator : Validator → Nat → Bool) :
    { v with power := 0 } ∈ k.getAllValidators (k.updateSigner s newSigner newPubkey prevSigner).1 keys ∧
      { v with signer := newSigner, pubKey := newPubkey } ∈
        k.getAllValidators (k.updateSigner s newSigner newPubkey prevSigner).1 keys ∧
      ({ v with power := 0 } ∈ k.getCurrentValidators
          (k.updateSigner s newSigner newPubkey prevSigner).1 keys ackCount isCurrentValidator ↔
        isCurrentValidator { v with power := 0 } ackCount = true) := by
  obtain ⟨-, hrot⟩ := k.updateSigner_rotated s newSigner newPubkey prevSigner v hv hs hne
  have hprev := k.mem_getAllValidators_of_getValidatorInfo hkeys hrot.prev_unpowered
  refine ⟨hprev, k.mem_getAllValidators_of_getValidatorInfo hkeys hrot.new_powered, ?_⟩
  simp only [Keeper.getCurrentValidators, List.mem_filter]
  exact ⟨fun h => h.2, fun h => ⟨hprev, h⟩⟩

/-- The keys after validator 2 of `twoValidators` moves to `addressOf 0xd`. -/
def rotatedKeys : List Bytes :=
  getValidatorMapKey (blobKeeper.validatorIDBytes 2) :: getValidatorKey (addressOf 0xd).bytes ::
    getValidatorMapKey (blobKeeper.validatorIDBytes 2) :: getValidatorKey (addressOf 0xa).bytes ::
    twoValidatorsKeys

theorem Keeper.getAllValidators_updateSigner_keeps_retired_twoValidators :
    blobKeeper.getValidatorInfo twoValidators (addressOf 0xa).bytes = .ok validatorTwo ∧
      addressOf 0xd ≠ addressOf 0xa ∧
      KeysOf (blobKeeper.updateSigner twoValidators (addressOf 0xd) [] (addressOf 0xa)).1
        rotatedKeys ∧
      { validatorTwo with power := 0 } ∈ blobKeeper.getAllValidators
        (blobKeeper.updateSigner twoValidators (addressOf 0xd) [] (addressOf 0xa)).1 rotatedKeys := by
  have hv : blobKeeper.getValidatorInfo twoValidators (addressOf 0xa).bytes = .ok validatorTwo := by
    decide
  have hkeys : KeysOf (blobKeeper.updateSigner twoValidators (addressOf 0xd) [] (addressOf 0xa)).1
      rotatedKeys := by
    rw [blobKeeper.updateSigner_of_ok _ _ _ _ validatorTwo hv]
    exact (keysOf_twoValidators.addValidator blobKeeper _).addValidator blobKeeper _
  exact ⟨hv, by decide, hkeys,
    (blobKeeper.getAllValidators_updateSigner_keeps_retired twoValidators (addressOf 0xd) []
      (addressOf 0xa) validatorTwo hv rfl (by decide) rotatedKeys hkeys 0 fun _ _ => true).1⟩

/-- After the move, the scan in key order lists validator 2 with no power under
`addressOf 0xa`, validator 1, then validator 2 with its power under `addressOf 0xd`. -/
example : (blobKeeper.getAllValidators
      (blobKeeper.updateSigner twoValidators (addressOf 0xd) [] (addressOf 0xa)).1
      [getValidatorKey (addressOf 0xa).bytes, getValidatorKey (addressOf 0xc).bytes,
        getValidatorKey (addressOf 0xd).bytes]).map (fun v => (v.id, v.power)) =
    [(2, 0), (1, 3), (2, 5)] := by
  decide

end delivery.staking
