-- Interleavings of the keeper's writers: `IncrementAccum` commutes with the validator
-- calls, which touch other keys, and between the four store writes of `UpdateSigner` the
-- validator found by its ID is never split.
import Delivery.ValidatorIndex
import Delivery.Proposer

namespace delivery.staking

open delivery.encoding

variable {V : Type} (k : Keeper V)

/-! ## Validator calls leave the validator-set key -/

theorem Keeper.addValidator_set_setKey (s : KVStore V) (v : Validator) (x : V) :
    k.addValidator (s.set currentValidatorSetKey x) v =
      (k.addValidator s v).set currentValidatorSetKey x := by
  funext key
  by_cases hK : key = currentValidatorSetKey
  · subst hK
    simp [k.addValidator_setKey]
  · simp [k.addValidator_apply, KVStore.set_ne _ _ hK]

theorem Keeper.getValidatorInfo_set_setKey (s : KVStore V) (x : V) (a : Bytes) :
    k.getValidatorInfo (s.set currentValidatorSetKey x) a = k.getValidatorInfo s a := by
  simp [Keeper.getValidatorInfo, KVStore.set_ne _ _ (getValidatorKey_ne_setKey a)]

/-- A write of the validator-set key commutes with every validator call. -/
theorem Keeper.applyValidatorOp_set_setKey (s : KVStore V) (op : ValidatorOp) (x : V) :
    k.applyValidatorOp (s.set currentValidatorSetKey x) op =
      (k.applyValidatorOp s op).set currentValidatorSetKey x := by
  cases op with
  | addValidator v => exact k.addValidator_set_setKey s v x
  | updateSigner newSigner newPubkey prevSigner =>
    simp only [Keeper.applyValidatorOp, Keeper.updateSigner, k.getValidatorInfo_set_setKey]
    cases k.getValidatorInfo s prevSigner.bytes
    · rfl
    · simp only [k.addValidator_set_setKey]
  | addDeactivationEpoch v updatedVal =>
    simp only [Keeper.applyValidatorOp, Keeper.addDeactivationEpoch]
    split
    · exact k.addValidator_set_setKey s _ x
    · rfl

theorem Keeper.getValidatorSet_applyValidatorOp (s : KVStore V) (op : ValidatorOp) :
    k.getValidatorSet (k.applyValidatorOp s op) = k.getValidatorSet s := by
  have h : k.applyValidatorOp s op currentValidatorSetKey = s currentValidatorSetKey :=
    k.applyValidatorOp_preserves (fun s' => s' currentValidatorSetKey = s currentValidatorSetKey)
      (fun s' v h => (k.addValidator_setKey s' v).trans h) s op rfl
  simp only [Keeper.getValidatorSet, h]

/-! ## `IncrementAccum` commutes with the validator calls -/

theorem Keeper.incrementAccum_applyValidatorOp (s : KVStore V) (op : ValidatorOp)
    (times : Nat) :
    k.incrementAccum (k.applyValidatorOp s op) times =
      k.applyValidatorOp (k.incrementAccum s times) op := by
  simp only [Keeper.incrementAccum, Keeper.updateValidatorSetInStore,
    k.getValidatorSet_applyValidatorOp, k.applyValidatorOp_set_setKey]

/-- An `IncrementAccum` anywhere among validator calls leaves the same store: for every
store, every sequence of `AddValidator`, `UpdateSigner` and `AddDeactivationEpoch` calls
and every `times`, calling `IncrementAccum(times)` after the calls or before them gives
the same store, so such calls need no serialization against each other. -/
theorem Keeper.incrementAccum_runValidators (s : KVStore V) (ops : List ValidatorOp)
    (times : Nat) :
    k.incrementAccum (k.runValidators s ops) times =
      k.runValidators (k.incrementAccum s times) ops := by
  induction ops generalizing s with
  | nil => rfl
  | cons op ops ih =>
    exact (ih (k.applyValidatorOp s op)).trans
      (congrArg (k.runValidators · ops) (k.incrementAccum_applyValidatorOp s op times))

theorem Keeper.incrementAccum_runValidators_rotationRun :
    blobKeeper.incrementAccum (blobKeeper.runValidators tenFiveFiveStore rotationRun) 1 =
      blobKeeper.runValidators (blobKeeper.incrementAccum tenFiveFiveStore 1) rotationRun :=
  blobKeeper.incrementAccum_runValidators tenFiveFiveStore rotationRun 1

/-! ## Between the writes of `UpdateSigner` -/

/-- `store.Set` of each write in turn. -/
def KVStore.setAll (s : KVStore V) (writes : List (Bytes × V)) : KVStore V :=
  writes.foldl (fun s w => s.set w.1 w.2) s

/-- The store writes of `AddValidator`, in the order it makes them. -/
def Keeper.addValidatorWrites (validator : Validator) : List (Bytes × V) :=
  [(getValidatorKey validator.signer.bytes, k.cdc.marshalValidator validator),
    (getValidatorMapKey (k.validatorIDBytes validator.id), k.cdc.ofBytes validator.signer.bytes)]

/-- The store writes of `UpdateSigner`, in the order it makes them: none when the previous
signer has no validator. -/
def Keeper.updateSignerWrites (s : KVStore V) (newSigner : Address) (newPubkey : Bytes)
    (prevSigner : Address) : List (Bytes × V) :=
  match k.getValidatorInfo s prevSigner.bytes with
  | .error _ => []
  | .ok validator =>
    k.addValidatorWrites { validator with power := 0 } ++
      k.addValidatorWrites
        { validator with signer := newSigner, pubKey := newPubkey, power := validator.power }

theorem KVStore.setAll_append (s : KVStore V) (w1 w2 : List (Bytes × V)) :
    s.setAll (w1 ++ w2) = (s.setAll w1).setAll w2 :=
  List.foldl_append _ _ _ _

theorem Keeper.addValidator_eq_setAll (s : KVStore V) (v : Validator) :
    k.addValidator s v = s.setAll (k.addValidatorWrites v) := rfl

/-- All four writes make the store `UpdateSigner` leaves. -/
theorem Keeper.updateSigner_eq_setAll (s : KVStore V) (newSigner : Address) (newPubkey : Bytes)
    (prevSigner : Address) :
    (k.updateSigner s newSigner newPubkey prevSigner).1 =
      s.setAll (k.updateSignerWrites s newSigner newPubkey prevSigner) := by
  unfold Keeper.updateSigner Keeper.updateSignerWrites
  cases k.getValidatorInfo s prevSigner.bytes
  · rfl
  · simp only [KVStore.setAll_append, k.addValidator_eq_setAll]

theorem Keeper.getValidatorInfo_set_validatorKey (s : KVStore V) (w : Validator) (a b : Bytes) :
    k.getValidatorInfo (s.set (getValidatorKey a) (k.cdc.marshalValidator w)) b =
      if b = a then .ok w else k.getValidatorInfo s b := by
  by_cases h : b = a <;> simp [Keeper.getValidatorInfo, KVStore.set, h]

theorem Keeper.getSignerFromValidatorID_set_validatorKey (s : KVStore V) (x : V) (a : Bytes)
    (i : Nat) :
    k.getSignerFromValidatorID (s.set (getValidatorKey a) x) i =
      k.getSignerFromValidatorID s i := by
  simp [Keeper.getSignerFromValidatorID,
    KVStore.set_ne _ _ (getValidatorMapKey_ne_validatorKey _ a)]

theorem Keeper.getValidatorInfo_set_mapKey (s : KVStore V) (x : V) (a b : Bytes) :
    k.getValidatorInfo (s.set (getValidatorMapKey a) x) b = k.getValidatorInfo s b := by
  simp [Keeper.getValidatorInfo, KVStore.set_ne _ _ (getValidatorKey_ne_mapKey b a)]

theorem Keeper.getSignerFromValidatorID_set_mapKey (s : KVStore V) (a : Address) (i j : Nat) :
    k.getSignerFromValidatorID
        (s.set (getValidatorMapKey (k.validatorIDBytes j)) (k.cdc.ofBytes a.bytes)) i =
      if i = j then (a, true) else k.getSignerFromValidatorID s i := by
  by_cases h : i = j <;>
    simp [Keeper.getSignerFromValidatorID, KVStore.set, h, k.validatorIDBytes_injective.eq_iff]

/-- The validator between the writes of `UpdateSigner`. For every store where the previous
signer holds `v` and `v`'s ID maps to it, every new signer and key, and every number `n`
of writes made (all four make `UpdateSigner`'s store): the record under the previous
signer is `v` before the first write and `v` with power 0 after it; the new signer's
record is untouched before the third write and `v` under the new signer after it; and the
record found by `v`'s ID is `v` before the first write, `v` under the new signer after the
fourth, and `v` with power 0 in between, so the validator's power is never split between
the two signers. -/
theorem Keeper.updateSigner_between_writes (s : KVStore V) (newSigner : Address)
    (newPubkey : Bytes) (prevSigner : Address) (v : Validator)
    (hv : k.getValidatorInfo s prevSigner.bytes = .ok v) (hs : v.signer = prevSigner)
    (hmap : k.getSignerFromValidatorID s v.id = (prevSigner, true))
    (hne : newSigner ≠ prevSigner) (n : Nat) :
    (k.updateSigner s newSigner newPubkey prevSigner).1 =
        s.setAll (k.updateSignerWrites s newSigner newPubkey prevSigner) ∧
      let s' := s.setAll ((k.updateSignerWrites s newSigner newPubkey prevSigner).take n)
      k.getValidatorInfo s' prevSigner.bytes =
          (if n = 0 then .ok v else .ok { v with power := 0 }) ∧
        k.getValidatorInfo s' newSigner.bytes =
          (if n < 3 then k.getValidatorInfo s newSigner.bytes
            else .ok { v with signer := newSigner, pubKey := newPubkey }) ∧
        k.getValidatorFromValID s' v.id =
          some (if n = 0 then v else if n < 4 then { v with power := 0 }
            else { v with signer := newSigner, pubKey := newPubkey }) := by
  refine ⟨k.updateSigner_eq_setAll s newSigner newPubkey prevSigner, ?_⟩
  simp only [Keeper.updateSignerWrites, hv]
  match n with
  | 0 | 1 | 2 | 3 | _ + 4 =>
    simp [KVStore.setAll, Keeper.addValidatorWrites, k.getValidatorInfo_set_validatorKey,
      k.getValidatorInfo_set_mapKey, k.getSignerFromValidatorID_set_validatorKey,
      k.getSignerFromValidatorID_set_mapKey, Keeper.getValidatorFromValID, Except.toOption,
      hv, hmap, hs, hne, hne.symm, show ∀ m : Nat, ¬m + 4 < 3 from fun m => by omega]

/-- Validator 2 moved from `addressOf 0xa` to `addressOf 0xd`: after the first write, the
record found by its ID has power 0. -/
theorem Keeper.updateSigner_between_writes_twoValidators :
    blobKeeper.getValidatorFromValID
        (twoValidators.setAll
          ((blobKeeper.updateSignerWrites twoValidators (addressOf 0xd) [] (addressOf 0xa)).take 1))
        2 =
      some { validatorTwo with power := 0 } :=
  (blobKeeper.updateSigner_between_writes twoValidators (addressOf 0xd) [] (addressOf 0xa)
    validatorTwo (by decide) rfl (by decide) (by decide) 1).2.2.2

end delivery.staking
