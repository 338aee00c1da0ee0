-- The validator store of the staking keeper: each validator under its signer's key, and a
-- map from validator ID to signer. `UpdateSigner` writes the validator twice: with no power
-- under the signer its record names, then under the new signer.
import Delivery.Store

namespace delivery.staking

open delivery.encoding

variable {V : Type} (k : Keeper V)

/-! ## The model of the validator functions -/

/-- `SetValidatorIDToSignerAddr`. -/
def Keeper.setValidatorIDToSignerAddr (s : KVStore V) (valID : Nat) (signerAddr : Address) :
    KVStore V :=
  s.set (getValidatorMapKey (k.validatorIDBytes valID)) (k.cdc.ofBytes signerAddr.bytes)

/-- `AddValidator`: the validator under its signer's key, and its ID mapped to that signer.
Marshalling a validator does not fail, so it returns no error. -/
def Keeper.addValidator (s : KVStore V) (validator : Validator) : KVStore V :=
  k.setValidatorIDToSignerAddr
    (s.set (getValidatorKey validator.signer.bytes) (k.cdc.marshalValidator validator))
    validator.id validator.signer

/-- `GetValidatorInfo`. -/
def Keeper.getValidatorInfo (s : KVStore V) (address : Bytes) : Except String Validator :=
  match s (getValidatorKey address) with
  | none => .error "Validator not found"
  | some b => k.cdc.unmarshalValidator b

/-- `UpdateSigner`: the store after it, and the error it returns. -/
def Keeper.updateSigner (s : KVStore V) (newSigner : Address) (newPubkey : Bytes)
    (prevSigner : Address) : KVStore V × Option String :=
  match k.getValidatorInfo s prevSigner.bytes with
  | .error e => (s, some e)
  | .ok validator =>
    let s := k.addValidator s { validator with power := 0 }
    (k.addValidator s
      { validator with signer := newSigner, pubKey := newPubkey, power := validator.power }, none)

/-- `GetSignerFromValidatorID`: `helper.ZeroAddress` and `false` for an ID not mapped. -/
def Keeper.getSignerFromValidatorID (s : KVStore V) (valID : Nat) : Address × Bool :=
  match s (getValidatorMapKey (k.validatorIDBytes valID)) with
  | none => (zeroAddress, false)
  | some b => (bytesToAddress (k.cdc.toBytes b), true)

/-- `GetValidatorFromValID`, with `none` where Go returns `false`. -/
def Keeper.getValidatorFromValID (s : KVStore V) (valID : Nat) : Option Validator :=
  match k.getSignerFromValidatorID s valID with
  | (_, false) => none
  | (signerAddr, true) => (k.getValidatorInfo s signerAddr.bytes).toOption

/-- `GetLastUpdated`. -/
def Keeper.getLastUpdated (s : KVStore V) (valID : Nat) : Nat × Bool :=
  match k.getValidatorFromValID s valID with
  | none => (0, false)
  | some validator => (validator.lastUpdated, true)

/-- `AddDeactivationEpoch`: the store after it, and the error it returns. -/
def Keeper.addDeactivationEpoch (s : KVStore V) (validator updatedVal : Validator) :
    KVStore V × Option String :=
  if updatedVal.endEpoch ≠ 0 then
    (k.addValidator s { validator with endEpoch := updatedVal.endEpoch }, none)
  else (s, some "Deactivation period not set")

/-! ## What `AddValidator` writes -/

/-- `AddValidator` writes the validator key of its signer and the map key of its ID. -/
theorem Keeper.addValidator_apply (s : KVStore V) (v : Validator) (key : Bytes) :
    k.addValidator s v key =
      if key = getValidatorMapKey (k.validatorIDBytes v.id) then some (k.cdc.ofBytes v.signer.bytes)
      else if key = getValidatorKey v.signer.bytes then some (k.cdc.marshalValidator v)
      else s key := rfl

theorem Keeper.addValidator_validatorKey (s : KVStore V) (v : Validator) (a : Bytes) :
    k.addValidator s v (getValidatorKey a) =
      if a = v.signer.bytes then some (k.cdc.marshalValidator v) else s (getValidatorKey a) := by
  simp [k.addValidator_apply]

theorem Keeper.addValidator_mapKey (s : KVStore V) (v : Validator) (i : Nat) :
    k.addValidator s v (getValidatorMapKey (k.validatorIDBytes i)) =
      if i = v.id then some (k.cdc.ofBytes v.signer.bytes)
      else s (getValidatorMapKey (k.validatorIDBytes i)) := by
  simp [k.addValidator_apply, k.validatorIDBytes_injective.eq_iff]

theorem Keeper.addValidator_setKey (s : KVStore V) (v : Validator) :
    k.addValidator s v currentValidatorSetKey = s currentValidatorSetKey := by
  simp [k.addValidator_apply, Ne.symm (getValidatorMapKey_ne_setKey _),
    Ne.symm (getValidatorKey_ne_setKey _)]

theorem Keeper.getValidatorInfo_addValidator (s : KVStore V) (v : Validator) (a : Bytes) :
    k.getValidatorInfo (k.addValidator s v) a =
      if a = v.signer.bytes then .ok v else k.getValidatorInfo s a := by
  unfold Keeper.getValidatorInfo
  rw [k.addValidator_validatorKey]
  by_cases h : a = v.signer.bytes <;> simp [h]

theorem Keeper.getSignerFromValidatorID_addValidator (s : KVStore V) (v : Validator) (i : Nat) :
    k.getSignerFromValidatorID (k.addValidator s v) i =
      if i = v.id then (v.signer, true) else k.getSignerFromValidatorID s i := by
  unfold Keeper.getSignerFromValidatorID
  rw [k.addValidator_mapKey]
  by_cases h : i = v.id <;> simp [h]

/-- With a validator under `prevSigner`, `UpdateSigner` is the two `AddValidator` calls. -/
theorem Keeper.updateSigner_of_ok (s : KVStore V) (newSigner : Address) (newPubkey : Bytes)
    (prevSigner : Address) (v : Validator) (hv : k.getValidatorInfo s prevSigner.bytes = .ok v) :
    k.updateSigner s newSigner newPubkey prevSigner =
      (k.addValidator (k.addValidator s { v with power := 0 })
        { v with signer := newSigner, pubKey := newPubkey }, none) := by
  simp [Keeper.updateSigner, hv]

/-! ## Moving a validator to a new signer -/

/-- What `UpdateSigner` leaves in `s'` when it moves the validator `v` from `prevSigner` to
`newSigner`: `v` with no power under the old key, `v` with its power, the new signer and
the new key under the new key, the ID of `v` mapped to the new signer, and every other
validator key, every other ID and the validator set as in `s`. -/
structure Keeper.Rotated (s s' : KVStore V) (v : Validator) (newSigner : Address)
    (newPubkey : Bytes) (prevSigner : Address) : Prop where
  prev_unpowered : k.getValidatorInfo s' prevSigner.bytes = .ok { v with power := 0 }
  new_powered : k.getValidatorInfo s' newSigner.bytes =
    .ok { v with signer := newSigner, pubKey := newPubkey }
  id_to_new : k.getSignerFromValidatorID s' v.id = (newSigner, true)
  other_validators : ∀ a, a ≠ prevSigner.bytes → a ≠ newSigner.bytes →
    s' (getValidatorKey a) = s (getValidatorKey a)
  other_ids : ∀ i, i ≠ v.id →
    s' (getValidatorMapKey (k.validatorIDBytes i)) = s (getValidatorMapKey (k.validatorIDBytes i))
  validator_set : s' currentValidatorSetKey = s currentValidatorSetKey

/-- With `v` stored under `prevSigner` and naming it as signer, `UpdateSigner` to another
signer returns no error and leaves what `Rotated` says. -/
theorem Keeper.updateSigner_rotated (s : KVStore V) (newSigner : Address) (newPubkey : Bytes)
    (prevSigner : Address) (v : Validator) (hv : k.getValidatorInfo s prevSigner.bytes = .ok v)
    (hs : v.signer = prevSigner) (hne : newSigner ≠ prevSigner) :
    (k.updateSigner s newSigner newPubkey prevSigner).2 = none ∧
      k.Rotated s (k.updateSigner s newSigner newPubkey prevSigner).1 v newSigner newPubkey
        prevSigner := by
  have hbytes : prevSigner.bytes ≠ newSigner.bytes := fun h => hne (Address.bytes_inj.mp h).symm
  rw [k.updateSigner_of_ok s _ _ _ v hv]
  refine ⟨rfl, ⟨?_, ?_, ?_, ?_, ?_, ?_⟩⟩
  · simp [k.getValidatorInfo_addValidator, hs, hbytes]
  · simp [k.getValidatorInfo_addValidator]
  · simp [k.getSignerFromValidatorID_addValidator]
  · intro a h1 h2
    simp [k.addValidator_validatorKey, hs, h1, h2]
  · intro i hi
    simp [k.addValidator_mapKey, hi]
  · simp [k.addValidator_setKey]

/-- The address whose 20 bytes are all `b`. -/
def addressOf (b : UInt8) : Address := ⟨List.replicate 20 b, by simp⟩

/-- Validator 2, of power 5, signing with `addressOf 0xa`. -/
def validatorTwo : Validator := ⟨2, 0, 0, 5, [], addressOf 0xa, 0⟩

/-- Validator 1, of power 3, signing with `addressOf 0xc`. -/
def validatorOne : Validator := ⟨1, 0, 0, 3, [], addressOf 0xc, 0⟩

/-- A store with validator 1 and validator 2 added, in that order. -/
def twoValidators : KVStore Blob :=
  blobKeeper.addValidator (blobKeeper.addValidator KVStore.empty validatorOne) validatorTwo

end delivery.staking
