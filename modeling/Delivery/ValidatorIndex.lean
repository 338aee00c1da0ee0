-- The ID index of the validator store, and the stores that keeper calls reach: there every
-- record sits under the signer it names, so `UpdateSigner` moves a validator whole, and it
-- keeps the index unless the new signer is one that another ID maps to.
import Delivery.Validators

namespace delivery.staking

open delivery.encoding

variable {V : Type} (k : Keeper V)

/-! ## A consistent index -/

/-- The ID index is consistent: an ID mapped to a signer finds, under that signer, a
validator with that ID. -/
def Keeper.IndexConsistent (s : KVStore V) : Prop :=
  ∀ i a, k.getSignerFromValidatorID s i = (a, true) →
    ∃ v, k.getValidatorInfo s a.bytes = .ok v ∧ v.id = i

theorem Keeper.indexConsistent_empty : k.IndexConsistent KVStore.empty := by
  intro i a h
  simp [Keeper.getSignerFromValidatorID] at h

/-- On a consistent index, `GetValidatorFromValID` finds the validator of that ID. -/
theorem Keeper.IndexConsistent.getValidatorFromValID_id {k : Keeper V} {s : KVStore V}
    (h : k.IndexConsistent s) {i : Nat} {v : Validator} (hv : k.getValidatorFromValID s i = some v) :
    v.id = i := by
  unfold Keeper.getValidatorFromValID at hv
  rcases hs : k.getSignerFromValidatorID s i with ⟨a, _ | _⟩ <;> rw [hs] at hv
  · cases hv
  · obtain ⟨w, hw, hid⟩ := h i a hs
    simp only [hw, Except.toOption, Option.some.injEq] at hv
    exact hv ▸ hid

/-- On a consistent index, `GetLastUpdated` reports the validator of that ID. -/
theorem Keeper.IndexConsistent.getLastUpdated_id {k : Keeper V} {s : KVStore V}
    (h : k.IndexConsistent s) {i t : Nat} (ht : k.getLastUpdated s i = (t, true)) :
    ∃ v, k.getValidatorFromValID s i = some v ∧ v.id = i ∧ v.lastUpdated = t := by
  unfold Keeper.getLastUpdated at ht
  rcases hv : k.getValidatorFromValID s i with _ | v <;> rw [hv] at ht
  · cases ht
  · exact ⟨v, rfl, h.getValidatorFromValID_id hv, (Prod.mk.inj ht).1⟩

/-- `AddValidator` keeps the index consistent when no other ID maps to its signer. -/
theorem Keeper.IndexConsistent.addValidator {k : Keeper V} {s : KVStore V}
    (h : k.IndexConsistent s) (v : Validator)
    (hfree : ∀ j a, j ≠ v.id → k.getSignerFromValidatorID s j = (a, true) → a ≠ v.signer) :
    k.IndexConsistent (k.addValidator s v) := by
  intro i a hi
  rw [k.getSignerFromValidatorID_addValidator] at hi
  split at hi
  · rename_i hiv
    obtain rfl : v.signer = a := (Prod.mk.inj hi).1
    exact ⟨v, by simp [k.getValidatorInfo_addValidator], hiv.symm⟩
  · rename_i hiv
    obtain ⟨w, hw, hid⟩ := h i a hi
    have hne : a.bytes ≠ v.signer.bytes := fun hb => hfree i a hiv hi (Address.bytes_inj.mp hb)
    exact ⟨w, by rw [k.getValidatorInfo_addValidator, if_neg hne, hw], hid⟩

/-- For every store with a consistent index, every `prevSigner` with a validator `v` stored,
and every `newSigner` that no ID other than that of `v` maps to, nor to the signer that
`v` names: after `UpdateSigner` the index is again consistent, so `GetValidatorFromValID`
and `GetLastUpdated`, when they succeed, report the validator of the ID asked for. -/
theorem Keeper.updateSigner_keeps_index_consistent (s : KVStore V) (newSigner : Address)
    (newPubkey : Bytes) (prevSigner : Address) (v : Validator) (hcons : k.IndexConsistent s)
    (hv : k.getValidatorInfo s prevSigner.bytes = .ok v)
    (hfree : ∀ j a, j ≠ v.id → k.getSignerFromValidatorID s j = (a, true) →
      a ≠ newSigner ∧ a ≠ v.signer) :
    k.IndexConsistent (k.updateSigner s newSigner newPubkey prevSigner).1 ∧
      ∀ i, (∀ w, k.getValidatorFromValID (k.updateSigner s newSigner newPubkey prevSigner).1 i =
          some w → w.id = i) ∧
        ∀ t, k.getLastUpdated (k.updateSigner s newSigner newPubkey prevSigner).1 i = (t, true) →
          ∃ w, k.getValidatorFromValID (k.updateSigner s newSigner newPubkey prevSigner).1 i =
            some w ∧ w.id = i ∧ w.lastUpdated = t := by
  have h1 := hcons.addValidator { v with power := 0 } fun j a hj ha => (hfree j a hj ha).2
  have h2 := h1.addValidator { v with signer := newSigner, pubKey := newPubkey } fun j a hj ha => by
    rw [k.getSignerFromValidatorID_addValidator, if_neg hj] at ha
    exact (hfree j a hj ha).1
  rw [k.updateSigner_of_ok s _ _ _ v hv]
  exact ⟨h2, fun i => ⟨fun w hw => h2.getValidatorFromValID_id hw,
    fun t ht => h2.getLastUpdated_id ht⟩⟩

theorem indexConsistent_twoValidators : blobKeeper.IndexConsistent twoValidators := by
  refine (blobKeeper.indexConsistent_empty.addValidator validatorOne fun j a _ ha => ?_).addValidator
    validatorTwo fun j a hj ha => ?_
  · simp [Keeper.getSignerFromValidatorID] at ha
  · rw [blobKeeper.getSignerFromValidatorID_addValidator] at ha
    split at ha
    · cases ha
      decide
    · simp [Keeper.getSignerFromValidatorID] at ha

/-- IDs other than 2 that `twoValidators` maps map to `addressOf 0xc`. -/
theorem twoValidators_other_signers (j : Nat) (a : Address) (hj : j ≠ 2)
    (ha : blobKeeper.getSignerFromValidatorID twoValidators j = (a, true)) : a = addressOf 0xc := by
  rw [twoValidators, blobKeeper.getSignerFromValidatorID_addValidator,
    if_neg (show j ≠ validatorTwo.id from hj),
    blobKeeper.getSignerFromValidatorID_addValidator] at ha
  split at ha
  · exact (Prod.mk.inj ha).1.symm
  · simp [Keeper.getSignerFromValidatorID] at ha

theorem Keeper.updateSigner_keeps_index_consistent_twoValidators :
    blobKeeper.IndexConsistent twoValidators ∧
      blobKeeper.getValidatorInfo twoValidators (addressOf 0xa).bytes = .ok validatorTwo ∧
      blobKeeper.IndexConsistent
        (blobKeeper.updateSigner twoValidators (addressOf 0xd) [] (addressOf 0xa)).1 := by
  have hv : blobKeeper.getValidatorInfo twoValidators (addressOf 0xa).bytes = .ok validatorTwo := by
    decide
  refine ⟨indexConsistent_twoValidators, hv,
    (blobKeeper.updateSigner_keeps_index_consistent twoValidators (addressOf 0xd) []
      (addressOf 0xa) validatorTwo indexConsistent_twoValidators hv fun j a hj ha => ?_).1⟩
  rw [twoValidators_other_signers j a hj ha]
  decide

/-- Moving `v` onto a signer that another ID `j` maps to breaks the index: `j` stays mapped
to that signer, whose record is now `v` moved, so `GetValidatorFromValID j` reports the
validator of `v.id`. -/
theorem Keeper.updateSigner_onto_mapped_signer (s : KVStore V) (newSigner : Address)
    (newPubkey : Bytes) (prevSigner : Address) (v : Validator)
    (hv : k.getValidatorInfo s prevSigner.bytes = .ok v) (j : Nat) (hj : j ≠ v.id)
    (hmap : k.getSignerFromValidatorID s j = (newSigner, true)) :
    k.getValidatorFromValID (k.updateSigner s newSigner newPubkey prevSigner).1 j =
        some { v with signer := newSigner, pubKey := newPubkey } ∧
      ¬ k.IndexConsistent (k.updateSigner s newSigner newPubkey prevSigner).1 := by
  have hstore := k.updateSigner_of_ok s newSigner newPubkey prevSigner v hv
  -- `j` still maps to `newSigner`, whose record is now `v` moved
  have hsigner : k.getSignerFromValidatorID (k.updateSigner s newSigner newPubkey prevSigner).1 j =
      (newSigner, true) := by
    simp only [hstore, k.getSignerFromValidatorID_addValidator, if_neg hj, hmap]
  have hrecord : k.getValidatorInfo (k.updateSigner s newSigner newPubkey prevSigner).1
      newSigner.bytes = .ok { v with signer := newSigner, pubKey := newPubkey } := by
    simp only [hstore, k.getValidatorInfo_addValidator, if_true]
  refine ⟨by simp only [Keeper.getValidatorFromValID, hsigner, hrecord, Except.toOption],
    fun h => ?_⟩
  obtain ⟨w, hw, hid⟩ := h j newSigner hsigner
  rw [hrecord] at hw
  cases hw
  exact hj hid.symm

/-- Moving validator 2 onto the signer of validator 1 leaves ID 1 mapped to a signer whose
record is validator 2. -/
theorem updateSigner_onto_used_signer_breaks_index :
    blobKeeper.IndexConsistent twoValidators ∧
      blobKeeper.getValidatorInfo twoValidators (addressOf 0xa).bytes = .ok validatorTwo ∧
      ¬ blobKeeper.IndexConsistent
        (blobKeeper.updateSigner twoValidators (addressOf 0xc) [] (addressOf 0xa)).1 := by
  have hv : blobKeeper.getValidatorInfo twoValidators (addressOf 0xa).bytes = .ok validatorTwo := by
    decide
  exact ⟨indexConsistent_twoValidators, hv,
    (blobKeeper.updateSigner_onto_mapped_signer twoValidators _ [] _ validatorTwo hv 1 (by decide)
      (by decide)).2⟩

/-! ## Validator stores reached by calls -/

/-- A call on the validator store. -/
inductive ValidatorOp where
  | addValidator (validator : Validator)
  | updateSigner (newSigner : Address) (newPubkey : Bytes) (prevSigner : Address)
  | addDeactivationEpoch (validator updatedVal : Validator)

/-- One call; a call that returns an error leaves the store its model leaves. -/
def Keeper.applyValidatorOp (s : KVStore V) : ValidatorOp → KVStore V
  | .addValidator v => k.addValidator s v
  | .updateSigner newSigner newPubkey prevSigner => (k.updateSigner s newSigner newPubkey prevSigner).1
  | .addDeactivationEpoch v updatedVal => (k.addDeactivationEpoch s v updatedVal).1

/-- The calls one after another. -/
def Keeper.runValidators (s : KVStore V) (ops : List ValidatorOp) : KVStore V :=
  ops.foldl k.applyValidatorOp s

/-- Every validator that decodes sits under the key of the signer it names. -/
def Keeper.SignerKeyed (s : KVStore V) : Prop :=
  ∀ a v, k.getValidatorInfo s a = .ok v → v.signer.bytes = a

theorem Keeper.SignerKeyed.addValidator {k : Keeper V} {s : KVStore V} (h : k.SignerKeyed s)
    (v : Validator) : k.SignerKeyed (k.addValidator s v) := by
  intro a w hw
  rw [k.getValidatorInfo_addValidator] at hw
  split at hw
  · cases hw
    rename_i ha
    exact ha.symm
  · exact h a w hw

/-- Every call is `AddValidator` done once or twice, or leaves the store: what
`AddValidator` keeps, every call keeps. -/
theorem Keeper.applyValidatorOp_preserves (P : KVStore V → Prop)
    (hadd : ∀ s v, P s → P (k.addValidator s v)) (s : KVStore V) (op : ValidatorOp)
    (hs : P s) : P (k.applyValidatorOp s op) := by
  cases op with
  | addValidator v => exact hadd s v hs
  | updateSigner newSigner newPubkey prevSigner =>
    simp only [Keeper.applyValidatorOp, Keeper.updateSigner]
    split
    · exact hs
    · exact hadd _ _ (hadd _ _ hs)
  | addDeactivationEpoch v updatedVal =>
    simp only [Keeper.applyValidatorOp, Keeper.addDeactivationEpoch]
    split
    · exact hadd _ _ hs
    · exact hs

/-- The run lemma for what `AddValidator` keeps. -/
theorem Keeper.runValidators_preserves (P : KVStore V → Prop)
    (hadd : ∀ s v, P s → P (k.addValidator s v)) (s : KVStore V) (ops : List ValidatorOp)
    (hs : P s) : P (k.runValidators s ops) := by
  induction ops generalizing s with
  | nil => exact hs
  | cons op ops ih => exact ih _ (k.applyValidatorOp_preserves P hadd s op hs)

theorem Keeper.signerKeyed_runValidators (ops : List ValidatorOp) :
    k.SignerKeyed (k.runValidators KVStore.empty ops) :=
  k.runValidators_preserves _ (fun _ v h => h.addValidator v) _ ops fun a v hv => by
    simp [Keeper.getValidatorInfo] at hv

/-- In every validator store reached from the empty store by any calls, `UpdateSigner` to a
signer other than `prevSigner` returns no error and moves the validator under
`prevSigner` as `Rotated` says. -/
theorem Keeper.updateSigner_rotates_when_reached (ops : List ValidatorOp) (newSigner : Address)
    (newPubkey : Bytes) (prevSigner : Address) (v : Validator)
    (hv : k.getValidatorInfo (k.runValidators KVStore.empty ops) prevSigner.bytes = .ok v)
    (hne : newSigner ≠ prevSigner) :
    (k.updateSigner (k.runValidators KVStore.empty ops) newSigner newPubkey prevSigner).2 = none ∧
      k.Rotated (k.runValidators KVStore.empty ops)
        (k.updateSigner (k.runValidators KVStore.empty ops) newSigner newPubkey prevSigner).1 v
        newSigner newPubkey prevSigner :=
  k.updateSigner_rotated _ _ _ _ v hv
    (Address.bytes_injective (k.signerKeyed_runValidators ops _ v hv)) hne

theorem Keeper.updateSigner_rotates_when_reached_twoValidators :
    blobKeeper.getValidatorInfo (blobKeeper.runValidators KVStore.empty
        [.addValidator validatorOne, .addValidator validatorTwo]) (addressOf 0xa).bytes =
        .ok validatorTwo ∧
      addressOf 0xd ≠ addressOf 0xa ∧
      (blobKeeper.updateSigner (blobKeeper.runValidators KVStore.empty
        [.addValidator validatorOne, .addValidator validatorTwo]) (addressOf 0xd) []
        (addressOf 0xa)).2 = none := by
  have hv : blobKeeper.getValidatorInfo (blobKeeper.runValidators KVStore.empty
      [.addValidator validatorOne, .addValidator validatorTwo]) (addressOf 0xa).bytes =
      .ok validatorTwo := by
    decide
  exact ⟨hv, by decide, (blobKeeper.updateSigner_rotates_when_reached _ _ _ _ _ hv (by decide)).1⟩

/-- No ID other than `id` maps to `signer`. -/
def Keeper.SignerFree (s : KVStore V) (id : Nat) (signer : Address) : Prop :=
  ∀ j a, j ≠ id → k.getSignerFromValidatorID s j = (a, true) → a ≠ signer

/-- A well-indexed validator store: the ID index is consistent, and every validator sits
under the key of its own signer. -/
structure Keeper.Indexed (s : KVStore V) : Prop where
  consistent : k.IndexConsistent s
  keyed : k.SignerKeyed s

/-- A call hands `AddValidator` no signer that another ID maps to: the validator's own
signer for `AddValidator` and `AddDeactivationEpoch`, the new signer for `UpdateSigner`. -/
def Keeper.Allowed (s : KVStore V) : ValidatorOp → Prop
  | .addValidator v => k.SignerFree s v.id v.signer
  | .updateSigner newSigner _ prevSigner =>
    ∀ v, k.getValidatorInfo s prevSigner.bytes = .ok v → k.SignerFree s v.id newSigner
  | .addDeactivationEpoch v _ => k.SignerFree s v.id v.signer

/-- Every call of the run is allowed in the store it is made on. -/
def Keeper.AllowedRun (k : Keeper V) : KVStore V → List ValidatorOp → Prop
  | _, [] => True
  | s, op :: ops => k.Allowed s op ∧ k.AllowedRun (k.applyValidatorOp s op) ops

theorem Keeper.Indexed.addValidator {k : Keeper V} {s : KVStore V} (h : k.Indexed s)
    (v : Validator) (hfree : k.SignerFree s v.id v.signer) : k.Indexed (k.addValidator s v) :=
  ⟨h.consistent.addValidator v hfree, h.keyed.addValidator v⟩

/-- On a well-indexed store, the signer of a stored validator is free but for its own ID. -/
theorem Keeper.Indexed.signerFree_of_stored {k : Keeper V} {s : KVStore V} (h : k.Indexed s)
    {a : Bytes} {v : Validator} (hv : k.getValidatorInfo s a = .ok v) :
    k.SignerFree s v.id v.signer := by
  intro j b hj hb heq
  obtain ⟨w, hw, hid⟩ := h.consistent j b hb
  rw [heq, h.keyed a v hv, hv] at hw
  cases hw
  exact hj hid.symm

theorem Keeper.Indexed.applyValidatorOp {k : Keeper V} {s : KVStore V} (h : k.Indexed s)
    (op : ValidatorOp) (hop : k.Allowed s op) : k.Indexed (k.applyValidatorOp s op) := by
  cases op with
  | addValidator v => exact h.addValidator v hop
  | updateSigner newSigner newPubkey prevSigner =>
    simp only [Keeper.applyValidatorOp]
    rcases hv : k.getValidatorInfo s prevSigner.bytes with e | v
    · simpa [Keeper.updateSigner, hv] using h
    · rw [k.updateSigner_of_ok s _ _ _ v hv]
      have hfree : k.SignerFree s v.id v.signer := h.signerFree_of_stored hv
      have h1 := h.addValidator { v with power := 0 } hfree
      refine h1.addValidator _ fun j a hj ha => ?_
      rw [k.getSignerFromValidatorID_addValidator, if_neg hj] at ha
      exact hop v hv j a hj ha
  | addDeactivationEpoch v updatedVal =>
    simp only [Keeper.applyValidatorOp, Keeper.addDeactivationEpoch]
    split
    · exact h.addValidator _ hop
    · exact h

/-- In every validator store built from the empty store by calls that each hand
`AddValidator` no signer another ID maps to, the index is consistent and every validator
sits under its own signer: `GetValidatorFromValID` and `GetLastUpdated`, when they
succeed, report the validator of the ID asked for. -/
theorem Keeper.runValidators_indexed (ops : List ValidatorOp)
    (hops : k.AllowedRun KVStore.empty ops) :
    k.Indexed (k.runValidators KVStore.empty ops) ∧
      ∀ i, (∀ w, k.getValidatorFromValID (k.runValidators KVStore.empty ops) i = some w →
          w.id = i) ∧
        ∀ t, k.getLastUpdated (k.runValidators KVStore.empty ops) i = (t, true) →
          ∃ w, k.getValidatorFromValID (k.runValidators KVStore.empty ops) i = some w ∧
            w.id = i ∧ w.lastUpdated = t := by
  suffices hrun : ∀ s, k.Indexed s → k.AllowedRun s ops → k.Indexed (k.runValidators s ops) by
    have hi := hrun _ ⟨k.indexConsistent_empty, fun a v hv => by
      simp [Keeper.getValidatorInfo] at hv⟩ hops
    exact ⟨hi, fun i => ⟨fun w hw => hi.consistent.getValidatorFromValID_id hw,
      fun t ht => hi.consistent.getLastUpdated_id ht⟩⟩
  clear hops
  induction ops with
  | nil => exact fun _ hs _ => hs
  | cons op ops ih => exact fun s hs hop => ih _ (hs.applyValidatorOp op hop.1) hop.2

/-- Validators 1 and 2 added, then validator 2 moved to `addressOf 0xd`. -/
def rotationRun : List ValidatorOp :=
  [.addValidator validatorOne, .addValidator validatorTwo,
    .updateSigner (addressOf 0xd) [] (addressOf 0xa)]

theorem Keeper.runValidators_indexed_rotationRun :
    blobKeeper.AllowedRun KVStore.empty rotationRun ∧
      blobKeeper.Indexed (blobKeeper.runValidators KVStore.empty rotationRun) := by
  have hops : blobKeeper.AllowedRun KVStore.empty rotationRun := by
    refine ⟨fun j a _ ha => ?_, fun j a hj ha => ?_, fun v hv j a hj ha => ?_, trivial⟩
    · simp [Keeper.getSignerFromValidatorID] at ha
    · rw [Keeper.applyValidatorOp, blobKeeper.getSignerFromValidatorID_addValidator] at ha
      split at ha
      · cases ha
        decide
      · simp [Keeper.getSignerFromValidatorID] at ha
    · have hv2 : blobKeeper.getValidatorInfo twoValidators (addressOf 0xa).bytes =
          .ok validatorTwo := by
        decide
      change blobKeeper.getValidatorInfo twoValidators _ = _ at hv
      rw [hv2] at hv
      cases hv
      rw [twoValidators_other_signers j a hj ha]
      decide
  exact ⟨hops, (blobKeeper.runValidators_indexed _ hops).1⟩

end delivery.staking
