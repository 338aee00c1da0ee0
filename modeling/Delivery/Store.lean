-- The store of the staking keeper: byte keys, values read only through the keeper's
-- codec, and the key layout. The validator, ID-map and validator-set keys start with
-- three different bytes, so a write under one kind of key leaves the others alone.
import Delivery.Encoding

namespace delivery.staking

open delivery.encoding

/-! ## What the keeper stores -/

/-- A staking record: the triple that names it, and the rest of its fields, which the
queue only carries. -/
structure StakingRecord where
  validatorID : Nat
  nonce : Nat
  txHash : Bytes
  payload : Bytes
  deriving DecidableEq

/-- A validator as the keeper stores it. -/
structure Validator where
  id : Nat
  startEpoch : Nat
  endEpoch : Nat
  power : Int
  pubKey : Bytes
  signer : Address
  lastUpdated : Nat
  deriving DecidableEq

/-- A validator of the current set, with its accumulator. -/
structure SetMember where
  validator : Validator
  accum : Int
  deriving DecidableEq

/-- Modelled from the spec: the current validator set (`types.ValidatorSet` is outside
`src/`), as validators in order, each with its accumulator, and the proposer of the last
rotation. -/
structure ValidatorSet where
  validators : List SetMember
  proposer : Option Validator
  deriving DecidableEq

/-- The keeper's store: byte keys to values, `[]byte` in Go, read through the codec. -/
def KVStore (V : Type) := Bytes → Option V

namespace KVStore

variable {V : Type}

/-- The store with nothing in it. -/
def empty : KVStore V := fun _ => none

/-- `store.Set(key, v)`. -/
def set (s : KVStore V) (key : Bytes) (v : V) : KVStore V :=
  fun k => if k = key then some v else s k

@[simp] theorem empty_apply (key : Bytes) : (empty : KVStore V) key = none := rfl

@[simp] theorem set_same (s : KVStore V) (key : Bytes) (v : V) : s.set key v key = some v := by
  simp [set]

theorem set_ne (s : KVStore V) {key key' : Bytes} (v : V) (h : key' ≠ key) :
    s.set key v key' = s key' := by
  simp [set, h]

end KVStore

/-- The keeper's codec `k.cdc`: amino's bare encoding of a record list, of a validator and
of a validator set, each read back by its decoder, and the raw bytes of an address.
Marshalling these Go types does not fail. The round trip is assumed for the empty record
list too, which amino encodes as no bytes at all. -/
structure Codec (V : Type) where
  marshalRecords : List StakingRecord → V
  unmarshalRecords : V → Except String (List StakingRecord)
  marshalValidator : Validator → V
  unmarshalValidator : V → Except String Validator
  marshalValidatorSet : ValidatorSet → V
  unmarshalValidatorSet : V → Except String ValidatorSet
  ofBytes : Bytes → V
  toBytes : V → Bytes
  unmarshalRecords_marshal (rs : List StakingRecord) : unmarshalRecords (marshalRecords rs) = .ok rs
  unmarshalValidator_marshal (v : Validator) : unmarshalValidator (marshalValidator v) = .ok v
  unmarshalValidatorSet_marshal (vs : ValidatorSet) :
    unmarshalValidatorSet (marshalValidatorSet vs) = .ok vs
  toBytes_ofBytes (b : Bytes) : toBytes (ofBytes b) = b

attribute [simp] Codec.unmarshalRecords_marshal Codec.unmarshalValidator_marshal
  Codec.unmarshalValidatorSet_marshal Codec.toBytes_ofBytes

/-- The keeper, with what it takes from outside `src/`: its codec, the queue prefix
`stakingSendingQueueKey`, and `ValidatorID.Bytes`, which tells IDs apart. -/
structure Keeper (V : Type) where
  cdc : Codec V
  stakingSendingQueueKey : Bytes
  validatorIDBytes : Nat → Bytes
  validatorIDBytes_injective : Function.Injective validatorIDBytes

/-! ## Keys -/

/-- `ValidatorsKey`, the prefix of a validator's key. -/
def validatorsKey : Bytes := [0x21]

/-- `ValidatorMapKey`, the prefix of an ID's key in the validator map. -/
def validatorMapKey : Bytes := [0x22]

/-- `CurrentValidatorSetKey`. -/
def currentValidatorSetKey : Bytes := [0x23]

/-- `GetValidatorKey`. -/
def getValidatorKey (address : Bytes) : Bytes := validatorsKey ++ address

/-- `GetValidatorMapKey`. -/
def getValidatorMapKey (address : Bytes) : Bytes := validatorMapKey ++ address

/-- `getStakingQueueKey`. -/
def Keeper.getStakingQueueKey {V : Type} (k : Keeper V) (rootID : UInt8) : Bytes :=
  k.stakingSendingQueueKey ++ [rootID]

@[simp] theorem getValidatorKey_inj {a b : Bytes} : getValidatorKey a = getValidatorKey b ↔ a = b :=
  List.append_right_inj _

@[simp] theorem getValidatorMapKey_inj {a b : Bytes} :
    getValidatorMapKey a = getValidatorMapKey b ↔ a = b :=
  List.append_right_inj _

@[simp] theorem getStakingQueueKey_inj {V : Type} (k : Keeper V) {a b : UInt8} :
    k.getStakingQueueKey a = k.getStakingQueueKey b ↔ a = b := by
  simp [Keeper.getStakingQueueKey]

@[simp] theorem getValidatorKey_ne_mapKey (a b : Bytes) : getValidatorKey a ≠ getValidatorMapKey b := by
  simp [getValidatorKey, getValidatorMapKey, validatorsKey, validatorMapKey]

@[simp] theorem getValidatorMapKey_ne_validatorKey (a b : Bytes) :
    getValidatorMapKey a ≠ getValidatorKey b :=
  (getValidatorKey_ne_mapKey b a).symm

@[simp] theorem getValidatorKey_ne_setKey (a : Bytes) : getValidatorKey a ≠ currentValidatorSetKey := by
  simp [getValidatorKey, validatorsKey, currentValidatorSetKey]

@[simp] theorem getValidatorMapKey_ne_setKey (a : Bytes) :
    getValidatorMapKey a ≠ currentValidatorSetKey := by
  simp [getValidatorMapKey, validatorMapKey, currentValidatorSetKey]

/-! ## A codec to run the model on -/

/-- A store value kept as what it encodes. -/
inductive Blob where
  | raw (b : Bytes)
  | records (rs : List StakingRecord)
  | validator (v : Validator)
  | validatorSet (vs : ValidatorSet)
  deriving DecidableEq

/-- The codec over `Blob`: a value decodes as what it encodes, and as nothing else. -/
def blobCodec : Codec Blob where
  marshalRecords := .records
  unmarshalRecords
    | .records rs => .ok rs
    | _ => .error "not a record list"
  marshalValidator := .validator
  unmarshalValidator
    | .validator v => .ok v
    | _ => .error "not a validator"
  marshalValidatorSet := .validatorSet
  unmarshalValidatorSet
    | .validatorSet vs => .ok vs
    | _ => .error "not a validator set"
  ofBytes := .raw
  toBytes
    | .raw b => b
    | _ => []
  unmarshalRecords_marshal _ := rfl
  unmarshalValidator_marshal _ := rfl
  unmarshalValidatorSet_marshal _ := rfl
  toBytes_ofBytes _ := rfl

/-- A keeper over `Blob`, with the queue prefix `0x51` and an ID written as that many
zero bytes. -/
def blobKeeper : Keeper Blob where
  cdc := blobCodec
  stakingSendingQueueKey := [0x51]
  validatorIDBytes n := List.replicate n 0
  validatorIDBytes_injective a b h := by simpa using congrArg List.length h

end delivery.staking
