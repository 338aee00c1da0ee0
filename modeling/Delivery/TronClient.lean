-- The Tron client (tronclient.go): typed wrappers over the node's gRPC wallet API and the
-- rootchain contract's ABI, both outside `src/` and taken here as given functions, with the
-- Go errors and panics of each call.
import Delivery.Encoding

namespace delivery.tron

open delivery.encoding

/-! ## The node's messages -/

/-- `pb.Return`: the node's result code, and its message. -/
structure Return where
  code : Nat
  message : Bytes
  deriving DecidableEq

/-- `pb.Return_SUCCESS`. -/
def returnSuccess : Nat := 0

/-- A `pb.Transaction`, which the client only passes on. -/
structure Transaction where
  raw : Bytes
  deriving DecidableEq

/-- `pb.TransactionExtention`: a nil `Result` or `Transaction` is `none`. -/
structure TransactionExtention where
  result : Option Return
  transaction : Option Transaction
  constantResult : List Bytes
  deriving DecidableEq

/-- `pb.TriggerSmartContract`, the request of both trigger calls. -/
structure TriggerSmartContract where
  ownerAddress : Bytes
  contractAddress : Bytes
  callValue : Int
  data : Bytes
  callTokenValue : Int
  tokenId : Int
  deriving DecidableEq

/-- `pb.BlockHeader_Raw`, down to the block number. -/
structure BlockHeaderRaw where
  number : Int

/-- `pb.BlockHeader`: a nil `RawData` is `none`. -/
structure BlockHeader where
  rawData : Option BlockHeaderRaw

/-- `pb.BlockExtention`: a nil `BlockHeader` is `none`. -/
structure BlockExtention where
  blockHeader : Option BlockHeader

/-- `pb.WalletClient`: the node's answer to each call the client makes, a gRPC error
being `.error`. -/
structure WalletClient where
  triggerContract : TriggerSmartContract → Except String TransactionExtention
  triggerConstantContract : TriggerSmartContract → Except String TransactionExtention
  getNowBlock2 : Except String BlockExtention
  broadcastTransaction : Transaction → Except String (Option Return)

/-- What `headerBlocks(uint256)` returns: root, start, end, createdAt and proposer. -/
structure HeaderBlock where
  root : Bytes
  start : Nat
  «end» : Nat
  createdAt : Nat
  proposer : Address
  deriving DecidableEq

/-- The rootchain contract's ABI as the client uses it: `Pack` of a method and its uint256
arguments, and `Unpack` of a uint256 result and of a header block. -/
structure RootchainABI where
  pack : String → List Nat → Except String Bytes
  unpackUint : String → Bytes → Except String Nat
  unpackHeaderBlock : Bytes → Except String HeaderBlock

/-- The error a call returns: a gRPC or ABI error passed on, or
`fmt.Errorf("code:%v message:%v", code, message)` for an answer that is not `SUCCESS`. -/
inductive ClientError where
  | rpc (e : String)
  | abi (e : String)
  | code (code : Nat) (message : Bytes)
  deriving DecidableEq

/-- `Client`, with `common.FromHex`, which it takes from outside `src/`. -/
structure Client where
  client : WalletClient
  rootchainABI : RootchainABI
  fromHex : String → Bytes

/-- `hex.EncodeToString`: two lower-case hex digits a byte. -/
def encodeToString (b : Bytes) : String :=
  String.mk (b.flatMap fun x => [Nat.digitChar (x.toNat / 16), Nat.digitChar (x.toNat % 16)])

/-! ## The calls -/

/-- What a call returns: a panic, or Go's pair of a value and an error. -/
abbrev Outcome (α : Type) := Except GoPanic (Except ClientError α)

/-- Go's `if err != nil { return ..., err }` after a step: a panic or an error is passed
on, and the rest runs on the step's value. -/
def andThen {α β : Type} (x : Outcome α) (f : α → Outcome β) : Outcome β :=
  match x with
  | .error p => .error p
  | .ok (.error err) => .ok (.error err)
  | .ok (.ok a) => f a

/-- A gRPC call: its error is passed on. -/
def rpc {α : Type} (x : Except String α) : Outcome α := .ok (x.mapError .rpc)

/-- The result check after each call: an answer that is not `SUCCESS` is returned as an
error, and a nil `Result` panics. -/
def checkResult : Option Return → Outcome Return
  | none => .error .nilPointerDereference
  | some r => .ok (if r.code ≠ returnSuccess then .error (.code r.code r.message) else .ok r)

namespace Client

variable (tc : Client)

/-- `TriggerContract`: the transaction the node built for the call. -/
def triggerContract (ownerAddress contractAddress : String) (data : Bytes) :
    Outcome (Option Transaction) :=
  andThen (rpc (tc.client.triggerContract
      ⟨tc.fromHex ("41" ++ ownerAddress), tc.fromHex contractAddress, 0, data, 0, 0⟩))
    fun response => andThen (checkResult response.result) fun _ => .ok (.ok response.transaction)

/-- The request `TriggerConstantContract` sends: no owner and no value. -/
def constantRequest (contractAddress : String) (data : Bytes) : TriggerSmartContract :=
  ⟨[], tc.fromHex contractAddress, 0, data, 0, 0⟩

/-- `TriggerConstantContract`: the first constant result of the call. -/
def triggerConstantContract (contractAddress : String) (data : Bytes) : Outcome Bytes :=
  andThen (rpc (tc.client.triggerConstantContract (tc.constantRequest contractAddress data)))
    fun response => andThen (checkResult response.result) fun _ =>
      match response.constantResult with
      | [] => .error (.indexOutOfRange 0 0)
      | b :: _ => .ok (.ok b)

/-- `GetNowBlock`: the number of the node's head block. -/
def getNowBlock : Outcome Int :=
  andThen (rpc tc.client.getNowBlock2) fun block =>
    match block.blockHeader.bind BlockHeader.rawData with
    | none => .error .nilPointerDereference
    | some raw => .ok (.ok raw.number)

/-- The first half of `CurrentHeaderBlock`, `GetHeaderInfo` and `GetLastChildBlock`:
`Pack` the call of `method`, then make it with `TriggerConstantContract`. -/
def callConstant (contractAddress method : String) (args : List Nat) : Outcome Bytes :=
  match tc.rootchainABI.pack method args with
  | .error err => .ok (.error (.abi err))
  | .ok btsPack => tc.triggerConstantContract contractAddress btsPack

/-- `CurrentHeaderBlock`: the contract's `currentHeaderBlock()`, cut to 64 bits by
`Uint64()`, over the child-block interval. An answer that does not unpack reads as 0. -/
def currentHeaderBlock (contractAddress : String) (childBlockInterval : Nat) : Outcome Nat :=
  andThen (tc.callConstant contractAddress "currentHeaderBlock" []) fun data =>
    match tc.rootchainABI.unpackUint "currentHeaderBlock" data with
    | .error _ => .ok (.ok 0)
    | .ok ret0 =>
      if childBlockInterval = 0 then .error .integerDivideByZero
      else .ok (.ok (ret0 % 2 ^ 64 / childBlockInterval))

/-- `GetHeaderInfo`: the contract's `headerBlocks(number * childBlockInterval)`, its
numbers cut to 64 bits. -/
def getHeaderInfo (number : Nat) (contractAddress : String) (childBlockInterval : Nat) :
    Outcome HeaderBlock :=
  andThen (tc.callConstant contractAddress "headerBlocks" [number * childBlockInterval])
    fun data =>
      match tc.rootchainABI.unpackHeaderBlock data with
      | .error err => .ok (.error (.abi err))
      | .ok ret =>
        .ok (.ok { ret with start := ret.start % 2 ^ 64, «end» := ret.«end» % 2 ^ 64,
                            createdAt := ret.createdAt % 2 ^ 64 })

/-- `GetLastChildBlock`: the contract's `getLastChildBlock()`, cut to 64 bits. An answer
that does not unpack reads as 0. -/
def getLastChildBlock (contractAddress : String) : Outcome Nat :=
  andThen (tc.callConstant contractAddress "getLastChildBlock" []) fun data =>
    match tc.rootchainABI.unpackUint "getLastChildBlock" data with
    | .error _ => .ok (.ok 0)
    | .ok ret0 => .ok (.ok (ret0 % 2 ^ 64))

/-- `BroadcastTransaction`: the node's message, hex-encoded. -/
def broadcastTransaction (trx : Transaction) : Outcome String :=
  andThen (rpc (tc.client.broadcastTransaction trx)) fun result =>
    andThen (checkResult result) fun r => .ok (.ok (encodeToString r.message))

end Client

end delivery.tron
