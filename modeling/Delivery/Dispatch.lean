-- The event classifier and dispatch gate of the root-chain listener (rootchain.go,
-- lines 157-235): each known event asks `CalculateTaskDelay` afresh whether to send its
-- task; a log with no topic makes `vLog.Topics[0]` panic.
import Delivery.Watermark

namespace delivery.listener

open delivery.encoding

/-! ## The model of `queryAndBroadcastEvents` -/

/-- A log as `FilterLogs` returns it. -/
structure Log where
  address : Address
  topics : List Bytes
  data : Bytes
  blockNumber : Nat
  deriving DecidableEq

/-- An event of a contract ABI: its name, and its ID, which its logs carry as first topic. -/
structure Event where
  name : String
  id : Bytes
  deriving DecidableEq

/-- A contract ABI, by its events. -/
structure Abi where
  events : List Event

/-- Modelled from the spec: `helper.EventByID` (not in src), the event of `abi` whose ID is
`topic`. The classifier of the spec (4.2) tries the event definitions in order and the
first match wins. -/
def eventByID (abi : Abi) (topic : Bytes) : Option Event :=
  abi.events.find? (·.id == topic)

/-- The filter of line 164: the range and the three contract addresses. -/
structure FilterQuery where
  fromBlock : Nat
  toBlock : Nat
  addresses : List Address

/-- A task signature: its name, its typed string arguments, its retry policy and its ETA. -/
structure Signature where
  name : String
  args : List (String × String)
  retryCount : Nat
  retryTimeout : Nat
  eta : Nat
  deriving DecidableEq

/-- The listener's fields and the answers of its collaborators: the chain client's
`FilterLogs` (`none` on error), `json.Marshal` of a log, the answer of the `n`-th call of
`util.CalculateTaskDelay` in the process, and what `time.Now()` reads when the task of that
call is sent. -/
structure RootChainListener where
  rootChainType : String
  abis : List Abi
  filterLogs : FilterQuery → Option (List Log)
  calculateTaskDelay : Nat → Bool × Nat
  marshalLog : Log → String
  now : Nat → Nat

/-- `sendTaskWithDelay`: three retries three apart, due `delay` after the clock reading
`now`. A `SendTask` error is only logged. -/
def RootChainListener.sendTaskWithDelay (rl : RootChainListener)
    (taskName eventName logBytes : String) (delay now : Nat) : Signature where
  name := taskName
  args := [("string", eventName), ("string", logBytes), ("string", rl.rootChainType)]
  retryCount := 3
  retryTimeout := 3
  eta := now + delay

/-- The switch of lines 186-201: the task of each event that the listener broadcasts. -/
def taskNameOf : String → Option String
  | "NewHeaderBlock" => some "sendCheckpointAckToHeimdall"
  | "StateSynced" => some "sendStateSyncedToHeimdall"
  | "StakeAck" => some "sendStakingAckToHeimdall"
  | _ => none

/-- The body of the inner loop (lines 182-201) for one ABI, where the next
`CalculateTaskDelay` call is the `n`-th: the task sent for the log's event in that ABI, if
the event has a task and the call finds the local validator current, and the index of the
call after it. -/
def RootChainListener.dispatch (rl : RootChainListener) (vLog : Log) (topic : Bytes)
    (n : Nat) (abi : Abi) : List Signature × Nat :=
  match eventByID abi topic with
  | none => ([], n)
  | some event =>
    match taskNameOf event.name with
    | none => ([], n)
    | some taskName =>
      (if (rl.calculateTaskDelay n).1 then
        [rl.sendTaskWithDelay taskName event.name (rl.marshalLog vLog) (rl.calculateTaskDelay n).2
          (rl.now n)]
      else [], n + 1)

/-- The loop over the ABIs (lines 181-202) from the `n`-th `CalculateTaskDelay` call: the
tasks sent, and the index of the next call. -/
def RootChainListener.dispatchAbis (rl : RootChainListener) (vLog : Log) (topic : Bytes)
    (n : Nat) : List Abi → List Signature × Nat
  | [] => ([], n)
  | abi :: abis =>
    let d := rl.dispatch vLog topic n abi
    let r := rl.dispatchAbis vLog topic d.2 abis
    (d.1 ++ r.1, r.2)

/-- What a stretch of the loop leaves: the tasks sent, the panic that ends it, if any, and
the index of the next `CalculateTaskDelay` call. -/
structure Sent where
  tasks : List Signature
  panic : Option GoPanic
  next : Nat
  deriving DecidableEq

/-- The loop of lines 179-204 from the `n`-th `CalculateTaskDelay` call: the tasks sent for
each log in turn, up to the panic of `vLog.Topics[0]` at the first log with no topic. -/
def RootChainListener.broadcastLogs (rl : RootChainListener) (n : Nat) : List Log → Sent
  | [] => ⟨[], none, n⟩
  | vLog :: logs =>
    match vLog.topics with
    | [] => ⟨[], some (.indexOutOfRange 0 0), n⟩
    | topic :: _ =>
      let d := rl.dispatchAbis vLog topic n rl.abis
      let r := rl.broadcastLogs d.2 logs
      ⟨d.1 ++ r.tasks, r.panic, r.next⟩

/-- `queryAndBroadcastEvents` on `[fromBlock, toBlock]` from the `n`-th `CalculateTaskDelay`
call. A `FilterLogs` error ends the cycle with nothing sent. -/
def RootChainListener.queryAndBroadcastEvents (rl : RootChainListener)
    (params : ChainmanagerParams) (fromBlock toBlock n : Nat) : Sent :=
  match rl.filterLogs ⟨fromBlock, toBlock,
      [params.rootChainAddress, params.stakingInfoAddress, params.stateSenderAddress]⟩ with
  | none => ⟨[], none, n⟩
  | some logs => rl.broadcastLogs n logs

/-! ## What the loop sends -/

/-- A log is classified to a task when one of the ABIs has an event with its first topic
as ID, that event has a task, and some `CalculateTaskDelay` call found the local validator
current and gave the task its delay. -/
def RootChainListener.Classifies (rl : RootChainListener) (vLog : Log) (s : Signature) :
    Prop :=
  ∃ topic abi event m, vLog.topics.head? = some topic ∧ abi ∈ rl.abis ∧
    eventByID abi topic = some event ∧ taskNameOf event.name = some s.name ∧
    (rl.calculateTaskDelay m).1 = true ∧
    s = rl.sendTaskWithDelay s.name event.name (rl.marshalLog vLog) (rl.calculateTaskDelay m).2
      (rl.now m)

theorem RootChainListener.mem_dispatch {rl : RootChainListener} {vLog : Log} {topic : Bytes}
    {n : Nat} {abi : Abi} {s : Signature} (h : s ∈ (rl.dispatch vLog topic n abi).1) :
    ∃ event, eventByID abi topic = some event ∧ taskNameOf event.name = some s.name ∧
      (rl.calculateTaskDelay n).1 = true ∧
      s = rl.sendTaskWithDelay s.name event.name (rl.marshalLog vLog) (rl.calculateTaskDelay n).2
        (rl.now n) := by
  unfold dispatch at h
  split at h
  · cases h
  · rename_i event hev
    split at h
    · cases h
    · rename_i taskName htask
      split at h
      · rename_i hcur
        obtain rfl := List.mem_singleton.mp h
        exact ⟨event, hev, htask, hcur, rfl⟩
      · cases h

theorem RootChainListener.mem_dispatchAbis {rl : RootChainListener} {vLog : Log}
    {topic : Bytes} {s : Signature} {abis : List Abi} {n : Nat}
    (h : s ∈ (rl.dispatchAbis vLog topic n abis).1) :
    ∃ abi ∈ abis, ∃ event m, eventByID abi topic = some event ∧
      taskNameOf event.name = some s.name ∧ (rl.calculateTaskDelay m).1 = true ∧
      s = rl.sendTaskWithDelay s.name event.name (rl.marshalLog vLog) (rl.calculateTaskDelay m).2
        (rl.now m) := by
  induction abis generalizing n with
  | nil => cases h
  | cons abi abis ih =>
    rcases List.mem_append.mp h with h | h
    · obtain ⟨event, hev, rest⟩ := rl.mem_dispatch h
      exact ⟨abi, List.mem_cons_self _ _, event, n, hev, rest⟩
    · obtain ⟨abi', habi, rest⟩ := ih h
      exact ⟨abi', List.mem_cons_of_mem _ habi, rest⟩

/-- Every task the loop sends before it ends or panics is one that some log of the list
is classified to. -/
theorem RootChainListener.mem_broadcastLogs {rl : RootChainListener} {logs : List Log}
    {n : Nat} {s : Signature} (hs : s ∈ (rl.broadcastLogs n logs).tasks) :
    ∃ l ∈ logs, rl.Classifies l s := by
  induction logs generalizing n with
  | nil => cases hs
  | cons vLog logs ih =>
    simp only [broadcastLogs] at hs
    split at hs
    · cases hs
    · rename_i topic rest htopics
      rcases List.mem_append.mp hs with hs | hs
      · obtain ⟨abi, habi, event, m, hev, rest⟩ := rl.mem_dispatchAbis hs
        exact ⟨vLog, List.mem_cons_self _ _, topic, abi, event, m, by simp [htopics], habi, hev,
          rest⟩
      · obtain ⟨l, hl, hc⟩ := ih hs
        exact ⟨l, List.mem_cons_of_mem _ hl, hc⟩

/-- Over logs that all carry a topic, the loop runs to its end. -/
theorem RootChainListener.broadcastLogs_panic_of_topics (rl : RootChainListener)
    {logs : List Log} (h : ∀ l ∈ logs, l.topics ≠ []) (n : Nat) :
    (rl.broadcastLogs n logs).panic = none := by
  induction logs generalizing n with
  | nil => rfl
  | cons vLog logs ih =>
    obtain ⟨topic, rest, htopics⟩ := List.exists_cons_of_ne_nil (h vLog (List.mem_cons_self _ _))
    simp only [broadcastLogs, htopics]
    exact ih (fun l hl => h l (List.mem_cons_of_mem _ hl)) _

/-- A log with no topic ends the loop with a panic, after the tasks of the logs before it:
whatever the ABIs, the logs after it are never looked at. -/
theorem RootChainListener.broadcastLogs_panics (rl : RootChainListener) (n : Nat)
    (pre post : List Log) (vLog : Log) (hpre : ∀ l ∈ pre, l.topics ≠ [])
    (hv : vLog.topics = []) :
    (rl.broadcastLogs n (pre ++ vLog :: post)).panic = some (.indexOutOfRange 0 0) := by
  induction pre generalizing n with
  | nil => simp [broadcastLogs, hv]
  | cons l pre ih =>
    obtain ⟨topic, rest, htopics⟩ := List.exists_cons_of_ne_nil (hpre l (List.mem_cons_self _ _))
    simp only [List.cons_append, broadcastLogs, htopics]
    exact ih _ fun l' hl' => hpre l' (List.mem_cons_of_mem _ hl')

/-- Parameters with a confirmation depth of 3. -/
def depthThree : ChainmanagerParams := ⟨3, zeroAddress, zeroAddress, zeroAddress⟩

/-- A `StateSynced` log of block 102. -/
def stateSyncedLog : Log := ⟨zeroAddress, [[2]], [], 102⟩

/-- A log of block 102 whose event no ABI knows. -/
def unknownLog : Log := ⟨zeroAddress, [[9]], [], 102⟩

/-- The listener of the end-to-end scenario of the spec (8): its ABIs know `NewHeaderBlock`
and `StateSynced`, block 102 holds the two logs above, and the local validator is the
first of its set, so every `CalculateTaskDelay` call finds it current with delay 0. -/
def stateSyncListener : RootChainListener where
  rootChainType := "eth"
  abis := [⟨[⟨"NewHeaderBlock", [1]⟩]⟩, ⟨[⟨"StateSynced", [2]⟩]⟩]
  filterLogs q := some (if q.fromBlock ≤ 102 ∧ 102 ≤ q.toBlock then [stateSyncedLog, unknownLog] else [])
  calculateTaskDelay _ := (true, 0)
  marshalLog _ := "log"
  now _ := 1000

theorem broadcastLogs_panics_after_state_synced :
    (∀ l ∈ [stateSyncedLog], l.topics ≠ []) ∧ (⟨zeroAddress, [], [], 102⟩ : Log).topics = [] ∧
      (stateSyncListener.broadcastLogs 0
        [stateSyncedLog, ⟨zeroAddress, [], [], 102⟩, unknownLog]).panic =
        some (.indexOutOfRange 0 0) :=
  ⟨by decide, rfl, stateSyncListener.broadcastLogs_panics 0 [stateSyncedLog] [unknownLog] _
    (by decide) rfl⟩

/-! ## A whole cycle -/

/-- `FilterLogs` answers with logs of the blocks it was asked for. -/
def RootChainListener.FiltersSoundly (rl : RootChainListener) : Prop :=
  ∀ q logs, rl.filterLogs q = some logs →
    ∀ l ∈ logs, q.fromBlock ≤ l.blockNumber ∧ l.blockNumber ≤ q.toBlock

/-- `ProcessHeader` with its call of `queryAndBroadcastEvents` (line 154), where the next
`CalculateTaskDelay` call is the `n`-th: the value stored, and what the broadcast sent. -/
def RootChainListener.processHeaderCycle (rl : RootChainListener)
    (params : Option ChainmanagerParams) (faults : StorageFaults) (number : Nat)
    (stored : Option (List Char)) (n : Nat) : Option (List Char) × Sent :=
  let o := processHeader params faults number stored
  match params, o.query with
  | some p, some (fromBlock, toBlock) => (o.lastBlock, rl.queryAndBroadcastEvents p fromBlock toBlock n)
  | _, _ => (o.lastBlock, ⟨[], none, n⟩)

/-- Only confirmed events are broadcast: whatever the storage calls and the
`CalculateTaskDelay` calls answer, when `FilterLogs` answers with logs of the blocks asked
for, every task a cycle sends is classified from a log of a block at least `k` blocks below
the head. -/
theorem RootChainListener.processHeaderCycle_confirmed (rl : RootChainListener)
    (p : ChainmanagerParams) (faults : StorageFaults) (number : Nat)
    (stored : Option (List Char)) (n : Nat) (hsound : rl.FiltersSoundly) :
    ∀ s ∈ (rl.processHeaderCycle (some p) faults number stored n).2.tasks,
      ∃ l, rl.Classifies l s ∧ l.blockNumber + p.mainchainTxConfirmations ≤ number := by
  intro s hs
  rcases hq : (processHeader (some p) faults number stored).query with _ | ⟨fromBlock, toBlock⟩
  · simp [processHeaderCycle, hq] at hs
  · obtain ⟨hk, rfl, -⟩ := processHeader_query_confirmed p faults number stored hq
    simp only [processHeaderCycle, hq, queryAndBroadcastEvents] at hs
    split at hs
    · cases hs
    · rename_i logs hlogs
      obtain ⟨l, hl, hc⟩ := rl.mem_broadcastLogs hs
      have hblock := (hsound _ logs hlogs l hl).2
      exact ⟨l, hc, by simp only at hblock; omega⟩

theorem RootChainListener.processHeaderCycle_confirmed_end_to_end :
    stateSyncListener.FiltersSoundly ∧
      (stateSyncListener.processHeaderCycle (some depthThree) noFaults 105 none 0).2.tasks =
        [stateSyncListener.sendTaskWithDelay "sendStateSyncedToHeimdall" "StateSynced" "log" 0
          1000] ∧
      ∀ s ∈ (stateSyncListener.processHeaderCycle (some depthThree) noFaults 105 none 0).2.tasks,
        ∃ l, stateSyncListener.Classifies l s ∧ l.blockNumber + 3 ≤ 105 := by
  have hsound : stateSyncListener.FiltersSoundly := by
    intro q logs hq l hl
    simp only [stateSyncListener, Option.some.injEq] at hq
    subst hq
    split at hl
    · rename_i hq
      simp only [List.mem_cons, List.not_mem_nil, or_false] at hl
      rcases hl with rfl | rfl <;> exact hq
    · cases hl
  exact ⟨hsound, by decide,
    stateSyncListener.processHeaderCycle_confirmed depthThree noFaults 105 none 0 hsound⟩

/-- A listener whose `FilterLogs` returns one anonymous log, a log with no topic. -/
def anonymousLogListener : RootChainListener where
  rootChainType := "eth"
  abis := []
  filterLogs _ := some [⟨zeroAddress, [], [], 102⟩]
  calculateTaskDelay _ := (true, 0)
  marshalLog _ := ""
  now _ := 0

/-- On one anonymous log, `vLog.Topics[0]` indexes an empty topic list: the cycle panics. -/
theorem queryAndBroadcastEvents_anonymous_log_panics :
    anonymousLogListener.queryAndBroadcastEvents depthTen 102 102 0 =
      ⟨[], some (.indexOutOfRange 0 0), 0⟩ := by
  decide

end delivery.listener
