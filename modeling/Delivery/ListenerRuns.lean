-- Runs of the root-chain listener: `ProcessHeader` with its broadcasts on each head in
-- turn, until a panic ends the process. A range whose `FilterLogs` call fails is never
-- retried (spec 4.5); from a node that answers exactly, each scanned log is sent once.
import Delivery.WatermarkRuns
import Delivery.Dispatch
import Mathlib.Data.List.Pairwise

namespace delivery.listener

open delivery.encoding

/-! ## Runs of the listener -/

/-- `ProcessHeader` with its broadcasts on each head in turn, from the stored value
`stored` and the `n`-th `CalculateTaskDelay` call, until a panic ends the process: the value
stored, and what the run sent. -/
def RootChainListener.processHeaderCycles (rl : RootChainListener)
    (stored : Option (List Char)) (n : Nat) : List HeaderCall → Option (List Char) × Sent
  | [] => (stored, ⟨[], none, n⟩)
  | c :: cs =>
    let o := rl.processHeaderCycle c.params c.faults c.number stored n
    match o.2.panic with
    | some _ => o
    | none =>
      let r := rl.processHeaderCycles o.1 o.2.next cs
      (r.1, ⟨o.2.tasks ++ r.2.tasks, r.2.panic, r.2.next⟩)

theorem RootChainListener.processHeaderCycle_fst (rl : RootChainListener)
    (params : Option ChainmanagerParams) (faults : StorageFaults) (number : Nat)
    (stored : Option (List Char)) (n : Nat) :
    (rl.processHeaderCycle params faults number stored n).1 =
      (processHeader params faults number stored).lastBlock := by
  simp only [processHeaderCycle]
  split <;> rfl

/-- A task of one cycle comes from a log that `FilterLogs` returned for the range the
cycle requested. -/
theorem RootChainListener.mem_processHeaderCycle {rl : RootChainListener}
    {params : Option ChainmanagerParams} {faults : StorageFaults} {number : Nat}
    {stored : Option (List Char)} {n : Nat} {s : Signature}
    (hs : s ∈ (rl.processHeaderCycle params faults number stored n).2.tasks) :
    ∃ r, (processHeader params faults number stored).query = some r ∧
      ∃ addrs logs, rl.filterLogs ⟨r.1, r.2, addrs⟩ = some logs ∧
        ∃ l ∈ logs, rl.Classifies l s := by
  rcases hq : (processHeader params faults number stored).query with _ | ⟨fromBlock, toBlock⟩
  · simp [processHeaderCycle, hq] at hs
  · cases params with
    | none => simp [processHeaderCycle, hq] at hs
    | some p =>
      simp only [processHeaderCycle, hq, queryAndBroadcastEvents] at hs
      split at hs
      · cases hs
      · rename_i logs hlogs
        exact ⟨(fromBlock, toBlock), rfl, _, logs, hlogs, rl.mem_broadcastLogs hs⟩

/-- The run lemma: every task a run sends comes from a log that `FilterLogs` returned for
one of the ranges the run requested. -/
theorem RootChainListener.mem_processHeaderCycles {rl : RootChainListener}
    {stored : Option (List Char)} {n : Nat} {calls : List HeaderCall} {s : Signature}
    (hs : s ∈ (rl.processHeaderCycles stored n calls).2.tasks) :
    ∃ r ∈ (processHeaders stored calls).2,
      ∃ addrs logs, rl.filterLogs ⟨r.1, r.2, addrs⟩ = some logs ∧
        ∃ l ∈ logs, rl.Classifies l s := by
  induction calls generalizing stored n with
  | nil => cases hs
  | cons c cs ih =>
    -- a task of the first cycle, from the range it requested
    have hfirst : s ∈ (rl.processHeaderCycle c.params c.faults c.number stored n).2.tasks →
        ∃ r ∈ (processHeaders stored (c :: cs)).2, ∃ addrs logs,
          rl.filterLogs ⟨r.1, r.2, addrs⟩ = some logs ∧ ∃ l ∈ logs, rl.Classifies l s := by
      intro hs
      obtain ⟨r, hq, rest⟩ := rl.mem_processHeaderCycle hs
      exact ⟨r, by simp [processHeaders, hq], rest⟩
    simp only [processHeaderCycles] at hs
    split at hs
    · exact hfirst hs
    · rcases List.mem_append.mp hs with hs | hs
      · exact hfirst hs
      · obtain ⟨r, hr, rest⟩ := ih hs
        rw [processHeaderCycle_fst] at hr
        exact ⟨r, by simp [processHeaders, hr], rest⟩

/-- A range whose `FilterLogs` call fails loses its events for good. For every run from a
stored `uint64` watermark, with heads below `2^64` and the storage calls answered, and
every listener whose `FilterLogs` answers with logs of the blocks asked for, whatever its
`CalculateTaskDelay` calls answer: if the run requests a range `r` on which `FilterLogs`
fails, every task the run sends comes from a log of a block outside `r`. -/
theorem RootChainListener.processHeaderCycles_failed_range_lost (rl : RootChainListener)
    (w : Option Nat) (calls : List HeaderCall) (hw : ∀ x ∈ w, x < 2 ^ 64)
    (hcalls : ∀ c ∈ calls, c.number < 2 ^ 64 ∧ c.faults = noFaults)
    (hsound : rl.FiltersSoundly)
    (r : Nat × Nat) (hr : r ∈ (processHeaders (w.map formatUint) calls).2)
    (hfail : ∀ addrs, rl.filterLogs ⟨r.1, r.2, addrs⟩ = none) (n : Nat) :
    ∀ s ∈ (rl.processHeaderCycles (w.map formatUint) n calls).2.tasks,
      ∃ l, rl.Classifies l s ∧ ¬(r.1 ≤ l.blockNumber ∧ l.blockNumber ≤ r.2) := by
  intro s hs
  obtain ⟨r', hr', addrs, logs, hlogs, l, hl, hc⟩ := rl.mem_processHeaderCycles hs
  refine ⟨l, hc, fun hin => ?_⟩
  have hne : r' ≠ r := by
    rintro rfl
    rw [hfail] at hlogs
    cases hlogs
  have hb := hsound _ logs hlogs l hl
  -- the requested ranges have disjoint blocks, and `l`'s block is in `r'`
  obtain ⟨W, -, -, hscan, -⟩ := processHeaders_scanned w calls hw hcalls
  have hdisj := (List.nodup_flatMap.mp hscan.nodup).2.forall
    (fun _ _ h => List.disjoint_comm.mp h) hr' hr hne
  exact hdisj (List.mem_range'_1.mpr ⟨hb.1, by simp only at hb; omega⟩)
    (List.mem_range'_1.mpr ⟨hin.1, by omega⟩)

/-- A listener whose `FilterLogs` fails on ranges from block 41, and otherwise returns a
`StateSynced` log of block 100 when the range holds it. -/
def flakyListener : RootChainListener :=
  { stateSyncListener with
    filterLogs := fun q =>
      if q.fromBlock = 41 then none
      else some (if q.fromBlock ≤ 100 ∧ 100 ≤ q.toBlock then [⟨zeroAddress, [[2]], [], 100⟩]
        else []) }

/-- From the watermark 40, the heads of `headsAt105` request `[41, 95]` and `[96, 110]`;
`FilterLogs` fails on the first, and no task comes from its blocks. -/
theorem RootChainListener.processHeaderCycles_failed_range_lost_at_105 :
    (∀ x ∈ (some 40 : Option Nat), x < 2 ^ 64) ∧
      (∀ c ∈ headsAt105, c.number < 2 ^ 64 ∧ c.faults = noFaults) ∧
      flakyListener.FiltersSoundly ∧
      (41, 95) ∈ (processHeaders ((some 40).map formatUint) headsAt105).2 ∧
      (∀ addrs, flakyListener.filterLogs ⟨41, 95, addrs⟩ = none) ∧
      ∀ s ∈ (flakyListener.processHeaderCycles ((some 40).map formatUint) 0 headsAt105).2.tasks,
        ∃ l, flakyListener.Classifies l s ∧ ¬(41 ≤ l.blockNumber ∧ l.blockNumber ≤ 95) := by
  have hw : ∀ x ∈ (some 40 : Option Nat), x < 2 ^ 64 := by simp
  have hcalls : ∀ c ∈ headsAt105, c.number < 2 ^ 64 ∧ c.faults = noFaults := by
    simp [headsAt105]
  have hsound : flakyListener.FiltersSoundly := by
    intro q logs hq l hl
    simp only [flakyListener] at hq
    split at hq
    · cases hq
    · cases hq
      split at hl
      · rename_i hin
        simp only [List.mem_singleton] at hl
        subst hl
        exact hin
      · cases hl
  have hr : (41, 95) ∈ (processHeaders ((some 40).map formatUint) headsAt105).2 := by decide
  have hfail : ∀ addrs, flakyListener.filterLogs ⟨41, 95, addrs⟩ = none := fun _ => rfl
  exact ⟨hw, hcalls, hsound, hr, hfail,
    flakyListener.processHeaderCycles_failed_range_lost (some 40) headsAt105 hw hcalls hsound
      (41, 95) hr hfail 0⟩

/-! ## Delivery from a node that answers exactly -/

/-- The log lies in the blocks `[r.1, r.2]`. -/
def inRange (r : Nat × Nat) (l : Log) : Bool := decide (r.1 ≤ l.blockNumber ∧ l.blockNumber ≤ r.2)

/-- `FilterLogs` of a node that holds the logs `chain` of the watched contracts, in order,
and answers every query with those of the blocks asked for. -/
def RootChainListener.FiltersExactly (rl : RootChainListener) (chain : List Log) : Prop :=
  ∀ q : FilterQuery, rl.filterLogs q = some (chain.filter (inRange (q.fromBlock, q.toBlock)))

/-- Broadcasting two lists of logs, the first with topics, is broadcasting the first and then
the second from the `CalculateTaskDelay` call where the first stopped. -/
theorem RootChainListener.broadcastLogs_append (rl : RootChainListener) {pre : List Log}
    (post : List Log) (h : ∀ l ∈ pre, l.topics ≠ []) (n : Nat) :
    rl.broadcastLogs n (pre ++ post) =
      let a := rl.broadcastLogs n pre
      let b := rl.broadcastLogs a.next post
      ⟨a.tasks ++ b.tasks, b.panic, b.next⟩ := by
  induction pre generalizing n with
  | nil => rfl
  | cons vLog pre ih =>
    obtain ⟨topic, rest, htopics⟩ := List.exists_cons_of_ne_nil (h vLog (List.mem_cons_self _ _))
    simp only [List.cons_append, broadcastLogs, htopics, List.append_eq,
      ih (fun l hl => h l (List.mem_cons_of_mem _ hl)), List.append_assoc]

/-- The logs a node holding `chain` returns for the ranges `rs` are logs of `chain`. -/
theorem mem_of_mem_flatMap_filter {chain : List Log} {rs : List (Nat × Nat)} {l : Log}
    (h : l ∈ rs.flatMap fun r => chain.filter (inRange r)) : l ∈ chain := by
  obtain ⟨r, -, hl⟩ := List.mem_flatMap.mp h
  exact List.mem_of_mem_filter hl

/-- The step lemma: on a node that answers exactly, whatever the storage calls do, a cycle
broadcasts the node's logs in the range it requests. -/
theorem RootChainListener.processHeaderCycle_exact {rl : RootChainListener} {chain : List Log}
    (hexact : rl.FiltersExactly chain) (params : Option ChainmanagerParams)
    (faults : StorageFaults) (number : Nat) (stored : Option (List Char)) (n : Nat) :
    rl.processHeaderCycle params faults number stored n =
      ((processHeader params faults number stored).lastBlock,
        rl.broadcastLogs n ((processHeader params faults number stored).query.toList.flatMap
          fun r => chain.filter (inRange r))) := by
  rcases hq : (processHeader params faults number stored).query with _ | ⟨fromBlock, toBlock⟩
  · simp [processHeaderCycle, hq, broadcastLogs]
  · cases params with
    | none => simp [processHeader] at hq
    | some p =>
      simp only [processHeaderCycle, hq, queryAndBroadcastEvents, hexact _, Option.toList_some,
        List.flatMap_cons, List.flatMap_nil, List.append_nil]

/-- The run lemma: on a node that answers exactly with logs that carry a topic, a run
broadcasts the node's logs in the ranges it requests, range after range, from the
`CalculateTaskDelay` call it starts at. -/
theorem RootChainListener.processHeaderCycles_exact {rl : RootChainListener} {chain : List Log}
    (hexact : rl.FiltersExactly chain) (htopics : ∀ l ∈ chain, l.topics ≠ [])
    (stored : Option (List Char)) (n : Nat) (calls : List HeaderCall) :
    rl.processHeaderCycles stored n calls =
      ((processHeaders stored calls).1,
        rl.broadcastLogs n ((processHeaders stored calls).2.flatMap fun r =>
          chain.filter (inRange r))) := by
  have hcut : ∀ rs : List (Nat × Nat), ∀ l ∈ rs.flatMap (fun r => chain.filter (inRange r)),
      l.topics ≠ [] := fun _ l hl => htopics l (mem_of_mem_flatMap_filter hl)
  induction calls generalizing stored n with
  | nil => rfl
  | cons c cs ih =>
    simp only [processHeaderCycles, rl.processHeaderCycle_exact hexact,
      rl.broadcastLogs_panic_of_topics (hcut _), ih, processHeaders, List.flatMap_append,
      rl.broadcastLogs_append _ (hcut _)]

/-- Logs cut from `chain` by ranges of disjoint blocks: each log of a block in one of the
ranges, as often as `chain` holds it, and no other. -/
theorem count_flatMap_filter_inRange (chain : List Log) (l : Log) {rs : List (Nat × Nat)}
    (hnodup : (requestedBlocks rs).Nodup) (hle : ∀ r ∈ rs, r.1 ≤ r.2) :
    (rs.flatMap fun r => chain.filter (inRange r)).count l =
      if l.blockNumber ∈ requestedBlocks rs then chain.count l else 0 := by
  induction rs with
  | nil => rfl
  | cons r rs ih =>
    simp only [requestedBlocks, List.flatMap_cons, List.nodup_append] at hnodup
    have hmem : l.blockNumber ∈ List.range' r.1 (r.2 + 1 - r.1) ↔ inRange r l := by
      simp only [List.mem_range'_1, inRange, decide_eq_true_eq]
      have := hle r (List.mem_cons_self _ _)
      omega
    have hrest := ih hnodup.2.1 fun r' hr' => hle r' (List.mem_cons_of_mem _ hr')
    simp only [requestedBlocks] at hrest
    simp only [List.flatMap_cons, List.count_append, hrest, requestedBlocks, List.mem_append, hmem]
    by_cases hr : inRange r l
    · -- the block is in `r`, so in no later range
      have hnot : l.blockNumber ∉ (rs.flatMap fun r => List.range' r.1 (r.2 + 1 - r.1)) :=
        hnodup.2.2 (hmem.mpr hr)
      simp [List.count_filter hr, hnot, hr]
    · rw [List.count_eq_zero_of_not_mem fun h' => hr (List.of_mem_filter h'), Nat.zero_add]
      simp only [hr, Bool.false_eq_true, false_or]

/-- Exactly-once delivery. For a node that holds the logs `chain` of the watched contracts,
each with a topic, and answers every `FilterLogs` with those of the blocks asked for: from
every stored `uint64` watermark and every `CalculateTaskDelay` call, along every sequence of
heads below `2^64` with the storage calls answered, the run scans the blocks `Scanned` says,
and is the dispatch loop run to its end, without a panic, over a list of logs that holds each
log of a scanned block as often as the node does, and no other log. -/
theorem RootChainListener.processHeaderCycles_delivers_exactly_once (rl : RootChainListener)
    (chain : List Log) (w : Option Nat) (n : Nat) (calls : List HeaderCall)
    (hw : ∀ x ∈ w, x < 2 ^ 64) (hcalls : ∀ c ∈ calls, c.number < 2 ^ 64 ∧ c.faults = noFaults)
    (hexact : rl.FiltersExactly chain) (htopics : ∀ l ∈ chain, l.topics ≠ []) :
    ∃ (W : Option Nat) (logs : List Log), Scanned w W (processHeaders (w.map formatUint) calls).2 ∧
      rl.processHeaderCycles (w.map formatUint) n calls = (W.map formatUint, rl.broadcastLogs n logs) ∧
      (rl.broadcastLogs n logs).panic = none ∧
      ∀ l, logs.count l =
        if l.blockNumber ∈ requestedBlocks (processHeaders (w.map formatUint) calls).2
        then chain.count l else 0 := by
  obtain ⟨W, -, hend, hscan, hle⟩ := processHeaders_scanned w calls hw hcalls
  refine ⟨W, _, hscan, ?_, rl.broadcastLogs_panic_of_topics
    (fun l hl => htopics l (mem_of_mem_flatMap_filter hl)) n,
    fun l => count_flatMap_filter_inRange chain l hscan.nodup hle⟩
  rw [rl.processHeaderCycles_exact hexact htopics, hend]

/-- A node holding `StateSynced` logs at blocks 50 and 100, and a log of an event no ABI
knows at block 60. -/
def nodeLogs : List Log :=
  [⟨zeroAddress, [[2]], [], 50⟩, ⟨zeroAddress, [[9]], [], 60⟩, ⟨zeroAddress, [[2]], [], 100⟩]

/-- `stateSyncListener` on a node that holds `nodeLogs` and answers exactly. -/
def exactListener : RootChainListener :=
  { stateSyncListener with
    filterLogs := fun q => some (nodeLogs.filter (inRange (q.fromBlock, q.toBlock))) }

/-- From the watermark 40, the heads of `headsAt105` scan `[41, 110]`: the two `StateSynced`
logs are sent once each. -/
theorem RootChainListener.processHeaderCycles_delivers_exactly_once_at_105 :
    (∀ x ∈ (some 40 : Option Nat), x < 2 ^ 64) ∧
      (∀ c ∈ headsAt105, c.number < 2 ^ 64 ∧ c.faults = noFaults) ∧
      exactListener.FiltersExactly nodeLogs ∧ (∀ l ∈ nodeLogs, l.topics ≠ []) ∧
      (exactListener.processHeaderCycles ((some 40).map formatUint) 0 headsAt105).2.tasks.length = 2 ∧
      ∃ (W : Option Nat) (logs : List Log),
        Scanned (some 40) W (processHeaders ((some 40).map formatUint) headsAt105).2 ∧
        exactListener.processHeaderCycles ((some 40).map formatUint) 0 headsAt105 =
          (W.map formatUint, exactListener.broadcastLogs 0 logs) ∧
        (exactListener.broadcastLogs 0 logs).panic = none ∧
        ∀ l, logs.count l =
          if l.blockNumber ∈ requestedBlocks (processHeaders ((some 40).map formatUint) headsAt105).2
          then nodeLogs.count l else 0 := by
  have hw : ∀ x ∈ (some 40 : Option Nat), x < 2 ^ 64 := by simp
  have hcalls : ∀ c ∈ headsAt105, c.number < 2 ^ 64 ∧ c.faults = noFaults := by
    simp [headsAt105]
  have hexact : exactListener.FiltersExactly nodeLogs := fun _ => rfl
  have htopics : ∀ l ∈ nodeLogs, l.topics ≠ [] := by decide
  exact ⟨hw, hcalls, hexact, htopics, by decide,
    exactListener.processHeaderCycles_delivers_exactly_once nodeLogs (some 40) 0 headsAt105 hw
      hcalls hexact htopics⟩

end delivery.listener
