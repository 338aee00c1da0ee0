-- The confirmation tracker of the root-chain listener (rootchain.go, lines 98-155): with
-- its storage calls answered, one `ProcessHeader` changes nothing, or moves the watermark up
-- to the confirmed head and asks for the blocks just above the old watermark.
import Delivery.Encoding

namespace delivery.listener

open delivery.encoding

/-! ## The model of `ProcessHeader` -/

/-- The chain-manager parameters that the listener reads: the confirmation depth, a
`uint64`, and the contract addresses that the log query filters on. -/
structure ChainmanagerParams where
  mainchainTxConfirmations : Nat
  rootChainAddress : Address
  stakingInfoAddress : Address
  stateSenderAddress : Address
  deriving DecidableEq

/-- Which of the three bridge-storage calls of one `ProcessHeader` fail. A failed `Has`
answers `false` with its error, Go's zero value. -/
structure StorageFaults where
  has : Bool
  get : Bool
  put : Bool
  deriving DecidableEq

/-- Every storage call succeeds. -/
def noFaults : StorageFaults := ⟨false, false, false⟩

/-- What one call of `ProcessHeader` leaves: the value under `lastRootBlockKey`
("rootchain-last-block"), and the range `[fromBlock, toBlock]` that it passes to
`queryAndBroadcastEvents`, if it gets that far. -/
structure HeaderOutcome where
  lastBlock : Option (List Char)
  query : Option (Nat × Nat)
  deriving DecidableEq

/-- Lines 118-139: the block the scan starts at, before the check of line 144, or `none`
where the call returns. `latest` is `newHeader.Number` after the `Sub` of line 116:
`latestNumber`, `fromBlock` and `newHeader.Number` are one `big.Int`, so line 131
compares the stored block with `latest`; `Uint64()` keeps the low 64 bits, and
`result + 1` is a `uint64` sum. -/
def startBlock (faults : StorageFaults) (stored : Option (List Char)) (latest : Nat) :
    Option Nat :=
  match faults.has, stored with
  | false, some bytes =>
    if faults.get then none
    else
      match parseUint bytes with
      | some result =>
        if result ≥ latest % 2 ^ 64 then none
        else if (result + 1) % 2 ^ 64 < latest % 2 ^ 64 then some ((result + 1) % 2 ^ 64)
        else some latest
      | none => some latest
  | _, _ => some latest

/-- `ProcessHeader` for a head numbered `number`, with the parameters that
`getRootChainContext` fetched (`none` when it failed). The `Put` error is only logged. -/
def processHeader (params : Option ChainmanagerParams) (faults : StorageFaults)
    (number : Nat) (stored : Option (List Char)) : HeaderOutcome :=
  match params with
  | none => ⟨stored, none⟩
  | some p =>
    if number ≤ p.mainchainTxConfirmations then ⟨stored, none⟩
    else
      let latest := number - p.mainchainTxConfirmations
      match startBlock faults stored latest with
      | none => ⟨stored, none⟩
      | some fromBlock =>
        ⟨if faults.put then stored else some (formatUint latest),
          some (if latest < fromBlock then latest else fromBlock, latest)⟩

/-! ## One call on a stored watermark -/

/-- Where the scan of the confirmed head `latest` starts: just above the watermark, or at
`latest` itself when none is stored. -/
def scanFrom (w : Option Nat) (latest : Nat) : Nat := w.elim latest (· + 1)

/-- The stored watermark is behind the confirmed head `latest`. -/
def Behind (w : Option Nat) (latest : Nat) : Prop := ∀ x ∈ w, x < latest

instance (w : Option Nat) (latest : Nat) : Decidable (Behind w latest) :=
  inferInstanceAs (Decidable (∀ x ∈ w, x < latest))

theorem scanFrom_le {w : Option Nat} {latest : Nat} (h : Behind w latest) :
    scanFrom w latest ≤ latest := by
  cases w with
  | none => exact Nat.le_refl _
  | some x => exact h x rfl

/-- With its storage calls answered, lines 118-139 on a stored `uint64` watermark: the
scan starts just above it, with no wrap of `result + 1`, when it is behind `latest`. -/
theorem startBlock_watermark (w : Option Nat) (latest : Nat) (hw : ∀ x ∈ w, x < 2 ^ 64)
    (hl : latest < 2 ^ 64) :
    startBlock noFaults (w.map formatUint) latest =
      if Behind w latest then some (scanFrom w latest) else none := by
  cases w with
  | none => simp [startBlock, noFaults, scanFrom, Behind]
  | some x =>
    have hx := hw x rfl
    simp only [startBlock, noFaults, Option.map_some', parseUint_formatUint x hx,
      Nat.mod_eq_of_lt hl, Behind, Option.mem_def, Option.some.injEq, forall_eq', scanFrom,
      Option.elim, if_false]
    by_cases hlt : x < latest
    · rw [Nat.mod_eq_of_lt (by omega : x + 1 < 2 ^ 64)]
      by_cases hs : x + 1 < latest
      · simp [hlt, hs]
      · simp [hlt, hs, show latest = x + 1 by omega]
    · simp [hlt, Nat.le_of_not_lt hlt]

/-- The spec of one call with its storage calls answered, on a stored `uint64`
watermark `w`: it scans `[scanFrom w latest, latest]` and stores `latest` exactly when
the head is past the confirmation depth and `w` is behind `latest`, and else changes
nothing. -/
theorem processHeader_watermark (p : ChainmanagerParams) (number : Nat) (w : Option Nat)
    (hnumber : number < 2 ^ 64) (hw : ∀ x ∈ w, x < 2 ^ 64) :
    processHeader (some p) noFaults number (w.map formatUint) =
      if p.mainchainTxConfirmations < number ∧ Behind w (number - p.mainchainTxConfirmations)
      then ⟨some (formatUint (number - p.mainchainTxConfirmations)),
        some (scanFrom w (number - p.mainchainTxConfirmations),
          number - p.mainchainTxConfirmations)⟩
      else ⟨w.map formatUint, none⟩ := by
  simp only [processHeader]
  by_cases hk : number ≤ p.mainchainTxConfirmations
  · simp [hk, Nat.not_lt.mpr hk]
  · rw [if_neg hk, startBlock_watermark w _ hw (by omega)]
    by_cases hb : Behind w (number - p.mainchainTxConfirmations)
    · have hle := scanFrom_le hb
      simp [hb, Nat.lt_of_not_le hk, noFaults, Nat.not_lt.mpr hle]
    · simp [hb]

/-- For every head below `2^64`, every confirmation depth and every stored watermark, with
the storage calls answered: logs are requested exactly when the head is past the depth
and the watermark is behind the confirmed head; then the confirmed head is stored and
the range is `[w + 1, h - k]`, or `[h - k, h - k]` with no watermark. The start of line
134 is that range's start, with no wrap, so the collapse of line 144 is never taken. -/
theorem processHeader_requests_confirmed_range (p : ChainmanagerParams) (number : Nat)
    (w : Option Nat) (hnumber : number < 2 ^ 64) (hw : ∀ x ∈ w, x < 2 ^ 64) :
    processHeader (some p) noFaults number (w.map formatUint) =
      (if p.mainchainTxConfirmations < number ∧ Behind w (number - p.mainchainTxConfirmations)
      then ⟨some (formatUint (number - p.mainchainTxConfirmations)),
        some (scanFrom w (number - p.mainchainTxConfirmations),
          number - p.mainchainTxConfirmations)⟩
      else ⟨w.map formatUint, none⟩) ∧
    (Behind w (number - p.mainchainTxConfirmations) →
      startBlock noFaults (w.map formatUint) (number - p.mainchainTxConfirmations) =
        some (scanFrom w (number - p.mainchainTxConfirmations)) ∧
      scanFrom w (number - p.mainchainTxConfirmations) ≤ number - p.mainchainTxConfirmations) :=
  ⟨processHeader_watermark p number w hnumber hw, fun hb =>
    ⟨by rw [startBlock_watermark w _ hw (by omega), if_pos hb], scanFrom_le hb⟩⟩

/-- Whatever the storage calls do, a range that a call requests ends at the confirmed head
`number - k`, with the head past the depth, and starts at or below it. -/
theorem processHeader_query_confirmed (p : ChainmanagerParams) (faults : StorageFaults)
    (number : Nat) (stored : Option (List Char)) {fromBlock toBlock : Nat}
    (h : (processHeader (some p) faults number stored).query = some (fromBlock, toBlock)) :
    p.mainchainTxConfirmations < number ∧ toBlock = number - p.mainchainTxConfirmations ∧
      fromBlock ≤ toBlock := by
  simp only [processHeader] at h
  split at h
  · cases h
  · split at h
    · cases h
    · rename_i hk _ _
      simp only [Option.some.injEq, Prod.mk.injEq] at h
      obtain ⟨rfl, rfl⟩ := h
      refine ⟨by omega, rfl, ?_⟩
      split <;> omega

/-- Parameters with a confirmation depth of 10. -/
def depthTen : ChainmanagerParams := ⟨10, zeroAddress, zeroAddress, zeroAddress⟩

theorem processHeader_requests_confirmed_range_at_105 :
    (105 : Nat) < 2 ^ 64 ∧ (∀ x ∈ (some 40 : Option Nat), x < 2 ^ 64) ∧
      processHeader (some depthTen) noFaults 105 (some (formatUint 40)) =
        ⟨some (formatUint 95), some (41, 95)⟩ :=
  ⟨by norm_num, by simp, by
    simpa [depthTen, scanFrom, Behind] using
      (processHeader_requests_confirmed_range depthTen 105 (some 40) (by norm_num) (by simp)).1⟩

/-! ## Failed storage calls -/

/-- A failed `Put` of the watermark (line 149) is only logged: the call requests the range
it would have requested, and the stored value stays as it was. -/
theorem processHeader_put_failure (params : Option ChainmanagerParams) (number : Nat)
    (stored : Option (List Char)) :
    processHeader params ⟨false, false, true⟩ number stored =
      ⟨stored, (processHeader params noFaults number stored).query⟩ := by
  have hstart : ∀ latest, startBlock ⟨false, false, true⟩ stored latest =
      startBlock noFaults stored latest := fun _ => rfl
  cases params with
  | none => rfl
  | some p =>
    simp only [processHeader, hstart]
    split
    · rfl
    · split <;> rfl

/-- A failed `Has` reads as "no watermark": with 200 stored, the head 110 at depth 10
stores 100 and scans `[100, 100]`, blocks that were scanned before. -/
theorem processHeader_has_failure_rewinds :
    processHeader (some depthTen) ⟨true, false, false⟩ 110 (some (formatUint 200)) =
      ⟨some (formatUint 100), some (100, 100)⟩ := by
  decide

end delivery.listener
