-- The weighted round-robin of the validator set (its rotation follows the spec, as
-- `types.ValidatorSet` is outside `src/`) and the keeper calls on it: from zero accumulators,
-- every window of `W` rotations, `W` the total power, is fair.
import Delivery.Store
import Mathlib.Data.List.MinMax
import Mathlib.Algebra.Order.BigOperators.Group.List
import Mathlib.Tactic.Linarith
import Mathlib.Tactic.Ring

namespace delivery.staking

open delivery.encoding

/-! ## Rotation of the validator set, modelled from the spec -/

/-- The accumulator of the member at `i`, 0 past the end. -/
def accumAt (ms : List SetMember) (i : Nat) : Int := (ms.map SetMember.accum).getD i 0

/-- The power of the member at `i`, 0 past the end. -/
def powerAt (ms : List SetMember) (i : Nat) : Int := (ms.map (·.validator.power)).getD i 0

/-- The accumulators of the set, in order. -/
def ValidatorSet.accums (vs : ValidatorSet) : List Int := vs.validators.map SetMember.accum

/-- The powers of the set, in order. -/
def ValidatorSet.powers (vs : ValidatorSet) : List Int := vs.validators.map (·.validator.power)

/-- `TotalVotingPower`. -/
def ValidatorSet.totalVotingPower (vs : ValidatorSet) : Int := vs.powers.sum

/-- A member whose accumulator has grown by its validator's power. -/
def SetMember.grow (m : SetMember) : SetMember := { m with accum := m.accum + m.validator.power }

/-- A member whose accumulator has lost `total`. -/
def SetMember.lower (total : Int) (m : SetMember) : SetMember := { m with accum := m.accum - total }

/-- The index of the first member of highest accumulator; `none` when there is no member. -/
def highestIndex (ms : List SetMember) : Option Nat := (List.range ms.length).argmax (accumAt ms)

/-- The index of the proposer of the next rotation. -/
def ValidatorSet.nextProposerIndex (vs : ValidatorSet) : Option Nat :=
  highestIndex (vs.validators.map SetMember.grow)

/-- Modelled from the spec: one rotation. Every accumulator grows by its validator's power,
and the first member of highest accumulator becomes proposer and loses the total power. An
empty set stays. -/
def ValidatorSet.rotate (vs : ValidatorSet) : ValidatorSet :=
  match vs.nextProposerIndex with
  | none => vs
  | some i =>
    ⟨(vs.validators.map SetMember.grow).modify (SetMember.lower vs.totalVotingPower) i,
      vs.validators[i]?.map SetMember.validator⟩

/-- Modelled from the spec: `IncrementAccum(times)`, `times` rotations. -/
def ValidatorSet.incrementAccum (vs : ValidatorSet) : Nat → ValidatorSet
  | 0 => vs
  | times + 1 => vs.rotate.incrementAccum times

/-- Modelled from the spec: `GetProposer`, none for an empty set, else the proposer of the
last rotation, or the first member of highest accumulator when the set has not rotated. -/
def ValidatorSet.getProposer (vs : ValidatorSet) : Option Validator :=
  match vs.validators with
  | [] => none
  | _ :: _ => vs.proposer.orElse fun _ =>
    (highestIndex vs.validators).bind fun i => vs.validators[i]?.map SetMember.validator

/-! ## The keeper calls -/

variable {V : Type} (k : Keeper V)

/-- `UpdateValidatorSetInStore`: the set, encoded, under `CurrentValidatorSetKey`. -/
def Keeper.updateValidatorSetInStore (s : KVStore V) (newValidatorSet : ValidatorSet) :
    KVStore V :=
  s.set currentValidatorSetKey (k.cdc.marshalValidatorSet newValidatorSet)

/-- `GetValidatorSet`: the set decoded from `CurrentValidatorSetKey`. The error of
`UnmarshalBinaryBare` is dropped, so a missing key or one that does not decode gives the
zero set, with no validator. -/
def Keeper.getValidatorSet (s : KVStore V) : ValidatorSet :=
  match s currentValidatorSetKey with
  | none => ⟨[], none⟩
  | some bz =>
    match k.cdc.unmarshalValidatorSet bz with
    | .ok validatorSet => validatorSet
    | .error _ => ⟨[], none⟩

/-- `IncrementAccum`: the set read, rotated `times` times, and written back. -/
def Keeper.incrementAccum (s : KVStore V) (times : Nat) : KVStore V :=
  k.updateValidatorSetInStore s ((k.getValidatorSet s).incrementAccum times)

/-- `GetNextProposer`: the proposer of a copy of the set rotated once. -/
def Keeper.getNextProposer (s : KVStore V) : Option Validator :=
  ((k.getValidatorSet s).incrementAccum 1).getProposer

/-- `GetCurrentProposer`. -/
def Keeper.getCurrentProposer (s : KVStore V) : Option Validator :=
  (k.getValidatorSet s).getProposer

/-- `IncrementAccum(1)` called `n` times: the store after the calls, and what
`GetCurrentProposer` answers after each. -/
def Keeper.rotations (k : Keeper V) (s : KVStore V) : Nat → KVStore V × List (Option Validator)
  | 0 => (s, [])
  | n + 1 =>
    let r := k.rotations (k.incrementAccum s 1) n
    (r.1, k.getCurrentProposer (k.incrementAccum s 1) :: r.2)

/-! ## Members by index -/

theorem mem_iff_getD {l : List Int} {a : Int} : a ∈ l ↔ ∃ n < l.length, l.getD n 0 = a := by
  simp only [List.mem_iff_getElem, List.getD_eq_getElem?_getD, ← exists_prop]
  exact exists_congr fun n => exists_congr fun hn => by simp [hn]

theorem accumAt_grow (ms : List SetMember) (n : Nat) :
    accumAt (ms.map SetMember.grow) n = accumAt ms n + powerAt ms n := by
  simp only [accumAt, powerAt, List.getD_eq_getElem?_getD, List.map_map, List.getElem?_map]
  cases ms[n]? <;> rfl

theorem accumAt_modify_lower (ms : List SetMember) {i : Nat} (hi : i < ms.length) (t : Int)
    (n : Nat) :
    accumAt (ms.modify (SetMember.lower t) i) n = accumAt ms n - if n = i then t else 0 := by
  simp only [accumAt, List.getD_eq_getElem?_getD, List.getElem?_map, List.getElem?_modify]
  by_cases h : n = i
  · subst h
    simp [List.getElem?_eq_getElem hi, SetMember.lower]
  · rcases ms[n]? with _ | m <;> simp [h, Ne.symm h]

theorem validators_grow (ms : List SetMember) :
    (ms.map SetMember.grow).map SetMember.validator = ms.map SetMember.validator := by
  rw [List.map_map]
  rfl

theorem validators_modify_lower (ms : List SetMember) (t : Int) (i : Nat) :
    (ms.modify (SetMember.lower t) i).map SetMember.validator = ms.map SetMember.validator := by
  refine List.ext_getElem? fun n => ?_
  simp only [List.getElem?_map, List.getElem?_modify]
  rcases ms[n]? with _ | m
  · rfl
  · by_cases h : i = n <;> simp [h, SetMember.lower]

theorem sum_accums_grow (ms : List SetMember) :
    ((ms.map SetMember.grow).map SetMember.accum).sum =
      (ms.map SetMember.accum).sum + (ms.map (·.validator.power)).sum := by
  rw [List.map_map]
  exact List.sum_map_add

theorem sum_accums_modify_lower (ms : List SetMember) {i : Nat} (hi : i < ms.length) (t : Int) :
    ((ms.modify (SetMember.lower t) i).map SetMember.accum).sum =
      (ms.map SetMember.accum).sum - t := by
  induction ms generalizing i with
  | nil => cases hi
  | cons m ms ih =>
    cases i with
    | zero =>
      simp only [List.modify_zero_cons, List.map_cons, List.sum_cons, SetMember.lower]
      ring
    | succ i =>
      simp only [List.modify_succ_cons, List.map_cons, List.sum_cons,
        ih (Nat.lt_of_succ_lt_succ hi)]
      ring

/-- Two member lists with the same validators and the same accumulators are the same. -/
theorem members_ext {ms ms' : List SetMember}
    (hv : ms'.map SetMember.validator = ms.map SetMember.validator)
    (ha : ms'.map SetMember.accum = ms.map SetMember.accum) : ms' = ms := by
  induction ms generalizing ms' with
  | nil => simpa using hv
  | cons m ms ih =>
    cases ms' with
    | nil => cases hv
    | cons m' ms' =>
      simp only [List.map_cons, List.cons.injEq] at hv ha
      rw [ih hv.2 ha.2]
      cases m
      cases m'
      simp_all

/-- The powers of members are those of their validators. -/
theorem powers_eq_of_validators {ms ms' : List SetMember}
    (h : ms'.map SetMember.validator = ms.map SetMember.validator) :
    ms'.map (·.validator.power) = ms.map (·.validator.power) := by
  simpa only [List.map_map] using congrArg (List.map Validator.power) h

theorem powerAt_eq_of_validators {ms ms' : List SetMember}
    (h : ms'.map SetMember.validator = ms.map SetMember.validator) : powerAt ms' = powerAt ms := by
  funext n
  rw [powerAt, powerAt, powers_eq_of_validators h]

/-! ## The highest index -/

theorem highestIndex_lt {ms : List SetMember} {i : Nat} (h : highestIndex ms = some i) :
    i < ms.length :=
  List.mem_range.mp (List.argmax_mem h)

theorem highestIndex_highest {ms : List SetMember} {i : Nat} (h : highestIndex ms = some i)
    {n : Nat} (hn : n < ms.length) : accumAt ms n ≤ accumAt ms i :=
  List.le_of_mem_argmax (List.mem_range.mpr hn) h

theorem highestIndex_eq_none {ms : List SetMember} : highestIndex ms = none ↔ ms = [] := by
  simp [highestIndex, List.argmax_eq_none]

/-! ## What one rotation does -/

section rotate

variable (vs : ValidatorSet)

theorem ValidatorSet.validators_rotate :
    vs.rotate.validators.map SetMember.validator = vs.validators.map SetMember.validator := by
  unfold ValidatorSet.rotate
  split
  · rfl
  · rw [validators_modify_lower, validators_grow]

theorem ValidatorSet.length_rotate : vs.rotate.validators.length = vs.validators.length := by
  simpa using congrArg List.length vs.validators_rotate

theorem ValidatorSet.powers_rotate : vs.rotate.powers = vs.powers :=
  powers_eq_of_validators vs.validators_rotate

theorem ValidatorSet.totalVotingPower_rotate :
    vs.rotate.totalVotingPower = vs.totalVotingPower :=
  congrArg List.sum vs.powers_rotate

/-- Each accumulator grows by its power, and the proposer's loses the total power. -/
theorem ValidatorSet.accumAt_rotate (n : Nat) :
    accumAt vs.rotate.validators n = accumAt vs.validators n + powerAt vs.validators n -
      if vs.nextProposerIndex = some n then vs.totalVotingPower else 0 := by
  unfold ValidatorSet.rotate
  split
  · rename_i h
    have hnil : vs.validators = [] := by
      simpa using highestIndex_eq_none.mp h
    simp [h, hnil, accumAt, powerAt]
  · rename_i i h
    have hi : i < (vs.validators.map SetMember.grow).length := highestIndex_lt h
    rw [h, accumAt_modify_lower _ hi, accumAt_grow]
    simp [eq_comm]

/-- A rotation keeps the sum of the accumulators. -/
theorem ValidatorSet.accums_sum_rotate : vs.rotate.accums.sum = vs.accums.sum := by
  unfold ValidatorSet.rotate
  split
  · rfl
  · rename_i i h
    have hi : i < (vs.validators.map SetMember.grow).length := highestIndex_lt h
    simp only [ValidatorSet.accums]
    rw [sum_accums_modify_lower _ hi, sum_accums_grow]
    exact add_sub_cancel_right _ _

/-- The proposer of a rotation of a set that has members is the member at the rotation's
index. -/
theorem ValidatorSet.getProposer_rotate (h : vs.validators ≠ []) :
    ∃ i, vs.nextProposerIndex = some i ∧
      vs.rotate.getProposer = (vs.validators.map SetMember.validator)[i]? := by
  obtain ⟨i, hi⟩ := Option.ne_none_iff_exists'.mp
    (mt highestIndex_eq_none.mp (by simpa using h) : vs.nextProposerIndex ≠ none)
  refine ⟨i, hi, ?_⟩
  have hlen : vs.rotate.validators ≠ [] := by
    rw [← List.length_pos, vs.length_rotate]
    exact List.length_pos.mpr h
  have hlt : i < vs.validators.length := by simpa using highestIndex_lt hi
  unfold ValidatorSet.getProposer
  split
  · contradiction
  · simp [ValidatorSet.rotate, hi, List.getElem?_eq_getElem hlt]

end rotate

/-! ## Balanced accumulators -/

/-- Accumulators that rotate fairly: they sum to zero, and each is above minus the total
power. -/
structure ValidatorSet.Balanced (vs : ValidatorSet) : Prop where
  sum_zero : vs.accums.sum = 0
  above : ∀ a ∈ vs.accums, -vs.totalVotingPower < a

/-- The highest grown accumulator of balanced accumulators is positive: they sum to the
total power. -/
theorem ValidatorSet.Balanced.highest_pos {vs : ValidatorSet} (h : vs.Balanced)
    (hW : 0 < vs.totalVotingPower) {i : Nat} (hi : vs.nextProposerIndex = some i) :
    0 < accumAt vs.validators i + powerAt vs.validators i := by
  set grown := vs.validators.map SetMember.grow
  have hsum : (grown.map SetMember.accum).sum = vs.totalVotingPower := by
    rw [sum_accums_grow]
    exact (congrArg (· + _) h.sum_zero).trans (zero_add _)
  have hle : (grown.map SetMember.accum).sum ≤
      (grown.map SetMember.accum).length • accumAt grown i := by
    refine List.sum_le_card_nsmul _ _ fun a ha => ?_
    obtain ⟨n, hn, rfl⟩ := mem_iff_getD.mp ha
    exact highestIndex_highest hi (by simpa [grown] using hn)
  rw [← accumAt_grow]
  rw [hsum, nsmul_eq_mul] at hle
  by_contra hneg
  have hL : (0 : Int) ≤ ((grown.map SetMember.accum).length : Int) := Int.natCast_nonneg _
  nlinarith

theorem ValidatorSet.Balanced.rotate {vs : ValidatorSet} (h : vs.Balanced)
    (hpow : ∀ p ∈ vs.powers, 0 ≤ p) (hW : 0 < vs.totalVotingPower) : vs.rotate.Balanced := by
  refine ⟨vs.accums_sum_rotate.trans h.sum_zero, fun a ha => ?_⟩
  obtain ⟨n, hn, rfl⟩ := mem_iff_getD.mp ha
  have hn' : n < vs.validators.length := by simpa [ValidatorSet.accums, vs.length_rotate] using hn
  rw [vs.totalVotingPower_rotate]
  change -vs.totalVotingPower < accumAt vs.rotate.validators n
  rw [vs.accumAt_rotate]
  split
  · rename_i hi
    have := h.highest_pos hW hi
    omega
  · have ha : -vs.totalVotingPower < accumAt vs.validators n :=
      h.above _ (mem_iff_getD.mpr ⟨n, by simpa [ValidatorSet.accums] using hn', rfl⟩)
    have hp : 0 ≤ powerAt vs.validators n :=
      hpow _ (mem_iff_getD.mpr ⟨n, by simpa [ValidatorSet.powers] using hn', rfl⟩)
    omega

/-! ## Runs of rotations -/

/-- The index of each rotation's proposer, over `times` rotations. -/
def ValidatorSet.proposerIndices (vs : ValidatorSet) : Nat → List Nat
  | 0 => []
  | times + 1 => vs.nextProposerIndex.toList ++ vs.rotate.proposerIndices times

theorem ValidatorSet.validators_incrementAccum (vs : ValidatorSet) (times : Nat) :
    (vs.incrementAccum times).validators.map SetMember.validator =
      vs.validators.map SetMember.validator := by
  induction times generalizing vs with
  | zero => rfl
  | succ t ih => exact (ih vs.rotate).trans vs.validators_rotate


/-- After `times` rotations, each accumulator has grown `times` times by its power and lost
the total power once for each rotation that chose it. -/
theorem ValidatorSet.accumAt_incrementAccum (vs : ValidatorSet) (times n : Nat) :
    accumAt (vs.incrementAccum times).validators n =
      accumAt vs.validators n + times * powerAt vs.validators n -
        vs.totalVotingPower * (vs.proposerIndices times).count n := by
  induction times generalizing vs with
  | zero => simp [ValidatorSet.incrementAccum, ValidatorSet.proposerIndices]
  | succ t ih =>
    have hp := powerAt_eq_of_validators vs.validators_rotate
    have hc : ((vs.nextProposerIndex.toList.count n : Nat) : Int) =
        if vs.nextProposerIndex = some n then 1 else 0 := by
      rcases vs.nextProposerIndex with _ | i <;> simp [List.count_singleton']
    simp only [ValidatorSet.incrementAccum, ValidatorSet.proposerIndices, ih, hp,
      vs.accumAt_rotate, vs.totalVotingPower_rotate, List.count_append, Nat.cast_add, hc]
    split_ifs <;> ring

theorem ValidatorSet.Balanced.incrementAccum {vs : ValidatorSet} (h : vs.Balanced)
    (hpow : ∀ p ∈ vs.powers, 0 ≤ p) (hW : 0 < vs.totalVotingPower) (times : Nat) :
    (vs.incrementAccum times).Balanced := by
  induction times generalizing vs with
  | zero => exact h
  | succ t ih =>
    exact ih (h.rotate hpow hW) (by rwa [vs.powers_rotate]) (by rwa [vs.totalVotingPower_rotate])

theorem ValidatorSet.proposerIndices_lt (vs : ValidatorSet) (times : Nat) :
    ∀ i ∈ vs.proposerIndices times, i < vs.validators.length := by
  induction times generalizing vs with
  | zero => simp [ValidatorSet.proposerIndices]
  | succ t ih =>
    intro i hi
    rcases List.mem_append.mp hi with hi | hi
    · have hlt := highestIndex_lt (Option.mem_toList.mp hi)
      simpa using hlt
    · simpa [vs.length_rotate] using ih vs.rotate i hi

/-! ## Fairness -/

/-- Accumulators that are all zero read zero at every index. -/
theorem accumAt_eq_zero {ms : List SetMember} (h : ∀ a ∈ ms.map SetMember.accum, a = 0)
    (n : Nat) : accumAt ms n = 0 := by
  by_cases hn : n < ms.length
  · exact h _ (mem_iff_getD.mpr ⟨n, by simpa using hn, rfl⟩)
  · simp [accumAt, List.getD_eq_getElem?_getD, List.getElem?_eq_none (not_lt.mp hn)]

/-- Members of the same validators, all of accumulator zero, are the same members. -/
theorem members_eq_of_zero {ms ms' : List SetMember}
    (hv : ms'.map SetMember.validator = ms.map SetMember.validator)
    (h' : ∀ a ∈ ms'.map SetMember.accum, a = 0) (h : ∀ a ∈ ms.map SetMember.accum, a = 0) :
    ms' = ms := by
  have hlen : ms'.length = ms.length := by simpa using congrArg List.length hv
  refine members_ext hv ((List.eq_replicate_iff (n := ms.length)).mpr ⟨by simp [hlen], h'⟩ |>.trans
    ((List.eq_replicate_iff (n := ms.length)).mpr ⟨by simp, h⟩).symm)

theorem ValidatorSet.balanced_of_zero {vs : ValidatorSet} (hzero : ∀ a ∈ vs.accums, a = 0)
    (hW : 0 < vs.totalVotingPower) : vs.Balanced :=
  ⟨List.sum_eq_zero hzero, fun a ha => by rw [hzero a ha]; omega⟩

/-- Balanced accumulators none of which is negative are all zero. -/
theorem ValidatorSet.Balanced.eq_zero_of_nonneg {vs : ValidatorSet} (h : vs.Balanced)
    (hnonneg : ∀ a ∈ vs.accums, 0 ≤ a) : ∀ a ∈ vs.accums, a = 0 := fun a ha =>
  le_antisymm (h.sum_zero ▸ List.single_le_sum hnonneg a ha) (hnonneg a ha)

theorem nonneg_of_neg_lt_mul {W d : Int} (hW : 0 < W) (h : -W < W * d) : 0 ≤ d := by
  by_contra hd
  nlinarith

/-- From zero accumulators, with powers that are not negative and a positive total power
`W`, `W` rotations bring the set back to where it started and choose each member as
proposer exactly as many times as its power. -/
theorem ValidatorSet.incrementAccum_total_power (vs : ValidatorSet)
    (hzero : ∀ a ∈ vs.accums, a = 0) (hpow : ∀ p ∈ vs.powers, 0 ≤ p)
    (hW : 0 < vs.totalVotingPower) :
    (vs.incrementAccum vs.totalVotingPower.toNat).validators = vs.validators ∧
      ∀ n < vs.validators.length,
        ((vs.proposerIndices vs.totalVotingPower.toNat).count n : Int) = powerAt vs.validators n := by
  set W := vs.totalVotingPower
  set final := vs.incrementAccum W.toNat
  have hvals := vs.validators_incrementAccum W.toNat
  have hWf : final.totalVotingPower = W := congrArg List.sum (powers_eq_of_validators hvals)
  have hbal : final.Balanced := (ValidatorSet.balanced_of_zero hzero hW).incrementAccum hpow hW _
  -- The final accumulator of member `n` is `W` times its power less its count.
  have hfinal : ∀ n, accumAt final.validators n =
      W * (powerAt vs.validators n - (vs.proposerIndices W.toNat).count n) := fun n => by
    rw [vs.accumAt_incrementAccum, accumAt_eq_zero hzero, Int.toNat_of_nonneg hW.le]
    ring
  -- Each is above `-W`, so not negative; as they sum to zero, all are zero.
  have hall : ∀ a ∈ final.accums, a = 0 := by
    refine hbal.eq_zero_of_nonneg fun a ha => ?_
    have habove := hbal.above a ha
    obtain ⟨n, -, rfl⟩ := mem_iff_getD.mp ha
    rw [hWf] at habove
    change -W < accumAt final.validators n at habove
    change 0 ≤ accumAt final.validators n
    rw [hfinal] at habove ⊢
    exact mul_nonneg hW.le (nonneg_of_neg_lt_mul hW habove)
  refine ⟨members_eq_of_zero hvals hall hzero, fun n _ => ?_⟩
  have h := accumAt_eq_zero hall n
  rw [hfinal] at h
  rcases mul_eq_zero.mp h with h | h <;> omega

/-! ## The keeper calls on the stored set -/

@[simp] theorem Keeper.getValidatorSet_updateValidatorSetInStore (s : KVStore V)
    (vs : ValidatorSet) : k.getValidatorSet (k.updateValidatorSetInStore s vs) = vs := by
  simp [Keeper.getValidatorSet, Keeper.updateValidatorSetInStore]

theorem Keeper.getValidatorSet_incrementAccum (s : KVStore V) (times : Nat) :
    k.getValidatorSet (k.incrementAccum s times) = (k.getValidatorSet s).incrementAccum times :=
  k.getValidatorSet_updateValidatorSetInStore _ _

theorem ValidatorSet.accums_sum_incrementAccum (vs : ValidatorSet) (times : Nat) :
    (vs.incrementAccum times).accums.sum = vs.accums.sum := by
  induction times generalizing vs with
  | zero => rfl
  | succ t ih => exact (ih vs.rotate).trans vs.accums_sum_rotate

/-- `IncrementAccum` writes only the validator-set key, and keeps the validators of the set
and the sum of their accumulators. -/
theorem Keeper.incrementAccum_keeps (s : KVStore V) (times : Nat) :
    (∀ key, key ≠ currentValidatorSetKey → k.incrementAccum s times key = s key) ∧
      (k.getValidatorSet (k.incrementAccum s times)).validators.map SetMember.validator =
        (k.getValidatorSet s).validators.map SetMember.validator ∧
      (k.getValidatorSet (k.incrementAccum s times)).accums.sum =
        (k.getValidatorSet s).accums.sum := by
  rw [k.getValidatorSet_incrementAccum]
  exact ⟨fun key hkey => KVStore.set_ne _ _ hkey, ValidatorSet.validators_incrementAccum _ _,
    ValidatorSet.accums_sum_incrementAccum _ _⟩

theorem Keeper.getValidatorSet_rotations (s : KVStore V) (n : Nat) :
    k.getValidatorSet (k.rotations s n).1 = (k.getValidatorSet s).incrementAccum n := by
  induction n generalizing s with
  | zero => rfl
  | succ n ih =>
    simp only [Keeper.rotations, ih, k.getValidatorSet_incrementAccum]
    rfl

/-- On a set with members, the proposers after each call are the members at the rotations'
indices. -/
theorem Keeper.rotations_proposers (s : KVStore V) (h : (k.getValidatorSet s).validators ≠ [])
    (n : Nat) :
    (k.rotations s n).2 = ((k.getValidatorSet s).proposerIndices n).map
      fun i => ((k.getValidatorSet s).validators.map SetMember.validator)[i]? := by
  induction n generalizing s with
  | zero => rfl
  | succ n ih =>
    have hset : k.getValidatorSet (k.incrementAccum s 1) = (k.getValidatorSet s).rotate :=
      k.getValidatorSet_incrementAccum s 1
    have hne : (k.getValidatorSet (k.incrementAccum s 1)).validators ≠ [] := by
      rw [hset, ← List.length_pos, ValidatorSet.length_rotate]
      exact List.length_pos.mpr h
    obtain ⟨i, hi, hprop⟩ := (k.getValidatorSet s).getProposer_rotate h
    simp only [Keeper.rotations, ih _ hne, Keeper.getCurrentProposer, hset, hprop,
      ValidatorSet.validators_rotate, ValidatorSet.proposerIndices, hi, Option.toList_some,
      List.singleton_append, List.map_cons]

/-- The weighted round-robin of the spec, through the keeper: from a stored set of distinct
validators with zero accumulators, powers that are not negative and a positive total power
`W`, `W` calls of `IncrementAccum(1)` bring the stored validators back to where they
started, and `GetCurrentProposer` names each validator after exactly as many of the calls
as its power. -/
theorem Keeper.rotations_weighted_round_robin (s : KVStore V)
    (hzero : ∀ a ∈ (k.getValidatorSet s).accums, a = 0)
    (hpow : ∀ p ∈ (k.getValidatorSet s).powers, 0 ≤ p)
    (hW : 0 < (k.getValidatorSet s).totalVotingPower)
    (hnodup : ((k.getValidatorSet s).validators.map SetMember.validator).Nodup) :
    (k.getValidatorSet (k.rotations s (k.getValidatorSet s).totalVotingPower.toNat).1).validators =
        (k.getValidatorSet s).validators ∧
      ∀ m ∈ (k.getValidatorSet s).validators,
        ((k.rotations s (k.getValidatorSet s).totalVotingPower.toNat).2.count
          (some m.validator) : Int) = m.validator.power := by
  set vs := k.getValidatorSet s
  obtain ⟨hback, hcount⟩ := vs.incrementAccum_total_power hzero hpow hW
  have hne : vs.validators ≠ [] := by
    rintro hnil
    simp [ValidatorSet.totalVotingPower, ValidatorSet.powers, hnil] at hW
  refine ⟨by rw [k.getValidatorSet_rotations, hback], fun m hm => ?_⟩
  obtain ⟨n, hn, rfl⟩ := List.mem_iff_getElem.mp hm
  -- Distinct validators: a rotation names `m` exactly when it chose `m`'s index.
  have hsame : ∀ i ∈ vs.proposerIndices vs.totalVotingPower.toNat,
      (vs.validators.map SetMember.validator)[i]? = some vs.validators[n].validator ↔ i = n := by
    intro i hi
    have hlt := vs.proposerIndices_lt _ i hi
    have hinj := @List.Nodup.getElem_inj_iff _ _ hnodup i (by simpa using hlt) n (by simpa using hn)
    rw [List.getElem_map, List.getElem_map] at hinj
    simpa [List.getElem?_eq_getElem hlt] using hinj
  rw [k.rotations_proposers s hne, List.count_eq_countP, List.countP_map,
    List.countP_congr (q := (· == n)) fun i hi => by simpa using hsame i hi,
    ← List.count_eq_countP, hcount n hn]
  simp [powerAt, List.getD_eq_getElem?_getD, List.getElem?_eq_getElem hn]

/-- The set of the spec's rotation example: validators 1, 2 and 3 of powers 10, 5 and 5,
with zero accumulators. -/
def tenFiveFive : ValidatorSet :=
  ⟨[⟨⟨1, 0, 0, 10, [], zeroAddress, 0⟩, 0⟩, ⟨⟨2, 0, 0, 5, [], zeroAddress, 0⟩, 0⟩,
    ⟨⟨3, 0, 0, 5, [], zeroAddress, 0⟩, 0⟩], none⟩

/-- A store holding `tenFiveFive` as the current validator set. -/
def tenFiveFiveStore : KVStore Blob :=
  KVStore.empty.set currentValidatorSetKey (.validatorSet tenFiveFive)

theorem Keeper.rotations_weighted_round_robin_tenFiveFive :
    (∀ a ∈ (blobKeeper.getValidatorSet tenFiveFiveStore).accums, a = 0) ∧
      (∀ p ∈ (blobKeeper.getValidatorSet tenFiveFiveStore).powers, 0 ≤ p) ∧
      0 < (blobKeeper.getValidatorSet tenFiveFiveStore).totalVotingPower ∧
      ((blobKeeper.getValidatorSet tenFiveFiveStore).validators.map SetMember.validator).Nodup ∧
      ∀ m ∈ (blobKeeper.getValidatorSet tenFiveFiveStore).validators,
        ((blobKeeper.rotations tenFiveFiveStore 20).2.count (some m.validator) : Int) =
          m.validator.power := by
  have hzero : ∀ a ∈ (blobKeeper.getValidatorSet tenFiveFiveStore).accums, a = 0 := by decide
  have hpow : ∀ p ∈ (blobKeeper.getValidatorSet tenFiveFiveStore).powers, 0 ≤ p := by decide
  have hW : 0 < (blobKeeper.getValidatorSet tenFiveFiveStore).totalVotingPower := by decide
  have hnodup :
      ((blobKeeper.getValidatorSet tenFiveFiveStore).validators.map SetMember.validator).Nodup := by
    decide
  exact ⟨hzero, hpow, hW, hnodup,
    (blobKeeper.rotations_weighted_round_robin tenFiveFiveStore hzero hpow hW hnodup).2⟩

/-- The first four calls on `tenFiveFive` name validators 1, 2, 3 and 1. -/
example : ((blobKeeper.rotations tenFiveFiveStore 4).2.map fun v => v.map Validator.id) =
    [some 1, some 2, some 3, some 1] := by
  decide

/-! ## The rotation repeats -/

theorem ValidatorSet.nextProposerIndex_congr {vs vs' : ValidatorSet}
    (h : vs.validators = vs'.validators) : vs.nextProposerIndex = vs'.nextProposerIndex := by
  simp only [ValidatorSet.nextProposerIndex, h]

/-- A rotation reads only the members of the set, not its last proposer. -/
theorem ValidatorSet.validators_rotate_congr {vs vs' : ValidatorSet}
    (h : vs.validators = vs'.validators) : vs.rotate.validators = vs'.rotate.validators := by
  unfold ValidatorSet.rotate
  rw [ValidatorSet.nextProposerIndex_congr h]
  split
  · exact h
  · simp only [ValidatorSet.totalVotingPower, ValidatorSet.powers, h]

theorem ValidatorSet.proposerIndices_congr {vs vs' : ValidatorSet}
    (h : vs.validators = vs'.validators) (times : Nat) :
    vs.proposerIndices times = vs'.proposerIndices times := by
  induction times generalizing vs vs' with
  | zero => rfl
  | succ t ih =>
    simp only [ValidatorSet.proposerIndices, ValidatorSet.nextProposerIndex_congr h,
      ih (ValidatorSet.validators_rotate_congr h)]

theorem ValidatorSet.proposerIndices_add (vs : ValidatorSet) (a b : Nat) :
    vs.proposerIndices (a + b) =
      vs.proposerIndices a ++ (vs.incrementAccum a).proposerIndices b := by
  induction a generalizing vs with
  | zero => rw [Nat.zero_add]; rfl
  | succ a ih =>
    rw [Nat.succ_add]
    simp only [ValidatorSet.proposerIndices, ih vs.rotate, List.append_assoc]
    rfl

/-- With distinct validators, proposers named by the indices `is` of the members `ms` name
the validator at `n` as often as `is` holds `n`. -/
theorem count_proposers {ms : List SetMember} (hnodup : (ms.map SetMember.validator).Nodup)
    {is : List Nat} (hlt : ∀ i ∈ is, i < ms.length) {n : Nat} (hn : n < ms.length) :
    (is.map fun i => (ms.map SetMember.validator)[i]?).count (some ms[n].validator) =
      is.count n := by
  rw [List.count_eq_countP, List.countP_map, List.count_eq_countP]
  refine List.countP_congr fun i hi => ?_
  have hinj := @List.Nodup.getElem_inj_iff _ _ hnodup i (by simpa using hlt i hi) n
    (by simpa using hn)
  rw [List.getElem_map, List.getElem_map] at hinj
  simpa [List.getElem?_eq_getElem (hlt i hi)] using hinj

/-- The schedule repeats with period `W`, and every window of `W` consecutive calls is fair,
wherever it starts. From a stored set of distinct validators with zero accumulators, powers
that are not negative and a positive total power `W`: the proposers of the first `W + n`
calls of `IncrementAccum(1)` are those of the first `W` followed by those of the first `n`;
and after any number `j` of calls, the next `W` calls name each validator exactly as many
times as its power. -/
theorem Keeper.rotations_periodic (s : KVStore V)
    (hzero : ∀ a ∈ (k.getValidatorSet s).accums, a = 0)
    (hpow : ∀ p ∈ (k.getValidatorSet s).powers, 0 ≤ p)
    (hW : 0 < (k.getValidatorSet s).totalVotingPower)
    (hnodup : ((k.getValidatorSet s).validators.map SetMember.validator).Nodup) :
    (∀ n, (k.rotations s ((k.getValidatorSet s).totalVotingPower.toNat + n)).2 =
      (k.rotations s (k.getValidatorSet s).totalVotingPower.toNat).2 ++ (k.rotations s n).2) ∧
    ∀ j, ∀ m ∈ (k.getValidatorSet s).validators,
      ((k.rotations (k.rotations s j).1 (k.getValidatorSet s).totalVotingPower.toNat).2.count
        (some m.validator) : Int) = m.validator.power := by
  set vs := k.getValidatorSet s
  obtain ⟨hback, hcount⟩ := vs.incrementAccum_total_power hzero hpow hW
  set W := vs.totalVotingPower.toNat
  have hne : vs.validators ≠ [] := by
    rintro hnil
    simp [ValidatorSet.totalVotingPower, ValidatorSet.powers, hnil] at hW
  have hlen : ∀ j, (vs.incrementAccum j).validators.length = vs.validators.length := fun j => by
    simpa using congrArg List.length (vs.validators_incrementAccum j)
  -- after `j` calls the store holds the same validators, so the proposers of the next
  -- calls are read off the same list
  have hafter : ∀ j n, (k.rotations (k.rotations s j).1 n).2 =
      ((vs.incrementAccum j).proposerIndices n).map
        fun i => (vs.validators.map SetMember.validator)[i]? := fun j n => by
    have hset := k.getValidatorSet_rotations s j
    have hne' : (k.getValidatorSet (k.rotations s j).1).validators ≠ [] := by
      rw [hset, ← List.length_pos, hlen, List.length_pos]
      exact hne
    rw [k.rotations_proposers _ hne', hset, vs.validators_incrementAccum j]
  -- the first `W + j` indices, cut at `W` and at `j`
  have hperiod : ∀ j, vs.proposerIndices W ++ vs.proposerIndices j =
      vs.proposerIndices j ++ (vs.incrementAccum j).proposerIndices W := fun j => by
    rw [← vs.proposerIndices_add, Nat.add_comm, vs.proposerIndices_add,
      ValidatorSet.proposerIndices_congr hback]
  refine ⟨fun n => ?_, fun j m hm => ?_⟩
  · have h0 := hafter 0
    simp only [Keeper.rotations, ValidatorSet.incrementAccum] at h0
    rw [h0, h0, h0, vs.proposerIndices_add, ValidatorSet.proposerIndices_congr hback,
      List.map_append]
  · obtain ⟨n, hn, rfl⟩ := List.mem_iff_getElem.mp hm
    have hlt : ∀ i ∈ (vs.incrementAccum j).proposerIndices W, i < vs.validators.length :=
      fun i hi => hlen j ▸ (vs.incrementAccum j).proposerIndices_lt W i hi
    have hcounts := congrArg (List.count n) (hperiod j)
    simp only [List.count_append] at hcounts
    have hpower : powerAt vs.validators n = vs.validators[n].validator.power := by
      simp [powerAt, List.getD_eq_getElem?_getD, List.getElem?_eq_getElem hn]
    rw [hafter, count_proposers hnodup hlt hn, ← hpower, ← hcount n hn]
    omega

theorem Keeper.rotations_periodic_tenFiveFive :
    (∀ a ∈ (blobKeeper.getValidatorSet tenFiveFiveStore).accums, a = 0) ∧
      (∀ p ∈ (blobKeeper.getValidatorSet tenFiveFiveStore).powers, 0 ≤ p) ∧
      0 < (blobKeeper.getValidatorSet tenFiveFiveStore).totalVotingPower ∧
      ((blobKeeper.getValidatorSet tenFiveFiveStore).validators.map SetMember.validator).Nodup ∧
      ∀ m ∈ (blobKeeper.getValidatorSet tenFiveFiveStore).validators,
        ((blobKeeper.rotations (blobKeeper.rotations tenFiveFiveStore 3).1
          (blobKeeper.getValidatorSet tenFiveFiveStore).totalVotingPower.toNat).2.count
            (some m.validator) : Int) = m.validator.power := by
  have hzero : ∀ a ∈ (blobKeeper.getValidatorSet tenFiveFiveStore).accums, a = 0 := by decide
  have hpow : ∀ p ∈ (blobKeeper.getValidatorSet tenFiveFiveStore).powers, 0 ≤ p := by decide
  have hW : 0 < (blobKeeper.getValidatorSet tenFiveFiveStore).totalVotingPower := by decide
  have hnodup :
      ((blobKeeper.getValidatorSet tenFiveFiveStore).validators.map SetMember.validator).Nodup := by
    decide
  exact ⟨hzero, hpow, hW, hnodup,
    (blobKeeper.rotations_periodic tenFiveFiveStore hzero hpow hW hnodup).2 3⟩

end delivery.staking
