-- The byte formats that the bridge and the staking keeper share: 20-byte addresses, the
-- decimal string in which the listener stores a block number (it reads back through
-- `strconv.ParseUint` as the number that wrote it), and Go's run-time panics.
import Mathlib.Data.Nat.Digits
import Mathlib.Tactic.IntervalCases

namespace delivery.encoding

/-- A Go `[]byte`. -/
abbrev Bytes := List UInt8

instance instDecidableEqExcept {ε α : Type} [DecidableEq ε] [DecidableEq α] :
    DecidableEq (Except ε α)
  | .ok a, .ok b => decidable_of_iff (a = b) (by simp)
  | .error a, .error b => decidable_of_iff (a = b) (by simp)
  | .ok _, .error _ => isFalse (by simp)
  | .error _, .ok _ => isFalse (by simp)

/-- A Go run-time panic, which ends the process: an index past the length of a slice, a
field read through a nil pointer, or an integer division by zero. -/
inductive GoPanic where
  | indexOutOfRange (index length : Nat)
  | nilPointerDereference
  | integerDivideByZero
  deriving DecidableEq

/-! ## Addresses -/

/-- A 20-byte address: `types.HeimdallAddress` and `common.Address` alike. -/
structure Address where
  bytes : Bytes
  length_eq : bytes.length = 20
  deriving DecidableEq

theorem Address.bytes_injective : Function.Injective Address.bytes := by
  rintro ⟨a, _⟩ ⟨b, _⟩ h
  cases h
  rfl

@[simp] theorem Address.bytes_inj {a b : Address} : a.bytes = b.bytes ↔ a = b :=
  Address.bytes_injective.eq_iff

/-- `common.BytesToAddress`: the last 20 bytes of `b`, left-padded with zeros. -/
def bytesToAddress (b : Bytes) : Address :=
  ⟨List.replicate (20 - b.length) 0 ++ b.drop (b.length - 20), by simp; omega⟩

/-- `helper.ZeroAddress`. -/
def zeroAddress : Address := bytesToAddress []

/-- An address read back from its own bytes is itself. -/
@[simp] theorem bytesToAddress_bytes (a : Address) : bytesToAddress a.bytes = a := by
  apply Address.bytes_injective
  simp [bytesToAddress, a.length_eq]

/-! ## Decimal block numbers -/

/-- The decimal digits of `n`, as `big.Int.String()` writes a nonnegative number. -/
def formatUint (n : Nat) : List Char := Nat.toDigits 10 n

/-- One digit of `strconv.ParseUint` in base 10: the value so far times ten plus the
digit, or `none` at a character that is not a decimal digit. -/
def digitStep (acc : Nat) (c : Char) : Option Nat :=
  if c.isDigit then some (acc * 10 + (c.toNat - '0'.toNat)) else none

/-- `strconv.ParseUint(s, 10, 64)`: no value for the empty string, for a character that
is not a decimal digit, or for a value past `2^64 - 1`. -/
def parseUint (s : List Char) : Option Nat :=
  match s, s.foldlM digitStep 0 with
  | [], _ => none
  | _ :: _, some n => if n < 2 ^ 64 then some n else none
  | _ :: _, none => none

theorem digitStep_digitChar (acc d : Nat) (h : d < 10) :
    digitStep acc (Nat.digitChar d) = some (acc * 10 + d) := by
  have hd : (Nat.digitChar d).isDigit = true ∧ (Nat.digitChar d).toNat - '0'.toNat = d := by
    interval_cases d <;> decide
  simp only [digitStep, hd.1, hd.2, if_true]

/-- Reading the digits that `toDigitsCore` puts in front of `ds` leaves the number they
stand for, to be continued by `ds`. -/
theorem foldlM_toDigitsCore (f n : Nat) (ds : List Char) (h : n < f) :
    (Nat.toDigitsCore 10 f n ds).foldlM digitStep 0 = ds.foldlM digitStep n := by
  induction f generalizing n ds with
  | zero => omega
  | succ f ih =>
    have hmod : n % 10 < 10 := Nat.mod_lt _ (by omega)
    have hsplit : n / 10 * 10 + n % 10 = n := Nat.div_add_mod' n 10
    simp only [Nat.toDigitsCore]
    split
    · rename_i h0
      simp only [List.foldlM_cons, digitStep_digitChar 0 _ hmod, Option.bind_eq_bind,
        Option.some_bind]
      congr 1
      omega
    · rw [ih (n / 10) _ (by omega)]
      simp only [List.foldlM_cons, digitStep_digitChar _ _ hmod, Option.bind_eq_bind,
        Option.some_bind, hsplit]

theorem foldlM_formatUint (n : Nat) : (formatUint n).foldlM digitStep 0 = some n :=
  foldlM_toDigitsCore (n + 1) n [] (by omega)

theorem formatUint_injective : Function.Injective formatUint := fun a b h => by
  simpa [foldlM_formatUint] using congrArg (List.foldlM digitStep 0) h

@[simp] theorem formatUint_inj {a b : Nat} : formatUint a = formatUint b ↔ a = b :=
  formatUint_injective.eq_iff

theorem toDigitsCore_ne_nil (f n : Nat) (c : Char) (ds : List Char) :
    Nat.toDigitsCore 10 f n (c :: ds) ≠ [] := by
  induction f generalizing n c ds with
  | zero => simp [Nat.toDigitsCore]
  | succ f ih =>
    simp only [Nat.toDigitsCore]
    split
    · simp
    · exact ih _ _ _

theorem formatUint_ne_nil (n : Nat) : formatUint n ≠ [] := by
  simp only [formatUint, Nat.toDigits, Nat.toDigitsCore]
  split
  · simp
  · exact toDigitsCore_ne_nil _ _ _ _

/-- Every block number that fits in a `uint64` reads back from its decimal string. -/
theorem parseUint_formatUint (n : Nat) (h : n < 2 ^ 64) : parseUint (formatUint n) = some n := by
  obtain ⟨c, cs, hcs⟩ := List.exists_cons_of_ne_nil (formatUint_ne_nil n)
  have hf := foldlM_formatUint n
  rw [hcs] at hf ⊢
  simp only [parseUint, hf, if_pos h]

example : formatUint 102 = ['1', '0', '2'] := by decide

end delivery.encoding
