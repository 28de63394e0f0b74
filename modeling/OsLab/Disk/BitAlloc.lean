import OsLab.Disk.Layout
import OsLab.Lib.FirstFit
import Mathlib.Data.Nat.Bitwise
import Mathlib.Tactic.IntervalCases

/-!
# `bit_alloc` is first fit

The allocator of `copy2myfs` scans the bitmap byte by byte for one that is not `0xff` and then
walks a ladder of eight bit tests, `bit7` first. Block `b` is therefore bit `7 - b % 8` of byte
`b / 8`. `used` is that reading of the bitmap, and `bitAlloc_eq` says what the scan computes in
terms of it: the first clear block at or after the start of the zone, which is then marked and
nothing else changed.

The two modes differ only in where they start. `alloc_inode` starts at block 256, `alloc_data`
at block 288, and both run to the end of the map: nothing keeps inodes out of the data zone.

## Main definitions

* `bitLadder` — the ladder of bit tests: the offset of the first clear bit, `bit7` having offset `0`
* `bitScan` — the scan over the `n` bytes from byte `i` on: the value of `i` when the loop is left,
  and the rung of the ladder it was left from
* `bitAlloc` — `bit_alloc(&bitoffset, mode)`: the new map and the new `*bitoffset`
* `used` — the bitmap as a predicate on block numbers

## Main results

* `bitAlloc_eq` — `bit_alloc` is first fit
* `bitAlloc_of_full` — what it does when nothing is left
-/

namespace OsLab

/-- The two modes of `bit_alloc`. -/
inductive AllocMode where
  | alloc_inode
  | alloc_data
  deriving DecidableEq, Repr

/-- `base`: the byte the scan starts from. -/
def AllocMode.base : AllocMode → ℕ
  | alloc_inode => BITMAP_USED_BYTE
  | alloc_data => BITMAP_USED_BYTE + 32 / 8

/-- Member `bitk` of a `union Byte`. -/
def bit (byte : UInt8) (k : ℕ) : Bool := byte.toNat.testBit k

/-- Set member `bitk` of a `union Byte`. -/
def setBit (byte : UInt8) (k : ℕ) : UInt8 := UInt8.ofNat (byte.toNat ||| 2 ^ k)

/-- The ladder of bit tests: the offset of the first clear bit, `bit7` having offset `0`. -/
def bitLadder (byte : UInt8) : Option ℕ :=
  if bit byte 7 = false then some 0
  else if bit byte 6 = false then some 1
  else if bit byte 5 = false then some 2
  else if bit byte 4 = false then some 3
  else if bit byte 3 = false then some 4
  else if bit byte 2 = false then some 5
  else if bit byte 1 = false then some 6
  else if bit byte 0 = false then some 7
  else none

/-- The scan over the `n` bytes from byte `i` on: the value of `i` when the loop is left, and the
rung of the ladder it was left from. -/
def bitScan (bitmap : Bitmap) : ℕ → ℕ → ℕ × Option ℕ
  | 0, i => (i, none)
  | n + 1, i =>
    if bitmap i ≠ 0xff then
      match bitLadder (bitmap i) with
      | some r => (i, some r)
      | none => bitScan bitmap n (i + 1)
    else bitScan bitmap n (i + 1)

/-- `bit_alloc(&bitoffset, mode)`: the new map and the new `*bitoffset`. -/
def bitAlloc (bitmap : Bitmap) (bitoffset : ℕ) (mode : AllocMode) : Bitmap × ℕ :=
  match bitScan bitmap (BITMAP_SIZE - mode.base) mode.base with
  | (i, some r) => (Function.update bitmap i (setBit (bitmap i) (7 - r)), r + i * 8)
  | (i, none) => (bitmap, bitoffset + i * 8)

/-- The bitmap as a predicate on block numbers. -/
def used (bitmap : Bitmap) (b : ℕ) : Bool := bit (bitmap (b / 8)) (7 - b % 8)

/-- The number of blocks the bitmap describes. -/
def NR_BLOCK : ℕ := 8 * BITMAP_SIZE

/-! ## The ladder -/

theorem bit_setBit {byte : UInt8} {k j : ℕ} (hj : j < 8) :
    bit (setBit byte k) j = (bit byte j || decide (k = j)) := by
  rw [bit, setBit, UInt8.toNat_ofNat', Nat.testBit_mod_two_pow, Nat.testBit_or,
    Nat.testBit_two_pow]
  simp [bit, hj]

theorem bitLadder_eq_some {byte : UInt8} {r : ℕ} (h : bitLadder byte = some r) :
    r < 8 ∧ bit byte (7 - r) = false ∧ ∀ q < r, bit byte (7 - q) = true := by
  unfold bitLadder at h
  split_ifs at h <;> cases h <;> refine ⟨by omega, by assumption, fun q hq => ?_⟩ <;>
    interval_cases q <;> simp_all

theorem bitLadder_eq_none {byte : UInt8} (h : bitLadder byte = none) {q : ℕ} (hq : q < 8) :
    bit byte q = true := by
  unfold bitLadder at h
  split_ifs at h
  interval_cases q <;> simp_all

theorem bit_ff {q : ℕ} (hq : q < 8) : bit 0xff q = true := by
  interval_cases q <;> decide

/-- A byte the scan passes over has every bit set. -/
theorem bit_of_passed {bitmap : Bitmap} {i : ℕ}
    (h : bitmap i = 0xff ∨ bitLadder (bitmap i) = none) {q : ℕ} (hq : q < 8) :
    bit (bitmap i) q = true := by
  rcases h with h | h
  · rw [h]; exact bit_ff hq
  · exact bitLadder_eq_none h hq

/-! ## The scan -/

theorem bitScan_eq_some {bitmap : Bitmap} {n i j r : ℕ} (h : bitScan bitmap n i = (j, some r)) :
    i ≤ j ∧ j < i + n ∧ bitLadder (bitmap j) = some r ∧
      ∀ k, i ≤ k → k < j → bitmap k = 0xff ∨ bitLadder (bitmap k) = none := by
  induction n generalizing i with
  | zero => simp [bitScan] at h
  | succ n ih =>
    have passed (hpass : bitmap i = 0xff ∨ bitLadder (bitmap i) = none)
        (h : bitScan bitmap n (i + 1) = (j, some r)) :
        i ≤ j ∧ j < i + (n + 1) ∧ bitLadder (bitmap j) = some r ∧
          ∀ k, i ≤ k → k < j → bitmap k = 0xff ∨ bitLadder (bitmap k) = none := by
      obtain ⟨hle, hlt, hr, hall⟩ := ih h
      refine ⟨by omega, by omega, hr, fun k hk hkj => ?_⟩
      rcases Nat.eq_or_lt_of_le hk with rfl | hk
      · exact hpass
      · exact hall k hk hkj
    rw [bitScan] at h
    split at h
    · split at h
      · cases h
        exact ⟨Nat.le_refl _, by omega, by assumption, fun k hk hkj => by omega⟩
      · exact passed (.inr (by assumption)) h
    · rename_i hff
      exact passed (.inl (not_not.mp hff)) h

theorem bitScan_eq_none {bitmap : Bitmap} {n i j : ℕ} (h : bitScan bitmap n i = (j, none)) :
    ∀ k, i ≤ k → k < i + n → bitmap k = 0xff ∨ bitLadder (bitmap k) = none := by
  induction n generalizing i with
  | zero => intro k hk hkn; omega
  | succ n ih =>
    have passed (hpass : bitmap i = 0xff ∨ bitLadder (bitmap i) = none)
        (h : bitScan bitmap n (i + 1) = (j, none)) :
        ∀ k, i ≤ k → k < i + (n + 1) → bitmap k = 0xff ∨ bitLadder (bitmap k) = none := by
      intro k hk hkn
      rcases Nat.eq_or_lt_of_le hk with rfl | hk
      · exact hpass
      · exact ih h k hk (by omega)
    rw [bitScan] at h
    split at h
    · split at h
      · cases h
      · exact passed (.inr (by assumption)) h
    · rename_i hff
      exact passed (.inl (not_not.mp hff)) h

/-! ## First fit -/

theorem used_of_passed {bitmap : Bitmap} {b : ℕ}
    (h : bitmap (b / 8) = 0xff ∨ bitLadder (bitmap (b / 8)) = none) : used bitmap b = true :=
  bit_of_passed h (by omega)

theorem used_update {bitmap : Bitmap} {i r : ℕ} (hr : r < 8) :
    used (Function.update bitmap i (setBit (bitmap i) (7 - r))) =
      Function.update (used bitmap) (r + i * 8) true := by
  funext b
  by_cases hb : b / 8 = i
  · subst hb
    have hiff : 7 - r = 7 - b % 8 ↔ b = r + b / 8 * 8 := by omega
    have hbit : used (Function.update bitmap (b / 8) (setBit (bitmap (b / 8)) (7 - r))) b =
        (used bitmap b || decide (b = r + b / 8 * 8)) := by
      rw [used, Function.update_self, bit_setBit (by omega), used, decide_eq_decide.mpr hiff]
    by_cases heq : b = r + b / 8 * 8
    · rw [hbit, ← heq]; simp
    · rw [hbit, Function.update_of_ne heq]; simp [heq]
  · have hne : b ≠ r + i * 8 := by omega
    simp [used, Function.update_of_ne hb, hne]

/-- **`bit_alloc` is first fit.** As long as its zone has a clear block, the call returns the
first one, marks it, and leaves every other bit alone. -/
theorem bitAlloc_eq {bitmap : Bitmap} {mode : AllocMode} {b : ℕ} (bitoffset : ℕ)
    (hb : FirstFit (used bitmap) (8 * mode.base) b) (hlt : b < NR_BLOCK) :
    (bitAlloc bitmap bitoffset mode).2 = b ∧
      used (bitAlloc bitmap bitoffset mode).1 = Function.update (used bitmap) b true := by
  have hle := hb.le
  simp only [NR_BLOCK] at hlt
  rcases hscan : bitScan bitmap (BITMAP_SIZE - mode.base) mode.base with ⟨j, _ | r⟩
  · have hpass := bitScan_eq_none hscan (b / 8) (by omega) (by omega)
    have := used_of_passed hpass
    simp [hb.clear] at this
  · obtain ⟨hij, hjn, hr, hall⟩ := bitScan_eq_some hscan
    obtain ⟨hr8, hclear, hset⟩ := bitLadder_eq_some hr
    have hfit : FirstFit (used bitmap) (8 * mode.base) (r + j * 8) := by
      refine ⟨by omega, ?_, fun c hc hcb => ?_⟩
      · have hdiv : (r + j * 8) / 8 = j := by omega
        have hmod : (r + j * 8) % 8 = r := by omega
        simp [used, hdiv, hmod, hclear]
      · rcases Nat.lt_or_ge (c / 8) j with hcj | hcj
        · exact used_of_passed (hall _ (by omega) hcj)
        · have hdiv : c / 8 = j := by omega
          rw [used, hdiv]
          exact hset _ (by omega)
    have hbr : b = r + j * 8 := hb.unique hfit
    subst hbr
    simp [bitAlloc, hscan, used_update hr8]

/-- Without a clear block in its zone the call marks nothing. -/
theorem bitAlloc_of_full {bitmap : Bitmap} {mode : AllocMode} (bitoffset : ℕ)
    (h : ∀ b, 8 * mode.base ≤ b → b < NR_BLOCK → used bitmap b = true) :
    (bitAlloc bitmap bitoffset mode).1 = bitmap := by
  rcases hscan : bitScan bitmap (BITMAP_SIZE - mode.base) mode.base with ⟨j, _ | r⟩
  · simp only [bitAlloc, hscan]
  · obtain ⟨hij, hjn, hr, -⟩ := bitScan_eq_some hscan
    obtain ⟨hr8, hclear, -⟩ := bitLadder_eq_some hr
    have hdiv : (r + j * 8) / 8 = j := by omega
    have hmod : (r + j * 8) % 8 = r := by omega
    have hused := h (r + j * 8) (by omega) (by simp only [NR_BLOCK]; omega)
    rw [used, hdiv, hmod, hclear] at hused
    exact absurd hused (by decide)

end OsLab
