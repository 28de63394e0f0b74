import Mathlib.Tactic.Ring
import Mathlib.Logic.Function.Basic

/-!
# Fixed-size blocks of bytes

A `ByteBlock n` is `n` bytes, read and written at natural-number positions. Reading is total:
a position past the end reads as zero, so no index carries a proof and bounds appear only as
hypotheses of the lemmas that need them.

Little-endian 32-bit words live inside such blocks. `get32` and `set32` are the only accesses
the structures stored in a block need, and the pair of laws `get32_set32`,
`get32_set32_of_disjoint` is all their proofs use.
-/

/-- A block of `n` bytes. -/
def ByteBlock (n : ℕ) : Type := Fin n → UInt8

namespace ByteBlock

variable {n : ℕ}

/-- The byte at position `i`. Total: positions past the end read as zero. -/
def get (b : ByteBlock n) (i : ℕ) : UInt8 := if h : i < n then b ⟨i, h⟩ else 0

/-- The block whose byte at position `i` is `f i`. -/
def ofFn (n : ℕ) (f : ℕ → UInt8) : ByteBlock n := fun i => f i

@[simp] theorem get_ofFn (f : ℕ → UInt8) (i : ℕ) :
    (ofFn n f).get i = if i < n then f i else 0 := by
  by_cases h : i < n <;> simp [get, ofFn, h]

theorem get_of_le {b : ByteBlock n} {i : ℕ} (h : n ≤ i) : b.get i = 0 := by
  simp [get, Nat.not_lt.mpr h]

theorem ext_get {a b : ByteBlock n} (h : ∀ i < n, a.get i = b.get i) : a = b := by
  funext i
  simpa [get] using h i i.isLt

/-- The bytes of a block, in order. -/
def toList (b : ByteBlock n) : List UInt8 := (List.range n).map b.get

@[simp] theorem length_toList (b : ByteBlock n) : b.toList.length = n := by simp [toList]

@[simp] theorem getD_toList (b : ByteBlock n) (i : ℕ) : b.toList.getD i 0 = b.get i := by
  rw [toList, List.getD_eq_getElem?_getD]
  rcases Nat.lt_or_ge i n with h | h
  · simp [h]
  · rw [List.getElem?_eq_none (by simpa using h), get_of_le h]
    rfl

/-! ## Little-endian words -/

/-- Byte `k` of a 32-bit word, counting from the least significant. -/
def byte32 (v : UInt32) (k : ℕ) : UInt8 := UInt8.ofNat (v.toNat / 256 ^ k)

/-- The 32-bit word whose bytes, least significant first, are `f 0, …, f 3`. -/
def le32 (f : ℕ → UInt8) : UInt32 :=
  UInt32.ofNat ((f 0).toNat + 256 * (f 1).toNat + 256 ^ 2 * (f 2).toNat + 256 ^ 3 * (f 3).toNat)

@[simp] theorem le32_byte32 (v : UInt32) : le32 (byte32 v) = v := by
  apply UInt32.toNat_inj.mp
  have hv : v.toNat < 2 ^ 32 := v.toNat_lt
  simp only [le32, byte32, UInt32.toNat_ofNat', UInt8.toNat_ofNat']
  omega

theorem byte32_le32 (f : ℕ → UInt8) {k : ℕ} (hk : k < 4) : byte32 (le32 f) k = f k := by
  apply UInt8.toNat_inj.mp
  have h₀ := (f 0).toNat_lt
  have h₁ := (f 1).toNat_lt
  have h₂ := (f 2).toNat_lt
  have h₃ := (f 3).toNat_lt
  simp only [le32, byte32, UInt32.toNat_ofNat', UInt8.toNat_ofNat']
  obtain rfl | rfl | rfl | rfl : k = 0 ∨ k = 1 ∨ k = 2 ∨ k = 3 := by omega
  all_goals omega

theorem le32_congr {f g : ℕ → UInt8} (h : ∀ k < 4, f k = g k) : le32 f = le32 g := by
  simp only [le32, h 0 (by omega), h 1 (by omega), h 2 (by omega), h 3 (by omega)]

/-- The word stored at position `off`. -/
def get32 (b : ByteBlock n) (off : ℕ) : UInt32 := le32 fun k => b.get (off + k)

/-- The bytes of a stored word. -/
theorem get_eq_byte32 (b : ByteBlock n) (off : ℕ) {k : ℕ} (hk : k < 4) :
    b.get (off + k) = byte32 (b.get32 off) k :=
  (byte32_le32 (fun k => b.get (off + k)) hk).symm

/-- Store a word at position `off`. -/
def set32 (b : ByteBlock n) (off : ℕ) (v : UInt32) : ByteBlock n :=
  ofFn n fun i => if off ≤ i ∧ i < off + 4 then byte32 v (i - off) else b.get i

theorem get32_congr {a b : ByteBlock n} {off : ℕ}
    (h : ∀ i, off ≤ i → i < off + 4 → a.get i = b.get i) : a.get32 off = b.get32 off :=
  le32_congr fun k hk => h (off + k) (by omega) (by omega)

/-- **Read after write.** -/
theorem get32_set32 {b : ByteBlock n} {off : ℕ} (v : UInt32) (h : off + 4 ≤ n) :
    (b.set32 off v).get32 off = v := by
  rw [get32, ← le32_byte32 v]
  refine le32_congr fun k hk => ?_
  have hin : off + k < n := by omega
  simp [set32, hin, hk, le32_byte32]

theorem get_set32_of_not_mem {b : ByteBlock n} {off i : ℕ} (v : UInt32)
    (h : i < off ∨ off + 4 ≤ i) : (b.set32 off v).get i = b.get i := by
  have hout : ¬(off ≤ i ∧ i < off + 4) := by omega
  by_cases hi : i < n
  · simp [set32, hi, hout]
  · rw [get_of_le (Nat.not_lt.mp hi), get_of_le (Nat.not_lt.mp hi)]

/-- **Read elsewhere.** -/
theorem get32_set32_of_disjoint {b : ByteBlock n} {off off' : ℕ} (v : UInt32)
    (h : off + 4 ≤ off' ∨ off' + 4 ≤ off) : (b.set32 off v).get32 off' = b.get32 off' :=
  get32_congr fun i hi hi' => get_set32_of_not_mem v (by omega)

/-! ## Copying a string of bytes into a block -/

/-- Copy the bytes of `l` to position `off`. Bytes that would land past the end are dropped. -/
def copyAt (b : ByteBlock n) (off : ℕ) (l : List UInt8) : ByteBlock n :=
  ofFn n fun i => if off ≤ i ∧ i < off + l.length then l.getD (i - off) 0 else b.get i

theorem get_copyAt_of_not_mem {b : ByteBlock n} {off i : ℕ} {l : List UInt8}
    (h : i < off ∨ off + l.length ≤ i) : (b.copyAt off l).get i = b.get i := by
  have hout : ¬(off ≤ i ∧ i < off + l.length) := by omega
  by_cases hi : i < n
  · simp [copyAt, hi, hout]
  · rw [get_of_le (Nat.not_lt.mp hi), get_of_le (Nat.not_lt.mp hi)]

theorem get_copyAt {b : ByteBlock n} {off k : ℕ} {l : List UInt8} (hk : k < l.length)
    (hn : off + k < n) : (b.copyAt off l).get (off + k) = l.getD k 0 := by
  simp [copyAt, hn, hk]

theorem get32_copyAt_of_disjoint {b : ByteBlock n} {off off' : ℕ} {l : List UInt8}
    (h : off + l.length ≤ off' ∨ off' + 4 ≤ off) : (b.copyAt off l).get32 off' = b.get32 off' :=
  get32_congr fun i hi hi' => get_copyAt_of_not_mem (by omega)

end ByteBlock
