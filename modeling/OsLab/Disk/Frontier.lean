import OsLab.Disk.Copy2myfs

/-!
# What `copy2myfs` allocates in a formatted image

In a formatted image the two zones of the bitmap are both empty, and `copy2myfs` never clears a
bit. First fit then has no holes to choose from and each zone fills from its start, so the whole
bitmap is described by two numbers: `t`, how many inodes have been allocated, and `D`, how many
data blocks. `Frontier bitmap t D` says so.

The inode zone has room for 31 inodes. From the thirty-second on, inodes are taken from the data
zone as well and the two kinds interleave there, which is why `t - 31` enters the position of the
next data block.

## Main definitions

* `Frontier` — the bitmap after `t` inodes and `D` data blocks have been allocated in a formatted
  image
* `dataAt` — the block the next data allocation returns
* `inodeAt` — the block the next inode allocation returns
* `AllocInv` — what the copying loop has done to the allocator after `j` rounds, `c₁` being the
  state it started from

## Main results

* `Frontier.alloc_inode`, `Frontier.alloc_data` — the number an allocation returns
* `storeChunk_of_lt`, `storeChunk_of_ge` — one round of the copying loop
* `AllocInv.step` — the loop invariant for the allocator's part of the state
-/

namespace OsLab

variable {bitmap : Bitmap} {t D : ℕ}

/-- The bitmap after `t` inodes and `D` data blocks have been allocated in a formatted image. -/
def Frontier (bitmap : Bitmap) (t D : ℕ) : Prop :=
  ∀ b < NR_BLOCK, used bitmap b =
    decide (b < 257 + min t 31 ∨ 288 ≤ b ∧ b < 288 + D + (t - 31))

/-- The block the next data allocation returns. -/
def dataAt (t D : ℕ) : ℕ := 288 + D + (t - 31)

/-- The block the next inode allocation returns. -/
def inodeAt (t D : ℕ) : ℕ := if t < 31 then 257 + t else dataAt t D

theorem inodeAt_of_lt (h : t < 31) : inodeAt t D = 257 + t := if_pos h

theorem inodeAt_of_ge (h : 31 ≤ t) : inodeAt t D = dataAt t D := if_neg (Nat.not_lt.mpr h)

theorem Frontier.formatter (boot : Sector) (data : ℕ → Sector) :
    Frontier (readBitmap (formatter boot data)) 0 0 := by
  intro b hb
  rw [used_formatter boot data hb]
  exact decide_eq_decide.mpr (by omega)

/-! ## The two allocations -/

theorem Frontier.firstFit_data (h : Frontier bitmap t D) (hroom : dataAt t D < NR_BLOCK) :
    FirstFit (used bitmap) (8 * AllocMode.alloc_data.base) (dataAt t D) := by
  simp only [AllocMode.base, BITMAP_USED_BYTE]
  have hpos : 288 ≤ dataAt t D := by simp only [dataAt]; omega
  refine ⟨by omega, ?_, fun c hc hlt => ?_⟩
  · rw [h _ hroom]
    exact decide_eq_false (by simp only [dataAt]; omega)
  · rw [h c (by omega)]
    exact decide_eq_true (by simp only [dataAt] at hlt; omega)

theorem Frontier.firstFit_inode (h : Frontier bitmap t D) (hroom : inodeAt t D < NR_BLOCK) :
    FirstFit (used bitmap) (8 * AllocMode.alloc_inode.base) (inodeAt t D) := by
  simp only [AllocMode.base, BITMAP_USED_BYTE]
  have hpos : 256 ≤ inodeAt t D := by simp only [inodeAt, dataAt]; split <;> omega
  refine ⟨by omega, ?_, fun c hc hlt => ?_⟩
  · rw [h _ hroom]
    exact decide_eq_false (by simp only [inodeAt, dataAt]; split <;> omega)
  · rw [h c (by omega)]
    exact decide_eq_true (by simp only [inodeAt, dataAt] at hlt; split at hlt <;> omega)

/-- **Allocating a data block.** -/
theorem Frontier.alloc_data (h : Frontier bitmap t D) (hroom : dataAt t (D + 1) ≤ NR_BLOCK)
    (bitoffset : ℕ) :
    (bitAlloc bitmap bitoffset .alloc_data).2 = dataAt t D ∧
      used (bitAlloc bitmap bitoffset .alloc_data).1 =
        Function.update (used bitmap) (dataAt t D) true ∧
      Frontier (bitAlloc bitmap bitoffset .alloc_data).1 t (D + 1) := by
  have hlt : dataAt t D < NR_BLOCK := by simp only [dataAt] at hroom ⊢; omega
  obtain ⟨hret, hused⟩ := bitAlloc_eq bitoffset (h.firstFit_data hlt) hlt
  refine ⟨hret, hused, fun b hb => ?_⟩
  rw [hused, Function.update_apply, h b hb]
  by_cases heq : b = dataAt t D
  · rw [if_pos heq]
    symm
    exact decide_eq_true (by simp only [dataAt] at heq; omega)
  · rw [if_neg heq]
    exact decide_eq_decide.mpr (by simp only [dataAt] at heq; omega)

/-- **Allocating an inode.** -/
theorem Frontier.alloc_inode (h : Frontier bitmap t D) (hroom : dataAt (t + 1) D ≤ NR_BLOCK)
    (bitoffset : ℕ) :
    (bitAlloc bitmap bitoffset .alloc_inode).2 = inodeAt t D ∧
      used (bitAlloc bitmap bitoffset .alloc_inode).1 =
        Function.update (used bitmap) (inodeAt t D) true ∧
      Frontier (bitAlloc bitmap bitoffset .alloc_inode).1 (t + 1) D := by
  have hlt : inodeAt t D < NR_BLOCK := by
    simp only [inodeAt, dataAt] at hroom ⊢
    split <;> omega
  obtain ⟨hret, hused⟩ := bitAlloc_eq bitoffset (h.firstFit_inode hlt) hlt
  refine ⟨hret, hused, fun b hb => ?_⟩
  rw [hused, Function.update_apply, h b hb]
  rcases Nat.lt_or_ge t 31 with ht | ht
  · rw [inodeAt_of_lt ht]
    by_cases heq : b = 257 + t
    · rw [if_pos heq]
      symm
      exact decide_eq_true (by omega)
    · rw [if_neg heq]
      exact decide_eq_decide.mpr (by omega)
  · rw [inodeAt_of_ge ht, dataAt]
    by_cases heq : b = 288 + D + (t - 31)
    · rw [if_pos heq]
      symm
      exact decide_eq_true (by omega)
    · rw [if_neg heq]
      exact decide_eq_decide.mpr (by omega)

/-! ## One round of the copying loop -/

section Round

variable {index : ℕ} {buf : Sector} {c : Copy} {v : FileVars}

/-- A round that still has room in the current inode. -/
theorem storeChunk_of_lt (index : ℕ) (buf : Sector) (h : Frontier c.bitmap t D)
    (hroom : dataAt t (D + 1) ≤ NR_BLOCK)
    (hlt : v.entry_index < NR_INODE_ENTRY) :
    ∃ bitmap', used bitmap' = Function.update (used c.bitmap) (dataAt t D) true ∧
      Frontier bitmap' t (D + 1) ∧
      storeChunk index buf c v =
        ({ writeData (dataAt t D) buf c with bitmap := bitmap' },
          { v with
            inode := setDataBlockOffset v.inode v.entry_index (UInt32.ofNat (dataAt t D))
            entry_index := v.entry_index + 1 }) := by
  obtain ⟨hret, hused, hfront⟩ := h.alloc_data hroom 0
  refine ⟨_, hused, hfront, ?_⟩
  simp only [storeChunk, if_pos hlt, hret, writeData]

/-- A round that finds the current inode full. -/
theorem storeChunk_of_ge (index : ℕ) (buf : Sector) (h : Frontier c.bitmap t D)
    (hroom : dataAt (t + 1) (D + 1) ≤ NR_BLOCK) (hge : NR_INODE_ENTRY ≤ v.entry_index) :
    ∃ bitmap', used bitmap' = Function.update
        (Function.update (used c.bitmap) (dataAt t D) true) (inodeAt t (D + 1)) true ∧
      Frontier bitmap' (t + 1) (D + 1) ∧
      storeChunk index buf c v =
        ({ writeData (dataAt t D) buf (writeInode index c v) with
            bitmap := bitmap'
            bitoffset := inodeAt t (D + 1) },
          { inode := setDataBlockOffset emptyInode 0 (UInt32.ofNat (dataAt t D))
            entry_index := 1
            inode_num := v.inode_num + 1 }) := by
  have hroom' : dataAt t (D + 1) ≤ NR_BLOCK := by simp only [dataAt] at hroom ⊢; omega
  obtain ⟨hret, hused, hfront⟩ := h.alloc_data hroom' 0
  obtain ⟨hret', hused', hfront'⟩ := hfront.alloc_inode hroom c.bitoffset
  refine ⟨_, by rw [hused', hused], hfront', ?_⟩
  simp only [storeChunk, if_neg (Nat.not_lt.mpr hge), hret, writeData, writeInode, allocInode,
    hret']

end Round

/-! ## The allocator's part of the loop invariant -/

/-- The number `bit_alloc` returns for inode `k` of a file stored from `t`, `D` on. The first
inode is allocated before any of the file's data, inode `k + 1` right after data block
`128 * (k + 1)`. -/
def inodeNo (t D : ℕ) : ℕ → ℕ
  | 0 => inodeAt t D
  | k + 1 => inodeAt (t + (k + 1)) (D + (128 * (k + 1) + 1))

/-- The number `bit_alloc` returns for data block `j` of a file stored from `t`, `D` on. -/
def dataNo (t D j : ℕ) : ℕ := dataAt (t + (1 + (j - 1) / 128)) (D + j)

/-- What the copying loop has done to the allocator after `j` rounds, `c₁` being the state it
started from. -/
structure AllocInv (t D j : ℕ) (c₁ c : Copy) (v : FileVars) : Prop where
  /-- All inodes but the current one are full. -/
  inode_num : v.inode_num = (j - 1) / 128
  /-- The current inode holds the entries of the remaining rounds. -/
  entry_index : v.entry_index = j - 128 * ((j - 1) / 128)
  /-- So many blocks have been allocated. -/
  frontier : Frontier c.bitmap (t + (1 + (j - 1) / 128)) (D + j)
  /-- The directory is not touched. -/
  direct : c.direct = c₁.direct
  /-- `bitoffset` is the number of the current inode. -/
  bitoffset : c.bitoffset = inodeNo t D ((j - 1) / 128)

namespace AllocInv

variable {j : ℕ} {c₁ c : Copy} {v : FileVars}

/-- The state the loop starts from. -/
theorem start (h : Frontier c₁.bitmap (t + 1) D) (hbit : c₁.bitoffset = inodeAt t D) :
    AllocInv t D 0 c₁ c₁ ⟨emptyInode, 0, 0⟩ :=
  ⟨rfl, rfl, h, rfl, hbit⟩

/-- In every round but the first of each further inode the current one has room. -/
theorem entry_index_lt_iff (h : AllocInv t D j c₁ c v) :
    v.entry_index < NR_INODE_ENTRY ↔ j / 128 = (j - 1) / 128 := by
  rw [h.entry_index, NR_INODE_ENTRY]
  omega

/-- **The step of the loop.** -/
theorem step {index : ℕ} {buf : Sector} (h : AllocInv t D j c₁ c v)
    (hroom : dataAt (t + (1 + j / 128)) (D + (j + 1)) ≤ NR_BLOCK) :
    AllocInv t D (j + 1) c₁ (storeChunk index buf c v).1 (storeChunk index buf c v).2 := by
  by_cases hlt : v.entry_index < NR_INODE_ENTRY
  · have hj := h.entry_index_lt_iff.mp hlt
    obtain ⟨bitmap', -, hfront, heq⟩ :=
      storeChunk_of_lt index buf h.frontier (by rw [← hj]; exact hroom) hlt
    rw [heq]
    refine ⟨?_, ?_, ?_, h.direct, ?_⟩
    · rw [h.inode_num, Nat.add_sub_cancel, hj]
    · simp only [h.entry_index, Nat.add_sub_cancel, hj]; omega
    · rw [Nat.add_sub_cancel, hj]; exact hfront
    · rw [Nat.add_sub_cancel, hj]; exact h.bitoffset
  · have hj : j / 128 = (j - 1) / 128 + 1 := by
      have := mt h.entry_index_lt_iff.mpr hlt
      omega
    obtain ⟨bitmap', -, hfront, heq⟩ :=
      storeChunk_of_ge index buf h.frontier
        (by rw [Nat.add_assoc, Nat.add_assoc, ← hj]; exact hroom) (Nat.not_lt.mp hlt)
    rw [heq]
    refine ⟨?_, ?_, ?_, h.direct, ?_⟩
    · rw [Nat.add_sub_cancel, hj, h.inode_num]
    · simp only [Nat.add_sub_cancel, hj]; omega
    · rw [Nat.add_sub_cancel, hj]; exact hfront
    · have hno : inodeNo t D (j / 128) = inodeAt (t + (1 + (j - 1) / 128)) (D + j + 1) := by
        rw [hj, inodeNo, Nat.add_comm 1]
        congr 1
        omega
      rw [Nat.add_sub_cancel, hno]

end AllocInv

end OsLab
