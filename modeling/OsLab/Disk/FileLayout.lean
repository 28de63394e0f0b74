import OsLab.Disk.Directory

/-!
# Where `copy2myfs` puts a file

A file that is stored when `t` inodes and `D` data blocks have been allocated has its first inode in
block `inodeAt t D`. If that is its only inode, or if all of them fit in the inode zone, its inodes
are in consecutive blocks and so is its data, from `dataAt (t + 1) D` on. While the zone lasts these
are blocks `257 + t` and `288 + D`. The boot loader and the kernel's loader both count on this: they
read a program's image at `elf_offset * 512 + off`, from its first data block straight on.

`Stored` is what a disk has to look like for one file. It only speaks of the file's own blocks, and
later files are given other blocks. A later file still reaches into them if it is the one on which
the inode zone runs out, since its inodes go to consecutive blocks all the same; `Untouched`
excludes that, and with it `Stored` is carried through the list of files.

## Main definitions

* `StoredInode` — the blocks from `base` on are the inodes of a file of `n` bytes whose data is in
  the blocks from `d` on
* `Stored` — the blocks from `base` and `d` on hold a file
* `InodesFit` — when a file's inodes are in a row
* `Untouched` — none of the files between file `i` and file `m` has an inode that is put on the
  first data block of file `i`
* `RunInv` — the state after the first `k` files

## Main results

* `storeFile_spec` — the blocks one file is given, and their contents
* `RunInv.storeFiles` — the state after the first `k` files
-/

namespace OsLab

variable {t D base d : ℕ} {data : List UInt8}

/-- The blocks from `base` on are the inodes of a file of `n` bytes whose data is in the blocks from
`d` on. Entry `j` of the chain is the number of data block `j`, entries past the last are `-1`. -/
structure StoredInode (img : Disk) (base d n : ℕ) : Prop where
  entry : ∀ j < chunkCount n,
    dataBlockOffset (img (base + j / 128 + 1)) (j % 128) = UInt32.ofNat (d + j)
  rest : ∀ j, chunkCount n ≤ j → j < 128 * inodeCount n →
    dataBlockOffset (img (base + j / 128 + 1)) (j % 128) = minusOne

/-- The blocks from `base` and `d` on hold a file. -/
structure Stored (img : Disk) (base d : ℕ) (data : List UInt8) : Prop
    extends StoredInode img base d data.length where
  data : ∀ j < chunkCount data.length, img (d + j + 1) = chunk data j

/-- Only the file's own blocks matter. -/
theorem StoredInode.congr {img img' : Disk} {n : ℕ} (h : StoredInode img base d n)
    (hinode : ∀ i < inodeCount n, img' (base + i + 1) = img (base + i + 1)) :
    StoredInode img' base d n := by
  simp only [inodeCount] at hinode
  refine ⟨fun j hj => ?_, fun j hj hj' => ?_⟩
  · rw [hinode _ (by simp only [chunkCount] at hj; omega), h.entry j hj]
  · rw [hinode _ (by simp only [inodeCount] at hj'; omega), h.rest j hj hj']

theorem Stored.congr {img img' : Disk} (h : Stored img base d data)
    (hinode : ∀ i < inodeCount data.length, img' (base + i + 1) = img (base + i + 1))
    (hdata : ∀ j < chunkCount data.length, img' (d + j + 1) = img (d + j + 1)) :
    Stored img' base d data :=
  ⟨h.toStoredInode.congr hinode, fun j hj => by rw [hdata j hj, h.data j hj]⟩

theorem inodeSector_ofNat {off num : ℕ} (h : off + num < NR_BLOCK) :
    inodeSector (UInt32.ofNat off) num = off + num + 1 := by
  simp only [NR_BLOCK, BITMAP_SIZE] at h
  simp only [inodeSector, UInt32.toNat_add, UInt32.toNat_mul, UInt32.toNat_ofNat',
    UInt32.toNat_ofNat]
  omega

/-- **When a file's inodes are in a row.** A file of `n` bytes has a single inode, or finds room for
all of its inodes in the inode zone. -/
def InodesFit (t n : ℕ) : Prop := inodeCount n = 1 ∨ t + inodeCount n ≤ 31

theorem dataNo_eq (hfit : InodesFit t data.length) {j : ℕ}
    (hj : j < chunkCount data.length) : dataNo t D j = dataAt (t + 1) D + j := by
  simp only [InodesFit, inodeCount, chunkCount] at hfit hj
  simp only [dataNo, dataAt]
  omega

/-- The inodes come before the data. -/
theorem inodeAt_add_le (hfit : InodesFit t data.length) :
    inodeAt t D + inodeCount data.length ≤ dataAt (t + 1) D := by
  simp only [InodesFit] at hfit
  simp only [inodeAt, dataAt]
  split <;> omega

/-! ## The loop over the data of one file -/

/-- What the copying loop has put on the disk after `j` rounds. -/
structure DiskInv (base d : ℕ) (data : List UInt8) (j : ℕ) (c : Copy) (v : FileVars) : Prop where
  /-- The current inode, still in memory. -/
  current : ∀ e < 128, dataBlockOffset v.inode e =
    if e < v.entry_index then UInt32.ofNat (d + (128 * v.inode_num + e)) else minusOne
  /-- The inodes already written. -/
  full : ∀ i < 128 * v.inode_num,
    dataBlockOffset (c.disk (base + i / 128 + 1)) (i % 128) = UInt32.ofNat (d + i)
  /-- The data already written. -/
  data : ∀ i < j, c.disk (d + i + 1) = chunk data i

theorem DiskInv.start (c : Copy) : DiskInv base d data 0 c ⟨emptyInode, 0, 0⟩ :=
  ⟨fun e he => by simpa using dataBlockOffset_emptyInode he,
    fun i hi => absurd hi (Nat.not_lt_zero i), fun i hi => absurd hi (Nat.not_lt_zero i)⟩

section Step

variable {index j : ℕ} {c₁ c : Copy} {v : FileVars}

/-- **The step of the loop.** The inodes come before the data, so neither write disturbs what the
other kind has put there. -/
theorem DiskInv.step (ha : AllocInv t D j c₁ c v) (h : DiskInv base d data j c v)
    (hoff : inodeOffset c₁.direct index = UInt32.ofNat base)
    (hno : dataAt (t + (1 + (j - 1) / 128)) (D + j) = d + j)
    (hbd : base + inodeCount data.length ≤ d) (hj : j < chunkCount data.length)
    (hroom : dataAt (t + inodeCount data.length) (D + chunkCount data.length) ≤ NR_BLOCK) :
    DiskInv base d data (j + 1) (storeChunk index (chunk data j) c v).1
      (storeChunk index (chunk data j) c v).2 := by
  have hjn := hj
  have hzn := hbd
  simp only [chunkCount, inodeCount] at hjn hzn
  have hroom' : dataAt (t + (1 + j / 128)) (D + (j + 1)) ≤ NR_BLOCK := by
    simp only [dataAt, chunkCount, inodeCount] at hroom ⊢; omega
  have hbase : d + j < NR_BLOCK := by
    rw [← hno]
    simp only [dataAt] at hroom' ⊢
    omega
  have hei := ha.entry_index
  have hin := ha.inode_num
  by_cases hlt : v.entry_index < NR_INODE_ENTRY
  · have hq := ha.entry_index_lt_iff.mp hlt
    obtain ⟨bitmap', -, -, heq⟩ := storeChunk_of_lt index (chunk data j)
      ha.frontier (by rw [← hq]; exact hroom') hlt
    rw [heq]
    simp only [writeData, hno]
    refine ⟨?_, ?_, ?_⟩ <;> dsimp only
    · -- the entry just filled, or one the round leaves alone
      intro e he
      rcases eq_or_ne e v.entry_index with rfl | hne
      · rw [dataBlockOffset_set_self _ hlt, if_pos (Nat.lt_succ_self _)]
        congr 1; omega
      · rw [dataBlockOffset_set_of_ne _ hne, h.current e he]
        exact if_congr (by omega) rfl rfl
    · intro i hi
      rw [Disk.write_of_ne _ (by omega), h.full i hi]
    · intro i hi
      rcases Nat.eq_or_lt_of_le (Nat.le_of_lt_succ hi) with rfl | hi
      · exact Disk.write_self ..
      · rw [Disk.write_of_ne _ (by omega), h.data i hi]
  · have hge := Nat.not_lt.mp hlt
    have hfull : v.entry_index = 128 := by
      simp only [NR_INODE_ENTRY] at hge; omega
    have hjq : j = 128 * (v.inode_num + 1) := by omega
    have hsector : inodeSector (inodeOffset c.direct index) v.inode_num =
        base + v.inode_num + 1 := by
      rw [ha.direct, hoff, inodeSector_ofNat (by omega)]
    obtain ⟨bitmap', -, -, heq⟩ := storeChunk_of_ge index (chunk data j)
      ha.frontier (by
        have hq : t + (1 + (j - 1) / 128) + 1 = t + (1 + j / 128) := by omega
        rw [hq]; exact hroom') hge
    rw [heq]
    simp only [writeData, writeInode, hno, hsector]
    refine ⟨?_, ?_, ?_⟩ <;> dsimp only
    · -- the fresh inode has only its first entry
      intro e he
      rcases eq_or_ne e 0 with rfl | hne
      · rw [dataBlockOffset_set_self _ (by simp [NR_INODE_ENTRY]), if_pos (Nat.lt_succ_self _)]
        congr 1; omega
      · rw [dataBlockOffset_set_of_ne _ hne, dataBlockOffset_emptyInode he, if_neg (by omega)]
    · -- the inode just written, or an earlier one
      intro i hi
      rw [Disk.write_of_ne _ (by omega)]
      rcases Nat.lt_or_ge i (128 * v.inode_num) with hi' | hi'
      · rw [Disk.write_of_ne _ (by omega), h.full i hi']
      · have hblock : base + i / 128 + 1 = base + v.inode_num + 1 := by omega
        rw [hblock, Disk.write_self, h.current _ (Nat.mod_lt _ (by omega)), if_pos (by omega)]
        congr 1; omega
    · intro i hi
      rcases Nat.eq_or_lt_of_le (Nat.le_of_lt_succ hi) with rfl | hi
      · exact Disk.write_self ..
      · rw [Disk.write_of_ne _ (by omega), Disk.write_of_ne _ (by omega), h.data i hi]

/-! ### Blocks that were there before

The inodes of a file go to `base`, `base + 1`, … even when the zone has run out. A block that lies
before the file's own data is therefore left alone, unless one of these inodes is put there.
-/

/-- What the copying loop has done to the blocks before `dataAt (t + 1) D`, `c₁` being the state it
started from. -/
structure BeforeInv (base t D : ℕ) (c₁ c : Copy) (v : FileVars) : Prop where
  /-- The first entry of the current inode. -/
  current : 0 < v.entry_index →
    dataBlockOffset v.inode 0 = UInt32.ofNat (dataNo t D (128 * v.inode_num))
  /-- Blocks that no inode was put on. -/
  kept : ∀ b < dataAt (t + 1) D, (b < base ∨ base + v.inode_num ≤ b) →
    c.disk (b + 1) = c₁.disk (b + 1)
  /-- Blocks that an inode was put on. -/
  first : ∀ i < v.inode_num, base + i < dataAt (t + 1) D →
    dataBlockOffset (c.disk (base + i + 1)) 0 = UInt32.ofNat (dataNo t D (128 * i))

theorem BeforeInv.start (c : Copy) : BeforeInv base t D c c ⟨emptyInode, 0, 0⟩ :=
  ⟨fun h => absurd h (Nat.lt_irrefl 0), fun _ _ _ => rfl, fun i hi => absurd hi (Nat.not_lt_zero i)⟩

theorem dataAt_le_dataNo (j : ℕ) : dataAt (t + 1) D ≤ dataNo t D j := by
  simp only [dataNo, dataAt]
  omega

/-- **The step for the blocks that were there before.** -/
theorem BeforeInv.step {buf : Sector} (ha : AllocInv t D j c₁ c v) (h : BeforeInv base t D c₁ c v)
    (hsector : inodeSector (inodeOffset c₁.direct index) v.inode_num = base + v.inode_num + 1)
    (hroom : dataAt (t + (1 + j / 128)) (D + (j + 1)) ≤ NR_BLOCK) :
    BeforeInv base t D c₁ (storeChunk index buf c v).1 (storeChunk index buf c v).2 := by
  have hno : dataAt (t + (1 + (j - 1) / 128)) (D + j) = dataNo t D j := rfl
  have hlow := dataAt_le_dataNo (t := t) (D := D) j
  have hei := ha.entry_index
  have hin := ha.inode_num
  by_cases hlt : v.entry_index < NR_INODE_ENTRY
  · have hq := ha.entry_index_lt_iff.mp hlt
    obtain ⟨bitmap', -, -, heq⟩ :=
      storeChunk_of_lt index buf ha.frontier (by rw [← hq]; exact hroom)
      hlt
    rw [heq]
    simp only [writeData, hno]
    refine ⟨fun _ => ?_, fun b hb hb' => ?_, fun i hi hib => ?_⟩ <;> dsimp only
    · rcases Nat.eq_zero_or_pos v.entry_index with hzero | hpos
      · rw [hzero, dataBlockOffset_set_self _ (by decide)]
        congr 2
        omega
      · rw [dataBlockOffset_set_of_ne _ (Nat.ne_of_lt hpos), h.current hpos]
    · rw [Disk.write_of_ne _ (by omega), h.kept b hb hb']
    · rw [Disk.write_of_ne _ (by omega), h.first i hi hib]
  · have hge := Nat.not_lt.mp hlt
    have hfull := hge
    simp only [NR_INODE_ENTRY] at hfull
    obtain ⟨bitmap', -, -, heq⟩ := storeChunk_of_ge index buf ha.frontier (by
      have hq : t + (1 + (j - 1) / 128) + 1 = t + (1 + j / 128) := by omega
      rw [hq]; exact hroom) hge
    rw [heq]
    simp only [writeData, writeInode, hno, ha.direct, hsector]
    refine ⟨fun _ => ?_, fun b hb hb' => ?_, fun i hi hib => ?_⟩
    · dsimp only
      rw [dataBlockOffset_set_self _ (by decide)]
      congr 2
      omega
    · dsimp only at hb' ⊢
      rw [Disk.write_of_ne _ (by omega), Disk.write_of_ne _ (by omega), h.kept b hb (by omega)]
    · dsimp only at hi ⊢
      rw [Disk.write_of_ne _ (by omega)]
      rcases Nat.eq_or_lt_of_le (Nat.le_of_lt_succ hi) with rfl | hi
      · rw [Disk.write_self, h.current (by omega)]
      · rw [Disk.write_of_ne _ (by omega), h.first i hi hib]

end Step

/-! ## One file -/

section OneFile

variable {c : Copy} {name : List UInt8} {k : ℕ}

/-- **One file's turn.** It is given inode blocks from `inodeAt t D` on, data blocks from
`dataAt (t + 1) D` on and directory entry `k`. A block before its data keeps what it holds, or has
become one of its inodes. -/
theorem storeFile_spec (data : List UInt8) (hf : Frontier c.bitmap t D) (hk : k < NR_DIR_ENTRY)
    (hfree : freeEntry c.direct = k)
    (hroom : dataAt (t + inodeCount data.length) (D + chunkCount data.length) ≤ NR_BLOCK) :
    Frontier (storeFile c name data).bitmap (t + inodeCount data.length)
        (D + chunkCount data.length) ∧
      (storeFile c name data).direct = fillEntry c.direct k name data.length (inodeAt t D) ∧
      (InodesFit t data.length →
        Stored (storeFile c name data).disk (inodeAt t D) (dataAt (t + 1) D) data) ∧
      (∀ b < dataAt (t + 1) D, (b < inodeAt t D ∨ inodeAt t D + inodeCount data.length ≤ b) →
        (storeFile c name data).disk (b + 1) = c.disk (b + 1)) ∧
      ∀ i < inodeCount data.length, inodeAt t D + i < dataAt (t + 1) D →
        dataBlockOffset ((storeFile c name data).disk (inodeAt t D + i + 1)) 0 =
          UInt32.ofNat (dataNo t D (128 * i)) := by
  have hrn := hroom
  simp only [inodeCount, chunkCount, dataAt] at hrn
  obtain ⟨hret, -, hfront⟩ := hf.alloc_inode (by simp only [dataAt]; omega) c.bitoffset
  have hend : inodeAt t D + data.length / 512 / 128 < NR_BLOCK := by
    simp only [inodeAt, dataAt]
    simp only [NR_BLOCK, BITMAP_SIZE] at hrn ⊢
    split <;> omega
  set base := inodeAt t D with hbase
  set d := dataAt (t + 1) D with hd'
  set c₁ := beginFile c name data.length with hc₁
  have hbegin : c₁ = { allocInode c with
      direct := fillEntry c.direct k name data.length base } := by
    simp only [hc₁, beginFile, allocInode, hfree, if_pos hk, hret]
  have hoff : inodeOffset c₁.direct k = UInt32.ofNat base := by
    rw [hbegin]; exact inodeOffset_fillEntry hk
  have hsector : ∀ num ≤ data.length / 512 / 128,
      inodeSector (inodeOffset c₁.direct k) num = base + num + 1 := fun num hnum => by
    rw [hoff, inodeSector_ofNat (by omega)]
  have hloop := storeChunks_induction k data
    (P := fun j c v => AllocInv t D j c₁ c v ∧ BeforeInv base t D c₁ c v ∧
      (InodesFit t data.length → DiskInv base d data j c v))
    (fun j c v hj hinv => by
      obtain ⟨ha, hb, hd⟩ := hinv
      have hin := ha.inode_num
      have hroomj : dataAt (t + (1 + j / 128)) (D + (j + 1)) ≤ NR_BLOCK := by
        simp only [dataAt, chunkCount] at hj ⊢
        omega
      refine ⟨ha.step hroomj,
        hb.step ha (hsector _ (by simp only [chunkCount] at hj; omega)) hroomj,
        fun hfit => ?_⟩
      have hno : dataAt (t + (1 + (j - 1) / 128)) (D + j) = d + j := dataNo_eq hfit hj
      exact (hd hfit).step ha hoff hno (inodeAt_add_le hfit) hj hroom)
    (c := c₁) (v := ⟨emptyInode, 0, 0⟩)
    ⟨AllocInv.start (by rw [hbegin]; exact hfront) (by rw [hbegin]; exact hret),
      BeforeInv.start c₁, fun _ => DiskInv.start c₁⟩
  rw [storeFile]
  simp only [hfree, ← hc₁]
  obtain ⟨ha, hb, hd⟩ := hloop
  set r := storeChunks k c₁ ⟨emptyInode, 0, 0⟩ data
  have hei := ha.entry_index
  have hin := ha.inode_num
  simp only [chunkCount, Nat.add_sub_cancel] at hei hin
  have hlast : inodeSector (inodeOffset r.1.direct k) r.2.inode_num = base + r.2.inode_num + 1 := by
    rw [ha.direct, hsector _ (by omega)]
  simp only [writeInode, hlast]
  refine ⟨?_, ?_, fun hfit => ?_, fun b hbd hb' => ?_, fun i hi hib => ?_⟩
  · have hcount : t + (1 + (chunkCount data.length - 1) / 128) = t + inodeCount data.length := by
      simp only [chunkCount, inodeCount, Nat.add_sub_cancel]; omega
    rw [← hcount]
    exact ha.frontier
  · rw [ha.direct, hbegin]
  · have hbd : base + inodeCount data.length ≤ d := inodeAt_add_le hfit
    simp only [inodeCount] at hbd
    refine ⟨⟨fun j hj => ?_, fun j hj hj' => ?_⟩, fun j hj => ?_⟩
    · -- an entry of the last inode, or of one written in the loop
      simp only [chunkCount] at hj
      rcases Nat.lt_or_ge j (128 * r.2.inode_num) with hj' | hj'
      · rw [Disk.write_of_ne _ (by omega), (hd hfit).full j hj']
      · have hblock : base + j / 128 + 1 = base + r.2.inode_num + 1 := by omega
        rw [hblock, Disk.write_self, (hd hfit).current _ (Nat.mod_lt _ (by omega)),
          if_pos (by omega)]
        congr 1; omega
    · simp only [chunkCount, inodeCount] at hj hj'
      have hblock : base + j / 128 + 1 = base + r.2.inode_num + 1 := by omega
      rw [hblock, Disk.write_self, (hd hfit).current _ (Nat.mod_lt _ (by omega)),
        if_neg (by omega)]
    · simp only [chunkCount] at hj
      rw [Disk.write_of_ne _ (by omega), (hd hfit).data j (by simp only [chunkCount]; omega)]
  · simp only [inodeCount] at hb'
    rw [Disk.write_of_ne _ (by omega), hb.kept b hbd (by omega), hbegin]
    rfl
  · simp only [inodeCount] at hi
    rcases Nat.eq_or_lt_of_le (Nat.le_of_lt_succ hi) with rfl | hi
    · rw [← hin, Disk.write_self, hb.current (by omega)]
    · rw [Disk.write_of_ne _ (by omega), hb.first i (by omega) hib]

end OneFile

/-! ## All files -/

section AllFiles

variable (files : List InFile)

/-- The inodes of the first `k` files. -/
def inodesBefore (k : ℕ) : ℕ := ((files.take k).map fun f => inodeCount f.data.length).sum

/-- The data blocks of the first `k` files. -/
def chunksBefore (k : ℕ) : ℕ := ((files.take k).map fun f => chunkCount f.data.length).sum

variable {files}

theorem inodesBefore_succ {k : ℕ} (hk : k < files.length) :
    inodesBefore files (k + 1) = inodesBefore files k + inodeCount files[k].data.length :=
  List.sum_map_take_succ hk

theorem chunksBefore_succ {k : ℕ} (hk : k < files.length) :
    chunksBefore files (k + 1) = chunksBefore files k + chunkCount files[k].data.length :=
  List.sum_map_take_succ hk

theorem inodesBefore_mono {k m : ℕ} (h : k ≤ m) : inodesBefore files k ≤ inodesBefore files m :=
  List.sum_map_take_le h

theorem chunksBefore_mono {k m : ℕ} (h : k ≤ m) : chunksBefore files k ≤ chunksBefore files m :=
  List.sum_map_take_le h

/-- The inodes of file `i` come before those of any later file, and likewise its data. -/
theorem footprint_le {i k : ℕ} (hi : i < files.length) (hik : i < k) :
    inodesBefore files i + inodeCount files[i].data.length ≤ inodesBefore files k ∧
      chunksBefore files i + chunkCount files[i].data.length ≤
        chunksBefore files k := by
  rw [← inodesBefore_succ (by omega), ← chunksBefore_succ (by omega)]
  exact ⟨inodesBefore_mono hik, chunksBefore_mono hik⟩

variable (files) in
/-- The first inode block of file `i`. -/
def inodeStart (i : ℕ) : ℕ := inodeAt (inodesBefore files i) (chunksBefore files i)

variable (files) in
/-- The first data block of file `i`. -/
def dataStart (i : ℕ) : ℕ := dataAt (inodesBefore files i + 1) (chunksBefore files i)

/-- While the inode zone lasts it is filled from its start, and so is the data zone. -/
theorem inodeStart_eq (hzone : inodesBefore files files.length ≤ 31) {k : ℕ}
    (hk : k < files.length) : inodeStart files k = 257 + inodesBefore files k ∧
      dataStart files k = 288 + chunksBefore files k := by
  obtain ⟨hzk, -⟩ := footprint_le hk hk
  simp only [inodeCount] at hzk
  rw [inodeStart, dataStart, inodeAt_of_lt (by omega), dataAt]
  omega

variable (files) in
/-- None of the files between file `i` and file `m` has an inode that is put on the first data block
of file `i`. -/
def Untouched (i m : ℕ) : Prop :=
  ∀ (s : ℕ) (hs : s < files.length), i < s → s < m → ∀ b < inodeCount files[s].data.length,
    inodeStart files s + b ≠ dataStart files i

theorem untouched_of_zone (hzone : inodesBefore files files.length ≤ 31) {i : ℕ}
    (hi : i < files.length) (m : ℕ) : Untouched files i m := by
  intro s hs _ _ b hb
  obtain ⟨hzs, -⟩ := footprint_le hs hs
  rw [(inodeStart_eq hzone hs).1, (inodeStart_eq hzone hi).2]
  omega

/-- An inode that reaches the data of an earlier file comes from the end of the inode zone, and it
reaches the first block of that data. -/
theorem inode_on_data {i s b : ℕ} (hi : i < files.length) (his : i < s)
    (hlow : dataStart files i ≤ inodeStart files s + b)
    (hb : inodeStart files s + b < dataStart files i + chunkCount files[i].data.length) :
    inodeStart files s = 257 + inodesBefore files s ∧ 31 ≤ inodesBefore files s + b ∧
      inodeStart files s ≤ dataStart files i := by
  obtain ⟨hz, hr⟩ := footprint_le hi his
  have hpos : 0 < inodeCount files[i].data.length := Nat.succ_pos _
  rcases Nat.lt_or_ge (inodesBefore files s) 31 with hlt | hge
  · have hbase : inodeStart files s = 257 + inodesBefore files s := inodeAt_of_lt hlt
    simp only [dataStart, dataAt] at hlow ⊢
    omega
  · have hbase : inodeStart files s = dataAt (inodesBefore files s) (chunksBefore files s) :=
      inodeAt_of_ge hge
    simp only [dataStart, dataAt] at hb hbase
    omega

/-- The state after the first `k` files. -/
structure RunInv (files : List InFile) (k : ℕ) (c : Copy) : Prop where
  frontier : Frontier c.bitmap (inodesBefore files k) (chunksBefore files k)
  /-- File `i` is in entry `i`. -/
  entry : ∀ (i : ℕ) (hi : i < files.length), i < k → IsEntry c.direct i files[i].name.val
    files[i].data.length (inodeStart files i)
  /-- The other entries are free. -/
  free : ∀ e, k ≤ e → e < NR_DIR_ENTRY → FreeSlot c.direct e
  /-- Inodes in a row stay what they are. -/
  inode : ∀ (i : ℕ) (hi : i < files.length), i < k →
    InodesFit (inodesBefore files i) files[i].data.length →
      StoredInode c.disk (inodeStart files i) (dataStart files i) files[i].data.length
  stored : ∀ (i : ℕ) (hi : i < files.length), i < k →
    InodesFit (inodesBefore files i) files[i].data.length → Untouched files i k →
      Stored c.disk (inodeStart files i) (dataStart files i) files[i].data
  /-- An inode that was put on the data of an earlier file is still there. -/
  lost : ∀ (i s b : ℕ) (_ : i < files.length) (hs : s < files.length), i < s → s < k →
    b < inodeCount files[s].data.length → inodeStart files s + b = dataStart files i →
      dataBlockOffset (c.disk (dataStart files i + 1)) 0 =
        UInt32.ofNat (dataNo (inodesBefore files s) (chunksBefore files s) (128 * b))

theorem RunInv.start (boot : Sector) (mem : ℕ → Sector) (bitoffset : ℕ) :
    RunInv files 0 (startCopy (formatter boot mem) bitoffset) := by
  refine ⟨Frontier.formatter boot mem, fun i _ hi => absurd hi (Nat.not_lt_zero i),
    fun e _ he => ?_, fun i _ hi => absurd hi (Nat.not_lt_zero i),
    fun i _ hi => absurd hi (Nat.not_lt_zero i), fun i s b _ _ _ hs =>
      absurd hs (Nat.not_lt_zero s)⟩
  rw [startCopy, formatter_dir]
  exact freeSlot_formatDir he

/-- There is room for the blocks of every file. -/
theorem start_lt
    (hroom : dataAt (inodesBefore files files.length) (chunksBefore files files.length) ≤ NR_BLOCK)
    {k : ℕ} (hk : k < files.length) :
    dataAt (inodesBefore files k + inodeCount files[k].data.length)
        (chunksBefore files k + chunkCount files[k].data.length) ≤ NR_BLOCK ∧
      inodeStart files k < NR_BLOCK := by
  obtain ⟨hzk, hrk⟩ := footprint_le hk hk
  have hpos : 0 < chunkCount files[k].data.length := Nat.succ_pos _
  simp only [inodeStart, inodeAt, dataAt] at hroom ⊢
  refine ⟨by omega, ?_⟩
  split
  · simp only [NR_BLOCK, BITMAP_SIZE]
    omega
  · omega

/-- The blocks of file `i` come before those of file `k`, apart from inodes that are put on its
data. -/
theorem start_le {i k : ℕ} (hi : i < files.length) (hik : i < k)
    (hfit : InodesFit (inodesBefore files i) files[i].data.length) :
    inodeStart files i + inodeCount files[i].data.length ≤ inodeStart files k ∧
      inodeStart files i + inodeCount files[i].data.length ≤ dataStart files i ∧
      dataStart files i + chunkCount files[i].data.length ≤ dataStart files k := by
  obtain ⟨hz, hr⟩ := footprint_le hi hik
  have hpos : 0 < inodeCount files[i].data.length := Nat.succ_pos _
  refine ⟨?_, inodeAt_add_le hfit, ?_⟩
  · simp only [InodesFit] at hfit
    simp only [inodeStart, inodeAt, dataAt]
    split <;> split <;> omega
  · simp only [dataStart, dataAt]
    omega

/-- An inode on any block of a file's data comes with one on the first block. -/
theorem kept_of_untouched {i k j : ℕ} (hi : i < files.length) (hk : k < files.length) (hik : i < k)
    (hfree : ∀ b < inodeCount files[k].data.length, inodeStart files k + b ≠ dataStart files i)
    (hj : j < chunkCount files[i].data.length) :
    dataStart files i + j < inodeStart files k ∨
      inodeStart files k + inodeCount files[k].data.length ≤ dataStart files i + j := by
  by_contra hon
  obtain ⟨-, -, hle⟩ := inode_on_data (b := dataStart files i + j - inodeStart files k) hi hik
    (by omega) (by omega)
  exact hfree (dataStart files i - inodeStart files k) (by omega) (by omega)

/-- What storing file `k` does after the files before it. -/
theorem RunInv.storeFile {k : ℕ} {c : Copy} (h : RunInv files k c) (hk : k < files.length)
    (hlen : files.length ≤ NR_DIR_ENTRY)
    (hroom : dataAt (inodesBefore files files.length) (chunksBefore files files.length) ≤
      NR_BLOCK) :
    Frontier (OsLab.storeFile c files[k].name.val files[k].data).bitmap (inodesBefore files (k + 1))
        (chunksBefore files (k + 1)) ∧
      (OsLab.storeFile c files[k].name.val files[k].data).direct =
        fillEntry c.direct k files[k].name.val files[k].data.length (inodeStart files k) ∧
      (InodesFit (inodesBefore files k) files[k].data.length →
        Stored (OsLab.storeFile c files[k].name.val files[k].data).disk (inodeStart files k)
          (dataStart files k) files[k].data) ∧
      (∀ b < dataStart files k,
        (b < inodeStart files k ∨ inodeStart files k + inodeCount files[k].data.length ≤ b) →
        (OsLab.storeFile c files[k].name.val files[k].data).disk (b + 1) = c.disk (b + 1)) ∧
      ∀ b < inodeCount files[k].data.length, inodeStart files k + b < dataStart files k →
        dataBlockOffset
            ((OsLab.storeFile c files[k].name.val files[k].data).disk
              (inodeStart files k + b + 1)) 0 =
          UInt32.ofNat (dataNo (inodesBefore files k) (chunksBefore files k) (128 * b)) := by
  have hfree : freeEntry c.direct = k := by
    refine freeEntry_eq (by omega) (h.free k (Nat.le_refl _) (by omega)).offset fun e he => ?_
    rw [(h.entry e (by omega) he).offset]
    exact ofNat_ne_minusOne (start_lt hroom (by omega)).2
  rw [inodesBefore_succ hk, chunksBefore_succ hk]
  exact storeFile_spec files[k].data h.frontier (by omega) hfree (start_lt hroom hk).1

/-- **The step from file to file.** -/
theorem RunInv.step {k : ℕ} {c : Copy} (h : RunInv files k c) (hk : k < files.length)
    (hlen : files.length ≤ NR_DIR_ENTRY) (hshort : ∀ f ∈ files, f.name.val.length < 24)
    (hroom : dataAt (inodesBefore files files.length) (chunksBefore files files.length) ≤
      NR_BLOCK) :
    RunInv files (k + 1) (OsLab.storeFile c files[k].name.val files[k].data) := by
  have hname : files[k].name.val.length < 24 := hshort _ (List.getElem_mem hk)
  have hslot := h.free k (Nat.le_refl _) (by omega)
  obtain ⟨hfront, hdir, hstored, hkept, hfirst⟩ := h.storeFile hk hlen hroom
  have hpos : 0 < chunkCount files[k].data.length := Nat.succ_pos _
  refine ⟨hfront, fun i hi hik => ?_, fun e he he' => ?_, fun i hi hik hfit => ?_,
    fun i hi hik hfit hun => ?_, fun i s b hi hs his hsk hb hon => ?_⟩
  · rw [hdir]
    rcases Nat.eq_or_lt_of_le (Nat.le_of_lt_succ hik) with rfl | hlt
    · exact isEntry_fillEntry hslot (by omega) hname
    · exact (h.entry i hi hlt).fillEntry (by omega) (hshort _ (List.getElem_mem hi)) (by omega)
  · rw [hdir]
    exact (h.free e (by omega) he').fillEntry (by omega) (by omega)
  · rcases Nat.eq_or_lt_of_le (Nat.le_of_lt_succ hik) with rfl | hlt
    · exact (hstored hfit).toStoredInode
    · obtain ⟨hii, hid, hdd⟩ := start_le hi hlt hfit
      exact (h.inode i hi hlt hfit).congr fun b hb => hkept _ (by omega) (.inl (by omega))
  · rcases Nat.eq_or_lt_of_le (Nat.le_of_lt_succ hik) with rfl | hlt
    · exact hstored hfit
    · obtain ⟨hii, hid, hdd⟩ := start_le hi hlt hfit
      refine (h.stored i hi hlt hfit fun s hs his hsk => hun s hs his (by omega)).congr
        (fun b hb => hkept _ (by omega) (.inl (by omega))) fun j hj => hkept _ (by omega) ?_
      exact kept_of_untouched hi hk hlt (hun k hk hlt (Nat.lt_succ_self k)) hj
  · have hpos : 0 < chunkCount files[i].data.length := Nat.succ_pos _
    obtain ⟨hbase, hpast, -⟩ := inode_on_data (b := b) hi his (by omega) (by omega)
    obtain ⟨hz, hr⟩ := footprint_le hi his
    rcases Nat.eq_or_lt_of_le (Nat.le_of_lt_succ hsk) with rfl | hlt
    · rw [← hon]
      refine hfirst b hb ?_
      have hposi : 0 < inodeCount files[i].data.length := Nat.succ_pos _
      rw [hon]
      simp only [dataStart, dataAt]
      omega
    · -- the zone is used up, so the inodes of file `k` come after everything stored so far
      obtain ⟨hzs, hrs⟩ := footprint_le hs hlt
      have hposi : 0 < inodeCount files[i].data.length := Nat.succ_pos _
      have hbefore : dataStart files i < inodeStart files k := by
        rw [inodeStart, inodeAt_of_ge (by omega)]
        simp only [dataStart, dataAt]
        omega
      have hbefore' : dataStart files i < dataStart files k := by
        simp only [dataStart, dataAt]
        omega
      rw [hkept _ hbefore' (.inl hbefore), h.lost i s b hi hs his hlt hb hon]

/-- **The image before it is written back.** -/
theorem RunInv.storeFiles (boot : Sector) (mem : ℕ → Sector) (bitoffset : ℕ)
    (hlen : files.length ≤ NR_DIR_ENTRY) (hshort : ∀ f ∈ files, f.name.val.length < 24)
    (hroom : dataAt (inodesBefore files files.length) (chunksBefore files files.length) ≤
      NR_BLOCK) :
    RunInv files files.length (OsLab.storeFiles (startCopy (formatter boot mem) bitoffset) files) :=
  List.foldl_induction_index files (fun _ hk _ hc => hc.step hk hlen hshort hroom)
    (RunInv.start boot mem bitoffset)

end AllFiles

end OsLab
