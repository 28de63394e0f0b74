import OsLab.Disk.ImageLayout

/-!
# Which blocks `copy2myfs` writes

`copy2myfs` writes inode `b` of a file to block `inode_offset + b` and ignores the number
`bit_alloc` returned for it. The two agree as long as the file's inodes come from the inode zone,
where first fit hands them out consecutively. Once the zone is full an inode comes from the data
zone, and there at least 128 data blocks lie between one inode of a file and the next.

A file with a single inode is safe wherever that inode is, since block `inode_offset` *is* the
number returned for it. So the exact condition for a list of files is that every file with two or
more inodes gets all of them from the zone (`noDoubleUse_iff`).

## Main definitions

* `NoDoubleUse` — every block written is the one returned for it, and no block is written for two
  purposes
* `TraceInv` — what the copying loop has recorded after `j` rounds, `c₁` being the state it started
  from
* `UseInv` — what has been recorded for the first `k` files

## Main results

* `copy2myfs_noDoubleUse_iff` — no block is used twice, exactly if every file with two or more
  inodes has them all in the zone
-/

namespace OsLab

variable {t D : ℕ} {data : List UInt8}

/-- Every block written is the one returned for it, and no block is written for two purposes. -/
def NoDoubleUse (trace : List Written) : Prop :=
  (∀ w ∈ trace, w.block = w.returned) ∧ (trace.map Written.block).Nodup

theorem noDoubleUse_iff_of_nodup {trace : List Written}
    (h : (trace.map Written.returned).Nodup) :
    NoDoubleUse trace ↔ ∀ w ∈ trace, w.block = w.returned := by
  refine ⟨fun hno => hno.1, fun hall => ⟨hall, ?_⟩⟩
  rwa [List.map_congr_left hall]

/-! ## One file -/

/-- The inode `b` of a file stored from `t`, `D` on, as it is recorded. -/
def inodeWritten (t D b : ℕ) : Written := ⟨.alloc_inode, inodeAt t D + b, inodeNo t D b⟩

/-- The data block `j` of a file stored from `t`, `D` on, as it is recorded. -/
def dataWritten (t D j : ℕ) : Written := ⟨.alloc_data, dataNo t D j, dataNo t D j⟩

/-- **When a file's inodes are where they were allocated.** -/
theorem inodeNo_eq_iff {n : ℕ} :
    (∀ b < inodeCount n, inodeAt t D + b = inodeNo t D b) ↔
      inodeCount n = 1 ∨ t + inodeCount n ≤ 31 := by
  constructor
  · intro hall
    by_contra hbad
    have hpos : 0 < inodeCount n := Nat.succ_pos _
    rcases Nat.lt_or_ge t 31 with ht | ht
    · -- the first inode past the zone
      have h := hall (30 - t + 1) (by omega)
      rw [inodeNo, inodeAt_of_lt ht, inodeAt_of_ge (by omega), dataAt] at h
      omega
    · have h := hall 1 (by omega)
      rw [inodeNo, inodeAt_of_ge ht, inodeAt_of_ge (by omega), dataAt, dataAt] at h
      omega
  · rintro (hone | hzone) b hb
    · rw [show b = 0 by omega]; rfl
    · cases b with
      | zero => rfl
      | succ b => rw [inodeNo, inodeAt_of_lt (by omega), inodeAt_of_lt (by omega)]; omega

/-- What the copying loop has recorded after `j` rounds, `c₁` being the state it started from. -/
structure TraceInv (t D j : ℕ) (c₁ c : Copy) : Prop where
  mem : ∀ w, w ∈ c.trace ↔ w ∈ c₁.trace ∨ (∃ b < (j - 1) / 128, w = inodeWritten t D b) ∨
    ∃ i < j, w = dataWritten t D i
  /-- The current inode, not yet written, is among the blocks taken. -/
  taken : Taken (used c.bitmap) (c.bitoffset :: c.trace.map Written.returned)

section Step

variable {index j : ℕ} {buf : Sector} {c₁ c : Copy} {v : FileVars}

/-- **The step of the loop.** -/
theorem TraceInv.step (ha : AllocInv t D j c₁ c v) (h : TraceInv t D j c₁ c)
    (hroom : dataAt (t + (1 + j / 128)) (D + (j + 1)) ≤ NR_BLOCK)
    (hsector : inodeSector (inodeOffset c₁.direct index) v.inode_num =
      inodeAt t D + v.inode_num + 1) :
    TraceInv t D (j + 1) c₁ (storeChunk index buf c v).1 := by
  have hdata : used c.bitmap (dataNo t D j) = false :=
    (ha.frontier.firstFit_data (by simp only [dataAt] at hroom ⊢; omega)).clear
  have htaken := h.taken.take hdata
  by_cases hlt : v.entry_index < NR_INODE_ENTRY
  · have hj := ha.entry_index_lt_iff.mp hlt
    obtain ⟨bitmap', hused, -, heq⟩ :=
      storeChunk_of_lt index buf ha.frontier (by rw [← hj]; exact hroom) hlt
    rw [heq]
    refine ⟨fun w => ?_, ?_⟩
    · rw [Nat.add_sub_cancel, hj]
      simp only [writeData, List.mem_cons, h.mem w]
      constructor
      · rintro (rfl | hw | hw | ⟨i, hi, rfl⟩)
        · exact .inr (.inr ⟨j, Nat.lt_succ_self j, rfl⟩)
        · exact .inl hw
        · exact .inr (.inl hw)
        · exact .inr (.inr ⟨i, Nat.lt_succ_of_lt hi, rfl⟩)
      · rintro (hw | hw | ⟨i, hi, rfl⟩)
        · exact .inr (.inl hw)
        · exact .inr (.inr (.inl hw))
        · rcases Nat.eq_or_lt_of_le (Nat.le_of_lt_succ hi) with rfl | hi
          · exact .inl rfl
          · exact .inr (.inr (.inr ⟨i, hi, rfl⟩))
    · simp only [writeData, hused, List.map_cons]
      exact htaken.perm (List.Perm.swap ..)
  · have hj : j / 128 = (j - 1) / 128 + 1 := by
      have := mt ha.entry_index_lt_iff.mpr hlt
      omega
    have hroom' : dataAt (t + (1 + (j - 1) / 128) + 1) (D + j + 1) ≤ NR_BLOCK := by
      rw [Nat.add_assoc, Nat.add_assoc, Nat.add_assoc, ← hj]; exact hroom
    obtain ⟨bitmap', hused, -, heq⟩ :=
      storeChunk_of_ge index buf ha.frontier hroom' (Nat.not_lt.mp hlt)
    have hcurrent : (⟨.alloc_inode, inodeSector (inodeOffset c.direct index) v.inode_num - 1,
        c.bitoffset⟩ : Written) = inodeWritten t D ((j - 1) / 128) := by
      rw [ha.direct, hsector, ha.bitoffset, ha.inode_num]; rfl
    rw [heq]
    refine ⟨fun w => ?_, ?_⟩
    · rw [Nat.add_sub_cancel, hj]
      simp only [writeData, writeInode, List.mem_cons, h.mem w, hcurrent]
      constructor
      · rintro (rfl | rfl | hw | ⟨b, hb, rfl⟩ | ⟨i, hi, rfl⟩)
        · exact .inr (.inr ⟨j, Nat.lt_succ_self j, rfl⟩)
        · exact .inr (.inl ⟨_, Nat.lt_succ_self _, rfl⟩)
        · exact .inl hw
        · exact .inr (.inl ⟨b, Nat.lt_succ_of_lt hb, rfl⟩)
        · exact .inr (.inr ⟨i, Nat.lt_succ_of_lt hi, rfl⟩)
      · rintro (hw | ⟨b, hb, rfl⟩ | ⟨i, hi, rfl⟩)
        · exact .inr (.inr (.inl hw))
        · rcases Nat.eq_or_lt_of_le (Nat.le_of_lt_succ hb) with rfl | hb
          · exact .inr (.inl rfl)
          · exact .inr (.inr (.inr (.inl ⟨b, hb, rfl⟩)))
        · rcases Nat.eq_or_lt_of_le (Nat.le_of_lt_succ hi) with rfl | hi
          · exact .inl rfl
          · exact .inr (.inr (.inr (.inr ⟨i, hi, rfl⟩)))
    · simp only [writeData, writeInode, hused, List.map_cons]
      have hfront : Frontier (bitAlloc c.bitmap 0 .alloc_data).1 (t + (1 + (j - 1) / 128))
          (D + j + 1) ∧ used (bitAlloc c.bitmap 0 .alloc_data).1 =
            Function.update (used c.bitmap) (dataNo t D j) true :=
        (ha.frontier.alloc_data (by simp only [dataAt] at hroom' ⊢; omega) 0).2.symm
      refine htaken.take ?_
      rw [← hfront.2]
      refine (hfront.1.firstFit_inode ?_).clear
      simp only [inodeAt, dataAt] at hroom' ⊢
      split <;> omega

end Step

section OneFile

variable {c : Copy} {name : List UInt8} {k : ℕ}

/-- **One file's turn, as recorded.** -/
theorem storeFile_trace (name data : List UInt8) (hf : Frontier c.bitmap t D)
    (hk : k < NR_DIR_ENTRY)
    (hfree : freeEntry c.direct = k)
    (htaken : Taken (used c.bitmap) (c.trace.map Written.returned))
    (hroom : dataAt (t + inodeCount data.length) (D + chunkCount data.length) ≤ NR_BLOCK) :
    Frontier (storeFile c name data).bitmap (t + inodeCount data.length)
        (D + chunkCount data.length) ∧
      (storeFile c name data).direct = fillEntry c.direct k name data.length (inodeAt t D) ∧
      Taken (used (storeFile c name data).bitmap)
        ((storeFile c name data).trace.map Written.returned) ∧
      ∀ w, w ∈ (storeFile c name data).trace ↔ w ∈ c.trace ∨
        (∃ b < inodeCount data.length, w = inodeWritten t D b) ∨
        ∃ i < chunkCount data.length, w = dataWritten t D i := by
  have hrn := hroom
  simp only [inodeCount, chunkCount, dataAt] at hrn
  have hroom₁ : dataAt (t + 1) D ≤ NR_BLOCK := by simp only [dataAt]; omega
  have hinode : inodeAt t D + (data.length / 512 / 128) < NR_BLOCK := by
    simp only [inodeAt, dataAt]
    simp only [NR_BLOCK, BITMAP_SIZE] at hrn ⊢
    split <;> omega
  obtain ⟨hret, hused, hfront⟩ := hf.alloc_inode hroom₁ c.bitoffset
  set c₁ := beginFile c name data.length with hc₁
  have hbegin : c₁ = { allocInode c with
      direct := fillEntry c.direct k name data.length (inodeAt t D) } := by
    simp only [hc₁, beginFile, allocInode, hfree, if_pos hk, hret]
  have hoff : inodeOffset c₁.direct k = UInt32.ofNat (inodeAt t D) := by
    rw [hbegin]
    exact inodeOffset_fillEntry hk
  have hsector : ∀ num ≤ data.length / 512 / 128,
      inodeSector (inodeOffset c₁.direct k) num = inodeAt t D + num + 1 := fun num hnum => by
    rw [hoff, inodeSector_ofNat (by omega)]
  have hstart : TraceInv t D 0 c₁ c₁ := by
    refine ⟨fun w => by simp, ?_⟩
    rw [hbegin]
    simp only [allocInode, hret, hused]
    exact htaken.take (hf.firstFit_inode (by
      simp only [inodeAt, dataAt] at hroom₁ ⊢; split <;> omega)).clear
  have hloop := storeChunks_induction k data
    (P := fun j c v => AllocInv t D j c₁ c v ∧ TraceInv t D j c₁ c)
    (fun j c v hj hinv => by
      obtain ⟨ha, htr⟩ := hinv
      simp only [chunkCount] at hj
      have hin := ha.inode_num
      have hroomj : dataAt (t + (1 + j / 128)) (D + (j + 1)) ≤ NR_BLOCK := by
        simp only [dataAt]; omega
      exact ⟨ha.step hroomj, htr.step ha hroomj (hsector _ (by omega))⟩)
    (c := c₁) (v := ⟨emptyInode, 0, 0⟩)
    ⟨AllocInv.start (by rw [hbegin]; exact hfront) (by rw [hbegin]; exact hret), hstart⟩
  rw [storeFile]
  simp only [hfree, ← hc₁]
  obtain ⟨ha, htr⟩ := hloop
  set r := storeChunks k c₁ ⟨emptyInode, 0, 0⟩ data
  have hlast : (chunkCount data.length - 1) / 128 = data.length / 512 / 128 := by
    simp [chunkCount]
  have hwritten : (⟨.alloc_inode, inodeSector (inodeOffset r.1.direct k) r.2.inode_num - 1,
      r.1.bitoffset⟩ : Written) = inodeWritten t D (data.length / 512 / 128) := by
    rw [ha.direct, ha.inode_num, hsector _ (by omega), ha.bitoffset, hlast]; rfl
  simp only [writeInode, hwritten]
  refine ⟨?_, ?_, ?_, fun w => ?_⟩
  · have hcount : t + (1 + (chunkCount data.length - 1) / 128) = t + inodeCount data.length := by
      rw [hlast, inodeCount, Nat.add_comm 1]
    rw [← hcount]
    exact ha.frontier
  · rw [ha.direct, hbegin]
  · have hbit : r.1.bitoffset = (inodeWritten t D (data.length / 512 / 128)).returned := by
      rw [ha.bitoffset, hlast]; rfl
    rw [List.map_cons, ← hbit]
    exact htr.taken
  · rw [List.mem_cons, htr.mem w, hlast]
    have hc : c₁.trace = c.trace := by rw [hbegin]; rfl
    rw [hc]
    constructor
    · rintro (rfl | hw | ⟨b, hb, rfl⟩ | hw)
      · exact .inr (.inl ⟨_, Nat.lt_succ_self _, rfl⟩)
      · exact .inl hw
      · exact .inr (.inl ⟨b, Nat.lt_succ_of_lt hb, rfl⟩)
      · exact .inr (.inr hw)
    · rintro (hw | ⟨b, hb, rfl⟩ | hw)
      · exact .inr (.inl hw)
      · rcases Nat.eq_or_lt_of_le (Nat.le_of_lt_succ hb) with rfl | hb
        · exact .inl rfl
        · exact .inr (.inr (.inl ⟨b, hb, rfl⟩))
      · exact .inr (.inr (.inr hw))

end OneFile

/-! ## All files -/

section AllFiles

variable {files : List InFile}

/-- What has been recorded for the first `k` files. -/
structure UseInv (files : List InFile) (k : ℕ) (c : Copy) : Prop where
  frontier : Frontier c.bitmap (inodesBefore files k) (chunksBefore files k)
  full : ∀ e < k, inodeOffset c.direct e ≠ minusOne
  free : ∀ e, k ≤ e → e < NR_DIR_ENTRY → inodeOffset c.direct e = minusOne
  taken : Taken (used c.bitmap) (c.trace.map Written.returned)
  mem : ∀ w, w ∈ c.trace ↔ ∃ (i : ℕ) (hi : i < files.length), i < k ∧
    ((∃ b < inodeCount files[i].data.length,
        w = inodeWritten (inodesBefore files i) (chunksBefore files i) b) ∨
      ∃ j < chunkCount files[i].data.length,
        w = dataWritten (inodesBefore files i) (chunksBefore files i) j)

theorem UseInv.start (boot : Sector) (mem : ℕ → Sector) (bitoffset : ℕ) :
    UseInv files 0 (startCopy (formatter boot mem) bitoffset) := by
  refine ⟨Frontier.formatter boot mem, fun e he => absurd he (Nat.not_lt_zero e),
    fun e _ he => ?_, Taken.nil _, fun w => by simp [startCopy]⟩
  rw [startCopy, formatter_dir]
  exact (freeSlot_formatDir he).offset

/-- **The step from file to file.** -/
theorem UseInv.step {k : ℕ} {c : Copy} (h : UseInv files k c) (hk : k < files.length)
    (hlen : files.length ≤ NR_DIR_ENTRY) (hshort : ∀ f ∈ files, f.name.val.length < 24)
    (hroom : dataAt (inodesBefore files files.length) (chunksBefore files files.length) ≤
      NR_BLOCK) :
    UseInv files (k + 1) (storeFile c files[k].name.val files[k].data) := by
  obtain ⟨hzk, hrk⟩ := footprint_le hk hk
  have hname : files[k].name.val.length < 24 := hshort _ (List.getElem_mem hk)
  have hroomk : dataAt (inodesBefore files k + inodeCount files[k].data.length)
      (chunksBefore files k + chunkCount files[k].data.length) ≤ NR_BLOCK := by
    simp only [dataAt] at hroom ⊢; omega
  obtain ⟨hfront, hdir, htaken, hmem⟩ := storeFile_trace files[k].name.val files[k].data
    h.frontier (by omega)
    (freeEntry_eq (by omega) (h.free k (Nat.le_refl _) (by omega)) h.full) h.taken hroomk
  have hother : ∀ e, e ≠ k → inodeOffset (storeFile c files[k].name.val files[k].data).direct e =
      inodeOffset c.direct e := fun e he => by
    rw [hdir]
    exact ByteBlock.get32_congr fun i hlo hi =>
      fillEntry_get_of_ne (by omega) he (by omega) (by omega)
  refine ⟨?_, fun e he => ?_, fun e he he' => ?_, htaken, fun w => ?_⟩
  · rw [inodesBefore_succ hk, chunksBefore_succ hk]
    exact hfront
  · rcases Nat.eq_or_lt_of_le (Nat.le_of_lt_succ he) with rfl | hlt
    · have hoff : inodeOffset (storeFile c files[e].name.val files[e].data).direct e =
          UInt32.ofNat (inodeAt (inodesBefore files e) (chunksBefore files e)) := by
        simp only [NR_DIR_ENTRY] at hlen
        rw [hdir]
        exact ByteBlock.get32_set32 _ (by omega)
      rw [hoff]
      refine ofNat_ne_minusOne ?_
      simp only [inodeAt, dataAt] at hroomk ⊢
      simp only [chunkCount, NR_BLOCK, BITMAP_SIZE] at hroomk ⊢
      split <;> omega
    · rw [hother e (by omega)]
      exact h.full e hlt
  · rw [hother e (by omega)]
    exact h.free e (by omega) he'
  · rw [hmem w, h.mem w]
    constructor
    · rintro (⟨i, hi, hik, hw⟩ | hw)
      · exact ⟨i, hi, Nat.lt_succ_of_lt hik, hw⟩
      · exact ⟨k, hk, Nat.lt_succ_self k, hw⟩
    · rintro ⟨i, hi, hik, hw⟩
      rcases Nat.eq_or_lt_of_le (Nat.le_of_lt_succ hik) with rfl | hik
      · exact .inr hw
      · exact .inl ⟨i, hi, hik, hw⟩

theorem UseInv.storeFiles (boot : Sector) (mem : ℕ → Sector) (bitoffset : ℕ)
    (hlen : files.length ≤ NR_DIR_ENTRY) (hshort : ∀ f ∈ files, f.name.val.length < 24)
    (hroom : dataAt (inodesBefore files files.length) (chunksBefore files files.length) ≤
      NR_BLOCK) :
    UseInv files files.length (OsLab.storeFiles (startCopy (formatter boot mem) bitoffset) files) :=
  List.foldl_induction_index files (fun _ hk _ hc => hc.step hk hlen hshort hroom)
    (UseInv.start boot mem bitoffset)

/-- What is recorded for a list of files is in order exactly when every file with several inodes
gets them from the inode zone. -/
theorem UseInv.noDoubleUse_iff {c : Copy} (h : UseInv files files.length c) :
    NoDoubleUse c.trace ↔ ∀ (k : ℕ) (hk : k < files.length),
      inodeCount files[k].data.length = 1 ∨
        inodesBefore files k + inodeCount files[k].data.length ≤ 31 := by
  rw [noDoubleUse_iff_of_nodup h.taken.nodup]
  constructor
  · intro hall k hk
    refine (inodeNo_eq_iff (D := chunksBefore files k)).mp fun b hb => ?_
    exact hall (inodeWritten _ _ b) ((h.mem _).mpr ⟨k, hk, hk, .inl ⟨b, hb, rfl⟩⟩)
  · intro hall w hw
    obtain ⟨i, hi, -, ⟨b, hb, rfl⟩ | ⟨j, hj, rfl⟩⟩ := (h.mem w).mp hw
    · exact inodeNo_eq_iff.mpr (hall i hi) b hb
    · rfl

end AllFiles

/-- **When no block is used for two things.** For a formatted image and files for which the bitmap
has room: every block is written where it was allocated, and none twice, if and only if every file
with two or more inodes gets all of them from the 31 blocks of the inode zone. -/
theorem copy2myfs_noDoubleUse_iff (boot : Sector) (mem : ℕ → Sector) (bitoffset : ℕ)
    (files : List InFile) (hlen : files.length ≤ 16)
    (hshort : ∀ f ∈ files, f.name.val.length < 24)
    (hroom : 288 + (files.map fun f => chunkCount f.data.length).sum +
      ((files.map fun f => inodeCount f.data.length).sum - 31) ≤ NR_BLOCK) :
    NoDoubleUse (storeFiles (startCopy (formatter boot mem) bitoffset) files).trace ↔
      ∀ (k : ℕ) (hk : k < files.length), inodeCount files[k].data.length = 1 ∨
        ((files.take k).map fun f => inodeCount f.data.length).sum +
          inodeCount files[k].data.length ≤ 31 :=
  (UseInv.storeFiles boot mem bitoffset hlen hshort (by
    rwa [dataAt, inodesBefore, chunksBefore, List.take_length])).noDoubleUse_iff

theorem copy2myfs_noDoubleUse_iff_two :
    NoDoubleUse
        (storeFiles (startCopy (formatter zeroSector fun _ => zeroSector) 0) twoFiles).trace ↔
      ∀ (k : ℕ) (hk : k < twoFiles.length), inodeCount twoFiles[k].data.length = 1 ∨
        ((twoFiles.take k).map fun f => inodeCount f.data.length).sum +
          inodeCount twoFiles[k].data.length ≤ 31 :=
  copy2myfs_noDoubleUse_iff zeroSector (fun _ => zeroSector) 0 twoFiles (by decide) (by decide)
    (by simp [twoFiles, chunkCount, inodeCount, length_longFile, NR_BLOCK, BITMAP_SIZE])

/-- A file of 31 times 64 KiB, which takes 32 inodes. -/
def hugeFile : InFile := ⟨longFile.name, List.replicate 2031616 0⟩

theorem length_hugeFile : hugeFile.data.length = 2031616 := List.length_replicate ..

/-- **A file that is stored over itself.** Its thirty-second inode goes to block 288, the file's
own first data block. -/
theorem copy2myfs_hugeFile :
    [hugeFile].length ≤ 16 ∧ (∀ f ∈ [hugeFile], f.name.val.length < 24) ∧
      288 + ([hugeFile].map fun f => chunkCount f.data.length).sum +
        (([hugeFile].map fun f => inodeCount f.data.length).sum - 31) ≤ NR_BLOCK ∧
      ¬NoDoubleUse
        (storeFiles (startCopy (formatter zeroSector fun _ => zeroSector) 0) [hugeFile]).trace := by
  have hroom : 288 + ([hugeFile].map fun f => chunkCount f.data.length).sum +
      (([hugeFile].map fun f => inodeCount f.data.length).sum - 31) ≤ NR_BLOCK := by
    simp [chunkCount, inodeCount, length_hugeFile, NR_BLOCK, BITMAP_SIZE]
  have hinv := @UseInv.storeFiles [hugeFile] zeroSector (fun _ => zeroSector) 0
    (by decide) (by decide) (by rwa [dataAt, inodesBefore, chunksBefore, List.take_length])
  refine ⟨by decide, by decide, hroom, fun hno => ?_⟩
  have := hinv.noDoubleUse_iff.mp hno 0 (by decide)
  rw [List.getElem_cons_zero, length_hugeFile] at this
  revert this
  decide

end OsLab
