import OsLab.Disk.Runs
import OsLab.FileSystem.ReadBack

/-!
# Where `SEEK_END` finds the end

The size of a file is in its directory entry, but `lseek` does not have it: it counts the entries of
the inode and takes the last block for a string. `copy2myfs` pads the last block with zeros, and a
file whose size is a multiple of 512 has a last block of nothing else, so the string never runs past
the block. It ends too early at a zero byte of the file itself. And when the last block has become
an inode of a later file, its string is the number of a block.

## Main definitions

* `ZeroAt` — the first zero byte of a sector is byte `z`
* `SeesEnd` — when the end of file `k` is found
* `Opened` — `open` has given descriptor `fd` an FCB with the inode it found under the name

## Main results

* `lseek_end` — the offset `SEEK_END` sets
* `seekEnd_iff` — when it is the size
-/

namespace OsLab

section Strlen

variable {src : Mem} {s : ℤ} {z room : ℕ}

/-- A string ends at its first zero. -/
theorem strlen_eq (hz : z < room) (hend : src (s + z) = 0) (hmin : ∀ j < z, src (s + (j : ℕ)) ≠ 0) :
    strlen src s room = z := by
  induction z generalizing s room with
  | zero =>
    obtain ⟨room, rfl⟩ := Nat.exists_eq_succ_of_ne_zero (Nat.ne_of_gt hz)
    have hhead : src s = 0 := by simpa using hend
    rw [strlen, if_neg (not_not.mpr hhead)]
  | succ z ih =>
    obtain ⟨room, rfl⟩ := Nat.exists_eq_succ_of_ne_zero (by omega : room ≠ 0)
    have hhead : src s ≠ 0 := by simpa using hmin 0 (Nat.succ_pos z)
    have hshift : ∀ j : ℕ, s + 1 + j = s + (j + 1 : ℕ) := fun j => by omega
    rw [strlen, if_pos hhead, ih (by omega) (by rw [hshift, hend]) fun j hj => by
      rw [hshift]
      exact hmin (j + 1) (by omega)]

end Strlen

/-- The first zero byte of a sector is byte `z`. -/
structure ZeroAt (b : Sector) (z : ℕ) : Prop where
  zero : b.get z = 0
  first : ∀ i < z, b.get i ≠ 0

theorem ZeroAt.unique {b : Sector} {z z' : ℕ} (h : ZeroAt b z) (h' : ZeroAt b z') : z = z' := by
  rcases Nat.lt_trichotomy z z' with hlt | heq | hlt
  · exact absurd h.zero (h'.first z hlt)
  · exact heq
  · exact absurd h'.zero (h.first z' hlt)

/-- A sector with a zero byte has a first one. -/
theorem exists_zeroAt {b : Sector} {i : ℕ} (h : b.get i = 0) : ∃ z ≤ i, ZeroAt b z := by
  have hex : ∃ z, b.get z = 0 := ⟨i, h⟩
  exact ⟨Nat.find hex, Nat.find_le h, Nat.find_spec hex, fun j hj => Nat.find_min hex hj⟩

section Offset

variable {stray : ℤ → UInt32} {junk : Mem} {k : Kernel} {fd : ℤ} {inode : Sector} {d : Disk} {m : ℕ}

/-- The loop of `SEEK_END` counts the blocks of the file. -/
theorem Allocated.usedEntries (h : Allocated inode m) : OsLab.usedEntries inode = m := by
  have hle := h.le
  simp only [NR_INODE_ENTRY] at hle
  have hbelow : ∀ j : ℤ, 0 ≤ j → j < m →
      decide (dataBlockOffset inode j.toNat = minusOne) = false := fun j hj hlt =>
    decide_eq_false fun hminus => by
      have hblock := h.block j.toNat (by omega)
      rw [hminus] at hblock
      exact absurd hblock (by decide)
  rcases Nat.eq_or_lt_of_le hle with rfl | hlt
  · rw [OsLab.usedEntries, findSlot_eq_none.mpr fun j hj hlt => hbelow j hj hlt]
    rfl
  · rw [OsLab.usedEntries, @findSlot_eq 128 _ (m : ℤ) (by omega) (by omega)
      (decide_eq_true (h.rest m (Nat.le_refl m) hlt)) hbelow]
    rfl

/-- The offset `SEEK_END` sets, for a file of `m + 1` blocks the last of which has a zero byte. -/
theorem endOffset_eq (h : Allocated inode (m + 1)) {z : ℕ} (hz512 : z < 512)
    (hz : ZeroAt (d ((dataBlockOffset inode m).toNat + 1)) z) (offset : ℤ) :
    endOffset stray junk d inode offset = int32 (512 * m + (z + offset)) := by
  have hle := h.le
  simp only [NR_INODE_ENTRY] at hle
  have hlast : OsLab.usedEntries inode - 1 = m := by
    rw [h.usedEntries]
    omega
  have hentry : entryAt stray inode m = dataBlockOffset inode m := by
    rw [entryAt, if_pos ⟨by omega, by simp only [NR_INODE_ENTRY]; omega⟩, Int.toNat_natCast]
  have hblock := h.block m (Nat.lt_succ_self m)
  have hmem : ∀ i : ℕ, i < 512 →
      (readseg 0 512 (segOffset (entryAt stray inode m)) ⟨d, junk, []⟩).mem (0 + (i : ℤ)) =
        (d ((dataBlockOffset inode m).toNat + 1)).get i := fun i hi => by
    have hpos : (0 + (i : ℤ) - 0).toNat = i := by omega
    rw [hentry, readseg_block, readsect_mem, if_pos ⟨by omega, by omega⟩, lba_segSector hblock,
      hpos]
  have hlen := @strlen_eq (readseg 0 512 (segOffset (entryAt stray inode m)) ⟨d, junk, []⟩).mem 0 z
    (2 ^ 32) (by omega) (by rw [hmem z hz512, hz.zero]) fun j hj => by
      rw [hmem j (by omega)]
      exact hz.first j hj
  simp only [endOffset, hlast, hlen]

/-- **What `lseek(fd, offset, SEEK_END)` does.** -/
theorem lseek_end (hfd : k.fcbIndex fd ≠ -1) (h : Allocated (k.fcbOf fd).inode (m + 1)) {z : ℕ}
    (hz512 : z < 512)
    (hz : ZeroAt (k.disk ((dataBlockOffset (k.fcbOf fd).inode m).toNat + 1)) z) (offset : ℤ) :
    ((lseek stray junk k fd offset SEEK_END).fcbOf fd).offset = int32 (512 * m + (z + offset)) := by
  have hset : SEEK_END ≠ SEEK_SET := by decide
  have hcur : SEEK_END ≠ SEEK_CUR := by decide
  simp only [lseek, if_neg hfd, if_neg hset, if_neg hcur, if_true, Kernel.fcbOf_setEax,
    Kernel.fcbOf_modifyFcb]
  exact endOffset_eq h hz512 hz offset

end Offset

/-! ## Stored files -/

/-- Byte `m` is the first of the 32-bit number `v`, as it is in memory, that is zero. -/
def EndsAt (v : UInt32) (m : ℕ) : Prop :=
  ByteBlock.byte32 v m = 0 ∧ ∀ i < m, ByteBlock.byte32 v i ≠ 0

/-- **When the end of file `k` is found.** The part of the file in its last block has no zero byte;
but if an inode of a later file has been put on that block, then the number that inode starts with
has as many bytes in front of its first zero as the file has in its last block. -/
def SeesEnd (files : List InFile) (k : ℕ) : Prop :=
  ∀ hk : k < files.length,
    ((∀ (s : ℕ) (hs : s < files.length), k < s → ∀ b < inodeCount files[s].data.length,
        ¬InodeOnData files k (files[k].data.length / 512) s b) →
      ∀ p, 512 * (files[k].data.length / 512) ≤ p → p < files[k].data.length →
        files[k].data.getD p 0 ≠ 0) ∧
    ∀ (s b : ℕ) (hs : s < files.length), k < s → b < inodeCount files[s].data.length →
      InodeOnData files k (files[k].data.length / 512) s b →
        EndsAt (UInt32.ofNat (dataNo (inodesBefore files s) (chunksBefore files s) (128 * b)))
          (files[k].data.length % 512)

section Image

variable {files : List InFile} {k : ℕ} {c : Copy}

/-- The first zero in the last block of a stored file. -/
theorem BlockInv.zeroAt (h : BlockInv files files.length c)
    (hroom : dataAt (inodesBefore files files.length) (chunksBefore files files.length) ≤ NR_BLOCK)
    (hk : k < files.length) (hn : files[k].data.length < 65536) :
    ∃ z < 512,
      ZeroAt (c.disk (dataStart files k + files[k].data.length / 512 + 1)) z ∧
        (z = files[k].data.length % 512 ↔ SeesEnd files k) := by
  have hone : inodeCount files[k].data.length = 1 := by
    simp only [inodeCount]
    omega
  have hlast : files[k].data.length / 512 < chunkCount files[k].data.length := Nat.lt_succ_self _
  by_cases hun : ∀ (s : ℕ) (hs : s < files.length), k < s →
      ∀ b < inodeCount files[s].data.length, ¬InodeOnData files k (files[k].data.length / 512) s b
  · -- the block holds the last part of the file, and zeros
    have hblock := h.kept k _ hk hk (.inl hone) hlast fun s hs hks _ => hun s hs hks
    have hget : ∀ i < 512, (chunk files[k].data (files[k].data.length / 512)).get i =
        files[k].data.getD (512 * (files[k].data.length / 512) + i) 0 := fun i hi => by
      rw [chunk, ByteBlock.get_ofFn, if_pos hi]
    have hpad : (chunk files[k].data (files[k].data.length / 512)).get
        (files[k].data.length % 512) = 0 := by
      rw [hget _ (Nat.mod_lt _ (by decide)), List.getD_eq_default _ _ (by omega)]
    rw [hblock]
    obtain ⟨z, hz, hzero⟩ := exists_zeroAt hpad
    refine ⟨z, by omega, hzero, fun heq _ => ⟨fun _ p hp hlt => ?_, fun s b hs hks hb hon => ?_⟩,
      fun hsees => ?_⟩
    · have hne := hzero.first (p - 512 * (files[k].data.length / 512)) (by omega)
      rwa [hget _ (by omega), Nat.add_sub_cancel' hp] at hne
    · exact absurd hon (hun s hs hks b hb)
    · refine hzero.unique ⟨hpad, fun i hi => ?_⟩
      rw [hget i (by omega)]
      exact (hsees hk).1 hun _ (by omega) (by omega)
  · -- the block is an inode, which starts with the number of a block
    simp only [not_forall, not_not] at hun
    obtain ⟨s, hs, hks, b, hb, hon⟩ := hun
    have hentry : ∀ (s b : ℕ) (hs : s < files.length), k < s → b < inodeCount files[s].data.length →
        InodeOnData files k (files[k].data.length / 512) s b → ∀ i < 4,
          (c.disk (dataStart files k + files[k].data.length / 512 + 1)).get i = ByteBlock.byte32
            (UInt32.ofNat (dataNo (inodesBefore files s) (chunksBefore files s) (128 * b))) i := by
      intro s b hs hks hb hon i hi
      have hget := ByteBlock.get_eq_byte32
        (c.disk (dataStart files k + files[k].data.length / 512 + 1)) 0 (k := i) (by omega)
      rw [Nat.zero_add] at hget
      rw [hget]
      exact congrArg (fun v => ByteBlock.byte32 v i) (h.lost k _ s b hk hs hks hs hlast hb hon)
    have hthird := byte32_blockNo (dataNo_lt hroom hs hb)
    obtain ⟨z, hz, hzero⟩ := exists_zeroAt ((hentry s b hs hks hb hon 3 (by decide)).trans hthird)
    refine ⟨z, by omega, hzero, fun heq _ => ⟨fun hun => absurd hon (hun s hs hks b hb),
      fun s b hs hks hb hon => ?_⟩, fun hsees => ?_⟩
    · rw [← heq]
      refine ⟨?_, fun i hi => ?_⟩
      · rw [← hentry s b hs hks hb hon z (by omega), hzero.zero]
      · rw [← hentry s b hs hks hb hon i (by omega)]
        exact hzero.first i hi
    · obtain ⟨hend, hfirst⟩ := (hsees hk).2 s b hs hks hb hon
      have hle : files[k].data.length % 512 ≤ 3 := Nat.not_lt.mp fun hlt => hfirst 3 hlt hthird
      refine hzero.unique ⟨?_, fun i hi => ?_⟩
      · rw [hentry s b hs hks hb hon _ (by omega), hend]
      · rw [hentry s b hs hks hb hon i (by omega)]
        exact hfirst i hi

end Image

/-- `open` has given descriptor `fd` an FCB with the inode it found under the name. -/
structure Opened (K : Kernel) (name : List UInt8) (mode fd : ℤ) : Prop where
  index : (openFile name mode K).fcbIndex fd ≠ -1
  inode : fileInode K name = some ((openFile name mode K).fcbOf fd).inode

/-- A fresh `open` does. -/
theorem Fresh.opened {K : Kernel} {name : List UInt8} {inode : Sector} (h : Fresh K name)
    (hfile : fileInode K name = some inode) :
    Opened K name s_r (openFile name s_r K).result := by
  have hread := h.reading hfile
  exact ⟨hread.index, by rw [hread.inode, hfile]⟩

/-- The sum that ends at byte `z` of the last block is the size plus `offset`. -/
theorem int32_end_iff {n z : ℕ} (hz : z < 512) (offset : ℤ) :
    int32 (512 * (n / 512 : ℕ) + (z + offset)) = n + offset ↔
      (-2 ^ 31 ≤ n + offset ∧ n + offset < 2 ^ 31) ∧ z = n % 512 := by
  constructor
  · intro heq
    have hlow := le_int32 (512 * (n / 512 : ℕ) + (z + offset))
    have hhigh := int32_lt (512 * (n / 512 : ℕ) + (z + offset))
    rw [heq] at hlow hhigh
    refine ⟨⟨hlow, hhigh⟩, ?_⟩
    rw [int32, Int.bmod_def] at heq
    split at heq <;> omega
  · rintro ⟨⟨hlow, hhigh⟩, rfl⟩
    rw [int32_eq (by omega) (by omega)]
    omega

section Stored

variable {boot : Sector} {mem : ℕ → Sector} {runs : List (ℕ × List InFile)} {k : ℕ} {K : Kernel}
  {mode fd : ℤ}

/-- `SEEK_END` on a stored file. -/
theorem seekEnd_iff_sees (hlen : (allFiles runs).length ≤ NR_DIR_ENTRY)
    (hshort : ∀ f ∈ allFiles runs, f.name.val.length < 24)
    (hroom : dataAt (inodesBefore (allFiles runs) (allFiles runs).length)
      (chunksBefore (allFiles runs) (allFiles runs).length) ≤ NR_BLOCK)
    (hk : k < (allFiles runs).length)
    (hfirst : ∀ (e : ℕ) (he : e < k), (allFiles runs)[e].name ≠ (allFiles runs)[k].name)
    (hn : (allFiles runs)[k].data.length < 65536) (hm : Mounted K (copyRuns boot mem runs))
    (hopen : Opened K (allFiles runs)[k].name.val mode fd) (stray : ℤ → UInt32) (junk : Mem)
    (offset : ℤ) :
    ((lseek stray junk (openFile (allFiles runs)[k].name.val mode K) fd offset SEEK_END).fcbOf
        fd).offset = (fileSize K.direct k).toNat + offset ↔
      (-2 ^ 31 ≤ (allFiles runs)[k].data.length + offset ∧
        (allFiles runs)[k].data.length + offset < 2 ^ 31) ∧ SeesEnd (allFiles runs) k := by
  have himage := image_copyRuns boot mem hlen hshort hroom
  obtain ⟨hentry, hall⟩ := himage.allocated hroom hk hn
  obtain ⟨z, hz512, hzero, hz⟩ :=
    (BlockInv.copyRuns boot mem hlen hshort hroom 0).zeroAt hroom hk hn
  have hinode : ((openFile (allFiles runs)[k].name.val mode K).fcbOf fd).inode =
      copyRuns boot mem runs (inodeStart (allFiles runs) k + 1) :=
    Option.some.inj (hopen.inode.symm.trans (himage.fileInode_eq hm hlen hroom hk hfirst))
  have hsize : (fileSize K.direct k).toNat = (allFiles runs)[k].data.length := by
    rw [hm.direct, (himage.entry k hk).size, UInt32.toNat_ofNat', Nat.mod_eq_of_lt (by omega)]
  have hend := @lseek_end stray junk _ fd ((allFiles runs)[k].data.length / 512) hopen.index
    (by rw [hinode]; exact hall) z hz512 (by
      rw [hinode, hentry _ (Nat.lt_succ_self _), disk_openFile, hm.disk]
      exact hzero) offset
  rw [hend, hsize, int32_end_iff hz512, hz]

end Stored

/-- **When `SEEK_END` finds the end of the file.** For every series of runs of the image tool whose
files fit on the disk, every file of less than 64 KiB among them that is the first of its name, and
every descriptor that `open` gives for it: `lseek` with `SEEK_END` sets the offset to the size in
the directory plus `offset` if and only if that is an `int` and the end is found. -/
theorem seekEnd_iff (boot : Sector) (mem : ℕ → Sector) (runs : List (ℕ × List InFile))
    (hlen : (allFiles runs).length ≤ 16) (hshort : ∀ f ∈ allFiles runs, f.name.val.length < 24)
    (hroom : 288 + ((allFiles runs).map fun f => chunkCount f.data.length).sum +
      (((allFiles runs).map fun f => inodeCount f.data.length).sum - 31) ≤ NR_BLOCK)
    (k : ℕ) (hk : k < (allFiles runs).length)
    (hfirst : ∀ (e : ℕ) (he : e < k), (allFiles runs)[e].name ≠ (allFiles runs)[k].name)
    (hn : (allFiles runs)[k].data.length < 65536) (K : Kernel)
    (hm : Mounted K (copyRuns boot mem runs)) (mode fd : ℤ)
    (hopen : Opened K (allFiles runs)[k].name.val mode fd) (stray : ℤ → UInt32) (junk : Mem)
    (offset : ℤ) :
    ((lseek stray junk (openFile (allFiles runs)[k].name.val mode K) fd offset SEEK_END).fcbOf
        fd).offset = (fileSize K.direct k).toNat + offset ↔
      (-2 ^ 31 ≤ (allFiles runs)[k].data.length + offset ∧
        (allFiles runs)[k].data.length + offset < 2 ^ 31) ∧ SeesEnd (allFiles runs) k := by
  refine seekEnd_iff_sees hlen hshort ?_ hk hfirst hn hm hopen stray junk offset
  rwa [dataAt, inodesBefore, chunksBefore, List.take_length]

/-! ### One small file -/

section Small

/-- A run that stores one file. -/
def oneRun (data : List UInt8) : List (ℕ × List InFile) := [(0, [⟨⟨[97], noNul_a⟩, data⟩])]

/-- A kernel that has booted from the image of that run. -/
def oneRunKernel (data : List UInt8) : Kernel :=
  mountedKernel (copyRuns zeroSector (fun _ => zeroSector) (oneRun data))

/-- `lseek(open("a", s_r), offset, SEEK_END)` sets the offset to the size plus `offset`. -/
def AtEnd (data : List UInt8) (offset : ℤ) : Prop :=
  ((lseek (fun _ => 0) (fun _ => 0) (openFile [97] s_r (oneRunKernel data))
    (openFile [97] s_r (oneRunKernel data)).result offset SEEK_END).fcbOf
      (openFile [97] s_r (oneRunKernel data)).result).offset =
    (fileSize (oneRunKernel data).direct 0).toNat + offset

theorem oneRun_room {data : List UInt8} (hn : data.length < 65536) :
    288 + ((allFiles (oneRun data)).map fun f => chunkCount f.data.length).sum +
      (((allFiles (oneRun data)).map fun f => inodeCount f.data.length).sum - 31) ≤ NR_BLOCK := by
  simp only [allFiles, oneRun, List.flatMap_cons, List.flatMap_nil, List.append_nil, List.map_cons,
    List.map_nil, List.sum_cons, List.sum_nil, chunkCount, inodeCount, NR_BLOCK, BITMAP_SIZE]
  omega

theorem oneRun_opened {data : List UInt8} (hn : data.length < 65536) :
    Opened (oneRunKernel data) [97] s_r (openFile [97] s_r (oneRunKernel data)).result := by
  have hroom : dataAt (inodesBefore (allFiles (oneRun data)) (allFiles (oneRun data)).length)
      (chunksBefore (allFiles (oneRun data)) (allFiles (oneRun data)).length) ≤ NR_BLOCK := by
    rw [dataAt, inodesBefore, chunksBefore, List.take_length]
    exact oneRun_room hn
  have himage := @image_copyRuns zeroSector (fun _ => zeroSector) (oneRun data)
    (by decide : 1 ≤ 16) (by simp [allFiles, oneRun]) hroom
  exact (mountedKernel_fresh _ _).opened (himage.fileInode_eq (k := 0) ⟨rfl, rfl⟩
    (by decide : 1 ≤ 16) hroom (by decide : 0 < 1) fun e he => absurd he (Nat.not_lt_zero e))

/-- The only file has no file behind it. -/
theorem sees_oneRun_iff {data : List UInt8} :
    SeesEnd (allFiles (oneRun data)) 0 ↔
      ∀ p, 512 * (data.length / 512) ≤ p → p < data.length → data.getD p 0 ≠ 0 := by
  have hlater : ∀ s < (allFiles (oneRun data)).length, ¬0 < s := fun s hs hpos =>
    absurd (show s < 1 from hs) (by omega)
  constructor
  · intro h
    exact (h (by decide : 0 < 1)).1 fun s hs hpos => absurd hpos (hlater s hs)
  · intro h hk
    exact ⟨fun _ => h, fun s b hs hpos => absurd hpos (hlater s hs)⟩

theorem seekEnd_text : AtEnd [104, 105] 3 :=
  (seekEnd_iff zeroSector (fun _ => zeroSector) (oneRun [104, 105]) (by decide) (by decide)
    (oneRun_room (by decide)) 0 (by decide) (fun e he => absurd he (Nat.not_lt_zero e)) (by decide)
    (oneRunKernel [104, 105]) ⟨rfl, rfl⟩ s_r _ (oneRun_opened (by decide)) (fun _ => 0) (fun _ => 0)
    3).mpr ⟨by decide, sees_oneRun_iff.mpr fun p _ hp => by
      have hcases : p = 0 ∨ p = 1 := by simp only [List.length_cons, List.length_nil] at hp; omega
      rcases hcases with rfl | rfl <;> decide⟩

/-- **A zero byte ends the file.** -/
theorem seekEnd_misses_zero :
    (allFiles (oneRun [1, 0, 1])).length ≤ 16 ∧
      (∀ f ∈ allFiles (oneRun [1, 0, 1]), f.name.val.length < 24) ∧
      Mounted (oneRunKernel [1, 0, 1])
        (copyRuns zeroSector (fun _ => zeroSector) (oneRun [1, 0, 1])) ∧
      Opened (oneRunKernel [1, 0, 1]) [97] s_r (openFile [97] s_r (oneRunKernel [1, 0, 1])).result ∧
      ¬AtEnd [1, 0, 1] 0 := by
  have hopen : Opened (oneRunKernel [1, 0, 1]) [97] s_r
      (openFile [97] s_r (oneRunKernel [1, 0, 1])).result := oneRun_opened (by decide)
  have hroom : dataAt (inodesBefore (allFiles (oneRun [1, 0, 1])) 1)
      (chunksBefore (allFiles (oneRun [1, 0, 1])) 1) ≤ NR_BLOCK := by decide
  refine ⟨by decide, by decide, ⟨rfl, rfl⟩, hopen, fun hend => ?_⟩
  obtain ⟨-, hsees⟩ := (@seekEnd_iff_sees zeroSector (fun _ => zeroSector) (oneRun [1, 0, 1]) 0
    (oneRunKernel [1, 0, 1]) s_r _ (by decide) (by decide) hroom (by decide)
    (fun e he => absurd he (Nat.not_lt_zero e)) (by decide) ⟨rfl, rfl⟩ hopen (fun _ => 0)
      (fun _ => 0)
    0).mp hend
  exact sees_oneRun_iff.mp hsees 1 (by decide) (by decide) (by decide)

end Small

end OsLab
