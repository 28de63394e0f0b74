import OsLab.FileSystem.InFile

/-!
# What `write` leaves on the disk

Byte `p` of a file is byte `p % 512` of block `p / 512`. A `write` of `n` bytes at offset `o`
moves its string in chunks, one for every block it meets, and each chunk is moved by `strncpy`. So
position `p` of the file gets the string's byte `p - o`, unless the string has a zero before it in
the same chunk, and then it gets zero (`putByte`).

## Main definitions

* `fileByte` — byte `p` of the file
* `DistinctBlocks` — no block occurs twice in the file
* `putByte` — what `write` puts at position `p`
* `Put` — the state of a `write` of the string `s` at offset `o` once positions below `e` are done

## Main results

* `fileByte_putChunk` — the effect of moving one chunk
* `writeTransfer_spec` — the file, and the rest of the disk, after `write`
-/

namespace OsLab

/-! ## A file as a sequence of bytes -/

/-- Byte `p` of the file. -/
def fileByte (inode : Sector) (d : Disk) (p : ℕ) : UInt8 :=
  (d ((dataBlockOffset inode (p / 512)).toNat + 1)).get (p % 512)

/-- No block occurs twice in the file. -/
def DistinctBlocks (inode : Sector) (m : ℕ) : Prop :=
  ∀ i < m, ∀ j < m, dataBlockOffset inode i = dataBlockOffset inode j → i = j

/-- Where the chunk that holds position `p` starts, in a request from `o` on. -/
def chunkStart (o p : ℕ) : ℕ := max o (512 * (p / 512))

/-- What `write` puts at position `p`. -/
def putByte (s : Mem) (o p : ℕ) : UInt8 :=
  stringByte s ((chunkStart o p : ℤ) - o) (p - chunkStart o p)

section PutChunk

variable {stray : ℤ → UInt32} {inode : Sector} {m : ℕ}

theorem entryAt_of_lt (ha : Allocated inode m) {i : ℕ} (hi : i < m) :
    entryAt stray inode i = dataBlockOffset inode i := by
  have hle := ha.le
  rw [entryAt, if_pos ⟨by omega, by omega⟩, Int.toNat_natCast]

theorem lba_entryAt (ha : Allocated inode m) {i : ℕ} (hi : i < m) :
    lba (segSector (entryAt stray inode i)) = (dataBlockOffset inode i).toNat + 1 := by
  have hb := ha.block i hi
  simp only [NR_BLOCK, BITMAP_SIZE] at hb
  rw [entryAt_of_lt ha hi, lba_segSector (by omega)]

/-- The block as it stands in `temp_buf`. -/
theorem mem_readBlock (ha : Allocated inode m) {i : ℕ} (hi : i < m) (x : Transfer) {a : ℕ}
    (h : a < 512) :
    (readBlock stray inode i x).m.mem a = fileByte inode x.m.disk (512 * i + a) := by
  have hdiv : (512 * i + a) / 512 = i := by omega
  have hmod : (512 * i + a) % 512 = a := by omega
  rw [readBlock_mem, if_pos ⟨by omega, by omega⟩, lba_entryAt ha hi, fileByte, hdiv, hmod,
    Int.sub_zero, Int.toNat_natCast]

@[simp] theorem putChunk_buf (i start pos size : ℤ) (x : Transfer) :
    (putChunk stray inode i start pos size x).buf = x.buf := by
  rw [putChunk, writeBlock_buf, Transfer.buf_setMem, readBlock_buf]

/-- The block that `putChunk` writes back. -/
theorem putChunk_disk (ha : Allocated inode m) {i start size : ℕ} (hi : i < m)
    (hfit : start + size ≤ 512) (pos : ℤ) (x : Transfer) :
    (putChunk stray inode i start pos size x).m.disk =
      x.m.disk.write ((dataBlockOffset inode i).toNat + 1) (ByteBlock.ofFn 512 fun a =>
        if start ≤ a ∧ a < start + size then stringByte x.buf pos (a - start)
        else fileByte inode x.m.disk (512 * i + a)) := by
  have hsize : uint32 size = size := by rw [uint32_eq (by omega) (by omega), Int.toNat_natCast]
  have hblock : ∀ a : ℕ, a < 512 →
      strncpy (readBlock stray inode i x).m.mem start x.buf pos size (0 + (a : ℤ)) =
      if start ≤ a ∧ a < start + size then stringByte x.buf pos (a - start)
      else fileByte inode x.m.disk (512 * i + a) := fun a h => by
    rw [Int.zero_add, strncpy_get, mem_readBlock ha hi x h]
    exact if_congr (by omega) (by congr 1; omega) rfl
  rw [putChunk, writeBlock_disk, lba_entryAt ha hi, Transfer.disk_setMem, Transfer.mem_setMem,
    readBlock_disk, readBlock_buf, hsize]
  congr 1
  refine ByteBlock.ext_get fun a h => ?_
  rw [ByteBlock.get_ofFn, ByteBlock.get_ofFn, if_pos h, if_pos h]
  exact hblock a h

/-- **The effect of moving one chunk** on the file. -/
theorem fileByte_putChunk (ha : Allocated inode m) (hd : DistinctBlocks inode m)
    {i start size : ℕ} (hi : i < m) (hfit : start + size ≤ 512) (pos : ℤ) (x : Transfer) {p : ℕ}
    (hp : p < 512 * m) :
    fileByte inode (putChunk stray inode i start pos size x).m.disk p =
      if p / 512 = i ∧ start ≤ p % 512 ∧ p % 512 < start + size then
        stringByte x.buf pos (p % 512 - start)
      else fileByte inode x.m.disk p := by
  rw [putChunk_disk ha hi hfit, fileByte]
  by_cases hblock : p / 512 = i
  · subst hblock
    have hsame : 512 * (p / 512) + p % 512 = p := by omega
    rw [Disk.write_self, ByteBlock.get_ofFn, if_pos (Nat.mod_lt _ (by decide)), hsame]
    exact if_congr (by omega) rfl rfl
  · have hne : (dataBlockOffset inode (p / 512)).toNat + 1 ≠
        (dataBlockOffset inode i).toNat + 1 := fun heq =>
      hblock (hd _ (by omega) i hi (UInt32.toNat_inj.mp (by omega)))
    rw [Disk.write_of_ne _ hne, if_neg (fun h => hblock h.1), fileByte]

/-- The other sectors are left alone. -/
theorem putChunk_disk_of_ne (ha : Allocated inode m) {i start size : ℕ} (hi : i < m)
    (hfit : start + size ≤ 512) (pos : ℤ) (x : Transfer) {b : ℕ}
    (hb : ∀ j < m, b ≠ (dataBlockOffset inode j).toNat + 1) :
    (putChunk stray inode i start pos size x).m.disk b = x.m.disk b := by
  rw [putChunk_disk ha hi hfit, Disk.write_of_ne _ (hb i hi)]

end PutChunk

/-! ## The whole transfer -/

section Write

variable {stray : ℤ → UInt32} {inode : Sector} {m : ℕ} {d : Disk} {s : Mem} {o e : ℕ}
  {x : Transfer}

/-- The state of a `write` of the string `s` at offset `o` once positions below `e` are done. -/
structure Put (inode : Sector) (m : ℕ) (d : Disk) (s : Mem) (o e : ℕ) (x : Transfer) : Prop where
  buf : x.buf = s
  byte : ∀ p < 512 * m, fileByte inode x.m.disk p =
    if o ≤ p ∧ p < e then putByte s o p else fileByte inode d p
  frame : ∀ b, (∀ j < m, b ≠ (dataBlockOffset inode j).toNat + 1) → x.m.disk b = d b

theorem Put.start (hx : x.m.disk = d) (hb : x.buf = s) : Put inode m d s o o x :=
  ⟨hb, fun p _ => by rw [hx, if_neg (by omega)], fun b _ => by rw [hx]⟩

/-- **One chunk.** Block `i` is done up to position `e'`. -/
theorem Put.chunk (h : Put inode m d s o e x) (ha : Allocated inode m)
    (hd : DistinctBlocks inode m) (i e' : ℕ) (hi : i < m) (he : e = max o (512 * i))
    (hle : e ≤ e') (hend : e' ≤ 512 * (i + 1)) {i' start pos size : ℤ} (hi' : i' = i)
    (hstart : start = e - 512 * i) (hpos : pos = e - o) (hsize : size = e' - e) :
    Put inode m d s o e' (putChunk stray inode i' start pos size x) := by
  obtain rfl : start = (e - 512 * i : ℕ) := by omega
  obtain rfl : size = (e' - e : ℕ) := by omega
  subst hi' hpos
  have hfit : e - 512 * i + (e' - e) ≤ 512 := by omega
  refine ⟨?_, fun p hp => ?_, fun b hb => ?_⟩
  · rw [putChunk_buf, h.buf]
  · rw [fileByte_putChunk ha hd hi hfit _ x hp, h.byte p hp, h.buf]
    by_cases hchunk : p / 512 = i ∧ e - 512 * i ≤ p % 512 ∧ p % 512 < e - 512 * i + (e' - e)
    · have hcs : chunkStart o p = e := by rw [chunkStart, hchunk.1, he]
      rw [if_pos hchunk, if_pos (by omega), putByte, hcs]
      congr 1
      omega
    · rw [if_neg hchunk]
      exact if_congr (by omega) rfl rfl
  · rw [putChunk_disk_of_ne ha hi hfit _ x hb, h.frame b hb]

/-- **What `write` leaves on the disk.** -/
theorem writeTransfer_spec (ha : Allocated inode m) (hd : DistinctBlocks inode m) {n : ℕ}
    (hroom : o + n < 512 * m) (hx : x.m.disk = d) (hb : x.buf = s) :
    Put inode m d s o (o + n) (writeTransfer stray inode o n x) := by
  have hm := ha.le
  simp only [NR_INODE_ENTRY] at hm
  have hnr : (o : ℤ).tdiv 512 = (o / 512 : ℕ) := by
    rw [Int.tdiv_eq_ediv_of_nonneg (by omega)]; omega
  have hstart : (o : ℤ).tmod 512 = (o % 512 : ℕ) := by
    rw [Int.tmod_eq_emod_of_nonneg (by omega)]; omega
  have hnum : (int32 (o + n)).tdiv 512 = ((o + n) / 512 : ℕ) := by
    rw [int32_eq (by omega) (by omega), Int.tdiv_eq_ediv_of_nonneg (by omega)]; omega
  have hlast : (int32 (o + n)).tmod 512 = ((o + n) % 512 : ℕ) := by
    rw [int32_eq (by omega) (by omega), Int.tmod_eq_emod_of_nonneg (by omega)]; omega
  simp only [writeTransfer, hnr, hstart, hnum, hlast]
  have h₀ : Put inode m d s o o x := Put.start hx hb
  split_ifs with hfit hnext
  · exact h₀.chunk ha hd (o / 512) (o + n) (by omega) (by omega) (by omega) (by omega) rfl
      (by omega) (by omega) (by omega)
  · have h₁ : Put inode m d s o (512 * (o / 512 + 1))
        (putChunk stray inode (o / 512 : ℕ) (o % 512 : ℕ) 0 (512 - (o % 512 : ℕ)) x) :=
      h₀.chunk ha hd (o / 512) _ (by omega) (by omega) (by omega) (by omega) rfl (by omega)
        (by omega) (by omega)
    exact h₁.chunk ha hd (o / 512 + 1) (o + n) (by omega) (by omega) (by omega) (by omega)
      (by omega) (by omega) (by omega) (by omega)
  · have h₁ : Put inode m d s o (512 * (o / 512 + 1))
        (putChunk stray inode (o / 512 : ℕ) (o % 512 : ℕ) 0 (512 - (o % 512 : ℕ)) x) :=
      h₀.chunk ha hd (o / 512) _ (by omega) (by omega) (by omega) (by omega) rfl (by omega)
        (by omega) (by omega)
    -- the loop takes the middle blocks one by one
    have h₂ : Put inode m d s o (512 * (((o + n) / 512 : ℕ) : ℤ).toNat)
        (forRange ((o / 512 : ℕ) + 1) ((o + n) / 512 : ℕ)
          (fun i x => putChunk stray inode i 0
            (512 - (o % 512 : ℕ) + (i - (o / 512 : ℕ) - 1) * 512) 512 x)
          (putChunk stray inode (o / 512 : ℕ) (o % 512 : ℕ) 0 (512 - (o % 512 : ℕ)) x)) :=
      forRange_induction (P := fun i x => Put inode m d s o (512 * i.toNat) x) (by omega)
        (fun i y hlo hhi hy => hy.chunk ha hd i.toNat _ (by omega) (by omega) (by omega)
          (by omega) (by omega) (by omega) (by omega) (by omega)) h₁
    rw [int32_eq (by omega) (by omega)]
    exact h₂.chunk ha hd ((o + n) / 512) (o + n) (by omega) (by omega) (by omega) (by omega) rfl
      (by omega) (by omega) (by omega)

/-- **A `write` that is not refused.** -/
theorem writeFile_put {junk : Mem} {k : Kernel} {fd : ℤ} {n : ℕ} (hfd : k.fcbIndex fd ≠ -1)
    (hw : (k.fcbOf fd).f_state = s_w ∨ (k.fcbOf fd).f_state = s_rw)
    (ho : (k.fcbOf fd).offset = o) (ha : Allocated (k.fcbOf fd).inode m)
    (hd : DistinctBlocks (k.fcbOf fd).inode m) (hroom : o + n < 512 * m) :
    ∃ x, Put (k.fcbOf fd).inode m k.disk s o (o + n) x ∧
      writeFile stray junk k fd s n = x.finish k (k.fcbIndex fd) (o + n : ℕ) n := by
  have hm := ha.le
  simp only [NR_INODE_ENTRY] at hm
  have hint : int32 (o + n) = (o + n : ℕ) := by rw [int32_eq (by omega) (by omega)]; omega
  have hput : Put (k.fcbOf fd).inode m k.disk s o (o + n)
      (writeTransfer stray (k.fcbOf fd).inode o n ⟨⟨k.disk, junk, []⟩, s, []⟩) :=
    writeTransfer_spec ha hd hroom rfl rfl
  refine ⟨_, hput, ?_⟩
  rw [writeFile, ← Kernel.fcbOf, if_neg (by simp [hfd, hw]), ho, hint]

end Write

end OsLab
