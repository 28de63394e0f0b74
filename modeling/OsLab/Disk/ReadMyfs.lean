import OsLab.Disk.ImageLayout

/-!
# `read_myfs`

The reader walks a file's inode chain on its own account. It loads the first inode before the
loop and a further one whenever entry 128 comes up, from `inode_offset + inode_num`, but it
counts `inode_num` up only *after* that load. The first reload therefore fetches the first inode
again, the second the second, and so on: from the 129th block on everything comes out 64 KiB
late.

`readLoop_eq` is that statement: block `m` of the output is block `m` of the file up to 128 and
block `m - 128` from there on. What the reader gets right is then a question about the file alone
(`readMyfs_roundTrip_iff`).

## Main definitions

* `readLoop` — `while(size < file_size)`: the sectors written to the output
* `readMyfs` — `read_myfs name`: the sectors written to `read_files/readfile`
* `stream` — the bytes of a file written sector by sector
* `sourceBlock` — the block of the file that ends up as block `m` of the output

## Main results

* `readLoop_eq`, `Image.readMyfs_eq` — what comes out
* `readMyfs_roundTrip_iff` — when this is the file
-/

namespace OsLab

/-- The sector at position `512 + data_block_offset * 512`, computed in `uint32_t`. -/
def blockSector (data_block_offset : UInt32) : ℕ := (512 + data_block_offset * 512).toNat / 512

/-- `while(size < file_size)`: the sectors written to the output. -/
def readLoop (d : Disk) (inode_offset : UInt32) (file_size size : ℕ) (inode : Sector)
    (j inode_num : ℕ) : List Sector :=
  if size < file_size then
    let reload := j = NR_INODE_ENTRY
    let inode := if reload then d (inodeSector inode_offset inode_num) else inode
    let inode_num := if reload then inode_num + 1 else inode_num
    let j := if reload then 0 else j
    if dataBlockOffset inode j ≠ minusOne then
      d (blockSector (dataBlockOffset inode j)) ::
        readLoop d inode_offset file_size (size + 512) inode (j + 1) inode_num
    else []
  else []
termination_by file_size - size
decreasing_by omega

/-- What the loop over the directory writes for entry `i`. -/
def readEntry (d : Disk) (name : List UInt8) (i : ℕ) : List Sector :=
  let direct := d 257
  if inodeOffset direct i ≠ minusOne ∧ strcmpEq (filename direct i) name = true then
    readLoop d (inodeOffset direct i) (fileSize direct i).toNat 0
      (d (inodeSector (inodeOffset direct i) 0)) 0 0
  else []

/-- `read_myfs name`: the sectors written to `read_files/readfile`. -/
def readMyfs (d : Disk) (name : List UInt8) : List Sector :=
  (List.range NR_DIR_ENTRY).flatMap (readEntry d name)

/-- The bytes of a file written sector by sector. -/
def stream (out : List Sector) : List UInt8 := out.flatMap ByteBlock.toList

/-! ## The stream -/

@[simp] theorem length_stream (out : List Sector) : (stream out).length = 512 * out.length := by
  induction out with
  | nil => rfl
  | cons s out ih =>
    rw [stream] at ih
    rw [stream, List.flatMap_cons, List.length_append, ih, ByteBlock.length_toList,
      List.length_cons]
    omega

theorem getD_stream {out : List Sector} {k : ℕ} (hk : k < 512 * out.length) :
    (stream out).getD k 0 = (out.getD (k / 512) zeroSector).get (k % 512) := by
  induction out generalizing k with
  | nil => simp at hk
  | cons s out ih =>
    have hcons : stream (s :: out) = s.toList ++ stream out := rfl
    rw [hcons]
    rcases Nat.lt_or_ge k 512 with h | h
    · rw [List.getD_append _ _ _ _ (by simpa using h), Nat.div_eq_of_lt h, Nat.mod_eq_of_lt h,
        ByteBlock.getD_toList, List.getD_cons_zero]
    · obtain ⟨k, rfl⟩ := Nat.exists_eq_add_of_le h
      have hdiv : (512 + k) / 512 = k / 512 + 1 := by omega
      have hmod : (512 + k) % 512 = k % 512 := by omega
      rw [List.getD_append_right _ _ _ _ (by simp), ByteBlock.length_toList,
        Nat.add_sub_cancel_left, hdiv, hmod, List.getD_cons_succ]
      exact ih (by simp only [List.length_cons] at hk; omega)

/-! ## The loop -/

/-- The block of the file that ends up as block `m` of the output. -/
def sourceBlock (m : ℕ) : ℕ := if m < 128 then m else m - 128

section Loop

variable {img : Disk} {base d : ℕ} {data : List UInt8}

theorem blockSector_ofNat {b : ℕ} (h : b < NR_BLOCK) : blockSector (UInt32.ofNat b) = b + 1 := by
  simp only [NR_BLOCK, BITMAP_SIZE] at h
  simp only [blockSector, UInt32.toNat_add, UInt32.toNat_mul, UInt32.toNat_ofNat',
    UInt32.toNat_ofNat]
  omega

/-- **The loop, block by block.** Before round `m` the reader has reloaded `(m - 1) / 128` times,
and the inode it holds is the one before the one it should hold. -/
theorem readLoop_eq (h : Stored img base d data)
    (hbase : base + inodeCount data.length ≤ NR_BLOCK)
    (hd : d + chunkCount data.length ≤ NR_BLOCK) {m : ℕ} (hm : m ≤ (data.length + 511) / 512) :
    readLoop img (UInt32.ofNat base) data.length (512 * m)
        (img (base + ((m - 1) / 128 - 1) + 1)) (m - 128 * ((m - 1) / 128)) ((m - 1) / 128) =
      (List.range' m ((data.length + 511) / 512 - m)).map fun m => chunk data (sourceBlock m) := by
  simp only [inodeCount, chunkCount] at hbase hd
  obtain ⟨r, hr⟩ : ∃ r, (data.length + 511) / 512 - m = r := ⟨_, rfl⟩
  induction r generalizing m with
  | zero =>
    have hend : ¬512 * m < data.length := by omega
    rw [readLoop, if_neg hend, hr]
    rfl
  | succ r ih =>
    have hlt : 512 * m < data.length := by omega
    have hsrc : sourceBlock m < data.length / 512 + 1 := by simp only [sourceBlock]; split <;> omega
    -- the state the round works in, after the reload if there is one
    have hinode : (if m - 128 * ((m - 1) / 128) = NR_INODE_ENTRY
          then img (inodeSector (UInt32.ofNat base) ((m - 1) / 128))
          else img (base + ((m - 1) / 128 - 1) + 1)) = img (base + sourceBlock m / 128 + 1) := by
      have hsource : sourceBlock m / 128 = m / 128 - 1 := by
        simp only [sourceBlock]; split <;> omega
      rw [hsource]
      split_ifs with h <;> simp only [NR_INODE_ENTRY] at h
      · rw [inodeSector_ofNat (by omega)]
        congr 2; omega
      · congr 3; omega
    have hnum : (if m - 128 * ((m - 1) / 128) = NR_INODE_ENTRY then (m - 1) / 128 + 1
        else (m - 1) / 128) = m / 128 := by
      split_ifs with h <;> simp only [NR_INODE_ENTRY] at h <;> omega
    have hj : (if m - 128 * ((m - 1) / 128) = NR_INODE_ENTRY then 0
        else m - 128 * ((m - 1) / 128)) = m % 128 := by
      split_ifs with h <;> simp only [NR_INODE_ENTRY] at h <;> omega
    have hentry : dataBlockOffset (img (base + sourceBlock m / 128 + 1)) (m % 128) =
        UInt32.ofNat (d + sourceBlock m) := by
      have hmod : m % 128 = sourceBlock m % 128 := by simp only [sourceBlock]; split <;> omega
      rw [hmod]
      exact h.entry _ (by simp only [chunkCount]; omega)
    rw [readLoop, if_pos hlt]
    simp only [hinode, hnum, hj, hentry]
    rw [if_pos (ofNat_ne_minusOne (by omega)), blockSector_ofNat (by omega),
      h.data _ (by simp only [chunkCount]; omega), hr, List.range'_succ, List.map_cons]
    congr 1
    have hnext := ih (m := m + 1) (by omega) (by omega)
    have hr' : (data.length + 511) / 512 - (m + 1) = r := by omega
    have hblock : m / 128 - 1 = sourceBlock m / 128 := by simp only [sourceBlock]; split <;> omega
    have hentry' : m + 1 - 128 * (m / 128) = m % 128 + 1 := by omega
    rw [Nat.add_sub_cancel, hr', hblock, hentry'] at hnext
    exact hnext

end Loop

/-! ## The directory -/

theorem flatMap_range_eq {α : Type*} {f : ℕ → List α} {n k : ℕ} (hk : k < n)
    (h : ∀ i < n, i ≠ k → f i = []) : (List.range n).flatMap f = f k := by
  obtain ⟨r, rfl⟩ := Nat.exists_eq_add_of_lt hk
  have hbefore : (List.range k).flatMap f = [] :=
    List.flatMap_eq_nil_iff.mpr fun i hi => by
      have := List.mem_range.mp hi
      exact h i (by omega) (by omega)
  have hafter : (List.range' (k + 1) r).flatMap f = [] :=
    List.flatMap_eq_nil_iff.mpr fun i hi => by
      have := List.mem_range'_1.mp hi
      exact h i (by omega) (by omega)
  rw [List.range_eq_range', Nat.add_assoc, ← List.range'_append_1, Nat.zero_add,
    Nat.add_comm r 1, Nat.add_comm 1 r, List.range'_succ, ← List.range_eq_range']
  simp [hbefore, hafter]

section Image

variable {img : Disk} {files : List InFile}

/-- **What `read_myfs` writes for a stored file.** -/
theorem Image.readMyfs_eq (h : Image img files) (hlen : files.length ≤ NR_DIR_ENTRY)
    (hdistinct : (files.map InFile.name).Nodup) (hzone : inodesBefore files files.length ≤ 31)
    (hroom : 288 + chunksBefore files files.length ≤ NR_BLOCK) {k : ℕ} (hk : k < files.length) :
    readMyfs img files[k].name.val =
      (List.range ((files[k].data.length + 511) / 512)).map fun m =>
        chunk files[k].data (sourceBlock m) := by
  obtain ⟨hzk, hrk⟩ := footprint_le hk hk
  have hn : files[k].data.length < 2 ^ 32 := by
    simp only [chunkCount, NR_BLOCK, BITMAP_SIZE] at hrk hroom; omega
  have hblock : 257 + inodesBefore files k < NR_BLOCK := by
    simp only [NR_BLOCK, BITMAP_SIZE]; omega
  have hother : ∀ i < NR_DIR_ENTRY, i ≠ k → readEntry img files[k].name.val i = [] := by
    intro i hi hne
    refine if_neg fun hentry => ?_
    obtain ⟨hused, hmatch⟩ := hentry
    rcases Nat.lt_or_ge i files.length with hlt | hge
    · exact hne (h.name_inj hdistinct hlt hk hmatch)
    · exact hused (h.free i hge hi).offset
  rw [readMyfs, flatMap_range_eq (by omega) hother, readEntry, if_pos ⟨by
    rw [(h.entry k hk).offset, (inodeStart_eq hzone hk).1]; exact ofNat_ne_minusOne hblock,
      (h.entry k hk).name⟩,
    (h.entry k hk).offset, (inodeStart_eq hzone hk).1, (h.entry k hk).size, UInt32.toNat_ofNat',
    Nat.mod_eq_of_lt hn,
    inodeSector_ofNat (by omega)]
  have hloop :=
    readLoop_eq (h.stored_of_zone hzone hk) (by simp only [NR_BLOCK, BITMAP_SIZE]; omega)
    (by omega) (m := 0) (Nat.zero_le _)
  rw [List.range_eq_range']
  exact hloop

/-- What the reader writes for a file agrees with the file exactly when the file repeats itself
every 64 KiB. -/
theorem take_stream_eq_iff (data : List UInt8) :
    (stream ((List.range ((data.length + 511) / 512)).map fun m =>
        chunk data (sourceBlock m))).take data.length = data ↔
      ∀ i, 65536 ≤ i → i < data.length → data.getD i 0 = data.getD (i - 65536) 0 := by
  set out := (List.range ((data.length + 511) / 512)).map fun m => chunk data (sourceBlock m)
  have hlen : out.length = (data.length + 511) / 512 := by simp [out]
  have hbyte : ∀ i < data.length, (stream out).getD i 0 =
      data.getD (if i < 65536 then i else i - 65536) 0 := by
    intro i hi
    have hsrc : 512 * sourceBlock (i / 512) + i % 512 = if i < 65536 then i else i - 65536 := by
      simp only [sourceBlock]; split <;> split <;> omega
    have hout : out.getD (i / 512) zeroSector = chunk data (sourceBlock (i / 512)) := by
      rw [List.getD_eq_getElem _ _ (by omega)]
      simp [out]
    rw [getD_stream (by omega), hout, chunk, ByteBlock.get_ofFn, if_pos (Nat.mod_lt _ (by omega)),
      hsrc]
  constructor
  · intro heq i hi hlt
    rw [← heq, List.getD_eq_getElem?_getD, List.getElem?_take_of_lt hlt,
      ← List.getD_eq_getElem?_getD, hbyte i hlt, if_neg (Nat.not_lt.mpr hi), heq]
  · intro hall
    refine List.ext_getElem (by rw [List.length_take, length_stream]; omega) fun i hi hi' => ?_
    have hget := hbyte i hi'
    rw [List.getD_eq_getElem _ _ (by rw [length_stream]; omega)] at hget
    rw [List.getElem_take, hget, ← List.getD_eq_getElem _ 0 hi']
    split
    · rfl
    · exact (hall i (by omega) hi').symm

end Image

/-- **When `read_myfs` gives a file back.** For every file of a formatted image written by
`copy2myfs` whose inodes fit in the inode zone and whose data fits on the disk, the first
`file_size` bytes of `readfile` are the file's if and only if the file is no longer than 64 KiB
or repeats itself every 64 KiB. -/
theorem readMyfs_roundTrip_iff (boot : Sector) (mem : ℕ → Sector) (bitoffset : ℕ)
    (files : List InFile) (hlen : files.length ≤ 16)
    (hdistinct : (files.map InFile.name).Nodup) (hshort : ∀ f ∈ files, f.name.val.length < 24)
    (hinodes : (files.map fun f => inodeCount f.data.length).sum ≤ 31)
    (hdata : 288 + (files.map fun f => chunkCount f.data.length).sum ≤ NR_BLOCK)
    (k : ℕ) (hk : k < files.length) :
    (stream (readMyfs (copy2myfs (formatter boot mem) bitoffset (files.map InFile.arg))
        files[k].name.val)).take files[k].data.length = files[k].data ↔
      ∀ i, 65536 ≤ i → i < files[k].data.length →
        files[k].data.getD i 0 = files[k].data.getD (i - 65536) 0 := by
  have hzone : inodesBefore files files.length ≤ 31 := by
    rwa [inodesBefore, List.take_length]
  have hroom : 288 + chunksBefore files files.length ≤ NR_BLOCK := by
    rwa [chunksBefore, List.take_length]
  rw [(image_copy2myfs boot mem bitoffset hlen hshort
    (room_of_zone hzone hroom)).readMyfs_eq hlen hdistinct
    hzone hroom hk]
  exact take_stream_eq_iff _

/-- Two files in one image, the second of them with two inodes. -/
theorem readMyfs_roundTrip_iff_second :
    (stream (readMyfs (copy2myfs (formatter zeroSector fun _ => zeroSector) 0
        ([⟨⟨[98], by decide⟩, [1, 2, 3]⟩, longFile].map InFile.arg)) longFile.name.val)).take
          longFile.data.length = longFile.data ↔
      ∀ i, 65536 ≤ i → i < longFile.data.length →
        longFile.data.getD i 0 = longFile.data.getD (i - 65536) 0 :=
  readMyfs_roundTrip_iff zeroSector (fun _ => zeroSector) 0
    [⟨⟨[98], by decide⟩, [1, 2, 3]⟩, longFile] (by decide) (by decide) (by decide)
    (by simp [inodeCount, length_longFile]) (by simp [chunkCount, length_longFile, NR_BLOCK,
      BITMAP_SIZE]) 1 (by decide)

/-- **A file `read_myfs` does not give back.** The 65537th byte comes out as the first. -/
theorem readMyfs_longFile :
    [longFile].length ≤ 16 ∧ ([longFile].map InFile.name).Nodup ∧
      (∀ f ∈ [longFile], f.name.val.length < 24) ∧
      ([longFile].map fun f => inodeCount f.data.length).sum ≤ 31 ∧
      288 + ([longFile].map fun f => chunkCount f.data.length).sum ≤ NR_BLOCK ∧
      (stream (readMyfs (copy2myfs (formatter zeroSector fun _ => zeroSector) 0
        ([longFile].map InFile.arg)) longFile.name.val)).take longFile.data.length ≠
          longFile.data := by
  have hinodes : ([longFile].map fun f => inodeCount f.data.length).sum ≤ 31 := by
    simp [inodeCount, length_longFile]
  have hdata : 288 + ([longFile].map fun f => chunkCount f.data.length).sum ≤ NR_BLOCK := by
    simp [chunkCount, length_longFile, NR_BLOCK, BITMAP_SIZE]
  have hzone : inodesBefore [longFile] [longFile].length ≤ 31 := by
    rw [inodesBefore, List.take_length]
    exact hinodes
  have hroom : 288 + chunksBefore [longFile] [longFile].length ≤ NR_BLOCK := by
    rw [chunksBefore, List.take_length]
    exact hdata
  refine ⟨by decide, by decide, by decide, hinodes, hdata, fun heq => ?_⟩
  have hread := (image_copy2myfs zeroSector (fun _ => zeroSector) 0 (by decide) (by decide)
    (room_of_zone hzone hroom)).readMyfs_eq (by decide) (by decide) hzone hroom (k := 0) (by decide)
  rw [List.getElem_cons_zero] at hread
  rw [hread, take_stream_eq_iff] at heq
  have hbyte := heq 65536 (Nat.le_refl _) (by rw [length_longFile]; omega)
  rw [Nat.sub_self, longFile, List.getD_append_right _ _ _ _ (by rw [List.length_replicate]),
    List.length_replicate, Nat.sub_self, List.getD_append _ _ _ _ (by
      rw [List.length_replicate]; omega), List.getD_replicate _ (by omega)] at hbyte
  exact absurd hbyte (by decide)

end OsLab
