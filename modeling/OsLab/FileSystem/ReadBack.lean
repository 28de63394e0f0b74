import OsLab.FileSystem.OpenClose
import OsLab.FileSystem.RoundTrip
import OsLab.FileSystem.WriteSplice

/-!
# Reading what the image tool stored

`copy2myfs` stores a file on the host, and the kernel opens it and reads it in pieces. A file
without zeros comes out of any sequence of `read` calls as it lies on the disk, however the counts
cut it into blocks. Whether it lies there as it was stored is up to the files that were stored after
it: the inodes of a file go to consecutive blocks, past the end of the inode zone if need be, and
there the data of the first files is.

## Main definitions

* `readCalls` — the calls of `read` on descriptor `fd`, one after the other
* `ReadsBack` — the file reads as `data`
* `Reading` — descriptor `fd` is open for reading, at offset `o`, on the file of the given inode
* `Fresh` — a fresh `open` for reading: no FCB holds the file, one is closed, and the process has a
  free descriptor
* `Mounted` — the kernel has booted from the image: its directory is the one on the disk
* `Survives` — no later file shows in file `k`

## Main results

* `Reading.step` — one `read` of an open file
* `readsBack_iff_fileByte` — the calls give a string without zeros when the file holds it
* `readsBack_iff` — when a stored file is read back
-/

namespace OsLab

/-! ## Bytes without zeros -/

section Bytes

variable {inode : Sector} {d : Disk} {o e p : ℕ}

theorem stringByte_fileMem_iff {a t : ℕ} :
    stringByte (fileMem inode d) a t = fileByte inode d (a + t) ↔
      ∀ j < t, fileByte inode d (a + j) = 0 → fileByte inode d (a + t) = 0 := by
  have hcast : ∀ j : ℕ, fileMem inode d ((a : ℤ) + j) = fileByte inode d (a + j) := fun j => by
    have hpos : ((a : ℤ) + j).toNat = a + j := by omega
    rw [fileMem, hpos]
  have hiff := @stringByte_eq_self_iff (fileMem inode d) a t
  simp only [hcast] at hiff
  exact hiff

/-- A byte with no zero before it in its chunk is read as it is. -/
theorem takeByte_of_ne (b : UInt8) (hp : o ≤ p)
    (h : ∀ q, chunkStart o p ≤ q → q < p → fileByte inode d q ≠ 0) :
    takeByte inode d o e b p = fileByte inode d p := by
  have hcs : chunkStart o p ≤ p := by simp only [chunkStart]; omega
  have hpos : chunkStart o p + (p - chunkStart o p) = p := by omega
  rw [takeByte]
  split_ifs with hedge hzero
  · have hself := (@stringByte_fileMem_iff inode d (chunkStart o p)
      (p - chunkStart o p)).mpr fun j hj hz => absurd hz (h _ (by omega) (by omega))
    rw [hself, hpos]
  · obtain ⟨q, hq, hlo, hz⟩ := hzero
    simp only [AtEdge, not_or] at hedge
    exact absurd hz (h q (by simp only [chunkStart]; omega) hq)
  · rfl

/-- What comes into a buffer of zeros and is not zero is the file's. -/
theorem eq_of_takeByte_ne (hp : o ≤ p) (h : takeByte inode d o e 0 p ≠ 0) :
    fileByte inode d p = takeByte inode d o e 0 p := by
  have hcs : chunkStart o p ≤ p := by simp only [chunkStart]; omega
  have hpos : chunkStart o p + (p - chunkStart o p) = p := by omega
  rw [takeByte] at h ⊢
  split_ifs at h ⊢ with hedge hzero
  · have hself := (@stringByte_fileMem_iff inode d (chunkStart o p)
      (p - chunkStart o p)).mpr fun j hj hz => by
        refine absurd ((stringByte_eq_zero_iff (p - chunkStart o p)).mpr ⟨j, by omega, ?_⟩) h
        have hcast : ((chunkStart o p : ℤ) + j).toNat = chunkStart o p + j := by omega
        rw [fileMem, hcast, hz]
    rw [hself, hpos]
  · exact absurd rfl h
  · rfl

end Bytes

/-! ## Successive calls -/

/-- A call of `read`: the number of bytes asked for, what the buffer holds, and what the kernel
stack holds. -/
structure ReadArgs where
  count : ℕ
  buf : Mem
  junk : Mem

/-- The calls of `read` on descriptor `fd`, one after the other. -/
def readCalls (stray : ℤ → UInt32) (fd : ℤ) : Kernel → List ReadArgs → List Call
  | _, [] => []
  | k, a :: l =>
    let r := readFile stray a.junk k fd a.buf a.count
    r :: readCalls stray fd r.kernel l

/-- The bytes asked for by the calls before call `i`. -/
def readStart (l : List ReadArgs) (i : ℕ) : ℕ := ((l.take i).map ReadArgs.count).sum

/-- **The file reads as `data`.** Whatever the counts, as long as they do not exceed the file, call
`i` reports its count and has the next bytes of `data` in its buffer. -/
def ReadsBack (stray : ℤ → UInt32) (k : Kernel) (fd : ℤ) (data : List UInt8) : Prop :=
  ∀ l : List ReadArgs, (l.map ReadArgs.count).sum ≤ data.length → ∀ i a, l[i]? = some a →
    ∃ r, (readCalls stray fd k l)[i]? = some r ∧ r.kernel.result = a.count ∧
      ∀ j < a.count, r.buf j = data.getD (readStart l i + j) 0

/-- Descriptor `fd` is open for reading, at offset `o`, on the file of the given inode. -/
structure Reading (k : Kernel) (fd : ℤ) (inode : Sector) (d : Disk) (o : ℕ) : Prop where
  index : k.fcbIndex fd ≠ -1
  mode : (k.fcbOf fd).f_state = s_r
  inode : (k.fcbOf fd).inode = inode
  offset : (k.fcbOf fd).offset = o
  disk : k.disk = d

section Calls

variable {stray : ℤ → UInt32} {k : Kernel} {fd : ℤ} {inode : Sector} {d : Disk} {m o c n : ℕ}
  {buf junk : Mem} {data : List UInt8}

/-- **One `read`.** -/
theorem Reading.step (h : Reading k fd inode d o) (ha : Allocated inode m)
    (hroom : o + c < 512 * m) :
    Reading (readFile stray junk k fd buf c).kernel fd inode d (o + c) ∧
      (readFile stray junk k fd buf c).kernel.result = c ∧
      ∀ j < c, (readFile stray junk k fd buf c).buf j =
        takeByte inode d o (o + c) (buf j) (o + j) := by
  have ha' : Allocated (k.fcbOf fd).inode m := by rw [h.inode]; exact ha
  obtain ⟨x, hgot, heq⟩ :=
    @readFile_got stray junk k fd m buf o c h.index (.inl h.mode) h.offset ha'
    hroom
  have hfcb : (readFile stray junk k fd buf c).kernel.fcbOf fd =
      { k.fcbOf fd with offset := (o + c : ℕ) } := by
    rw [heq]
    exact Transfer.fcbOf_finish ..
  refine ⟨⟨?_, ?_, ?_, ?_, ?_⟩, ?_, fun j hj => ?_⟩
  · rw [heq, Transfer.fcbIndex_finish]
    exact h.index
  · rw [hfcb]
    exact h.mode
  · rw [hfcb]
    exact h.inode
  · rw [hfcb]
  · rw [heq, Transfer.disk_finish, hgot.disk, h.disk]
  · rw [heq, Transfer.result_finish]
  · rw [readFile_spec h.index (.inl h.mode) h.offset ha' hroom hj, h.inode, h.disk]

/-- **A run of `read` calls.** -/
theorem Reading.calls (h : Reading k fd inode d o) (ha : Allocated inode m) (l : List ReadArgs)
    (hroom : o + (l.map ReadArgs.count).sum < 512 * m) {i : ℕ} {a : ReadArgs}
    (hi : l[i]? = some a) :
    ∃ r, (readCalls stray fd k l)[i]? = some r ∧ r.kernel.result = a.count ∧
      ∀ j < a.count, r.buf j = takeByte inode d (o + readStart l i)
        (o + readStart l i + a.count) (a.buf j) (o + readStart l i + j) := by
  induction l generalizing k o i with
  | nil => simp at hi
  | cons b l ih =>
    rw [List.map_cons, List.sum_cons] at hroom
    obtain ⟨hnext, hresult, hbuf⟩ := @Reading.step stray k fd inode d m o b.count b.buf b.junk h ha
      (by omega)
    cases i with
    | zero =>
      obtain rfl : b = a := by simpa using hi
      exact ⟨_, rfl, hresult, hbuf⟩
    | succ i =>
      obtain ⟨r, hr, hres, hbytes⟩ := ih hnext (by omega) (i := i) (by simpa using hi)
      have hstart : o + readStart (b :: l) (i + 1) = o + b.count + readStart l i := by
        rw [readStart, List.take_succ_cons, List.map_cons, List.sum_cons, ← readStart,
          Nat.add_assoc]
      rw [hstart]
      exact ⟨r, hr, hres, hbytes⟩

theorem readStart_add_le (l : List ReadArgs) {i : ℕ} {a : ReadArgs} (hi : l[i]? = some a) :
    readStart l i + a.count ≤ (l.map ReadArgs.count).sum := by
  induction l generalizing i with
  | nil => simp at hi
  | cons b l ih =>
    rw [List.map_cons, List.sum_cons]
    cases i with
    | zero =>
      obtain rfl : b = a := by simpa using hi
      simp [readStart]
    | succ i =>
      have hle := ih (i := i) (by simpa using hi)
      rw [readStart, List.take_succ_cons, List.map_cons, List.sum_cons, ← readStart]
      omega

/-- **A string without zeros is read exactly when the file holds it.** -/
theorem readsBack_iff_fileByte (h : Reading k fd inode d 0) (ha : Allocated inode m)
    (hroom : data.length < 512 * m) (hz : 0 ∉ data) :
    ReadsBack stray k fd data ↔ ∀ p < data.length, fileByte inode d p = data.getD p 0 := by
  have hne : ∀ p < data.length, data.getD p 0 ≠ 0 := fun p hp heq => by
    rw [List.getD_eq_getElem _ _ hp] at heq
    exact hz (heq ▸ List.getElem_mem hp)
  constructor
  · -- the whole file in one call, into a buffer of zeros
    intro hall p hp
    obtain ⟨r, hr, -, hbuf⟩ := hall [⟨data.length, fun _ => 0, fun _ => 0⟩] (by simp) 0 _ rfl
    obtain ⟨r', hr', -, hbuf'⟩ := @Reading.calls stray _ _ _ _ _ _ h ha
      [⟨data.length, fun _ => 0, fun _ => 0⟩] (by simpa using hroom) 0 _ rfl
    obtain rfl : r = r' := Option.some.inj (hr.symm.trans hr')
    have hbyte := (hbuf' p hp).symm.trans (hbuf p hp)
    simp only [readStart, List.take_zero, List.map_nil, List.sum_nil, Nat.zero_add] at hbyte
    rw [eq_of_takeByte_ne (Nat.zero_le p) (by rw [hbyte]; exact hne p hp), hbyte]
  · intro hfile l hl i a hi
    have hle := readStart_add_le l hi
    obtain ⟨r, hr, hres, hbuf⟩ := @Reading.calls stray _ _ _ _ _ _ h ha l (by omega) _ _ hi
    refine ⟨r, hr, hres, fun j hj => ?_⟩
    simp only [Nat.zero_add] at hbuf
    rw [hbuf j hj, takeByte_of_ne _ (by omega) fun q hq hlt => ?_, hfile _ (by omega)]
    rw [hfile q (by omega)]
    exact hne q (by omega)

/-- A fresh `open` for reading: no FCB holds the file, one is closed, and the process has a free
descriptor. -/
structure Fresh (k : Kernel) (name : List UInt8) : Prop where
  absent : ∀ inode, fileInode k name = some inode → fcbWith k.fcb_table s_r inode = none
  closed : ∃ i, closedFcb k.fcb_table = some i
  free : ∃ fd, freeFd k.procs.cur = some fd

/-- The descriptor that a fresh `open` returns is open at offset 0. -/
theorem Fresh.reading {name : List UInt8} (h : Fresh k name)
    (hfile : fileInode k name = some inode) :
    Reading (openFile name s_r k) (openFile name s_r k).result inode k.disk 0 := by
  obtain ⟨i, hi⟩ := h.closed
  obtain ⟨fd, hfd⟩ := h.free
  obtain ⟨hi0, -⟩ := closedFcb_eq_some hi
  obtain ⟨hresult, hindex, hfcb⟩ := openFile_opened hfile (h.absent _ hfile) hi hfd
  rw [Kernel.result, hresult]
  refine ⟨?_, ?_, ?_, ?_, disk_openFile ..⟩
  · rw [hindex]
    omega
  all_goals rw [hfcb]
  rfl

end Calls

/-! ## A stored file -/

section Image

variable {img : Disk} {files : List InFile} {k : ℕ} {K : Kernel}

/-- The kernel has booted from the image: its directory is the one on the disk. -/
structure Mounted (K : Kernel) (img : Disk) : Prop where
  disk : K.disk = img
  direct : K.direct = img 257

/-- `open` finds the inode of the first file of a name. -/
theorem Image.fileInode_eq (h : Image img files) (hm : Mounted K img)
    (hlen : files.length ≤ NR_DIR_ENTRY)
    (hroom : dataAt (inodesBefore files files.length) (chunksBefore files files.length) ≤ NR_BLOCK)
    (hk : k < files.length) (hfirst : ∀ (e : ℕ) (he : e < k), files[e].name ≠ files[k].name) :
    fileInode K files[k].name.val = some (img (inodeStart files k + 1)) := by
  simp only [NR_DIR_ENTRY] at hlen
  have hstart := (start_lt hroom hk).2
  simp only [NR_BLOCK, BITMAP_SIZE] at hstart
  have hfind : (findSlot 16 fun i => strcmpEq (filename K.direct i.toNat) files[k].name.val) =
      some (k : ℤ) := by
    refine findSlot_eq (by omega) (by omega) ?_ fun j hj hlt => ?_
    · rw [hm.direct, Int.toNat_natCast]
      exact (h.entry k hk).name
    · obtain ⟨e, rfl⟩ := Int.eq_ofNat_of_zero_le hj
      have he : e < k := by omega
      rw [hm.direct, Int.toNat_natCast]
      exact Bool.eq_false_iff.mpr fun hmatch =>
        hfirst e he (h.name_eq (Nat.lt_trans he hk) hk hmatch)
  have hoff : (inodeOffset K.direct (k : ℤ).toNat).toNat = inodeStart files k := by
    rw [hm.direct, Int.toNat_natCast, (h.entry k hk).offset, UInt32.toNat_ofNat']
    omega
  have hsector : lba ((int32 (512 * int32 (inodeStart files k))).tdiv 512 + 1) =
      inodeStart files k + 1 := by
    have hbyte : int32 (512 * (inodeStart files k : ℤ)) = (512 * inodeStart files k : ℕ) := by
      rw [int32_eq (by omega) (by omega)]
      omega
    have hno : int32 (inodeStart files k : ℤ) = inodeStart files k := int32_eq (by omega) (by omega)
    rw [hno, hbyte, Int.tdiv_eq_ediv_of_nonneg (by omega), lba, uint32_eq (by omega) (by omega)]
    omega
  rw [fileInode, hfind, Option.map_some, readInode, hoff, hsector, hm.disk]

/-- The blocks of a file of less than 64 KiB, which has one inode. -/
theorem Image.allocated (h : Image img files)
    (hroom : dataAt (inodesBefore files files.length) (chunksBefore files files.length) ≤ NR_BLOCK)
    (hk : k < files.length) (hn : files[k].data.length < 65536) :
    (∀ j < chunkCount files[k].data.length,
      (dataBlockOffset (img (inodeStart files k + 1)) j).toNat = dataStart files k + j) ∧
      Allocated (img (inodeStart files k + 1)) (chunkCount files[k].data.length) := by
  have hone : inodeCount files[k].data.length = 1 := by simp only [inodeCount]; omega
  have hinode := h.inode k hk (.inl hone)
  have hcount : chunkCount files[k].data.length ≤ 128 := by simp only [chunkCount]; omega
  have hend := (start_lt hroom hk).1
  rw [hone] at hend
  have hlast : dataStart files k + chunkCount files[k].data.length ≤ NR_BLOCK := by
    rw [dataStart]
    simp only [dataAt] at hend ⊢
    omega
  have hentry : ∀ j < chunkCount files[k].data.length,
      (dataBlockOffset (img (inodeStart files k + 1)) j).toNat = dataStart files k + j := by
    intro j hj
    have hj' := hinode.entry j hj
    rw [Nat.div_eq_of_lt (by omega), Nat.mod_eq_of_lt (by omega), Nat.add_zero] at hj'
    rw [hj', UInt32.toNat_ofNat']
    simp only [NR_BLOCK, BITMAP_SIZE] at hlast
    omega
  refine ⟨hentry, by rw [NR_INODE_ENTRY]; exact hcount, fun j hj => ?_, fun j hj hlt => ?_⟩
  · rw [hentry j hj]
    omega
  · simp only [NR_INODE_ENTRY] at hlt
    have hj' := hinode.rest j hj (by omega)
    rwa [Nat.div_eq_of_lt (by omega), Nat.mod_eq_of_lt (by omega), Nat.add_zero] at hj'

/-- Byte `p` of a stored file. -/
theorem Image.fileByte_eq (h : Image img files)
    (hroom : dataAt (inodesBefore files files.length) (chunksBefore files files.length) ≤ NR_BLOCK)
    (hk : k < files.length) (hn : files[k].data.length < 65536) {p : ℕ}
    (hp : p < files[k].data.length) :
    fileByte (img (inodeStart files k + 1)) img p =
      (img (dataStart files k + p / 512 + 1)).get (p % 512) := by
  rw [fileByte, (h.allocated hroom hk hn).1 (p / 512) (by simp only [chunkCount]; omega)]

/-- **No later file shows in file `k`.** An inode that is put on its first data block starts with
the number of one of the later file's blocks. The file survives if it has no more bytes than that
number shares with it. -/
def Survives (files : List InFile) (k : ℕ) : Prop :=
  ∀ (s : ℕ) (hk : k < files.length) (hs : s < files.length), k < s →
    ∀ b < inodeCount files[s].data.length, inodeStart files s + b = dataStart files k →
      ∀ i < 4, i < files[k].data.length → files[k].data.getD i 0 =
        ByteBlock.byte32
          (UInt32.ofNat (dataNo (inodesBefore files s) (chunksBefore files s) (128 * b))) i

/-- The last byte of a block number is zero. -/
theorem byte32_blockNo {v : ℕ} (hv : v < NR_BLOCK) : ByteBlock.byte32 (UInt32.ofNat v) 3 = 0 := by
  simp only [NR_BLOCK, BITMAP_SIZE] at hv
  apply UInt8.toNat_inj.mp
  rw [ByteBlock.byte32, UInt32.toNat_ofNat', UInt8.toNat_ofNat']
  have hzero : v % 2 ^ 32 / 256 ^ 3 = 0 := Nat.div_eq_of_lt (by omega)
  rw [hzero]
  rfl

theorem dataNo_lt {s b : ℕ}
    (hroom : dataAt (inodesBefore files files.length) (chunksBefore files files.length) ≤ NR_BLOCK)
    (hs : s < files.length) (hb : b < inodeCount files[s].data.length) :
    dataNo (inodesBefore files s) (chunksBefore files s) (128 * b) < NR_BLOCK := by
  have hend := (start_lt hroom hs).1
  simp only [dataNo, dataAt, inodeCount, chunkCount] at hb hend ⊢
  omega

/-- **A file without zeros lies on the disk as it was stored exactly when it survives.** -/
theorem Image.fileByte_iff_survives (h : Image img files)
    (hroom : dataAt (inodesBefore files files.length) (chunksBefore files files.length) ≤ NR_BLOCK)
    (hk : k < files.length) (hn : files[k].data.length < 65536) (hz : 0 ∉ files[k].data) :
    (∀ p < files[k].data.length,
      fileByte (img (inodeStart files k + 1)) img p = files[k].data.getD p 0) ↔
        Survives files k := by
  have hone : inodeCount files[k].data.length = 1 := by simp only [inodeCount]; omega
  -- a block that has become an inode starts with the number of a block
  have hlost : ∀ (s b : ℕ) (hs : s < files.length), k < s → b < inodeCount files[s].data.length →
      inodeStart files s + b = dataStart files k → ∀ i < 4, i < files[k].data.length →
        fileByte (img (inodeStart files k + 1)) img i = ByteBlock.byte32
          (UInt32.ofNat (dataNo (inodesBefore files s) (chunksBefore files s) (128 * b))) i := by
    intro s b hs hks hb hon i hi hin
    have hget := ByteBlock.get_eq_byte32 (img (dataStart files k + 1)) 0 (k := i) (by omega)
    rw [Nat.zero_add] at hget
    rw [h.fileByte_eq hroom hk hn hin, Nat.div_eq_of_lt (by omega), Nat.mod_eq_of_lt (by omega),
      Nat.add_zero, hget]
    exact congrArg (fun v => ByteBlock.byte32 v i) (h.lost k s b hk hs hks hb hon)
  constructor
  · intro hall s _ hs hks b hb hon i hi hin
    rw [← hall i hin, hlost s b hs hks hb hon i hi hin]
  · intro hsurv p hp
    by_cases hun : Untouched files k files.length
    · rw [h.fileByte_eq hroom hk hn hp, (h.stored k hk (.inl hone) hun).data (p / 512) (by
        simp only [chunkCount]; omega), chunk, ByteBlock.get_ofFn,
        if_pos (Nat.mod_lt _ (by decide))]
      congr 1
      omega
    · -- a touched file that survives has no fourth byte
      simp only [Untouched, not_forall, ne_eq, not_not] at hun
      obtain ⟨s, hs, hks, -, b, hb, hon⟩ := hun
      have hshort : files[k].data.length ≤ 3 := by
        by_contra hlong
        have hlast := hsurv s hk hs hks b hb hon 3 (by decide) (by omega)
        rw [byte32_blockNo (dataNo_lt hroom hs hb), List.getD_eq_getElem _ _ (by omega)] at hlast
        exact hz (hlast ▸ List.getElem_mem _)
      rw [hlost s b hs hks hb hon p (by omega) hp, hsurv s hk hs hks b hb hon p (by omega) hp]

/-- **Reading a stored file.** -/
theorem Image.readsBack_iff_survives (h : Image img files) (hm : Mounted K img)
    (hlen : files.length ≤ NR_DIR_ENTRY)
    (hroom : dataAt (inodesBefore files files.length) (chunksBefore files files.length) ≤ NR_BLOCK)
    (hk : k < files.length) (hfirst : ∀ (e : ℕ) (he : e < k), files[e].name ≠ files[k].name)
    (hn : files[k].data.length < 65536) (hz : 0 ∉ files[k].data)
    (hfresh : Fresh K files[k].name.val) (stray : ℤ → UInt32) :
    ReadsBack stray (openFile files[k].name.val s_r K)
        (openFile files[k].name.val s_r K).result files[k].data ↔ Survives files k := by
  have hread := hfresh.reading (h.fileInode_eq hm hlen hroom hk hfirst)
  rw [hm.disk] at hread
  rw [readsBack_iff_fileByte hread (h.allocated hroom hk hn).2
    (by simp only [chunkCount]; omega) hz, h.fileByte_iff_survives hroom hk hn hz]

end Image

/-- **When the kernel reads back what the image tool stored.** For every list of files that fits on
a formatted disk and every file of it that is shorter than 64 KiB, holds no zeros and is the first
of its name: opened for reading on a kernel that booted from the image, the file is read back in
every sequence of calls if and only if it survives the inodes of the files stored after it. -/
theorem readsBack_iff (boot : Sector) (mem : ℕ → Sector) (bitoffset : ℕ) (files : List InFile)
    (hlen : files.length ≤ 16) (hshort : ∀ f ∈ files, f.name.val.length < 24)
    (hroom : 288 + (files.map fun f => chunkCount f.data.length).sum +
      ((files.map fun f => inodeCount f.data.length).sum - 31) ≤ NR_BLOCK)
    (k : ℕ) (hk : k < files.length)
    (hfirst : ∀ (e : ℕ) (he : e < k), files[e].name ≠ files[k].name)
    (hn : files[k].data.length < 65536) (hz : 0 ∉ files[k].data) (K : Kernel)
    (hm : Mounted K (copy2myfs (formatter boot mem) bitoffset (files.map InFile.arg)))
    (hfresh : Fresh K files[k].name.val) (stray : ℤ → UInt32) :
    ReadsBack stray (openFile files[k].name.val s_r K)
        (openFile files[k].name.val s_r K).result files[k].data ↔ Survives files k := by
  have hroom' : dataAt (inodesBefore files files.length) (chunksBefore files files.length) ≤
      NR_BLOCK := by
    rwa [dataAt, inodesBefore, chunksBefore, List.take_length]
  have himage := image_copy2myfs boot mem bitoffset hlen hshort hroom'
  exact himage.readsBack_iff_survives hm hlen hroom' hk
    hfirst hn hz hfresh stray

/-! ### Two files -/

/-- A kernel that has booted from the image and in which nothing is open. -/
def mountedKernel (img : Disk) : Kernel where
  procs := ⟨fun _ => ⟨0, fun _ => -1, 0, 0, Running, 0, 0, 0, 0, -1⟩, 1⟩
  fcb_table := fun _ => ⟨s_close, zeroSector, 0, 0⟩
  direct := img 257
  disk := img

theorem mountedKernel_fresh (img : Disk) (name : List UInt8) : Fresh (mountedKernel img) name := by
  refine ⟨fun inode _ => findSlot_eq_none.mpr fun j _ _ => decide_eq_false fun h => ?_,
    exists_findSlot_eq_some (Int.le_refl 0) (by decide) (decide_eq_true rfl),
    exists_findSlot_eq_some (Int.le_refl 0) (by decide) (decide_eq_true rfl)⟩
  exact absurd h.1 (show (3 : ℤ) ≠ 0 by decide)

theorem noNul_a : (0 : UInt8) ∉ [(97 : UInt8)] := by decide

theorem noNul_b : (0 : UInt8) ∉ [(98 : UInt8)] := by decide

/-- A file of four bytes, followed by another of three. -/
def shortFiles : List InFile := [⟨⟨[97], noNul_a⟩, [1, 1, 1, 1]⟩, ⟨⟨[98], noNul_b⟩, [1, 2, 3]⟩]

/-- The image of some files. -/
def imageOf (files : List InFile) : Disk :=
  copy2myfs (formatter zeroSector fun _ => zeroSector) 0 (files.map InFile.arg)

theorem readsBack_iff_short :
    ReadsBack (fun _ => 0) (openFile [97] s_r (mountedKernel (imageOf shortFiles)))
        (openFile [97] s_r (mountedKernel (imageOf shortFiles))).result [1, 1, 1, 1] ↔
      Survives shortFiles 0 :=
  readsBack_iff zeroSector (fun _ => zeroSector) 0 shortFiles (by decide) (by decide)
    (by simp [shortFiles, chunkCount, inodeCount, NR_BLOCK, BITMAP_SIZE]) 0 (by decide)
    (fun e he => absurd he (Nat.not_lt_zero e)) (by decide) (by decide)
    (mountedKernel (imageOf shortFiles)) ⟨rfl, rfl⟩ (mountedKernel_fresh _ _) fun _ => 0

/-- A file of 30 times 64 KiB, which has 31 inodes. -/
def zeroFile : InFile := ⟨⟨[98], noNul_b⟩, List.replicate 1966080 0⟩

theorem length_zeroFile : zeroFile.data.length = 1966080 := List.length_replicate ..

/-- The file of four bytes, followed by the long one. -/
def shortAndLong : List InFile := [⟨⟨[97], noNul_a⟩, [1, 1, 1, 1]⟩, zeroFile]

/-- Of the inodes of the second file only 30 find room in the inode zone. -/
theorem shortAndLong_not_survives : ¬Survives shortAndLong 0 := by
  intro h
  have hlong : shortAndLong[1].data.length = 1966080 := length_zeroFile
  have hon : inodeStart shortAndLong 1 + 30 = dataStart shortAndLong 0 := by
    simp [inodeStart, dataStart, inodesBefore, chunksBefore, shortAndLong, inodeAt, dataAt,
      inodeCount]
  have hbyte := h 1 (by decide) (by decide) (by decide) 30 (by rw [hlong]; decide) hon 3 (by decide)
    (by decide)
  rw [byte32_blockNo (by
    simp [dataNo, inodesBefore, chunksBefore, shortAndLong, dataAt, inodeCount, chunkCount,
      NR_BLOCK, BITMAP_SIZE])] at hbyte
  exact absurd hbyte (by decide)

/-- **A file that is not read back.** The thirty-first inode of the second file is put on the only
data block of the first. -/
theorem shortAndLong_not_readsBack :
    shortAndLong.length ≤ 16 ∧ (∀ f ∈ shortAndLong, f.name.val.length < 24) ∧
      288 + (shortAndLong.map fun f => chunkCount f.data.length).sum +
        ((shortAndLong.map fun f => inodeCount f.data.length).sum - 31) ≤ NR_BLOCK ∧
      Mounted (mountedKernel (imageOf shortAndLong)) (imageOf shortAndLong) ∧
      Fresh (mountedKernel (imageOf shortAndLong)) [97] ∧
      ¬ReadsBack (fun _ => 0) (openFile [97] s_r (mountedKernel (imageOf shortAndLong)))
        (openFile [97] s_r (mountedKernel (imageOf shortAndLong))).result [1, 1, 1, 1] := by
  have hroom : 288 + (shortAndLong.map fun f => chunkCount f.data.length).sum +
      ((shortAndLong.map fun f => inodeCount f.data.length).sum - 31) ≤ NR_BLOCK := by
    simp [shortAndLong, chunkCount, inodeCount, length_zeroFile, NR_BLOCK, BITMAP_SIZE]
  have hroom' : dataAt (inodesBefore shortAndLong shortAndLong.length)
      (chunksBefore shortAndLong shortAndLong.length) ≤ NR_BLOCK := by
    rwa [dataAt, inodesBefore, chunksBefore, List.take_length]
  have hshort : ∀ f ∈ shortAndLong, f.name.val.length < 24 := by decide
  have himage : Image (imageOf shortAndLong) shortAndLong :=
    image_copy2myfs zeroSector (fun _ => zeroSector) 0 (by decide) hshort hroom'
  refine ⟨by decide, hshort, hroom, ⟨rfl, rfl⟩, mountedKernel_fresh _ _, fun hread => ?_⟩
  exact shortAndLong_not_survives ((himage.readsBack_iff_survives
    (K := mountedKernel (imageOf shortAndLong)) ⟨rfl, rfl⟩ (by decide) hroom' (by decide)
      (fun e he => absurd he (Nat.not_lt_zero e)) (by decide) (by decide)
      (mountedKernel_fresh _ _) fun _ => 0).mp hread)

end OsLab
