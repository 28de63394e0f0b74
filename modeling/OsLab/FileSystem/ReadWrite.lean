import OsLab.FileSystem.Fcb

/-!
# Reading and writing files

The system calls `read`, `write` and `lseek` of `fs.c`.

A request from offset `o` for `count` bytes concerns the blocks `o / 512` to `(o + count) / 512` of
the file. Both calls look the block numbers up in the inode without asking how many the file has.
An index outside `0 … 127` reads memory around the inode, which is the parameter `stray` here.

Both calls have a buffer of their own on the kernel stack, `temp_buf`; `junk` is what the stack
holds before the call. The caller's buffer is indexed from its first byte.

## Main definitions

* `Transfer` — the state of a call: the machine, whose memory is `temp_buf`, the caller's buffer,
  and the inode indices looked up so far, latest first
* `readTransfer` — the transfer of `read`, and the number of bytes it reports
* `writeTransfer` — the transfer of `write`

A transfer records what it does, for the properties that are about sectors. Nothing in the kernel
looks at the record.
-/

namespace OsLab

/-! ## Blocks of a file -/

/-- The state of a call: the machine, whose memory is `temp_buf`, the caller's buffer, and the
inode indices looked up so far, latest first. -/
structure Transfer where
  m : Machine
  buf : Mem
  indices : List ℤ

/-- Assign to `temp_buf`. -/
def Transfer.setMem (x : Transfer) (mem : Mem) : Transfer := { x with m := { x.m with mem := mem } }

/-- Assign to the caller's buffer. -/
def Transfer.setBuf (x : Transfer) (buf : Mem) : Transfer := { x with buf := buf }

section Assign

-- by `cases` and not `rfl`, so that they rewrite and are not unfolded
variable (x : Transfer) (b : Mem)

@[simp] theorem Transfer.m_setBuf : (x.setBuf b).m = x.m := by cases x; rfl
@[simp] theorem Transfer.buf_setBuf : (x.setBuf b).buf = b := by cases x; rfl
@[simp] theorem Transfer.disk_setMem : (x.setMem b).m.disk = x.m.disk := by cases x; rfl
@[simp] theorem Transfer.mem_setMem : (x.setMem b).m.mem = b := by cases x; rfl
@[simp] theorem Transfer.log_setMem : (x.setMem b).m.log = x.m.log := by cases x; rfl
@[simp] theorem Transfer.buf_setMem : (x.setMem b).buf = x.buf := by cases x; rfl
@[simp] theorem Transfer.indices_setMem : (x.setMem b).indices = x.indices := by cases x; rfl

end Assign

section Calls

variable (stray : ℤ → UInt32) (inode : Sector)

/-- `inode.data_block_offset[i]` for any `i`. -/
def entryAt (i : ℤ) : UInt32 :=
  if 0 ≤ i ∧ i < NR_INODE_ENTRY then dataBlockOffset inode i.toNat else stray i

/-- `readseg(temp_buf, 512, data_block_offset[i] * 512)` -/
def readBlock (i : ℤ) (x : Transfer) : Transfer :=
  { x with m := readseg 0 512 (segOffset (entryAt stray inode i)) x.m, indices := i :: x.indices }

/-- `writeseg(temp_buf, 512, data_block_offset[i] * 512)` -/
def writeBlock (i : ℤ) (x : Transfer) : Transfer :=
  { x with m := writeseg 0 512 (segOffset (entryAt stray inode i)) x.m, indices := i :: x.indices }

section Block

variable {stray inode} (i : ℤ) (x : Transfer)

@[simp] theorem readBlock_log : (readBlock stray inode i x).m.log =
    ⟨false, segSector (entryAt stray inode i)⟩ :: x.m.log := by
  simp only [readBlock, readseg_block, readsect]

@[simp] theorem readBlock_disk : (readBlock stray inode i x).m.disk = x.m.disk := by
  simp only [readBlock, readseg_block, readsect]

theorem readBlock_mem (a : ℤ) : (readBlock stray inode i x).m.mem a =
    if 0 ≤ a ∧ a < 0 + 512 then
      (x.m.disk (lba (segSector (entryAt stray inode i)))).get (a - 0).toNat
    else x.m.mem a := by
  simp only [readBlock, readseg_block, readsect]

@[simp] theorem readBlock_buf : (readBlock stray inode i x).buf = x.buf := by
  cases x
  rfl

@[simp] theorem readBlock_indices : (readBlock stray inode i x).indices = i :: x.indices := by
  simp only [readBlock]

@[simp] theorem writeBlock_log : (writeBlock stray inode i x).m.log =
    ⟨true, segSector (entryAt stray inode i)⟩ :: x.m.log := by
  simp only [writeBlock, writeseg_block, writesect]

@[simp] theorem writeBlock_disk : (writeBlock stray inode i x).m.disk =
    x.m.disk.write (lba (segSector (entryAt stray inode i)))
      (ByteBlock.ofFn 512 fun a => x.m.mem (0 + (a : ℤ))) := by
  simp only [writeBlock, writeseg_block, writesect]

@[simp] theorem writeBlock_buf : (writeBlock stray inode i x).buf = x.buf := by
  cases x
  rfl

@[simp] theorem writeBlock_indices : (writeBlock stray inode i x).indices = i :: x.indices := by
  simp only [writeBlock]

end Block

/-! ## `read` -/

/-- `strncpy(buf + pos, temp_buf + start, size)` -/
def takeChunk (pos start size : ℤ) (x : Transfer) : Transfer :=
  x.setBuf (strncpy x.buf pos x.m.mem start (uint32 size))

/-- One round of the loop over the middle blocks: the block is moved by `strcpy`. -/
def takeBlock (pos i : ℤ) (x : Transfer) : Transfer :=
  let x := readBlock stray inode i x
  x.setBuf (strcpy x.buf pos x.m.mem 0 513)

/-- The transfer of `read`, and the number of bytes it reports. -/
def readTransfer (ch_offset count : ℤ) (x : Transfer) : Transfer × ℤ :=
  let nr := ch_offset.tdiv 512
  let start := ch_offset.tmod 512
  let total := int32 (ch_offset + count)
  let num := total.tdiv 512
  let secno := num - nr
  if secno = 0 then
    let x := readBlock stray inode nr x
    -- the comparison with `sizeof(temp_buf) - start` is unsigned
    let len := if uint32 count < uint32 (513 - start) then count else 513 - start
    (takeChunk 0 start len x, len)
  else
    let x := readBlock stray inode nr x
    let x := takeChunk 0 start (512 - start) x
    let x := forRange (nr + 1) num
      (fun i x => takeBlock stray inode (512 - start + (i - nr - 1) * 512) i x) x
    let x := readBlock stray inode num x
    (takeChunk (int32 (512 - start + (secno - 1) * 512)) 0 (total - num * 512) x,
      int32 (total - nr * 512 - start))

/-! ## `write` -/

/-- A block is read, `size` bytes of the caller's string go into it at `start`, and it is written
back. -/
def putChunk (i start pos size : ℤ) (x : Transfer) : Transfer :=
  let x := readBlock stray inode i x
  let x := x.setMem (strncpy x.m.mem start x.buf pos (uint32 size))
  writeBlock stray inode i x

/-- The transfer of `write`. -/
def writeTransfer (ch_offset count : ℤ) (x : Transfer) : Transfer :=
  let nr := ch_offset.tdiv 512
  let start := ch_offset.tmod 512
  let num := (int32 (ch_offset + count)).tdiv 512
  let last := (int32 (ch_offset + count)).tmod 512
  let rest := 512 - start
  if rest > count then
    putChunk stray inode nr start 0 count x
  else if count - rest < 512 then
    let x := putChunk stray inode nr start 0 rest x
    putChunk stray inode (nr + 1) 0 rest (count - rest) x
  else
    let x := putChunk stray inode nr start 0 rest x
    let x := forRange (nr + 1) num
      (fun i x => putChunk stray inode i 0 (rest + (i - nr - 1) * 512) 512 x) x
    putChunk stray inode num 0 (int32 (rest + (num - nr - 1) * 512)) last x

end Calls

/-! ## The system calls -/

/-- What a call leaves behind: the kernel, the caller's buffer, the sectors moved and the inode
indices used. The result of the call is `eax` of the running process. -/
structure Call where
  kernel : Kernel
  buf : Mem
  log : List Access
  indices : List ℤ

/-- The call is refused with `-1`. -/
def Kernel.refuse (k : Kernel) (buf : Mem) : Call := ⟨k.setEax (-1), buf, [], []⟩

/-- The call goes on with FCB `fcb_index`, whose offset becomes `offset`. -/
def Transfer.finish (x : Transfer) (k : Kernel) (fcb_index offset eax : ℤ) : Call :=
  ⟨({ k with disk := x.m.disk }.modifyFcb fcb_index fun f =>
    { f with offset := offset }).setEax eax,
    x.buf, x.m.log, x.indices⟩

/-- `read(fd, buf, count)` -/
def readFile (stray : ℤ → UInt32) (junk : Mem) (k : Kernel) (fd : ℤ) (buf : Mem) (count : ℤ) :
    Call :=
  let fcb_index := k.fcbIndex fd
  let f := k.fcb_table fcb_index
  if ¬(f.f_state = s_r ∨ f.f_state = s_rw) ∨ fcb_index = -1 then k.refuse buf
  else
    -- `memset(temp_buf, 0, sizeof(temp_buf))`
    let temp_buf : Mem := fun a => if 0 ≤ a ∧ a < 513 then 0 else junk a
    let r := readTransfer stray f.inode f.offset count ⟨⟨k.disk, temp_buf, []⟩, buf, []⟩
    r.1.finish k fcb_index (int32 (f.offset + count)) r.2

/-- `write(fd, buf, count)` -/
def writeFile (stray : ℤ → UInt32) (junk : Mem) (k : Kernel) (fd : ℤ) (buf : Mem) (count : ℤ) :
    Call :=
  let fcb_index := k.fcbIndex fd
  let f := k.fcb_table fcb_index
  if ¬(f.f_state = s_w ∨ f.f_state = s_rw) ∨ fcb_index = -1 then k.refuse buf
  else
    let x := writeTransfer stray f.inode f.offset count ⟨⟨k.disk, junk, []⟩, buf, []⟩
    x.finish k fcb_index (int32 (f.offset + count)) count

/-! ### What a call changes -/

section Kernel

variable (k : Kernel) (fd i v : ℤ)

/-- The FCB of `fd` after a call that goes on with it. -/
@[simp] theorem Transfer.fcbOf_finish (x : Transfer) (offset eax : ℤ) :
    (x.finish k (k.fcbIndex fd) offset eax).kernel.fcbOf fd =
      { k.fcbOf fd with offset := offset } := by
  rw [finish, Kernel.fcbOf_setEax]
  exact Kernel.fcbOf_modifyFcb { k with disk := x.m.disk } fd _

@[simp] theorem Transfer.buf_finish (x : Transfer) (offset eax : ℤ) :
    (x.finish k i offset eax).buf = x.buf := by
  cases x
  rfl

@[simp] theorem Transfer.disk_finish (x : Transfer) (offset eax : ℤ) :
    (x.finish k i offset eax).kernel.disk = x.m.disk := by
  cases x
  rfl

@[simp] theorem Transfer.fcbIndex_finish (x : Transfer) (offset eax : ℤ) :
    (x.finish k i offset eax).kernel.fcbIndex fd = k.fcbIndex fd := by
  simp [finish]

end Kernel

/-! ## `lseek` -/

/-- `lseek` counts from the start of the file. -/
def SEEK_SET : ℤ := 0
/-- `lseek` counts from the offset. -/
def SEEK_CUR : ℤ := 1
/-- `lseek` counts from the end of the file. -/
def SEEK_END : ℤ := 2

/-- `strlen(src + s)`, for a string that ends within `room` bytes. -/
def strlen (src : Mem) (s : ℤ) : ℕ → ℕ
  | 0 => 0
  | room + 1 => if src s ≠ 0 then strlen src (s + 1) room + 1 else 0

/-- The `i` at which the loop of `SEEK_END` stops: the first entry that is `-1`, or 128. -/
def usedEntries (inode : Sector) : ℤ :=
  (findSlot 128 fun i => dataBlockOffset inode i.toNat = minusOne).getD 128

/-- The offset `SEEK_END` computes: 512 for every used entry but the last, and the length of the
string in the last block. -/
def endOffset (stray : ℤ → UInt32) (junk : Mem) (d : Disk) (inode : Sector) (offset : ℤ) : ℤ :=
  let i := usedEntries inode - 1
  let m := readseg 0 512 (segOffset (entryAt stray inode i)) ⟨d, junk, []⟩
  int32 (512 * i + (strlen m.mem 0 (2 ^ 32) + offset))

/-- `lseek(fd, offset, whence)` -/
def lseek (stray : ℤ → UInt32) (junk : Mem) (k : Kernel) (fd offset whence : ℤ) : Kernel :=
  let fcb_index := k.fcbIndex fd
  if fcb_index = -1 then k.setEax (-1)
  else
    let k :=
      if whence = SEEK_SET then k.modifyFcb fcb_index fun f => { f with offset := offset }
      else if whence = SEEK_CUR then
        k.modifyFcb fcb_index fun f => { f with offset := int32 (f.offset + offset) }
      else if whence = SEEK_END then
        k.modifyFcb fcb_index fun f =>
          { f with offset := endOffset stray junk k.disk f.inode offset }
      else k
    k.setEax 1

section Seek

variable {stray : ℤ → UInt32} {junk : Mem} {k : Kernel} {fd offset : ℤ}

@[simp] theorem fcbIndex_lseek (whence : ℤ) :
    (lseek stray junk k fd offset whence).fcbIndex fd = k.fcbIndex fd := by
  simp only [lseek]
  split_ifs <;> simp only [Kernel.fcbIndex_setEax, Kernel.fcbIndex_modifyFcb]

@[simp] theorem disk_lseek (whence : ℤ) : (lseek stray junk k fd offset whence).disk = k.disk := by
  simp only [lseek]
  split_ifs <;> rfl

theorem fcbOf_lseek_set (h : k.fcbIndex fd ≠ -1) :
    (lseek stray junk k fd offset SEEK_SET).fcbOf fd = { k.fcbOf fd with offset := offset } := by
  simp [lseek, if_neg h, Kernel.fcbOf_modifyFcb]

end Seek

end OsLab
