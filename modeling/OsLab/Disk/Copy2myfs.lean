import OsLab.Disk.Formatter

/-!
# `copy2myfs`

The program stores its arguments in the image one after the other. Bitmap and directory are read
once, kept in memory and written back at the end; inodes and data go to the image as they are
filled.

A file is consumed by `while(!feof(fp))`, whose body reads 512 bytes into a zeroed buffer. The
end-of-file indicator is only raised by a read that comes up short, so a file of `n` bytes takes
`n / 512 + 1` rounds, the last of which may read nothing.

Each round allocates a data block. When the 128 entries of the current inode are used up, that
inode is written out at `inode_offset + inode_num` and a further one is allocated; the number
`bit_alloc` returns for it ends up in `bitoffset`, which nothing reads again before the next file.

`trace` is not in the program. It records, for each inode and data block written, where it went
and which number `bit_alloc` had returned for it.

## Main definitions

* `Copy` — the globals of `copy2myfs` and the variable `bitoffset` of its `main`
* `FileVars` — the variables of `main` that describe the file being stored
* `storeChunk` — the body of `while(!feof(fp))` once `buf` has been read
* `storeFile` — one file's turn in the loop over the arguments
* `storeArgs` — the loop over the arguments
* `copy2myfs` — `copy2myfs`: the image it leaves
* `storeFiles` — the first `k` files' turns

`storeFiles` is the loop over the arguments when all of them can be opened. Most of what is said of
a run is said of it, and runs that stop are reduced to it.
-/

namespace OsLab

/-- A block written by `copy2myfs`: the mode it was allocated in, the block it was written to and
the number `bit_alloc` returned for it. -/
structure Written where
  kind : AllocMode
  block : ℕ
  returned : ℕ
  deriving DecidableEq, Repr

/-- The globals of `copy2myfs` and the variable `bitoffset` of its `main`. -/
structure Copy where
  disk : Disk
  bitmap : Bitmap
  direct : Sector
  bitoffset : ℕ
  trace : List Written

/-- The variables of `main` that describe the file being stored. -/
structure FileVars where
  inode : Sector
  entry_index : ℕ
  inode_num : ℕ

/-- A command-line argument: the name, and the bytes `fopen` gives access to, if it succeeds. -/
structure Arg where
  name : CString
  contents : Option (List UInt8)

/-- The sector at position `inode_offset * 512 + inode_num * 512 + 512`, computed in
`uint32_t`. -/
def inodeSector (inode_offset : UInt32) (inode_num : ℕ) : ℕ :=
  (inode_offset * 512 + UInt32.ofNat inode_num * 512 + 512).toNat / 512

/-- `memset(buf, '\0', sizeof(buf)); fread(buf, 1, 512, fp)` with `rest` still to be read. -/
def readChunk (rest : List UInt8) : Sector := ByteBlock.ofFn 512 fun i => rest.getD i 0

/-- Write `inode` where the current inode of directory entry `index` goes. -/
def writeInode (index : ℕ) (c : Copy) (v : FileVars) : Copy :=
  let s := inodeSector (inodeOffset c.direct index) v.inode_num
  { c with
    disk := c.disk.write s v.inode
    trace := ⟨.alloc_inode, s - 1, c.bitoffset⟩ :: c.trace }

/-- Write `buf` to the block `inode_entry` just allocated for it. -/
def writeData (inode_entry : ℕ) (buf : Sector) (c : Copy) : Copy :=
  { c with
    disk := c.disk.write (inode_entry + 1) buf
    trace := ⟨.alloc_data, inode_entry, inode_entry⟩ :: c.trace }

/-- `bit_alloc(&bitoffset, alloc_inode)` -/
def allocInode (c : Copy) : Copy :=
  let r := bitAlloc c.bitmap c.bitoffset .alloc_inode
  { c with bitmap := r.1, bitoffset := r.2 }

/-- The body of `while(!feof(fp))` once `buf` has been read. -/
def storeChunk (index : ℕ) (buf : Sector) (c : Copy) (v : FileVars) : Copy × FileVars :=
  let r := bitAlloc c.bitmap 0 .alloc_data
  let inode_entry := r.2
  let c := { c with bitmap := r.1 }
  if v.entry_index < NR_INODE_ENTRY then
    (writeData inode_entry buf c,
      { v with
        inode := setDataBlockOffset v.inode v.entry_index (UInt32.ofNat inode_entry)
        entry_index := v.entry_index + 1 })
  else
    (writeData inode_entry buf (allocInode (writeInode index c v)),
      { inode := setDataBlockOffset emptyInode 0 (UInt32.ofNat inode_entry)
        entry_index := 1
        inode_num := v.inode_num + 1 })

/-- `while(!feof(fp))`, with `rest` still to be read. -/
def storeChunks (index : ℕ) (c : Copy) (v : FileVars) (rest : List UInt8) : Copy × FileVars :=
  let r := storeChunk index (readChunk rest) c v
  if rest.length < 512 then r else storeChunks index r.1 r.2 (rest.drop 512)
termination_by rest.length
decreasing_by simp only [List.length_drop]; omega

/-- The index of the first directory entry with `inode_offset == -1`, or `NR_DIR_ENTRY`. -/
def freeEntry (direct : Sector) : ℕ :=
  (List.range NR_DIR_ENTRY).findIdx fun e => inodeOffset direct e == minusOne

/-- Fill directory entry `index`. -/
def fillEntry (direct : Sector) (index : ℕ) (name : List UInt8) (filesz bitoffset : ℕ) : Sector :=
  ((direct.copyAt (32 * index) name).set32 (32 * index + 24) (UInt32.ofNat filesz)).set32
    (32 * index + 28) (UInt32.ofNat bitoffset)

/-- The part of a file's turn before its data: allocate the first inode, fill a directory
entry. -/
def beginFile (c : Copy) (name : List UInt8) (filesz : ℕ) : Copy :=
  let c := allocInode c
  let index := freeEntry c.direct
  if index < NR_DIR_ENTRY then
    { c with direct := fillEntry c.direct index name filesz c.bitoffset }
  else c

/-- One file's turn in the loop over the arguments. -/
def storeFile (c : Copy) (name data : List UInt8) : Copy :=
  let index := freeEntry c.direct
  let c := beginFile c name data.length
  let r := storeChunks index c ⟨emptyInode, 0, 0⟩ data
  writeInode index r.1 r.2

/-- The loop over the arguments. The flag says whether it ran to its end; it does not when an
`fopen` fails, where the program calls `exit(1)`. -/
def storeArgs (c : Copy) : List Arg → Copy × Bool
  | [] => (c, true)
  | a :: as =>
    match a.contents with
    | none => (c, false)
    | some data => storeArgs (storeFile c a.name.val data) as

/-- The globals after the bitmap and the directory have been read. -/
def startCopy (d : Disk) (bitoffset : ℕ) : Copy :=
  { disk := d, bitmap := readBitmap d, direct := d 257, bitoffset := bitoffset, trace := [] }

/-- `copy2myfs`: the image it leaves. The uninitialised `bitoffset` is a parameter. -/
def copy2myfs (d : Disk) (bitoffset : ℕ) (args : List Arg) : Disk :=
  let r := storeArgs (startCopy d bitoffset) args
  if r.2 then (writeBitmap r.1.disk r.1.bitmap).write 257 r.1.direct else r.1.disk

/-! ## The chunks of a file -/

/-- The number of data blocks of a file of `n` bytes. -/
def chunkCount (n : ℕ) : ℕ := n / 512 + 1

/-- The number of inodes of a file of `n` bytes. -/
def inodeCount (n : ℕ) : ℕ := n / 512 / 128 + 1

/-- Bytes `512 * j … 512 * j + 511` of a file, padded with zeros. -/
def chunk (data : List UInt8) (j : ℕ) : Sector :=
  ByteBlock.ofFn 512 fun i => data.getD (512 * j + i) 0

@[simp] theorem readChunk_drop (data : List UInt8) (j : ℕ) :
    readChunk (data.drop (512 * j)) = chunk data j := by
  simp [readChunk, chunk, List.getD_eq_getElem?_getD]

/-- **Loop rule for the data of one file.** What holds before the first round and is preserved by
storing chunk `j` holds after all `chunkCount` rounds. -/
theorem storeChunks_induction (index : ℕ) (data : List UInt8) {P : ℕ → Copy → FileVars → Prop}
    (hstep : ∀ j c v, j < chunkCount data.length → P j c v →
      P (j + 1) (storeChunk index (chunk data j) c v).1 (storeChunk index (chunk data j) c v).2)
    {c : Copy} {v : FileVars} (h : P 0 c v) :
    P (chunkCount data.length) (storeChunks index c v data).1
      (storeChunks index c v data).2 := by
  simp only [chunkCount] at hstep ⊢
  suffices H : ∀ m j c v, data.length / 512 - j = m → j ≤ data.length / 512 → P j c v →
      P (data.length / 512 + 1) (storeChunks index c v (data.drop (512 * j))).1
        (storeChunks index c v (data.drop (512 * j))).2 by
    simpa using H _ 0 c v rfl (Nat.zero_le _) h
  intro m
  induction m with
  | zero =>
    intro j c v hm hj hP
    have hlast : (data.drop (512 * j)).length < 512 := by simp only [List.length_drop]; omega
    have hje : data.length / 512 = j := by omega
    rw [storeChunks]
    simp only [hlast, if_true, readChunk_drop, hje]
    exact hstep j c v (by omega) hP
  | succ m ih =>
    intro j c v hm hj hP
    have hmore : ¬(data.drop (512 * j)).length < 512 := by simp only [List.length_drop]; omega
    have hdrop : (data.drop (512 * j)).drop 512 = data.drop (512 * (j + 1)) := by
      rw [List.drop_drop]; rfl
    rw [storeChunks]
    simp only [hmore, if_false, readChunk_drop, hdrop]
    exact ih (j + 1) _ _ (by omega) (by omega) (hstep j c v (by omega) hP)

/-! ## The list of files -/

/-- A file to be stored: its name and its bytes. -/
structure InFile where
  name : CString
  data : List UInt8

/-- The argument a file that can be opened gives. -/
def InFile.arg (f : InFile) : Arg := ⟨f.name, some f.data⟩

/-- The first `k` files' turns. -/
def storeFiles (c : Copy) (files : List InFile) : Copy :=
  files.foldl (fun c f => storeFile c f.name.val f.data) c

@[simp] theorem storeArgs_arg (c : Copy) (files : List InFile) :
    storeArgs c (files.map InFile.arg) = (storeFiles c files, true) := by
  induction files generalizing c with
  | nil => rfl
  | cons f files ih => simp [storeArgs, InFile.arg, storeFiles, ih]

/-- When every file can be opened, the image is written back in full. -/
theorem copy2myfs_arg (d : Disk) (bitoffset : ℕ) (files : List InFile) :
    copy2myfs d bitoffset (files.map InFile.arg) =
      (writeBitmap (storeFiles (startCopy d bitoffset) files).disk
        (storeFiles (startCopy d bitoffset) files).bitmap).write 257
        (storeFiles (startCopy d bitoffset) files).direct := by
  simp [copy2myfs, storeArgs_arg]

end OsLab
