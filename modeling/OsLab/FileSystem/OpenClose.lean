import OsLab.FileSystem.Fcb
import OsLab.Lib.Run

/-!
# Opening and closing files

The system calls `open` and `close` of `fs.c`. A descriptor is an index into the table `fcb` of its
process, which holds an index into `fcb_table`, and `count` of an FCB is meant to say how many
descriptors refer to it.

`open` has three ways to answer. A file no FCB holds in the wanted mode gets a new one, and its
`count` is raised once for the FCB and once for the descriptor. A file that some FCB holds already
gets a descriptor for that one. A file that the process itself holds in that mode gets no new
descriptor, and what is returned is the index of the FCB.

A system call is entered with its number in `eax`, and `open` leaves `eax` alone when the process
has no free descriptor.

## Main definitions

* `fileInode` — the inode of the first directory entry with the given name
* `fcbWith` — the FCB that holds the file in the given mode: its first block is the file's
* `freeFd` — the first free descriptor of a process
* `heldFd` — the descriptor with which a process holds FCB `i`

## Main results

* `openFile_absent`, `openFile_fresh`, `openFile_held`, `openFile_shared` — what `open` does, one
  lemma for each way to answer
* `closeFile_eq` — what `close` does
-/

namespace OsLab

/-- The inode at block `inode_offset`: what `readseg(&inode, 512, 512 * inode_offset)` reads. -/
def readInode (d : Disk) (inode_offset : ℤ) : Sector :=
  d (lba ((int32 (512 * inode_offset)).tdiv 512 + 1))

/-! ## `open` -/

/-- The inode of the first directory entry with the given name. -/
def fileInode (k : Kernel) (name : List UInt8) : Option Sector :=
  (findSlot 16 fun i => strcmpEq (filename k.direct i.toNat) name).map fun i =>
    readInode k.disk (int32 (inodeOffset k.direct i.toNat).toNat)

/-- The FCB that holds the file in the given mode: its first block is the file's. -/
def fcbWith (t : ℤ → FCB) (mode : ℤ) (inode : Sector) : Option ℤ :=
  findSlot 32 fun i => (t i).f_state = mode ∧
    dataBlockOffset (t i).inode 0 = dataBlockOffset inode 0

/-- The first free descriptor of a process. -/
def freeFd (p : PCB) : Option ℤ := findSlot 32 fun fd => p.fcb fd = -1

/-- The descriptor with which a process holds FCB `i`. -/
def heldFd (p : PCB) (i : ℤ) : Option ℤ := findSlot 32 fun fd => p.fcb fd ≠ -1 ∧ p.fcb fd = i

theorem fcbWith_eq_some {t : ℤ → FCB} {mode i : ℤ} {inode : Sector}
    (h : fcbWith t mode inode = some i) :
    0 ≤ i ∧ i < NR_FILE ∧ (t i).f_state = mode ∧
      dataBlockOffset (t i).inode 0 = dataBlockOffset inode 0 := by
  obtain ⟨hi, hlt, hp, -⟩ := findSlot_eq_some h
  simp only [decide_eq_true_eq] at hp
  exact ⟨hi, hlt, hp.1, hp.2⟩

theorem closedFcb_eq_some {t : ℤ → FCB} {i : ℤ} (h : closedFcb t = some i) :
    0 ≤ i ∧ i < NR_FILE ∧ (t i).f_state = s_close := by
  obtain ⟨hi, hlt, hp, -⟩ := findSlot_eq_some h
  exact ⟨hi, hlt, by simpa using hp⟩

theorem freeFd_eq_some {p : PCB} {fd : ℤ} (h : freeFd p = some fd) :
    0 ≤ fd ∧ fd < NR_FILE ∧ p.fcb fd = -1 := by
  obtain ⟨hfd, hlt, hp, -⟩ := findSlot_eq_some h
  exact ⟨hfd, hlt, by simpa using hp⟩

/-- The last part of `open`: FCB `fcb_index` gets a descriptor, if one is free. -/
def installFd (fcb_index : ℤ) (k : Kernel) : Kernel :=
  match freeFd k.procs.cur with
  | some fd =>
    (k.modifyCur fun p => { p with fcb := Function.update p.fcb fd fcb_index, eax := fd }).modifyFcb
      fcb_index fun f => { f with count := int32 (f.count + 1) }
  | none => k

/-- The number of the system call `open`. -/
def FILE_OPEN : ℤ := 14

/-- `open(filename, mode)` -/
def openFile (name : List UInt8) (mode : ℤ) (k : Kernel) : Kernel :=
  let k := k.setEax FILE_OPEN
  match fileInode k name with
  | none => k.setEax (-1)
  | some inode =>
    match fcbWith k.fcb_table mode inode with
    | none =>
      let (t, fcb_index) := fileAlloc k.fcb_table
      installFd fcb_index (({ k with fcb_table := t }).modifyFcb fcb_index fun f =>
        { f with f_state := mode, inode := inode, offset := 0, count := int32 (f.count + 1) })
    | some i =>
      match heldFd k.procs.cur i with
      | some _ => k.setEax i
      | none => installFd i k

/-! ### What `open` does -/

section Open

variable {k : Kernel} {name : List UInt8} {mode i fd : ℤ} {inode : Sector}

@[simp] theorem Kernel.cur_setEax (k : Kernel) (v : ℤ) :
    (k.setEax v).procs.cur = { k.procs.cur with eax := v } :=
  Function.update_self ..

theorem openFile_absent (h : fileInode k name = none) :
    openFile name mode k = (k.setEax FILE_OPEN).setEax (-1) := by
  have h' : fileInode (k.setEax FILE_OPEN) name = none := h
  simp only [openFile, h']

/-- No FCB holds the file, and FCB `i` is the first that is closed. -/
theorem openFile_fresh (h : fileInode k name = some inode)
    (hwith : fcbWith k.fcb_table mode inode = none) (hi : closedFcb k.fcb_table = some i) :
    openFile name mode k =
      installFd i ((k.setEax FILE_OPEN).modifyFcb i fun _ => ⟨mode, inode, 0, 1⟩) := by
  have h' : fileInode (k.setEax FILE_OPEN) name = some inode := h
  simp only [openFile, h', Kernel.fcb_table_setEax, hwith, fileAlloc_eq hi, Kernel.modifyFcb,
    Function.update_self, Function.update_idem, FCB.clear]
  rfl

/-- The process holds the FCB of the file already. -/
theorem openFile_held (h : fileInode k name = some inode)
    (hwith : fcbWith k.fcb_table mode inode = some i) (hheld : heldFd k.procs.cur i = some fd) :
    openFile name mode k = (k.setEax FILE_OPEN).setEax i := by
  have h' : fileInode (k.setEax FILE_OPEN) name = some inode := h
  have hheld' : heldFd (k.setEax FILE_OPEN).procs.cur i = some fd := by rwa [Kernel.cur_setEax]
  simp only [openFile, h', Kernel.fcb_table_setEax, hwith, hheld']

/-- Another process holds the FCB of the file. -/
theorem openFile_shared (h : fileInode k name = some inode)
    (hwith : fcbWith k.fcb_table mode inode = some i) (hheld : heldFd k.procs.cur i = none) :
    openFile name mode k = installFd i (k.setEax FILE_OPEN) := by
  have h' : fileInode (k.setEax FILE_OPEN) name = some inode := h
  have hheld' : heldFd (k.setEax FILE_OPEN).procs.cur i = none := by rwa [Kernel.cur_setEax]
  simp only [openFile, h', Kernel.fcb_table_setEax, hwith, hheld']

theorem installFd_free (h : freeFd k.procs.cur = some fd) :
    installFd i k =
      (k.modifyCur fun p =>
        { p with fcb := Function.update p.fcb fd i, eax := fd }).modifyFcb i fun f =>
          { f with count := int32 (f.count + 1) } := by
  simp only [installFd, h]

theorem installFd_full (h : freeFd k.procs.cur = none) : installFd i k = k := by
  simp only [installFd, h]

/-- **A fresh `open`**: no FCB holds the file, FCB `i` is closed and descriptor `fd` free. -/
theorem openFile_opened (h : fileInode k name = some inode)
    (hwith : fcbWith k.fcb_table mode inode = none) (hi : closedFcb k.fcb_table = some i)
    (hfd : freeFd k.procs.cur = some fd) :
    (openFile name mode k).procs.cur.eax = fd ∧ (openFile name mode k).fcbIndex fd = i ∧
      (openFile name mode k).fcbOf fd = ⟨mode, inode, 0, int32 (1 + 1)⟩ := by
  obtain ⟨-, hfdlt, -⟩ := freeFd_eq_some hfd
  set k₁ := (k.setEax FILE_OPEN).modifyFcb i fun _ => ⟨mode, inode, 0, 1⟩ with hk₁
  have hcur : k₁.procs.cur = { k.procs.cur with eax := FILE_OPEN } := Kernel.cur_setEax ..
  have hfree : freeFd k₁.procs.cur = some fd := by rw [hcur]; exact hfd
  rw [openFile_fresh h hwith hi, installFd_free hfree]
  set f : PCB → PCB := fun p => { p with fcb := Function.update p.fcb fd i, eax := fd } with hf
  have hcur₂ : (k₁.modifyCur f).procs.cur = f k₁.procs.cur := Function.update_self ..
  have hindex : (k₁.modifyCur f).fcbIndex fd = i := by
    rw [Kernel.fcbIndex, hcur₂, hf, PCB.fcbAt_of_lt hfdlt]
    exact Function.update_self ..
  have hone : (k₁.modifyCur f).fcbOf fd = ⟨mode, inode, 0, 1⟩ := by
    rw [Kernel.fcbOf, hindex]
    exact Function.update_self ..
  refine ⟨?_, ?_, ?_⟩
  · rw [Kernel.modifyFcb, hcur₂]
  · rw [Kernel.fcbIndex_modifyFcb, hindex]
  · rw [← hindex, Kernel.fcbOf_modifyFcb, hone]

@[simp] theorem disk_installFd (i : ℤ) (k : Kernel) : (installFd i k).disk = k.disk := by
  rw [installFd]
  split <;> rfl

/-- `open` does not write to the disk. -/
@[simp] theorem disk_openFile (name : List UInt8) (mode : ℤ) (k : Kernel) :
    (openFile name mode k).disk = k.disk := by
  simp only [openFile]
  split
  · rfl
  · split
    · rw [disk_installFd]
      rfl
    · split
      · rfl
      · rw [disk_installFd]
        rfl

/-! ### A disk with one file -/

/-- A directory with one file, named `a`, whose inode is in block 257. -/
def oneFileDir : Sector :=
  ByteBlock.ofFn 512 fun i => if i = 0 then 97 else if i = 28 ∨ i = 29 then 1 else 0

/-- The inode of the file: its only block is 288. -/
def oneFileInode : Sector := setDataBlockOffset emptyInode 0 288

theorem fileInode_oneFile (hdirect : k.direct = oneFileDir)
    (hdisk : k.disk = fun _ => oneFileInode) : fileInode k [97] = some oneFileInode := by
  have hfind : (findSlot 16 fun i => strcmpEq (filename oneFileDir i.toNat) [97]) = some 0 := by
    decide
  rw [fileInode, hdirect, hfind, Option.map_some, readInode, hdisk]

end Open

/-! ## `close` -/

/-- An FCB that loses a descriptor. -/
def FCB.release (f : FCB) : FCB :=
  let count := int32 (f.count - 1)
  if count = 0 then { f with count := count, f_state := s_close, offset := 0 }
  else { f with count := count }

/-- `close(fd)` -/
def closeFile (fd : ℤ) (k : Kernel) : Kernel :=
  let fcb_index := k.procs.cur.fcbAt fd
  if fcb_index = -1 then k.setEax (-1)
  else ((k.modifyCur fun p => p.setFcbAt fd (-1)).modifyFcb fcb_index FCB.release).setEax 1

/-- Closing a descriptor that is open. -/
theorem closeFile_eq {k : Kernel} {fd : ℤ} (hlt : fd < NR_FILE) (hne : k.procs.cur.fcb fd ≠ -1) :
    closeFile fd k = ((k.modifyCur fun p => p.setFcbAt fd (-1)).modifyFcb (k.procs.cur.fcb fd)
      FCB.release).setEax 1 := by
  simp only [closeFile, PCB.fcbAt_of_lt hlt, if_neg hne]

end OsLab
