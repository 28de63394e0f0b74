import OsLab.FileSystem.StringCopy
import OsLab.Process.Pcb

/-!
# File control blocks

The table of open files of `fs.c`, and the part of the kernel's state that the file system calls
read and change. As with the process table, the entries of `fcb_table` outside `0 … 31` are the
memory around it: a descriptor that is not open has index `-1`, and `fcb_table[-1]` is read before
the index is checked.

## Main definitions

* `FCB` — a file control block
* `Kernel` — the kernel's state, as the file system sees it
* `Kernel.fcbOf` — the FCB that `fd` refers to
* `fileAlloc` — `file_alloc`: the first closed FCB is cleared and its index returned, or `-1`
-/

namespace OsLab

/-! ## States of an FCB -/

/-- The state of an entry of `fcb_table` whose file is open for reading. -/
def s_r : ℤ := 0
/-- The file is open for writing. -/
def s_w : ℤ := 1
/-- The file is open for both. -/
def s_rw : ℤ := 2
/-- The entry is free. -/
def s_close : ℤ := 3

/-- A file control block. -/
structure FCB where
  f_state : ℤ
  inode : Sector
  offset : ℤ
  count : ℤ

/-- The kernel's state, as the file system sees it. -/
structure Kernel where
  procs : Procs
  fcb_table : ℤ → FCB
  /-- The directory, read from the disk when the game is loaded. -/
  direct : Sector
  disk : Disk

/-- An assignment to fields of `fcb_table[i]`. -/
def Kernel.modifyFcb (k : Kernel) (i : ℤ) (f : FCB → FCB) : Kernel :=
  { k with fcb_table := Function.update k.fcb_table i (f (k.fcb_table i)) }

/-- An assignment to fields of `*current`. -/
def Kernel.modifyCur (k : Kernel) (f : PCB → PCB) : Kernel :=
  { k with procs := k.procs.modify k.procs.current f }

/-- `current->tf->eax = v` -/
def Kernel.setEax (k : Kernel) (v : ℤ) : Kernel := k.modifyCur fun p => { p with eax := v }

/-- The process in slot `p` runs. -/
def Kernel.runs (k : Kernel) (p : ℤ) : Kernel := { k with procs := { k.procs with current := p } }

/-- `current->fcb[fd]` -/
def Kernel.fcbIndex (k : Kernel) (fd : ℤ) : ℤ := k.procs.cur.fcbAt fd

/-- The FCB that `fd` refers to. -/
def Kernel.fcbOf (k : Kernel) (fd : ℤ) : FCB := k.fcb_table (k.fcbIndex fd)

section Kernel

variable (k : Kernel) (fd i v : ℤ)

@[simp] theorem Kernel.fcbIndex_setEax : (k.setEax v).fcbIndex fd = k.fcbIndex fd := by
  simp only [fcbIndex, setEax, modifyCur, Procs.modify, Procs.cur, Function.update_self]
  rfl

@[simp] theorem Kernel.fcb_table_setEax : (k.setEax v).fcb_table = k.fcb_table := rfl

@[simp] theorem Kernel.disk_setEax : (k.setEax v).disk = k.disk := rfl

@[simp] theorem Kernel.fcbIndex_modifyFcb (f : FCB → FCB) :
    (k.modifyFcb i f).fcbIndex fd = k.fcbIndex fd := rfl

@[simp] theorem Kernel.fcbIndex_disk (d : Disk) :
    ({ k with disk := d } : Kernel).fcbIndex fd = k.fcbIndex fd := rfl

@[simp] theorem Kernel.fcbOf_setEax : (k.setEax v).fcbOf fd = k.fcbOf fd := by
  simp only [fcbOf, fcbIndex_setEax, fcb_table_setEax]

theorem Kernel.fcbOf_modifyFcb (f : FCB → FCB) :
    (k.modifyFcb (k.fcbIndex fd) f).fcbOf fd = f (k.fcbOf fd) := by
  rw [fcbOf, fcbIndex_modifyFcb]
  exact Function.update_self ..

end Kernel

/-! ## The table of FCBs -/

/-- The fields that `file_init` and `file_alloc` both clear. -/
def FCB.clear (f : FCB) : FCB := { f with inode := zeroSector, offset := 0, count := 0 }

/-- An FCB as `file_init` leaves it. -/
def FCB.init (f : FCB) : FCB := { f.clear with f_state := s_close }

/-- `file_init` -/
def fileInit (t : ℤ → FCB) : ℤ → FCB :=
  forRange 0 NR_FILE (fun i t => Function.update t i (t i).init) t

theorem fileInit_of_lt (t : ℤ → FCB) {i : ℤ} (hi : 0 ≤ i) (hlt : i < NR_FILE) :
    fileInit t i = (t i).init := by
  rw [fileInit, forRange_update _ _ (by decide), if_pos ⟨hi, hlt⟩]

/-- The first closed FCB. -/
def closedFcb (t : ℤ → FCB) : Option ℤ := findSlot 32 fun i => (t i).f_state = s_close

/-- `file_alloc`: the first closed FCB is cleared and its index returned, or `-1`. -/
def fileAlloc (t : ℤ → FCB) : (ℤ → FCB) × ℤ :=
  match closedFcb t with
  | some i => (Function.update t i (t i).clear, i)
  | none => (t, -1)

theorem fileAlloc_eq {t : ℤ → FCB} {i : ℤ} (h : closedFcb t = some i) :
    fileAlloc t = (Function.update t i (t i).clear, i) := by
  rw [fileAlloc, h]

end OsLab
