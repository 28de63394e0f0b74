import OsLab.Disk.Directory
import OsLab.FileSystem.OpenClose
import OsLab.Process.Lifecycle

/-!
# What `open` promises

`open` answers with a descriptor for the file, or with `-1` and has done nothing (`OpenContract`).
Three searches decide what happens: for an FCB that holds the file in that mode, for a closed FCB,
and for a free descriptor. The last two are not checked. Without a closed FCB the new descriptor
gets the index `-1` and `fcb_table[-1]` is written; without a free descriptor `eax` is left with the
number of the system call, so that the answer is descriptor 14, whatever that is. A process that
holds the FCB already is given the number of the FCB. And the name of a free entry is empty, so the
empty name is found while no file has it.

## Main definitions

* `DescribesFile` — FCB `i` is open for the file in the given mode
* `OpenContract` — the contract of `open`, of the states before and after it: the answer is a
  descriptor of an FCB that is open for the file, or it is `-1` and neither table has changed
* `OpenFits` — when the contract is kept

## Main results

* `openContract_iff` — the contract is kept exactly if `OpenFits`
-/

namespace OsLab

/-- The inode of a used entry of the directory with the given name. -/
def UsedInode (k : Kernel) (name : List UInt8) (inode : Sector) : Prop :=
  ∃ e < NR_DIR_ENTRY, strcmpEq (filename k.direct e) name = true ∧
    inodeOffset k.direct e ≠ minusOne ∧
      inode = readInode k.disk (int32 (inodeOffset k.direct e).toNat)

/-- FCB `i` is open for the file in the given mode. -/
structure DescribesFile (k : Kernel) (name : List UInt8) (mode i : ℤ) : Prop where
  nonneg : 0 ≤ i
  lt : i < NR_FILE
  state : (k.fcb_table i).f_state = mode
  inode : UsedInode k name (k.fcb_table i).inode

/-- **The contract of `open`**, of the states before and after it: the answer is a descriptor of an
FCB that is open for the file, or it is `-1` and neither table has changed. -/
structure OpenContract (k k' : Kernel) (name : List UInt8) (mode : ℤ) : Prop where
  opened : k'.procs.cur.eax ≠ -1 → 0 ≤ k'.procs.cur.eax ∧ k'.procs.cur.eax < NR_FILE ∧
    DescribesFile k' name mode (k'.procs.cur.fcb k'.procs.cur.eax)
  failed : k'.procs.cur.eax = -1 →
    k'.fcb_table = k.fcb_table ∧ k'.procs.cur.fcb = k.procs.cur.fcb

/-- **When the contract is kept.** No entry has the name; or no FCB holds the file in that mode, an
FCB is closed and a descriptor is free, and the entry is used; or an FCB holds it, and of the same
file, and the process that has no descriptor for it has a free one, or the process that has one
finds the FCB's number to be a descriptor for the file. With no descriptor free it takes a
descriptor 14 that happens to be for the file. -/
def OpenFits (k : Kernel) (name : List UInt8) (mode : ℤ) : Prop :=
  ∀ inode, fileInode k name = some inode →
    match fcbWith k.fcb_table mode inode with
    | none =>
      match closedFcb k.fcb_table, freeFd k.procs.cur with
      | some _, some _ => UsedInode k name inode
      | some i, none =>
        k.procs.cur.fcb FILE_OPEN = i ∧ UsedInode k name inode ∨
          DescribesFile k name mode (k.procs.cur.fcb FILE_OPEN)
      | none, some _ => False
      | none, none => DescribesFile k name mode (k.procs.cur.fcb FILE_OPEN)
    | some i =>
      match heldFd k.procs.cur i, freeFd k.procs.cur with
      | some _, _ => DescribesFile k name mode (k.procs.cur.fcb i)
      | none, some _ => UsedInode k name (k.fcb_table i).inode
      | none, none => DescribesFile k name mode (k.procs.cur.fcb FILE_OPEN)

/-! ## The answer -/

section Answer

variable {k k' : Kernel} {name : List UInt8} {mode i r : ℤ} {inode : Sector}

/-- The contract for a call that answers with `r`. -/
theorem openContract_of_answer (heax : k'.procs.cur.eax = r) (hr : 0 ≤ r) (hlt : r < NR_FILE) :
    OpenContract k k' name mode ↔ DescribesFile k' name mode (k'.procs.cur.fcb r) := by
  constructor
  · intro h
    have hopened := (h.opened (by omega)).2.2
    rwa [heax] at hopened
  · intro h
    refine ⟨fun _ => ?_, fun hneg => absurd hneg (by omega)⟩
    rw [heax]
    exact ⟨hr, hlt, h⟩

theorem DescribesFile.congr (hdirect : k'.direct = k.direct) (hdisk : k'.disk = k.disk)
    (hstate : (k'.fcb_table i).f_state = (k.fcb_table i).f_state)
    (hinode : (k'.fcb_table i).inode = (k.fcb_table i).inode) :
    DescribesFile k' name mode i ↔ DescribesFile k name mode i := by
  have hused : UsedInode k' name (k'.fcb_table i).inode ↔
      UsedInode k name (k.fcb_table i).inode := by
    rw [UsedInode, UsedInode, hdirect, hdisk, hinode]
  constructor
  · intro h
    exact ⟨h.nonneg, h.lt, hstate ▸ h.state, hused.mp h.inode⟩
  · intro h
    exact ⟨h.nonneg, h.lt, hstate ▸ h.state, hused.mpr h.inode⟩

/-- An FCB that does not change. -/
theorem DescribesFile.congr_of_eq (hdirect : k'.direct = k.direct) (hdisk : k'.disk = k.disk)
    (hfcb : k'.fcb_table i = k.fcb_table i) :
    DescribesFile k' name mode i ↔ DescribesFile k name mode i :=
  DescribesFile.congr hdirect hdisk (by rw [hfcb]) (by rw [hfcb])

/-- An FCB that is set for a file. -/
theorem describesFile_of_fcb (hdirect : k'.direct = k.direct) (hdisk : k'.disk = k.disk)
    (hi : 0 ≤ i) (hlt : i < NR_FILE) (hstate : (k'.fcb_table i).f_state = mode)
    (hinode : (k'.fcb_table i).inode = inode) :
    DescribesFile k' name mode i ↔ UsedInode k name inode := by
  have hused : UsedInode k' name (k'.fcb_table i).inode ↔ UsedInode k name inode := by
    rw [UsedInode, UsedInode, hdirect, hdisk, hinode]
  exact ⟨fun h => hused.mp h.inode, fun h => ⟨hi, hlt, hstate, hused.mpr h⟩⟩

/-- No FCB has the number `-1`. -/
theorem not_describesFile_neg : ¬DescribesFile k name mode (-1) :=
  fun h => absurd h.nonneg (by decide)

theorem freeFd_setEax (k : Kernel) (v : ℤ) :
    freeFd (k.setEax v).procs.cur = freeFd k.procs.cur := by
  rw [Kernel.cur_setEax]
  rfl

theorem cur_modifyCur (k : Kernel) (f : PCB → PCB) : (k.modifyCur f).procs.cur = f k.procs.cur :=
  Function.update_self ..

/-- `open` ends with giving FCB `i` a descriptor, after it has done `k₁` to the state: with a free
descriptor, that one is the answer. -/
theorem installFd_contract {k₁ : Kernel} {fd : ℤ} (hfd : freeFd k.procs.cur = some fd)
    (hprocs : k₁.procs = (k.setEax FILE_OPEN).procs) :
    OpenContract k (installFd i k₁) name mode ↔ DescribesFile k₁ name mode i := by
  have hfree : freeFd k₁.procs.cur = some fd := by rw [hprocs, freeFd_setEax, hfd]
  obtain ⟨hr, hlt, -⟩ := freeFd_eq_some hfd
  rw [installFd_free hfree]
  have hcur : ((k₁.modifyCur fun p =>
      { p with fcb := Function.update p.fcb fd i, eax := fd }).modifyFcb i fun f =>
        { f with count := int32 (f.count + 1) }).procs.cur =
      { k₁.procs.cur with fcb := Function.update k₁.procs.cur.fcb fd i, eax := fd } :=
    cur_modifyCur ..
  rw [openContract_of_answer (r := fd) (by rw [hcur]) hr hlt, hcur]
  dsimp only
  rw [Function.update_self]
  refine DescribesFile.congr rfl rfl ?_ ?_ <;>
    simp only [Kernel.modifyFcb, Function.update_self] <;> rfl

/-- With none, the answer is the number of the system call. -/
theorem installFd_full_contract {k₁ : Kernel} (hfd : freeFd k.procs.cur = none)
    (hprocs : k₁.procs = (k.setEax FILE_OPEN).procs) :
    OpenContract k (installFd i k₁) name mode ↔
      DescribesFile k₁ name mode (k.procs.cur.fcb FILE_OPEN) := by
  have hfull : freeFd k₁.procs.cur = none := by rw [hprocs, freeFd_setEax, hfd]
  have hcur : k₁.procs.cur = { k.procs.cur with eax := FILE_OPEN } := by
    rw [hprocs, Kernel.cur_setEax]
  rw [installFd_full hfull,
    openContract_of_answer (r := FILE_OPEN) (by rw [hcur]) (by decide) (by decide), hcur]

end Answer

/-! ## The branches of `open` -/

section Branches

variable {k : Kernel} {name : List UInt8} {mode i fd : ℤ} {inode : Sector}

/-- No FCB holds the file, and none is closed: `fcb_table[-1]` is written. -/
theorem openFile_exhausted (h : fileInode k name = some inode)
    (hwith : fcbWith k.fcb_table mode inode = none) (hi : closedFcb k.fcb_table = none) :
    openFile name mode k =
      installFd (-1) ((k.setEax FILE_OPEN).modifyFcb (-1) fun f =>
        { f with f_state := mode, inode := inode, offset := 0, count := int32 (f.count + 1) }) := by
  have h' : fileInode (k.setEax FILE_OPEN) name = some inode := h
  simp only [openFile, h', Kernel.fcb_table_setEax, hwith, fileAlloc, hi]
  rfl

theorem openContract_absent (h : fileInode k name = none) :
    OpenContract k (openFile name mode k) name mode := by
  have hcur : (openFile name mode k).procs.cur = { k.procs.cur with eax := -1 } := by
    rw [openFile_absent h, Kernel.cur_setEax, Kernel.cur_setEax]
  refine ⟨fun hne => absurd (by rw [hcur]) hne, fun _ => ⟨?_, by rw [hcur]⟩⟩
  rw [openFile_absent h, Kernel.fcb_table_setEax, Kernel.fcb_table_setEax]

/-- The first closed FCB is set for the file. -/
theorem openContract_fresh (hmode : mode ≠ s_close) (h : fileInode k name = some inode)
    (hwith : fcbWith k.fcb_table mode inode = none) (hi : closedFcb k.fcb_table = some i) :
    OpenContract k (openFile name mode k) name mode ↔
      match freeFd k.procs.cur with
      | some _ => UsedInode k name inode
      | none => k.procs.cur.fcb FILE_OPEN = i ∧ UsedInode k name inode ∨
          DescribesFile k name mode (k.procs.cur.fcb FILE_OPEN) := by
  obtain ⟨hi0, hlt, hclosed⟩ := closedFcb_eq_some hi
  have hset : DescribesFile ((k.setEax FILE_OPEN).modifyFcb i fun _ => ⟨mode, inode, 0, 1⟩) name
      mode i ↔ UsedInode k name inode := by
    refine describesFile_of_fcb rfl rfl hi0 hlt ?_ ?_ <;>
      simp [Kernel.modifyFcb]
  rw [openFile_fresh h hwith hi]
  cases hfd : freeFd k.procs.cur with
  | some fd =>
    rw [installFd_contract hfd (by rfl)]
    exact hset
  | none =>
    rw [installFd_full_contract hfd (by rfl)]
    rcases eq_or_ne (k.procs.cur.fcb FILE_OPEN) i with heq | hne
    · have hnot : ¬DescribesFile k name mode i := fun hdesc =>
        hmode (hdesc.state.symm.trans hclosed)
      rw [heq, hset, or_iff_left hnot, and_iff_right rfl]
    · rw [or_iff_right fun hboth => hne hboth.1]
      refine DescribesFile.congr_of_eq rfl rfl ?_
      simp [Kernel.modifyFcb, Function.update_of_ne hne]

/-- All FCBs are in use. -/
theorem openContract_exhausted (h : fileInode k name = some inode)
    (hwith : fcbWith k.fcb_table mode inode = none) (hi : closedFcb k.fcb_table = none) :
    OpenContract k (openFile name mode k) name mode ↔
      match freeFd k.procs.cur with
      | some _ => False
      | none => DescribesFile k name mode (k.procs.cur.fcb FILE_OPEN) := by
  rw [openFile_exhausted h hwith hi]
  cases hfd : freeFd k.procs.cur with
  | some fd =>
    rw [installFd_contract hfd (by rfl)]
    exact iff_of_false not_describesFile_neg not_false
  | none =>
    rw [installFd_full_contract hfd (by rfl)]
    rcases eq_or_ne (k.procs.cur.fcb FILE_OPEN) (-1) with heq | hne
    · rw [heq]
      exact iff_of_false not_describesFile_neg not_describesFile_neg
    · refine DescribesFile.congr_of_eq rfl rfl ?_
      simp [Kernel.modifyFcb, Function.update_of_ne hne]

/-- An FCB holds the file already. -/
theorem openContract_open (h : fileInode k name = some inode)
    (hwith : fcbWith k.fcb_table mode inode = some i) :
    OpenContract k (openFile name mode k) name mode ↔
      match heldFd k.procs.cur i, freeFd k.procs.cur with
      | some _, _ => DescribesFile k name mode (k.procs.cur.fcb i)
      | none, some _ => UsedInode k name (k.fcb_table i).inode
      | none, none => DescribesFile k name mode (k.procs.cur.fcb FILE_OPEN) := by
  obtain ⟨hi0, hlt, hstate, -⟩ := fcbWith_eq_some hwith
  cases hheld : heldFd k.procs.cur i with
  | some fd =>
    have hcur : ((k.setEax FILE_OPEN).setEax i).procs.cur = { k.procs.cur with eax := i } := by
      rw [Kernel.cur_setEax, Kernel.cur_setEax]
    rw [openFile_held h hwith hheld, openContract_of_answer (r := i) (by rw [hcur]) hi0 hlt, hcur]
    exact DescribesFile.congr_of_eq rfl rfl rfl
  | none =>
    rw [openFile_shared h hwith hheld]
    cases hfd : freeFd k.procs.cur with
    | some fd =>
      rw [installFd_contract hfd (by rfl)]
      exact describesFile_of_fcb rfl rfl hi0 hlt hstate rfl
    | none =>
      rw [installFd_full_contract hfd (by rfl)]
      exact DescribesFile.congr_of_eq rfl rfl rfl

end Branches

/-- **The contract of `open`, exactly.** -/
theorem openContract_iff (k : Kernel) (name : List UInt8) (mode : ℤ)
    (hmode : mode = s_r ∨ mode = s_w ∨ mode = s_rw) :
    OpenContract k (openFile name mode k) name mode ↔ OpenFits k name mode := by
  have hmode : mode ≠ s_close := by
    rcases hmode with rfl | rfl | rfl <;> decide
  cases h : fileInode k name with
  | none =>
    refine iff_of_true (openContract_absent h) fun inode hinode => ?_
    rw [h] at hinode
    cases hinode
  | some inode =>
    simp only [OpenFits, h, Option.some.injEq, forall_eq']
    cases hwith : fcbWith k.fcb_table mode inode with
    | none =>
      cases hi : closedFcb k.fcb_table with
      | some i =>
        rw [openContract_fresh hmode h hwith hi]
        cases freeFd k.procs.cur <;> rfl
      | none =>
        rw [openContract_exhausted h hwith hi]
        cases freeFd k.procs.cur <;> rfl
    | some i => exact openContract_open h hwith

/-- A process with nothing open, and no FCB in use. -/
def freshKernel (direct : Sector) (disk : Disk) : Kernel :=
  ⟨⟨fun _ => freePcb, 1⟩, fun _ => ⟨s_close, zeroSector, 0, 0⟩, direct, disk⟩

theorem fcbWith_freshKernel (direct : Sector) (disk : Disk) (inode : Sector) :
    fcbWith (freshKernel direct disk).fcb_table s_r inode = none :=
  findSlot_eq_none.mpr fun j _ _ => decide_eq_false fun h => absurd h.1 (by decide : s_close ≠ s_r)

theorem closedFcb_freshKernel (direct : Sector) (disk : Disk) :
    closedFcb (freshKernel direct disk).fcb_table = some 0 :=
  findSlot_eq (Int.le_refl 0) (by decide) (decide_eq_true rfl) fun j hj hlt => absurd hlt (by omega)

theorem freeFd_freshKernel (direct : Sector) (disk : Disk) :
    freeFd (freshKernel direct disk).procs.cur = some 0 :=
  findSlot_eq (Int.le_refl 0) (by decide) (decide_eq_true rfl) fun j hj hlt => absurd hlt (by omega)

/-- The first `open` of a file. -/
theorem openContract_first :
    OpenContract (freshKernel oneFileDir fun _ => oneFileInode)
      (openFile [97] s_r (freshKernel oneFileDir fun _ => oneFileInode)) [97] s_r := by
  refine (openContract_iff (freshKernel oneFileDir fun _ => oneFileInode) [97] s_r (.inl rfl)).mpr
    fun inode hinode => ?_
  rw [fileInode_oneFile rfl rfl] at hinode
  obtain rfl := Option.some.inj hinode
  rw [fcbWith_freshKernel, closedFcb_freshKernel, freeFd_freshKernel]
  exact ⟨0, by decide, by decide, by decide, rfl⟩

/-- **The empty name.** On a disk that was just formatted no entry is used, and `open` of the empty
name answers with descriptor 0. -/
theorem openFile_empty_name :
    (openFile [] s_r (freshKernel (formatDir NR_DIR_ENTRY) fun _ => zeroSector)).procs.cur.eax = 0 ∧
      ¬OpenContract (freshKernel (formatDir NR_DIR_ENTRY) fun _ => zeroSector)
        (openFile [] s_r (freshKernel (formatDir NR_DIR_ENTRY) fun _ => zeroSector)) [] s_r := by
  have hfind : (findSlot 16 fun i => strcmpEq (filename (formatDir NR_DIR_ENTRY) i.toNat) []) =
      some 0 := by
    refine findSlot_eq (Int.le_refl 0) (by decide) ?_ fun j hj hlt => absurd hlt (by omega)
    have hzero : filename (formatDir NR_DIR_ENTRY) 0 0 = 0 := formatDir_get (by decide)
    rw [strcmpEq_iff]
    exact ⟨fun i hi => absurd hi (Nat.not_lt_zero i), hzero⟩
  obtain ⟨inode, hinode⟩ : ∃ inode, fileInode (freshKernel (formatDir NR_DIR_ENTRY)
      fun _ => zeroSector) [] = some inode :=
    ⟨_, congrArg (Option.map fun i : ℤ => readInode (fun _ => zeroSector)
      (int32 (inodeOffset (formatDir NR_DIR_ENTRY) i.toNat).toNat)) hfind⟩
  constructor
  · have hfree : freeFd (((freshKernel (formatDir NR_DIR_ENTRY) fun _ => zeroSector).setEax
        FILE_OPEN).modifyFcb 0 fun _ => ⟨s_r, inode, 0, 1⟩).procs.cur = some 0 :=
      (freeFd_setEax _ _).trans (freeFd_freshKernel ..)
    rw [openFile_fresh hinode (fcbWith_freshKernel ..) (closedFcb_freshKernel ..),
      installFd_free hfree]
    exact congrArg PCB.eax (cur_modifyCur ..)
  · rw [openContract_fresh (by decide) hinode (fcbWith_freshKernel ..) (closedFcb_freshKernel ..),
      freeFd_freshKernel]
    rintro ⟨e, he, -, hused, -⟩
    exact hused (inodeOffset_formatDir he (Nat.le_refl _))

end OsLab
