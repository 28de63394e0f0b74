import OsLab.FileSystem.OpenClose
import OsLab.Process.Lifecycle

/-!
# Descriptors of several processes

A process that has a descriptor, because it opened a file or because it inherited the descriptor,
relies on it to refer to that file until it closes the descriptor itself. The state of the system is
extended by what each process may rely on (`DescState.held`), and `Intact` says that it can.

`open`, `close`, `fork`, `create_thread` and `exit` do not keep this in general: `fork` copies
descriptors without counting them, so the parent's FCB is closed when enough of its children have
closed theirs, and `open` answers with the number of an FCB, and not of a descriptor, when the
process holds the file already. `DescCall.Safe` is the condition under which a call is harmless.

## Main definitions

* `DescState` — the kernel, and for each descriptor a process has the inode of the file it is for
* `descStep` — a call of any process there is
* `Refers` — descriptor `fd` of process `p` refers to an open FCB of the file with the given inode
* `LastClose` — the FCB of `fd` is not closed by closing `fd`, or no descriptor somebody relies on
  refers to it but `fd`
* `DescCall.Safe` — when a call of the running process is harmless

## A condition for each way through the code

`DescCall.Safe` asks something only on the way that the call takes. An `open` that finds no file is
harmless whatever the tables hold, and so is a `close` that does not bring the count of the FCB down
to zero, whoever else has the FCB.

## Main results

* `intact_of_safe` — after a run of calls that are all safe, every descriptor refers to its file
* `Intact.close_iff` — for `close`, the condition is exact
-/

namespace OsLab

/-! ## The system and its calls -/

/-- `current->fcb[fd]` of every process. -/
def Kernel.fds (k : Kernel) (p fd : ℤ) : ℤ := (k.procs.pcb_table p).fcb fd

/-- A table of tables with one entry set. -/
def setEntry {α : Type} (t : ℤ → ℤ → α) (p n : ℤ) (v : α) : ℤ → ℤ → α :=
  Function.update t p (Function.update (t p) n v)

theorem setEntry_apply {α : Type} (t : ℤ → ℤ → α) (p n : ℤ) (v : α) (q m : ℤ) :
    setEntry t p n v q m = if q = p ∧ m = n then v else t q m := by
  rw [setEntry]
  rcases eq_or_ne q p with rfl | hq
  · rw [Function.update_self]
    rcases eq_or_ne m n with rfl | hm
    · rw [Function.update_self, if_pos ⟨rfl, rfl⟩]
    · rw [Function.update_of_ne hm, if_neg fun h => hm h.2]
  · rw [Function.update_of_ne hq, if_neg fun h => hq h.1]

/-- The kernel, and for each descriptor a process has the inode of the file it is for. -/
structure DescState where
  kernel : Kernel
  held : ℤ → ℤ → Option Sector

/-- The calls that concern descriptors. `cr3` is the page directory of the new process, and
`garbage` the slot it gets when none is free. -/
inductive DescCall
  | openFile (name : List UInt8) (mode : ℤ)
  | close (fd : ℤ)
  | fork (cr3 : UInt32) (garbage : ℤ)
  | createThread (cr3 : UInt32) (garbage : ℤ)
  | exit

/-- The running process makes a call. What `open` returns is a descriptor of the file from then on,
a child has the descriptors of its parent, and a thread starts with none. Where no slot is free the
process that is in the slot `garbage` has not given up its descriptors. -/
def DescCall.exec (s : DescState) : DescCall → Option DescState
  | .openFile name mode =>
    let k := OsLab.openFile name mode s.kernel
    some ⟨k, match fileInode s.kernel name with
      | some inode => setEntry s.held s.kernel.procs.current k.procs.cur.eax (some inode)
      | none => s.held⟩
  | .close fd => some ⟨closeFile fd s.kernel, setEntry s.held s.kernel.procs.current fd none⟩
  | .fork cr3 garbage =>
    (processFork cr3 garbage s.kernel.procs).map fun procs =>
      ⟨{ s.kernel with procs := procs }, match getPcb (forkCaller s.kernel.procs).pcb_table with
        | some c => Function.update s.held c (s.held s.kernel.procs.current)
        | none => s.held⟩
  | .createThread cr3 garbage =>
    some ⟨{ s.kernel with procs := OsLab.createThread cr3 garbage s.kernel.procs },
      match getPcb s.kernel.procs.pcb_table with
      | some c => Function.update s.held c fun _ => none
      | none => s.held⟩
  | .exit =>
    (processExit s.kernel.procs).map fun procs =>
      ⟨{ s.kernel with procs := procs },
        Function.update s.held s.kernel.procs.current fun _ => none⟩

/-- What the runs are over: files are opened to read, to write or both, as long as an FCB is
free. -/
def DescCall.Allowed (s : DescState) : DescCall → Prop
  | .openFile _ mode =>
    (mode = s_r ∨ mode = s_w ∨ mode = s_rw) ∧ (closedFcb s.kernel.fcb_table).isSome
  | _ => True

/-- A call of the process in slot `process`. -/
structure DescOp where
  process : ℤ
  call : DescCall

/-- The process in slot `p` runs. -/
def DescState.runs (s : DescState) (p : ℤ) : DescState := { s with kernel := s.kernel.runs p }

instance (s : DescState) : (c : DescCall) → Decidable (c.Allowed s)
  | .openFile _ _ => inferInstanceAs (Decidable (_ ∧ _))
  | .close _ | .fork _ _ | .createThread _ _ | .exit => isTrue trivial

/-- A call of any process there is. -/
def descStep (s : DescState) (op : DescOp) : Option DescState :=
  if 0 ≤ op.process ∧ op.process < MAX_PCB ∧ (s.kernel.procs.pcb_table op.process).status ≠ -1 ∧
      op.call.Allowed (s.runs op.process) then
    op.call.exec (s.runs op.process)
  else none

/-- A process does a call, and the kernel returns from it. -/
def DescStep (s : DescState) (op : DescOp) (s' : DescState) : Prop := descStep s op = some s'

/-! ## What the processes rely on -/

/-- Descriptor `fd` of process `p` refers to an open FCB of the file with the given inode. -/
structure Refers (k : Kernel) (p fd : ℤ) (inode : Sector) : Prop where
  fd_nonneg : 0 ≤ fd
  fd_lt : fd < NR_FILE
  index_nonneg : 0 ≤ k.fds p fd
  index_lt : k.fds p fd < NR_FILE
  isOpen : (k.fcb_table (k.fds p fd)).f_state ≠ s_close
  sameFile : (k.fcb_table (k.fds p fd)).inode = inode

/-- **Descriptor integrity.** -/
def Intact (s : DescState) : Prop :=
  ∀ p fd inode, s.held p fd = some inode → Refers s.kernel p fd inode

/-- The FCB of `fd` is not closed by closing `fd`, or no descriptor somebody relies on refers to it
but `fd`. -/
def LastClose (s : DescState) (fd : ℤ) : Prop :=
  int32 ((s.kernel.fcb_table (s.kernel.procs.cur.fcb fd)).count - 1) = 0 →
    ∀ q n, (s.held q n).isSome → ¬(q = s.kernel.procs.current ∧ n = fd) →
      s.kernel.fds q n ≠ s.kernel.procs.cur.fcb fd

/-- **When a call of the running process is harmless.** An `open` that finds an FCB with the first
block of the file finds one of the same file, and if the process holds this FCB already it is by the
descriptor with the FCB's number; an `open` that needs a descriptor finds one. A `close` is of a
descriptor number, and takes the last count of an FCB only from the last descriptor. A new process
finds a slot. -/
def DescCall.Safe (s : DescState) : DescCall → Prop
  | .openFile name mode =>
    match fileInode s.kernel name with
    | none => True
    | some inode =>
      match fcbWith s.kernel.fcb_table mode inode with
      | none => (freeFd s.kernel.procs.cur).isSome
      | some i => (s.kernel.fcb_table i).inode = inode ∧
        match heldFd s.kernel.procs.cur i with
        | none => (freeFd s.kernel.procs.cur).isSome
        | some _ => s.kernel.procs.cur.fcb i = i
  | .close fd =>
    s.kernel.procs.cur.fcbAt fd = -1 ∨ 0 ≤ fd ∧ fd < NR_FILE ∧ LastClose s fd
  | .fork _ _ => (getPcb (forkCaller s.kernel.procs).pcb_table).isSome
  | .createThread _ _ => (getPcb s.kernel.procs.pcb_table).isSome
  | .exit => True

/-- A call that its process can make without harm. -/
def DescOp.Safe (s : DescState) (op : DescOp) : Prop := op.call.Safe (s.runs op.process)

/-! ## One call -/

section Step

variable {s s' : DescState} {k k' : Kernel} {p fd i mode : ℤ} {inode : Sector}

theorem Refers.congr (h : Refers k p fd inode) (hfds : k'.fds p fd = k.fds p fd)
    (hstate : (k'.fcb_table (k.fds p fd)).f_state = (k.fcb_table (k.fds p fd)).f_state)
    (hinode : (k'.fcb_table (k.fds p fd)).inode = (k.fcb_table (k.fds p fd)).inode) :
    Refers k' p fd inode := by
  refine ⟨h.fd_nonneg, h.fd_lt, ?_, ?_, ?_, ?_⟩
  · rw [hfds]
    exact h.index_nonneg
  · rw [hfds]
    exact h.index_lt
  · rw [hfds, hstate]
    exact h.isOpen
  · rw [hfds, hinode]
    exact h.sameFile

@[simp] theorem fds_setEax (k : Kernel) (v : ℤ) : (k.setEax v).fds = k.fds := by
  funext p fd
  have hfcb : ((k.setEax v).procs.pcb_table p).fcb = (k.procs.pcb_table p).fcb :=
    Procs.modify_frame (p := k.procs) (g := PCB.fcb) (f := fun q => { q with eax := v })
      (fun q => rfl) p
  exact congrFun hfcb fd

theorem fds_modifyFcb (k : Kernel) (i : ℤ) (f : FCB → FCB) : (k.modifyFcb i f).fds = k.fds := rfl

/-- An assignment to a descriptor of the running process. -/
theorem fds_modifyCur {f : PCB → PCB} (hf : ∀ p, (f p).fcb = Function.update p.fcb fd i) :
    (k.modifyCur f).fds = setEntry k.fds k.procs.current fd i := by
  funext p n
  simp only [Kernel.fds, Kernel.modifyCur, Procs.modify, setEntry]
  rcases eq_or_ne p k.procs.current with rfl | hp
  · rw [Function.update_self, Function.update_self, hf]
    rfl
  · rw [Function.update_of_ne hp, Function.update_of_ne hp]
    rfl

/-- Nothing changes but who holds what, and nobody holds more. -/
theorem Intact.mono (h : Intact s) (hfds : ∀ p fd, 0 ≤ fd → fd < NR_FILE →
      (s'.held p fd).isSome → s'.kernel.fds p fd = s.kernel.fds p fd)
    (hfcb : s'.kernel.fcb_table = s.kernel.fcb_table)
    (hheld : ∀ p fd inode, s'.held p fd = some inode → s.held p fd = some inode) :
    Intact s' := by
  intro p fd inode hp
  have href := h p fd inode (hheld p fd inode hp)
  exact href.congr (hfds p fd href.fd_nonneg href.fd_lt (by rw [hp]; rfl)) (by rw [hfcb])
    (by rw [hfcb])

/-- **A descriptor is installed** for an FCB that is closed or of the same file. -/
theorem Intact.install {f : FCB} (h : Intact s) (hfd : 0 ≤ fd) (hfdlt : fd < NR_FILE)
    (hi : 0 ≤ i) (hlt : i < NR_FILE)
    (hfds : s'.kernel.fds = setEntry s.kernel.fds p fd i)
    (hfcb : s'.kernel.fcb_table = Function.update s.kernel.fcb_table i f)
    (hheld : s'.held = setEntry s.held p fd (some inode)) (hstate : f.f_state ≠ s_close)
    (hinode : f.inode = inode) (hold : (s.kernel.fcb_table i).f_state ≠ s_close →
      f.inode = (s.kernel.fcb_table i).inode) : Intact s' := by
  intro q n inode' hq
  rw [hheld, setEntry_apply] at hq
  split at hq
  · next hqn =>
    obtain ⟨rfl, rfl⟩ := hqn
    obtain rfl : inode = inode' := by simpa using hq
    have hindex : s'.kernel.fds q n = i := by rw [hfds, setEntry_apply, if_pos ⟨rfl, rfl⟩]
    refine ⟨hfd, hfdlt, ?_, ?_, ?_, ?_⟩ <;> rw [hindex]
    · exact hi
    · exact hlt
    · rwa [hfcb, Function.update_self]
    · rwa [hfcb, Function.update_self]
  · next hqn =>
    have href := h q n inode' hq
    have hsame : s'.kernel.fds q n = s.kernel.fds q n := by
      rw [hfds, setEntry_apply, if_neg hqn]
    rcases eq_or_ne (s.kernel.fds q n) i with hqi | hqi
    · have hopen := href.isOpen
      have hfile := href.sameFile
      refine ⟨href.fd_nonneg, href.fd_lt, by rw [hsame]; exact href.index_nonneg,
        by rw [hsame]; exact href.index_lt, ?_, ?_⟩
      · rwa [hsame, hqi, hfcb, Function.update_self]
      · rw [hqi] at hopen hfile
        rw [hsame, hqi, hfcb, Function.update_self, hold hopen, hfile]
    · refine href.congr hsame ?_ ?_ <;> rw [hfcb, Function.update_of_ne hqi]

/-- What `installFd` does when there is a free descriptor. -/
theorem Intact.installFd {f : FCB} (h : Intact s) (hfree : freeFd s.kernel.procs.cur = some fd)
    (hi : 0 ≤ i) (hlt : i < NR_FILE) (hstate : f.f_state ≠ s_close)
    (hold : (s.kernel.fcb_table i).f_state ≠ s_close →
      f.inode = (s.kernel.fcb_table i).inode) :
    Intact ⟨OsLab.installFd i (s.kernel.modifyFcb i fun _ => f),
      setEntry s.held s.kernel.procs.current
        (OsLab.installFd i (s.kernel.modifyFcb i fun _ => f)).procs.cur.eax (some f.inode)⟩ := by
  obtain ⟨hfd, hfdlt, -⟩ := freeFd_eq_some hfree
  have heff := @installFd_free (s.kernel.modifyFcb i fun _ => f) i fd hfree
  have heax : (OsLab.installFd i (s.kernel.modifyFcb i fun _ => f)).procs.cur.eax = fd := by
    rw [heff]
    simp [Kernel.modifyFcb, Kernel.modifyCur, Procs.modify, Procs.cur]
  rw [heax]
  refine h.install (f := { f with count := int32 (f.count + 1) }) hfd hfdlt hi hlt ?_ ?_ rfl hstate
    rfl hold
  · show (OsLab.installFd i _).fds = _
    rw [heff, fds_modifyFcb]
    exact fds_modifyCur fun p => by rfl
  · show (OsLab.installFd i _).fcb_table = _
    rw [heff]
    simp [Kernel.modifyFcb, Kernel.modifyCur]

/-- The number of the call in `eax` means nothing to anybody. -/
theorem Intact.setEax (h : Intact s) (v : ℤ) : Intact ⟨s.kernel.setEax v, s.held⟩ := by
  refine h.mono (fun p fd _ _ _ => ?_) rfl fun p fd inode hp => hp
  exact congrFun (congrFun (fds_setEax s.kernel v) p) fd

/-- **`open`** -/
theorem Intact.openFile {name : List UInt8} (h : Intact s)
    (hallowed : (DescCall.openFile name mode).Allowed s)
    (hsafe : (DescCall.openFile name mode).Safe s)
    (hexec : (DescCall.openFile name mode).exec s = some s') : Intact s' := by
  obtain ⟨hmode, hclosed⟩ := hallowed
  have hmode : mode ≠ s_close := by
    rcases hmode with rfl | rfl | rfl <;> decide
  have h₀ : Intact ⟨s.kernel.setEax FILE_OPEN, s.held⟩ := h.setEax _
  have hfree₀ : ∀ {fd}, freeFd s.kernel.procs.cur = some fd →
      freeFd (s.kernel.setEax FILE_OPEN).procs.cur = some fd := fun hfree => by
    rw [Kernel.cur_setEax]
    exact hfree
  obtain rfl := Option.some.inj hexec
  cases hinode : fileInode s.kernel name with
  | none =>
    simp only [openFile_absent hinode]
    exact h₀.setEax _
  | some inode =>
    simp only [DescCall.Safe, hinode] at hsafe
    cases hwith : fcbWith s.kernel.fcb_table mode inode with
    | none =>
      rw [hwith] at hsafe
      obtain ⟨i, hi⟩ := Option.isSome_iff_exists.mp hclosed
      obtain ⟨fd, hfree⟩ := Option.isSome_iff_exists.mp hsafe
      obtain ⟨hi0, hlt, hstate⟩ := closedFcb_eq_some hi
      rw [openFile_fresh hinode hwith hi]
      exact h₀.installFd (hfree₀ hfree) hi0 hlt (f := ⟨mode, inode, 0, 1⟩) hmode
        fun hopen => absurd hstate hopen
    | some i =>
      rw [hwith] at hsafe
      obtain ⟨hsame, hsafe⟩ := hsafe
      obtain ⟨hi0, hlt, hstate, -⟩ := fcbWith_eq_some hwith
      have hopen : (s.kernel.fcb_table i).f_state ≠ s_close := by rwa [hstate]
      cases hheld : heldFd s.kernel.procs.cur i with
      | none =>
        rw [hheld] at hsafe
        obtain ⟨fd, hfree⟩ := Option.isSome_iff_exists.mp hsafe
        rw [openFile_shared hinode hwith hheld]
        have hkernel : s.kernel.setEax FILE_OPEN =
            (s.kernel.setEax FILE_OPEN).modifyFcb i fun _ => s.kernel.fcb_table i := by
          simp only [Kernel.modifyFcb, ← Kernel.fcb_table_setEax s.kernel FILE_OPEN,
            Function.update_eq_self]
        rw [hkernel, ← hsame]
        exact h₀.installFd (hfree₀ hfree) hi0 hlt hopen fun _ => rfl
      | some fd =>
        rw [hheld] at hsafe
        rw [openFile_held hinode hwith hheld]
        -- what is returned is the number of the FCB, and a descriptor only by coincidence
        have heax : ((s.kernel.setEax FILE_OPEN).setEax i).procs.cur.eax = i := by
          rw [Kernel.cur_setEax]
        rw [heax]
        have h₁ : Intact ⟨(s.kernel.setEax FILE_OPEN).setEax i, s.held⟩ := h₀.setEax _
        intro q n inode' hq
        simp only [setEntry_apply] at hq
        split at hq
        · next hqn =>
          obtain ⟨rfl, rfl⟩ := hqn
          obtain rfl : inode = inode' := by simpa using hq
          have hindex :
              ((s.kernel.setEax FILE_OPEN).setEax n).fds s.kernel.procs.current n = n := by
            rw [fds_setEax, fds_setEax]
            exact hsafe
          refine ⟨hi0, hlt, ?_, ?_, ?_, ?_⟩ <;> rw [hindex]
          · exact hi0
          · exact hlt
          · exact hopen
          · exact hsame
        · exact h₁ q n inode' hq

/-- **`close`** -/
theorem Intact.closeFile (h : Intact s) (hsafe : (DescCall.close fd).Safe s)
    (hexec : (DescCall.close fd).exec s = some s') : Intact s' := by
  obtain rfl := Option.some.inj hexec
  have hheld : ∀ q n inode, setEntry s.held s.kernel.procs.current fd none q n = some inode →
      ¬(q = s.kernel.procs.current ∧ n = fd) ∧ s.held q n = some inode := by
    intro q n inode hq
    rw [setEntry_apply] at hq
    split at hq
    · exact absurd hq nofun
    · next hqn => exact ⟨hqn, hq⟩
  rcases eq_or_ne (s.kernel.procs.cur.fcbAt fd) (-1) with hneg | hne
  · have heff : closeFile fd s.kernel = s.kernel.setEax (-1) := by
      simp only [OsLab.closeFile, if_pos hneg]
    rw [heff]
    exact (h.setEax (-1)).mono (fun q n _ _ _ => rfl) rfl fun q n inode hq => (hheld q n inode hq).2
  · obtain ⟨hfd, hfdlt, hlast⟩ := hsafe.resolve_left hne
    rw [PCB.fcbAt_of_lt hfdlt] at hne
    rw [closeFile_eq hfdlt hne]
    intro q n inode hq
    obtain ⟨hqn, hq⟩ := hheld q n inode hq
    have hfds : (((s.kernel.modifyCur fun p => p.setFcbAt fd (-1)).modifyFcb
        (s.kernel.procs.cur.fcb fd) FCB.release).setEax 1).fds q n = s.kernel.fds q n := by
      rw [fds_setEax, fds_modifyFcb, fds_modifyCur fun p => by rw [PCB.setFcbAt_of_lt hfdlt],
        setEntry_apply, if_neg hqn]
    have hfcb : (((s.kernel.modifyCur fun p => p.setFcbAt fd (-1)).modifyFcb
        (s.kernel.procs.cur.fcb fd) FCB.release).setEax 1).fcb_table =
      Function.update s.kernel.fcb_table (s.kernel.procs.cur.fcb fd)
        (s.kernel.fcb_table (s.kernel.procs.cur.fcb fd)).release := rfl
    have href := h q n inode hq
    rcases eq_or_ne (s.kernel.fds q n) (s.kernel.procs.cur.fcb fd) with hsame | hother
    · -- another descriptor refers to the FCB, so `fd` does not take the last count
      have hcount : int32 ((s.kernel.fcb_table (s.kernel.procs.cur.fcb fd)).count - 1) ≠ 0 :=
        fun hzero => hlast hzero q n (by rw [hq]; rfl) hqn hsame
      refine href.congr hfds ?_ ?_ <;>
        rw [hfcb, hsame, Function.update_self, FCB.release, if_neg hcount]
    · refine href.congr hfds ?_ ?_ <;> rw [hfcb, Function.update_of_ne hother]

/-- **When `close` is harmless.** -/
theorem Intact.close_iff (h : Intact s) (hfd : 0 ≤ fd) (hlt : fd < NR_FILE)
    (hne : s.kernel.procs.cur.fcb fd ≠ -1) (hexec : (DescCall.close fd).exec s = some s') :
    Intact s' ↔ LastClose s fd := by
  refine ⟨fun h' hcount q n hheld hqn hsame => ?_,
    fun hlast => h.closeFile (.inr ⟨hfd, hlt, hlast⟩) hexec⟩
  obtain rfl := Option.some.inj hexec
  obtain ⟨inode, hinode⟩ := Option.isSome_iff_exists.mp hheld
  have hheld' : setEntry s.held s.kernel.procs.current fd none q n = some inode := by
    rw [setEntry_apply, if_neg hqn, hinode]
  have hopen := (h' q n inode hheld').isOpen
  have hfds : (OsLab.closeFile fd s.kernel).fds q n = s.kernel.procs.cur.fcb fd := by
    rw [closeFile_eq hlt hne, fds_setEax, fds_modifyFcb,
      fds_modifyCur fun p => by rw [PCB.setFcbAt_of_lt hlt], setEntry_apply, if_neg hqn, hsame]
  have hfcb : (OsLab.closeFile fd s.kernel).fcb_table (s.kernel.procs.cur.fcb fd) =
      (s.kernel.fcb_table (s.kernel.procs.cur.fcb fd)).release := by
    rw [closeFile_eq hlt hne]
    exact Function.update_self ..
  -- the FCB has lost its last count
  refine hopen ?_
  simp only [hfds, hfcb, FCB.release, if_pos hcount]

/-- **`fork`** -/
theorem Intact.fork {cr3 : UInt32} {garbage : ℤ} (h : Intact s)
    (hsafe : (DescCall.fork cr3 garbage).Safe s)
    (hexec : (DescCall.fork cr3 garbage).exec s = some s') : Intact s' := by
  obtain ⟨procs, hprocs, rfl⟩ := Option.map_eq_some_iff.mp hexec
  obtain ⟨c, hc⟩ := Option.isSome_iff_exists.mp hsafe
  have hslot : forkSlot garbage s.kernel.procs = c := by rw [forkSlot, getPcbOr, hc]; rfl
  intro q n inode hq
  simp only [hc] at hq
  -- a descriptor of the child is one of its parent
  have hparent : ∃ r, s.held r n = some inode ∧
      ∀ hn : 0 ≤ n, n < NR_FILE → (procs.pcb_table q).fcb n = s.kernel.fds r n := by
    rcases eq_or_ne q c with hqc | hqc
    · rw [hqc, Function.update_self] at hq
      refine ⟨s.kernel.procs.current, hq, fun hn hlt => ?_⟩
      rw [fcb_processFork hprocs hn hlt, hslot, if_pos hqc]
      rfl
    · rw [Function.update_of_ne hqc] at hq
      refine ⟨q, hq, fun hn hlt => ?_⟩
      rw [fcb_processFork hprocs hn hlt, hslot, if_neg hqc]
      rfl
  obtain ⟨r, hr, hfds⟩ := hparent
  have href := h r n inode hr
  have hfds := hfds href.fd_nonneg href.fd_lt
  refine ⟨href.fd_nonneg, href.fd_lt, ?_, ?_, ?_, ?_⟩ <;> simp only [Kernel.fds, hfds]
  · exact href.index_nonneg
  · exact href.index_lt
  · exact href.isOpen
  · exact href.sameFile

/-- A process that is new or gone has no descriptors. -/
theorem held_of_update_none {held : ℤ → ℤ → Option Sector} {c q n : ℤ}
    (h : Function.update held c (fun _ => none) q n = some inode) : held q n = some inode := by
  rcases eq_or_ne q c with rfl | hne
  · rw [Function.update_self] at h
    exact absurd h nofun
  · rwa [Function.update_of_ne hne] at h

/-- **One safe call.** -/
theorem Intact.step {op : DescOp} (h : Intact s) (hsafe : op.Safe s) (hstep : DescStep s op s') :
    Intact s' := by
  rw [DescStep, descStep] at hstep
  split at hstep
  · next hguard =>
    obtain ⟨-, -, -, hallowed⟩ := hguard
    rcases op with ⟨p, call⟩
    have h₀ : Intact (s.runs p) := h.mono (fun _ _ _ _ _ => rfl) rfl fun _ _ _ hq => hq
    cases call with
    | openFile name mode => exact h₀.openFile hallowed hsafe hstep
    | close fd => exact h₀.closeFile hsafe hstep
    | fork cr3 garbage => exact h₀.fork hsafe hstep
    | createThread cr3 garbage =>
      obtain ⟨c, hc⟩ := Option.isSome_iff_exists.mp hsafe
      obtain rfl := Option.some.inj hstep
      refine h₀.mono (fun q n _ _ _ => ?_) rfl fun q n inode hq => ?_
      · exact congrFun fcb_createThread n
      · simp only [hc] at hq
        exact held_of_update_none hq
    | exit =>
      obtain ⟨procs, hprocs, rfl⟩ := Option.map_eq_some_iff.mp hstep
      refine h₀.mono (fun q n _ _ _ => ?_) rfl fun _ _ _ hq => held_of_update_none hq
      exact congrFun (fcb_processExit hprocs) n
  · exact absurd hstep nofun

end Step

/-! ## All runs -/

/-- **When descriptors can be relied on.** In a run of `open`, `close`, `fork`, `create_thread` and
`exit` by any processes, if every call is safe in the state it is made in, every descriptor refers
to an open FCB of its file in the state that is reached. -/
theorem intact_of_safe (k : Kernel) (l : List DescOp) (s : DescState)
    (hrun : Run (Guarded (fun s op => op.Safe s) DescStep) ⟨k, fun _ _ => none⟩ l s) : Intact s :=
  Run.invariant (I := Intact) (fun _ _ _ h hstep => h.step hstep.1 hstep.2) hrun
    fun _ _ _ hheld => absurd hheld nofun

/-! ### A family of processes and one file -/

/-- The system after it was started, with a disk that holds a file named `a`. -/
def gameKernel : Kernel :=
  ⟨⟨slotTable [idlePcb, gamePcb], 0⟩, fun _ => ⟨s_close, zeroSector, 0, 0⟩, oneFileDir,
    fun _ => oneFileInode⟩

/-- Nobody has opened a file yet. -/
def gameStart : DescState := ⟨gameKernel, fun _ _ => none⟩

/-- The state after some calls. -/
def DescState.after (s : DescState) (l : List DescOp) : DescState := (l.foldlM descStep s).getD s

theorem run_after {s : DescState} {l : List DescOp} (h : (l.foldlM descStep s).isSome) :
    Run DescStep s l (s.after l) := by
  obtain ⟨s', hs'⟩ := Option.isSome_iff_exists.mp h
  rw [DescState.after, hs']
  exact Run.of_foldlM hs'

theorem step_after {s : DescState} {op : DescOp} (h : (descStep s op).isSome) :
    DescStep s op (s.after [op]) := by
  obtain ⟨s', hs'⟩ := Option.isSome_iff_exists.mp h
  have hfold : [op].foldlM descStep s = some s' := by rw [List.foldlM_cons, hs']; rfl
  rw [DescState.after, hfold]
  exact hs'

/-- The game opens the file. -/
def openIt : DescOp := ⟨1, .openFile [97] s_r⟩
/-- The game makes a child. -/
def forkIt : DescOp := ⟨1, .fork 0 0⟩
/-- One of the two closes its descriptor. -/
def closeIt (p : ℤ) : DescOp := ⟨p, .close 0⟩

theorem openIt_safe : openIt.Safe gameStart := by
  have hinode : fileInode (gameKernel.runs 1) [97] = some oneFileInode :=
    fileInode_oneFile rfl rfl
  have hwith : fcbWith (gameKernel.runs 1).fcb_table s_r oneFileInode = none := by decide
  have hfree : (freeFd (gameKernel.runs 1).procs.cur).isSome := by decide
  show (DescCall.openFile [97] s_r).Safe ⟨gameKernel.runs 1, fun _ _ => none⟩
  simp only [DescCall.Safe, hinode, hwith, hfree]

/-- The game opens the file and forks, and its child closes the file. -/
theorem intact_of_safe_fork :
    ∃ s, Run (Guarded (fun s op => op.Safe s) DescStep) gameStart [openIt, forkIt, closeIt 2] s ∧
      Intact s := by
  have hfork : forkIt.Safe (gameStart.after [openIt]) := by
    show Option.isSome _ = true
    decide
  -- the FCB was counted twice when it was opened
  have hclose : (closeIt 2).Safe ((gameStart.after [openIt]).after [forkIt]) :=
    .inr ⟨by decide, by decide, fun hcount => absurd hcount (by decide)⟩
  have hrun : Run (Guarded (fun s op => op.Safe s) DescStep) gameStart
      [openIt, forkIt, closeIt 2] _ :=
    .cons ⟨openIt_safe, step_after (by decide)⟩
      (.cons ⟨hfork, step_after (by decide)⟩ (.cons ⟨hclose, step_after (by decide)⟩ (.nil _)))
  exact ⟨_, hrun, intact_of_safe gameKernel _ _ hrun⟩

/-- **A descriptor that others have closed.** The game opens the file and forks twice, and its
children close the file: the game's descriptor refers to an FCB that is closed. -/
theorem closes_not_intact :
    ∃ s, Run DescStep gameStart [openIt, forkIt, forkIt, closeIt 2, closeIt 3] s ∧ ¬Intact s := by
  refine ⟨_, run_after (by decide), fun h => ?_⟩
  have hheld : ((gameStart.after [openIt, forkIt, forkIt, closeIt 2, closeIt 3]).held 1 0).isSome :=
    by decide
  obtain ⟨inode, hinode⟩ := Option.isSome_iff_exists.mp hheld
  exact (h 1 0 inode hinode).isOpen (by decide +kernel)

end OsLab
