import OsLab.FileSystem.OpenClose
import OsLab.Lib.Refs

/-!
# Reference counts of FCBs

`count` is meant to be the number of descriptors, over all processes, that refer to an FCB. A new
FCB is counted twice by `open`, once when it is filled in and once when its descriptor is
installed, and `close` takes back one. So the count of every FCB that was ever opened is one more
than the number of its descriptors (`CountInv`), it never comes back to zero, and the FCB is never
free again.

## Main definitions

* `refCount` — the number of pairs of a process and a descriptor that refer to FCB `i`
* `FcbExact` — what the counts are meant to be
* `CountInv` — a closed FCB has no descriptors, and an open one has one fewer than its count says

## Main results

* `CountInv.run` — the counts after any run of successful calls
* `fcbExact_iff` — the counts are exact only before the first call
-/

namespace OsLab

/-! ## Descriptors that refer to an FCB -/

/-- The descriptors of all processes, by process and number. -/
def fdTable (k : Kernel) (x : ℕ × ℕ) : ℤ := (k.procs.pcb_table x.1).fcb x.2

/-- Every process and descriptor number. -/
@[irreducible] def fdKeys : Finset (ℕ × ℕ) := Finset.range 100 ×ˢ Finset.range 32

theorem mem_fdKeys {x : ℕ × ℕ} : x ∈ fdKeys ↔ x.1 < 100 ∧ x.2 < 32 := by
  unfold fdKeys
  simp

theorem card_fdKeys : fdKeys.card = 100 * 32 := by
  unfold fdKeys
  simp

/-- The number of pairs of a process and a descriptor that refer to FCB `i`. -/
def refCount (k : Kernel) (i : ℤ) : ℕ := refs fdKeys (fdTable k) i

/-- **What the counts are meant to be.** -/
def FcbExact (k : Kernel) : Prop :=
  ∀ i, 0 ≤ i → i < NR_FILE → (k.fcb_table i).count = refCount k i ∧
    ((k.fcb_table i).f_state = s_close ↔ refCount k i = 0)

section Table

variable {k : Kernel} {fd i : ℤ}

@[simp] theorem fdTable_setEax (k : Kernel) (v : ℤ) : fdTable (k.setEax v) = fdTable k := by
  funext x
  simp only [fdTable, Kernel.setEax, Kernel.modifyCur, Procs.modify]
  rcases eq_or_ne (x.1 : ℤ) k.procs.current with h | h
  · rw [h, Function.update_self]
  · rw [Function.update_of_ne h]

theorem fdTable_modifyFcb (k : Kernel) (i : ℤ) (f : FCB → FCB) :
    fdTable (k.modifyFcb i f) = fdTable k := rfl

/-- An assignment to a descriptor of the running process. -/
theorem fdTable_modifyCur {f : PCB → PCB} (hcur : 0 ≤ k.procs.current) (hfd : 0 ≤ fd)
    (hf : ∀ p, (f p).fcb = Function.update p.fcb fd i) :
    fdTable (k.modifyCur f) =
      Function.update (fdTable k) (k.procs.current.toNat, fd.toNat) i := by
  funext x
  obtain ⟨p, n⟩ := x
  simp only [fdTable, Kernel.modifyCur, Procs.modify]
  rcases eq_or_ne (p : ℤ) k.procs.current with hp | hp
  · rw [hp, Function.update_self, hf]
    rcases eq_or_ne (n : ℤ) fd with hn | hn
    · have hkey : (p, n) = (k.procs.current.toNat, fd.toNat) := by
        rw [Prod.mk.injEq]; omega
      rw [hn, Function.update_self, hkey, Function.update_self]
    · have hkey : (p, n) ≠ (k.procs.current.toNat, fd.toNat) := by
        rw [ne_eq, Prod.mk.injEq]; omega
      rw [Function.update_of_ne hn, Function.update_of_ne hkey, fdTable, hp]
  · have hkey : (p, n) ≠ (k.procs.current.toNat, fd.toNat) := by
      rw [ne_eq, Prod.mk.injEq]; omega
    rw [Function.update_of_ne hp, Function.update_of_ne hkey, fdTable]

theorem refCount_le (k : Kernel) (i : ℤ) : refCount k i ≤ 3200 := by
  have hle : refCount k i ≤ fdKeys.card := refs_le_card
  rw [card_fdKeys] at hle
  omega

theorem key_mem_fdKeys {p fd : ℤ} (hp : p < 100) (hfd : fd < 32) :
    (p.toNat, fd.toNat) ∈ fdKeys := by
  rw [mem_fdKeys]
  omega

end Table

/-! ## Calls -/

/-- The file calls that concern reference counts. -/
inductive FdCall
  | openFile (name : List UInt8) (mode : ℤ)
  | close (fd : ℤ)

/-- What a call does. -/
def FdCall.exec : FdCall → Kernel → Kernel
  | .openFile name mode => OsLab.openFile name mode
  | .close fd => closeFile fd

/-- The call succeeds: a file that is opened exists and there is an FCB and a descriptor for it,
a descriptor that is closed is open. (`s_close` is no mode to open a file with: it marks the FCBs
that are free.) -/
def FdCall.Succeeds (k : Kernel) : FdCall → Prop
  | .openFile name mode => mode ≠ s_close ∧ ∃ inode, fileInode k name = some inode ∧
      match fcbWith k.fcb_table mode inode with
      | none => closedFcb k.fcb_table ≠ none ∧ freeFd k.procs.cur ≠ none
      | some i => heldFd k.procs.cur i ≠ none ∨ freeFd k.procs.cur ≠ none
  | .close fd => 0 ≤ fd ∧ fd < NR_FILE ∧ k.procs.cur.fcb fd ≠ -1

/-- A call of the process in slot `process`. -/
structure FdOp where
  process : ℤ
  call : FdCall

/-- A successful call of some process. -/
def FdStep (k : Kernel) (op : FdOp) (k' : Kernel) : Prop :=
  0 ≤ op.process ∧ op.process < MAX_PCB ∧ op.call.Succeeds (k.runs op.process) ∧
    k' = op.call.exec (k.runs op.process)

/-- The state after `file_init` and `pcb_init`. -/
def bootKernel (t : ℤ → PCB) (f : ℤ → FCB) (direct : Sector) (disk : Disk) : Kernel :=
  ⟨⟨pcbInit t, 0⟩, fileInit f, direct, disk⟩

/-! ## The invariant -/

/-- A closed FCB has no descriptors, and an open one has one fewer than its count says. -/
structure CountInv (k : Kernel) : Prop where
  fds : ∀ x ∈ fdKeys, fdTable k x = -1 ∨ 0 ≤ fdTable k x ∧ fdTable k x < NR_FILE
  counts : ∀ i, 0 ≤ i → i < NR_FILE →
    ((k.fcb_table i).f_state = s_close ∧ (k.fcb_table i).count = 0 ∧ refCount k i = 0) ∨
      ((k.fcb_table i).f_state ≠ s_close ∧ (k.fcb_table i).count = refCount k i + 1)

/-- Some FCB is open. -/
def SomeOpen (k : Kernel) : Prop :=
  ∃ i, 0 ≤ i ∧ i < NR_FILE ∧ (k.fcb_table i).f_state ≠ s_close

section Boot

variable (t : ℤ → PCB) (f : ℤ → FCB) (direct : Sector) (disk : Disk)

theorem fcb_table_boot {i : ℤ} (hi : 0 ≤ i) (hlt : i < NR_FILE) :
    (bootKernel t f direct disk).fcb_table i = (f i).init :=
  fileInit_of_lt f hi hlt

theorem fcb_boot {p fd : ℤ} (hp : 0 ≤ p) (hp' : p < MAX_PCB) (hfd : 0 ≤ fd)
    (hfd' : fd < NR_FILE) : ((bootKernel t f direct disk).procs.pcb_table p).fcb fd = -1 := by
  show (pcbInit t p).fcb fd = -1
  rw [pcbInit_of_lt t hp hp']
  exact if_pos ⟨hfd, hfd'⟩

theorem fdTable_boot {x : ℕ × ℕ} (hx : x ∈ fdKeys) :
    fdTable (bootKernel t f direct disk) x = -1 := by
  rw [mem_fdKeys] at hx
  exact fcb_boot t f direct disk (by omega) (by simp only [MAX_PCB]; omega) (by omega)
    (by simp only [NR_FILE]; omega)

theorem refCount_boot {i : ℤ} (hi : 0 ≤ i) :
    refCount (bootKernel t f direct disk) i = 0 := by
  rw [refCount, refs_eq_zero]
  intro x hx
  rw [fdTable_boot t f direct disk hx]
  omega

theorem CountInv.boot : CountInv (bootKernel t f direct disk) := by
  refine ⟨fun x hx => .inl (fdTable_boot t f direct disk hx), fun i hi hlt => ?_⟩
  rw [fcb_table_boot t f direct disk hi hlt]
  exact .inl ⟨rfl, rfl, refCount_boot t f direct disk hi⟩

theorem fcbExact_boot : FcbExact (bootKernel t f direct disk) := by
  intro i hi hlt
  rw [fcb_table_boot t f direct disk hi hlt, refCount_boot t f direct disk hi]
  exact ⟨rfl, iff_of_true rfl rfl⟩

end Boot

/-! ## One call -/

section Step

variable {k k' : Kernel} {i fd mode : ℤ} {inode : Sector}

/-- A descriptor goes from the FCBs it referred to to another. -/
theorem refCount_assign {key : ℕ × ℕ} (hkey : key ∈ fdKeys)
    (h : fdTable k' = Function.update (fdTable k) key i) (j : ℤ) :
    refCount k' j + (if fdTable k key = j then 1 else 0) =
      refCount k j + (if i = j then 1 else 0) := by
  rw [refCount, h]
  exact refs_update hkey

theorem fds_assign {key : ℕ × ℕ} (h : CountInv k)
    (hfd : fdTable k' = Function.update (fdTable k) key i)
    (hi : i = -1 ∨ 0 ≤ i ∧ i < NR_FILE) (x : ℕ × ℕ) (hx : x ∈ fdKeys) :
    fdTable k' x = -1 ∨ 0 ≤ fdTable k' x ∧ fdTable k' x < NR_FILE := by
  rw [hfd]
  rcases eq_or_ne x key with rfl | hne
  · rwa [Function.update_self]
  · rw [Function.update_of_ne hne]
    exact h.fds x hx

/-- What `CountInv` and `SomeOpen` speak of. -/
theorem CountInv.congr (h : CountInv k) (hfd : fdTable k' = fdTable k)
    (hfcb : k'.fcb_table = k.fcb_table) : CountInv k' := by
  refine ⟨fun x hx => by rw [hfd]; exact h.fds x hx, fun i hi hlt => ?_⟩
  have := h.counts i hi hlt
  rwa [hfcb, refCount, hfd]

/-- **A descriptor is installed.** FCB `i` gets one more descriptor and a count one higher, and it
is open. -/
theorem CountInv.install {key : ℕ × ℕ} {f : FCB} (h : CountInv k) (hkey : key ∈ fdKeys)
    (hfree : fdTable k key = -1) (hi : 0 ≤ i) (hlt : i < NR_FILE)
    (hfd : fdTable k' = Function.update (fdTable k) key i)
    (hfcb : k'.fcb_table = Function.update k.fcb_table i f) (hstate : f.f_state ≠ s_close)
    (hcount : f.count = refCount k i + 2) : CountInv k' := by
  refine ⟨fds_assign h hfd (.inr ⟨hi, hlt⟩), fun j hj hjlt => ?_⟩
  have hrefs := refCount_assign hkey hfd j
  rw [hfree, if_neg (by omega)] at hrefs
  rw [hfcb]
  rcases eq_or_ne j i with rfl | hne
  · rw [if_pos rfl] at hrefs
    rw [Function.update_self]
    exact .inr ⟨hstate, by omega⟩
  · rw [if_neg hne.symm] at hrefs
    rw [Function.update_of_ne hne]
    rcases h.counts j hj hjlt with ⟨hs, hc, hr⟩ | ⟨hs, hc⟩
    · exact .inl ⟨hs, hc, by omega⟩
    · exact .inr ⟨hs, by omega⟩

/-- **A descriptor is closed.** Its FCB stays open. -/
theorem CountInv.release {key : ℕ × ℕ} (h : CountInv k) (hkey : key ∈ fdKeys)
    (hheld : fdTable k key = i) (hne : i ≠ -1)
    (hfd : fdTable k' = Function.update (fdTable k) key (-1))
    (hfcb : k'.fcb_table = Function.update k.fcb_table i (k.fcb_table i).release) :
    CountInv k' ∧ ∀ j, (k'.fcb_table j).f_state = (k.fcb_table j).f_state := by
  have hi : 0 ≤ i ∧ i < NR_FILE := by
    have := h.fds key hkey
    rw [hheld] at this
    exact this.resolve_left hne
  have hrefs := refCount_assign hkey hfd
  have hpos := hrefs i
  rw [hheld, if_pos rfl, if_neg (by omega)] at hpos
  have hle := refCount_le k i
  have hopen : (k.fcb_table i).f_state ≠ s_close ∧
      (k.fcb_table i).count = refCount k i + 1 := by
    rcases h.counts i hi.1 hi.2 with ⟨-, -, hr⟩ | hopen
    · omega
    · exact hopen
  have hrelease : (k.fcb_table i).release =
      { k.fcb_table i with count := (k.fcb_table i).count - 1 } := by
    rw [FCB.release, int32_eq (by omega) (by omega), if_neg (by omega)]
  constructor
  · refine ⟨fds_assign h hfd (.inl rfl), fun j hj hjlt => ?_⟩
    have hj' := hrefs j
    rw [hheld, if_neg (show (-1 : ℤ) ≠ j by omega)] at hj'
    rw [hfcb]
    rcases eq_or_ne j i with rfl | hji
    · rw [if_pos rfl] at hj'
      rw [Function.update_self, hrelease]
      exact .inr ⟨hopen.1, by show (k.fcb_table j).count - 1 = _; omega⟩
    · rw [if_neg hji.symm] at hj'
      rw [Function.update_of_ne hji]
      rcases h.counts j hj hjlt with ⟨hs, hc, hr⟩ | ⟨hs, hc⟩
      · exact .inl ⟨hs, hc, by omega⟩
      · exact .inr ⟨hs, by omega⟩
  · intro j
    rw [hfcb]
    rcases eq_or_ne j i with rfl | hji
    · rw [Function.update_self, hrelease]
    · rw [Function.update_of_ne hji]

/-- The running process is in the table. -/
def InTable (k : Kernel) : Prop := 0 ≤ k.procs.current ∧ k.procs.current < MAX_PCB

theorem fdTable_cur (h : InTable k) (hfd : 0 ≤ fd) :
    fdTable k (k.procs.current.toNat, fd.toNat) = k.procs.cur.fcb fd := by
  rw [fdTable, Int.toNat_of_nonneg h.1, Int.toNat_of_nonneg hfd]
  rfl

/-- Installing a descriptor for FCB `i`, which has been counted once more than it has
descriptors. -/
theorem CountInv.installFd (h : CountInv k) (hin : InTable k) (hfree : freeFd k.procs.cur = some fd)
    (hi : 0 ≤ i) (hlt : i < NR_FILE) {f : FCB} (hstate : f.f_state ≠ s_close)
    (hcount : f.count = refCount k i + 1) :
    CountInv (OsLab.installFd i (k.modifyFcb i fun _ => f)) ∧
      SomeOpen (OsLab.installFd i (k.modifyFcb i fun _ => f)) := by
  obtain ⟨hfd, hfdlt, hcur⟩ := freeFd_eq_some hfree
  have hle := refCount_le k i
  have heff := @installFd_free (k.modifyFcb i fun _ => f) i fd hfree
  have hfcb : (OsLab.installFd i (k.modifyFcb i fun _ => f)).fcb_table =
      Function.update k.fcb_table i { f with count := int32 (f.count + 1) } := by
    rw [heff]
    simp [Kernel.modifyFcb, Kernel.modifyCur]
  refine ⟨h.install (key_mem_fdKeys hin.2 hfdlt) (by rw [fdTable_cur hin hfd, hcur]) hi hlt ?_ hfcb
    hstate ?_, i, hi, hlt, ?_⟩
  · rw [heff, fdTable_modifyFcb]
    exact @fdTable_modifyCur (k.modifyFcb i fun _ => f) fd i _ hin.1 hfd fun p => rfl
  · show int32 (f.count + 1) = _
    rw [int32_eq (by omega) (by omega)]
    omega
  · rw [hfcb, Function.update_self]
    exact hstate

/-- **`open`** -/
theorem CountInv.openFile (h : CountInv k) (hin : InTable k) {name : List UInt8}
    (hs : (FdCall.openFile name mode).Succeeds k) :
    CountInv (OsLab.openFile name mode k) ∧ SomeOpen (OsLab.openFile name mode k) := by
  obtain ⟨hmode, inode, hinode, hs⟩ := hs
  have h₀ : CountInv (k.setEax FILE_OPEN) := h.congr (fdTable_setEax k _) rfl
  have hin₀ : InTable (k.setEax FILE_OPEN) := hin
  have hfree₀ : freeFd (k.setEax FILE_OPEN).procs.cur = freeFd k.procs.cur := by
    rw [Kernel.cur_setEax]
    rfl
  cases hwith : fcbWith k.fcb_table mode inode with
  | none =>
    rw [hwith] at hs
    obtain ⟨i, hclosed⟩ := Option.ne_none_iff_exists'.mp hs.1
    obtain ⟨fd, hfree⟩ := Option.ne_none_iff_exists'.mp hs.2
    obtain ⟨hi, hlt, hstate⟩ := closedFcb_eq_some hclosed
    rw [openFile_fresh hinode hwith hclosed]
    refine h₀.installFd hin₀ (hfree₀.trans hfree) hi hlt hmode ?_
    -- a closed FCB has no descriptors
    rcases h₀.counts i hi hlt with ⟨-, -, hr⟩ | ⟨hopen, -⟩
    · rw [hr]; rfl
    · exact absurd hstate hopen
  | some i =>
    rw [hwith] at hs
    obtain ⟨hi, hlt, hstate, -⟩ := fcbWith_eq_some hwith
    have hopen : (k.fcb_table i).f_state ≠ s_close := by rwa [hstate]
    cases hheld : heldFd k.procs.cur i with
    | some fd =>
      rw [openFile_held hinode hwith hheld]
      exact ⟨h₀.congr (fdTable_setEax _ _) rfl, i, hi, hlt, hopen⟩
    | none =>
      obtain ⟨fd, hfree⟩ := Option.ne_none_iff_exists'.mp (hs.resolve_left (not_not.mpr hheld))
      rw [openFile_shared hinode hwith hheld]
      have hsame : k.setEax FILE_OPEN =
          (k.setEax FILE_OPEN).modifyFcb i fun _ => k.fcb_table i := by
        simp only [Kernel.modifyFcb, ← Kernel.fcb_table_setEax k FILE_OPEN,
          Function.update_eq_self]
      rw [hsame]
      refine h₀.installFd hin₀ (hfree₀.trans hfree) hi hlt hopen ?_
      rcases h₀.counts i hi hlt with ⟨hclosed, -, -⟩ | ⟨-, hcount⟩
      · exact absurd hclosed hopen
      · exact hcount

/-- **`close`** -/
theorem CountInv.closeFile (h : CountInv k) (hin : InTable k)
    (hs : (FdCall.close fd).Succeeds k) :
    CountInv (OsLab.closeFile fd k) ∧ SomeOpen (OsLab.closeFile fd k) := by
  obtain ⟨hfd, hfdlt, hne⟩ := hs
  have hkey := key_mem_fdKeys hin.2 hfdlt
  have heff := closeFile_eq hfdlt hne
  have hi := (h.fds _ hkey).resolve_left (by rwa [fdTable_cur hin hfd])
  rw [fdTable_cur hin hfd] at hi
  obtain ⟨hinv, hstate⟩ := @CountInv.release k (OsLab.closeFile fd k) _ _ h hkey
    (fdTable_cur hin hfd) hne (by
      rw [heff, fdTable_setEax, fdTable_modifyFcb,
        fdTable_modifyCur hin.1 hfd fun p => by rw [PCB.setFcbAt_of_lt hfdlt]])
    (by rw [heff]; rfl)
  refine ⟨hinv, k.procs.cur.fcb fd, hi.1, hi.2, ?_⟩
  rw [hstate]
  rcases h.counts _ hi.1 hi.2 with ⟨-, -, hr⟩ | ⟨hopen, -⟩
  · rw [refCount, refs_eq_zero] at hr
    exact absurd (fdTable_cur hin hfd) (hr _ hkey)
  · exact hopen

/-- **One successful call.** -/
theorem CountInv.step {op : FdOp} (h : CountInv k) (hstep : FdStep k op k') :
    CountInv k' ∧ SomeOpen k' := by
  obtain ⟨hp, hlt, hs, rfl⟩ := hstep
  have h₀ : CountInv (k.runs op.process) := h.congr rfl rfl
  have hin : InTable (k.runs op.process) := ⟨hp, hlt⟩
  rcases op with ⟨process, call⟩
  cases call with
  | openFile name mode => exact h₀.openFile hin hs
  | close fd => exact h₀.closeFile hin hs

end Step

/-! ## All runs -/

/-- **The counts after any run.** Every FCB that is open is counted once too often, and after the
first call some FCB is open for good. -/
theorem CountInv.run {k k' : Kernel} {l : List FdOp} (h : CountInv k) (hrun : Run FdStep k l k') :
    CountInv k' ∧ (l = [] ∨ SomeOpen k') := by
  cases hrun with
  | nil => exact ⟨h, .inl rfl⟩
  | cons hstep hrest =>
    obtain ⟨hinv, hopen⟩ := Run.invariant (I := fun k => CountInv k ∧ SomeOpen k)
      (fun _ _ _ h hs => h.1.step hs) hrest (h.step hstep)
    exact ⟨hinv, .inr hopen⟩

/-- An FCB that is open has a count that is not exact. -/
theorem CountInv.not_exact {k : Kernel} (h : CountInv k) (hopen : SomeOpen k) : ¬FcbExact k := by
  intro hexact
  obtain ⟨i, hi, hlt, hstate⟩ := hopen
  rcases h.counts i hi hlt with ⟨hclosed, -, -⟩ | ⟨-, hcount⟩
  · exact hstate hclosed
  · have := (hexact i hi hlt).1
    omega

/-- **When the reference counts are exact.** After a run of successful calls by any processes the
counts are the numbers of descriptors if and only if the run is empty. -/
theorem fcbExact_iff (t : ℤ → PCB) (f : ℤ → FCB) (direct : Sector) (disk : Disk) (l : List FdOp)
    (k : Kernel) (hrun : Run FdStep (bootKernel t f direct disk) l k) :
    FcbExact k ↔ l = [] := by
  constructor
  · intro hexact
    obtain ⟨hinv, hl | hopen⟩ := (CountInv.boot t f direct disk).run hrun
    · exact hl
    · exact absurd hexact (hinv.not_exact hopen)
  · rintro rfl
    cases hrun with
    | nil => exact fcbExact_boot t f direct disk

/-! ### A file that is opened and closed -/

/-- The system after it was started with a disk that holds this file. -/
def oneFileBoot : Kernel :=
  bootKernel (fun _ => ⟨0, fun _ => 0, 0, 0, 0, 0, 0, 0, 0, 0⟩) (fun _ => ⟨0, zeroSector, 0, 0⟩)
    oneFileDir fun _ => oneFileInode

/-- Process 1 opens the file for reading and closes it again. -/
def openAndClose : List FdOp := [⟨1, .openFile [97] s_r⟩, ⟨1, .close 0⟩]

theorem oneFile_closed {j : ℤ} (hj : 0 ≤ j) (hlt : j < NR_FILE) :
    ((oneFileBoot.runs 1).fcb_table j).f_state = s_close := by
  show (fileInit _ j).f_state = s_close
  rw [fileInit_of_lt _ hj hlt]
  rfl

theorem fcbWith_oneFile (inode : Sector) :
    fcbWith (oneFileBoot.runs 1).fcb_table s_r inode = none := by
  refine findSlot_eq_none.mpr fun j hj hlt => ?_
  exact decide_eq_false fun h => absurd ((oneFile_closed hj hlt).symm.trans h.1) (by decide)

theorem closedFcb_oneFile : closedFcb (oneFileBoot.runs 1).fcb_table = some 0 := by
  refine findSlot_eq (Int.le_refl 0) (by decide) ?_ fun j hj hlt => absurd hlt (by omega)
  exact decide_eq_true (oneFile_closed (Int.le_refl 0) (by decide))

theorem freeFd_oneFile : freeFd (oneFileBoot.runs 1).procs.cur = some 0 := by
  refine findSlot_eq (Int.le_refl 0) (by decide) ?_ fun j hj hlt => absurd hlt (by omega)
  refine decide_eq_true ?_
  show (pcbInit _ 1).fcb 0 = -1
  rw [pcbInit_of_lt _ (by decide) (by decide)]
  rfl

theorem openAndClose_run : ∃ k, Run FdStep oneFileBoot openAndClose k := by
  have hopen : FdStep oneFileBoot ⟨1, .openFile [97] s_r⟩
      (openFile [97] s_r (oneFileBoot.runs 1)) := by
    refine ⟨by decide, by decide, ⟨by decide, oneFileInode, fileInode_oneFile rfl rfl, ?_⟩, rfl⟩
    rw [fcbWith_oneFile, closedFcb_oneFile, freeFd_oneFile]
    exact ⟨nofun, nofun⟩
  have hclose : FdStep (openFile [97] s_r (oneFileBoot.runs 1)) ⟨1, .close 0⟩
      (closeFile 0 ((openFile [97] s_r (oneFileBoot.runs 1)).runs 1)) := by
    refine ⟨by decide, by decide, ⟨by decide, by decide, ?_⟩, rfl⟩
    rw [openFile_fresh (fileInode_oneFile rfl rfl) (fcbWith_oneFile _) closedFcb_oneFile,
      @installFd_free _ 0 0 (by rw [← freeFd_oneFile]; rfl)]
    decide
  exact ⟨_, .cons hopen (.cons hclose (.nil _))⟩

theorem fcbExact_iff_openAndClose :
    ∃ k, Run FdStep oneFileBoot openAndClose k ∧ (FcbExact k ↔ openAndClose = []) := by
  obtain ⟨k, hrun⟩ := openAndClose_run
  exact ⟨k, hrun, fcbExact_iff _ _ _ _ openAndClose k hrun⟩

/-- **A count that is not exact.** After the only descriptor has been closed no descriptor refers
to an FCB, and one FCB is still open. -/
theorem openAndClose_not_exact : ∃ k, Run FdStep oneFileBoot openAndClose k ∧ ¬FcbExact k := by
  obtain ⟨k, hrun⟩ := openAndClose_run
  obtain ⟨hinv, hl | hopen⟩ := (CountInv.boot _ _ _ _).run hrun
  · exact absurd hl (by decide)
  · exact ⟨k, hrun, hinv.not_exact hopen⟩

end OsLab
