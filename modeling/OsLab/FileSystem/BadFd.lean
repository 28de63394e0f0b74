import OsLab.FileSystem.ReadWrite
import OsLab.FileSystem.OpenClose
import OsLab.Process.Lifecycle

/-!
# Bad descriptors

The four calls that take a descriptor read `current->fcb[fd]` for whatever `fd` is in the register.
A number from 0 to 31 that is no open descriptor has `-1` there and is refused. Outside the array
the word belongs to something else: behind it are `pid`, `ppid` and the other fields of the PCB, in
front of it is the kernel stack. `lseek` and `close` go on with any word but `-1`; `read` and
`write` ask whether the FCB with that number is open to read or to write.

A call that goes on always shows: `lseek` and `close` return 1, and a `read` or `write` that returns
`-1` has moved the offset.

## Main results

* `harmless_iff` — a call with a bad descriptor does nothing but return `-1`, exactly if the number
  is inside the array or the word is refused
-/

namespace OsLab

/-- The calls that take a descriptor. -/
inductive FdRequest
  | read (count : ℤ)
  | write (count : ℤ)
  | lseek (offset whence : ℤ)
  | close

/-- A call of the running process with the caller's buffer. `stray` and `junk` are the memory around
an inode and on the stack. -/
def FdRequest.exec (stray : ℤ → UInt32) (junk : Mem) (k : Kernel) (fd : ℤ) (buf : Mem) :
    FdRequest → Call
  | .read count => readFile stray junk k fd buf count
  | .write count => writeFile stray junk k fd buf count
  | .lseek offset whence => ⟨OsLab.lseek stray junk k fd offset whence, buf, [], []⟩
  | .close => ⟨closeFile fd k, buf, [], []⟩

/-- `fd` is an open descriptor of the running process. -/
def OpenFd (k : Kernel) (fd : ℤ) : Prop := 0 ≤ fd ∧ fd < NR_FILE ∧ k.procs.cur.fcb fd ≠ -1

/-- **A harmless call.** It returns `-1`, and the disk, the buffer, the FCBs and what is around
them, and everything in the PCBs but the caller's `eax` are as before. -/
def Harmless (k : Kernel) (buf : Mem) (c : Call) : Prop := c.kernel = k.setEax (-1) ∧ c.buf = buf

/-- The call is refused, because of the word that it takes for the number of an FCB. -/
def FdRequest.Refused (k : Kernel) (fd : ℤ) (c : FdRequest) : Prop :=
  k.fcbIndex fd = -1 ∨
    match c with
    | .read _ => (k.fcbOf fd).f_state ≠ s_r ∧ (k.fcbOf fd).f_state ≠ s_rw
    | .write _ => (k.fcbOf fd).f_state ≠ s_w ∧ (k.fcbOf fd).f_state ≠ s_rw
    | .lseek _ _ => False
    | .close => False

/-! ## Calls that go on -/

section Calls

variable {stray : ℤ → UInt32} {junk : Mem} {k : Kernel} {fd : ℤ} {buf : Mem}

@[simp] theorem Kernel.eax_setEax (k : Kernel) (v : ℤ) : (k.setEax v).procs.cur.eax = v := by
  rw [Kernel.cur_setEax]

/-- What `read` returns is `-1` only if the offset goes back by one. -/
theorem readTransfer_answer {inode : Sector} {offset count : ℤ} {x : Transfer}
    (h : (readTransfer stray inode offset count x).2 = -1) : int32 (offset + count) ≠ offset := by
  have hdiv := tdiv_tmod_spec offset (show (0 : ℤ) < 512 by decide)
  have hstart := tmod_bounds offset (show (0 : ℤ) < 512 by decide)
  rw [readTransfer] at h
  dsimp only at h
  split at h
  · dsimp only at h
    split at h
    · next hlt =>
      rw [h, uint32_eq (x := 513 - offset.tmod 512) (by omega) (by omega)] at hlt
      have hmax : uint32 (-1) = 2 ^ 32 - 1 := rfl
      omega
    · omega
  · dsimp only at h
    intro hsame
    rw [hsame] at h
    have hzero : offset - offset.tdiv 512 * 512 - offset.tmod 512 = 0 := by omega
    rw [hzero] at h
    exact absurd h (by decide)

/-- A call that goes on and ends with `offset` for the FCB and the answer `eax`. -/
theorem Transfer.not_harmless {x : Transfer} {i offset eax : ℤ}
    (h : eax = -1 → offset ≠ (k.fcb_table i).offset) :
    ¬Harmless k buf (x.finish k i offset eax) := by
  rintro ⟨hkernel, -⟩
  rw [Transfer.finish] at hkernel
  have heax := congrArg (fun k : Kernel => k.procs.cur.eax) hkernel
  simp only [Kernel.eax_setEax] at heax
  have hoffset := congrArg (fun k : Kernel => (k.fcb_table i).offset) hkernel
  simp only [Kernel.fcb_table_setEax, Kernel.modifyFcb, Function.update_self] at hoffset
  exact h heax hoffset

theorem not_harmless_of_eax {c : Call} (h : c.kernel.procs.cur.eax = 1) : ¬Harmless k buf c := by
  rintro ⟨hkernel, -⟩
  rw [hkernel, Kernel.eax_setEax] at h
  exact absurd h (by decide)

theorem harmless_refuse (k : Kernel) (buf : Mem) : Harmless k buf (k.refuse buf) := ⟨rfl, rfl⟩

theorem readFile_harmless_iff (count : ℤ) :
    Harmless k buf (readFile stray junk k fd buf count) ↔ (FdRequest.read count).Refused k fd := by
  simp only [readFile, FdRequest.Refused, Kernel.fcbOf]
  split
  · next hrefused =>
    refine iff_of_true (harmless_refuse k buf) ?_
    rw [not_or] at hrefused
    exact hrefused.symm
  · next hgo =>
    rw [not_or, not_not] at hgo
    refine iff_of_false (Transfer.not_harmless fun heax => ?_) ?_
    · exact readTransfer_answer heax
    · rintro (hneg | hstate)
      · exact hgo.2 hneg
      · exact hgo.1.elim hstate.1 hstate.2

theorem writeFile_harmless_iff (count : ℤ) :
    Harmless k buf (writeFile stray junk k fd buf count) ↔
      (FdRequest.write count).Refused k fd := by
  simp only [writeFile, FdRequest.Refused, Kernel.fcbOf]
  split
  · next hrefused =>
    refine iff_of_true (harmless_refuse k buf) ?_
    rw [not_or] at hrefused
    exact hrefused.symm
  · next hgo =>
    rw [not_or, not_not] at hgo
    refine iff_of_false (Transfer.not_harmless fun heax => ?_) ?_
    · rw [heax]
      exact int32_sub_one_ne _
    · rintro (hneg | hstate)
      · exact hgo.2 hneg
      · exact hgo.1.elim hstate.1 hstate.2

/-- `lseek` goes on with every word but `-1`. -/
theorem lseek_harmless_iff (offset whence : ℤ) :
    Harmless k buf ⟨lseek stray junk k fd offset whence, buf, [], []⟩ ↔
      (FdRequest.lseek offset whence).Refused k fd := by
  simp only [FdRequest.Refused, or_false]
  by_cases hneg : k.fcbIndex fd = -1
  · refine iff_of_true ⟨?_, rfl⟩ hneg
    simp only [lseek, if_pos hneg]
  · refine iff_of_false (not_harmless_of_eax ?_) hneg
    simp [lseek, if_neg hneg]

theorem closeFile_harmless_iff :
    Harmless k buf ⟨closeFile fd k, buf, [], []⟩ ↔ FdRequest.close.Refused k fd := by
  simp only [FdRequest.Refused, or_false]
  by_cases hneg : k.fcbIndex fd = -1
  · refine iff_of_true ⟨?_, rfl⟩ hneg
    have hindex : k.procs.cur.fcbAt fd = -1 := hneg
    simp only [closeFile, if_pos hindex]
  · refine iff_of_false (not_harmless_of_eax ?_) hneg
    have hindex : k.procs.cur.fcbAt fd ≠ -1 := hneg
    simp [closeFile, if_neg hindex]

/-- A call is harmless exactly if it is refused. -/
theorem exec_harmless_iff (c : FdRequest) :
    Harmless k buf (c.exec stray junk k fd buf) ↔ c.Refused k fd := by
  cases c with
  | read count => exact readFile_harmless_iff count
  | write count => exact writeFile_harmless_iff count
  | lseek offset whence => exact lseek_harmless_iff offset whence
  | close => exact closeFile_harmless_iff

end Calls

/-- **Bad descriptors.** A number that is no open descriptor of the process does no harm exactly if
it is one of the numbers of descriptors, or the word behind or in front of the array is refused. -/
theorem harmless_iff (stray : ℤ → UInt32) (junk : Mem) (k : Kernel) (fd : ℤ) (buf : Mem)
    (c : FdRequest) (hbad : ¬OpenFd k fd) :
    Harmless k buf (c.exec stray junk k fd buf) ↔ (0 ≤ fd ∧ fd < NR_FILE) ∨ c.Refused k fd := by
  rw [exec_harmless_iff]
  refine ⟨.inr, fun h => h.elim (fun hin => ?_) id⟩
  have hnone : k.procs.cur.fcb fd = -1 := by
    by_contra hne
    exact hbad ⟨hin.1, hin.2, hne⟩
  exact .inl ((PCB.fcbAt_of_lt hin.2).trans hnone)

/-- The game runs and has no file open. -/
def gameAlone : Kernel :=
  ⟨⟨slotTable [idlePcb, { gamePcb with status := Running }], 1⟩,
    fun _ => ⟨s_close, zeroSector, 0, 0⟩, zeroSector, fun _ => zeroSector⟩

/-- Reading from a descriptor that was never opened. -/
theorem harmless_never_opened :
    Harmless gameAlone (fun _ => 0)
      ((FdRequest.read 512).exec (fun _ => 0) (fun _ => 0) gameAlone 5 fun _ => 0) :=
  (harmless_iff (fun _ => 0) (fun _ => 0) gameAlone 5 (fun _ => 0) (.read 512)
    fun hopen => hopen.2.2 rfl).mpr (.inl ⟨by decide, by decide⟩)

/-- **`fcb[32]` is the pid.** The game closes descriptor 32: it returns 1, and the process has pid
`-1` from then on. -/
theorem close_pid :
    ¬OpenFd gameAlone 32 ∧ gameAlone.procs.cur.pid = 2 ∧
      (closeFile 32 gameAlone).procs.cur.eax = 1 ∧ (closeFile 32 gameAlone).procs.cur.pid = -1 ∧
      ¬Harmless gameAlone (fun _ => 0)
        (FdRequest.close.exec (fun _ => 0) (fun _ => 0) gameAlone 32 fun _ => 0) := by
  refine ⟨fun hopen => absurd hopen.2.1 (by decide), rfl, rfl, rfl, ?_⟩
  rw [exec_harmless_iff]
  rintro (hneg | hfalse)
  · exact absurd hneg (by decide)
  · exact hfalse

end OsLab
