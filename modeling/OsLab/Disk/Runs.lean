import OsLab.Disk.ImageLayout

/-!
# One run after another

`copy2myfs` can be run again on an image it has left. It reads bitmap and directory back, and since
these are the ones it had in memory when it wrote them, the later run goes on where the earlier one
stopped: what holds after each file holds across the runs (`copyRuns_induction`).

A run stops at the first argument that cannot be opened. It has stored the files before it, and the
bitmap and the directory on the disk know nothing of them.

## Main definitions

* `writeBack` — the end of a run: bitmap and directory are written back
* `copyRuns` — a formatted image after `copy2myfs` has run to its end on each of the lists of files
* `InodeOnData` — inode `b` of file `s` is put on data block `j` of file `i`
* `BlockInv` — the fate of the data blocks of the first `k` files

## Main results

* `RunInv.copyRuns` — the state after any number of runs
* `BlockInv.copyRuns` — the fate of every data block
-/

namespace OsLab

/-- The end of a run: bitmap and directory are written back. -/
def writeBack (c : Copy) : Disk := (writeBitmap c.disk c.bitmap).write 257 c.direct

/-- A formatted image after `copy2myfs` has run to its end on each of the lists of files. A run
comes with what its uninitialised `bitoffset` holds. -/
def copyRuns (boot : Sector) (mem : ℕ → Sector) (runs : List (ℕ × List InFile)) : Disk :=
  runs.foldl (fun d r => copy2myfs d r.1 (r.2.map InFile.arg)) (formatter boot mem)

/-- The files of all runs, in the order in which they are stored. -/
def allFiles (runs : List (ℕ × List InFile)) : List InFile := runs.flatMap Prod.snd

section WriteBack

variable (c : Copy)

@[simp] theorem writeBack_dir : writeBack c 257 = c.direct := Disk.write_self ..

/-- The blocks behind the directory are not written. -/
theorem writeBack_of_ge {s : ℕ} (h : 258 ≤ s) : writeBack c s = c.disk s := by
  rw [writeBack, Disk.write_of_ne _ (by omega), writeBitmap_of_ge (by omega)]

/-- The bitmap that is read back is the one in memory. -/
theorem used_writeBack {b : ℕ} (hb : b < NR_BLOCK) :
    used (readBitmap (writeBack c)) b = used c.bitmap b := by
  have hmask : b / 8 < BITMAP_SIZE := by
    simp only [NR_BLOCK] at hb
    omega
  have hread := (readBitmap_congr
    (fun s _ hs => Disk.write_of_ne (d := writeBitmap c.disk c.bitmap) c.direct
      (by omega : s ≠ 257)) hmask).trans (readBitmap_writeBitmap hmask)
  rw [used, used, writeBack, hread]

end WriteBack

/-! ## The rule for a series of runs -/

section Induction

variable {P : ℕ → Copy → Prop} {files : List InFile}

/-- The files of one run, which come after `m` others. -/
theorem storeFiles_induction {l : List InFile} {m : ℕ}
    (hstep : ∀ (k : ℕ) (hk : k < files.length) (c : Copy), P k c →
      P (k + 1) (storeFile c files[k].name.val files[k].data))
    (hl : ∀ k < l.length, files[m + k]? = l[k]?) {c : Copy} (h : P m c) :
    P (m + l.length) (storeFiles c l) := by
  refine List.foldl_induction_index (P := fun k => P (m + k)) l (fun k hk c hc => ?_) h
  have hget := hl k hk
  rw [List.getElem?_eq_getElem hk] at hget
  obtain ⟨hmk, heq⟩ := List.getElem?_eq_some_iff.mp hget
  have hnext := hstep (m + k) hmk c hc
  rwa [heq] at hnext

theorem foldl_copy2myfs_induction {runs : List (ℕ × List InFile)} {pre post : List InFile}
    {d : Disk}
    (hfiles : files = pre ++ (allFiles runs ++ post))
    (hstep : ∀ (k : ℕ) (hk : k < files.length) (c : Copy), P k c →
      P (k + 1) (storeFile c files[k].name.val files[k].data))
    (hback : ∀ k c bitoffset, P k c → P k (startCopy (writeBack c) bitoffset))
    (h : ∀ bitoffset, P pre.length (startCopy d bitoffset)) (bitoffset : ℕ) :
    P (pre.length + (allFiles runs).length)
      (startCopy (runs.foldl (fun d r => copy2myfs d r.1 (r.2.map InFile.arg)) d) bitoffset) := by
  induction runs generalizing pre d with
  | nil => exact h bitoffset
  | cons r runs ih =>
    have hall : allFiles (r :: runs) = r.2 ++ allFiles runs := List.flatMap_cons
    have hfiles' : files = (pre ++ r.2) ++ (allFiles runs ++ post) := by
      rw [hfiles, hall, List.append_assoc, List.append_assoc]
    rw [hall, List.length_append, ← Nat.add_assoc, ← List.length_append]
    refine ih hfiles' fun bitoffset => ?_
    rw [List.length_append]
    dsimp only
    rw [copy2myfs_arg]
    refine hback _ _ _ (storeFiles_induction hstep (fun k hk => ?_) (h r.1))
    rw [hfiles', List.append_assoc, List.getElem?_append_right (Nat.le_add_right _ _),
      Nat.add_sub_cancel_left, List.getElem?_append_left hk]

/-- **The rule for a series of runs.** What holds in the formatted image, is preserved by storing a
file, and does not depend on bitmap and directory being written and read back, holds after the last
run. The list of files may go on behind those of the runs. -/
theorem copyRuns_induction {boot : Sector} {mem : ℕ → Sector} {runs : List (ℕ × List InFile)}
    {post : List InFile} (hfiles : files = allFiles runs ++ post)
    (hstep : ∀ (k : ℕ) (hk : k < files.length) (c : Copy), P k c →
      P (k + 1) (storeFile c files[k].name.val files[k].data))
    (hback : ∀ k c bitoffset, P k c → P k (startCopy (writeBack c) bitoffset))
    (h : ∀ bitoffset, P 0 (startCopy (formatter boot mem) bitoffset)) (bitoffset : ℕ) :
    P (allFiles runs).length (startCopy (copyRuns boot mem runs) bitoffset) := by
  have hfiles' : files = [] ++ (allFiles runs ++ post) := hfiles
  have hruns := foldl_copy2myfs_induction hfiles' hstep hback h bitoffset
  rwa [List.length_nil, Nat.zero_add] at hruns

end Induction

/-! ## What the files look like -/

section Files

variable {files : List InFile} {k : ℕ} {c : Copy}

/-- Writing bitmap and directory back and reading them again. -/
theorem RunInv.writeBack (h : RunInv files k c) (bitoffset : ℕ) :
    RunInv files k (startCopy (writeBack c) bitoffset) := by
  have hdirect : (startCopy (OsLab.writeBack c) bitoffset).direct = c.direct := writeBack_dir c
  have hdisk : ∀ s, 258 ≤ s → (startCopy (OsLab.writeBack c) bitoffset).disk s = c.disk s :=
    fun s hs => writeBack_of_ge c hs
  refine ⟨fun b hb => ?_, fun i hi hik => ?_, fun e he he' => ?_, fun i hi hik hfit => ?_,
    fun i hi hik hfit hun => ?_, fun i s b hi hs his hsk hb hon => ?_⟩
  · rw [← h.frontier b hb]
    exact used_writeBack c hb
  · rw [hdirect]
    exact h.entry i hi hik
  · rw [hdirect]
    exact h.free e he he'
  · have hinode := @le_inodeStart files i
    exact (h.inode i hi hik hfit).congr fun b _ => hdisk _ (by omega)
  · have hinode := @le_inodeStart files i
    have hdata := @le_dataStart files i
    exact (h.stored i hi hik hfit hun).congr (fun b _ => hdisk _ (by omega))
      fun j _ => hdisk _ (by omega)
  · have hdata := @le_dataStart files i
    rw [hdisk _ (by omega), h.lost i s b hi hs his hsk hb hon]

/-- **After any number of runs.** -/
theorem RunInv.copyRuns (boot : Sector) (mem : ℕ → Sector) {runs : List (ℕ × List InFile)}
    {post : List InFile} (hfiles : files = allFiles runs ++ post)
    (hlen : files.length ≤ NR_DIR_ENTRY) (hshort : ∀ f ∈ files, f.name.val.length < 24)
    (hroom : dataAt (inodesBefore files files.length) (chunksBefore files files.length) ≤ NR_BLOCK)
    (bitoffset : ℕ) :
    RunInv files (allFiles runs).length (startCopy (OsLab.copyRuns boot mem runs) bitoffset) :=
  copyRuns_induction hfiles (fun _ hk _ hc => hc.step hk hlen hshort hroom)
    (fun _ _ bitoffset hc => hc.writeBack bitoffset) (fun _ => RunInv.start boot mem _) bitoffset

/-- The image of a series of runs. -/
theorem image_copyRuns (boot : Sector) (mem : ℕ → Sector) {runs : List (ℕ × List InFile)}
    (hlen : (allFiles runs).length ≤ NR_DIR_ENTRY)
    (hshort : ∀ f ∈ allFiles runs, f.name.val.length < 24)
    (hroom : dataAt (inodesBefore (allFiles runs) (allFiles runs).length)
      (chunksBefore (allFiles runs) (allFiles runs).length) ≤ NR_BLOCK) :
    Image (copyRuns boot mem runs) (allFiles runs) := by
  have h := RunInv.copyRuns boot mem (List.append_nil _).symm hlen hshort hroom 0
  exact ⟨fun i hi => h.entry i hi hi, h.free, fun i hi => h.inode i hi hi,
    fun i hi => h.stored i hi hi, fun i s b hi hs his => h.lost i s b hi hs his hs, h.frontier⟩

/-! ### Data blocks one by one

When the inode zone runs out, the inodes of a file go on into the data zone, over as many blocks as
there are inodes left. Of an earlier file's data this can be the first blocks only, while the last
ones stay.
-/

/-- Inode `b` of file `s` is put on data block `j` of file `i`. -/
def InodeOnData (files : List InFile) (i j s b : ℕ) : Prop :=
  inodeStart files s + b = dataStart files i + j

/-- **The fate of the data blocks** of the first `k` files. -/
structure BlockInv (files : List InFile) (k : ℕ) (c : Copy) : Prop where
  /-- A block no inode is put on keeps the data. -/
  kept : ∀ (i j : ℕ) (hi : i < files.length), i < k →
    InodesFit (inodesBefore files i) files[i].data.length → j < chunkCount files[i].data.length →
      (∀ (s : ℕ) (hs : s < files.length), i < s → s < k →
        ∀ b < inodeCount files[s].data.length, ¬InodeOnData files i j s b) →
      c.disk (dataStart files i + j + 1) = chunk files[i].data j
  /-- A block with an inode on it starts with the number of the block that inode lists first. -/
  lost : ∀ (i j s b : ℕ) (hi : i < files.length) (hs : s < files.length), i < s → s < k →
    j < chunkCount files[i].data.length → b < inodeCount files[s].data.length →
      InodeOnData files i j s b → dataBlockOffset (c.disk (dataStart files i + j + 1)) 0 =
        UInt32.ofNat (dataNo (inodesBefore files s) (chunksBefore files s) (128 * b))

theorem BlockInv.start (c : Copy) : BlockInv files 0 c :=
  ⟨fun _ _ _ hik => absurd hik (Nat.not_lt_zero _),
    fun _ _ _ _ _ _ _ hsk => absurd hsk (Nat.not_lt_zero _)⟩

/-- The data of a file comes before that of any later file. -/
theorem data_lt_dataStart {i j s : ℕ} (hi : i < files.length) (his : i < s)
    (hj : j < chunkCount files[i].data.length) : dataStart files i + j < dataStart files s := by
  obtain ⟨hz, hr⟩ := footprint_le hi his
  have hpos : 0 < inodeCount files[i].data.length := Nat.succ_pos _
  simp only [dataStart, dataAt]
  omega

/-- **The step from file to file.** -/
theorem BlockInv.step (h : BlockInv files k c) (hrun : RunInv files k c) (hk : k < files.length)
    (hlen : files.length ≤ NR_DIR_ENTRY)
    (hroom : dataAt (inodesBefore files files.length) (chunksBefore files files.length) ≤
      NR_BLOCK) :
    BlockInv files (k + 1) (storeFile c files[k].name.val files[k].data) := by
  obtain ⟨-, -, hstored, hkept, hfirst⟩ := hrun.storeFile hk hlen hroom
  refine ⟨fun i j hi hik hfit hj hfree => ?_, fun i j s b hi hs his hsk hj hb hon => ?_⟩
  · rcases Nat.eq_or_lt_of_le (Nat.le_of_lt_succ hik) with rfl | hlt
    · exact (hstored hfit).data j hj
    · rw [hkept _ (data_lt_dataStart hi hlt hj) ?_]
      · exact h.kept i j hi hlt hfit hj fun s hs his hsk => hfree s hs his (by omega)
      · by_contra hin
        exact hfree k hk hlt (Nat.lt_succ_self k) (dataStart files i + j - inodeStart files k)
          (by omega) (by simp only [InodeOnData]; omega)
  · simp only [InodeOnData] at hon
    have hbefore := data_lt_dataStart hi his hj
    rcases Nat.eq_or_lt_of_le (Nat.le_of_lt_succ hsk) with rfl | hlt
    · rw [← hon]
      exact hfirst b hb (by omega)
    · -- the zone is used up, so the inodes of file `k` come after everything stored so far
      obtain ⟨-, hpast, -⟩ := inode_on_data (b := b) hi his (by omega) (by omega)
      obtain ⟨hzs, -⟩ := footprint_le hs hlt
      have hbehind := data_lt_dataStart hi (Nat.lt_trans his hlt) hj
      have hinode : dataStart files i + j < inodeStart files k := by
        obtain ⟨hz, hr⟩ := footprint_le hi (Nat.lt_trans his hlt)
        have hpos : 0 < inodeCount files[i].data.length := Nat.succ_pos _
        rw [inodeStart, inodeAt_of_ge (by omega)]
        simp only [dataStart, dataAt]
        omega
      rw [hkept _ hbehind (.inl hinode)]
      exact h.lost i j s b hi hs his hlt hj hb hon

theorem BlockInv.writeBack (h : BlockInv files k c) (bitoffset : ℕ) :
    BlockInv files k (startCopy (OsLab.writeBack c) bitoffset) := by
  have hdisk : ∀ i j, (startCopy (OsLab.writeBack c) bitoffset).disk (dataStart files i + j + 1) =
      c.disk (dataStart files i + j + 1) := fun i j => by
    have hdata := @le_dataStart files i
    exact writeBack_of_ge c (by omega)
  refine ⟨fun i j hi hik hfit hj hfree => ?_, fun i j s b hi hs his hsk hj hb hon => ?_⟩
  · rw [hdisk, h.kept i j hi hik hfit hj hfree]
  · rw [hdisk, h.lost i j s b hi hs his hsk hj hb hon]

/-- **After any number of runs.** -/
theorem BlockInv.copyRuns (boot : Sector) (mem : ℕ → Sector) {runs : List (ℕ × List InFile)}
    (hlen : (allFiles runs).length ≤ NR_DIR_ENTRY)
    (hshort : ∀ f ∈ allFiles runs, f.name.val.length < 24)
    (hroom : dataAt (inodesBefore (allFiles runs) (allFiles runs).length)
      (chunksBefore (allFiles runs) (allFiles runs).length) ≤ NR_BLOCK) (bitoffset : ℕ) :
    BlockInv (allFiles runs) (allFiles runs).length
      (startCopy (OsLab.copyRuns boot mem runs) bitoffset) :=
  (copyRuns_induction (P := fun k c => RunInv (allFiles runs) k c ∧ BlockInv (allFiles runs) k c)
    (List.append_nil _).symm (fun _ hk _ hc =>
      ⟨hc.1.step hk hlen hshort hroom, hc.2.step hc.1 hk hlen hroom⟩)
    (fun _ _ bitoffset hc => ⟨hc.1.writeBack bitoffset, hc.2.writeBack bitoffset⟩)
    (fun _ => ⟨RunInv.start boot mem _, BlockInv.start _⟩) bitoffset).2

end Files

end OsLab
