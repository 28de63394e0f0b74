import OsLab.Disk.Runs

/-!
# A run that stops

Inodes and data are written as the files are read, bitmap and directory at the end. A run that stops
at an argument it cannot open has therefore written blocks that the disk still calls free, and
nothing else: data goes to the blocks `bit_alloc` returns, and as long as the inode zone lasts the
inodes, which go to consecutive blocks whatever `bit_alloc` returns, are in blocks it has returned
too.

Nothing is asked of the names of the files in the earlier runs. The bitmap does not depend on them.

## Main definitions

* `openable` — the files a run stores: those before the first argument that cannot be opened
* `KeptInv` — what is in use is kept

## Main results

* `KeptInv.step` — storing a file keeps the blocks that were in use
* `copy_keeps_used` — and so does a run, to its end or not
-/

namespace OsLab

/-! ## Arguments that cannot be opened -/

/-- The files a run stores: those before the first argument that cannot be opened. -/
def openable : List Arg → List InFile
  | [] => []
  | a :: as =>
    match a.contents with
    | none => []
    | some data => ⟨a.name, data⟩ :: openable as

theorem storeArgs_eq (c : Copy) (args : List Arg) :
    (storeArgs c args).1 = storeFiles c (openable args) := by
  induction args generalizing c with
  | nil => rfl
  | cons a args ih =>
    cases h : a.contents with
    | none =>
      simp only [storeArgs, openable, h]
      rfl
    | some data =>
      simp only [storeArgs, openable, h, ih]
      rfl

theorem storeArgs_stops (c : Copy) {args : List Arg} (h : ∃ a ∈ args, a.contents = none) :
    (storeArgs c args).2 = false := by
  induction args generalizing c with
  | nil => simp at h
  | cons a args ih =>
    cases hopen : a.contents with
    | none => simp only [storeArgs, hopen]
    | some data =>
      simp only [storeArgs, hopen]
      obtain ⟨b, hb, hnone⟩ := h
      rcases List.mem_cons.mp hb with rfl | hb
      · rw [hopen] at hnone
        exact absurd hnone (by simp)
      · exact ih _ ⟨b, hb, hnone⟩

/-- What a run leaves behind the directory. -/
theorem copy2myfs_of_ge (d : Disk) (bitoffset : ℕ) (args : List Arg) {s : ℕ} (h : 258 ≤ s) :
    copy2myfs d bitoffset args s = (storeFiles (startCopy d bitoffset) (openable args)).disk s := by
  rw [← storeArgs_eq, copy2myfs]
  split
  · exact writeBack_of_ge _ h
  · rfl

/-- A run that stops writes nothing back. -/
theorem copy2myfs_stops (d : Disk) (bitoffset : ℕ) {args : List Arg}
    (h : ∃ a ∈ args, a.contents = none) :
    copy2myfs d bitoffset args = (storeFiles (startCopy d bitoffset) (openable args)).disk := by
  rw [← storeArgs_eq, copy2myfs]
  simp only [storeArgs_stops _ h]
  rfl

/-! ## The bitmap alone -/

section Bitmap

variable {t D : ℕ} {c : Copy}

/-- What `bit_alloc` has given away after a file does not depend on the directory. -/
theorem storeFile_frontier (name data : List UInt8) (hf : Frontier c.bitmap t D)
    (hroom : dataAt (t + inodeCount data.length) (D + chunkCount data.length) ≤ NR_BLOCK) :
    Frontier (storeFile c name data).bitmap (t + inodeCount data.length)
      (D + chunkCount data.length) := by
  simp only [inodeCount, chunkCount, dataAt] at hroom
  obtain ⟨hret, -, hfront⟩ := hf.alloc_inode (by simp only [dataAt]; omega) c.bitoffset
  have hbegin : (beginFile c name data.length).bitmap = (allocInode c).bitmap ∧
      (beginFile c name data.length).bitoffset = (allocInode c).bitoffset := by
    simp only [beginFile]
    split <;> exact ⟨rfl, rfl⟩
  have hloop := storeChunks_induction (freeEntry c.direct) data
    (P := fun j c' v => AllocInv t D j (beginFile c name data.length) c' v)
    (fun j c' v hj ha => ha.step (by
      simp only [chunkCount, dataAt] at hj ⊢
      omega))
    (c := beginFile c name data.length) (v := ⟨emptyInode, 0, 0⟩)
    (AllocInv.start (by rw [hbegin.1]; exact hfront) (by rw [hbegin.2]; exact hret))
  have hcount : t + (1 + (chunkCount data.length - 1) / 128) = t + inodeCount data.length := by
    simp only [chunkCount, inodeCount, Nat.add_sub_cancel]
    omega
  rw [← hcount]
  exact hloop.frontier

end Bitmap

/-! ## A run -/

section Run

variable {files : List InFile} {img : Disk} {n k : ℕ} {c : Copy}

/-- **What is in use is kept.** The state of a run on the image `img` after the files before file
`k`, of which the first `n` were stored by earlier runs. -/
structure KeptInv (files : List InFile) (img : Disk) (n k : ℕ) (c : Copy) : Prop where
  le : n ≤ k
  frontier : Frontier c.bitmap (inodesBefore files k) (chunksBefore files k)
  /-- There are entries for the files still to come. -/
  entries : files.length - k ≤ (freeEntries c.direct).card
  /-- Boot block, bitmap and directory are as they were. -/
  head : ∀ s, 1 ≤ s → s ≤ 257 → c.disk s = img s
  kept : ∀ b, 257 ≤ b → b < NR_BLOCK → used (readBitmap img) b = true → c.disk (b + 1) = img (b + 1)

/-- **Storing a file.** -/
theorem KeptInv.step (h : KeptInv files img n k c)
    (himg : Frontier (readBitmap img) (inodesBefore files n) (chunksBefore files n))
    (hk : k < files.length) (hname : files[k].name.val.length < 24)
    (hzone : inodesBefore files files.length ≤ 31)
    (hroom : 288 + chunksBefore files files.length ≤ NR_BLOCK) :
    KeptInv files img n (k + 1) (storeFile c files[k].name.val files[k].data) := by
  have hroomk := (start_lt (room_of_zone hzone hroom) hk).1
  obtain ⟨hinode, hdata⟩ := inodeStart_eq hzone hk
  obtain ⟨hzk, -⟩ := footprint_le hk hk
  have hmono := @inodesBefore_mono files _ _ h.le
  have hmono' := @chunksBefore_mono files _ _ h.le
  have hentries := h.entries
  have hlt : freeEntry c.direct < NR_DIR_ENTRY :=
    freeEntry_lt_iff.mpr (Finset.nonempty_iff_ne_empty.mp (Finset.card_pos.mp (by omega)))
  obtain ⟨hfront, hdir, -, hkept, -⟩ := @storeFile_spec _ _ _ files[k].name.val _ files[k].data
    h.frontier hlt rfl hroomk
  -- the blocks that are written lie behind what the earlier files have been given
  have hbehind : ∀ b, b < 257 + inodesBefore files n ∨ 288 ≤ b ∧ b < 288 + chunksBefore files n →
      (storeFile c files[k].name.val files[k].data).disk (b + 1) = c.disk (b + 1) := by
    intro b hb
    have hstart : inodeAt (inodesBefore files k) (chunksBefore files k) =
        257 + inodesBefore files k := hinode
    have hstart' : dataAt (inodesBefore files k + 1) (chunksBefore files k) =
        288 + chunksBefore files k := hdata
    refine hkept b ?_ ?_
    · rw [hstart']
      omega
    · rw [hstart]
      omega
  refine ⟨Nat.le_succ_of_le h.le, ?_, ?_, fun s hs hs' => ?_, fun b hb hlt hused => ?_⟩
  · rw [inodesBefore_succ hk, chunksBefore_succ hk]
    exact hfront
  · have hcard := @card_freeEntries_fillEntry c.direct (freeEntry c.direct) files[k].data.length
      (inodeAt (inodesBefore files k) (chunksBefore files k)) files[k].name.val (by omega)
    rw [hdir]
    omega
  · have hblock := hbehind (s - 1) (.inl (by omega))
    rw [Nat.sub_add_cancel hs] at hblock
    rw [hblock, h.head s hs hs']
  · rw [himg b hlt, decide_eq_true_eq] at hused
    rw [hbehind b (by omega), h.kept b hb hlt (by rwa [himg b hlt, decide_eq_true_eq])]

/-- The files of a run, which come after `n` others. -/
theorem KeptInv.storeFiles {l : List InFile} (h : KeptInv files img n n c)
    (himg : Frontier (readBitmap img) (inodesBefore files n) (chunksBefore files n))
    (hl : files = files.take n ++ l) (hn : n ≤ files.length)
    (hnames : ∀ f ∈ l, f.name.val.length < 24)
    (hzone : inodesBefore files files.length ≤ 31)
    (hroom : 288 + chunksBefore files files.length ≤ NR_BLOCK) :
    KeptInv files img n (n + l.length) (OsLab.storeFiles c l) := by
  have hget : ∀ k, files[n + k]? = l[k]? := fun k => by
    have htake : (files.take n).length = n := List.length_take_of_le hn
    rw [hl, List.getElem?_append_right (by omega), htake, Nat.add_sub_cancel_left]
  refine storeFiles_induction (fun k hk c hc => ?_) (fun k _ => hget k) h
  refine hc.step himg hk (hnames _ ?_) hzone hroom
  have hmem := hget (k - n)
  rw [Nat.add_sub_cancel' hc.le, List.getElem?_eq_getElem hk] at hmem
  exact List.mem_of_getElem? hmem.symm

end Run

/-! ## Images and runs -/

/-- What `bit_alloc` has given away after a series of runs, whatever the names of the files. -/
theorem frontier_copyRuns (boot : Sector) (mem : ℕ → Sector) {runs : List (ℕ × List InFile)}
    {files post : List InFile} (hfiles : files = allFiles runs ++ post)
    (hroom : dataAt (inodesBefore files files.length) (chunksBefore files files.length) ≤
      NR_BLOCK) :
    Frontier (readBitmap (copyRuns boot mem runs)) (inodesBefore files (allFiles runs).length)
      (chunksBefore files (allFiles runs).length) :=
  copyRuns_induction
    (P := fun k c => Frontier c.bitmap (inodesBefore files k) (chunksBefore files k)) hfiles
    (fun k hk c hc => by
      rw [inodesBefore_succ hk, chunksBefore_succ hk]
      exact storeFile_frontier _ _ hc (start_lt hroom hk).1)
    (fun k c _ hc b hb => by
      rw [← hc b hb]
      exact used_writeBack c hb)
    (fun _ => Frontier.formatter boot mem) 0

/-- Every file has a data block. -/
theorem length_le_chunks (l : List InFile) :
    l.length ≤ (l.map fun f => chunkCount f.data.length).sum := by
  induction l with
  | nil => exact Nat.le_refl _
  | cons f l ih =>
    have hpos : 0 < chunkCount f.data.length := Nat.succ_pos _
    rw [List.length_cons, List.map_cons, List.sum_cons]
    omega

section Copy

variable {boot : Sector} {mem : ℕ → Sector} {runs : List (ℕ × List InFile)} {args : List Arg}

/-- **A run keeps what is in use**, stopped or not, before anything is written back. -/
theorem storeFiles_keeps
    (hinodes : ((allFiles runs ++ openable args).map fun f => inodeCount f.data.length).sum ≤ 31)
    (hentries : (openable args).length ≤ (freeEntries (copyRuns boot mem runs 257)).card)
    (hdata : ((openable args).map fun f => chunkCount f.data.length).sum ≤
      NR_BLOCK - (288 + ((allFiles runs).map fun f => chunkCount f.data.length).sum))
    (hnames : ∀ f ∈ openable args, f.name.val.length < 24) (bitoffset : ℕ) :
    (∀ s, 1 ≤ s → s ≤ 257 →
      (storeFiles (startCopy (copyRuns boot mem runs) bitoffset) (openable args)).disk s =
        copyRuns boot mem runs s) ∧
    ∀ b, 257 ≤ b → b < NR_BLOCK → used (readBitmap (copyRuns boot mem runs)) b = true →
      (storeFiles (startCopy (copyRuns boot mem runs) bitoffset) (openable args)).disk (b + 1) =
        copyRuns boot mem runs (b + 1) := by
  rcases Nat.eq_zero_or_pos (openable args).length with hnone | hpos
  · rw [List.length_eq_zero_iff.mp hnone]
    exact ⟨fun _ _ _ => rfl, fun _ _ _ _ => rfl⟩
  have hlen := length_le_chunks (openable args)
  obtain ⟨files, hfiles⟩ : ∃ files, files = allFiles runs ++ openable args := ⟨_, rfl⟩
  have htake : files.take (allFiles runs).length = allFiles runs := by
    rw [hfiles, List.take_left]
  have hfiles' : files = files.take (allFiles runs).length ++ openable args := by
    rw [htake, hfiles]
  have hlength : files.length = (allFiles runs).length + (openable args).length := by
    rw [hfiles, List.length_append]
  have hzone : inodesBefore files files.length ≤ 31 := by
    rw [inodesBefore, List.take_length, hfiles]
    exact hinodes
  have hroom : 288 + chunksBefore files files.length ≤ NR_BLOCK := by
    rw [chunksBefore, List.take_length, hfiles, List.map_append, List.sum_append]
    omega
  have himg := frontier_copyRuns boot mem hfiles (room_of_zone hzone hroom)
  have hstart : KeptInv files (copyRuns boot mem runs) (allFiles runs).length
      (allFiles runs).length (startCopy (copyRuns boot mem runs) bitoffset) := by
    refine ⟨Nat.le_refl _, himg, ?_, fun _ _ _ => rfl, fun _ _ _ _ => rfl⟩
    rw [hlength, Nat.add_sub_cancel_left]
    exact hentries
  have hend := hstart.storeFiles himg hfiles' (by omega) hnames hzone hroom
  exact ⟨hend.head, hend.kept⟩

end Copy

/-- A file that is laid out on one disk is on another with the same directory, bitmap and blocks. -/
theorem LaidOut.congr {img img' : Disk} {name data : List UInt8} {base d : ℕ}
    (h : LaidOut img name data base d) (hblocks : ∀ b ∈ fileBlocks base d data.length, b < NR_BLOCK)
    (hhead : ∀ s, 1 ≤ s → s ≤ 257 → img' s = img s)
    (hkept : ∀ b, 257 ≤ b → b < NR_BLOCK → used (readBitmap img) b = true →
      img' (b + 1) = img (b + 1)) : LaidOut img' name data base d := by
  have hdir : img' 257 = img 257 := hhead 257 (by decide) (by decide)
  have hblock : ∀ b ∈ fileBlocks base d data.length, img' (b + 1) = img (b + 1) := fun b hb => by
    rcases Nat.lt_or_ge b 257 with hlt | hge
    · exact hhead _ (by omega) (by omega)
    · exact hkept b hge (hblocks b hb) (h.marked b hb)
  have hinode : ∀ i < inodeCount data.length, img' (base + i + 1) = img (base + i + 1) :=
    fun i hi => hblock _ (by
      simp only [fileBlocks, Finset.mem_union, Finset.mem_Ico]
      omega)
  refine ⟨?_, fun j hj => ?_, fun j hj hj' => ?_, fun j hj i hi => ?_, fun b hb => ?_⟩
  · rw [hdir]
    exact h.directory
  · rw [hinode _ (by simp only [inodeCount]; omega), h.entry j hj]
  · rw [hinode _ (by simp only [inodeCount] at hj' ⊢; omega), h.rest j hj hj']
  · rw [hblock (d + j) (by
      simp only [fileBlocks, Finset.mem_union, Finset.mem_Ico, chunkCount]
      omega), h.contents j hj i hi]
  · have hmask : b / 8 < BITMAP_SIZE := by
      have hlt := hblocks b hb
      simp only [NR_BLOCK] at hlt
      omega
    rw [← h.marked b hb, used, used,
      readBitmap_congr (fun s hs hlt => hhead s hs (by omega)) hmask]

/-- **A copy damages nothing.** For every image left by a series of runs and every further run whose
inodes, with all earlier ones, fit in the inode zone, whose files fit in the free directory entries
and in what is left of the data zone, and whose names fit: no block in use is changed, and if an
argument cannot be opened, bitmap and directory are unchanged and every file laid out on the disk is
laid out as before. -/
theorem copy_keeps_used (boot : Sector) (mem : ℕ → Sector) (runs : List (ℕ × List InFile))
    (bitoffset : ℕ) (args : List Arg)
    (hinodes : ((allFiles runs ++ openable args).map fun f => inodeCount f.data.length).sum ≤ 31)
    (hentries : (openable args).length ≤ (freeEntries (copyRuns boot mem runs 257)).card)
    (hdata : ((openable args).map fun f => chunkCount f.data.length).sum ≤
      NR_BLOCK - (288 + ((allFiles runs).map fun f => chunkCount f.data.length).sum))
    (hnames : ∀ f ∈ openable args, f.name.val.length < 24) :
    (∀ b, 257 ≤ b → b < NR_BLOCK → used (readBitmap (copyRuns boot mem runs)) b = true →
      copy2myfs (copyRuns boot mem runs) bitoffset args (b + 1) = copyRuns boot mem runs (b + 1)) ∧
    ((∃ a ∈ args, a.contents = none) →
      (∀ s, 1 ≤ s → s ≤ 257 →
        copy2myfs (copyRuns boot mem runs) bitoffset args s = copyRuns boot mem runs s) ∧
      ∀ name data base d, LaidOut (copyRuns boot mem runs) name data base d →
        (∀ b ∈ fileBlocks base d data.length, b < NR_BLOCK) →
          LaidOut (copy2myfs (copyRuns boot mem runs) bitoffset args) name data base d) := by
  obtain ⟨hhead, hkept⟩ := storeFiles_keeps hinodes hentries hdata hnames bitoffset
  refine ⟨fun b hb hlt hused => ?_, fun hstops => ?_⟩
  · rw [copy2myfs_of_ge _ _ _ (by omega), hkept b hb hlt hused]
  · rw [copy2myfs_stops _ _ hstops]
    exact ⟨hhead, fun name data base d hlaid hblocks => hlaid.congr hblocks hhead hkept⟩

/-! ### A stored file and a run that stops -/

theorem noNul_first : (0 : UInt8) ∉ [(97 : UInt8)] := by decide

theorem noNul_second : (0 : UInt8) ∉ [(98 : UInt8)] := by decide

theorem noNul_third : (0 : UInt8) ∉ [(99 : UInt8)] := by decide

/-- A run that stores one file. -/
def firstRun : List (ℕ × List InFile) := [(0, [⟨⟨[97], noNul_first⟩, [1, 2, 3]⟩])]

/-- The arguments of a run that stores a second file and stops at a third. -/
def stoppedArgs : List Arg := [⟨⟨[98], noNul_second⟩, some [4]⟩, ⟨⟨[99], noNul_third⟩, none⟩]

theorem firstRun_image : Image (copyRuns zeroSector (fun _ => zeroSector) firstRun)
    (allFiles firstRun) :=
  image_copyRuns zeroSector (fun _ => zeroSector) (by decide) (by decide) (by decide)

theorem firstRun_entries :
    (openable stoppedArgs).length ≤
      (freeEntries (copyRuns zeroSector (fun _ => zeroSector) firstRun 257)).card :=
  Finset.card_pos.mpr ⟨1, mem_freeEntries.mpr ⟨by decide,
    (firstRun_image.free 1 (by decide) (by decide)).offset⟩⟩

theorem firstRun_laidOut :
    LaidOut (copyRuns zeroSector (fun _ => zeroSector) firstRun) [97] [1, 2, 3] 257 288 :=
  firstRun_image.laidOut (by decide) (by decide) (by decide) (by decide) (k := 0) (by decide)

theorem copy_keeps_used_stopped :
    LaidOut (copy2myfs (copyRuns zeroSector (fun _ => zeroSector) firstRun) 0 stoppedArgs) [97]
      [1, 2, 3] 257 288 :=
  ((copy_keeps_used zeroSector (fun _ => zeroSector) firstRun 0 stoppedArgs (by decide)
    firstRun_entries (by decide) (by decide)).2
      ⟨_, List.mem_cons_of_mem _ List.mem_cons_self, rfl⟩).2
    [97] [1, 2, 3] 257 288 firstRun_laidOut (by decide)

end OsLab
