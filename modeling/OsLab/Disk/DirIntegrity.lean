import OsLab.Disk.Runs

/-!
# The directory, entry by entry

A file is put in the first entry without an inode. Its name is copied there whatever its length, and
what is behind the name stays as it was: a name of 24 characters or more runs into the size, which
is written after it, and into the next entries, and a shorter one ends where the byte behind it
happens to be zero. Nothing asks whether an entry of that name is there already, and nothing asks
whether `bit_alloc` has found a block.

All this is about one turn. A turn that goes well changes a free entry only, so what a later search
finds is settled in the turn of the file it is for (`EntriesKept`).

## Main definitions

* `TakesEntry` — entry `e` is given to the file
* `Refused` — the file is refused: its name does not fit or no entry is free, and the directory is
  as before
* `EntryFits` — when a turn goes well
* `EntriesKept` — the used entries stay what they are

## Main results

* `turnOutcome_iff` — one turn
* `directoryIntegrity_iff` — a run
-/

namespace OsLab

/-- **Entry `e` is given to the file.** It was free, and holds the name with its terminator, the
size and the number of the block that the file's first `bit_alloc` has marked. No other entry
changes. -/
structure TakesEntry (c c' : Copy) (f : InFile) (e : ℕ) : Prop where
  lt : e < NR_DIR_ENTRY
  free : inodeOffset c.direct e = minusOne
  fits : f.name.val.length < 24
  name : strcmpEq (filename c'.direct e) f.name.val = true
  size : (fileSize c'.direct e).toNat = f.data.length
  inode : used c.bitmap (inodeOffset c'.direct e).toNat = false ∧
    used (allocInode c).bitmap (inodeOffset c'.direct e).toNat = true
  others : ∀ i < 512, i < 32 * e ∨ 32 * e + 32 ≤ i → c'.direct.get i = c.direct.get i

/-- The file is refused: its name does not fit or no entry is free, and the directory is as
before. -/
def Refused (c c' : Copy) (f : InFile) : Prop :=
  (24 ≤ f.name.val.length ∨ freeEntries c.direct = ∅) ∧ c'.direct = c.direct

/-- A block is left for an inode. -/
def InodeLeft (c : Copy) : Prop := ∃ b, 256 ≤ b ∧ b < NR_BLOCK ∧ used c.bitmap b = false

/-- **When a turn goes well.** No entry is free; or the name is shorter than 24 characters, the byte
it will end at is zero, no entry before the first free one has the name, the size is a 32-bit number
and a block is left for the inode. (A name that is too long does no harm if, with no block left,
what is written is what is there.) -/
def EntryFits (c : Copy) (f : InFile) : Prop :=
  freeEntries c.direct = ∅ ∨
    (f.name.val.length < 24 ∧ f.data.length < 2 ^ 32 ∧ InodeLeft c ∧
      filename c.direct (freeEntry c.direct) f.name.val.length = 0 ∧
        ∀ e < freeEntry c.direct, strcmpEq (filename c.direct e) f.name.val = false) ∨
    (24 ≤ f.name.val.length ∧ ¬InodeLeft c ∧
      fillEntry c.direct (freeEntry c.direct) f.name.val f.data.length (allocInode c).bitoffset =
        c.direct)

/-! ## What a turn does to the directory -/

section Turn

variable {c : Copy} {f : InFile} {e : ℕ}

@[simp] theorem direct_storeChunks (index : ℕ) (c : Copy) (v : FileVars) (data : List UInt8) :
    (storeChunks index c v data).1.direct = c.direct :=
  storeChunks_induction index data (P := fun _ c' _ => c'.direct = c.direct)
    (fun j c' v' _ h => by
      rw [← h, storeChunk]
      split <;> rfl)
    rfl

/-- Only the first free entry is filled, if there is one. -/
theorem direct_storeFile (c : Copy) (name data : List UInt8) :
    (storeFile c name data).direct =
      if freeEntry c.direct < NR_DIR_ENTRY then
        fillEntry c.direct (freeEntry c.direct) name data.length (allocInode c).bitoffset
      else c.direct := by
  have hwrite : (storeFile c name data).direct = (beginFile c name data.length).direct := by
    simp only [storeFile, writeInode]
    exact direct_storeChunks ..
  have hdirect : (allocInode c).direct = c.direct := rfl
  simp only [hwrite, beginFile, hdirect]
  split <;> rfl

/-- With a block left, the first `bit_alloc` returns it and marks it. -/
theorem allocInode_of_left (h : InodeLeft c) :
    ∃ b < NR_BLOCK, (allocInode c).bitoffset = b ∧ used c.bitmap b = false ∧
      used (allocInode c).bitmap = Function.update (used c.bitmap) b true := by
  obtain ⟨b, hb, hlt, hclear⟩ := h
  have hex : ∃ b, 256 ≤ b ∧ used c.bitmap b = false := ⟨b, hb, hclear⟩
  have hfirst := Nat.find_spec hex
  have hle : Nat.find hex ≤ b := Nat.find_min' hex ⟨hb, hclear⟩
  have hfit : FirstFit (used c.bitmap) (8 * AllocMode.alloc_inode.base) (Nat.find hex) := by
    simp only [AllocMode.base, BITMAP_USED_BYTE]
    refine ⟨hfirst.1, hfirst.2, fun j hj hjlt => ?_⟩
    have hmin := Nat.find_min hex hjlt
    simp only [not_and, Bool.not_eq_false] at hmin
    exact hmin (by omega)
  obtain ⟨hret, hused⟩ := bitAlloc_eq c.bitoffset hfit (by omega)
  exact ⟨Nat.find hex, by omega, hret, hfirst.2, hused⟩

/-- Without one, it marks nothing. -/
theorem bitmap_allocInode (h : ¬InodeLeft c) : (allocInode c).bitmap = c.bitmap := by
  refine bitAlloc_of_full c.bitoffset fun b hb hlt => ?_
  simp only [AllocMode.base, BITMAP_USED_BYTE] at hb
  by_contra hclear
  exact h ⟨b, by omega, hlt, Bool.eq_false_iff.mpr hclear⟩

/-- A block that the first `bit_alloc` has marked is the one it returned. -/
theorem allocInode_new {b : ℕ} (hclear : used c.bitmap b = false)
    (hused : used (allocInode c).bitmap b = true) :
    InodeLeft c ∧ (allocInode c).bitoffset = b ∧ b < NR_BLOCK := by
  by_cases hleft : InodeLeft c
  · obtain ⟨b', hlt, hret, -, hupdate⟩ := allocInode_of_left hleft
    have heq : b = b' := by
      by_contra hne
      rw [hupdate, Function.update_of_ne hne, hclear] at hused
      exact absurd hused (by decide)
    rw [heq]
    exact ⟨hleft, hret, hlt⟩
  · rw [bitmap_allocInode hleft, hclear] at hused
    exact absurd hused (by decide)

/-- **The entry a file is given.** -/
theorem takesEntry_iff (hfree : freeEntry c.direct < NR_DIR_ENTRY)
    (hname : f.name.val.length < 24) :
    TakesEntry c (storeFile c f.name.val f.data) f e ↔
      e = freeEntry c.direct ∧ f.data.length < 2 ^ 32 ∧ InodeLeft c ∧
        filename c.direct (freeEntry c.direct) f.name.val.length = 0 := by
  have hdirect := direct_storeFile c f.name.val f.data
  rw [if_pos hfree] at hdirect
  have hsize : fileSize (storeFile c f.name.val f.data).direct (freeEntry c.direct) =
      UInt32.ofNat f.data.length := by
    rw [hdirect]
    exact fileSize_fillEntry hfree
  constructor
  · intro h
    obtain ⟨hleft, hret, hlt⟩ := allocInode_new h.inode.1 h.inode.2
    have heq : e = freeEntry c.direct := by
      by_contra hne
      have hkept :
          inodeOffset (storeFile c f.name.val f.data).direct e = inodeOffset c.direct e := by
        rw [hdirect]
        exact ByteBlock.get32_congr fun i hlo hi =>
          fillEntry_get_of_ne (by omega) hne (by omega) (by omega)
      rw [hkept, h.free] at hlt
      exact absurd hlt (by decide)
    refine ⟨heq, ?_, hleft, ?_⟩
    · have hbytes := h.size
      rw [heq, hsize, UInt32.toNat_ofNat'] at hbytes
      omega
    · have hfound := h.name
      rw [heq, hdirect] at hfound
      exact (name_fillEntry_iff hfree hname).mp hfound
  · rintro ⟨rfl, hlong, hleft, hend⟩
    obtain ⟨b, hlt, hret, hclear, hupdate⟩ := allocInode_of_left hleft
    have hoffset : (inodeOffset (storeFile c f.name.val f.data).direct (freeEntry c.direct)).toNat =
        b := by
      rw [hdirect, inodeOffset_fillEntry hfree, hret, UInt32.toNat_ofNat']
      simp only [NR_BLOCK, BITMAP_SIZE] at hlt
      omega
    refine ⟨hfree, (freeEntry_spec hfree).1, hname, ?_, ?_, ?_, fun i hi hout => ?_⟩
    · rw [hdirect]
      exact (name_fillEntry_iff hfree hname).mpr hend
    · rw [hsize, UInt32.toNat_ofNat', Nat.mod_eq_of_lt hlong]
    · rw [hoffset, hupdate, Function.update_self]
      exact ⟨hclear, rfl⟩
    · rw [hdirect]
      exact @fillEntry_get_of_ne _ _ _ _ _ (i / 32) i (by omega) (by omega) (by omega) (by omega)

/-- After its turn the entries up to the file's own are used. -/
theorem TakesEntry.used_le (h : TakesEntry c (storeFile c f.name.val f.data) f e) :
    ∀ e' ≤ e, inodeOffset (storeFile c f.name.val f.data).direct e' ≠ minusOne := by
  have hfree : freeEntry c.direct < NR_DIR_ENTRY :=
    freeEntry_lt_iff.mpr fun hnone =>
      absurd (mem_freeEntries.mpr ⟨h.lt, h.free⟩) (by rw [hnone]; simp)
  obtain ⟨rfl, -⟩ := (takesEntry_iff hfree h.fits).mp h
  have hlt := h.lt
  simp only [NR_DIR_ENTRY] at hlt
  intro e' he' hminus
  rcases Nat.eq_or_lt_of_le he' with rfl | hbelow
  · obtain ⟨-, -, hblock⟩ := allocInode_new h.inode.1 h.inode.2
    rw [hminus] at hblock
    exact absurd hblock (by decide)
  · refine (freeEntry_spec hfree).2 e' hbelow ?_
    rw [← hminus]
    exact ByteBlock.get32_congr fun i hlo hi => (h.others i (by omega) (.inl (by omega))).symm

/-- **One turn.** The file is refused, or given an entry where a search finds it, exactly if the
turn goes well. -/
theorem turnOutcome_iff :
    (Refused c (storeFile c f.name.val f.data) f ∨
      ∃ e, TakesEntry c (storeFile c f.name.val f.data) f e ∧
        lookup (storeFile c f.name.val f.data).direct f.name.val = e) ↔ EntryFits c f := by
  have hdirect := direct_storeFile c f.name.val f.data
  by_cases hfree : freeEntry c.direct < NR_DIR_ENTRY
  · have hsome := freeEntry_lt_iff.mp hfree
    rw [if_pos hfree] at hdirect
    rcases Nat.lt_or_ge f.name.val.length 24 with hname | hname
    · have hlookup : lookup (storeFile c f.name.val f.data).direct f.name.val = freeEntry c.direct ↔
          filename c.direct (freeEntry c.direct) f.name.val.length = 0 ∧
            ∀ e < freeEntry c.direct, strcmpEq (filename c.direct e) f.name.val = false := by
        rw [lookup_eq_iff hfree, hdirect, name_fillEntry_iff hfree hname]
        refine and_congr_right' (forall₂_congr fun e he => ?_)
        rw [name_fillEntry_of_ne (by omega) hname (Nat.ne_of_lt he)]
      constructor
      · rintro (⟨hrefused, -⟩ | ⟨e, htakes, hfound⟩)
        · rcases hrefused with hlong | hnone
          · omega
          · exact absurd hnone hsome
        · obtain ⟨rfl, hsize, hleft, hend⟩ := (takesEntry_iff hfree hname).mp htakes
          exact .inr (.inl ⟨hname, hsize, hleft, hend, (hlookup.mp hfound).2⟩)
      · rintro (hnone | ⟨-, hsize, hleft, hend, hbefore⟩ | ⟨hlong, -⟩)
        · exact absurd hnone hsome
        · exact .inr ⟨_, (takesEntry_iff hfree hname).mpr ⟨rfl, hsize, hleft, hend⟩,
            hlookup.mpr ⟨hend, hbefore⟩⟩
        · omega
    · -- the entry is filled all the same
      constructor
      · rintro (⟨-, hsame⟩ | ⟨e, htakes, -⟩)
        · refine .inr (.inr ⟨hname, fun hleft => ?_, hdirect.symm.trans hsame⟩)
          obtain ⟨b, hlt, hret, -, -⟩ := allocInode_of_left hleft
          have hoffset : inodeOffset (storeFile c f.name.val f.data).direct (freeEntry c.direct) =
              minusOne := by
            rw [hsame]
            exact (freeEntry_spec hfree).1
          rw [hdirect, inodeOffset_fillEntry hfree, hret] at hoffset
          exact ofNat_ne_minusOne hlt hoffset
        · have hfits := htakes.fits
          omega
      · rintro (hnone | ⟨hshort, -⟩ | ⟨-, -, hsame⟩)
        · exact absurd hnone hsome
        · omega
        · exact .inl ⟨.inl hname, hdirect.trans hsame⟩
  · have hnone : freeEntries c.direct = ∅ := by
      by_contra hsome
      exact hfree (freeEntry_lt_iff.mpr hsome)
    rw [if_neg hfree] at hdirect
    exact ⟨fun _ => .inl hnone, fun _ => .inl ⟨.inr hnone, hdirect⟩⟩

end Turn

/-! ## From turn to turn -/

/-- The used entries stay what they are. -/
def EntriesKept (direct direct' : Sector) : Prop :=
  ∀ e < NR_DIR_ENTRY, inodeOffset direct e ≠ minusOne →
    ∀ i, 32 * e ≤ i → i < 32 * e + 32 → direct'.get i = direct.get i

namespace EntriesKept

variable {direct direct' direct'' : Sector}

theorem refl (direct : Sector) : EntriesKept direct direct := fun _ _ _ _ _ _ => rfl

theorem inodeOffset_eq (h : EntriesKept direct direct') {e : ℕ} (he : e < NR_DIR_ENTRY)
    (hused : inodeOffset direct e ≠ minusOne) : inodeOffset direct' e = inodeOffset direct e :=
  ByteBlock.get32_congr fun i hlo hi => h e he hused i (by omega) (by omega)

theorem trans (h : EntriesKept direct direct') (h' : EntriesKept direct' direct'') :
    EntriesKept direct direct'' := fun e he hused i hlo hi => by
  rw [h' e he (by rwa [h.inodeOffset_eq he hused]) i hlo hi, h e he hused i hlo hi]

/-- Where the entries up to the one that is found are used, a search finds the same. -/
theorem lookup_eq_iff (h : EntriesKept direct direct') {k : ℕ} (hk : k < NR_DIR_ENTRY)
    (hused : ∀ e ≤ k, inodeOffset direct e ≠ minusOne) {q : List UInt8} (hq : q.length < 24) :
    lookup direct' q = k ↔ lookup direct q = k := by
  have hname : ∀ e ≤ k, strcmpEq (filename direct' e) q = strcmpEq (filename direct e) q :=
    fun e he => strcmpEq_congr fun i hi =>
      h e (Nat.lt_of_le_of_lt he hk) (hused e he) _ (by omega) (by omega)
  rw [OsLab.lookup_eq_iff hk, OsLab.lookup_eq_iff hk, hname k (Nat.le_refl k)]
  refine and_congr_right' (forall₂_congr fun e he => ?_)
  rw [hname e (Nat.le_of_lt he)]

end EntriesKept

/-- A turn that goes well changes a free entry, if any. -/
theorem entriesKept_of_outcome {c c' : Copy} {f : InFile}
    (h : Refused c c' f ∨ ∃ e, TakesEntry c c' f e) : EntriesKept c.direct c'.direct := by
  rcases h with ⟨-, hsame⟩ | ⟨e, htakes⟩
  · rw [hsame]
    exact EntriesKept.refl _
  · intro e' he' hused i hlo hi
    have hne : e' ≠ e := fun heq => hused (heq ▸ htakes.free)
    simp only [NR_DIR_ENTRY] at he'
    exact htakes.others i (by omega) (by omega)

/-! ## A run -/

section Run

variable {d : Disk} {bitoffset : ℕ} {files : List InFile}

/-- The state of `copy2myfs` before file `k`. -/
def copyBefore (d : Disk) (bitoffset : ℕ) (files : List InFile) (k : ℕ) : Copy :=
  storeFiles (startCopy d bitoffset) (files.take k)

theorem copyBefore_succ {k : ℕ} (hk : k < files.length) :
    copyBefore d bitoffset files (k + 1) =
      storeFile (copyBefore d bitoffset files k) files[k].name.val files[k].data := by
  rw [copyBefore, List.take_add_one, List.getElem?_eq_getElem hk, storeFiles, List.foldl_append]
  rfl

/-- The directory on the disk after the run. -/
theorem copy2myfs_dir : copy2myfs d bitoffset (files.map InFile.arg) 257 =
    (copyBefore d bitoffset files files.length).direct := by
  rw [copy2myfs_arg, copyBefore, List.take_length]
  exact Disk.write_self ..

/-- **Directory integrity.** In its turn every file is refused, or is given one free entry; and that
is the entry a search for its name finds in the directory that is written back. -/
def DirectoryIntegrity (d : Disk) (bitoffset : ℕ) (files : List InFile) : Prop :=
  ∀ (k : ℕ) (hk : k < files.length),
    Refused (copyBefore d bitoffset files k) (copyBefore d bitoffset files (k + 1)) files[k] ∨
      ∃ e, TakesEntry (copyBefore d bitoffset files k) (copyBefore d bitoffset files (k + 1))
          files[k] e ∧
        lookup (copy2myfs d bitoffset (files.map InFile.arg) 257) files[k].name.val = e

theorem entriesKept_copyBefore
    (h : ∀ k < files.length, EntriesKept (copyBefore d bitoffset files k).direct
      (copyBefore d bitoffset files (k + 1)).direct) {k m : ℕ} (hkm : k ≤ m)
    (hm : m ≤ files.length) :
    EntriesKept (copyBefore d bitoffset files k).direct
      (copyBefore d bitoffset files m).direct := by
  induction m, hkm using Nat.le_induction with
  | base => exact EntriesKept.refl _
  | succ m _ ih => exact (ih (by omega)).trans (h m (by omega))

/-- What is found at the end is what is found after the file's own turn. -/
theorem lookup_at_end
    (h : ∀ k < files.length, EntriesKept (copyBefore d bitoffset files k).direct
      (copyBefore d bitoffset files (k + 1)).direct) {k e : ℕ} (hk : k < files.length)
    (htakes : TakesEntry (copyBefore d bitoffset files k) (copyBefore d bitoffset files (k + 1))
      files[k] e) :
    lookup (copy2myfs d bitoffset (files.map InFile.arg) 257) files[k].name.val = e ↔
      lookup (copyBefore d bitoffset files (k + 1)).direct files[k].name.val = e := by
  have hused :
      ∀ e' ≤ e, inodeOffset (copyBefore d bitoffset files (k + 1)).direct e' ≠ minusOne := by
    rw [copyBefore_succ hk] at htakes ⊢
    exact htakes.used_le
  rw [copy2myfs_dir]
  exact (entriesKept_copyBefore h hk (Nat.le_refl _)).lookup_eq_iff htakes.lt hused htakes.fits

/-- **A run keeps the directory in order if every turn goes well.** -/
theorem directoryIntegrity_iff_fits : DirectoryIntegrity d bitoffset files ↔
    ∀ (k : ℕ) (hk : k < files.length), EntryFits (copyBefore d bitoffset files k) files[k] := by
  have hturn : ∀ (k : ℕ) (hk : k < files.length),
      (Refused (copyBefore d bitoffset files k) (copyBefore d bitoffset files (k + 1)) files[k] ∨
        ∃ e, TakesEntry (copyBefore d bitoffset files k) (copyBefore d bitoffset files (k + 1))
            files[k] e ∧
          lookup (copyBefore d bitoffset files (k + 1)).direct files[k].name.val = e) ↔
        EntryFits (copyBefore d bitoffset files k) files[k] := fun k hk => by
    rw [copyBefore_succ hk]
    exact turnOutcome_iff
  constructor
  · intro h k hk
    have hkept : ∀ k < files.length,
        EntriesKept (copyBefore d bitoffset files k).direct
          (copyBefore d bitoffset files (k + 1)).direct := fun k hk =>
      entriesKept_of_outcome ((h k hk).imp_right (Exists.imp fun _ => And.left))
    refine (hturn k hk).mp ((h k hk).imp_right ?_)
    rintro ⟨e, htakes, hfound⟩
    exact ⟨e, htakes, (lookup_at_end hkept hk htakes).mp hfound⟩
  · intro h k hk
    have hkept : ∀ k < files.length,
        EntriesKept (copyBefore d bitoffset files k).direct
          (copyBefore d bitoffset files (k + 1)).direct := fun k hk =>
      entriesKept_of_outcome (((hturn k hk).mpr (h k hk)).imp_right (Exists.imp fun _ => And.left))
    refine ((hturn k hk).mpr (h k hk)).imp_right ?_
    rintro ⟨e, htakes, hfound⟩
    exact ⟨e, htakes, (lookup_at_end hkept hk htakes).mpr hfound⟩

end Run

/-- **When the directory stays in order.** For every image and every list of files, whatever their
names: each is refused with the directory unchanged or given one free entry with its name, size and
first inode, no other entry changes, and its name is found there at the end, if and only if every
turn goes well. -/
theorem directoryIntegrity_iff (d : Disk) (bitoffset : ℕ) (files : List InFile) :
    DirectoryIntegrity d bitoffset files ↔
      ∀ (k : ℕ) (hk : k < files.length), EntryFits (copyBefore d bitoffset files k) files[k] :=
  directoryIntegrity_iff_fits

theorem noNul_full : (0 : UInt8) ∉ List.replicate 24 (97 : UInt8) := by simp

/-- A file whose name fills the field. -/
def fullName : InFile := ⟨⟨List.replicate 24 97, noNul_full⟩, []⟩

/-- **A name of 24 characters is not refused.** -/
theorem fullName_not_integrity :
    fullName.name.val ≠ [] ∧
      ¬DirectoryIntegrity (formatter zeroSector fun _ => zeroSector) 0 [fullName] := by
  refine ⟨by decide, fun h => ?_⟩
  have hfits := directoryIntegrity_iff_fits.mp h 0 (by decide)
  have hdir : (copyBefore (formatter zeroSector fun _ => zeroSector) 0 [fullName] 0).direct =
      formatDir NR_DIR_ENTRY := formatter_dir zeroSector fun _ => zeroSector
  have hlength : fullName.name.val.length = 24 := List.length_replicate ..
  rcases hfits with hnone | ⟨hshort, -⟩ | ⟨-, hfull, -⟩
  · have hmem : (0 : ℕ) ∈ freeEntries (formatDir NR_DIR_ENTRY) :=
      mem_freeEntries.mpr ⟨by decide, (freeSlot_formatDir (by decide)).offset⟩
    rw [hdir] at hnone
    rw [hnone] at hmem
    exact absurd hmem (Finset.notMem_empty 0)
  · exact absurd hshort (by
      show ¬fullName.name.val.length < 24
      omega)
  · refine hfull ⟨257, by decide, by decide, ?_⟩
    exact (used_formatter zeroSector (fun _ => zeroSector) (by decide)).trans (by decide)

end OsLab
