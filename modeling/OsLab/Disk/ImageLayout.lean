import OsLab.Disk.FileLayout
import Mathlib.Order.Interval.Finset.Nat

/-!
# The image `copy2myfs` leaves

`RunInv` describes the state when the last file has been stored. Writing bitmap and directory
back touches blocks `0 … 256` only, so the files are untouched and the on-disk bitmap and
directory are the ones in memory: `Image` is that description of the finished image, and
`copy2myfs_layout` reads the layout the loaders count on off it.

## Main definitions

* `Image` — a finished image holding `files`
* `LaidOut` — the file `name` with contents `data` is laid out from block `base` and block `d` on

## Main results

* `image_copy2myfs` — a run leaves an image
* `Image.laidOut` — the files of an image are where they are meant to be
* `copy2myfs_layout` — both together
-/

namespace OsLab

variable {files : List InFile}

/-- A finished image holding `files`. -/
structure Image (img : Disk) (files : List InFile) : Prop where
  entry : ∀ (i : ℕ) (hi : i < files.length), IsEntry (img 257) i files[i].name.val
    files[i].data.length (inodeStart files i)
  free : ∀ e, files.length ≤ e → e < NR_DIR_ENTRY → FreeSlot (img 257) e
  inode : ∀ (i : ℕ) (hi : i < files.length),
    InodesFit (inodesBefore files i) files[i].data.length →
      StoredInode img (inodeStart files i) (dataStart files i) files[i].data.length
  stored : ∀ (i : ℕ) (hi : i < files.length),
    InodesFit (inodesBefore files i) files[i].data.length → Untouched files i files.length →
      Stored img (inodeStart files i) (dataStart files i) files[i].data
  /-- An inode that was put on the data of an earlier file is still there. -/
  lost : ∀ (i s b : ℕ) (_ : i < files.length) (hs : s < files.length), i < s →
    b < inodeCount files[s].data.length → inodeStart files s + b = dataStart files i →
      dataBlockOffset (img (dataStart files i + 1)) 0 =
        UInt32.ofNat (dataNo (inodesBefore files s) (chunksBefore files s) (128 * b))
  frontier : Frontier (readBitmap img) (inodesBefore files files.length)
    (chunksBefore files files.length)

theorem le_dataStart (i : ℕ) : 288 ≤ dataStart files i := by
  rw [dataStart, dataAt]
  omega

theorem le_inodeStart (i : ℕ) : 257 ≤ inodeStart files i := by
  rw [inodeStart, inodeAt, dataAt]
  split <;> omega

/-- **The finished image.** -/
theorem image_copy2myfs (boot : Sector) (mem : ℕ → Sector) (bitoffset : ℕ)
    (hlen : files.length ≤ NR_DIR_ENTRY) (hshort : ∀ f ∈ files, f.name.val.length < 24)
    (hroom : dataAt (inodesBefore files files.length) (chunksBefore files files.length) ≤
      NR_BLOCK) :
    Image (copy2myfs (formatter boot mem) bitoffset (files.map InFile.arg)) files := by
  have h := RunInv.storeFiles boot mem bitoffset hlen hshort hroom
  rw [copy2myfs_arg]
  set c := storeFiles (startCopy (formatter boot mem) bitoffset) files
  have hsame : ∀ s, 258 ≤ s → ((writeBitmap c.disk c.bitmap).write 257 c.direct) s = c.disk s :=
    fun s hs => by rw [Disk.write_of_ne _ (by omega), writeBitmap_of_ge (by omega)]
  refine ⟨fun i hi => ?_, fun e he he' => ?_, fun i hi hfit => ?_, fun i hi hfit hun => ?_,
    fun i s b hi hs his hb hon => ?_, ?_⟩
  · rw [Disk.write_self]
    exact h.entry i hi hi
  · rw [Disk.write_self]
    exact h.free e he he'
  · have hinode := @le_inodeStart files i
    exact (h.inode i hi hi hfit).congr fun b _ => hsame _ (by omega)
  · have hinode := @le_inodeStart files i
    have hdata := @le_dataStart files i
    exact (h.stored i hi hi hfit hun).congr (fun b _ => hsame _ (by omega))
      fun j _ => hsame _ (by omega)
  · have hdata := @le_dataStart files i
    rw [hsame _ (by omega), h.lost i s b hi hs his hs hb hon]
  · intro b hb
    have hmask : b / 8 < BITMAP_SIZE := by simp only [NR_BLOCK] at hb; omega
    have hread := (readBitmap_congr
      (fun s _ hs => Disk.write_of_ne (d := writeBitmap c.disk c.bitmap) c.direct
        (by omega : s ≠ 257)) hmask).trans (readBitmap_writeBitmap hmask)
    rw [← h.frontier b hb, used, used, hread]

/-- While the inode zone lasts there is room for the data as long as it fits behind the zone. -/
theorem room_of_zone (hzone : inodesBefore files files.length ≤ 31)
    (hroom : 288 + chunksBefore files files.length ≤ NR_BLOCK) :
    dataAt (inodesBefore files files.length) (chunksBefore files files.length) ≤ NR_BLOCK := by
  rw [dataAt]
  omega

/-- While the inode zone lasts every file is where the two zones were filled to. -/
theorem Image.stored_of_zone {img : Disk} (h : Image img files)
    (hzone : inodesBefore files files.length ≤ 31) {k : ℕ} (hk : k < files.length) :
    Stored img (257 + inodesBefore files k) (288 + chunksBefore files k) files[k].data := by
  obtain ⟨hinode, hdata⟩ := inodeStart_eq hzone hk
  obtain ⟨hzk, -⟩ := footprint_le hk hk
  rw [← hinode, ← hdata]
  exact h.stored k hk (.inr (by omega)) (untouched_of_zone hzone hk _)

/-- An entry that a search for the name of file `k` finds carries that name. -/
theorem Image.name_eq {img : Disk} (h : Image img files) {e k : ℕ} (he : e < files.length)
    (hk : k < files.length) (hmatch : strcmpEq (filename (img 257) e) files[k].name.val = true) :
    files[e].name = files[k].name :=
  Subtype.ext (strcmpEq_trans files[e].name.property files[k].name.property (h.entry e he).name
    hmatch)

/-- Only the entry of file `k` carries its name. -/
theorem Image.name_inj {img : Disk} (h : Image img files)
    (hdistinct : (files.map InFile.name).Nodup) {e k : ℕ} (he : e < files.length)
    (hk : k < files.length) (hmatch : strcmpEq (filename (img 257) e) files[k].name.val = true) :
    e = k := by
  refine (@List.Nodup.getElem_inj_iff _ _ hdistinct e (by simpa using he) k
    (by simpa using hk)).mp ?_
  rw [List.getElem_map, List.getElem_map]
  exact h.name_eq he hk hmatch

/-- Looking up the name of file `k` finds entry `k`. -/
theorem Image.lookup_eq {img : Disk} (h : Image img files) (hlen : files.length ≤ NR_DIR_ENTRY)
    (hdistinct : (files.map InFile.name).Nodup) {k : ℕ} (hk : k < files.length) :
    lookup (img 257) files[k].name.val = k := by
  refine OsLab.lookup_eq (by omega) (h.entry k hk).name fun e he => ?_
  by_contra hmatch
  have := h.name_inj hdistinct (by omega) hk (Bool.eq_true_of_not_eq_false hmatch)
  omega

/-! ## The layout the loaders count on -/

/-- The blocks of a file of `n` bytes with inodes from `base` on and data from `d` on. -/
def fileBlocks (base d n : ℕ) : Finset ℕ :=
  Finset.Ico base (base + inodeCount n) ∪ Finset.Ico d (d + chunkCount n)

/-- The file `name` with contents `data` is laid out from block `base` and block `d` on. -/
structure LaidOut (img : Disk) (name data : List UInt8) (base d : ℕ) : Prop where
  /-- `open` finds an entry of that name, and it points to block `base`. -/
  directory : lookup (img 257) name < NR_DIR_ENTRY ∧
    (inodeOffset (img 257) (lookup (img 257) name)).toNat = base
  /-- Entry `j` of the inode chain is block `d + j`. -/
  entry : ∀ j ≤ data.length / 512,
    (dataBlockOffset (img (base + j / 128 + 1)) (j % 128)).toNat = d + j
  /-- Entries past the last are `-1`. -/
  rest : ∀ j, data.length / 512 < j → j < 128 * inodeCount data.length →
    (dataBlockOffset (img (base + j / 128 + 1)) (j % 128)).toNat = 0xFFFFFFFF
  /-- Block `d + j` holds the file's bytes from `512 * j` on, then zeros. -/
  contents : ∀ j ≤ data.length / 512, ∀ i < 512,
    (img (d + j + 1)).get i = data.getD (512 * j + i) 0
  /-- The file's blocks are marked in the bitmap on the disk. -/
  marked : ∀ b ∈ fileBlocks base d data.length, used (readBitmap img) b = true

theorem Image.laidOut {img : Disk} (h : Image img files) (hlen : files.length ≤ NR_DIR_ENTRY)
    (hdistinct : (files.map InFile.name).Nodup) (hzone : inodesBefore files files.length ≤ 31)
    (hroom : 288 + chunksBefore files files.length ≤ NR_BLOCK) {k : ℕ} (hk : k < files.length) :
    LaidOut img files[k].name.val files[k].data (257 + inodesBefore files k)
      (288 + chunksBefore files k) := by
  obtain ⟨hzk, hrk⟩ := footprint_le hk hk
  have hst := h.stored_of_zone hzone hk
  simp only [NR_BLOCK, BITMAP_SIZE] at hroom
  simp only [chunkCount, inodeCount] at hzk hrk
  refine ⟨?_, fun j hj => ?_, fun j hj hj' => ?_, fun j hj i hi => ?_, fun b hb => ?_⟩
  · rw [h.lookup_eq hlen hdistinct hk, (h.entry k hk).offset, (inodeStart_eq hzone hk).1,
      UInt32.toNat_ofNat']
    omega
  · rw [hst.entry j (by simp only [chunkCount]; omega), UInt32.toNat_ofNat']
    omega
  · rw [hst.rest j (by simp only [chunkCount]; omega) hj']
    rfl
  · rw [hst.data j (by simp only [chunkCount]; omega), chunk, ByteBlock.get_ofFn, if_pos hi]
  · simp only [fileBlocks, inodeCount, chunkCount, Finset.mem_union, Finset.mem_Ico] at hb
    rw [h.frontier b (by simp only [NR_BLOCK, BITMAP_SIZE]; omega)]
    exact decide_eq_true (by omega)

/-- Two files share no block. -/
theorem disjoint_fileBlocks (hzone : inodesBefore files files.length ≤ 31) {i k : ℕ}
    (hi : i < files.length) (hik : i < k) (hk : k < files.length) :
    Disjoint
      (fileBlocks (257 + inodesBefore files i) (288 + chunksBefore files i)
        files[i].data.length)
      (fileBlocks (257 + inodesBefore files k) (288 + chunksBefore files k)
        files[k].data.length) := by
  obtain ⟨hzi, hri⟩ := footprint_le hi hik
  obtain ⟨hzk, -⟩ := footprint_le hk hk
  refine Finset.disjoint_left.mpr fun b hb hb' => ?_
  simp only [fileBlocks, Finset.mem_union, Finset.mem_Ico] at hb hb'
  omega

/-- **The image writer lays files out as the loaders assume.** On a formatted image, as long as
the inodes fit in blocks `257 … 287` and the data in the rest of the disk, every file has its
inodes in consecutive blocks and its data in consecutive blocks, and distinct files have distinct
blocks. -/
theorem copy2myfs_layout (boot : Sector) (mem : ℕ → Sector) (bitoffset : ℕ)
    (files : List InFile) (hlen : files.length ≤ 16)
    (hdistinct : (files.map InFile.name).Nodup) (hshort : ∀ f ∈ files, f.name.val.length < 24)
    (hinodes : (files.map fun f => inodeCount f.data.length).sum ≤ 31)
    (hdata : 288 + (files.map fun f => chunkCount f.data.length).sum ≤ NR_BLOCK) :
    ∃ base d : ℕ → ℕ,
      (∀ (k : ℕ) (hk : k < files.length),
        LaidOut (copy2myfs (formatter boot mem) bitoffset (files.map InFile.arg))
          files[k].name.val files[k].data (base k) (d k)) ∧
      ∀ (i k : ℕ) (hi : i < files.length) (hk : k < files.length), i ≠ k →
        Disjoint (fileBlocks (base i) (d i) files[i].data.length)
          (fileBlocks (base k) (d k) files[k].data.length) := by
  have hzone : inodesBefore files files.length ≤ 31 := by
    rwa [inodesBefore, List.take_length]
  have hroom : 288 + chunksBefore files files.length ≤ NR_BLOCK := by
    rwa [chunksBefore, List.take_length]
  have himage := image_copy2myfs boot mem bitoffset hlen hshort (room_of_zone hzone hroom)
  refine ⟨fun k => 257 + inodesBefore files k, fun k => 288 + chunksBefore files k,
    fun k hk => himage.laidOut hlen hdistinct hzone hroom hk, fun i k hi hk hne => ?_⟩
  rcases Nat.lt_or_gt_of_ne hne with hlt | hlt
  · exact disjoint_fileBlocks hzone hi hlt hk
  · exact (disjoint_fileBlocks hzone hk hlt hi).symm

/-- A file of 65537 bytes: 64 KiB of zeros and a one. -/
def longFile : InFile := ⟨⟨[97], by decide⟩, List.replicate 65536 0 ++ [1]⟩

theorem length_longFile : longFile.data.length = 65537 := by
  rw [longFile, List.length_append, List.length_replicate, List.length_singleton]

/-- Two files, the first of them with two inodes. -/
def twoFiles : List InFile := [longFile, ⟨⟨[98], by decide⟩, [1, 2, 3]⟩]

theorem copy2myfs_layout_two :
    ∃ base d : ℕ → ℕ,
      (∀ (k : ℕ) (hk : k < twoFiles.length),
        LaidOut (copy2myfs (formatter zeroSector fun _ => zeroSector) 0
            (twoFiles.map InFile.arg))
          twoFiles[k].name.val twoFiles[k].data (base k) (d k)) ∧
      ∀ (i k : ℕ) (hi : i < twoFiles.length) (hk : k < twoFiles.length), i ≠ k →
        Disjoint (fileBlocks (base i) (d i) twoFiles[i].data.length)
          (fileBlocks (base k) (d k) twoFiles[k].data.length) :=
  copy2myfs_layout zeroSector (fun _ => zeroSector) 0 twoFiles (by decide) (by decide) (by decide)
    (by simp [twoFiles, inodeCount, length_longFile])
    (by simp [twoFiles, chunkCount, length_longFile, NR_BLOCK, BITMAP_SIZE])

end OsLab
