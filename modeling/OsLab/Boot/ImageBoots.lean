import OsLab.Boot.Bootmain
import OsLab.Disk.ImageLayout
import OsLab.Process.SystemBoot

/-!
# The image boots

`formatter` and `copy2myfs` write the disk, `bootmain` reads the kernel from it and `loader` the
game. The two loaders look at entries 0 and 1 of the directory, at the first block that the inode
names, and read straight on from there; `copy2myfs` puts its first two files just so.

What is behind the end of a file in its last sector is zero, so that whether the game is loaded
right depends on the file alone (`SegmentsPadded`).

## Main definitions

* `SegmentsPadded` — behind the last file byte of each segment of the game, the file holds zeros to
  the end of the sector, as far as the segment goes
* `NoneSpills` — a segment of the kernel without bytes starts with a sector

## Main results

* `Image.elfStored` — the files are where the loaders look for them
* `image_boots` — from the two files to the kernel in memory and the first process
-/

namespace OsLab

section Image

variable {img : Disk} {files : List InFile} {data : List UInt8} {b k p : ℕ}

/-- Byte `p` of file `k` on the disk; behind the file there are zeros, to the end of the sector. -/
theorem Image.diskByte (h : Image img files) (hzone : inodesBefore files files.length ≤ 31)
    (hk : k < files.length) (hp : p / 512 ≤ files[k].data.length / 512) :
    OsLab.diskByte img (512 * (288 + chunksBefore files k) + p) = files[k].data.getD p 0 := by
  have hst := h.stored_of_zone hzone hk
  have hchunk := hst.data (p / 512) (by rw [chunkCount]; omega)
  have hsector : (512 * (288 + chunksBefore files k) + p) / 512 + 1 =
      288 + chunksBefore files k + p / 512 + 1 := by omega
  have hmod : (512 * (288 + chunksBefore files k) + p) % 512 = p % 512 := by omega
  have hpos : 512 * (p / 512) + p % 512 = p := Nat.div_add_mod p 512
  rw [OsLab.diskByte, hsector, hmod, hchunk, chunk, ByteBlock.get_ofFn, if_pos (by omega), hpos]

/-- **The files are where the loaders look for them.** -/
theorem Image.elfStored (h : Image img files) (hzone : inodesBefore files files.length ≤ 31)
    (hroom : 288 + chunksBefore files files.length ≤ NR_BLOCK) (hk : k < files.length) :
    ElfStored img k files[k].data (288 + chunksBefore files k) := by
  obtain ⟨hzk, hrk⟩ := footprint_le hk hk
  have hst := h.stored_of_zone hzone hk
  have hfirst := hst.entry 0 (by rw [chunkCount]; omega)
  simp only [NR_BLOCK, BITMAP_SIZE] at hroom
  simp only [chunkCount, inodeCount] at hzk hrk
  have hoffset : (inodeOffset (img 257) k).toNat = 257 + inodesBefore files k := by
    rw [(h.entry k hk).offset, (inodeStart_eq hzone hk).1, UInt32.toNat_ofNat']
    omega
  refine ⟨?_, ?_, fun p hp => ?_, ?_⟩
  · rw [hoffset, NR_BLOCK, BITMAP_SIZE]
    omega
  · rw [hoffset, hfirst, UInt32.toNat_ofNat']
    omega
  · exact h.diskByte hzone hk (Nat.div_le_div_right hp.le)
  · rw [NR_BLOCK, BITMAP_SIZE]
    omega

/-- Behind the last file byte of each segment of the game, the file holds zeros to the end of the
sector, as far as the segment goes. -/
def SegmentsPadded (data : List UInt8) : Prop :=
  ∀ i, IsGameSegment data i → 0 < (gameHeader data i).filesz.toNat →
    ∀ k, (gameHeader data i).filesz.toNat ≤ k → k < (gameHeader data i).memsz.toNat →
      ((gameHeader data i).off.toNat + k) / 512 =
        ((gameHeader data i).off.toNat + (gameHeader data i).filesz.toNat - 1) / 512 →
      data.getD ((gameHeader data i).off.toNat + k) 0 = 0

/-- A segment of the kernel without bytes starts with a sector. -/
def NoneSpills (data : List UInt8) : Prop :=
  ∀ i, IsSegment data i → (kernelHeader data i).memsz.toNat = 0 →
    (kernelHeader data i).paddr.toNat % 512 = 0

theorem NoneSpills.fit (h : NoneSpills data) (d : Disk) (b : ℕ) : EmptySegmentsFit d data b := by
  have hnone : ∀ i a, ¬Spills data b i a := fun i a ⟨hi, hempty, _, hmod, _⟩ =>
    hmod (h i hi hempty)
  exact ⟨fun i a hs => absurd hs (hnone i a), fun j _ k _ i _ hs => absurd hs (hnone i _)⟩

/-- Every byte of the game's segments is as the file says. -/
theorem Image.segByte (h : Image img files) (hzone : inodesBefore files files.length ≤ 31)
    (hroom : 288 + chunksBefore files files.length ≤ NR_BLOCK) (hone : 1 < files.length)
    (helf : GameElf files[1].data) (hpad : SegmentsPadded files[1].data) {i : ℕ}
    (hi : IsGameSegment files[1].data i) (hk : k < (gameHeader files[1].data i).memsz.toNat) :
    OsLab.segByte img (288 + chunksBefore files 1) (gameHeader files[1].data i) k =
      gameByte files[1].data i k := by
  have hst := h.elfStored hzone hroom hone
  refine (segByte_eq_gameByte_iff hst helf hi).mpr fun hle hpos hsector => ?_
  have hin := helf.inFile i hi hpos
  rw [Nat.add_assoc, h.diskByte hzone hone (by omega)]
  exact hpad i hi hpos k hle hk hsector

end Image

/-- **From the files to the first process.** A kernel and a game are written to a formatted disk,
and perhaps other files. `bootmain` then builds the kernel's image, whatever was in memory, and
`init_cond` makes a process in slot 1 whose address space is what the game's file says. -/
theorem image_boots (boot : Sector) (mem : ℕ → Sector) (bitoffset : ℕ) (kernel game : InFile)
    (rest : List InFile) {pages : ℕ} (hlen : (kernel :: game :: rest).length ≤ 16)
    (hshort : ∀ f ∈ kernel :: game :: rest, f.name.val.length < 24)
    (hinodes : ((kernel :: game :: rest).map fun f => inodeCount f.data.length).sum ≤ 31)
    (hdata : 288 + ((kernel :: game :: rest).map fun f => chunkCount f.data.length).sum ≤
      NR_BLOCK)
    (hkernel : KernelElf kernel.data pages) (hspill : NoneSpills kernel.data)
    (hgame : GameElf game.data) (hpad : SegmentsPadded game.data) (hfits : FitsMemory game.data)
    (P : KernelPages) (stack : Mem) (garbage : ℤ) (esp0 : UInt32) (t : ℤ → PCB) (m : Memory)
    (hclear : m.page_free_list = none) :
    let img := copy2myfs (formatter boot mem) bitoffset
      ((kernel :: game :: rest).map InFile.arg)
    LoadsKernel img kernel.data ∧
      ∃ s, bootSystem P stack img garbage esp0 t m = some s ∧
        ∀ i, IsGameSegment game.data i → ∀ k < (gameHeader game.data i).memsz.toNat,
          userByte s.core.mem (s.core.procs.pcb_table 1).cr3
            ((gameHeader game.data i).vaddr + UInt32.ofNat k) = some (gameByte game.data i k) := by
  obtain ⟨files, hfiles⟩ : ∃ files, files = kernel :: game :: rest := ⟨_, rfl⟩
  rw [← hfiles] at hlen hshort hinodes hdata ⊢
  have hzone : inodesBefore files files.length ≤ 31 := by rwa [inodesBefore, List.take_length]
  have hroom : 288 + chunksBefore files files.length ≤ NR_BLOCK := by
    rwa [chunksBefore, List.take_length]
  have himage := image_copy2myfs boot mem bitoffset hlen hshort (room_of_zone hzone hroom)
  have hone : 1 < files.length := by rw [hfiles]; exact Nat.succ_lt_succ (Nat.succ_pos _)
  have h0 : files[0].data = kernel.data := by simp only [hfiles, List.getElem_cons_zero]
  have h1 : files[1].data = game.data := by
    simp [hfiles]
  have hstored := himage.elfStored hzone hroom (k := 0) (by omega)
  have hstored' := himage.elfStored hzone hroom hone
  have hbyte := fun {i k} => himage.segByte hzone hroom hone (h1 ▸ hgame) (h1 ▸ hpad)
    (i := i) (k := k)
  rw [h0] at hstored
  rw [h1] at hstored' hbyte
  refine ⟨(loadsKernel_iff_fits hstored hkernel).mpr (hspill.fit _ _), ?_⟩
  obtain ⟨m', hm'⟩ := (loadMemory_isSome_iff (P := P) hstored' hgame stack hclear).mpr hfits
  refine ⟨_, bootSystem_eq hm', fun i hi k hk => ?_⟩
  have hu := P.updir_le
  have hload := loadMemory_spec hstored' hgame hclear hm' hi hk
  rw [hbyte hi hk, cr3Val_page2pa (by omega)] at hload
  dsimp only
  rw [initCond_game]
  exact hload

/-- A kernel and a game of one segment each. -/
theorem image_boots_small :
    let img := copy2myfs (formatter zeroSector fun _ => zeroSector) 0
      ([⟨⟨[107], by decide⟩, bareElf 0 84 84⟩,
        ⟨⟨[103], by decide⟩, bareElf 0 84 84⟩].map InFile.arg)
    LoadsKernel img (bareElf 0 84 84) ∧
      ∃ s, bootSystem bootTables (fun _ => 0) img 0 0 (fun _ => freePcb) bootMemory = some s ∧
        ∀ i, IsGameSegment (bareElf 0 84 84) i →
          ∀ k < (gameHeader (bareElf 0 84 84) i).memsz.toNat,
            userByte s.core.mem (s.core.procs.pcb_table 1).cr3
                ((gameHeader (bareElf 0 84 84) i).vaddr + UInt32.ofNat k) =
              some (gameByte (bareElf 0 84 84) i k) := by
  have hfits : FitsMemory (bareElf 0 84 84) := by
    have hfew := gamePages_bareElf
    rw [FitsMemory, npages]
    omega
  refine image_boots zeroSector (fun _ => zeroSector) 0 ⟨⟨[107], by decide⟩, bareElf 0 84 84⟩
    ⟨⟨[103], by decide⟩, bareElf 0 84 84⟩ [] (by decide) (by decide) (by decide) (by decide)
    (kernelElf_bareElf (by decide)) (fun i hi hempty => ?_) (gameElf_bareElf (by decide))
    (fun i hi _ k hle hlt => ?_) hfits bootTables (fun _ => 0) 0 0
    (fun _ => freePcb) bootMemory rfl
  · rw [eq_zero_of_isSegment hi] at hempty
    exact absurd hempty (by decide)
  · rw [eq_zero_of_isGameSegment hi] at hle hlt
    exact absurd (hle.trans_lt hlt) (by decide)

end OsLab
