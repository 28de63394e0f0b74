import OsLab.FileSystem.ElfFile
import OsLab.Memory.Copy
import OsLab.Memory.PageWalk

/-!
# The loader

`loader` of `elf.c` makes the first user process: it reads the game's ELF file, block by block from
its first data block on, and builds the address space in the user directory `updir`. `PT_LOAD`
segments go where their headers say, page by page; then come the stack and the video memory.

`readseg` moves whole sectors. What it reads for a page ends with the sector of the last byte, and
so does what is put into the page.

## Main definitions

* `ProgramHeader` — the members of a `struct ProgramHeader` that the loader reads
* `loadPage` — one round of the loop over the pages of a segment
* `loadSegment` — the loop over the pages of a segment: `va` comes back to where it was after
  `2 ^ 20` rounds
* `loadMemory` — what `loader` does to memory
* `loader` — `loader()`, which makes the process `pid` in a free slot
-/

namespace OsLab

/-! ## ELF files -/

/-- The bytes of a user stack. -/
def STACK_SIZE : UInt32 := (4 : UInt32) * ((1 : UInt32) <<< (20 : UInt32))

/-- The members of a `struct ProgramHeader` that the loader reads. -/
structure ProgramHeader where
  type : UInt32
  off : UInt32
  vaddr : UInt32
  filesz : UInt32
  memsz : UInt32

/-- `ph[i]`, for the program headers of the file in the buffer. -/
def programHeader (elf : Mem) (i : ℕ) : ProgramHeader :=
  let ph : ℤ := (phoff elf + 32 * i : ℕ)
  { type := wordAt elf ph
    off := wordAt elf (ph + 4)
    vaddr := wordAt elf (ph + 8)
    filesz := wordAt elf (ph + 16)
    memsz := wordAt elf (ph + 20) }

/-! ## The code -/

/-- The pages of the kernel's own data that address spaces lead to. -/
structure KernelPages where
  updir : ℕ
  vdtable : ℕ
  kpdir : ℕ
  updir_le : updir ≤ 1024
  vdtable_le : vdtable ≤ 1024
  kpdir_le : kpdir ≤ 1024
  vdtable_ne : vdtable ≠ updir
  kpdir_ne : kpdir ≠ updir
  kpdir_ne_vdtable : kpdir ≠ vdtable

/-- What `readseg(buf, count, offset)` leaves in a buffer that held `buf`. -/
def readBuffer (d : Disk) (buf : Mem) (count offset : ℤ) : Mem :=
  (readseg 0 count offset ⟨d, buf, []⟩).mem

/-- `init_mm()`: the user directory gets the kernel's entries and no other. -/
def initMm (P : KernelPages) (m : Memory) : Memory :=
  (m.memset (page2kva P.updir) 0 PGSIZE).memcpy (page2kva P.updir + 4 * 768)
    (page2kva P.kpdir + 4 * 768) (4 * 32)

/-- `inode.data_block_offset[0]`, of the inode that `direct.entry[1]` names. The buffers held
`stack`. -/
def elfOff (stack : Mem) (d : Disk) : UInt32 :=
  let direct := readBuffer d stack 512 BITMAP_SIZE
  let inode_offset := wordAt direct (32 * 1 + 28)
  let inode := readBuffer d stack 512 (segOffset inode_offset)
  wordAt inode 0

/-- `readseg((uint8_t *)buffer, 4096, elf_off*512)` -/
def elfBuffer (stack : Mem) (d : Disk) : Mem :=
  readBuffer d stack 4096 (segOffset (elfOff stack d))

section Segment

variable (d : Disk) (elf_off : UInt32) (ph : ProgramHeader)

/-- The number of bytes of the file that go into the page of `va`, when `num` have been loaded. -/
def pageRest (va num : UInt32) : UInt32 :=
  let rest := UInt32.ofNat (PGSIZE - PGOFF va)
  if ph.filesz - num < rest then ph.filesz - num else rest

/-- `sec_buf`, cleared and filled for the page of `va`. -/
def secBuf (va num : UInt32) : Mem :=
  let rest := pageRest ph va num
  if rest ≠ 0 then
    (readseg (PGOFF va) rest.toNat (int32 (elf_off * 512 + ph.off + num).toNat)
      ⟨d, fun _ => 0, []⟩).mem
  else fun _ => 0

/-- One round of the loop over the pages of a segment. -/
def loadPage (updir va num : UInt32) (m : Memory) : Option Memory :=
  (mmMalloc updir (PTE_ADDR va) m).map fun r =>
    r.2.poke r.1.toNat PGSIZE fun k => secBuf d elf_off ph va num k

/-- The loop over the pages of a segment: `va` comes back to where it was after `2 ^ 20` rounds. -/
def loadSegment (updir : UInt32) : ℕ → UInt32 → UInt32 → Memory → Option Memory
  | 0, _, _, _ => none
  | fuel + 1, va, num, m =>
    if va < ph.vaddr + ph.memsz then
      (loadPage d elf_off ph updir va num m).bind
        (loadSegment updir fuel (PTE_ADDR va + 0x1000) (num + pageRest ph va num))
    else some m

end Segment

/-- The loop over the program headers. -/
def loadHeader (d : Disk) (elf_off : UInt32) (elf : Mem) (updir : UInt32) (i : ℕ) (m : Memory) :
    Option Memory :=
  let ph := programHeader elf i
  if ph.type = PT_LOAD then loadSegment d elf_off ph updir (2 ^ 20 + 1) ph.vaddr 0 m else some m

/-- The loop that maps the stack. -/
def loadStack (updir : UInt32) (j : ℕ) (m : Memory) : Option Memory :=
  (mmMalloc updir (KOFFSET - STACK_SIZE + UInt32.ofNat (4096 * j)) m).map Prod.snd

/-- `make_pde` -/
def makePde (addr : UInt32) : UInt32 := (addr &&& 0xfffff000) ||| 0x7

/-- `create_video_mapping()`: `make_pte` is `make_pde`. -/
def createVideoMapping (P : KernelPages) (m : Memory) : Memory :=
  countUp (fun i m => m.setIndex (page2kva P.vdtable) (i + 0xa0)
      (makePde (0xa0000 + UInt32.ofNat (4096 * i))))
    (m.setIndex (page2kva P.updir) 0 (makePde (page2pa P.vdtable))) 16

/-- What `loader` does to memory. -/
def loadMemory (P : KernelPages) (stack : Mem) (d : Disk) (m : Memory) : Option Memory :=
  let elf := elfBuffer stack d
  (countUpM (loadHeader d (elfOff stack d) elf (page2kva P.updir)) (pageInit m) (phnum elf)).bind
    fun m => (countUpM (loadStack (page2kva P.updir)) m 1024).map (createVideoMapping P)

/-- `loader()`, which makes the process `pid` in a free slot. -/
def loader (P : KernelPages) (stack : Mem) (d : Disk) (pid garbage : ℤ) (k : Core) : Option Core :=
  let c := (getPcb k.procs.pcb_table).getD garbage
  (loadMemory P stack d k.mem).map fun m =>
    { procs := k.procs.modify c fun q =>
        processReady { pcbNew pid 0 c q with cr3 := cr3Val (page2pa P.updir >>> 12) }
      mem := m }

end OsLab
