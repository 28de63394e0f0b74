import OsLab.Lib.ByteBlock

/-!
# The on-disk format (`disk.h`)

Every access the image tools and the kernel make to the disk is to whole 512-byte sectors, so a
disk is a function from sector numbers to sectors. Sector `0` is the boot sector and *block* `b`
of the file system is sector `b + 1`:

| blocks      | contents                                              |
|-------------|-------------------------------------------------------|
| `0 … 255`   | the bitmap, one bit per block                         |
| `256`       | the root directory, sixteen 32-byte entries           |
| `257 … 287` | inodes, 128 words of 32 bits each                     |
| `288 …`     | data                                                  |

The structures of `disk.h` are plain memory that the programs also write bytewise (a file name
is copied with `memcpy`), so a directory and an inode *are* sectors here, and the members of
the C structures are accesses at their offsets.
-/

namespace OsLab

/-- `BITMAP_SIZE`: the bytes of the bitmap. -/
def BITMAP_SIZE : ℕ := 512 * 256

/-- `BITMAP_USED_BYTE`: the bytes of the bitmap that describe the bitmap itself. -/
def BITMAP_USED_BYTE : ℕ := 32

/-- `NR_DIR_ENTRY` -/
def NR_DIR_ENTRY : ℕ := 16

/-- `NR_INODE_ENTRY` -/
def NR_INODE_ENTRY : ℕ := 128

/-- The value `-1` stored in a `uint32_t`. -/
def minusOne : UInt32 := 0xFFFFFFFF

/-- One sector of the disk. -/
abbrev Sector : Type := ByteBlock 512

/-- A sector of zeros. -/
def zeroSector : Sector := ByteBlock.ofFn 512 fun _ => 0

/-- A disk, or the image file `disk.bin`, sector by sector. -/
abbrev Disk : Type := ℕ → Sector

/-- Write sector `s`. -/
def Disk.write (d : Disk) (s : ℕ) (sec : Sector) : Disk := Function.update d s sec

@[simp] theorem Disk.write_self (d : Disk) (s : ℕ) (sec : Sector) : d.write s sec s = sec :=
  Function.update_self ..

theorem Disk.write_of_ne {d : Disk} {s s' : ℕ} (sec : Sector) (h : s' ≠ s) :
    d.write s sec s' = d s' :=
  Function.update_of_ne h ..

/-- Write `n` consecutive sectors, sector `s + k` getting `f k`. -/
def Disk.writeMany (d : Disk) (s n : ℕ) (f : ℕ → Sector) : Disk := fun x =>
  if s ≤ x ∧ x < s + n then f (x - s) else d x

theorem Disk.writeMany_of_mem {d : Disk} {s n x : ℕ} (f : ℕ → Sector) (h : s ≤ x)
    (h' : x < s + n) : d.writeMany s n f x = f (x - s) := by
  simp [writeMany, h, h']

theorem Disk.writeMany_of_not_mem {d : Disk} {s n x : ℕ} (f : ℕ → Sector)
    (h : x < s ∨ s + n ≤ x) : d.writeMany s n f x = d x := by
  have hout : ¬(s ≤ x ∧ x < s + n) := by omega
  simp [writeMany, hout]

/-! ## Inodes -/

/-- `data_block_offset[j]` of an inode. -/
def dataBlockOffset (inode : Sector) (j : ℕ) : UInt32 := inode.get32 (4 * j)

/-- Assign `data_block_offset[j]`. -/
def setDataBlockOffset (inode : Sector) (j : ℕ) (v : UInt32) : Sector := inode.set32 (4 * j) v

theorem dataBlockOffset_set_self {inode : Sector} {j : ℕ} (v : UInt32) (h : j < NR_INODE_ENTRY) :
    dataBlockOffset (setDataBlockOffset inode j v) j = v :=
  ByteBlock.get32_set32 v (by simp only [NR_INODE_ENTRY] at h; omega)

theorem dataBlockOffset_set_of_ne {inode : Sector} {j j' : ℕ} (v : UInt32) (h : j' ≠ j) :
    dataBlockOffset (setDataBlockOffset inode j v) j' = dataBlockOffset inode j' :=
  ByteBlock.get32_set32_of_disjoint v (by omega)

/-- An inode with every entry `-1`. -/
def emptyInode : Sector := ByteBlock.ofFn 512 fun _ => 0xFF

theorem dataBlockOffset_emptyInode {j : ℕ} (h : j < NR_INODE_ENTRY) :
    dataBlockOffset emptyInode j = minusOne := by
  simp only [NR_INODE_ENTRY] at h
  have hin : ∀ k < 4, emptyInode.get (4 * j + k) = 0xFF := fun k hk => by
    have : 4 * j + k < 512 := by omega
    simp [emptyInode, this]
  have hword : ByteBlock.le32 (fun _ => 0xFF) = minusOne := by decide
  rw [dataBlockOffset, ByteBlock.get32, ByteBlock.le32_congr hin, hword]

/-! ## The directory -/

/-- The C string stored in `entry[e].filename`, read on past the field if nothing ends it. -/
def filename (direct : Sector) (e : ℕ) : ℕ → UInt8 := fun i => direct.get (32 * e + i)

/-- `entry[e].file_size` -/
def fileSize (direct : Sector) (e : ℕ) : UInt32 := direct.get32 (32 * e + 24)

/-- `entry[e].inode_offset` -/
def inodeOffset (direct : Sector) (e : ℕ) : UInt32 := direct.get32 (32 * e + 28)

/-- `strcmp(p, q) == 0` for a C string `q` given by its bytes without the terminator. -/
def strcmpEq (p : ℕ → UInt8) : List UInt8 → Bool
  | [] => p 0 == 0
  | c :: q => p 0 == c && strcmpEq (fun i => p (i + 1)) q

/-- A C string: its bytes, none of which is the terminator. -/
def CString : Type := {bytes : List UInt8 // 0 ∉ bytes}
deriving DecidableEq

theorem strcmpEq_iff (p : ℕ → UInt8) (q : List UInt8) :
    strcmpEq p q = true ↔ (∀ i < q.length, p i = q.getD i 0) ∧ p q.length = 0 := by
  induction q generalizing p with
  | nil => simp [strcmpEq]
  | cons c q ih =>
    simp only [strcmpEq, Bool.and_eq_true, beq_iff_eq, ih, List.length_cons]
    constructor
    · rintro ⟨h0, hrest, hend⟩
      refine ⟨fun i hi => ?_, hend⟩
      cases i with
      | zero => simpa using h0
      | succ i => simpa using hrest i (by omega)
    · rintro ⟨hall, hend⟩
      exact ⟨by simpa using hall 0 (by omega), fun i hi => by simpa using hall (i + 1) (by omega),
        hend⟩

/-! ## The bitmap -/

/-- The bytes of `struct map`; only the first `BITMAP_SIZE` of them exist. -/
abbrev Bitmap : Type := ℕ → UInt8

/-- `fread(&bitmap, 1, sizeof(bitmap), fp)` from position 512. -/
def readBitmap (d : Disk) : Bitmap := fun i => (d (1 + i / 512)).get (i % 512)

/-- `fwrite(&bitmap, 1, sizeof(bitmap), fp)` at position 512. -/
def writeBitmap (d : Disk) (bitmap : Bitmap) : Disk :=
  d.writeMany 1 256 fun s => ByteBlock.ofFn 512 fun k => bitmap (512 * s + k)

theorem readBitmap_writeBitmap {d : Disk} {bitmap : Bitmap} {i : ℕ} (h : i < BITMAP_SIZE) :
    readBitmap (writeBitmap d bitmap) i = bitmap i := by
  simp only [BITMAP_SIZE] at h
  have hi : 512 * (1 + i / 512 - 1) + i % 512 = i := by omega
  rw [readBitmap, writeBitmap, Disk.writeMany_of_mem _ (by omega) (by omega), ByteBlock.get_ofFn,
    if_pos (Nat.mod_lt _ (by omega)), hi]

theorem writeBitmap_of_ge {d : Disk} {bitmap : Bitmap} {s : ℕ} (h : 257 ≤ s) :
    writeBitmap d bitmap s = d s :=
  Disk.writeMany_of_not_mem _ (.inr h)

theorem readBitmap_congr {d d' : Disk} {i : ℕ} (h : ∀ s, 1 ≤ s → s < 257 → d s = d' s)
    (hi : i < BITMAP_SIZE) : readBitmap d i = readBitmap d' i := by
  simp only [BITMAP_SIZE] at hi
  rw [readBitmap, readBitmap, h _ (by omega) (by omega)]

end OsLab
