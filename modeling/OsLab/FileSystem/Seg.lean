import OsLab.Disk.Layout
import OsLab.Lib.CInt

/-!
# Sectors and segments

`readsect` and `writesect` move one sector, and `readseg` and `writeseg` move a segment of the
image, sector by sector. Offsets are taken from the start of block 0, which is sector 1.

A block is asked for by `readseg(buf, 512, 512 * b)`. The product is unsigned and becomes an `int`
on the way in, so the entry `-1` of an inode asks for offset `-512`, and that is sector 0.
`readseg_block` says which sector any entry asks for.

## Main definitions

* `Machine` — the disk, the memory that sectors are moved to and from, and what was moved, latest
  first
* `segLoop` — the loop of `readseg` and `writeseg`, with `sect` for the call in its body
* `segSector` — the sector that entry `b` of an inode asks for

Memory has flat addresses here, which never wrap. The model with pointers of 32 bits is another
module, in which the two are shown to agree.

## Main results

* `readsect_mem`, `readseg_mem` — the bytes that are read
* `readseg_block`, `writeseg_block` — one block, as the calls of the file system ask for it
-/

namespace OsLab

/-- Bytes of memory around a buffer: index 0 is its first byte. -/
abbrev Mem : Type := ℤ → UInt8

/-- A sector that was read or written. -/
structure Access where
  write : Bool
  sector : ℤ

/-- The disk, the memory that sectors are moved to and from, and what was moved, latest first. -/
structure Machine where
  disk : Disk
  mem : Mem
  log : List Access

/-- The sector that the controller addresses: it takes the low 28 bits. -/
def lba (offset : ℤ) : ℕ := uint32 offset % 2 ^ 28

/-- `readsect` -/
def readsect (dst offset : ℤ) (m : Machine) : Machine :=
  { m with
    mem := fun a => if dst ≤ a ∧ a < dst + 512 then (m.disk (lba offset)).get (a - dst).toNat
      else m.mem a
    log := ⟨false, offset⟩ :: m.log }

/-- `writesect` -/
def writesect (src offset : ℤ) (m : Machine) : Machine :=
  { m with
    disk := m.disk.write (lba offset) (ByteBlock.ofFn 512 fun i => m.mem (src + i))
    log := ⟨true, offset⟩ :: m.log }

theorem readsect_mem (dst offset : ℤ) (m : Machine) (a : ℤ) : (readsect dst offset m).mem a =
    if dst ≤ a ∧ a < dst + 512 then (m.disk (lba offset)).get (a - dst).toNat else m.mem a := rfl

/-- The loop of `readseg` and `writeseg`, with `sect` for the call in its body. -/
def segLoop (sect : ℤ → ℤ → Machine → Machine) (epa pa offset : ℤ) (m : Machine) : Machine :=
  if pa < epa then segLoop sect epa (pa + 512) (offset + 1) (sect pa offset m) else m
termination_by (epa - pa).toNat
decreasing_by omega

/-- `readseg` -/
def readseg (pa count offset : ℤ) (m : Machine) : Machine :=
  segLoop readsect (pa + count) (pa - offset.tmod 512) (offset.tdiv 512 + 1) m

/-- `writeseg` -/
def writeseg (pa count offset : ℤ) (m : Machine) : Machine :=
  segLoop writesect (pa + count) (pa - offset.tmod 512) (offset.tdiv 512 + 1) m

/-! ## Whole blocks -/

/-- `512 * b` as it arrives in `readseg`. -/
def segOffset (b : UInt32) : ℤ := int32 (b * 512).toNat

/-- The sector that entry `b` of an inode asks for. -/
def segSector (b : UInt32) : ℤ := (segOffset b).tdiv 512 + 1

theorem segLoop_one (sect : ℤ → ℤ → Machine → Machine) (offset : ℤ) (m : Machine) :
    segLoop sect (0 + 512) 0 offset m = sect 0 offset m := by
  rw [segLoop, if_pos (by omega), segLoop, if_neg (by omega)]

@[simp] theorem tmod_segOffset (b : UInt32) : (segOffset b).tmod 512 = 0 := by
  have hmul : (b * 512).toNat = b.toNat * 512 % 2 ^ 32 := by
    rw [UInt32.toNat_mul]; rfl
  refine Int.tmod_eq_zero_of_dvd ?_
  rw [segOffset, int32, Int.bmod_def, hmul]
  split <;> omega

theorem readseg_block (b : UInt32) (m : Machine) :
    readseg 0 512 (segOffset b) m = readsect 0 (segSector b) m := by
  rw [readseg, tmod_segOffset, Int.sub_zero, segLoop_one, segSector]

theorem writeseg_block (b : UInt32) (m : Machine) :
    writeseg 0 512 (segOffset b) m = writesect 0 (segSector b) m := by
  rw [writeseg, tmod_segOffset, Int.sub_zero, segLoop_one, segSector]

/-- A block of the disk is one sector further on. -/
theorem segSector_of_lt {b : UInt32} (h : b.toNat < 2 ^ 20) :
    segSector b = b.toNat + 1 := by
  have hmul : (b * 512).toNat = b.toNat * 512 := by
    rw [UInt32.toNat_mul]
    exact Nat.mod_eq_of_lt (show b.toNat * 512 < 2 ^ 32 by omega)
  rw [segSector, segOffset, hmul, int32_eq (by omega) (by omega),
    Int.tdiv_eq_ediv_of_nonneg (by omega)]
  omega

/-- **The entry `-1` asks for the boot sector.** -/
@[simp] theorem segSector_minusOne : segSector minusOne = 0 := by decide

theorem lba_segSector {b : UInt32} (h : b.toNat < 2 ^ 20) : lba (segSector b) = b.toNat + 1 := by
  rw [segSector_of_lt h, lba, uint32_eq (by omega) (by omega)]
  omega

/-! ## Several sectors -/

/-- Byte `p` behind the start of block 0. -/
def diskByte (d : Disk) (p : ℕ) : UInt8 := (d (p / 512 + 1)).get (p % 512)

theorem lba_of_lt {offset : ℤ} (h : 0 ≤ offset) (hlt : offset < 2 ^ 28) :
    (lba offset : ℤ) = offset := by
  rw [lba, uint32_eq h (by omega)]
  omega

/-- The loop of `readseg`, which reads `n` sectors from byte `p` on. -/
theorem segLoop_readsect {epa pa : ℤ} {n p : ℕ} {m : Machine}
    (hlow : 512 * (n : ℤ) - 512 < epa - pa)
    (hhigh : epa - pa ≤ 512 * n) (hp : p + n < 2 ^ 28) (a : ℤ) :
    (segLoop readsect epa pa (p + 1) m).mem a =
      if pa ≤ a ∧ a < pa + 512 * n then diskByte m.disk (512 * p + (a - pa).toNat)
      else m.mem a := by
  induction n generalizing pa p m with
  | zero =>
    rw [segLoop, if_neg (by omega), if_neg (by omega)]
  | succ n ih =>
    rw [segLoop, if_pos (by omega)]
    have hcast : (p : ℤ) + 1 + 1 = ((p + 1 : ℕ) : ℤ) + 1 := by omega
    rw [hcast, ih (by omega) (by omega) (by omega), readsect_mem]
    by_cases hfirst : pa ≤ a ∧ a < pa + 512
    · have hpos : (512 * p + (a - pa).toNat) / 512 = p := by omega
      have hmod : (512 * p + (a - pa).toNat) % 512 = (a - pa).toNat := by omega
      have hlba := @lba_of_lt ((p : ℤ) + 1) (by omega) (by omega)
      have hsector : lba ((p : ℤ) + 1) = p + 1 := by omega
      rw [if_neg (by omega), if_pos hfirst, if_pos (by omega), diskByte, hpos, hmod, hsector]
    · rw [if_neg hfirst]
      refine if_ctx_congr (by omega) (fun hin => ?_) fun _ => rfl
      have hpos : 512 * (p + 1) + (a - (pa + 512)).toNat = 512 * p + (a - pa).toNat := by omega
      rw [hpos]
      rfl

/-- **A segment**: the sectors that its bytes are in. -/
theorem readseg_mem {pa : ℤ} {count offset : ℕ} {m : Machine} (h : offset + count < 2 ^ 31)
    (a : ℤ) :
    (readseg pa count offset m).mem a =
      if pa - (offset % 512 : ℕ) ≤ a ∧
          a < pa - (offset % 512 : ℕ) + 512 * ((offset % 512 + count + 511) / 512 : ℕ) then
        diskByte m.disk (512 * (offset / 512) + (a - (pa - (offset % 512 : ℕ))).toNat)
      else m.mem a := by
  have hmod : (offset : ℤ).tmod 512 = (offset % 512 : ℕ) :=
    Int.tmod_eq_emod_of_nonneg (by omega)
  have hdiv : (offset : ℤ).tdiv 512 = (offset / 512 : ℕ) :=
    Int.tdiv_eq_ediv_of_nonneg (by omega)
  rw [readseg, hmod, hdiv]
  exact segLoop_readsect (by omega) (by omega) (by omega) a

end OsLab
