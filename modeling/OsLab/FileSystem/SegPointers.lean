import OsLab.FileSystem.ElfFile

/-!
# Segments, with pointers of 32 bits

`readseg` and `writeseg` compare pointers, and a pointer wraps around. Here `pa` and `epa` are
machine words, and the loop gets fuel, since one that is moved past the last address starts again at
the first. When no pointer wraps the loop does in memory what the model with flat addresses says
(`Flat.segLoop`), so that what is known of that model is known of the code.

The pointer is moved back to where the sector starts, and the end is not. `offset % 512` bytes in
front of `pa` are moved as well, then, and so is the rest of the last sector.

## Main definitions

* `PointerMachine` — the disk, and memory by its addresses
* `seg` — the common part of `readseg` and `writeseg`
* `Flat` — the machine with flat addresses has the same disk, and the same bytes where there are
  addresses
* `SegExact` — what a call of `readseg` and a call of `writeseg` with these arguments do to `m`: `r`
  bytes in front of `pa` are moved as well, and `q` sectors in all

## Main results

* `Flat.segLoop` — the loop with pointers does what the loop with flat addresses does
* `writeseg_disk` — the sectors that `writeseg` writes
* `seg_exact` — what `readseg` and `writeseg` change, and that they go together
-/

namespace OsLab

/-- The disk, and memory by its addresses. -/
structure PointerMachine where
  disk : Disk
  mem : UInt32 → UInt8

namespace PointerMachine

/-- The bytes that are `i < 512` behind `dst` are those of the sector. -/
def readsect (dst : UInt32) (offset : ℤ) (m : PointerMachine) : PointerMachine :=
  { m with mem := fun a =>
      if (a - dst).toNat < 512 then (m.disk (lba offset)).get (a - dst).toNat else m.mem a }

/-- `writesect` -/
def writesect (src : UInt32) (offset : ℤ) (m : PointerMachine) : PointerMachine :=
  { m with disk :=
      m.disk.write (lba offset) (ByteBlock.ofFn 512 fun i => m.mem (src + UInt32.ofNat i)) }

/-- `for(; pa < epa; pa += SECTSIZE, offset ++)`, for so many tests of the condition. -/
def segLoop (sect : UInt32 → ℤ → PointerMachine → PointerMachine) (epa : UInt32) :
    ℕ → UInt32 → ℤ → PointerMachine → Option PointerMachine
  | 0, _, _, _ => none
  | fuel + 1, pa, offset, m =>
    if pa < epa then segLoop sect epa fuel (pa + 512) (int32 (offset + 1)) (sect pa offset m)
    else some m

/-- The common part of `readseg` and `writeseg`. -/
def seg (sect : UInt32 → ℤ → PointerMachine → PointerMachine) (fuel : ℕ) (pa : UInt32)
    (count offset : ℤ) (m : PointerMachine) : Option PointerMachine :=
  let epa := pa + UInt32.ofInt count
  let pa := pa - UInt32.ofInt (offset.tmod 512)
  let offset := int32 (offset.tdiv 512 + 1)
  segLoop sect epa fuel pa offset m

/-- `readseg` -/
def readseg : ℕ → UInt32 → ℤ → ℤ → PointerMachine → Option PointerMachine := seg readsect

/-- `writeseg` -/
def writeseg : ℕ → UInt32 → ℤ → ℤ → PointerMachine → Option PointerMachine := seg writesect

end PointerMachine

/-! ## Flat addresses -/

/-- The machine with flat addresses has the same disk, and the same bytes where there are
addresses. -/
structure Flat (m : PointerMachine) (f : Machine) : Prop where
  disk : f.disk = m.disk
  mem : ∀ a : UInt32, f.mem a.toNat = m.mem a

/-- A machine with that memory. -/
def PointerMachine.flat (m : PointerMachine) : Machine where
  disk := m.disk
  mem a := m.mem (UInt32.ofNat a.toNat)
  log := []

theorem flat_flat (m : PointerMachine) : Flat m m.flat :=
  ⟨rfl, fun a => congrArg m.mem (by simp)⟩

/-- The two functions move one sector in the same way. -/
def SameSect (sect : UInt32 → ℤ → PointerMachine → PointerMachine)
    (sect' : ℤ → ℤ → Machine → Machine) : Prop :=
  ∀ (dst : UInt32) (offset : ℤ) (m : PointerMachine) (f : Machine),
    dst.toNat + 512 < 2 ^ 32 → Flat m f → Flat (sect dst offset m) (sect' dst.toNat offset f)

theorem sameSect_read : SameSect PointerMachine.readsect readsect := by
  intro dst offset m f hdst h
  refine ⟨h.disk, fun a => ?_⟩
  have ha := a.toNat_lt
  have hsub : (a - dst).toNat = (2 ^ 32 - dst.toNat + a.toNat) % 2 ^ 32 := UInt32.toNat_sub ..
  rw [readsect_mem, PointerMachine.readsect, h.disk, h.mem]
  refine if_ctx_congr (by omega) (fun hin => ?_) fun _ => rfl
  have hpos : ((a.toNat : ℤ) - dst.toNat).toNat = (a - dst).toNat := by omega
  rw [hpos]

theorem sameSect_write : SameSect PointerMachine.writesect writesect := by
  intro src offset m f hsrc h
  refine ⟨?_, h.mem⟩
  have hbytes : ByteBlock.ofFn 512 (fun i => f.mem (src.toNat + i)) =
      ByteBlock.ofFn 512 fun i => m.mem (src + UInt32.ofNat i) := by
    refine ByteBlock.ext_get fun i hi => ?_
    rw [ByteBlock.get_ofFn, ByteBlock.get_ofFn, if_pos hi, if_pos hi, ← h.mem]
    have hadd : (src + UInt32.ofNat i).toNat = (src.toNat + i % 2 ^ 32) % 2 ^ 32 := by
      rw [UInt32.toNat_add, UInt32.toNat_ofNat']
    have hpos : (src + UInt32.ofNat i).toNat = src.toNat + i := by omega
    rw [hpos, Nat.cast_add]
  rw [writesect, PointerMachine.writesect, h.disk, hbytes]

section Loop

variable {sect : UInt32 → ℤ → PointerMachine → PointerMachine} {sect' : ℤ → ℤ → Machine → Machine}
  {m : PointerMachine} {f : Machine}

/-- **The loop.** When the `n` sectors end before the last address, the loop with pointers ends
after `n` rounds, and the two loops go together. -/
theorem Flat.segLoop (hsect : SameSect sect sect') {epa pa : UInt32} {n p fuel : ℕ}
    (hlow : pa.toNat + 512 * n < epa.toNat + 512) (hhigh : epa.toNat ≤ pa.toNat + 512 * n)
    (hend : pa.toNat + 512 * n < 2 ^ 32) (hp : p + n < 2 ^ 31) (hfuel : n < fuel) (h : Flat m f) :
    ∃ m', m.segLoop sect epa fuel pa p = some m' ∧
      Flat m' (OsLab.segLoop sect' epa.toNat pa.toNat p f) := by
  induction n generalizing pa p fuel m f with
  | zero =>
    obtain ⟨fuel, rfl⟩ := Nat.exists_eq_add_of_lt hfuel
    have hdone : ¬pa < epa := by
      rw [UInt32.lt_iff_toNat_lt]
      omega
    rw [OsLab.segLoop, if_neg (by omega)]
    exact ⟨m, if_neg hdone, h⟩
  | succ n ih =>
    obtain ⟨fuel, rfl⟩ : ∃ fuel', fuel = fuel' + 1 := ⟨fuel - 1, by omega⟩
    have hle : pa.toNat + 512 ≤ pa.toNat + 512 * (n + 1) := by omega
    have hfits : pa.toNat + 512 < 2 ^ 32 := Nat.lt_of_le_of_lt hle hend
    have hmore : pa < epa := by
      rw [UInt32.lt_iff_toNat_lt]
      omega
    have hround := hsect pa p m f hfits h
    have hpa : (pa + 512).toNat = pa.toNat + 512 := by
      have hadd : (pa + 512).toNat = (pa.toNat + 512) % 2 ^ 32 := UInt32.toNat_add ..
      omega
    have hoffset : int32 ((p : ℤ) + 1) = ((p + 1 : ℕ) : ℤ) := by
      rw [Nat.cast_add, Nat.cast_one]
      exact int32_eq (by omega) (by omega)
    obtain ⟨m', hm', hflat⟩ := @ih _ _ (pa + 512) (p + 1) fuel (by omega) (by omega) (by omega)
      (by omega) (by omega) hround
    refine ⟨m', ?_, ?_⟩
    · rw [PointerMachine.segLoop, if_pos hmore, hoffset]
      exact hm'
    · rw [OsLab.segLoop, if_pos (by omega)]
      rwa [hpa, Nat.cast_add, Nat.cast_ofNat, Nat.cast_add, Nat.cast_one] at hflat

/-- How many sectors `count` bytes from `offset` on are in. -/
def nrSectors (count offset : ℕ) : ℕ := (offset % 512 + count + 511) / 512

theorem toNat_ofInt {n : ℕ} (h : n < 2 ^ 32) : (UInt32.ofInt n).toNat = n := by
  have hmod : (UInt32.ofInt n).toNat = ((n : ℤ) % 2 ^ 32).toNat % 2 ^ 32 := UInt32.toNat_ofNat'
  omega

/-- **The two functions**, when the sectors that they move end before the last address. -/
theorem Flat.seg (hsect : SameSect sect sect') {pa : UInt32} {count offset fuel : ℕ}
    (hcount : count < 2 ^ 31) (hoffset : offset < 2 ^ 31) (hpa : offset % 512 ≤ pa.toNat)
    (hwrap : pa.toNat - offset % 512 + 512 * nrSectors count offset < 2 ^ 32)
    (hfuel : nrSectors count offset < fuel) (h : Flat m f) :
    ∃ m', m.seg sect fuel pa count offset = some m' ∧
      Flat m' (OsLab.segLoop sect' (pa.toNat + count : ℕ) (pa.toNat - offset % 512 : ℕ)
        (offset / 512 + 1 : ℕ) f) := by
  have hcast : (offset : ℤ) % 512 = (offset % 512 : ℕ) := by omega
  have hmod : (offset : ℤ).tmod 512 = (offset % 512 : ℕ) := by
    rw [Int.tmod_eq_emod_of_nonneg (by omega), hcast]
  have hdiv : (offset : ℤ).tdiv 512 + 1 = (offset / 512 + 1 : ℕ) := by
    rw [Int.tdiv_eq_ediv_of_nonneg (by omega)]
    omega
  have hint : int32 ((offset / 512 + 1 : ℕ) : ℤ) = (offset / 512 + 1 : ℕ) :=
    int32_eq (by omega) (by omega)
  have hround : offset % 512 + count ≤ 512 * nrSectors count offset ∧
      512 * nrSectors count offset < offset % 512 + count + 512 := by
    rw [nrSectors]
    omega
  have hepa : (pa + UInt32.ofInt count).toNat = pa.toNat + count := by
    have hadd :
        (pa + UInt32.ofInt count).toNat = (pa.toNat + (UInt32.ofInt count).toNat) % 2 ^ 32 :=
      UInt32.toNat_add ..
    rw [toNat_ofInt (by omega)] at hadd
    omega
  have hstart : (pa - UInt32.ofInt (offset % 512 : ℕ)).toNat = pa.toNat - offset % 512 := by
    have hsub := UInt32.toNat_sub pa (UInt32.ofInt (offset % 512 : ℕ))
    rw [toNat_ofInt (by omega)] at hsub
    have hlt := pa.toNat_lt
    omega
  rw [PointerMachine.seg, hmod, hdiv, hint, ← hepa, ← hstart]
  exact h.segLoop hsect (by omega) (by omega) (by omega) (by omega) hfuel

end Loop

/-! ## What is moved -/

/-- Byte `p` of the disk. -/
def Disk.byteAt (d : Disk) (p : ℕ) : UInt8 := (d (p / 512)).get (p % 512)

theorem Disk.byteAt_add (d : Disk) (p : ℕ) : d.byteAt (512 + p) = diskByte d p := by
  have hdiv : (512 + p) / 512 = p / 512 + 1 := by omega
  have hmod : (512 + p) % 512 = p % 512 := by omega
  rw [byteAt, diskByte, hdiv, hmod]

/-- The sectors that the loop of `writeseg` writes. -/
theorem segLoop_writesect {epa pa : ℤ} {n p : ℕ} {f : Machine}
    (hlow : 512 * (n : ℤ) - 512 < epa - pa) (hhigh : epa - pa ≤ 512 * n) (hp : p + n ≤ 2 ^ 28) :
    (segLoop writesect epa pa p f).mem = f.mem ∧
      (segLoop writesect epa pa p f).disk =
        f.disk.writeMany p n fun k => ByteBlock.ofFn 512 fun i =>
          f.mem (pa + (512 * k + i : ℕ)) := by
  induction n generalizing pa p f with
  | zero =>
    rw [segLoop, if_neg (by omega)]
    refine ⟨rfl, funext fun s => ?_⟩
    rw [Disk.writeMany_of_not_mem _ (by omega)]
  | succ n ih =>
    have hlba := @lba_of_lt p (by omega) (by omega)
    rw [segLoop, if_pos (by omega)]
    obtain ⟨hmem, hdisk⟩ :=
      @ih (pa + 512) (p + 1) (writesect pa p f) (by omega) (by omega) (by omega)
    rw [← Nat.cast_succ, hmem, hdisk]
    refine ⟨rfl, funext fun s => ?_⟩
    have hsector : lba p = p := by omega
    have hwrite : (writesect pa p f).disk =
        f.disk.write p (ByteBlock.ofFn 512 fun i => f.mem (pa + i)) := by rw [writesect, hsector]
    rcases lt_trichotomy s p with hbefore | rfl | hafter
    · rw [Disk.writeMany_of_not_mem _ (.inl (by omega)), Disk.writeMany_of_not_mem _ (.inl hbefore),
        hwrite, Disk.write_of_ne _ (by omega)]
    · rw [Disk.writeMany_of_not_mem _ (.inl (by omega)),
        Disk.writeMany_of_mem _ (Nat.le_refl s) (by omega), hwrite, Disk.write_self,
        Nat.sub_self]
      simp
    · by_cases hlast : s < p + 1 + n
      · rw [Disk.writeMany_of_mem _ (by omega) hlast, Disk.writeMany_of_mem _ (by omega) (by omega)]
        refine congrArg _ (funext fun i => congrArg f.mem ?_)
        omega
      · rw [Disk.writeMany_of_not_mem _ (.inr (by omega)),
          Disk.writeMany_of_not_mem _ (.inr (by omega)), hwrite,
          Disk.write_of_ne _ (by omega)]

/-- What `readseg` leaves when it reads `n` sectors from sector `p` on to address `lo`. -/
def PointerMachine.sectorsRead (m : PointerMachine) (lo p n : ℕ) : PointerMachine :=
  { m with mem := fun a =>
      if lo ≤ a.toNat ∧ a.toNat < lo + 512 * n then m.disk.byteAt (512 * p + (a.toNat - lo))
      else m.mem a }

/-- What `writeseg` leaves. -/
def PointerMachine.sectorsWritten (m : PointerMachine) (lo p n : ℕ) : PointerMachine :=
  { m with disk := m.disk.writeMany p n fun k =>
      ByteBlock.ofFn 512 fun i => m.mem (UInt32.ofNat (lo + (512 * k + i))) }

/-- A machine is what its flat memory shows. -/
theorem Flat.eq {m m' : PointerMachine} {f : Machine} (h : Flat m f) (h' : Flat m' f) : m = m' := by
  obtain ⟨disk, mem⟩ := m
  obtain ⟨disk', mem'⟩ := m'
  obtain rfl : disk = disk' := h.disk.symm.trans h'.disk
  obtain rfl : mem = mem' := funext fun a => (h.mem a).symm.trans (h'.mem a)
  rfl

section Seg

variable {m : PointerMachine} {pa : UInt32} {count offset fuel : ℕ}

/-- **`readseg`** -/
theorem readseg_eq (hcount : count < 2 ^ 31) (hoffset : offset < 2 ^ 31)
    (hpa : offset % 512 ≤ pa.toNat)
    (hwrap : pa.toNat - offset % 512 + 512 * nrSectors count offset < 2 ^ 32)
    (hfuel : nrSectors count offset < fuel) :
    m.readseg fuel pa count offset = some
      (m.sectorsRead (pa.toNat - offset % 512) (offset / 512 + 1) (nrSectors count offset)) := by
  obtain ⟨m', hm', hflat⟩ := (flat_flat m).seg sameSect_read hcount hoffset hpa hwrap hfuel
  have hround : offset % 512 + count ≤ 512 * nrSectors count offset ∧
      512 * nrSectors count offset < offset % 512 + count + 512 := by
    rw [nrSectors]
    omega
  refine hm'.trans (congrArg some (hflat.eq ⟨(segLoop_disk ..).symm ▸ rfl, fun a => ?_⟩))
  have hread := @segLoop_readsect (pa.toNat + count : ℕ) (pa.toNat - offset % 512 : ℕ)
    (nrSectors count offset) (offset / 512) m.flat (by omega) (by omega) (by omega) a.toNat
  rw [Nat.cast_succ, hread]
  refine if_ctx_congr (by omega) (fun hin => ?_) fun _ => (flat_flat m).mem a
  have hpos : 512 * (offset / 512 + 1) + (a.toNat - (pa.toNat - offset % 512)) =
      512 + (512 * (offset / 512) + ((a.toNat : ℤ) - (pa.toNat - offset % 512 : ℕ)).toNat) := by
    omega
  rw [hpos, Disk.byteAt_add]
  rfl

/-- **`writeseg`** -/
theorem writeseg_eq (hcount : count < 2 ^ 31) (hoffset : offset < 2 ^ 31)
    (hpa : offset % 512 ≤ pa.toNat)
    (hwrap : pa.toNat - offset % 512 + 512 * nrSectors count offset < 2 ^ 32)
    (hfuel : nrSectors count offset < fuel) :
    m.writeseg fuel pa count offset = some
      (m.sectorsWritten (pa.toNat - offset % 512) (offset / 512 + 1) (nrSectors count offset)) := by
  obtain ⟨m', hm', hflat⟩ := (flat_flat m).seg sameSect_write hcount hoffset hpa hwrap hfuel
  have hround : offset % 512 + count ≤ 512 * nrSectors count offset ∧
      512 * nrSectors count offset < offset % 512 + count + 512 := by
    rw [nrSectors]
    omega
  obtain ⟨hmem, hdisk⟩ := @segLoop_writesect (pa.toNat + count : ℕ) (pa.toNat - offset % 512 : ℕ)
    (nrSectors count offset) (offset / 512 + 1) m.flat (by omega) (by omega) (by omega)
  have hbytes (p : ℕ) : m.flat.mem ((pa.toNat - offset % 512 : ℕ) + (p : ℤ)) =
      m.mem (UInt32.ofNat (pa.toNat - offset % 512 + p)) := by
    rw [← Nat.cast_add]
    exact congrArg (fun p => m.mem (UInt32.ofNat p)) (Int.toNat_natCast _)
  refine hm'.trans (congrArg some (hflat.eq ⟨hdisk.trans ?_, fun a => ?_⟩))
  · simp only [hbytes]
    rfl
  · rw [hmem]
    exact (flat_flat m).mem a

end Seg

/-- What was written is read back to where it was. -/
theorem sectorsRead_written (m : PointerMachine) {lo n : ℕ} (p : ℕ) (hend : lo + 512 * n < 2 ^ 32) :
    (m.sectorsWritten lo p n).sectorsRead lo p n = m.sectorsWritten lo p n := by
  have hmem : ((m.sectorsWritten lo p n).sectorsRead lo p n).mem = m.mem := by
    funext a
    simp only [PointerMachine.sectorsRead]
    split
    · have hin : lo ≤ a.toNat ∧ a.toNat < lo + 512 * n := ‹_›
      have hdisk : (m.sectorsWritten lo p n).disk = m.disk.writeMany p n fun k =>
          ByteBlock.ofFn 512 fun i => m.mem (UInt32.ofNat (lo + (512 * k + i))) := rfl
      have hdiv : (512 * p + (a.toNat - lo)) / 512 = p + (a.toNat - lo) / 512 := by omega
      have hmod : (512 * p + (a.toNat - lo)) % 512 = (a.toNat - lo) % 512 := by omega
      have hsector : p + (a.toNat - lo) / 512 - p = (a.toNat - lo) / 512 := by omega
      have ha : lo + (512 * ((a.toNat - lo) / 512) + (a.toNat - lo) % 512) = a.toNat := by omega
      rw [Disk.byteAt, hdiv, hmod, hdisk, Disk.writeMany_of_mem _ (by omega) (by omega),
        hsector, ByteBlock.get_ofFn, if_pos (Nat.mod_lt _ (by omega)), ha, UInt32.ofNat_toNat]
    · rfl
  rw [PointerMachine.sectorsRead] at hmem ⊢
  exact congrArg (PointerMachine.mk _) hmem

/-- What a call of `readseg` and a call of `writeseg` with these arguments do to `m`: `r` bytes in
front of `pa` are moved as well, and `q` sectors in all. -/
structure SegExact (m read written : PointerMachine) (pa : UInt32) (count offset r q : ℕ) :
    Prop where
  /-- Reading leaves the disk alone. -/
  disk : read.disk = m.disk
  /-- It changes `512 * q` bytes of memory, from `pa - r` on. -/
  mem : ∀ a, read.mem a =
    if pa.toNat - r ≤ a.toNat ∧ a.toNat < pa.toNat - r + 512 * q then
      m.disk.byteAt (512 * (offset / 512 + 1) + (a.toNat - (pa.toNat - r)))
    else m.mem a
  /-- The bytes that were asked for are in their places. -/
  bytes : ∀ k < count, read.mem (pa + UInt32.ofNat k) = m.disk.byteAt (512 + offset + k)
  /-- Writing leaves memory alone. -/
  written_mem : written.mem = m.mem
  /-- It changes `q` sectors. -/
  written_disk : ∀ s, written.disk s =
    if offset / 512 + 1 ≤ s ∧ s < offset / 512 + 1 + q then
      ByteBlock.ofFn 512 fun i =>
        m.mem (UInt32.ofNat (pa.toNat - r + (512 * (s - (offset / 512 + 1)) + i)))
    else m.disk s

/-- **`readseg` and `writeseg` are exact.** When the sectors end before the last address, both end,
whatever the disk and memory are, and `readseg` right after `writeseg` changes nothing. -/
theorem seg_exact (m : PointerMachine) {pa : UInt32} {count offset : ℕ} (hcount : count < 2 ^ 31)
    (hoffset : offset < 2 ^ 31) (hpa : offset % 512 ≤ pa.toNat)
    (hwrap : pa.toNat - offset % 512 + 512 * ((offset % 512 + count + 511) / 512) < 2 ^ 32) :
    ∃ read written, SegExact m read written pa count offset (offset % 512)
      ((offset % 512 + count + 511) / 512) ∧
      ∀ fuel, (offset % 512 + count + 511) / 512 < fuel →
        m.readseg fuel pa count offset = some read ∧
        m.writeseg fuel pa count offset = some written ∧
        written.readseg fuel pa count offset = some written := by
  have hread {m : PointerMachine} {fuel : ℕ} (hfuel : nrSectors count offset < fuel) :=
    @readseg_eq m pa count offset fuel hcount hoffset hpa hwrap hfuel
  have hround : offset % 512 + count ≤ 512 * nrSectors count offset := by
    rw [nrSectors]
    omega
  have hend : pa.toNat - offset % 512 + 512 * nrSectors count offset < 2 ^ 32 := hwrap
  refine ⟨m.sectorsRead (pa.toNat - offset % 512) (offset / 512 + 1) (nrSectors count offset),
    m.sectorsWritten (pa.toNat - offset % 512) (offset / 512 + 1) (nrSectors count offset),
    ⟨rfl, fun a => rfl, fun k hk => ?_, rfl, fun s => rfl⟩, fun fuel hfuel =>
    ⟨hread hfuel, writeseg_eq hcount hoffset hpa hwrap hfuel, (hread hfuel).trans ?_⟩⟩
  · have hadd : (pa + UInt32.ofNat k).toNat = (pa.toNat + k % 2 ^ 32) % 2 ^ 32 := by
      rw [UInt32.toNat_add, UInt32.toNat_ofNat']
    have ha : (pa + UInt32.ofNat k).toNat = pa.toNat + k := by omega
    have hpos : 512 * (offset / 512 + 1) + (pa.toNat + k - (pa.toNat - offset % 512)) =
        512 + offset + k := by omega
    simp only [PointerMachine.sectorsRead, ha, hpos]
    exact if_pos (by omega)
  · exact congrArg some (sectorsRead_written m _ hend)

/-- 600 bytes from offset 100 on, which are in two sectors. -/
theorem seg_exact_two :
    ∃ read written, SegExact ⟨fun _ => zeroSector, fun a => UInt8.ofNat a.toNat⟩ read written 0x1000
      600 100 100 2 ∧
      ∀ fuel, 2 < fuel →
        PointerMachine.readseg fuel 0x1000 (600 : ℕ) (100 : ℕ)
          ⟨fun _ => zeroSector, fun a => UInt8.ofNat a.toNat⟩ = some read ∧
        PointerMachine.writeseg fuel 0x1000 (600 : ℕ) (100 : ℕ)
          ⟨fun _ => zeroSector, fun a => UInt8.ofNat a.toNat⟩ = some written ∧
        written.readseg fuel 0x1000 (600 : ℕ) (100 : ℕ) = some written :=
  seg_exact _ (by decide) (by decide) (by decide) (by decide)

end OsLab
