import OsLab.FileSystem.RoundTrip
import OsLab.Process.Lifecycle

/-!
# Where `read` writes

The middle blocks of a request are moved with `strcpy`, which writes the terminator too. Where a
block has no zero byte that is `temp_buf[512]`, and it goes to the byte behind the block. The next
block overwrites it, or the last part of the request does; but when the request ends at the end of a
block the last part is empty, and the byte behind the caller's buffer is cleared.

A sum of offset and count that is negative, after an overflow or from a negative offset, makes the
size of the last part negative, which `strncpy` takes for a huge one.

## Main definitions

* `StaysInside` — the requests that stay inside
* `ReadsInside` — `read` writes into the caller's buffer only
* `ReadSoFar` — the middle blocks so far, up to block `i` of the request: bytes from `0` to in front
  of position `512 * i` of the file may be written, and the byte there is cleared by a block without
  a zero

## Main results

* `readsInside_iff` — `read` stays inside the buffer, exactly if neither happens
-/

namespace OsLab

section Read

variable (stray : ℤ → UInt32) (inode : Sector) (d : Disk)

/-- Block `i` of the file has no zero byte. -/
def NoZero (i : ℤ) : Prop := ∀ b < 512, (d (lba (segSector (entryAt stray inode i)))).get b ≠ 0

/-- **The requests that stay inside.** They end in the block they start in; or they end at a
position that is not negative, and if that is the end of a block then there is no block between the
first one and the end, or the last block before the end has a zero byte. -/
def StaysInside (offset count : ℤ) : Prop :=
  (int32 (offset + count)).tdiv 512 = offset.tdiv 512 ∨
    0 ≤ (int32 (offset + count)).tmod 512 ∧
      ((int32 (offset + count)).tmod 512 = 0 →
        offset.tdiv 512 + 2 ≤ (int32 (offset + count)).tdiv 512 →
        ¬NoZero stray inode d ((int32 (offset + count)).tdiv 512 - 1))

end Read

/-- **`read` writes into the caller's buffer only.** Whatever is in memory, the bytes outside
`buf[0..count)` are as before. -/
def ReadsInside (stray : ℤ → UInt32) (junk : Mem) (k : Kernel) (fd count : ℤ) : Prop :=
  ∀ (buf : Mem) (a : ℤ), ¬(0 ≤ a ∧ a < count) → (readFile stray junk k fd buf count).buf a = buf a

/-! ## The parts of a request -/

section Parts

variable {stray : ℤ → UInt32} {inode : Sector} {d : Disk} {x : Transfer} {buf : Mem}

/-- What `takeChunk` writes. -/
theorem takeChunk_buf (pos start size : ℤ) (x : Transfer) (a : ℤ) :
    (takeChunk pos start size x).buf a =
      if pos ≤ a ∧ a < pos + uint32 size then stringByte x.m.mem start (a - pos).toNat
      else x.buf a := by
  rw [takeChunk, Transfer.buf_setBuf, strncpy_get]

/-- The part of the buffer that a middle block writes, up to and including the terminator. -/
theorem takeBlock_buf (hlast : x.m.mem 512 = 0) (hdisk : x.m.disk = d) (pos i : ℤ) :
    ∃ z : ℕ, z ≤ 512 ∧ (z = 512 ↔ NoZero stray inode d i) ∧
      (takeBlock stray inode pos i x).buf (pos + z) = 0 ∧
      ∀ a, a < pos ∨ pos + z < a → (takeBlock stray inode pos i x).buf a = x.buf a := by
  obtain ⟨T, hT⟩ : ∃ T : Mem, (readBlock stray inode i x).m.mem = T := ⟨_, rfl⟩
  have hbyte : ∀ r : ℕ, r < 512 →
      T (0 + (r : ℤ)) = (d (lba (segSector (entryAt stray inode i)))).get r := fun r hr => by
    rw [← hT, readBlock_mem, if_pos (by omega), hdisk]
    congr 1
    omega
  have hend : T (0 + (512 : ℕ)) = 0 := by
    have hcast : (0 : ℤ) + (512 : ℕ) = 512 := by omega
    rw [hcast, ← hT, mem_readBlock_last, hlast]
  have hex : ∃ z : ℕ, T (0 + (z : ℤ)) = 0 := ⟨512, hend⟩
  obtain ⟨z, hz, hmin⟩ : ∃ z : ℕ, T (0 + (z : ℤ)) = 0 ∧ ∀ j < z, T (0 + (j : ℤ)) ≠ 0 :=
    ⟨Nat.find hex, Nat.find_spec hex, fun j hj => Nat.find_min hex hj⟩
  have hz512 : z ≤ 512 := Nat.not_lt.mp fun hlt => hmin 512 hlt hend
  have hbuf : ∀ a : ℤ, (takeBlock stray inode pos i x).buf a =
      if pos ≤ a ∧ a ≤ pos + z then T (0 + (a - pos)) else x.buf a := fun a => by
    rw [takeBlock, Transfer.buf_setBuf, hT, strcpy_get _ _ (show z < 513 by omega) hz hmin,
      readBlock_buf]
  refine ⟨z, hz512, ⟨fun h b hb hzero => ?_, fun h => ?_⟩, ?_, fun a ha => ?_⟩
  · exact hmin b (by omega) (by rw [hbyte b hb, hzero])
  · by_contra hne
    exact h z (by omega) (by rw [← hbyte z (by omega), hz])
  · have hoff : 0 + (pos + z - pos) = 0 + (z : ℤ) := by omega
    rw [hbuf, if_pos (by omega), hoff, hz]
  · rw [hbuf, if_neg (by omega)]

@[simp] theorem takeChunk_disk (pos start size : ℤ) (x : Transfer) :
    (takeChunk pos start size x).m.disk = x.m.disk := by
  rw [takeChunk, Transfer.m_setBuf]

@[simp] theorem takeChunk_mem (pos start size : ℤ) (x : Transfer) :
    (takeChunk pos start size x).m.mem = x.m.mem := by
  rw [takeChunk, Transfer.m_setBuf]

/-- **The middle blocks so far**, up to block `i` of the request: bytes from `0` to in front of
position `512 * i` of the file may be written, and the byte there is cleared by a block without a
zero. -/
structure ReadSoFar (stray : ℤ → UInt32) (inode : Sector) (d : Disk) (buf : Mem) (offset i : ℤ)
    (x : Transfer) : Prop where
  disk : x.m.disk = d
  last : x.m.mem 512 = 0
  frame : ∀ a, a < 0 ∨ 512 * i - offset < a → x.buf a = buf a
  kept : ¬(offset.tdiv 512 + 2 ≤ i ∧ NoZero stray inode d (i - 1)) →
    x.buf (512 * i - offset) = buf (512 * i - offset)
  cleared : offset.tdiv 512 + 2 ≤ i → NoZero stray inode d (i - 1) →
    x.buf (512 * i - offset) = 0

/-- The first part of a request fills the buffer up to the end of the block. -/
theorem ReadSoFar.first {offset : ℤ} (hdisk : x.m.disk = d) (hlast : x.m.mem 512 = 0)
    (hbuf : x.buf = buf) :
    ReadSoFar stray inode d buf offset (offset.tdiv 512 + 1)
      (takeChunk 0 (offset.tmod 512) (512 - offset.tmod 512)
        (readBlock stray inode (offset.tdiv 512) x)) := by
  have hdiv := tdiv_tmod_spec offset (show (0 : ℤ) < 512 by decide)
  have hstart := tmod_bounds offset (show (0 : ℤ) < 512 by decide)
  have hsize : (uint32 (512 - offset.tmod 512) : ℤ) = 512 - offset.tmod 512 := by
    rw [uint32_eq (by omega) (by omega)]
    omega
  refine ⟨?_, ?_, fun a ha => ?_, fun _ => ?_, fun hle => absurd hle (by omega)⟩
  · rw [takeChunk_disk, readBlock_disk, hdisk]
  · rw [takeChunk_mem, mem_readBlock_last, hlast]
  · rw [takeChunk_buf, if_neg (by omega), readBlock_buf, hbuf]
  · rw [takeChunk_buf, if_neg (by omega), readBlock_buf, hbuf]

/-- **One middle block.** -/
theorem ReadSoFar.step {offset i : ℤ} (h : ReadSoFar stray inode d buf offset i x)
    (hi : offset.tdiv 512 + 1 ≤ i) :
    ReadSoFar stray inode d buf offset (i + 1) (takeBlock stray inode (512 * i - offset) i x) := by
  have hdiv := tdiv_tmod_spec offset (show (0 : ℤ) < 512 by decide)
  have hstart := tmod_bounds offset (show (0 : ℤ) < 512 by decide)
  obtain ⟨z, hz, hzero, hend, hframe⟩ := @takeBlock_buf stray inode d x h.last h.disk
    (512 * i - offset) i
  refine ⟨?_, ?_, fun a ha => ?_, fun hnot => ?_, fun _ hno => ?_⟩
  · rw [takeBlock, Transfer.m_setBuf, readBlock_disk, h.disk]
  · rw [takeBlock, Transfer.m_setBuf, mem_readBlock_last, h.last]
  · rw [hframe a (by omega), h.frame a (by omega)]
  · have hlt : z ≠ 512 := fun h512 => hnot ⟨by omega, by
      rw [Int.add_sub_cancel]
      exact hzero.mp h512⟩
    rw [hframe _ (by omega), h.frame _ (by omega)]
  · rw [Int.add_sub_cancel] at hno
    have h512 := hzero.mpr hno
    have hpos : 512 * (i + 1) - offset = 512 * i - offset + z := by omega
    rw [hpos, hend]

end Parts

/-! ## The request as a whole -/

section Request

variable {stray : ℤ → UInt32} {inode : Sector} {d : Disk} {x : Transfer} {buf : Mem}
  {offset count : ℤ}

/-- A request that ends in another block than it starts in: its last part follows the first block
and the middle blocks. -/
theorem readTransfer_last (hdisk : x.m.disk = d) (hlast : x.m.mem 512 = 0) (hbuf : x.buf = buf)
    (hsec : (int32 (offset + count)).tdiv 512 ≠ offset.tdiv 512) :
    ∃ y, ReadSoFar stray inode d buf offset
        (max (offset.tdiv 512 + 1) ((int32 (offset + count)).tdiv 512)) y ∧
      (readTransfer stray inode offset count x).1 =
        takeChunk (int32 (512 * (int32 (offset + count)).tdiv 512 - offset)) 0
          ((int32 (offset + count)).tmod 512)
          (readBlock stray inode ((int32 (offset + count)).tdiv 512) y) := by
  have hdiv := tdiv_tmod_spec offset (show (0 : ℤ) < 512 by decide)
  have htotal := (tdiv_tmod_spec (int32 (offset + count)) (show (0 : ℤ) < 512 by decide)).1
  have hfirst : ReadSoFar stray inode d buf offset (offset.tdiv 512 + 1) _ :=
    ReadSoFar.first hdisk hlast hbuf
  have hsec' : ¬(int32 (offset + count)).tdiv 512 - offset.tdiv 512 = 0 := by omega
  have hpos :
      512 - offset.tmod 512 + ((int32 (offset + count)).tdiv 512 - offset.tdiv 512 - 1) * 512 =
      512 * (int32 (offset + count)).tdiv 512 - offset := by omega
  have hsize : int32 (offset + count) - (int32 (offset + count)).tdiv 512 * 512 =
      (int32 (offset + count)).tmod 512 := by omega
  have hround : (fun (i : ℤ) (x : Transfer) => takeBlock stray inode
      (512 - offset.tmod 512 + (i - offset.tdiv 512 - 1) * 512) i x) =
        fun i x => takeBlock stray inode (512 * i - offset) i x := by
    funext i x
    congr 1
    omega
  simp only [readTransfer, if_neg hsec', hpos, hsize, hround]
  refine ⟨_, ?_, rfl⟩
  rcases Int.lt_or_le (offset.tdiv 512) ((int32 (offset + count)).tdiv 512) with hlt | hge
  · rw [max_eq_right (by omega)]
    exact forRange_induction (P := fun i x => ReadSoFar stray inode d buf offset i x) (by omega)
      (fun i y hlo _ hy => hy.step hlo) hfirst
  · rw [max_eq_left (by omega), forRange_of_ge (by omega)]
    exact hfirst

/-- A request that ends in the block it starts in. -/
theorem readTransfer_single (hsec : (int32 (offset + count)).tdiv 512 = offset.tdiv 512)
    (hcount : 0 ≤ count) (hlt : count < 2 ^ 31) {a : ℤ} (ha : ¬(0 ≤ a ∧ a < count)) :
    (readTransfer stray inode offset count x).1.buf a = x.buf a := by
  have hstart := tmod_bounds offset (show (0 : ℤ) < 512 by decide)
  simp only [readTransfer, hsec, Int.sub_self, if_true]
  rw [takeChunk_buf, readBlock_buf, if_neg]
  rw [uint32_eq hcount (by omega), uint32_eq (x := 513 - offset.tmod 512) (by omega) (by omega)]
  split
  · rw [uint32_eq hcount (by omega)]
    omega
  · rw [uint32_eq (by omega) (by omega)]
    omega

/-- When the end is negative and inside a block, the last part of the request overwrites a byte
outside the buffer with the first byte of the block. -/
theorem readTransfer_negative (hdisk : x.m.disk = d) (hlast : x.m.mem 512 = 0) (hbuf : x.buf = buf)
    (hsec : (int32 (offset + count)).tdiv 512 ≠ offset.tdiv 512)
    (hcount : 0 ≤ count) (hlt : count < 2 ^ 31)
    (hneg : (int32 (offset + count)).tmod 512 < 0) :
    ∃ a : ℤ, ¬(0 ≤ a ∧ a < count) ∧
      (readTransfer stray inode offset count x).1.buf a =
        (d (lba (segSector (entryAt stray inode ((int32 (offset + count)).tdiv 512))))).get 0 := by
  obtain ⟨y, hy, hrequest⟩ := @readTransfer_last stray inode d x buf offset count hdisk hlast
    hbuf hsec
  have hbounds := tmod_bounds (int32 (offset + count)) (show (0 : ℤ) < 512 by decide)
  have htotal := (tdiv_tmod_spec (int32 (offset + count)) (show (0 : ℤ) < 512 by decide)).1
  have hmod : int32 (offset + count) % 2 ^ 32 = (offset + count) % 2 ^ 32 := Int.bmod_emod ..
  generalize hpos : 512 * (int32 (offset + count)).tdiv 512 - offset = pos at hrequest
  have hposmod : int32 pos % 2 ^ 32 = pos % 2 ^ 32 := Int.bmod_emod ..
  have hle := le_int32 pos
  have hposlt := int32_lt pos
  refine ⟨int32 pos, by omega, ?_⟩
  have hsize : 0 < uint32 ((int32 (offset + count)).tmod 512) := by
    rw [uint32]
    omega
  have hbyte : (readBlock stray inode ((int32 (offset + count)).tdiv 512) y).m.mem 0 =
      (d (lba (segSector (entryAt stray inode ((int32 (offset + count)).tdiv 512))))).get 0 := by
    rw [readBlock_mem, if_pos (by omega), hy.disk]
    rfl
  rw [hrequest, takeChunk_buf, if_pos (by omega), Int.sub_self, Int.toNat_zero, stringByte_zero,
    hbyte]

/-- A request that ends at a position that is not negative, where nothing was added up to more than
an `int`: the last part ends with the buffer. -/
theorem readTransfer_forward (hdisk : x.m.disk = d) (hlast : x.m.mem 512 = 0) (hbuf : x.buf = buf)
    (hsec : (int32 (offset + count)).tdiv 512 ≠ offset.tdiv 512) (hlo : -2 ^ 31 ≤ offset)
    (hcount : 0 ≤ count) (hlt : count < 2 ^ 31) (hsum : offset + count < 2 ^ 31)
    (hpos : 0 ≤ (int32 (offset + count)).tmod 512) :
    ∃ y, ReadSoFar stray inode d buf offset ((int32 (offset + count)).tdiv 512) y ∧
      0 ≤ 512 * (int32 (offset + count)).tdiv 512 - offset ∧
      512 * (int32 (offset + count)).tdiv 512 - offset + (int32 (offset + count)).tmod 512 = count ∧
      ∀ a, ¬(0 ≤ a ∧ a < count) → (readTransfer stray inode offset count x).1.buf a = y.buf a := by
  obtain ⟨y, hy, hrequest⟩ := @readTransfer_last stray inode d x buf offset count hdisk hlast
    hbuf hsec
  have hsame : int32 (offset + count) = offset + count := int32_eq (by omega) hsum
  rw [hsame] at hsec hpos hy hrequest ⊢
  obtain ⟨hdiv, hdivpos, hdivneg⟩ := tdiv_tmod_spec offset (show (0 : ℤ) < 512 by decide)
  obtain ⟨htot, htotpos, htotneg⟩ := tdiv_tmod_spec (offset + count) (show (0 : ℤ) < 512 by decide)
  have hlater : offset.tdiv 512 + 1 ≤ (offset + count).tdiv 512 := by omega
  have hbounds := tmod_bounds offset (show (0 : ℤ) < 512 by decide)
  have hbounds' := tmod_bounds (offset + count) (show (0 : ℤ) < 512 by decide)
  rw [max_eq_right hlater] at hy
  refine ⟨y, hy, by omega, by omega, fun a ha => ?_⟩
  rw [hrequest, int32_eq (by omega) (by omega), takeChunk_buf, readBlock_buf, if_neg]
  rw [uint32_eq hpos (by omega)]
  omega

/-- A request whose end overflows to a negative position at the end of a block. -/
theorem readTransfer_overflow (hdisk : x.m.disk = d) (hlast : x.m.mem 512 = 0) (hbuf : x.buf = buf)
    (hsec : (int32 (offset + count)).tdiv 512 ≠ offset.tdiv 512)
    (hhi : offset < 2 ^ 31) (hlt : count < 2 ^ 31) (hsum : 2 ^ 31 ≤ offset + count)
    (hpos : 0 ≤ (int32 (offset + count)).tmod 512) :
    (int32 (offset + count)).tdiv 512 < offset.tdiv 512 ∧
      ∀ a, ¬(0 ≤ a ∧ a < count) → (readTransfer stray inode offset count x).1.buf a = buf a := by
  obtain ⟨y, hy, hrequest⟩ := @readTransfer_last stray inode d x buf offset count hdisk hlast
    hbuf hsec
  have hsame : int32 (offset + count) = offset + count - 2 ^ 32 :=
    int32_eq_of_overflow hsum (by omega)
  rw [hsame] at hsec hpos hy hrequest ⊢
  obtain ⟨hdiv, hdivpos, -⟩ := tdiv_tmod_spec offset (show (0 : ℤ) < 512 by decide)
  obtain ⟨htot, -, htotneg⟩ :=
    tdiv_tmod_spec (offset + count - 2 ^ 32) (show (0 : ℤ) < 512 by decide)
  have hearlier : (offset + count - 2 ^ 32).tdiv 512 < offset.tdiv 512 := by omega
  rw [max_eq_left (by omega)] at hy
  refine ⟨hearlier, fun a ha => ?_⟩
  have hnone : uint32 ((offset + count - 2 ^ 32).tmod 512) = 0 := by
    rw [uint32_eq hpos (by omega)]
    omega
  rw [hrequest, takeChunk_buf, readBlock_buf, hnone, if_neg (by omega)]
  rcases eq_or_ne a (512 * (offset.tdiv 512 + 1) - offset) with rfl | hne
  · exact hy.kept fun hboth => absurd hboth.1 (by omega)
  · exact hy.frame a (by omega)

end Request

/-- **When a request stays inside the buffer.** -/
theorem readTransfer_inside_iff (stray : ℤ → UInt32) (inode : Sector) (d : Disk) (temp_buf : Mem)
    (hlast : temp_buf 512 = 0) {offset count : ℤ} (hlo : -2 ^ 31 ≤ offset) (hhi : offset < 2 ^ 31)
    (hcount : 0 ≤ count) (hlt : count < 2 ^ 31) :
    (∀ (buf : Mem) (a : ℤ), ¬(0 ≤ a ∧ a < count) →
      (readTransfer stray inode offset count ⟨⟨d, temp_buf, []⟩, buf, []⟩).1.buf a = buf a) ↔
        StaysInside stray inode d offset count := by
  by_cases hsec : (int32 (offset + count)).tdiv 512 = offset.tdiv 512
  · exact iff_of_true (fun buf a ha => readTransfer_single hsec hcount hlt ha) (.inl hsec)
  rw [StaysInside, or_iff_right hsec]
  rcases Int.lt_or_le ((int32 (offset + count)).tmod 512) 0 with hneg | hpos
  · refine iff_of_false (fun hinside => ?_) fun h => absurd h.1 (by omega)
    -- a buffer that holds something else than the byte that is written
    obtain ⟨v, hv⟩ : ∃ v : UInt8, v = (d (lba (segSector (entryAt stray inode
      ((int32 (offset + count)).tdiv 512))))).get 0 := ⟨_, rfl⟩
    obtain ⟨a, ha, hwritten⟩ := @readTransfer_negative stray inode d
      ⟨⟨d, temp_buf, []⟩, fun _ => v + 1, []⟩ _ offset count rfl hlast rfl hsec hcount hlt hneg
    rw [← hv, hinside _ a ha] at hwritten
    exact absurd hwritten (by simp)
  · rw [and_iff_right hpos]
    rcases Int.lt_or_le (offset + count) (2 ^ 31) with hsum | hsum
    · constructor
      · intro hinside hzero hmiddle hno
        obtain ⟨y, hy, hnonneg, hend, hframe⟩ := @readTransfer_forward stray inode d
          ⟨⟨d, temp_buf, []⟩, fun _ => 1,
          []⟩ _ offset count rfl hlast rfl hsec hlo hcount hlt hsum hpos
        have hcleared := hy.cleared hmiddle hno
        have hbehind : 512 * (int32 (offset + count)).tdiv 512 - offset = count := by omega
        rw [hbehind, ← hframe count (by omega), hinside _ count (by omega)] at hcleared
        exact absurd hcleared (by decide)
      · intro hstays buf a ha
        obtain ⟨y, hy, hnonneg, hend, hframe⟩ := @readTransfer_forward stray inode d
          ⟨⟨d, temp_buf, []⟩, buf, []⟩ _ offset count rfl hlast rfl hsec hlo hcount hlt hsum hpos
        rw [hframe a ha]
        rcases eq_or_ne a (512 * (int32 (offset + count)).tdiv 512 - offset) with heq | hne
        · rw [heq]
          exact hy.kept fun hboth => hstays (by omega) hboth.1 hboth.2
        · exact hy.frame a (by omega)
    · have hover : ∀ buf : Mem, _ := fun buf => @readTransfer_overflow stray inode d
        ⟨⟨d, temp_buf, []⟩, buf, []⟩ buf offset count rfl hlast rfl hsec hhi hlt hsum hpos
      refine iff_of_true (fun buf => (hover buf).2) fun _ hmiddle => ?_
      have := (hover fun _ => 0).1
      omega

theorem readFile_buf {stray : ℤ → UInt32} {junk : Mem} {k : Kernel} {fd count : ℤ} (buf : Mem)
    (hread : (k.fcbOf fd).f_state = s_r ∨ (k.fcbOf fd).f_state = s_rw) (hfd : k.fcbIndex fd ≠ -1) :
    (readFile stray junk k fd buf count).buf =
      (readTransfer stray (k.fcbOf fd).inode (k.fcbOf fd).offset count
        ⟨⟨k.disk, fun a => if 0 ≤ a ∧ a < 513 then 0 else junk a, []⟩, buf, []⟩).1.buf := by
  have hgo : ¬(¬((k.fcbOf fd).f_state = s_r ∨ (k.fcbOf fd).f_state = s_rw) ∨ k.fcbIndex fd = -1) :=
    fun h => h.elim (fun hnot => hnot hread) hfd
  rw [readFile]
  exact (congrArg Call.buf (if_neg hgo)).trans (Transfer.buf_finish ..)

/-- **`read` writes into the caller's buffer only**, exactly if the request stays inside. -/
theorem readsInside_iff (stray : ℤ → UInt32) (junk : Mem) (k : Kernel) (fd count : ℤ)
    (hread : (k.fcbOf fd).f_state = s_r ∨ (k.fcbOf fd).f_state = s_rw) (hfd : k.fcbIndex fd ≠ -1)
    (hoffset : -2 ^ 31 ≤ (k.fcbOf fd).offset ∧ (k.fcbOf fd).offset < 2 ^ 31)
    (hcount : 0 ≤ count ∧ count < 2 ^ 31) :
    ReadsInside stray junk k fd count ↔
      StaysInside stray (k.fcbOf fd).inode k.disk (k.fcbOf fd).offset count := by
  rw [← readTransfer_inside_iff stray (k.fcbOf fd).inode k.disk
    (fun a => if 0 ≤ a ∧ a < 513 then 0 else junk a) (by rfl) hoffset.1 hoffset.2 hcount.1 hcount.2]
  refine forall_congr' fun buf => ?_
  rw [readFile_buf buf hread hfd]

/-! ## A buffer of two blocks -/

/-- The game has a file open by descriptor 0. Every block of the disk is the same. -/
def readKernel (block : Sector) : Kernel :=
  ⟨⟨fun _ => { gamePcb with fcb := fun _ => 0 }, 1⟩, fun _ => ⟨s_r, zeroSector, 0, 2⟩, zeroSector,
    fun _ => block⟩

theorem fcbOf_readKernel (block : Sector) :
    (readKernel block).fcbIndex 0 = 0 ∧ (readKernel block).fcbOf 0 = ⟨s_r, zeroSector, 0, 2⟩ :=
  ⟨rfl, rfl⟩

/-- Reading 1024 zero bytes. -/
theorem readsInside_zeros :
    ReadsInside (fun _ => 0) (fun _ => 0) (readKernel zeroSector) 0 1024 := by
  obtain ⟨hfd, hfcb⟩ := fcbOf_readKernel zeroSector
  refine (readsInside_iff (fun _ => 0) (fun _ => 0) (readKernel zeroSector) 0 1024
    (.inl (by rw [hfcb])) (by rw [hfd]; decide) (by rw [hfcb]; decide) (by decide)).mpr (.inr ?_)
  rw [hfcb]
  refine ⟨by decide, fun _ _ hno => hno 0 (by decide) ?_⟩
  have hblock : (readKernel zeroSector).disk = fun _ => zeroSector := rfl
  rw [hblock, zeroSector, ByteBlock.get_ofFn, if_pos (by decide)]

/-- **A byte too many.** Of a file without zero bytes 1024 bytes are read from the start, and the
byte behind the buffer is cleared. -/
theorem read_clears_next_byte :
    ¬ReadsInside (fun _ => 0) (fun _ => 0) (readKernel (ByteBlock.ofFn 512 fun _ => 1)) 0 1024 := by
  obtain ⟨hfd, hfcb⟩ := fcbOf_readKernel (ByteBlock.ofFn 512 fun _ => 1)
  intro hinside
  have hstays : StaysInside (fun _ => 0) zeroSector
      (readKernel (ByteBlock.ofFn 512 fun _ => 1)).disk 0 1024 := by
    refine (readTransfer_inside_iff (fun _ => 0) zeroSector _
      (fun a => if 0 ≤ a ∧ a < 513 then 0 else 0) (by rfl) (by decide) (by decide) (by decide)
        (by decide)).mp fun buf a ha => ?_
    have hbuf := hinside buf a ha
    rwa [readFile_buf buf (.inl (by rw [hfcb])) (by rw [hfd]; decide), hfcb] at hbuf
  rcases hstays with hsec | ⟨-, hlast⟩
  · exact absurd hsec (by decide)
  · refine hlast (by decide) (by decide) fun b hb => ?_
    have hblock : (readKernel (ByteBlock.ofFn 512 fun _ => 1)).disk =
        fun _ => ByteBlock.ofFn 512 fun _ => 1 := rfl
    rw [hblock, ByteBlock.get_ofFn, if_pos hb]
    decide

end OsLab
