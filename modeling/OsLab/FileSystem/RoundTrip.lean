import OsLab.FileSystem.Splice

/-!
# Writing and reading back

`read` moves the first and the last block of a request by `strncpy` and the blocks between by
`strcpy`. What is read is therefore the file up to the first zero of each block. After it comes
zero in the first and the last block, and in a middle block whatever the caller's buffer held.
Written with the same chunks, a string comes back when nothing but zeros follows a zero within a
block (`writeThenRead_iff`).

## Main definitions

* `AtEdge` — position `p` is in the first or the last block of a request from `o` to `e`
* `Got` — the state of a `read` from `o` to `e` into a buffer that held `B`, once the positions
  below `t` are done
* `writeThenRead` — the buffer after `lseek(fd, o, SEEK_SET)`, `write(fd, s, n)`,
  `lseek(fd, o, SEEK_SET)`, `read(fd, buf, n)`

## Main results

* `readTransfer_spec` — the caller's buffer after `read`
* `writeThenRead_iff` — when a string that is written is read back
-/

namespace OsLab

/-! ## What `read` leaves in the buffer -/

/-- The file as memory. -/
def fileMem (inode : Sector) (d : Disk) : Mem := fun a => fileByte inode d a.toNat

/-- Position `p` is in the first or the last block of a request from `o` to `e`. -/
def AtEdge (o e p : ℕ) : Prop := p / 512 = o / 512 ∨ p / 512 = e / 512

instance (o e p : ℕ) : Decidable (AtEdge o e p) := inferInstanceAs (Decidable (_ ∨ _))

/-- The byte that `read` puts into the buffer for position `p` of the file, when it reads from `o`
to `e` and the buffer held `b` there. -/
def takeByte (inode : Sector) (d : Disk) (o e : ℕ) (b : UInt8) (p : ℕ) : UInt8 :=
  if AtEdge o e p then
    stringByte (fileMem inode d) (chunkStart o p) (p - chunkStart o p)
  else if ∃ q < p, 512 * (p / 512) ≤ q ∧ fileByte inode d q = 0 then b
  else fileByte inode d p

section Read

variable {stray : ℤ → UInt32} {inode : Sector} {m : ℕ} {d : Disk} {B : Mem} {o e n : ℕ}
  {x : Transfer}

/-- The state of a `read` from `o` to `e` into a buffer that held `B`, once the positions below `t`
are done. The byte behind them may have been overwritten by the end of a string. -/
structure Got (inode : Sector) (d : Disk) (B : Mem) (o e t : ℕ) (x : Transfer) : Prop where
  disk : x.m.disk = d
  /-- Only the first 512 bytes of `temp_buf` ever change. -/
  last : x.m.mem 512 = 0
  done : ∀ p, o ≤ p → p < t → x.buf ((p : ℤ) - o) = takeByte inode d o e (B ((p : ℤ) - o)) p
  rest : ∀ a : ℤ, (t : ℤ) - o < a → x.buf a = B a

/-- Bytes of a block in `temp_buf` are bytes of the file. -/
theorem stringByte_readBlock (ha : Allocated inode m) {i : ℕ} (hi : i < m) (x : Transfer)
    {start t : ℕ} (h : start + t < 512) :
    stringByte (readBlock stray inode i x).m.mem start t =
      stringByte (fileMem inode x.m.disk) (512 * i + start : ℕ) t := by
  have hbyte : ∀ j ≤ t, (readBlock stray inode i x).m.mem ((start : ℤ) + j) =
      fileMem inode x.m.disk ((512 * i + start : ℕ) + j) := fun j hj => by
    have hcast : (start : ℤ) + j = (start + j : ℕ) := by omega
    have hpos : ((512 * i + start : ℕ) + (j : ℤ)).toNat = 512 * i + (start + j) := by omega
    rw [hcast, mem_readBlock ha hi x (by omega), fileMem, hpos]
  rw [stringByte, stringByte, hbyte t (Nat.le_refl t)]
  refine if_congr ⟨?_, ?_⟩ rfl rfl
  · rintro ⟨j, hj, hz⟩
    exact ⟨j, hj, by rwa [← hbyte j hj]⟩
  · rintro ⟨j, hj, hz⟩
    exact ⟨j, hj, by rwa [hbyte j hj]⟩

theorem mem_readBlock_last (i : ℤ) (x : Transfer) :
    (readBlock stray inode i x).m.mem 512 = x.m.mem 512 := by
  rw [readBlock_mem, if_neg (by omega)]

/-- **The first or the last block**, of which positions `t` to `e'` are taken. -/
theorem Got.edge {t : ℕ} (h : Got inode d B o e t x) (ha : Allocated inode m) (i e' : ℕ)
    (hi : i < m) (hedge : i = o / 512 ∨ i = e / 512) (ht : t = max o (512 * i)) (hle : t ≤ e')
    (hend : e' ≤ 512 * (i + 1)) {i' pos start size : ℤ} (hi' : i' = i)
    (hpos : pos = t - o) (hstart : start = t - 512 * i) (hsize : size = e' - t) :
    Got inode d B o e e' (takeChunk pos start size (readBlock stray inode i' x)) := by
  obtain rfl : start = (t - 512 * i : ℕ) := by omega
  obtain rfl : size = (e' - t : ℕ) := by omega
  subst hi' hpos
  have hsize : uint32 ((e' - t : ℕ) : ℤ) = e' - t := by
    rw [uint32_eq (by omega) (by omega), Int.toNat_natCast]
  have hbuf : ∀ a : ℤ, (takeChunk (t - o) (t - 512 * i : ℕ) (e' - t : ℕ)
      (readBlock stray inode i x)).buf a =
        if (t : ℤ) - o ≤ a ∧ a < (t : ℤ) - o + (e' - t : ℕ) then
          stringByte (readBlock stray inode i x).m.mem (t - 512 * i : ℕ) (a - (t - o)).toNat
        else x.buf a := fun a => by
    rw [takeChunk, Transfer.buf_setBuf, hsize, strncpy_get, readBlock_buf]
  refine ⟨?_, ?_, fun p hp hlt => ?_, fun a hlt => ?_⟩
  · rw [takeChunk, Transfer.m_setBuf, readBlock_disk, h.disk]
  · rw [takeChunk, Transfer.m_setBuf, mem_readBlock_last, h.last]
  · rw [hbuf]
    rcases Nat.lt_or_ge p t with hpt | hpt
    · rw [if_neg (by omega), h.done p hp hpt]
    · have hblock : p / 512 = i := by omega
      have hedge' : AtEdge o e p := by rwa [AtEdge, hblock]
      have hcs : chunkStart o p = t := by rw [chunkStart, hblock, ht]
      have hoff : ((p : ℤ) - o - (t - o)).toNat = p - t := by omega
      have hfile : 512 * i + (t - 512 * i) = t := by omega
      rw [if_pos (by omega), takeByte, if_pos hedge', hcs, hoff,
        stringByte_readBlock ha hi x (by omega), hfile, h.disk]
  · rw [hbuf, if_neg (by omega), h.rest a (by omega)]

/-- **A middle block.** It is taken up to its first zero. -/
theorem Got.middle (ha : Allocated inode m) {i : ℕ} (h : Got inode d B o e (512 * i) x)
    (hi : i < m) (hfirst : o / 512 < i) (hlast : i < e / 512) {i' pos : ℤ} (hi' : i' = i)
    (hpos : pos = 512 * i - o) :
    Got inode d B o e (512 * (i + 1)) (takeBlock stray inode pos i' x) := by
  subst hi' hpos
  obtain ⟨T, hT⟩ : ∃ T : Mem, (readBlock stray inode i x).m.mem = T := ⟨_, rfl⟩
  have hbyte : ∀ r : ℕ, r < 512 → T (0 + (r : ℤ)) = fileByte inode d (512 * i + r) :=
    fun r hr => by rw [Int.zero_add, ← hT, mem_readBlock ha hi x hr, h.disk]
  have hend : T (0 + (512 : ℕ)) = 0 := by
    have hcast : (0 : ℤ) + (512 : ℕ) = 512 := by omega
    rw [hcast, ← hT, mem_readBlock_last, h.last]
  have hex : ∃ z : ℕ, T (0 + (z : ℤ)) = 0 := ⟨512, hend⟩
  obtain ⟨z, hz, hmin⟩ : ∃ z : ℕ, T (0 + (z : ℤ)) = 0 ∧ ∀ j < z, T (0 + (j : ℤ)) ≠ 0 :=
    ⟨Nat.find hex, Nat.find_spec hex, fun j hj => Nat.find_min hex hj⟩
  have hz512 : z ≤ 512 := Nat.not_lt.mp fun hlt => hmin 512 hlt hend
  have hbuf : ∀ a : ℤ, (takeBlock stray inode (512 * i - o) i x).buf a =
      if 512 * (i : ℤ) - o ≤ a ∧ a ≤ 512 * (i : ℤ) - o + z then T (0 + (a - (512 * i - o)))
      else x.buf a := fun a => by
    rw [takeBlock, Transfer.buf_setBuf, hT, strcpy_get _ _ (show z < 513 by omega) hz hmin,
      readBlock_buf]
  refine ⟨?_, ?_, fun p hp hlt => ?_, fun a hlt => ?_⟩
  · rw [takeBlock, Transfer.m_setBuf, readBlock_disk, h.disk]
  · rw [takeBlock, Transfer.m_setBuf, mem_readBlock_last, h.last]
  · rw [hbuf]
    rcases Nat.lt_or_ge p (512 * i) with hpt | hpt
    · rw [if_neg (by omega), h.done p hp hpt]
    · have hblock : p / 512 = i := by omega
      obtain ⟨r, hr, rfl⟩ : ∃ r < 512, p = 512 * i + r := ⟨p - 512 * i, by omega, by omega⟩
      have hmiddle : takeByte inode d o e (B ((512 * i + r : ℕ) - o)) (512 * i + r) =
          if ∃ q < 512 * i + r, 512 * i ≤ q ∧ fileByte inode d q = 0 then
            B ((512 * i + r : ℕ) - o)
          else fileByte inode d (512 * i + r) := by
        have hedge : ¬AtEdge o e (512 * i + r) := by rw [AtEdge, hblock]; omega
        rw [takeByte, if_neg hedge, hblock]
      rw [hmiddle]
      rcases Nat.lt_or_ge z r with hzr | hrz
      · rw [if_neg (by omega), if_pos ⟨512 * i + z, by omega, by omega, by
          rw [← hbyte z (by omega), hz]⟩, h.rest _ (by omega)]
      · have hoff : 0 + (((512 * i + r : ℕ) : ℤ) - o - (512 * i - o)) = 0 + (r : ℤ) := by omega
        rw [if_pos (by omega), if_neg, hoff, hbyte r hr]
        rintro ⟨q, hq, hqi, hq0⟩
        obtain ⟨j, rfl⟩ : ∃ j, q = 512 * i + j := ⟨q - 512 * i, by omega⟩
        exact hmin j (by omega) (by rw [hbyte j (by omega), hq0])
  · rw [hbuf, if_neg (by omega), h.rest a (by omega)]

/-- **What `read` leaves in the buffer**, and the number of bytes it reports. -/
theorem readTransfer_spec (ha : Allocated inode m) (hroom : o + n < 512 * m)
    (hx : x.m.disk = d) (hlast : x.m.mem 512 = 0) (hB : x.buf = B) :
    Got inode d B o (o + n) (o + n) (readTransfer stray inode o n x).1 ∧
      (readTransfer stray inode o n x).2 = n := by
  have hm := ha.le
  simp only [NR_INODE_ENTRY] at hm
  have hnr : (o : ℤ).tdiv 512 = (o / 512 : ℕ) := by
    rw [Int.tdiv_eq_ediv_of_nonneg (by omega)]; omega
  have hstart : (o : ℤ).tmod 512 = (o % 512 : ℕ) := by
    rw [Int.tmod_eq_emod_of_nonneg (by omega)]; omega
  have htotal : int32 (o + n) = (o + n : ℕ) := by rw [int32_eq (by omega) (by omega)]; omega
  have hnum : ((o + n : ℕ) : ℤ).tdiv 512 = ((o + n) / 512 : ℕ) := by
    rw [Int.tdiv_eq_ediv_of_nonneg (by omega)]; omega
  simp only [readTransfer, hnr, hstart, htotal, hnum]
  have h₀ : Got inode d B o (o + n) o x :=
    ⟨hx, hlast, fun p hp hlt => absurd hlt (by omega), fun a _ => by rw [hB]⟩
  split_ifs with hsec hlen
  · refine ⟨?_, rfl⟩
    exact h₀.edge ha (o / 512) (o + n) (by omega) (.inl rfl) (by omega) (by omega) (by omega) rfl
      (by omega) (by omega) (by omega)
  · -- the request ends in the block it starts in, so the buffer is long enough
    rw [uint32_eq (by omega) (by omega), uint32_eq (by omega) (by omega)] at hlen
    omega
  · have h₁ : Got inode d B o (o + n) (512 * (o / 512 + 1)) (takeChunk 0 (o % 512 : ℕ)
        (512 - (o % 512 : ℕ)) (readBlock stray inode (o / 512 : ℕ) x)) :=
      h₀.edge ha (o / 512) _ (by omega) (.inl rfl) (by omega) (by omega) (by omega) rfl (by omega)
        (by omega) (by omega)
    have h₂ : Got inode d B o (o + n) (512 * (((o + n) / 512 : ℕ) : ℤ).toNat)
        (forRange ((o / 512 : ℕ) + 1) ((o + n) / 512 : ℕ)
          (fun i x => takeBlock stray inode
            (512 - (o % 512 : ℕ) + (i - (o / 512 : ℕ) - 1) * 512) i x)
          (takeChunk 0 (o % 512 : ℕ) (512 - (o % 512 : ℕ))
            (readBlock stray inode (o / 512 : ℕ) x))) :=
      forRange_induction (P := fun i x => Got inode d B o (o + n) (512 * i.toNat) x) (by omega)
        (fun i y hlo hhi hy => by
          have hsucc : (i + 1).toNat = i.toNat + 1 := by omega
          rw [hsucc]
          exact hy.middle ha (by omega) (by omega) (by omega) (by omega) (by omega)) h₁
    have hcount : int32 (((o + n : ℕ) : ℤ) - (o / 512 : ℕ) * 512 - (o % 512 : ℕ)) = n := by
      rw [int32_eq (by omega) (by omega)]; omega
    refine ⟨?_, hcount⟩
    rw [int32_eq (by omega) (by omega)]
    exact h₂.edge ha ((o + n) / 512) (o + n) (by omega) (.inr rfl) (by omega) (by omega)
      (by omega) rfl (by omega) (by omega) (by omega)

end Read

/-! ## The round trip -/

section RoundTrip

variable {inode : Sector} {m : ℕ} {d : Disk} {s B : Mem} {o n p : ℕ}

theorem putByte_eq_zero_iff (hp : o ≤ p) :
    putByte s o p = 0 ↔ ∃ q ≤ p, chunkStart o p ≤ q ∧ s ((q : ℤ) - o) = 0 := by
  have hcs : chunkStart o p ≤ p := by simp only [chunkStart]; omega
  rw [putByte, stringByte_eq_zero_iff]
  constructor
  · rintro ⟨j, hj, hz⟩
    refine ⟨chunkStart o p + j, by omega, by omega, ?_⟩
    have hcast : ((chunkStart o p + j : ℕ) : ℤ) - o = (chunkStart o p : ℤ) - o + j := by omega
    rw [hcast, hz]
  · rintro ⟨q, hq, hle, hz⟩
    refine ⟨q - chunkStart o p, by omega, ?_⟩
    have hcast : (chunkStart o p : ℤ) - o + (q - chunkStart o p : ℕ) = (q : ℤ) - o := by omega
    rw [hcast, hz]

theorem putByte_eq_self_iff (hp : o ≤ p) :
    putByte s o p = s ((p : ℤ) - o) ↔
      ∀ q, chunkStart o p ≤ q → q < p → s ((q : ℤ) - o) = 0 → s ((p : ℤ) - o) = 0 := by
  have hcs : chunkStart o p ≤ p := by simp only [chunkStart]; omega
  have hend : (chunkStart o p : ℤ) - o + (p - chunkStart o p : ℕ) = (p : ℤ) - o := by omega
  rw [putByte, ← hend, stringByte_eq_self_iff]
  constructor
  · intro h q hq hlt hz
    refine h (q - chunkStart o p) (by omega) ?_
    have hcast : (chunkStart o p : ℤ) - o + (q - chunkStart o p : ℕ) = (q : ℤ) - o := by omega
    rw [hcast, hz]
  · intro h j hj hz
    refine h (chunkStart o p + j) (by omega) (by omega) ?_
    have hcast : ((chunkStart o p + j : ℕ) : ℤ) - o = (chunkStart o p : ℤ) - o + j := by omega
    rw [hcast, hz]

/-- **One byte of the round trip**, in a file that holds what `write` put there. -/
theorem takeByte_eq_iff (hfile : ∀ q, o ≤ q → q < o + n → fileByte inode d q = putByte s o q)
    (hp : o ≤ p) (hpn : p < o + n) (b : UInt8) :
    takeByte inode d o (o + n) b p = s ((p : ℤ) - o) ↔
      ∀ q, chunkStart o p ≤ q → q < p → s ((q : ℤ) - o) = 0 →
        if AtEdge o (o + n) p then s ((p : ℤ) - o) = 0 else b = s ((p : ℤ) - o) := by
  have hchunk : ∀ q, chunkStart o p ≤ q → q ≤ p → o ≤ q ∧ chunkStart o q = chunkStart o p :=
    fun q hq hle => by simp only [chunkStart] at hq ⊢; omega
  by_cases hedge : AtEdge o (o + n) p
  · simp only [if_pos hedge]
    have hmoved : takeByte inode d o (o + n) b p = putByte s o p := by
      rw [takeByte, if_pos hedge, putByte]
      refine stringByte_idem fun j hj => ?_
      have hcs : chunkStart o p ≤ p := by simp only [chunkStart]; omega
      obtain ⟨hle, heq⟩ := hchunk (chunkStart o p + j) (by omega) (by omega)
      have hcast : (chunkStart o p : ℤ) + j = (chunkStart o p + j : ℕ) := by omega
      rw [fileMem, hcast, Int.toNat_natCast, hfile _ hle (by omega), putByte, heq,
        Nat.add_sub_cancel_left]
    rw [hmoved, putByte_eq_self_iff hp]
  · simp only [if_neg hedge]
    have hstart : chunkStart o p = 512 * (p / 512) := by
      simp only [AtEdge] at hedge
      simp only [chunkStart]
      omega
    have hzero : (∃ q < p, 512 * (p / 512) ≤ q ∧ fileByte inode d q = 0) ↔
        ∃ q < p, chunkStart o p ≤ q ∧ s ((q : ℤ) - o) = 0 := by
      constructor
      · rintro ⟨q, hq, hle, hz⟩
        obtain ⟨hoq, heq⟩ := hchunk q (by omega) (by omega)
        rw [hfile q hoq (by omega), putByte_eq_zero_iff hoq, heq] at hz
        obtain ⟨r, hr, hle', hz'⟩ := hz
        exact ⟨r, by omega, hle', hz'⟩
      · rintro ⟨q, hq, hle, hz⟩
        obtain ⟨hoq, heq⟩ := hchunk q hle (by omega)
        refine ⟨q, hq, by omega, ?_⟩
        rw [hfile q hoq (by omega), putByte_eq_zero_iff hoq]
        exact ⟨q, Nat.le_refl q, by omega, hz⟩
    rw [takeByte, if_neg hedge]
    by_cases hex : ∃ q < p, chunkStart o p ≤ q ∧ s ((q : ℤ) - o) = 0
    · rw [if_pos (hzero.mpr hex)]
      obtain ⟨q, hq, hle, hz⟩ := hex
      exact ⟨fun h _ _ _ _ => h, fun h => h q hle hq hz⟩
    · rw [if_neg (fun h => hex (hzero.mp h)), hfile p hp hpn, putByte_eq_self_iff hp]
      constructor
      · exact fun _ q hle hq hz => absurd ⟨q, hq, hle, hz⟩ hex
      · exact fun _ q hle hq hz => absurd ⟨q, hq, hle, hz⟩ hex

end RoundTrip

/-- The buffer after `lseek(fd, o, SEEK_SET)`, `write(fd, s, n)`, `lseek(fd, o, SEEK_SET)`,
`read(fd, buf, n)`. -/
def writeThenRead (stray : ℤ → UInt32) (junk junk' : Mem) (k : Kernel) (fd o n : ℤ) (s B : Mem) :
    Mem :=
  let k := lseek stray junk k fd o SEEK_SET
  let k := (writeFile stray junk k fd s n).kernel
  let k := lseek stray junk k fd o SEEK_SET
  (readFile stray junk' k fd B n).buf

section Calls

variable {stray : ℤ → UInt32} {junk : Mem} {k : Kernel} {fd : ℤ} {m : ℕ} {s B : Mem} {o n : ℕ}

/-- A `write` that is not refused. -/
theorem writeFile_spec (hfd : k.fcbIndex fd ≠ -1) (hrw : (k.fcbOf fd).f_state = s_rw)
    (ho : (k.fcbOf fd).offset = o) (ha : Allocated (k.fcbOf fd).inode m)
    (hd : DistinctBlocks (k.fcbOf fd).inode m) (hroom : o + n < 512 * m) :
    (writeFile stray junk k fd s n).kernel.fcbIndex fd = k.fcbIndex fd ∧
      (writeFile stray junk k fd s n).kernel.fcbOf fd =
        { k.fcbOf fd with offset := int32 (o + n) } ∧
      ∀ p < 512 * m, fileByte (k.fcbOf fd).inode (writeFile stray junk k fd s n).kernel.disk p =
        if o ≤ p ∧ p < o + n then putByte s o p else fileByte (k.fcbOf fd).inode k.disk p := by
  obtain ⟨x, hput, heq⟩ := @writeFile_put stray m s o junk k fd n hfd (.inr hrw) ho ha hd hroom
  have hm := ha.le
  simp only [NR_INODE_ENTRY] at hm
  have hint : int32 (o + n) = (o + n : ℕ) := by rw [int32_eq (by omega) (by omega)]; omega
  rw [heq, Transfer.disk_finish, hint]
  exact ⟨Transfer.fcbIndex_finish .., Transfer.fcbOf_finish .., hput.byte⟩

/-- A `read` that is not refused. -/
theorem readFile_got (hfd : k.fcbIndex fd ≠ -1)
    (hr : (k.fcbOf fd).f_state = s_r ∨ (k.fcbOf fd).f_state = s_rw)
    (ho : (k.fcbOf fd).offset = o) (ha : Allocated (k.fcbOf fd).inode m)
    (hroom : o + n < 512 * m) :
    ∃ x, Got (k.fcbOf fd).inode k.disk B o (o + n) (o + n) x ∧
      readFile stray junk k fd B n = x.finish k (k.fcbIndex fd) (o + n : ℕ) n := by
  have hm := ha.le
  simp only [NR_INODE_ENTRY] at hm
  have hint : int32 (o + n) = (o + n : ℕ) := by rw [int32_eq (by omega) (by omega)]; omega
  have hlast : (if (0 : ℤ) ≤ 512 ∧ (512 : ℤ) < 513 then 0 else junk 512) = 0 := if_pos (by decide)
  obtain ⟨hgot, hcount⟩ := @readTransfer_spec stray (k.fcbOf fd).inode m k.disk B o n
    ⟨⟨k.disk, fun a => if 0 ≤ a ∧ a < 513 then 0 else junk a, []⟩, B, []⟩ ha hroom rfl
    hlast rfl
  refine ⟨_, hgot, ?_⟩
  rw [readFile, ← Kernel.fcbOf, if_neg (by simp [hfd, hr]), ho]
  simp only [hcount, hint]

/-- The bytes that come into the buffer. -/
theorem readFile_spec (hfd : k.fcbIndex fd ≠ -1)
    (hr : (k.fcbOf fd).f_state = s_r ∨ (k.fcbOf fd).f_state = s_rw)
    (ho : (k.fcbOf fd).offset = o) (ha : Allocated (k.fcbOf fd).inode m)
    (hroom : o + n < 512 * m) {i : ℕ} (hi : i < n) :
    (readFile stray junk k fd B n).buf i =
      takeByte (k.fcbOf fd).inode k.disk o (o + n) (B i) (o + i) := by
  obtain ⟨x, hgot, heq⟩ := @readFile_got stray junk k fd m B o n hfd hr ho ha hroom
  have hpos : ((o + i : ℕ) : ℤ) - o = i := by omega
  have hbyte := hgot.done (o + i) (by omega) (by omega)
  rw [hpos] at hbyte
  rw [heq, Transfer.buf_finish, hbyte]

/-- **One byte comes back** when the zeros before it in its block are no harm. -/
theorem writeThenRead_byte_iff {junk' : Mem} (h : OpenFile k fd m)
    (hrw : (k.fcbOf fd).f_state = s_rw) (hd : DistinctBlocks (k.fcbOf fd).inode m)
    (hroom : o + n < 512 * m) {i : ℕ} (hi : i < n) :
    writeThenRead stray junk junk' k fd o n s B i = s i ↔
      ∀ j < i, (o + j) / 512 = (o + i) / 512 → s j = 0 →
        if AtEdge o (o + n) (o + i) then s i = 0 else B i = s i := by
  have hopen : k.fcbIndex fd ≠ -1 := by have := h.index.1; omega
  have ha := h.allocated
  -- the four calls one after the other
  set k₁ := lseek stray junk k fd o SEEK_SET with hk₁
  have hindex₁ : k₁.fcbIndex fd = k.fcbIndex fd := fcbIndex_lseek SEEK_SET
  have hfcb₁ : k₁.fcbOf fd = { k.fcbOf fd with offset := o } := fcbOf_lseek_set hopen
  obtain ⟨hindex₂, hfcb₂, hfile⟩ := @writeFile_spec stray junk k₁ fd m s o n
    (by rwa [hindex₁]) (by rw [hfcb₁]; exact hrw) (by rw [hfcb₁]) (by rw [hfcb₁]; exact ha)
    (by rw [hfcb₁]; exact hd) hroom
  set k₂ := (writeFile stray junk k₁ fd s n).kernel with hk₂
  set k₃ := lseek stray junk k₂ fd o SEEK_SET with hk₃
  have hopen₂ : k₂.fcbIndex fd ≠ -1 := by rwa [hindex₂, hindex₁]
  have hindex₃ : k₃.fcbIndex fd = k₂.fcbIndex fd := fcbIndex_lseek SEEK_SET
  have hfcb₃ : k₃.fcbOf fd = { k₂.fcbOf fd with offset := o } := fcbOf_lseek_set hopen₂
  have hinode : (k₃.fcbOf fd).inode = (k.fcbOf fd).inode := by rw [hfcb₃, hfcb₂, hfcb₁]
  have hread := @readFile_spec stray junk' k₃ fd m B o n (by rwa [hindex₃])
    (by rw [hfcb₃, hfcb₂, hfcb₁]; exact .inr hrw) (by rw [hfcb₃]) (by rw [hinode]; exact ha) hroom i
    hi
  have hdisk : k₃.disk = k₂.disk := disk_lseek SEEK_SET
  have hbyte : writeThenRead stray junk junk' k fd o n s B i =
      takeByte (k.fcbOf fd).inode k₂.disk o (o + n) (B i) (o + i) := by
    rw [← hinode, ← hdisk, ← hread]
    rfl
  have hput : ∀ q, o ≤ q → q < o + n →
      fileByte (k.fcbOf fd).inode k₂.disk q = putByte s o q := fun q hq hlt => by
    have := hfile q (by omega)
    rw [hfcb₁] at this
    rw [this, if_pos ⟨hq, hlt⟩]
  have hpos : ((o + i : ℕ) : ℤ) - o = i := by omega
  have hiff := takeByte_eq_iff hput (p := o + i) (by omega) (by omega) (B i)
  rw [hpos] at hiff
  rw [hbyte, hiff]
  constructor
  · intro hall j hj hblock hz
    refine hall (o + j) (by simp only [chunkStart]; omega) (by omega) ?_
    have hcast : ((o + j : ℕ) : ℤ) - o = j := by omega
    rw [hcast, hz]
  · intro hall q hq hlt hz
    simp only [chunkStart] at hq
    obtain ⟨j, rfl⟩ : ∃ j, q = o + j := ⟨q - o, by omega⟩
    have hcast : ((o + j : ℕ) : ℤ) - o = j := by omega
    rw [hcast] at hz
    exact hall j (by omega) (by omega) hz

end Calls

/-- **When a string is read back as it was written.** For every descriptor open for reading and
writing on a file of distinct blocks and every request inside the file, `read` gives the bytes that
`write` was given if and only if no zero byte is followed, within its block of the file, by a byte
that gets lost: in the first and the last block every later byte has to be zero, in a block between
them it has to be what the buffer held already. -/
theorem writeThenRead_iff (stray : ℤ → UInt32) (junk junk' : Mem) (k : Kernel) (fd : ℤ) (m : ℕ)
    (h : OpenFile k fd m) (hrw : (k.fcbOf fd).f_state = s_rw)
    (hd : DistinctBlocks (k.fcbOf fd).inode m) (s B : Mem) (o n : ℕ) (hroom : o + n < 512 * m) :
    (∀ i : ℕ, i < n → writeThenRead stray junk junk' k fd o n s B i = s i) ↔
      ∀ i : ℕ, i < n → ∀ j < i, (o + j) / 512 = (o + i) / 512 → s j = 0 →
        if AtEdge o (o + n) (o + i) then s i = 0 else B i = s i :=
  forall₂_congr fun _ hi => writeThenRead_byte_iff h hrw hd hroom hi

theorem oneBlockKernel_distinct : DistinctBlocks (oneBlockKernel.fcbOf 0).inode 1 :=
  fun i hi j hj _ => by omega

theorem writeThenRead_iff_oneBlock :
    (∀ i : ℕ, i < 3 → writeThenRead (fun _ => 0) (fun _ => 0) (fun _ => 0) oneBlockKernel 0
        (5 : ℕ) (3 : ℕ) (fun a => UInt8.ofNat a.toNat) (fun _ => 0) i = UInt8.ofNat i) ↔
      ∀ i : ℕ, i < 3 → ∀ j < i, (5 + j) / 512 = (5 + i) / 512 → UInt8.ofNat j = 0 →
        if AtEdge 5 (5 + 3) (5 + i) then UInt8.ofNat i = 0 else 0 = UInt8.ofNat i :=
  writeThenRead_iff _ _ _ oneBlockKernel 0 1 oneBlockKernel_open rfl oneBlockKernel_distinct
    (fun a => UInt8.ofNat a.toNat) (fun _ => 0) 5 3 (by decide)

/-- **A string that does not come back.** Of the bytes 0 and 1, written to an empty file, the
second is lost. -/
theorem writeThenRead_zero_one :
    OpenFile oneBlockKernel 0 1 ∧ (oneBlockKernel.fcbOf 0).f_state = s_rw ∧
      DistinctBlocks (oneBlockKernel.fcbOf 0).inode 1 ∧ 0 + 2 < 512 * 1 ∧
      ¬∀ i : ℕ, i < 2 → writeThenRead (fun _ => 0) (fun _ => 0) (fun _ => 0) oneBlockKernel 0
        (0 : ℕ) (2 : ℕ) (fun a => if a = 1 then 1 else 0) (fun _ => 0) i =
          if (i : ℤ) = 1 then 1 else 0 := by
  refine ⟨oneBlockKernel_open, rfl, oneBlockKernel_distinct, by decide, fun hall => ?_⟩
  have hone := (writeThenRead_byte_iff oneBlockKernel_open rfl oneBlockKernel_distinct (by decide)
    (by decide)).mp (hall 1 (by decide)) 0 (by decide) rfl rfl
  exact absurd hone (by decide)

end OsLab
