import OsLab.FileSystem.ReadWrite
import OsLab.Disk.BitAlloc
import Mathlib.Data.Set.Basic

/-!
# Which sectors a request touches

A request is inside its file when every sector it moves holds one of the file's blocks and every
inode index it uses is one of the 128. Both `read` and `write` look up the blocks from
`offset / 512` to `(offset + count) / 512` and stop at nothing, so a request is inside exactly
when it ends before the last allocated block does. One that ends later finds the entry `-1` and
moves sector 0, the boot sector, or looks behind the inode.

## Main definitions

* `Visits` — from `x` to `y` the indices in `I` were looked up, and the sectors moved are those they
  ask for
* `Allocated` — the first `m` entries of the inode are block numbers, the others are `-1`
* `Inside` — the call moves only blocks of the file and uses only indices of the inode
* `InRange` — the request starts in the file and ends before the last of its `m` blocks does
* `OpenFile` — descriptor `fd` is open on a file of `m` blocks

## Main results

* `readTransfer_visits`, `writeTransfer_visits` — the inode indices a transfer looks up
* `request_inside_iff` — when `read` and `write` stay inside the file
-/

namespace OsLab

/-! ## What is looked up and what is moved -/

section Visited

variable (stray : ℤ → UInt32) (inode : Sector)

/-- From `x` to `y` the indices in `I` were looked up, and the sectors moved are those they ask
for. -/
structure Visits (x : Transfer) (I : Set ℤ) (y : Transfer) : Prop where
  indices : ∀ i, i ∈ y.indices ↔ i ∈ x.indices ∨ i ∈ I
  sectors : ∀ s, s ∈ y.m.log.map Access.sector ↔
    s ∈ x.m.log.map Access.sector ∨ ∃ i ∈ I, segSector (entryAt stray inode i) = s

variable {stray inode} {x y z : Transfer} {I J : Set ℤ}

theorem Visits.refl (x : Transfer) : Visits stray inode x ∅ x :=
  ⟨fun i => by simp, fun s => by simp⟩

theorem Visits.trans (h : Visits stray inode x I y) (h' : Visits stray inode y J z) :
    Visits stray inode x (I ∪ J) z := by
  refine ⟨fun i => ?_, fun s => ?_⟩
  · rw [h'.indices, h.indices, or_assoc, Set.mem_union]
  · rw [h'.sectors, h.sectors, or_assoc]
    simp [or_and_right, exists_or]

theorem readBlock_visits (i : ℤ) (x : Transfer) :
    Visits stray inode x {i} (readBlock stray inode i x) := by
  refine ⟨fun i' => ?_, fun s => ?_⟩
  · rw [readBlock_indices, List.mem_cons, Set.mem_singleton_iff, or_comm]
  · rw [readBlock_log, List.map_cons, List.mem_cons, or_comm]
    simp only [Set.mem_singleton_iff, exists_eq_left]
    rw [eq_comm]

theorem Visits.setBuf (h : Visits stray inode x I y) (buf : Mem) :
    Visits stray inode x I (y.setBuf buf) :=
  ⟨h.indices, h.sectors⟩

theorem takeBlock_visits (pos i : ℤ) (x : Transfer) :
    Visits stray inode x {i} (takeBlock stray inode pos i x) := by
  rw [takeBlock]
  exact (readBlock_visits i x).setBuf _

theorem putChunk_visits (i start pos size : ℤ) (x : Transfer) :
    Visits stray inode x {i} (putChunk stray inode i start pos size x) := by
  refine ⟨fun i' => ?_, fun s => ?_⟩
  · simp only [putChunk, writeBlock_indices, Transfer.indices_setMem, readBlock_indices,
      List.mem_cons, Set.mem_singleton_iff]
    rw [or_self_left, or_comm]
  · simp only [putChunk, writeBlock_log, Transfer.log_setMem, readBlock_log, List.map_cons,
      List.mem_cons, Set.mem_singleton_iff, exists_eq_left]
    rw [or_self_left, or_comm, eq_comm]

/-- A loop that looks up `i` in round `i` looks up its whole range. -/
theorem forRange_visits {f : ℤ → Transfer → Transfer}
    (hf : ∀ i x, Visits stray inode x {i} (f i x)) (lo hi : ℤ) (x : Transfer) :
    Visits stray inode x {j | lo ≤ j ∧ j < hi} (forRange lo hi f x) := by
  have hempty : ∀ e, e ≤ lo → {j | lo ≤ j ∧ j < e} = ∅ := fun e he =>
    Set.eq_empty_of_forall_notMem fun j hj => by
      rw [Set.mem_ofPred_eq] at hj
      omega
  by_cases hle : hi ≤ lo
  · rw [forRange_of_ge hle, hempty hi hle]
    exact Visits.refl x
  · refine forRange_induction (P := fun i y => Visits stray inode x {j | lo ≤ j ∧ j < i} y)
      (by omega) (fun i y hlo hhi h => ?_) ?_
    · have hset : {j | lo ≤ j ∧ j < i + 1} = {j | lo ≤ j ∧ j < i} ∪ {i} := by
        ext j
        simp only [Set.mem_ofPred_eq, Set.mem_union, Set.mem_singleton_iff]
        omega
      rw [hset]
      exact h.trans (hf i y)
    · rw [hempty lo (Int.le_refl lo)]
      exact Visits.refl x

/-! ## The two transfers -/

/-- **`read` looks up its first block, its last block and those between.** -/
theorem readTransfer_visits (o c : ℤ) (x : Transfer) :
    Visits stray inode x
      ({i | i = o.tdiv 512 ∨ i = (int32 (o + c)).tdiv 512} ∪
        {i | o.tdiv 512 < i ∧ i < (int32 (o + c)).tdiv 512})
      (readTransfer stray inode o c x).1 := by
  simp only [readTransfer]
  split
  · next hsec =>
    have hset : ({i | i = o.tdiv 512 ∨ i = (int32 (o + c)).tdiv 512} ∪
        {i | o.tdiv 512 < i ∧ i < (int32 (o + c)).tdiv 512}) = {o.tdiv 512} := by
      ext i
      simp only [Set.mem_union, Set.mem_ofPred_eq, Set.mem_singleton_iff]
      omega
    rw [hset]
    exact (readBlock_visits _ x).setBuf _
  · have hset : ({i | i = o.tdiv 512 ∨ i = (int32 (o + c)).tdiv 512} ∪
        {i | o.tdiv 512 < i ∧ i < (int32 (o + c)).tdiv 512}) =
        {o.tdiv 512} ∪ {i | o.tdiv 512 + 1 ≤ i ∧ i < (int32 (o + c)).tdiv 512} ∪
          {(int32 (o + c)).tdiv 512} := by
      ext i
      simp only [Set.mem_union, Set.mem_ofPred_eq, Set.mem_singleton_iff]
      omega
    rw [hset]
    exact ((((readBlock_visits _ x).setBuf _).trans
      (forRange_visits (fun i y => takeBlock_visits _ i y) _ _ _)).trans
        (readBlock_visits _ _)).setBuf _

/-- The indices `write` looks up. -/
def writeIndices (o c : ℤ) : Set ℤ :=
  if 512 - o.tmod 512 > c then {o.tdiv 512}
  else if c - (512 - o.tmod 512) < 512 then {o.tdiv 512} ∪ {o.tdiv 512 + 1}
  else {o.tdiv 512} ∪ {i | o.tdiv 512 + 1 ≤ i ∧ i < (int32 (o + c)).tdiv 512} ∪
    {(int32 (o + c)).tdiv 512}

theorem writeTransfer_visits (o c : ℤ) (x : Transfer) :
    Visits stray inode x (writeIndices o c) (writeTransfer stray inode o c x) := by
  simp only [writeTransfer, writeIndices]
  split
  · exact putChunk_visits _ _ _ _ x
  · split
    · exact (putChunk_visits _ _ _ _ x).trans (putChunk_visits _ _ _ _ _)
    · exact ((putChunk_visits _ _ _ _ x).trans
        (forRange_visits (fun i y => putChunk_visits i _ _ _ y) _ _ _)).trans
          (putChunk_visits _ _ _ _ _)

end Visited

/-! ## When a request is inside the file -/

/-- The first `m` entries of the inode are block numbers, the others are `-1`. -/
structure Allocated (inode : Sector) (m : ℕ) : Prop where
  le : m ≤ NR_INODE_ENTRY
  block : ∀ j < m, (dataBlockOffset inode j).toNat < NR_BLOCK
  rest : ∀ j, m ≤ j → j < NR_INODE_ENTRY → dataBlockOffset inode j = minusOne

/-- The call moves only blocks of the file and uses only indices of the inode. -/
structure Inside (inode : Sector) (m : ℕ) (r : Call) : Prop where
  sectors : ∀ a ∈ r.log, ∃ j < m, a.sector = 1 + (dataBlockOffset inode j).toNat
  indices : ∀ i ∈ r.indices, 0 ≤ i ∧ i < NR_INODE_ENTRY

section Inside

variable {stray : ℤ → UInt32} {inode : Sector} {m : ℕ} {o c : ℤ}

theorem segSector_entryAt (ha : Allocated inode m) {i : ℤ} (hi : 0 ≤ i) (hlt : i < m) :
    segSector (entryAt stray inode i) = 1 + (dataBlockOffset inode i.toNat).toNat := by
  have hle := ha.le
  have hb := ha.block i.toNat (by omega)
  simp only [NR_BLOCK, BITMAP_SIZE] at hb
  rw [entryAt, if_pos ⟨hi, by omega⟩, segSector_of_lt (by omega), Int.add_comm]

/-- An index behind the last block asks for sector 0. -/
theorem segSector_entryAt_of_ge (ha : Allocated inode m) {i : ℤ} (hi : m ≤ i)
    (hlt : i < NR_INODE_ENTRY) : segSector (entryAt stray inode i) = 0 := by
  rw [entryAt, if_pos ⟨by omega, hlt⟩, ha.rest i.toNat (by omega) (by omega),
    segSector_minusOne]

/-- A transfer is inside the file when the indices it looks up are. -/
theorem inside_iff_indices (ha : Allocated inode m) {x y : Transfer} {I : Set ℤ} {r : Call}
    (hlog : x.m.log = []) (hind : x.indices = []) (h : Visits stray inode x I y)
    (hr : r.log = y.m.log) (hr' : r.indices = y.indices) :
    Inside inode m r ↔ ∀ i ∈ I, 0 ≤ i ∧ i < m := by
  have hindices : ∀ i, i ∈ r.indices ↔ i ∈ I := fun i => by
    rw [hr', h.indices, hind]; simp
  have hsectors : ∀ s, (∃ a ∈ r.log, a.sector = s) ↔
      ∃ i ∈ I, segSector (entryAt stray inode i) = s := fun s => by
    rw [hr, ← List.mem_map, h.sectors, hlog]; simp
  have hle := ha.le
  constructor
  · intro hin i hi
    obtain ⟨hi0, hi128⟩ := hin.indices i ((hindices i).mpr hi)
    refine ⟨hi0, Int.not_le.mp fun hge => ?_⟩
    obtain ⟨a, haw, hs⟩ := (hsectors _).mpr ⟨i, hi, rfl⟩
    obtain ⟨j, -, hj⟩ := hin.sectors a haw
    rw [segSector_entryAt_of_ge ha hge hi128] at hs
    omega
  · intro hall
    refine ⟨fun a haw => ?_, fun i hi => ?_⟩
    · obtain ⟨i, hi, hs⟩ := (hsectors _).mp ⟨a, haw, rfl⟩
      obtain ⟨hi0, him⟩ := hall i hi
      exact ⟨i.toNat, by omega, by rw [← hs, segSector_entryAt ha hi0 him]⟩
    · obtain ⟨hi0, him⟩ := hall i ((hindices i).mp hi)
      exact ⟨hi0, by omega⟩

/-- The first and the last block are blocks of the file exactly when the request starts and ends
in it. A sum that overflows is too large to be meant. -/
theorem blocks_iff (hm : m ≤ 128) (hlo : -2 ^ 31 ≤ o) (hhi : o < 2 ^ 31) (hc : 0 ≤ c)
    (hci : c < 2 ^ 31) :
    ((0 ≤ o.tdiv 512 ∧ o.tdiv 512 < m) ∧
      (0 ≤ (int32 (o + c)).tdiv 512 ∧ (int32 (o + c)).tdiv 512 < m)) ↔
        -512 < o ∧ o + c < 512 * m ∧ 0 < m := by
  obtain ⟨h1, h2, h3⟩ := tdiv_tmod_spec o (n := 512) (by decide)
  obtain ⟨h4, h5, h6⟩ := tdiv_tmod_spec (int32 (o + c)) (n := 512) (by decide)
  rcases lt_or_ge (o + c) (2 ^ 31) with hlt | hge
  · rw [int32_eq (by omega) hlt] at h4 h5 h6 ⊢
    omega
  · rw [int32_eq_of_overflow hge (by omega)] at h4 h5 h6 ⊢
    omega

theorem readIndices_iff (hm : m ≤ 128) (hlo : -2 ^ 31 ≤ o) (hhi : o < 2 ^ 31) (hc : 0 ≤ c)
    (hci : c < 2 ^ 31) :
    (∀ i ∈ ({i | i = o.tdiv 512 ∨ i = (int32 (o + c)).tdiv 512} : Set ℤ) ∪
        {i | o.tdiv 512 < i ∧ i < (int32 (o + c)).tdiv 512}, 0 ≤ i ∧ i < m) ↔
      -512 < o ∧ o + c < 512 * m ∧ 0 < m := by
  rw [← blocks_iff hm hlo hhi hc hci]
  constructor
  · exact fun h => ⟨h _ (.inl (.inl rfl)), h _ (.inl (.inr rfl))⟩
  · rintro ⟨hnr, hnum⟩ i ((rfl | rfl) | hi)
    · exact hnr
    · exact hnum
    · rw [Set.mem_ofPred_eq] at hi
      omega

theorem writeIndices_iff (hm : m ≤ 128) (hlo : -2 ^ 31 ≤ o) (hhi : o < 2 ^ 31) (hc : 0 ≤ c)
    (hci : c < 2 ^ 31) :
    (∀ i ∈ writeIndices o c, 0 ≤ i ∧ i < m) ↔ -512 < o ∧ o + c < 512 * m ∧ 0 < m := by
  obtain ⟨h1, h2, h3⟩ := tdiv_tmod_spec o (n := 512) (by decide)
  rw [writeIndices]
  split_ifs with hfit hnext
  · simp only [Set.mem_singleton_iff, forall_eq]
    omega
  · simp only [Set.mem_union, Set.mem_singleton_iff, or_imp, forall_and, forall_eq]
    omega
  · rw [← blocks_iff hm hlo hhi hc hci]
    constructor
    · exact fun h => ⟨h _ (.inl (.inl rfl)), h _ (.inr rfl)⟩
    · rintro ⟨hnr, hnum⟩ i ((rfl | hi) | rfl)
      · exact hnr
      · rw [Set.mem_ofPred_eq] at hi
        omega
      · exact hnum

/-- The request starts in the file and ends before the last of its `m` blocks does. -/
def InRange (m : ℕ) (o c : ℤ) : Prop := -512 < o ∧ o + c < 512 * m ∧ 0 < m

/-- Descriptor `fd` is open on a file of `m` blocks. -/
structure OpenFile (k : Kernel) (fd : ℤ) (m : ℕ) : Prop where
  index : 0 ≤ k.fcbIndex fd ∧ k.fcbIndex fd < NR_FILE
  mode : (k.fcbOf fd).f_state = s_r ∨ (k.fcbOf fd).f_state = s_w ∨ (k.fcbOf fd).f_state = s_rw
  allocated : Allocated (k.fcbOf fd).inode m
  offset : -2 ^ 31 ≤ (k.fcbOf fd).offset ∧ (k.fcbOf fd).offset < 2 ^ 31

variable {k : Kernel} {fd count : ℤ} {buf junk : Mem}

theorem inside_refuse : Inside inode m (k.refuse buf) :=
  ⟨fun _ ha => absurd ha List.not_mem_nil, fun _ hi => absurd hi List.not_mem_nil⟩

theorem readFile_inside_iff (h : OpenFile k fd m) (hc : 0 ≤ count) (hci : count < 2 ^ 31) :
    Inside (k.fcbOf fd).inode m (readFile stray junk k fd buf count) ↔
      (k.fcbOf fd).f_state = s_w ∨ InRange m (k.fcbOf fd).offset count := by
  have hopen : k.fcbIndex fd ≠ -1 := by have := h.index.1; omega
  have hmode := h.mode
  rw [readFile, ← Kernel.fcbOf]
  by_cases hw : (k.fcbOf fd).f_state = s_w
  · rw [if_pos (.inl (by rw [hw]; decide))]
    exact iff_of_true inside_refuse (.inl hw)
  · rw [if_neg (by simp only [hopen, or_false, not_not]; tauto)]
    refine (inside_iff_indices h.allocated rfl rfl (readTransfer_visits _ _ _) rfl rfl).trans ?_
    rw [readIndices_iff h.allocated.le h.offset.1 h.offset.2 hc hci]
    exact (or_iff_right hw).symm

theorem writeFile_inside_iff (h : OpenFile k fd m) (hc : 0 ≤ count) (hci : count < 2 ^ 31) :
    Inside (k.fcbOf fd).inode m (writeFile stray junk k fd buf count) ↔
      (k.fcbOf fd).f_state = s_r ∨ InRange m (k.fcbOf fd).offset count := by
  have hopen : k.fcbIndex fd ≠ -1 := by have := h.index.1; omega
  have hmode := h.mode
  rw [writeFile, ← Kernel.fcbOf]
  by_cases hr : (k.fcbOf fd).f_state = s_r
  · rw [if_pos (.inl (by rw [hr]; decide))]
    exact iff_of_true inside_refuse (.inl hr)
  · rw [if_neg (by simp only [hopen, or_false, not_not]; tauto)]
    refine (inside_iff_indices h.allocated rfl rfl (writeTransfer_visits _ _ _) rfl rfl).trans ?_
    rw [writeIndices_iff h.allocated.le h.offset.1 h.offset.2 hc hci]
    exact (or_iff_right hr).symm

end Inside

/-- **When `read` and `write` stay inside the file.** For every open descriptor, every offset and
every count that is not negative, a call moves only the file's blocks and uses only indices of the
inode if and only if it is refused for its mode or the request ends inside the last block. -/
theorem request_inside_iff (stray : ℤ → UInt32) (junk : Mem) (k : Kernel) (fd : ℤ) (buf : Mem)
    (count : ℤ) (m : ℕ) (h : OpenFile k fd m) (hc : 0 ≤ count) (hci : count < 2 ^ 31) :
    (Inside (k.fcbOf fd).inode m (readFile stray junk k fd buf count) ↔
      (k.fcbOf fd).f_state = s_w ∨ InRange m (k.fcbOf fd).offset count) ∧
    (Inside (k.fcbOf fd).inode m (writeFile stray junk k fd buf count) ↔
      (k.fcbOf fd).f_state = s_r ∨ InRange m (k.fcbOf fd).offset count) :=
  ⟨readFile_inside_iff h hc hci, writeFile_inside_iff h hc hci⟩

/-! ### A file of one block -/

/-- Descriptor 0 of process 0 is open for reading and writing on a file whose only block is 288. -/
def oneBlockKernel : Kernel where
  procs := ⟨fun _ => ⟨0, fun fd => if fd = 0 then 0 else -1, 0, 0, Running, 0, 0, 0, 0, -1⟩, 0⟩
  fcb_table := fun _ => ⟨s_rw, setDataBlockOffset emptyInode 0 288, 0, 1⟩
  direct := zeroSector
  disk := fun _ => zeroSector

theorem oneBlockKernel_open : OpenFile oneBlockKernel 0 1 := by
  refine ⟨by decide, .inr (.inr rfl), ⟨by decide, fun j hj => ?_, fun j hj hlt => ?_⟩, by decide⟩
  · obtain rfl : j = 0 := by omega
    decide
  · rw [Kernel.fcbOf, oneBlockKernel, dataBlockOffset_set_of_ne _ (by omega),
      dataBlockOffset_emptyInode hlt]

theorem request_inside_iff_oneBlock :
    (Inside (oneBlockKernel.fcbOf 0).inode 1
        (readFile (fun _ => 0) (fun _ => 0) oneBlockKernel 0 (fun _ => 0) 511) ↔
      (oneBlockKernel.fcbOf 0).f_state = s_w ∨
        InRange 1 (oneBlockKernel.fcbOf 0).offset 511) ∧
    (Inside (oneBlockKernel.fcbOf 0).inode 1
        (writeFile (fun _ => 0) (fun _ => 0) oneBlockKernel 0 (fun _ => 0) 511) ↔
      (oneBlockKernel.fcbOf 0).f_state = s_r ∨
        InRange 1 (oneBlockKernel.fcbOf 0).offset 511) :=
  request_inside_iff _ _ oneBlockKernel 0 _ 511 1 oneBlockKernel_open (by decide) (by decide)

/-- **A request that leaves the file.** Reading or writing all 512 bytes of the block goes on to
entry 1 of the inode, which is `-1`. -/
theorem oneBlock_not_inside :
    OpenFile oneBlockKernel 0 1 ∧
      ¬Inside (oneBlockKernel.fcbOf 0).inode 1
        (readFile (fun _ => 0) (fun _ => 0) oneBlockKernel 0 (fun _ => 0) 512) ∧
      ¬Inside (oneBlockKernel.fcbOf 0).inode 1
        (writeFile (fun _ => 0) (fun _ => 0) oneBlockKernel 0 (fun _ => 0) 512) := by
  have hrange : ¬InRange 1 (oneBlockKernel.fcbOf 0).offset 512 := by
    rintro ⟨-, hend, -⟩
    exact absurd hend (by decide)
  refine ⟨oneBlockKernel_open, ?_, ?_⟩
  · rw [readFile_inside_iff oneBlockKernel_open (by decide) (by decide)]
    exact fun h => h.elim (by decide) hrange
  · rw [writeFile_inside_iff oneBlockKernel_open (by decide) (by decide)]
    exact fun h => h.elim (by decide) hrange

end OsLab
