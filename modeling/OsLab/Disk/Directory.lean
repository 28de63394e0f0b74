import OsLab.Disk.Frontier
import OsLab.Lib.Fold
import Mathlib.Data.Finset.Card

/-!
# The directory while files are added

`copy2myfs` puts a file in the first entry whose `inode_offset` is `-1`, and `open` finds it
again by comparing names from entry `0` on. The name is copied with `memcpy` and without its
terminator, so what ends it is the zero `formatter` left in the field; that is why a free entry
carries more than its `inode_offset` in `FreeSlot`.

## Main definitions

* `lookup` — the search of `open`: the first entry of that name, or `NR_DIR_ENTRY`
* `FreeSlot` — entry `e` is as `formatter` left it
* `IsEntry` — entry `e` holds this name, size and first inode
* `freeEntries` — the directory entries without an inode

## Main results

* `lookup_eq_iff` — what the search of `open` finds
* `isEntry_fillEntry` — an entry that has been filled in
* `inodeOffset_fillEntry`, `filename_fillEntry` — the other entries
-/

namespace OsLab

variable {direct : Sector} {e k : ℕ}

/-- The search of `open`: the first entry of that name, or `NR_DIR_ENTRY`. -/
def lookup (direct : Sector) (name : List UInt8) : ℕ :=
  (List.range NR_DIR_ENTRY).findIdx fun e => strcmpEq (filename direct e) name

/-- Entry `e` is as `formatter` left it. -/
structure FreeSlot (direct : Sector) (e : ℕ) : Prop where
  /-- No inode. -/
  offset : inodeOffset direct e = minusOne
  /-- The name field is zero throughout. -/
  name : ∀ i < 24, filename direct e i = 0

/-- Entry `e` holds this name, size and first inode. -/
structure IsEntry (direct : Sector) (e : ℕ) (name : List UInt8) (size inode_offset : ℕ) :
    Prop where
  name : strcmpEq (filename direct e) name = true
  size : fileSize direct e = UInt32.ofNat size
  offset : inodeOffset direct e = UInt32.ofNat inode_offset

theorem freeSlot_formatDir (he : e < NR_DIR_ENTRY) : FreeSlot (formatDir NR_DIR_ENTRY) e :=
  ⟨inodeOffset_formatDir he (Nat.le_refl _), fun i hi => formatDir_get (by omega)⟩

theorem ofNat_ne_minusOne {b : ℕ} (h : b < NR_BLOCK) : UInt32.ofNat b ≠ minusOne := by
  intro heq
  have hval : b % 2 ^ 32 = 0xFFFFFFFF := by
    rw [← UInt32.toNat_ofNat', heq]; rfl
  simp only [NR_BLOCK, BITMAP_SIZE] at h
  omega

/-! ## Searching -/

theorem findIdx_range_eq {p : ℕ → Bool} {n : ℕ} (hk : k < n) (hp : p k = true)
    (hbelow : ∀ e < k, p e = false) : (List.range n).findIdx p = k := by
  refine (List.findIdx_eq (by simpa using hk)).mpr ⟨by simpa using hp, fun e he => ?_⟩
  simpa using hbelow e he

theorem findIdx_range_lt {p : ℕ → Bool} {n e : ℕ} (he : e < n) (hp : p e = true) :
    (List.range n).findIdx p < n := by
  have hlt : (List.range n).findIdx p < (List.range n).length :=
    List.findIdx_lt_length.mpr ⟨e, List.mem_range.mpr he, hp⟩
  rwa [List.length_range] at hlt

/-- What a search finds, if it finds something. -/
theorem findIdx_range_spec {p : ℕ → Bool} {n : ℕ} (h : (List.range n).findIdx p < n) :
    p ((List.range n).findIdx p) = true ∧ ∀ j < (List.range n).findIdx p, p j = false := by
  have hat := @List.findIdx_getElem _ p (List.range n) (by rwa [List.length_range])
  rw [List.getElem_range] at hat
  refine ⟨hat, fun j hj => ?_⟩
  have hbefore := @List.not_of_lt_findIdx _ p (List.range n) j hj
  rwa [List.getElem_range] at hbefore

theorem freeEntry_eq (hk : k < NR_DIR_ENTRY) (hfree : inodeOffset direct k = minusOne)
    (hbelow : ∀ e < k, inodeOffset direct e ≠ minusOne) : freeEntry direct = k :=
  findIdx_range_eq hk (by simpa using hfree) fun e he => by simpa using hbelow e he

theorem lookup_eq {name : List UInt8} (hk : k < NR_DIR_ENTRY)
    (hname : strcmpEq (filename direct k) name = true)
    (hbelow : ∀ e < k, strcmpEq (filename direct e) name = false) : lookup direct name = k :=
  findIdx_range_eq hk hname hbelow

/-- The search finds entry `k`. -/
theorem lookup_eq_iff {name : List UInt8} (hk : k < NR_DIR_ENTRY) :
    lookup direct name = k ↔ strcmpEq (filename direct k) name = true ∧
      ∀ e < k, strcmpEq (filename direct e) name = false := by
  constructor
  · rintro rfl
    exact findIdx_range_spec hk
  · rintro ⟨hname, hbelow⟩
    exact lookup_eq hk hname hbelow

theorem strcmpEq_trans {p : ℕ → UInt8} {q r : List UInt8} (hq : 0 ∉ q) (hr : 0 ∉ r)
    (h : strcmpEq p q = true) (h' : strcmpEq p r = true) : q = r := by
  induction q generalizing p r with
  | nil =>
    cases r with
    | nil => rfl
    | cons c r =>
      simp only [strcmpEq, Bool.and_eq_true, beq_iff_eq] at h h'
      simp [← h'.1, h] at hr
  | cons c q ih =>
    cases r with
    | nil =>
      simp only [strcmpEq, Bool.and_eq_true, beq_iff_eq] at h h'
      simp [← h.1, h'] at hq
    | cons c' r =>
      simp only [strcmpEq, Bool.and_eq_true, beq_iff_eq] at h h'
      simp only [List.mem_cons, not_or] at hq hr
      rw [← h.1, ← h'.1, ih hq.2 hr.2 h.2 h'.2]

/-! ## Filling an entry -/

section Fill

variable {name : List UInt8} {filesz bitoffset : ℕ}

theorem fillEntry_get_of_ne {e' i : ℕ} (hname : name.length ≤ 24) (he : e' ≠ e)
    (hlo : 32 * e' ≤ i) (hi : i < 32 * e' + 32) :
    (fillEntry direct e name filesz bitoffset).get i = direct.get i := by
  rw [fillEntry, ByteBlock.get_set32_of_not_mem _ (by omega),
    ByteBlock.get_set32_of_not_mem _ (by omega), ByteBlock.get_copyAt_of_not_mem (by omega)]

theorem FreeSlot.fillEntry {e' : ℕ} (h : FreeSlot direct e') (hname : name.length ≤ 24)
    (he : e' ≠ e) : FreeSlot (fillEntry direct e name filesz bitoffset) e' := by
  refine ⟨?_, fun i hi => ?_⟩
  · rw [← h.offset]
    exact ByteBlock.get32_congr fun i hlo hi => fillEntry_get_of_ne hname he (by omega) (by omega)
  · rw [← h.name i hi]
    exact fillEntry_get_of_ne hname he (by omega) (by omega)

theorem strcmpEq_congr {p p' : ℕ → UInt8} {q : List UInt8} (h : ∀ i ≤ q.length, p i = p' i) :
    strcmpEq p q = strcmpEq p' q := by
  rw [Bool.eq_iff_iff, strcmpEq_iff, strcmpEq_iff, h _ (Nat.le_refl _)]
  exact and_congr_left' (forall₂_congr fun i hi => by rw [h i (by omega)])

theorem IsEntry.fillEntry {e' size off : ℕ} {name' : List UInt8}
    (h : IsEntry direct e' name' size off) (hname : name.length ≤ 24) (hname' : name'.length < 24)
    (he : e' ≠ e) : IsEntry (fillEntry direct e name filesz bitoffset) e' name' size off := by
  refine ⟨?_, ?_, ?_⟩
  · rw [← h.name]
    exact strcmpEq_congr fun i hi => fillEntry_get_of_ne hname he (by omega) (by omega)
  · rw [← h.size]
    exact ByteBlock.get32_congr fun i hlo hi => fillEntry_get_of_ne hname he (by omega) (by omega)
  · rw [← h.offset]
    exact ByteBlock.get32_congr fun i hlo hi => fillEntry_get_of_ne hname he (by omega) (by omega)

/-- The number of the first inode is written last, behind whatever the name has overwritten. -/
theorem inodeOffset_fillEntry (he : e < NR_DIR_ENTRY) :
    inodeOffset (fillEntry direct e name filesz bitoffset) e = UInt32.ofNat bitoffset := by
  simp only [NR_DIR_ENTRY] at he
  exact ByteBlock.get32_set32 _ (by omega)

theorem fileSize_fillEntry (he : e < NR_DIR_ENTRY) :
    fileSize (fillEntry direct e name filesz bitoffset) e = UInt32.ofNat filesz := by
  simp only [NR_DIR_ENTRY] at he
  rw [fileSize, fillEntry, ByteBlock.get32_set32_of_disjoint _ (by omega)]
  exact ByteBlock.get32_set32 _ (by omega)

/-- The name field of the entry that is filled. -/
theorem filename_fillEntry {i : ℕ} (hi : i < 24) :
    filename (fillEntry direct e name filesz bitoffset) e i =
      (direct.copyAt (32 * e) name).get (32 * e + i) := by
  rw [filename, fillEntry, ByteBlock.get_set32_of_not_mem _ (by omega),
    ByteBlock.get_set32_of_not_mem _ (by omega)]

/-- The name is found in the entry if the byte behind it was zero. -/
theorem name_fillEntry_iff (he : e < NR_DIR_ENTRY) (hname : name.length < 24) :
    strcmpEq (filename (fillEntry direct e name filesz bitoffset) e) name = true ↔
      filename direct e name.length = 0 := by
  simp only [NR_DIR_ENTRY] at he
  have hend : filename (fillEntry direct e name filesz bitoffset) e name.length =
      filename direct e name.length := by
    rw [filename_fillEntry hname, ByteBlock.get_copyAt_of_not_mem (.inr (Nat.le_refl _)), filename]
  rw [strcmpEq_iff, hend]
  refine ⟨fun h => h.2, fun h => ⟨fun i hi => ?_, h⟩⟩
  rw [filename_fillEntry (by omega), ByteBlock.get_copyAt hi (by omega)]

/-- The name of another entry is what it was. -/
theorem name_fillEntry_of_ne {q : List UInt8} {e' : ℕ} (hname : name.length ≤ 24)
    (hq : q.length < 24) (hne : e' ≠ e) :
    strcmpEq (filename (fillEntry direct e name filesz bitoffset) e') q =
      strcmpEq (filename direct e') q :=
  strcmpEq_congr fun i hi => fillEntry_get_of_ne hname hne (by omega) (by omega)

/-- **A filled entry.** The terminator of the name is the zero that was there before. -/
theorem isEntry_fillEntry (h : FreeSlot direct e) (he : e < NR_DIR_ENTRY)
    (hname : name.length < 24) :
    IsEntry (fillEntry direct e name filesz bitoffset) e name filesz bitoffset :=
  ⟨(name_fillEntry_iff he hname).mpr (h.name _ hname), fileSize_fillEntry he,
    inodeOffset_fillEntry he⟩

end Fill

/-! ## Free entries -/

section Free

variable {direct : Sector} {e filesz bitoffset : ℕ} {name : List UInt8}

/-- The directory entries without an inode. -/
def freeEntries (direct : Sector) : Finset ℕ :=
  (Finset.range NR_DIR_ENTRY).filter fun e => inodeOffset direct e = minusOne

theorem mem_freeEntries :
    e ∈ freeEntries direct ↔ e < NR_DIR_ENTRY ∧ inodeOffset direct e = minusOne := by
  rw [freeEntries, Finset.mem_filter, Finset.mem_range]

/-- The search finds a free entry, if there is one. -/
theorem freeEntry_lt_iff : freeEntry direct < NR_DIR_ENTRY ↔ freeEntries direct ≠ ∅ := by
  rw [← Finset.nonempty_iff_ne_empty]
  constructor
  · intro hlt
    exact ⟨_, mem_freeEntries.mpr ⟨hlt, beq_iff_eq.mp (findIdx_range_spec hlt).1⟩⟩
  · rintro ⟨e, he⟩
    obtain ⟨hlt, hfree⟩ := mem_freeEntries.mp he
    exact findIdx_range_lt hlt (beq_iff_eq.mpr hfree)

/-- The entry it finds, and the used ones before it. -/
theorem freeEntry_spec (h : freeEntry direct < NR_DIR_ENTRY) :
    inodeOffset direct (freeEntry direct) = minusOne ∧
      ∀ e < freeEntry direct, inodeOffset direct e ≠ minusOne := by
  obtain ⟨hfree, hbefore⟩ := findIdx_range_spec h
  refine ⟨beq_iff_eq.mp hfree, fun e he heq => ?_⟩
  have hne := hbefore e he
  rw [heq] at hne
  exact absurd hne (by decide)

/-- A short name takes one entry. -/
theorem card_freeEntries_fillEntry (hname : name.length ≤ 24) :
    (freeEntries direct).card ≤
      (freeEntries (fillEntry direct e name filesz bitoffset)).card + 1 := by
  have hsub : (freeEntries direct).erase e ⊆
      freeEntries (fillEntry direct e name filesz bitoffset) := by
    intro e' he'
    obtain ⟨hne, hmem⟩ := Finset.mem_erase.mp he'
    obtain ⟨hlt, hfree⟩ := mem_freeEntries.mp hmem
    refine mem_freeEntries.mpr ⟨hlt, ?_⟩
    rw [← hfree]
    exact ByteBlock.get32_congr fun i hlo hi => fillEntry_get_of_ne hname hne (by omega) (by omega)
  have hcard := Finset.card_le_card hsub
  have hpred := @Finset.pred_card_le_card_erase _ (freeEntries direct) e _
  omega

end Free

end OsLab
