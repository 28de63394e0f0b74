import Mathlib.Data.Fintype.EquivFin
import Mathlib.Data.Fintype.Option
import Mathlib.Data.Fintype.Prod
import OsLab.Memory.Page

/-!
# Address spaces

The user part of an address space is a tree of pages: the directory, a page table behind each of its
first 768 entries that is present, and a frame behind each present entry of such a table. `Pos` is a
place in that tree and `pageAt` the page that is found there. What the processor does with a user
address is then a look at one place (`translate_user`), and which pages a change of memory concerns
is said once for all places (`pageAt_congr`).

The entries from 768 on are the kernel's and the same in every address space.

## Main definitions

* `Pos` — a place in the tree of an address space
* `pageAt` — the page at a place of the tree with directory `d`
* `translate` — what the processor makes of an address: the physical address, if it is mapped
* `userByte` — the byte at a user address
* `userWrite` — the process writes a byte
* `Space` — the directory, the tables and the frames of an address space are pages of memory
-/

namespace OsLab

/-! ## Entries of tables -/

section Entry

variable {m m' : Memory} {p q i j : ℕ} {v : UInt32} {f : Frame}

theorem Memory.entry_congr (h : m'.frames p = m.frames p) (i : ℕ) : m'.entry p i = m.entry p i := by
  rw [entry, entry, h]

/-- Entry `i` of the table in page `p` becomes `v`. -/
def Memory.setEntry (m : Memory) (p i : ℕ) (v : UInt32) : Memory :=
  m.setFrame p ((m.frames p).set32 (4 * i) v)

@[simp] theorem Memory.frames_setEntry (m : Memory) (p i : ℕ) (v : UInt32) :
    (m.setEntry p i v).frames = Function.update m.frames p ((m.frames p).set32 (4 * i) v) := rfl

@[simp] theorem Memory.pages_setEntry (m : Memory) (p i : ℕ) (v : UInt32) :
    (m.setEntry p i v).pages = m.pages := rfl

@[simp] theorem Memory.page_free_list_setEntry (m : Memory) (p i : ℕ) (v : UInt32) :
    (m.setEntry p i v).page_free_list = m.page_free_list := rfl

theorem Memory.setIndex_eq (hp : p < 2 ^ 20) (hi : i < 1024) :
    m.setIndex (page2kva p) i v = m.setEntry p i v :=
  setIndex_page hp hi

theorem Memory.entry_setEntry_self (hi : i < 1024) : (m.setEntry p i v).entry p i = v := by
  rw [entry, frames_setEntry, Function.update_self]
  exact ByteBlock.get32_set32 v (by omega)

theorem Memory.entry_setEntry_of_ne (h : q ≠ p ∨ j ≠ i) :
    (m.setEntry p i v).entry q j = m.entry q j := by
  rw [entry, entry, frames_setEntry]
  rcases eq_or_ne q p with rfl | hne
  · rw [Function.update_self]
    exact ByteBlock.get32_set32_of_disjoint v (by omega)
  · rw [Function.update_of_ne hne]

/-- **The kernel's entries** are copied into an empty directory. -/
theorem Memory.memcpy_kernel (hzero : m.frames p = zeroFrame) (hp : p < 2 ^ 20)
    (hq : q < 2 ^ 20) :
    ∃ f, m.memcpy (page2kva p + 4 * 768) (page2kva q + 4 * 768) (4 * 32) = m.setFrame p f ∧
      (∀ i < 768, (m.setFrame p f).entry p i = 0) ∧
      ∀ i, 768 ≤ i → i < 800 → (m.setFrame p f).entry p i = m.entry q i := by
  have h768 : (768 : UInt32) = UInt32.ofNat 768 := rfl
  rw [h768, memcpy_entries hp hq (by decide) (by decide)]
  refine ⟨_, rfl, fun i hi => ?_, fun i hi hlt => ?_⟩
  · rw [entry, ← get32_zeroFrame (4 * i), frames_setFrame, Function.update_self]
    refine ByteBlock.get32_congr fun k hk hk' => ?_
    rw [ByteBlock.get_ofFn, if_pos (by omega), if_neg (by omega), hzero]
  · rw [entry, entry, frames_setFrame, Function.update_self]
    refine ByteBlock.get32_congr fun k hk hk' => ?_
    rw [ByteBlock.get_ofFn, if_pos (by omega), if_pos (by omega)]

/-- The page entry `i` of the table in page `p` points to, if it is present. -/
def Memory.target (m : Memory) (p i : ℕ) : Option ℕ :=
  if Present (m.entry p i) then some (PGNUM (m.entry p i)) else none

theorem Memory.target_congr (h : m'.entry p i = m.entry p i) : m'.target p i = m.target p i := by
  rw [target, target, h]

theorem Memory.target_eq_some :
    m.target p i = some q ↔ Present (m.entry p i) ∧ PGNUM (m.entry p i) = q := by
  rw [target]
  split
  · next h => simp [h]
  · next h => simp [h]

theorem Memory.target_eq_none : m.target p i = none ↔ ¬Present (m.entry p i) := by
  rw [target]
  split
  · next h => simp [h]
  · next h => simp [h]

/-- An entry made for page `q`. -/
theorem Memory.target_page2pa (h : m.entry p i = page2pa q ||| 0x7) (hq : q < 2 ^ 20) :
    m.target p i = some q := by
  rw [target_eq_some, h]
  exact ⟨present_page2pa_or hq, PGNUM_page2pa_or hq⟩

theorem Memory.target_zeroFrame (h : m.frames p = zeroFrame) (i : ℕ) : m.target p i = none := by
  rw [target_eq_none, entry_zeroFrame h]
  exact not_present_zero

end Entry

/-! ## Places -/

/-- A place in the tree of an address space. -/
inductive Pos
  | dir
  | table (i : Fin 768)
  | frame (i : Fin 768) (j : Fin 1024)
  deriving DecidableEq

/-- The indices that lead to a place. -/
def Pos.path : Pos → Option (Fin 768 × Option (Fin 1024))
  | .dir => none
  | .table i => some (i, none)
  | .frame i j => some (i, some j)

theorem Pos.table_ne_dir (i : Fin 768) : Pos.table i ≠ .dir := Pos.noConfusion

theorem Pos.frame_ne_dir (i : Fin 768) (j : Fin 1024) : Pos.frame i j ≠ .dir := Pos.noConfusion

theorem Pos.frame_ne_table (i k : Fin 768) (j : Fin 1024) : Pos.frame i j ≠ .table k :=
  Pos.noConfusion

theorem Pos.path_injective : Function.Injective Pos.path := by
  intro x y h
  cases x <;> cases y <;> simp_all [path]

instance : Finite Pos := .of_injective _ Pos.path_injective

noncomputable instance : Fintype Pos := .ofFinite Pos

/-- The page at a place of the tree with directory `d`. -/
def pageAt (m : Memory) (d : ℕ) : Pos → Option ℕ
  | .dir => some d
  | .table i => m.target d i
  | .frame i j => (m.target d i).bind fun t => m.target t j

section PageAt

variable {m m' : Memory} {d p t : ℕ} {i : Fin 768} {j : Fin 1024} {x : Pos}

@[simp] theorem pageAt_dir (m : Memory) (d : ℕ) : pageAt m d .dir = some d := rfl

theorem pageAt_frame (h : pageAt m d (.table i) = some t) (j : Fin 1024) :
    pageAt m d (.frame i j) = m.target t j := by
  have h : m.target d i = some t := h
  rw [pageAt, h, Option.bind_some]

theorem pageAt_frame_none (h : pageAt m d (.table i) = none) (j : Fin 1024) :
    pageAt m d (.frame i j) = none := by
  have h : m.target d i = none := h
  rw [pageAt, h, Option.bind_none]

/-- A frame is found through a table. -/
theorem exists_table (h : pageAt m d (.frame i j) = some p) :
    ∃ t, pageAt m d (.table i) = some t ∧ m.target t j = some p :=
  Option.bind_eq_some_iff.mp h

/-- A directory without tables. -/
theorem pageAt_eq_none (h : ∀ i : Fin 768, m.target d i = none) (hx : x ≠ .dir) :
    pageAt m d x = none := by
  cases x with
  | dir => exact absurd rfl hx
  | table i => exact h i
  | frame i j => exact pageAt_frame_none (h i) j

/-- **Only the directory and the tables matter** for what is found where. -/
theorem pageAt_congr (hdir : m'.frames d = m.frames d)
    (htable : ∀ i t, pageAt m d (.table i) = some t → m'.frames t = m.frames t) :
    pageAt m' d = pageAt m d := by
  have hd : ∀ i, m'.target d i = m.target d i := fun i =>
    Memory.target_congr (Memory.entry_congr hdir i)
  funext x
  cases x with
  | dir => rfl
  | table i => exact hd i
  | frame i j =>
    rw [pageAt, pageAt, hd]
    cases ht : m.target d i with
    | none => rfl
    | some t => exact Memory.target_congr (Memory.entry_congr (htable i t ht) j)

/-- **A new table**, empty and not in the tree yet, behind a free entry of the directory. -/
theorem pageAt_newTable {v : UInt32} (hfree : pageAt m d (.table i) = none) (hp : p < 2 ^ 20)
    (hnew : ∀ j t, pageAt m d (.table j) = some t → t ≠ p ∧ t ≠ d)
    (hv : v = page2pa p ||| 0x7) (hzero : m'.frames p = zeroFrame)
    (hdir : m'.frames d = (m.frames d).set32 (4 * i) v)
    (hkept : ∀ q, q ≠ p → q ≠ d → m'.frames q = m.frames q) :
    pageAt m' d = Function.update (pageAt m d) (.table i) (some p) := by
  have hentry : ∀ j, m'.entry d j = (m.setEntry d i v).entry d j := fun j =>
    Memory.entry_congr (by rw [hdir, Memory.frames_setEntry, Function.update_self]) j
  have hself : m'.target d i = some p := by
    refine Memory.target_page2pa ?_ hp
    rw [hentry, Memory.entry_setEntry_self (by omega), hv]
  have hother : ∀ j : Fin 768, j ≠ i → m'.target d j = m.target d j := fun j hj => by
    refine Memory.target_congr ?_
    rw [hentry, Memory.entry_setEntry_of_ne (.inr fun heq => hj (Fin.ext heq))]
  funext x
  rw [Function.update_apply]
  cases x with
  | dir => rfl
  | table j =>
    by_cases hj : j = i
    · rw [if_pos (congrArg Pos.table hj), hj]
      exact hself
    · rw [if_neg fun heq => hj (Pos.table.inj heq)]
      exact hother j hj
  | frame j k =>
    rw [if_neg (Pos.frame_ne_table j i k)]
    by_cases hj : j = i
    · subst hj
      rw [pageAt_frame_none hfree, pageAt_frame hself]
      exact Memory.target_zeroFrame hzero k
    · cases ht : m.target d j with
      | none => rw [pageAt_frame_none ht, pageAt_frame_none ((hother j hj).trans ht)]
      | some t =>
        obtain ⟨htp, htd⟩ := hnew j t ht
        rw [pageAt_frame ht, pageAt_frame ((hother j hj).trans ht)]
        exact Memory.target_congr (Memory.entry_congr (hkept t htp htd) k)

/-- **A new frame**, not in the tree yet, behind a free entry of a table. -/
theorem pageAt_newFrame {v : UInt32} (ht : pageAt m d (.table i) = some t) (hp : p < 2 ^ 20)
    (htd : t ≠ d) (hpd : p ≠ d) (hpt : p ≠ t)
    (hnew : ∀ k s, pageAt m d (.table k) = some s → s ≠ p ∧ (k ≠ i → s ≠ t))
    (hv : v = page2pa p ||| 0x7) (htable : m'.frames t = (m.frames t).set32 (4 * j) v)
    (hkept : ∀ q, q ≠ p → q ≠ t → m'.frames q = m.frames q) :
    pageAt m' d = Function.update (pageAt m d) (.frame i j) (some p) := by
  have hd : ∀ k, m'.target d k = m.target d k := fun k =>
    Memory.target_congr (Memory.entry_congr (hkept d (Ne.symm hpd) (Ne.symm htd)) k)
  have hentry : ∀ k, m'.entry t k = (m.setEntry t j v).entry t k := fun k =>
    Memory.entry_congr (by rw [htable, Memory.frames_setEntry, Function.update_self]) k
  funext x
  rw [Function.update_apply]
  cases x with
  | dir => rfl
  | table k =>
    rw [if_neg (Pos.frame_ne_table i k j).symm]
    exact hd k
  | frame k l =>
    cases hs : m.target d k with
    | none =>
      have hki : k ≠ i := by
        rintro rfl
        exact absurd (ht.symm.trans hs) (Option.some_ne_none t)
      rw [if_neg fun heq => hki (Pos.frame.inj heq).1, pageAt_frame_none hs,
        pageAt_frame_none ((hd k).trans hs)]
    | some s =>
      obtain ⟨hsp, hst⟩ := hnew k s hs
      rw [pageAt_frame hs, pageAt_frame ((hd k).trans hs)]
      by_cases hki : k = i
      · subst hki
        obtain rfl : s = t := Option.some.inj (hs.symm.trans ht)
        by_cases hl : l = j
        · subst hl
          rw [if_pos rfl]
          refine Memory.target_page2pa ?_ hp
          rw [hentry, Memory.entry_setEntry_self (by omega), hv]
        · rw [if_neg fun heq => hl (Pos.frame.inj heq).2]
          refine Memory.target_congr ?_
          rw [hentry, Memory.entry_setEntry_of_ne (.inr fun heq => hl (Fin.ext heq))]
      · rw [if_neg fun heq => hki (Pos.frame.inj heq).1]
        exact Memory.target_congr (Memory.entry_congr (hkept s hsp (hst hki)) l)

end PageAt

/-! ## User addresses -/

/-- The index into the page directory. -/
def PDX (la : UInt32) : ℕ := ((la >>> 22) &&& 0x3FF).toNat
/-- The index into the page table. -/
def PTX (la : UInt32) : ℕ := ((la >>> 12) &&& 0x3FF).toNat
/-- The offset in the page. -/
def PGOFF (la : UInt32) : ℕ := (la &&& 0xFFF).toNat

/-- What the processor makes of an address: the physical address, if it is mapped. -/
def translate (m : Memory) (cr3 va : UInt32) : Option ℕ :=
  (m.target (PGNUM cr3) (PDX va)).bind fun t =>
    (m.target t (PTX va)).map fun p => 4096 * p + PGOFF va

/-- The byte at a user address. -/
def userByte (m : Memory) (cr3 va : UInt32) : Option UInt8 := (translate m cr3 va).map m.byte

/-- The process writes a byte. -/
def userWrite (cr3 va : UInt32) (b : UInt8) (m : Memory) : Memory :=
  match translate m cr3 va with
  | some a => m.poke a 1 fun _ => b
  | none => m

section User

variable {m m' : Memory} {cr3 va : UInt32} {p q : ℕ}

theorem PDX_eq (la : UInt32) : PDX la = la.toNat / 2 ^ 22 := by
  have hlt := la.toNat_lt
  rw [PDX, UInt32.toNat_and, UInt32.toNat_shiftRight, Nat.shiftRight_eq_div_pow]
  show la.toNat / 2 ^ 22 &&& (2 ^ 10 - 1) = la.toNat / 2 ^ 22
  rw [Nat.and_two_pow_sub_one_eq_mod]
  omega

theorem PTX_eq (la : UInt32) : PTX la = la.toNat / 4096 % 1024 := by
  rw [PTX, UInt32.toNat_and, UInt32.toNat_shiftRight, Nat.shiftRight_eq_div_pow]
  show la.toNat / 2 ^ 12 &&& (2 ^ 10 - 1) = la.toNat / 4096 % 1024
  rw [Nat.and_two_pow_sub_one_eq_mod]
  rfl

theorem PGOFF_eq (la : UInt32) : PGOFF la = la.toNat % 4096 := by
  rw [PGOFF, UInt32.toNat_and]
  show la.toNat &&& (2 ^ 12 - 1) = la.toNat % 4096
  rw [Nat.and_two_pow_sub_one_eq_mod]

theorem PGOFF_lt (la : UInt32) : PGOFF la < 4096 := by
  rw [PGOFF_eq]
  exact Nat.mod_lt _ (by decide)

theorem PTX_lt (la : UInt32) : PTX la < 1024 := by
  rw [PTX_eq]
  exact Nat.mod_lt _ (by decide)

theorem PDX_lt (h : va < KOFFSET) : PDX va < 768 := by
  have hlt : va.toNat < 0xC0000000 := UInt32.lt_iff_toNat_lt.mp h
  rw [PDX_eq]
  omega

/-- The place a user address is in. -/
def userPos (va : UInt32) (h : va < KOFFSET) : Pos :=
  .frame ⟨PDX va, PDX_lt h⟩ ⟨PTX va, PTX_lt va⟩

/-- **A user address is looked up in one place.** -/
theorem translate_user (h : va < KOFFSET) :
    translate m cr3 va =
      (pageAt m (PGNUM cr3) (userPos va h)).map fun p => 4096 * p + PGOFF va := by
  rw [translate, userPos, pageAt, Option.map_bind]
  rfl

theorem userByte_eq (h : va < KOFFSET) :
    userByte m cr3 va =
      (pageAt m (PGNUM cr3) (userPos va h)).map fun p => (m.frames p).get (PGOFF va) := by
  rw [userByte, translate_user h, Option.map_map]
  congr 1
  funext p
  exact Memory.byte_page (PGOFF_lt va)

/-- A write changes one frame. -/
theorem frames_userWrite {b : UInt8} (h : va < KOFFSET)
    (hq : pageAt m (PGNUM cr3) (userPos va h) ≠ some q) :
    (userWrite cr3 va b m).frames q = m.frames q := by
  rw [userWrite, translate_user h]
  cases hp : pageAt m (PGNUM cr3) (userPos va h) with
  | none => rfl
  | some p =>
    have hne : q ≠ p := fun heq => hq (by rw [hp, heq])
    have hoff := PGOFF_lt va
    simp only [Option.map_some]
    rw [Memory.poke_page _ (by omega), Memory.frames_setFrame, Function.update_of_ne hne]

@[simp] theorem pages_userWrite {b : UInt8} : (userWrite cr3 va b m).pages = m.pages := by
  rw [userWrite]
  split <;> rfl

@[simp] theorem page_free_list_userWrite {b : UInt8} :
    (userWrite cr3 va b m).page_free_list = m.page_free_list := by
  rw [userWrite]
  split <;> rfl

end User

/-- The directory, the tables and the frames of an address space are pages of memory. -/
structure Space (m : Memory) (cr3 : UInt32) : Prop where
  aligned : PTE_ADDR cr3 = cr3
  lt : ∀ x p, pageAt m (PGNUM cr3) x = some p → p < npages

section Space

variable {m : Memory} {cr3 : UInt32}

theorem Space.dir_lt (h : Space m cr3) : PGNUM cr3 < npages := h.lt .dir _ rfl

/-- The kernel address of the directory. -/
theorem Space.kva (h : Space m cr3) : cr3 + KOFFSET = page2kva (PGNUM cr3) := by
  rw [page2kva, ← PTE_ADDR_eq, h.aligned]

/-- The places at which there is a page. -/
noncomputable def positions (m : Memory) (d : ℕ) : Finset Pos :=
  Finset.univ.filter fun x => (pageAt m d x).isSome

theorem mem_positions {d : ℕ} {x : Pos} : x ∈ positions m d ↔ (pageAt m d x).isSome := by
  simp [positions]

end Space

end OsLab
