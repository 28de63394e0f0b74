import OsLab.Lib.ByteBlock
import OsLab.Lib.CountUp
import OsLab.Lib.Linked

/-!
# Physical pages

Physical memory and the page allocator of `pmap.c`. The free list is threaded through the array
`pages` by `pp_link`; `page_alloc` takes its first page and `page_free` puts one in front, without
asking whether it is there already.

The kernel sees physical memory from `KOFFSET` on and reads and writes it at those addresses, as it
does here. `pages` and the rest of the kernel's own data are in the reserved pages `0 … 1024`; they
are kept apart from memory in the model, as no code here reads or writes them through a page.

## Main definitions

* `Memory` — physical memory, page by page, and what the allocator knows about it
* `FreeList` — the free list of the allocator: pages of memory, linked from `page_free_list` on
* `pageAlloc` — `page_alloc(alloc_flags)`, with the page it returns, `none` for `NULL`

## Main results

* `index_page`, `frames_setIndex` — entry `i` of the table in a page
* `FreeList.alloc`, `FreeList.free` — the two operations on the free list
* `freeList_pageInit` — the free list after `page_init`
-/

namespace OsLab

/-! ## Addresses and entries -/

/-- The number of physical pages. -/
def npages : ℕ := 2 ^ 15
/-- The bytes of a page. -/
def PGSIZE : ℕ := 4096
/-- The entries of a page table. -/
def NR_PTE : ℕ := 1024
/-- Where the kernel has physical memory. -/
def KOFFSET : UInt32 := 0xC0000000
/-- The bit of an entry that is present. -/
def PTE_P : UInt32 := 0x001

/-- The page of an address. -/
def PGNUM (la : UInt32) : ℕ := (la >>> 12).toNat

/-- The address in an entry. -/
def PTE_ADDR (pte : UInt32) : UInt32 := pte &&& 0xFFFFF000

/-- `*pte & PTE_P` -/
def Present (pte : UInt32) : Prop := pte &&& PTE_P ≠ 0

instance (pte : UInt32) : Decidable (Present pte) := inferInstanceAs (Decidable (_ ≠ _))

/-- The address of a page. -/
def page2pa (pp : ℕ) : UInt32 := UInt32.ofNat pp <<< 12

/-- The page at an address. -/
def pa2page (pa : UInt32) : ℕ := PGNUM pa

/-- The address of a page in the kernel. -/
def page2kva (pp : ℕ) : UInt32 := page2pa pp + KOFFSET

section Address

variable {pte : UInt32} {p : ℕ}

theorem PGNUM_eq (la : UInt32) : PGNUM la = la.toNat / 4096 := by
  rw [PGNUM, UInt32.toNat_shiftRight, Nat.shiftRight_eq_div_pow]
  rfl

theorem PGNUM_lt (la : UInt32) : PGNUM la < 2 ^ 20 := by
  have := la.toNat_lt
  rw [PGNUM_eq]
  omega

theorem toNat_page2pa (h : p < 2 ^ 20) : (page2pa p).toNat = 4096 * p := by
  rw [page2pa, UInt32.toNat_shiftLeft, UInt32.toNat_ofNat', Nat.shiftLeft_eq]
  show p % 2 ^ 32 * 2 ^ 12 % 2 ^ 32 = 4096 * p
  omega

theorem and_mask {x : ℕ} (h : x < 2 ^ 32) : x &&& 0xFFFFF000 = 4096 * (x / 4096) := by
  have hmask : (0xFFFFF000 : ℕ) = (2 ^ 20 - 1) <<< 12 := rfl
  have hmul : 4096 * (x / 4096) = (x >>> 12) <<< 12 := by
    rw [Nat.shiftLeft_eq, Nat.shiftRight_eq_div_pow, Nat.mul_comm]
  rw [hmul, hmask]
  refine Nat.eq_of_testBit_eq fun i => ?_
  rw [Nat.testBit_and, Nat.testBit_shiftLeft, Nat.testBit_shiftLeft, Nat.testBit_two_pow_sub_one,
    Nat.testBit_shiftRight]
  rcases Nat.lt_or_ge i 12 with hlow | hhigh
  · simp [Nat.not_le.mpr hlow]
  · have hi : 12 + (i - 12) = i := by omega
    rw [hi]
    by_cases htop : i < 32
    · have hin : i - 12 < 20 := by omega
      simp [hhigh, hin]
    · have hout : x.testBit i = false :=
        Nat.testBit_lt_two_pow (Nat.lt_of_lt_of_le h (Nat.pow_le_pow_right (by decide) (by omega)))
      simp [hout]

/-- The address in an entry is that of the page whose number is in it. -/
theorem PTE_ADDR_eq (pte : UInt32) : PTE_ADDR pte = page2pa (PGNUM pte) := by
  apply UInt32.toNat_inj.mp
  rw [toNat_page2pa (PGNUM_lt pte), PTE_ADDR, UInt32.toNat_and, PGNUM_eq]
  exact and_mask pte.toNat_lt

/-- The entry `copy` and `pgdir_walk` make for a page. -/
theorem toNat_page2pa_or (h : p < 2 ^ 20) : (page2pa p ||| 0x7).toNat = 4096 * p + 7 := by
  rw [UInt32.toNat_or, toNat_page2pa h, Nat.mul_comm, ← Nat.shiftLeft_eq p 12]
  exact (Nat.shiftLeft_add_eq_or_of_lt (by decide) p).symm

theorem PGNUM_page2pa (h : p < 2 ^ 20) : PGNUM (page2pa p) = p := by
  rw [PGNUM_eq, toNat_page2pa h]
  omega

theorem PGNUM_page2pa_or (h : p < 2 ^ 20) : PGNUM (page2pa p ||| 0x7) = p := by
  rw [PGNUM_eq, toNat_page2pa_or h]
  omega

theorem present_iff : Present pte ↔ pte.toNat % 2 = 1 := by
  rw [Present, PTE_P, ne_eq, ← UInt32.toNat_inj, UInt32.toNat_and]
  show ¬pte.toNat &&& 1 = 0 ↔ _
  rw [Nat.and_one_is_mod]
  omega

theorem present_page2pa_or (h : p < 2 ^ 20) : Present (page2pa p ||| 0x7) := by
  rw [present_iff, toNat_page2pa_or h]
  omega

theorem not_present_zero : ¬Present 0 := by decide

end Address

/-! ## Memory -/

/-- The contents of a page. -/
abbrev Frame := ByteBlock 4096

/-- A page of zeros. -/
def zeroFrame : Frame := ByteBlock.ofFn 4096 fun _ => 0

/-- `struct PageInfo` -/
structure PageInfo where
  pp_link : Option ℕ
  pp_ref : UInt16

/-- Physical memory, page by page, and what the allocator knows about it. -/
structure Memory where
  pages : ℕ → PageInfo
  page_free_list : Option ℕ
  frames : ℕ → Frame

/-- The physical address behind a kernel address. -/
def phys (kva : UInt32) : ℕ := (kva - KOFFSET).toNat

namespace Memory

variable (m : Memory)

/-- The byte at a physical address. -/
def byte (a : ℕ) : UInt8 := (m.frames (a / 4096)).get (a % 4096)

/-- Write `len` bytes from physical address `a` on. -/
def poke (a len : ℕ) (f : ℕ → UInt8) : Memory :=
  { m with
    frames := fun q => ByteBlock.ofFn 4096 fun o =>
      if a ≤ 4096 * q + o ∧ 4096 * q + o < a + len then f (4096 * q + o - a)
      else (m.frames q).get o }

/-- `t[i]`, for a table of words at kernel address `t`. -/
def index (t : UInt32) (i : ℕ) : UInt32 :=
  ByteBlock.le32 fun k => m.byte (phys (t + 4 * UInt32.ofNat i) + k)

/-- `t[i] = v` -/
def setIndex (t : UInt32) (i : ℕ) (v : UInt32) : Memory :=
  m.poke (phys (t + 4 * UInt32.ofNat i)) 4 (ByteBlock.byte32 v)

/-- `memset(dst, c, n)` -/
def memset (dst : UInt32) (c : UInt8) (n : ℕ) : Memory := m.poke (phys dst) n fun _ => c

/-- `memcpy(dst, src, n)` -/
def memcpy (dst src : UInt32) (n : ℕ) : Memory :=
  m.poke (phys dst) n fun k => m.byte (phys src + k)

/-- `pp->pp_ref ++` -/
def incRef (pp : ℕ) : Memory :=
  { m with
    pages := Function.update m.pages pp { m.pages pp with pp_ref := (m.pages pp).pp_ref + 1 } }

/-- Entry `i` of the table in page `p`. -/
def entry (p i : ℕ) : UInt32 := (m.frames p).get32 (4 * i)

/-- The contents of page `p` become `f`. -/
def setFrame (p : ℕ) (f : Frame) : Memory := { m with frames := Function.update m.frames p f }

end Memory

/-! ### What is written where -/

section Frames

variable {m : Memory} {p q i : ℕ} {v : UInt32}

theorem phys_page2kva (h : p < 2 ^ 20) : phys (page2kva p) = 4096 * p := by
  have hpa := toNat_page2pa h
  rw [phys, page2kva, KOFFSET, UInt32.toNat_sub, UInt32.toNat_add, hpa]
  show (2 ^ 32 - 0xC0000000 + (4096 * p + 0xC0000000) % 2 ^ 32) % 2 ^ 32 = 4096 * p
  omega

theorem phys_entry (h : p < 2 ^ 20) (hi : i < 1024) :
    phys (page2kva p + 4 * UInt32.ofNat i) = 4096 * p + 4 * i := by
  have hpa := toNat_page2pa h
  have hoff : (4 * UInt32.ofNat i).toNat = 4 * i := by
    rw [UInt32.toNat_mul, UInt32.toNat_ofNat']
    show 4 * (i % 2 ^ 32) % 2 ^ 32 = 4 * i
    omega
  rw [phys, page2kva, KOFFSET, UInt32.toNat_sub, UInt32.toNat_add, UInt32.toNat_add, hpa, hoff]
  show (2 ^ 32 - 0xC0000000 + ((4096 * p + 0xC0000000) % 2 ^ 32 + 4 * i) % 2 ^ 32) % 2 ^ 32 = _
  omega

/-- Writing inside one page. -/
theorem Memory.poke_page {o len : ℕ} (f : ℕ → UInt8) (h : o + len ≤ 4096) :
    m.poke (4096 * p + o) len f = m.setFrame p (ByteBlock.ofFn 4096 fun k =>
      if o ≤ k ∧ k < o + len then f (k - o) else (m.frames p).get k) := by
  rw [poke, setFrame]
  congr 1
  funext q
  rcases eq_or_ne q p with rfl | hne
  · rw [Function.update_self]
    refine ByteBlock.ext_get fun k hk => ?_
    rw [ByteBlock.get_ofFn, ByteBlock.get_ofFn, if_pos hk, if_pos hk]
    have hpos : 4096 * q + k - (4096 * q + o) = k - o := by omega
    rw [hpos]
    exact if_congr (by omega) rfl rfl
  · rw [Function.update_of_ne hne]
    refine ByteBlock.ext_get fun k hk => ?_
    rw [ByteBlock.get_ofFn, if_pos hk, if_neg (by omega)]

/-- Reading inside one page. -/
theorem Memory.byte_page {o : ℕ} (h : o < 4096) : m.byte (4096 * p + o) = (m.frames p).get o := by
  have hdiv : (4096 * p + o) / 4096 = p := by omega
  have hmod : (4096 * p + o) % 4096 = o := by omega
  rw [byte, hdiv, hmod]

/-- **Reading entry `i`** of the table in page `p`. -/
theorem Memory.index_page (h : p < 2 ^ 20) (hi : i < 1024) :
    m.index (page2kva p) i = m.entry p i := by
  rw [index, phys_entry h hi, entry, ByteBlock.get32]
  refine ByteBlock.le32_congr fun k hk => ?_
  rw [Nat.add_assoc, byte_page (by omega)]

/-- **Writing entry `i`** of the table in page `p`. -/
theorem Memory.setIndex_page (h : p < 2 ^ 20) (hi : i < 1024) :
    m.setIndex (page2kva p) i v = m.setFrame p ((m.frames p).set32 (4 * i) v) := by
  rw [setIndex, phys_entry h hi, poke_page _ (by omega)]
  rfl

theorem Memory.memset_page (h : p < 2 ^ 20) :
    m.memset (page2kva p) 0 PGSIZE = m.setFrame p zeroFrame := by
  have hpos : 4096 * p = 4096 * p + 0 := rfl
  rw [memset, phys_page2kva h, hpos, poke_page _ (Nat.le_refl _)]
  congr 1
  refine ByteBlock.ext_get fun k hk => ?_
  rw [ByteBlock.get_ofFn, zeroFrame, ByteBlock.get_ofFn, if_pos hk, if_pos hk,
    if_pos ⟨Nat.zero_le k, by simpa [PGSIZE] using hk⟩]

theorem Memory.memcpy_page (h : p < 2 ^ 20) (hq : q < 2 ^ 20) :
    m.memcpy (page2kva p) (page2kva q) PGSIZE = m.setFrame p (m.frames q) := by
  have hpos : 4096 * p = 4096 * p + 0 := rfl
  rw [memcpy, phys_page2kva h, phys_page2kva hq, hpos, poke_page _ (Nat.le_refl _)]
  congr 1
  refine ByteBlock.ext_get fun k hk => ?_
  rw [ByteBlock.get_ofFn, if_pos hk, if_pos ⟨Nat.zero_le k, by simpa [PGSIZE] using hk⟩,
    Nat.sub_zero,
    byte_page hk]

/-- `memcpy(&p[i], &q[i], 4 * n)`, of entries of the tables in two pages. -/
theorem Memory.memcpy_entries {n : ℕ} (h : p < 2 ^ 20) (hq : q < 2 ^ 20) (hi : i < 1024)
    (hn : i + n ≤ 1024) :
    m.memcpy (page2kva p + 4 * UInt32.ofNat i) (page2kva q + 4 * UInt32.ofNat i) (4 * n) =
      m.setFrame p (ByteBlock.ofFn 4096 fun k =>
        if 4 * i ≤ k ∧ k < 4 * i + 4 * n then (m.frames q).get k else (m.frames p).get k) := by
  rw [memcpy, phys_entry h hi, phys_entry hq hi, poke_page _ (by omega)]
  congr 1
  refine ByteBlock.ext_get fun k hk => ?_
  rw [ByteBlock.get_ofFn, ByteBlock.get_ofFn, if_pos hk, if_pos hk]
  refine if_ctx_congr Iff.rfl (fun hin => ?_) fun _ => rfl
  rw [Nat.add_assoc, byte_page (by omega)]
  congr 1
  omega

@[simp] theorem Memory.frames_setFrame (m : Memory) (p : ℕ) (f : Frame) :
    (m.setFrame p f).frames = Function.update m.frames p f := rfl

@[simp] theorem Memory.pages_setFrame (m : Memory) (p : ℕ) (f : Frame) :
    (m.setFrame p f).pages = m.pages := rfl

@[simp] theorem Memory.page_free_list_setFrame (m : Memory) (p : ℕ) (f : Frame) :
    (m.setFrame p f).page_free_list = m.page_free_list := rfl

@[simp] theorem Memory.frames_incRef (m : Memory) (p : ℕ) : (m.incRef p).frames = m.frames := rfl

@[simp] theorem get_zeroFrame (k : ℕ) : zeroFrame.get k = 0 := by
  rw [zeroFrame, ByteBlock.get_ofFn]
  split <;> rfl

@[simp] theorem get32_zeroFrame (off : ℕ) : zeroFrame.get32 off = 0 := by
  rw [ByteBlock.get32]
  simp only [get_zeroFrame]
  decide

theorem entry_zeroFrame (h : m.frames p = zeroFrame) (i : ℕ) : m.entry p i = 0 := by
  rw [Memory.entry, h, get32_zeroFrame]

end Frames

/-! ## The allocator -/

/-- The free list of the allocator: pages of memory, linked from `page_free_list` on. -/
structure FreeList (m : Memory) (l : List ℕ) : Prop where
  linked : Linked (fun p => (m.pages p).pp_link) m.page_free_list l
  lt : ∀ p ∈ l, p < npages

/-- One page's turn in `page_init`. -/
def pageInitStep (i : ℕ) (m : Memory) : Memory :=
  if 1024 < i then
    { m with
      pages := Function.update m.pages i ⟨m.page_free_list, 0⟩
      page_free_list := some i }
  else { m with pages := Function.update m.pages i ⟨none, 1⟩ }

/-- `page_init` -/
def pageInit (m : Memory) : Memory := countUp pageInitStep m npages

/-- The flag of `page_alloc` for a page of zeros. -/
def ALLOC_ZERO : UInt32 := 1

/-- `page_alloc(alloc_flags)`, with the page it returns, `none` for `NULL`. -/
def pageAlloc (alloc_flags : UInt32) (m : Memory) : Option (ℕ × Memory) :=
  match m.page_free_list with
  | none => none
  | some p =>
    let m := { m with
      page_free_list := (m.pages p).pp_link
      pages := Function.update m.pages p ⟨none, 0⟩ }
    some (p, if alloc_flags &&& ALLOC_ZERO ≠ 0 then m.memset (page2kva p) 0 PGSIZE else m)

/-- `pp = page_alloc(ALLOC_ZERO); pp->pp_ref ++;` -/
def newPage (m : Memory) : Option (ℕ × Memory) :=
  (pageAlloc ALLOC_ZERO m).map fun r => (r.1, r.2.incRef r.1)

/-- `page_free(pp)` -/
def pageFree (pp : ℕ) (m : Memory) : Memory :=
  { m with
    pages := Function.update m.pages pp { m.pages pp with pp_link := m.page_free_list }
    page_free_list := some pp }

/-- `pp->pp_ref = 0; page_free(pp);` -/
def freePage (pp : ℕ) (m : Memory) : Memory :=
  pageFree pp { m with pages := Function.update m.pages pp { m.pages pp with pp_ref := 0 } }

section Alloc

variable {m : Memory} {l : List ℕ} {p : ℕ}

theorem link_update (t : ℕ → PageInfo) (p : ℕ) (info : PageInfo) :
    (fun q => (Function.update t p info q).pp_link) =
      Function.update (fun q => (t q).pp_link) p info.pp_link := by
  funext q
  rw [Function.update_apply, Function.update_apply]
  split <;> rfl

/-- Only the links of the pages on the list matter. -/
theorem FreeList.congr {m' : Memory} (h : FreeList m l)
    (hhead : m'.page_free_list = m.page_free_list)
    (hpages : ∀ p ∈ l, (m'.pages p).pp_link = (m.pages p).pp_link) : FreeList m' l := by
  refine ⟨?_, h.lt⟩
  rw [hhead]
  exact h.linked.congr hpages

theorem FreeList.setIndex (h : FreeList m l) (t : UInt32) (i : ℕ) (v : UInt32) :
    FreeList (m.setIndex t i v) l :=
  h.congr rfl fun _ _ => rfl

theorem FreeList.memcpy (h : FreeList m l) (dst src : UInt32) (n : ℕ) :
    FreeList (m.memcpy dst src n) l :=
  h.congr rfl fun _ _ => rfl

theorem FreeList.nodup (h : FreeList m l) : l.Nodup := h.linked.nodup

/-- **A new page** is the first of the free list, and full of zeros. -/
theorem FreeList.alloc (h : FreeList m (p :: l)) :
    ∃ m', newPage m = some (p, m') ∧ FreeList m' l ∧
      m'.frames = Function.update m.frames p zeroFrame ∧
      ∀ q, q ≠ p → m'.pages q = m.pages q := by
  have hp : p < 2 ^ 20 := Nat.lt_trans (h.lt p (List.mem_cons_self ..)) (by decide)
  have hfirst : m.page_free_list = some p := h.linked.head_eq
  refine ⟨?m', ?eq, ?list, ?frames, ?pages⟩
  case eq =>
    have hflag : ALLOC_ZERO &&& ALLOC_ZERO ≠ 0 := by decide
    rw [newPage, pageAlloc, hfirst]
    simp only [if_pos hflag, Memory.memset_page hp, Option.map_some]
    rfl
  case list =>
    refine ⟨?_, fun q hq => h.lt q (List.mem_cons_of_mem p hq)⟩
    refine h.linked.tail.congr fun q hq => ?_
    have hne : q ≠ p := fun heq => (List.nodup_cons.mp h.nodup).1 (heq ▸ hq)
    simp [Memory.incRef, Function.update_of_ne hne]
  case frames => rfl
  case pages =>
    intro q hne
    simp [Memory.incRef, Function.update_of_ne hne]

theorem FreeList.newPage_nil (h : FreeList m []) : newPage m = none := by
  have hnone : m.page_free_list = none := h.linked
  rw [newPage, pageAlloc, hnone]
  rfl

/-- What `newPage` returns was the first page of the list. -/
theorem FreeList.of_newPage {m' : Memory} (h : FreeList m l) (hnew : newPage m = some (p, m')) :
    ∃ l', l = p :: l' ∧ FreeList m' l' := by
  cases l with
  | nil =>
    rw [h.newPage_nil] at hnew
    exact absurd hnew.symm (Option.some_ne_none _)
  | cons q l' =>
    obtain ⟨m₁, hm₁, hfree, -⟩ := h.alloc
    rw [hm₁] at hnew
    obtain ⟨rfl, rfl⟩ := Prod.mk.inj (Option.some.inj hnew)
    exact ⟨l', rfl, hfree⟩

/-- **Freeing a page** that is not on the list puts it in front. -/
theorem FreeList.free (h : FreeList m l) (hp : p ∉ l) (hlt : p < npages) :
    FreeList (freePage p m) (p :: l) := by
  refine ⟨?_, fun q hq => ?_⟩
  · have hpush := h.linked.push hp
    simp only [freePage, pageFree, link_update, Function.update_idem]
    exact hpush
  · rcases List.mem_cons.mp hq with rfl | hq
    · exact hlt
    · exact h.lt q hq

@[simp] theorem frames_freePage (p : ℕ) (m : Memory) : (freePage p m).frames = m.frames := rfl

theorem pages_freePage_of_ne {q : ℕ} (h : q ≠ p) : (freePage p m).pages q = m.pages q := by
  simp only [freePage, pageFree]
  rw [Function.update_of_ne h, Function.update_of_ne h]

theorem pp_ref_freePage (p : ℕ) (m : Memory) (q : ℕ) :
    ((freePage p m).pages q).pp_ref = if q = p then 0 else (m.pages q).pp_ref := by
  split
  · next heq =>
    simp only [freePage, pageFree]
    rw [heq, Function.update_self, Function.update_self]
  · next hne => rw [pages_freePage_of_ne hne]

/-- **The free list after `page_init`**: all pages that are not reserved. -/
theorem freeList_pageInit (h : m.page_free_list = none) :
    ∃ l, FreeList (pageInit m) l ∧ (∀ p, p ∈ l ↔ 1024 < p ∧ p < npages) ∧
      (∀ p ∈ l, ((pageInit m).pages p).pp_ref = 0) ∧ (pageInit m).frames = m.frames := by
  rw [pageInit]
  refine countUp_induction (n := npages)
    (P := fun i m' => ∃ l, FreeList m' l ∧ (∀ p, p ∈ l ↔ 1024 < p ∧ p < i) ∧
      (∀ p ∈ l, (m'.pages p).pp_ref = 0) ∧ m'.frames = m.frames) ?_ fun i hi m' hinv => ?_
  · exact ⟨[], ⟨h, by simp⟩, by simp, by simp, rfl⟩
  · obtain ⟨l, hl, hmem, href, hframes⟩ := hinv
    have hnot : i ∉ l := fun hil => Nat.lt_irrefl i ((hmem i).mp hil).2
    have hother : ∀ info, ∀ p ∈ l, Function.update m'.pages i info p = m'.pages p := by
      intro info p hp
      refine Function.update_of_ne ?_ ..
      rintro rfl
      exact hnot hp
    rw [pageInitStep]
    split
    · next hfree =>
      refine ⟨i :: l, ⟨?_, fun p hp => ?_⟩, fun p => ?_, fun p hp => ?_, hframes⟩
      · rw [link_update]
        exact hl.linked.push hnot
      · rcases List.mem_cons.mp hp with rfl | hp
        · exact hi
        · exact hl.lt p hp
      · rw [List.mem_cons, hmem]
        omega
      · dsimp only
        rcases List.mem_cons.mp hp with rfl | hp
        · rw [Function.update_self]
        · rw [hother _ p hp]
          exact href p hp
    · next hres =>
      have hsame :
          ∀ info, ∀ p ∈ l, (Function.update m'.pages i info p).pp_link = (m'.pages p).pp_link :=
        fun info p hp => by rw [hother info p hp]
      refine ⟨l, hl.congr rfl (hsame _), fun p => ?_, fun p hp => ?_, hframes⟩
      · rw [hmem]
        omega
      · dsimp only
        rw [hother _ p hp]
        exact href p hp

/-- How many they are. -/
theorem FreeList.length_eq (h : FreeList m l) (hmem : ∀ p, p ∈ l ↔ 1024 < p ∧ p < npages) :
    l.length = npages - 1025 := by
  have hperm : l.Perm (List.range' 1025 (npages - 1025)) :=
    (List.perm_ext_iff_of_nodup h.nodup List.nodup_range').mpr fun p => by
      rw [hmem, List.mem_range'_1]
      simp only [npages]
      omega
  rw [hperm.length_eq, List.length_range']

end Alloc

end OsLab
