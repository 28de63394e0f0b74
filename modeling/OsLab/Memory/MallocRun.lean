import OsLab.Lib.Results
import OsLab.Memory.LoaderImage

/-!
# Sequences of `mm_malloc`

The user directory that `init_mm` leaves is filled by calls of `mm_malloc` only, which take tables
and frames from the list that `page_init` leaves. `Extended` says how such a call changes memory,
and that the tables, the frames and the rest of the list stay apart; here this is put together for
any sequence of calls, with the addresses that they return.

## Main definitions

* `mallocs` — the calls `mm_malloc(va, len)` one after the other, with what they return
* `MallocOk` — the mapping that the calls have built
* `MallocStep` — one more call

## Main results

* `mallocs_ok` — the calls succeed exactly if there are pages enough, and then build an injective
  and stable mapping
-/

namespace OsLab

/-- The calls `mm_malloc(va, len)` one after the other, with what they return. -/
def mallocs (P : KernelPages) : List UInt32 → Memory → Option (List UInt32 × Memory) :=
  Results.run fun m va => mmMalloc (page2kva P.updir) va m

/-- The user pages of the addresses. -/
def pagesOf (vas : List UInt32) : Finset ℕ := (vas.map PGNUM).toFinset

/-- **The mapping that the calls have built.** -/
structure MallocOk (P : KernelPages) (m₀ : Memory) (vas addrs : List UInt32) (m : Memory) :
    Prop where
  length : addrs.length = vas.length
  /-- A call returns the address behind `va` in the user directory. -/
  addr : ∀ va addr, (va, addr) ∈ vas.zip addrs → translate m (page2pa P.updir) va = some addr.toNat
  /-- Addresses are in one frame if they are in one page. -/
  frame : ∀ va addr va' addr', (va, addr) ∈ vas.zip addrs → (va', addr') ∈ vas.zip addrs →
    (PGNUM addr = PGNUM addr' ↔ PGNUM va = PGNUM va')
  /-- The directory, its tables and its frames are all different, and not on the free list. -/
  own : ∃ l, FreeList m l ∧ OwnTree m l P.updir
  kernel : ∀ i, 768 ≤ i → m.entry P.updir i = m₀.entry P.updir i

/-- A page that the call for `va` has put at place `x` is full of zeros, but for the entry of a
table that leads to the page of `va`. -/
def ZeroFilled (va : UInt32) (m : Memory) (x : Pos) (p : ℕ) : Prop :=
  match x with
  | .frame _ _ => m.frames p = zeroFrame
  | _ => ∀ k, k ≠ PTX va → m.entry p k = 0

/-- **One more call.** -/
structure MallocStep (P : KernelPages) (va : UInt32) (m m' : Memory) : Prop where
  stable : ∀ v a, v < KOFFSET → translate m (page2pa P.updir) v = some a →
    translate m' (page2pa P.updir) v = some a
  place : ∀ x p, pageAt m P.updir x = some p → pageAt m' P.updir x = some p
  zero : ∀ x p, pageAt m P.updir x = none → pageAt m' P.updir x = some p → ZeroFilled va m' x p

section Calls

variable {P : KernelPages} {u : ℕ} {m m' : Memory} {l : List ℕ} {va addr : UInt32}
  {vas addrs : List UInt32}

theorem PGNUM_lt_user (h : va < KOFFSET) : PGNUM va < 786432 := by
  have hlt := toNat_lt_KOFFSET h
  rw [PGNUM_eq]
  omega

/-- The address that a call has returned for `va`. -/
def AddrOk (u : ℕ) (m : Memory) (va addr : UInt32) : Prop :=
  ∃ p, pageAt m u (framePlace (PGNUM va)) = some p ∧ p < 2 ^ 20 ∧
    addr = page2pa p + UInt32.ofNat (PGOFF va)

theorem toNat_page2pa_add {p : ℕ} (hp : p < 2 ^ 20) (va : UInt32) :
    (page2pa p + UInt32.ofNat (PGOFF va)).toNat = 4096 * p + PGOFF va := by
  have hoff := PGOFF_lt va
  rw [UInt32.toNat_add, toNat_page2pa hp, UInt32.toNat_ofNat']
  omega

/-- **A sequence of calls** extends the tree. -/
theorem mallocs_extends (hl : FreeList m l) (ho : OwnTree m l P.updir)
    (hvas : ∀ va ∈ vas, va < KOFFSET) :
    Extends P.updir (placesOf (pagesOf vas)) m l ((mallocs P vas m).map Prod.snd) := by
  induction vas generalizing m l with
  | nil => exact ⟨l, .refl hl ho (Finset.empty_subset _)⟩
  | cons va vas ih =>
    have hva := hvas va List.mem_cons_self
    have hstep := mmMalloc_extends hl ho hva
    have hplaces : placesOf (pagesOf (va :: vas)) =
        ({tablePos va hva} ∪ {userPos va hva}) ∪ placesOf (pagesOf vas) := by
      rw [pagesOf, List.map_cons, List.toFinset_cons, Finset.insert_eq, placesOf_union,
        placesOf_singleton, tablePos_eq hva, userPos_eq hva, PGNUM_eq]
      rfl
    have hmap : (mallocs P (va :: vas) m).map Prod.snd =
        ((mmMalloc (page2kva P.updir) va m).map Prod.snd).bind fun m' =>
          (mallocs P vas m').map Prod.snd := by
      rw [mallocs, Results.run, Option.map_bind, Option.bind_map]
      refine congrArg (Option.bind _) (funext fun x => ?_)
      exact Option.map_map ..
    rw [hplaces, hmap]
    exact hstep.bind fun m' l' _ h => ih h.free h.own fun v hv =>
      hvas v (List.mem_cons_of_mem va hv)

/-- **What the calls return.** -/
theorem mallocs_addrs (hl : FreeList m l) (ho : OwnTree m l P.updir)
    (hvas : ∀ va ∈ vas, va < KOFFSET)
    (hrun : mallocs P vas m = some (addrs, m')) : List.Forall₂ (AddrOk P.updir m') vas addrs := by
  induction vas generalizing m l addrs with
  | nil =>
    obtain ⟨rfl, -⟩ := Prod.mk.inj (Option.some.inj hrun)
    exact .nil
  | cons va vas ih =>
    have hva := hvas va List.mem_cons_self
    have hrest := fun v hv => hvas v (List.mem_cons_of_mem va hv)
    rw [mallocs, Results.run, Option.bind_eq_some_iff] at hrun
    obtain ⟨⟨addr, m₁⟩, hcall, hmap⟩ := hrun
    obtain ⟨⟨addrs', m₂⟩, hrun', heq⟩ := Option.map_eq_some_iff.mp hmap
    obtain ⟨rfl, rfl⟩ := Prod.mk.inj heq
    have hstep := mmMalloc_extends hl ho hva
    rw [hcall] at hstep
    obtain ⟨l₁, h₁⟩ := hstep
    have hlast := mallocs_extends h₁.free h₁.own hrest
    have hrun'' : mallocs P vas m₁ = some (addrs', m₂) := hrun'
    rw [hrun''] at hlast
    obtain ⟨l₂, h₂⟩ := hlast
    obtain ⟨p, hp, hp20, haddr⟩ := mmMalloc_place hl ho hva hcall
    rw [userPos_eq hva, ← PGNUM_eq] at hp
    exact .cons ⟨p, h₂.place _ p hp, hp20, haddr⟩ (ih h₁.free h₁.own hrest hrun')

/-- What `translate` makes of a user address. -/
theorem translate_updir (P : KernelPages) {v : UInt32} (hv : v < KOFFSET) :
    translate m (page2pa P.updir) v =
      (pageAt m P.updir (userPos v hv)).map fun p => 4096 * p + PGOFF v := by
  have hu := P.updir_le
  rw [translate_user hv, PGNUM_page2pa (by omega)]

/-- The first `if` of `pgdir_walk` puts a page in place or does nothing. -/
theorem walkTable_cases (hl : FreeList m l) (ho : OwnTree m l u) (hva : va < KOFFSET)
    (hr : walkTable (page2kva u) va m = some m') :
    m' = m ∨ ∃ p l', Attached m m' l' u (tablePos va hva) u (PDX va) p := by
  have hu20 : u < 2 ^ 20 := Nat.lt_trans (ho.lt .dir u rfl) (by decide)
  have hlt := PDX_lt hva
  by_cases h : Present (m.entry u (PDX va))
  · rw [walkTable, Memory.index_page hu20 (by omega), if_pos h] at hr
    exact .inl (Option.some.inj hr).symm
  · cases l with
    | nil =>
      rw [walkTable, Memory.index_page hu20 (by omega), if_neg h, hl.newPage_nil] at hr
      exact absurd hr (Option.some_ne_none m').symm
    | cons p l =>
      obtain ⟨m₁, hm₁, hat⟩ := walkTable_new hl ho hva (Memory.target_eq_none.mpr h)
      obtain rfl := Option.some.inj (hm₁.symm.trans hr)
      exact .inr ⟨p, l, hat⟩

/-- And so does the second one. -/
theorem walkFrame_cases {t : ℕ} (hl : FreeList m l) (ho : OwnTree m l u) (hva : va < KOFFSET)
    (ht : pageAt m u (tablePos va hva) = some t)
    (hr : walkFrame (page2pa t + UInt32.ofNat (PTX va) * 4) m = some m') :
    m' = m ∨ ∃ p l', Attached m m' l' u (userPos va hva) t (PTX va) p := by
  have ht20 : t < 2 ^ 20 := Nat.lt_trans (ho.lt _ t ht) (by decide)
  have hframe : pageAt m u (userPos va hva) = m.target t (PTX va) :=
    pageAt_frame (i := ⟨PDX va, PDX_lt hva⟩) ht ⟨PTX va, PTX_lt va⟩
  by_cases h : Present (m.entry t (PTX va))
  · rw [walkFrame, low_eq ht20 (PTX_lt va), if_pos h] at hr
    exact .inl (Option.some.inj hr).symm
  · cases l with
    | nil =>
      rw [walkFrame, low_eq ht20 (PTX_lt va), if_neg h, hl.newPage_nil] at hr
      exact absurd hr (Option.some_ne_none m').symm
    | cons p l =>
      obtain ⟨m₁, hm₁, hat⟩ :=
        walkFrame_new hl ho hva ht (hframe.trans (Memory.target_eq_none.mpr h))
      obtain rfl := Option.some.inj (hm₁.symm.trans hr)
      exact .inr ⟨p, l, hat⟩

/-- A page that has been put into the tree is in the place where it was put. -/
theorem Attached.eq_of_new {x y : Pos} {t n p q : ℕ} (h : Attached m m' l u x t n p)
    (hy : pageAt m u y = none) (hy' : pageAt m' u y = some q) : y = x ∧ q = p := by
  rw [h.place] at hy'
  rcases eq_or_ne y x with rfl | hne
  · rw [Function.update_self] at hy'
    exact ⟨rfl, (Option.some.inj hy').symm⟩
  · rw [Function.update_of_ne hne, hy] at hy'
    exact absurd hy' (Option.some_ne_none q).symm

/-- **What one call has put into the tree** is full of zeros. -/
theorem mmMalloc_zero (hl : FreeList m l) (ho : OwnTree m l u) (hva : va < KOFFSET)
    (hr : mmMalloc (page2kva u) va m = some (addr, m')) {x : Pos} {p : ℕ} (hx : pageAt m u x = none)
    (hx' : pageAt m' u x = some p) : ZeroFilled va m' x p := by
  have hu20 : u < 2 ^ 20 := Nat.lt_trans (ho.lt .dir u rfl) (by decide)
  obtain ⟨m₁, hm₁, hm₂, -⟩ := mmMalloc_eq_some hr
  have htable := walkTable_extends hl ho hva
  rw [hm₁] at htable
  obtain ⟨l₁, h₁⟩ := htable
  have hin : tablePos va hva ∈ positions m₁ u := by
    rw [h₁.dom]
    exact Finset.mem_union_right _ (Finset.mem_singleton_self _)
  obtain ⟨t, ht⟩ := Option.isSome_iff_exists.mp (mem_positions.mp hin)
  rw [walkPte_eq hu20 hva ht] at hm₂
  -- what the first `if` has put in place is the table
  have hnew :
      ∀ p, pageAt m₁ u x = some p → x = tablePos va hva ∧ p = t ∧ ∀ k, m₁.entry t k = 0 := by
    intro p hp
    rcases walkTable_cases hl ho hva hm₁ with rfl | ⟨q, l', hat⟩
    · rw [hx] at hp
      exact absurd hp.symm (Option.some_ne_none p)
    · obtain ⟨rfl, rfl⟩ := hat.eq_of_new hx hp
      obtain rfl := Option.some.inj (hp.symm.trans ht)
      exact ⟨rfl, rfl, entry_zeroFrame hat.zero⟩
  rcases walkFrame_cases h₁.free h₁.own hva ht hm₂ with rfl | ⟨q, l', hat⟩
  · obtain ⟨rfl, rfl, hzero⟩ := hnew p hx'
    exact fun k _ => hzero k
  · cases hxm : pageAt m₁ u x with
    | none =>
      obtain ⟨rfl, rfl⟩ := hat.eq_of_new hxm hx'
      exact hat.zero
    | some p' =>
      obtain ⟨rfl, rfl, hzero⟩ := hnew p' hxm
      have hne : tablePos va hva ≠ userPos va hva := (Pos.frame_ne_table _ _ _).symm
      have hsame : pageAt m' u (tablePos va hva) = some p' := by
        rw [hat.place, Function.update_of_ne hne, hxm]
      obtain rfl := Option.some.inj (hsame.symm.trans hx')
      exact fun k hk => (hat.entry_of_ne k hk).trans (hzero k)

/-! ## Any sequence -/

theorem mallocOk_of_extended {m₀ : Memory} {l₀ : List ℕ}
    (h : Extended P.updir (placesOf (pagesOf vas)) m₀ l₀ m l) (hvas : ∀ va ∈ vas, va < KOFFSET)
    (haddrs : List.Forall₂ (AddrOk P.updir m) vas addrs) : MallocOk P m₀ vas addrs m := by
  obtain ⟨hlength, hzip⟩ := List.forall₂_iff_zip.mp haddrs
  have huser : ∀ {va addr}, (va, addr) ∈ vas.zip addrs → va < KOFFSET := fun hin =>
    hvas _ (List.of_mem_zip hin).1
  refine ⟨hlength.symm, fun va addr hin => ?_, fun va addr va' addr' hin hin' => ?_,
    ⟨l, h.free, h.own⟩, h.kernel⟩
  · obtain ⟨p, hp, hp20, rfl⟩ := hzip hin
    rw [translate_updir P (huser hin), userPos_eq (huser hin), ← PGNUM_eq, hp, Option.map_some,
      toNat_page2pa_add hp20]
  · obtain ⟨p, hp, hp20, rfl⟩ := hzip hin
    obtain ⟨q, hq, hq20, rfl⟩ := hzip hin'
    have hnum : ∀ {p} (va : UInt32), p < 2 ^ 20 →
        PGNUM (page2pa p + UInt32.ofNat (PGOFF va)) = p := fun {p} va hp => by
      have hoff := PGOFF_lt va
      rw [PGNUM_eq, toNat_page2pa_add hp]
      omega
    rw [hnum va hp20, hnum va' hq20]
    constructor
    · rintro rfl
      exact framePlace_inj (PGNUM_lt_user (huser hin)) (PGNUM_lt_user (huser hin'))
        (h.own.inj _ _ p hp hq)
    · intro hpage
      rw [hpage, hq] at hp
      exact (Option.some.inj hp).symm

theorem mallocStep_of_eq (hl : FreeList m l) (ho : OwnTree m l P.updir) (hva : va < KOFFSET)
    (hr : mmMalloc (page2kva P.updir) va m = some (addr, m')) : MallocStep P va m m' := by
  have hstep := mmMalloc_extends hl ho hva
  rw [hr] at hstep
  obtain ⟨l', h⟩ := hstep
  refine ⟨fun v a hv ha => ?_, h.place, fun x p hx hx' => mmMalloc_zero hl ho hva hr hx hx'⟩
  rw [translate_updir P hv, Option.map_eq_some_iff] at ha ⊢
  obtain ⟨p, hp, rfl⟩ := ha
  exact ⟨p, h.place _ p hp, rfl⟩

end Calls

/-- **Sequences of `mm_malloc`.** From the directory of `init_mm` and the list of `page_init`, calls
for user addresses succeed exactly if there are pages for their frames and tables. Then the
directory maps each address to what its call returned, one frame for each page, and the directory,
the tables and the frames are all different, off the free list, and were full of zeros when they
were taken; and a call leaves what is mapped mapped. -/
theorem mallocs_ok (P : KernelPages) (m : Memory) (hboot : m.page_free_list = none)
    (vas : List UInt32) (hvas : ∀ va ∈ vas, va < KOFFSET) :
    ((∃ r, mallocs P vas (pageInit (initMm P m)) = some r) ↔
        (pagesOf vas).card + ((pagesOf vas).image (· / 1024)).card ≤ npages - 1025) ∧
      ∀ addrs m', mallocs P vas (pageInit (initMm P m)) = some (addrs, m') →
        MallocOk P (pageInit (initMm P m)) vas addrs m' ∧
        ∀ va addr m'', va < KOFFSET → mmMalloc (page2kva P.updir) va m' = some (addr, m'') →
          MallocStep P va m' m'' := by
  obtain ⟨l, h⟩ := loadStart_pageInit P m hboot
  have hext := mallocs_extends h.free h.own hvas
  refine ⟨?_, fun addrs m' hrun => ?_⟩
  · have hpages : ∀ n ∈ pagesOf vas, n < 786432 := fun n hn => by
      obtain ⟨va, hva, rfl⟩ := List.mem_map.mp (List.mem_toFinset.mp hn)
      exact PGNUM_lt_user (hvas va hva)
    rw [← h.isSome_iff hpages hext]
    constructor
    · rintro ⟨r, hr⟩
      exact ⟨r.2, by rw [hr, Option.map_some]⟩
    · rintro ⟨m', hm'⟩
      obtain ⟨r, hr, -⟩ := Option.map_eq_some_iff.mp hm'
      exact ⟨r, hr⟩
  · rw [hrun] at hext
    obtain ⟨l', h'⟩ := hext
    exact ⟨mallocOk_of_extended h' hvas (mallocs_addrs h.free h.own hvas hrun),
      fun va addr m'' hva hr => mallocStep_of_eq h'.free h'.own hva hr⟩

/-- Three calls for two pages. -/
theorem mallocs_ok_three :
    ∃ addrs m', mallocs bootTables [0, 4096, 5] (pageInit (initMm bootTables bootMemory)) =
        some (addrs, m') ∧
      MallocOk bootTables (pageInit (initMm bootTables bootMemory)) [0, 4096, 5] addrs m' := by
  have hvas : ∀ va ∈ ([0, 4096, 5] : List UInt32), va < KOFFSET := by
    rw [List.forall_mem_cons, List.forall_mem_cons, List.forall_mem_singleton]
    decide
  obtain ⟨henough, hok⟩ := mallocs_ok bootTables bootMemory rfl [0, 4096, 5] hvas
  obtain ⟨⟨addrs, m'⟩, hrun⟩ := henough.mpr (by decide)
  exact ⟨addrs, m', hrun, (hok addrs m' hrun).1⟩

end OsLab
