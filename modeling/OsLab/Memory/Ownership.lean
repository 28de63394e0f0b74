import OsLab.Lib.Tenants
import OsLab.Memory.Release
import OsLab.Memory.ThreadCopy

/-!
# Who owns which page

All address spaces at once. The processes are tenants of memory, and what they hold is what their
directories lead to. The stacks are private: `copy` makes new ones and so does `thread_copy`, and
each is 1024 pages long, so that there are never more than 32 processes. Everything else
`thread_copy` shares, and from then on neither the creator nor the thread owns it.

`release` asks nobody. It keeps the invariant when the process that exits shares nothing, and then
only.

## Main definitions

* `IsStack` — the place is in the last 4 MiB of user memory, where the stack is
* `Reserve` — the kernel's own pages
* `Owned` — no page is free that an address space leads to

## Main results

* `Owned.fork`, `Owned.thread`, `Owned.exit`, `Owned.store` — what each operation does to the
  invariant
* `Owned.card_le` — the number of processes
-/

namespace OsLab

/-- The place is in the last 4 MiB of user memory, where the stack is. -/
def IsStack : Pos → Prop
  | .frame i _ => (i : ℕ) = stackIndex
  | _ => False

/-- The places of the stack, which threads do not share. -/
def stackPlaces : Set Pos := {x | IsStack x}

theorem eq_frame_of_mem_stackPlaces {x : Pos} (hx : x ∈ stackPlaces) :
    ∃ (i : Fin 768) (j : Fin 1024), (i : ℕ) = 767 ∧ x = .frame i j := by
  cases x with
  | dir => exact False.elim hx
  | table i => exact False.elim hx
  | frame i j => exact ⟨i, j, stackIndex_eq ▸ hx, rfl⟩

/-- The places of the pages that a process reads and writes. -/
def framePlaces : Set Pos := {x | ∃ i j, x = .frame i j}

/-- The address spaces of the slots in `live`, with the given directories. -/
def spaces (m : Memory) (live sole : Set ℤ) (dir : ℤ → ℕ) : Tenants ℤ Pos ℕ :=
  ⟨live, sole, fun i => pageAt m (dir i)⟩

/-- The kernel's own pages. Those in `kept` are never free, and those in `still` hold what they held
(`image`). The kernel's directory is one of these. -/
structure Reserve where
  kept : Set ℕ
  still : Set ℕ
  still_kept : still ⊆ kept
  image : ℕ → Frame
  kpdir : ℕ
  kpdir_still : kpdir ∈ still

/-- An entry of the kernel's directory. -/
def Reserve.entry (R : Reserve) (j : ℕ) : UInt32 := (R.image R.kpdir).get32 (4 * j)

/-- The terms on which processes share pages. -/
def Reserve.terms (R : Reserve) : Terms Pos ℕ :=
  ⟨stackPlaces, framePlaces, R.kept, R.still, R.still_kept⟩

/-- **No page is free that an address space leads to.** The slots in `sole` share none. -/
structure Owned (R : Reserve) (m : Memory) (l : List ℕ) (live sole : Set ℤ) (dir : ℤ → ℕ) :
    Prop where
  free : FreeList m l
  ok : (spaces m live sole dir).Ok R.terms l
  lt : ∀ i ∈ live, ∀ x p, pageAt m (dir i) x = some p → p < npages
  stack : ∀ i ∈ live, ∀ x ∈ stackPlaces, (pageAt m (dir i) x).isSome
  still : ∀ p ∈ R.still, m.frames p = R.image p
  kernel : ∀ i ∈ live, ∀ j, 768 ≤ j → j < 800 → m.entry (dir i) j = R.entry j

section Owned

variable {R : Reserve} {m m' : Memory} {l l' : List ℕ} {live live' sole sole' : Set ℤ}
  {dir dir' : ℤ → ℕ} {c f i : ℤ} {d t : ℕ} {stack : ℕ → ℕ}

theorem Owned.notMem (h : Owned R m l live sole dir) (hi : i ∈ live) {x : Pos} {p : ℕ}
    (hx : pageAt m (dir i) x = some p) : p ∉ l :=
  h.ok.notFree i hi x p hx

theorem Owned.mono (h : Owned R m l live sole dir) (hlive : live' ⊆ live)
    (hsole : ∀ i ∈ live', i ∈ sole' → i ∈ sole) (hdir : ∀ i ∈ live', dir' i = dir i) :
    Owned R m l live' sole' dir' := by
  refine ⟨h.free, h.ok.mono hlive hsole fun i hi => ?_, fun i hi => ?_, fun i hi => ?_, h.still,
    fun i hi => ?_⟩
  · exact congrArg (pageAt m) (hdir i hi)
  · rw [hdir i hi]
    exact h.lt i (hlive hi)
  · rw [hdir i hi]
    exact h.stack i (hlive hi)
  · rw [hdir i hi]
    exact h.kernel i (hlive hi)

/-- The tree of a process that shares nothing. -/
theorem Owned.ownTree (h : Owned R m l live sole dir) (hi : i ∈ live) (hs : i ∈ sole) :
    OwnTree m l (dir i) :=
  ⟨h.lt i hi, fun _ _ hx => h.notMem hi hx, fun x y p hx hy =>
    (h.ok.alone i hi x (.inl hs) i hi y p hx hy).2⟩

/-- **How many processes there can be.** -/
theorem Owned.card_le (h : Owned R m l live sole dir) {s : Finset ℤ} (hs : ∀ i ∈ s, i ∈ live) :
    s.card ≤ 32 := by
  obtain ⟨T, hT, hcard⟩ : ∃ T : Finset Pos, (∀ x ∈ T, x ∈ stackPlaces) ∧ T.card = 1024 := by
    refine ⟨Finset.univ.image (Pos.frame (Fin.ofNat 768 stackIndex)), fun x hx => ?_, ?_⟩
    · obtain ⟨j, -, rfl⟩ := Finset.mem_image.mp hx
      show (Fin.ofNat 768 stackIndex : ℕ) = stackIndex
      rw [Fin.val_ofNat, stackIndex_eq]
    · rw [Finset.card_image_of_injective _ fun j k hjk => (Pos.frame.inj hjk).2, Finset.card_fin]
  have hle : s.card * T.card ≤ npages := by
    refine h.ok.card_le hs hT fun i hi x hx => ?_
    obtain ⟨p, hp⟩ := Option.isSome_iff_exists.mp (h.stack i (hs i hi) x (hT x hx))
    exact ⟨p, h.lt i (hs i hi) x p hp, hp⟩
  rw [hcard, npages] at hle
  omega

/-- **A process is made.** Its pages come from the list, but for those that it shares. -/
theorem Owned.enter (h : Owned R m l live sole dir) (hc : c ∉ live) (hfree : FreeList m' l')
    (hsub : l' ⊆ l) (hsame : ∀ p, p ∉ l → m'.frames p = m.frames p)
    (hsole : ∀ i ∈ sole', i ≠ c → i ∈ sole) (htaken : ∀ x p, pageAt m' d x = some p → p ∉ l')
    (hnew : ∀ x p, pageAt m' d x = some p → p ∈ l ∨ ¬(c ∈ sole' ∨ x ∈ stackPlaces) ∧
      ∃ i ∈ live, i ∉ sole' ∧ ∃ y ∉ stackPlaces, (x ∈ framePlaces ↔ y ∈ framePlaces) ∧
        pageAt m (dir i) y = some p)
    (hinj : ∀ x y p, p ∈ l → pageAt m' d x = some p → pageAt m' d y = some p → x = y)
    (hstack : ∀ x ∈ stackPlaces, (pageAt m' d x).isSome)
    (hkernel : ∀ j, 768 ≤ j → j < 800 → m'.entry d j = R.entry j) :
    Owned R m' l' (insert c live) sole' (Function.update dir c d) := by
  have hne : ∀ i ∈ live, i ≠ c := fun i hi heq => hc (heq ▸ hi)
  have htree : ∀ i ∈ live, pageAt m' (Function.update dir c d i) = pageAt m (dir i) :=
    fun i hi => by
      rw [Function.update_of_ne (hne i hi)]
      exact pageAt_eq_of_frames fun x p hx => hsame p (h.notMem hi hx)
  have hself : Function.update dir c d c = d := Function.update_self ..
  have hholds : ∀ i ∈ insert c live, pageAt m' (Function.update dir c d i) =
      Function.update (spaces m live sole dir).holds c (pageAt m' d) i := by
    rintro i (rfl | hi)
    · rw [hself, Function.update_self]
    · rw [htree i hi, Function.update_of_ne (hne i hi)]
      rfl
  refine ⟨hfree, (h.ok.enter hc hsub hsole htaken hnew hinj).mono subset_rfl (fun _ _ hs => hs)
    hholds, fun i hi x p hx => ?_, fun i hi x hx => ?_, fun p hp => ?_, fun i hi j hj hlt => ?_⟩
  · rcases hi with rfl | hi
    · rw [hself] at hx
      rcases hnew x p hx with hp | ⟨-, j, hj, -, y, -, -, hy⟩
      · exact h.free.lt p hp
      · exact h.lt j hj y p hy
    · rw [htree i hi] at hx
      exact h.lt i hi x p hx
  · rcases hi with rfl | hi
    · rw [hself]
      exact hstack x hx
    · rw [htree i hi]
      exact h.stack i hi x hx
  · rw [hsame p fun hmem => h.ok.notKept p hmem (R.still_kept hp)]
    exact h.still p hp
  · rcases hi with rfl | hi
    · rw [hself]
      exact hkernel j hj hlt
    · rw [Function.update_of_ne (hne i hi),
        Memory.entry_congr (hsame _ (h.notMem hi (pageAt_dir m (dir i))))]
      exact h.kernel i hi j hj hlt

/-- **`copy`** -/
theorem Owned.fork (h : Owned R m l live sole dir) (hf : f ∈ live) (hc : c ∉ live)
    (hg : Grown m l (dir f) d (positions m (dir f)) m' l')
    (hsole : ∀ i ∈ sole', i ≠ c → i ∈ sole) :
    Owned R m' l' (insert c live) sole' (Function.update dir c d) := by
  refine h.enter hc hg.free hg.suffix.subset (fun p hp => (hg.kept p hp).1) hsole hg.taken
    (fun x p hx => .inl (hg.mem_of_pageAt hx)) (fun x y p _ hx hy => hg.inj x y p hx hy)
    (fun x hx => ?_) fun j hj hlt => (hg.kernel j hj hlt).trans (h.kernel f hf j hj hlt)
  rw [hg.isSome_pageAt]
  exact h.stack f hf x hx

/-- What is where in the thread's tree. -/
theorem ThreadMade.pageAt_cases (h : ThreadMade m (dir f) l m' d t stack)
    (hapart : ∀ x p, pageAt m (dir f) x = some p → p ∉ l) (x : Pos) :
    x = .dir ∨ (∃ i : Fin 768, (i : ℕ) = stackIndex ∧ x = .table i ∧ pageAt m' d x = some t) ∨
      (∃ (i : Fin 768) (j : Fin 1024), (i : ℕ) = stackIndex ∧ x = .frame i j ∧
        pageAt m' d x = some (stack j)) ∨
      x ∉ stackPlaces ∧ pageAt m' d x = pageAt m (dir f) x := by
  have htable : ∀ i : Fin 768, (i : ℕ) = stackIndex → pageAt m' d (.table i) = some t :=
    fun i hi => by
      have ht : m'.entry d i = page2pa t ||| 0x7 := by rw [hi, h.table]
      exact Memory.target_page2pa ht (Nat.lt_trans (h.lt t h.mem.1) (by decide))
  have hother : ∀ i : Fin 768, (i : ℕ) ≠ stackIndex →
      pageAt m' d (.table i) = pageAt m (dir f) (.table i) := fun i hi => by
    rw [pageAt, pageAt, Memory.target, Memory.target, h.entry i hi]
  cases x with
  | dir => exact .inl rfl
  | table i =>
    by_cases hi : (i : ℕ) = stackIndex
    · exact .inr (.inl ⟨i, hi, rfl, htable i hi⟩)
    · exact .inr (.inr (.inr ⟨id, hother i hi⟩))
  | frame i j =>
    by_cases hi : (i : ℕ) = stackIndex
    · refine .inr (.inr (.inl ⟨i, j, hi, rfl, ?_⟩))
      rw [pageAt_frame (htable i hi)]
      exact Memory.target_page2pa (h.frame j j.isLt)
        (Nat.lt_trans (h.lt _ (h.mem.2 j j.isLt)) (by decide))
    · refine .inr (.inr (.inr ⟨hi, ?_⟩))
      cases ht : pageAt m (dir f) (.table i) with
      | none => rw [pageAt_frame_none ht, pageAt_frame_none ((hother i hi).trans ht)]
      | some s =>
        rw [pageAt_frame ht, pageAt_frame ((hother i hi).trans ht)]
        exact Memory.target_congr (Memory.entry_congr (h.kept s (hapart _ s ht)) j)

/-- **`thread_copy`**: neither the creator nor the thread owns its memory afterwards. -/
theorem Owned.thread (h : Owned R m l live sole dir) (hf : f ∈ live) (hc : c ∉ live)
    (hfree : FreeList m' l') (ht : ThreadTaken l l' d t stack)
    (hm : ThreadMade m (dir f) l m' d t stack) (hsole : ∀ i ∈ sole', i ≠ c → i ∈ sole)
    (hfs : f ∉ sole') (hcs : c ∉ sole') :
    Owned R m' l' (insert c live) sole' (Function.update dir c d) := by
  have hapart : ∀ x p, pageAt m (dir f) x = some p → p ∉ l := fun x p hx => h.notMem hf hx
  have hcases := hm.pageAt_cases hapart
  -- a page of the thread's own, and the place where it is
  have hown : ∀ x p, pageAt m' d x = some p → p ∈ l →
      x = .dir ∧ p = d ∨ (∃ i : Fin 768, (i : ℕ) = stackIndex ∧ x = .table i) ∧ p = t ∨
        ∃ (i : Fin 768) (j : Fin 1024), (i : ℕ) = stackIndex ∧ x = .frame i j ∧ p = stack j := by
    intro x p hx hp
    rcases hcases x with rfl | ⟨i, hi, rfl, hxt⟩ | ⟨i, j, hi, rfl, hxs⟩ | ⟨-, hxf⟩
    · exact .inl ⟨rfl, (Option.some.inj hx).symm⟩
    · exact .inr (.inl ⟨⟨i, hi, rfl⟩, Option.some.inj (hx.symm.trans hxt)⟩)
    · exact .inr (.inr ⟨i, j, hi, rfl, Option.some.inj (hx.symm.trans hxs)⟩)
    · exact absurd hp (hapart x p (hxf.symm.trans hx))
  refine h.enter hc hfree ht.rest hm.kept hsole (fun x p hx => ?_) (fun x p hx => ?_)
    (fun x y p hp hx hy => ?_) (fun x hx => ?_) fun j hj hlt => ?_
  · by_cases hp : p ∈ l
    · rcases hown x p hx hp with ⟨-, rfl⟩ | ⟨-, rfl⟩ | ⟨i, j, -, -, rfl⟩
      · exact ht.dir.2
      · exact ht.table.1
      · exact (ht.frame j j.isLt).1
    · exact fun hp' => hp (ht.rest hp')
  · rcases hcases x with rfl | ⟨i, hi, rfl, hxt⟩ | ⟨i, j, hi, rfl, hxs⟩ | ⟨hns, hxf⟩
    · exact .inl (Option.some.inj hx ▸ ht.dir.1)
    · exact .inl (Option.some.inj (hxt.symm.trans hx) ▸ hm.mem.1)
    · exact .inl (Option.some.inj (hxs.symm.trans hx) ▸ hm.mem.2 j j.isLt)
    · exact .inr ⟨not_or.mpr ⟨hcs, hns⟩, f, hf, hfs, x, hns, Iff.rfl, hxf.symm.trans hx⟩
  · rcases hown x p hx hp with ⟨rfl, rfl⟩ | ⟨⟨i, hi, rfl⟩, rfl⟩ | ⟨i, j, hi, rfl, rfl⟩ <;>
      rcases hown y _ hy hp with ⟨rfl, hq⟩ | ⟨⟨i', hi', rfl⟩, hq⟩ | ⟨i', j', hi', rfl, hq⟩
    · rfl
    · exact absurd hq.symm ht.table.2
    · exact absurd hq.symm (ht.frame j' j'.isLt).2.1
    · exact absurd hq ht.table.2
    · rw [Fin.ext (hi.trans hi'.symm)]
    · exact absurd hq.symm (ht.frame j' j'.isLt).2.2
    · exact absurd hq (ht.frame j j.isLt).2.1
    · exact absurd hq (ht.frame j j.isLt).2.2
    · rw [Fin.ext (hi.trans hi'.symm), Fin.ext (hm.inj j j.isLt j' j'.isLt hq)]
  · rcases hcases x with rfl | ⟨i, hi, rfl, -⟩ | ⟨i, j, hi, rfl, hxs⟩ | ⟨hns, -⟩
    · exact False.elim hx
    · exact False.elim hx
    · rw [hxs]
      rfl
    · exact absurd hx hns
  · have hne : j ≠ stackIndex := by rw [stackIndex_eq]; omega
    rw [hm.entry j hne]
    exact h.kernel f hf j hj hlt

/-- **`release`**, by a process that shares nothing. -/
theorem Owned.exit (h : Owned R m l live sole dir) (hi : i ∈ live) (hs : i ∈ sole)
    (hr : Released m l (dir i) Set.univ m' l') : Owned R m' l' (live \ {i}) sole dir := by
  have htree : ∀ e, pageAt m' e = pageAt m e := fun e =>
    pageAt_eq_of_frames fun x p _ => by rw [hr.frames]
  have hfree : ∀ p, p ∈ l' ↔ p ∈ l ∨ ∃ x, pageAt m (dir i) x = some p := fun p => by
    rw [hr.mem]
    simp
  refine ⟨hr.free, (h.ok.leave hi hs hfree).mono subset_rfl (fun _ _ hs => hs)
    fun j _ => htree (dir j), fun j hj x p hx => ?_, fun j hj x hx => ?_, fun p hp => ?_,
    fun j hj k hk hlt => ?_⟩
  · rw [htree] at hx
    exact h.lt j hj.1 x p hx
  · rw [htree]
    exact h.stack j hj.1 x hx
  · rw [hr.frames]
    exact h.still p hp
  · rw [hr.entry]
    exact h.kernel j hj.1 k hk hlt

/-- A process writes to the pages that it has in a place for data. -/
theorem frames_store {cr3 va : UInt32} (hcr3 : PGNUM cr3 = d) (hva : va < KOFFSET) (b : UInt8)
    {p : ℕ} (hp : ¬∃ x ∈ framePlaces, pageAt m d x = some p) :
    (userWrite cr3 va b m).frames p = m.frames p :=
  OsLab.frames_userWrite hva fun hx => hp ⟨userPos va hva, ⟨_, _, rfl⟩, hcr3 ▸ hx⟩

/-- **A store** of a process leaves all trees what they are. -/
theorem Owned.pageAt_userWrite (h : Owned R m l live sole dir) (hi : i ∈ live) {cr3 va : UInt32}
    (hcr3 : PGNUM cr3 = dir i) (hva : va < KOFFSET) (b : UInt8) (hc : c ∈ live) :
    pageAt (userWrite cr3 va b m) (dir c) = pageAt m (dir c) := by
  have hsorted : ∀ y ∉ framePlaces, ∀ p, pageAt m (dir c) y = some p →
      (userWrite cr3 va b m).frames p = m.frames p := fun y hy p hp =>
    frames_store hcr3 hva b fun ⟨x, hx, hxp⟩ =>
      hy (h.ok.sorted i hi x hx c hc y p hxp hp)
  refine pageAt_congr (hsorted .dir ?_ _ (pageAt_dir m (dir c))) fun k t ht =>
    hsorted (.table k) ?_ t ht
  · rintro ⟨i, j, heq⟩
    exact Pos.noConfusion heq
  · rintro ⟨i, j, heq⟩
    exact Pos.noConfusion heq

theorem Owned.store (h : Owned R m l live sole dir) (hi : i ∈ live) {cr3 va : UInt32}
    (hcr3 : PGNUM cr3 = dir i) (hva : va < KOFFSET) (b : UInt8) :
    Owned R (userWrite cr3 va b m) l live sole dir := by
  have htree : ∀ c ∈ live, pageAt (userWrite cr3 va b m) (dir c) = pageAt m (dir c) :=
    fun c hc => h.pageAt_userWrite hi hcr3 hva b hc
  refine ⟨h.free.congr page_free_list_userWrite fun q _ => by rw [pages_userWrite],
    h.ok.mono subset_rfl (fun _ _ hs => hs) htree, fun c hc x p hx => ?_, fun c hc x hx => ?_,
    fun p hp => ?_, fun c hc j hj hlt => ?_⟩
  · rw [htree c hc] at hx
    exact h.lt c hc x p hx
  · rw [htree c hc]
    exact h.stack c hc x hx
  · rw [frames_store hcr3 hva b fun ⟨x, hx, hxp⟩ => h.ok.notStill i hi x hx p hxp hp]
    exact h.still p hp
  · have hdir : (userWrite cr3 va b m).frames (dir c) = m.frames (dir c) :=
      frames_store hcr3 hva b fun ⟨x, hx, hxp⟩ => by
        obtain ⟨i, j, heq⟩ := h.ok.sorted i hi x hx c hc .dir _ hxp (pageAt_dir m (dir c))
        exact Pos.noConfusion heq
    rw [Memory.entry_congr hdir]
    exact h.kernel c hc j hj hlt

end Owned

end OsLab
