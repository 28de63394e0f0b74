import OsLab.Process.SystemRun

/-!
# Who is on the screen

`create_video_mapping` maps the video memory into the game's address space, at its own address. A
thread of the game shares the mapping. A child of the game does not, since `copy` makes it new pages
there as everywhere: they hold what was on the screen when it was made, and what it draws nobody
sees.

The invariant is relative to the slots of the game and of its threads (`viewers`), and to what is on
the screen (`screen`), which only these processes change.

## Main definitions

* `InVideo` — the address is in the video memory that `create_video_mapping` maps
* `Viewed` — the system, the slots of the game and its threads, and what is on the screen
* `viewersAfter` — the viewers after an event: a thread is one if its creator is, and a child is
  none
* `screenAfter` — what is to be on the screen after an event
* `ViewedStep` — an event, with what it means for the viewers and for the screen
* `Displays` — a tree leads to the kernel's pages where the game's does if it is that of a viewer,
  and otherwise nowhere
* `DisplayInv` — what the processes have of video memory, and that it is as the viewers left it

## Main results

* `Displays.translate_iff` — who reaches the video memory, and by which addresses
* `DisplayInv.step` — one step
* `display_run` — what is on the screen, in every run
-/

namespace OsLab

/-- The address is in the video memory that `create_video_mapping` maps. -/
def InVideo (va : UInt32) : Prop := 0xa0000 ≤ va.toNat ∧ va.toNat < 0xb0000

instance : DecidablePred InVideo := fun _ => inferInstanceAs (Decidable (_ ∧ _))

/-- The system, the slots of the game and its threads, and what is on the screen. -/
structure Viewed where
  tracked : Tracked
  viewers : Finset ℤ
  screen : ℕ → UInt8

/-- The viewers after an event: a thread is one if its creator is, and a child is none. -/
def viewersAfter (v : Viewed) : Event → Finset ℤ
  | .call (.fork garbage) => v.viewers.erase (forkSlot garbage v.tracked.procs)
  | .call (.createThread garbage) =>
    if v.tracked.procs.current ∈ v.viewers
    then insert (getPcbOr garbage v.tracked.procs.pcb_table) v.viewers
    else v.viewers.erase (getPcbOr garbage v.tracked.procs.pcb_table)
  | _ => v.viewers

/-- **What is to be on the screen** after an event. -/
def screenAfter (v : Viewed) : Event → ℕ → UInt8
  | .store va b =>
    if v.tracked.procs.current ∈ v.viewers ∧ InVideo va then Function.update v.screen va.toNat b
    else v.screen
  | _ => v.screen

/-- An event, with what it means for the viewers and for the screen. -/
def ViewedStep (kstack : ℤ → UInt32) (v : Viewed) (e : Event) (v' : Viewed) : Prop :=
  TrackedStep kstack v.tracked e v'.tracked ∧ v'.viewers = viewersAfter v e ∧
    v'.screen = screenAfter v e

/-- **A tree leads to the kernel's pages** where the game's does if it is that of a viewer, and
otherwise nowhere. -/
structure Displays (P : KernelPages) (m : Memory) (d : ℕ) (viewer : Prop) : Prop where
  places : ∀ x p, pageAt m d x = some p → viewer ∧ KernelPlace P p x ∨ 1024 < p
  video : viewer → ∀ (i : Fin 768) (j : Fin 1024), (i : ℕ) = 0 → 0xa0 ≤ (j : ℕ) → (j : ℕ) < 0xb0 →
    pageAt m d (.frame i j) = some j

/-- **What the processes have of video memory**, and that it is as the viewers left it. -/
structure DisplayInv (P : KernelPages) (v : Viewed) : Prop where
  spaces : ∀ i ∈ v.tracked.procs.live,
    Displays P v.tracked.sys.core.mem (v.tracked.procs.dir i) (i ∈ v.viewers)
  screen : ∀ a, 0xa0000 ≤ a → a < 0xb0000 → v.tracked.sys.core.mem.byte a = v.screen a

/-! ## Addresses -/

section Address

variable {P : KernelPages} {m m' : Memory} {d d' a : ℕ} {viewer viewer' : Prop} {cr3 va : UInt32}

theorem Displays.congr (h : Displays P m d viewer) (htree : pageAt m' d' = pageAt m d)
    (hviewer : viewer' ↔ viewer) : Displays P m' d' viewer' := by
  refine ⟨fun x p hx => ?_, fun hv i j hi hj hlt => ?_⟩
  · rw [htree] at hx
    rw [hviewer]
    exact h.places x p hx
  · rw [htree]
    exact h.video (hviewer.mp hv) i j hi hj hlt

/-- A tree of new pages. -/
theorem Displays.fresh (hpages : ∀ x p, pageAt m d x = some p → 1024 < p) (hout : ¬viewer) :
    Displays P m d viewer :=
  ⟨fun x p hx => .inr (hpages x p hx), fun hv => absurd hv hout⟩

/-- A tree that shares with another what is below the stack. -/
theorem Displays.shared (h : Displays P m d viewer)
    (hpages : ∀ x p, pageAt m' d' x = some p → 1024 < p ∨ pageAt m d x = some p)
    (hlow : ∀ (i : Fin 768) (j : Fin 1024), (i : ℕ) ≠ stackIndex →
      pageAt m' d' (.frame i j) = pageAt m d (.frame i j))
    (hviewer : viewer' ↔ viewer) : Displays P m' d' viewer' := by
  refine ⟨fun x p hx => ?_, fun hv i j hi hj hlt => ?_⟩
  · rw [hviewer]
    exact (hpages x p hx).elim .inr (h.places x p)
  · rw [hlow i j (by rw [hi, stackIndex_eq]; decide)]
    exact h.video (hviewer.mp hv) i j hi hj hlt

/-- **The addresses of the screen** lead to it from a viewer, and no other user address does. -/
theorem Displays.translate_iff (h : Displays P m (PGNUM cr3) viewer) (hva : va < KOFFSET)
    (ha : 0xa0000 ≤ a) (hlt : a < 0xb0000) :
    translate m cr3 va = some a ↔ (viewer ∧ InVideo va) ∧ va.toNat = a := by
  have hoff := PGOFF_eq va
  have htable := PTX_eq va
  have hdir := PDX_eq va
  rw [translate_user hva]
  constructor
  · intro hsome
    obtain ⟨p, hp, heq⟩ := Option.map_eq_some_iff.mp hsome
    rcases h.places _ p hp with ⟨hv, hzero, hpage, -, -⟩ | hhigh
    · dsimp only at hzero hpage
      have hnat : va.toNat = a := by omega
      exact ⟨⟨hv, by rw [hnat]; exact ha, by rw [hnat]; exact hlt⟩, hnat⟩
    · omega
  · rintro ⟨⟨hv, hlow, hhigh⟩, rfl⟩
    have hp : pageAt m (PGNUM cr3) (userPos va hva) = some (PTX va) :=
      h.video hv _ _ (show PDX va = 0 by omega) (show 0xa0 ≤ PTX va by omega)
        (show PTX va < 0xb0 by omega)
    rw [hp, Option.map_some]
    exact congrArg some (by omega)

theorem byte_userWrite (b : UInt8) :
    (userWrite cr3 va b m).byte a = if translate m cr3 va = some a then b else m.byte a := by
  rw [userWrite]
  cases htrans : translate m cr3 va with
  | none => exact (if_neg (Option.some_ne_none a).symm).symm
  | some c =>
    rw [Memory.byte_poke]
    exact if_congr ((by omega : c ≤ a ∧ a < c + 1 ↔ c = a).trans Option.some_inj.symm) rfl rfl

end Address

/-! ## New trees -/

section New

variable {kstack : ℤ → UInt32} {Q : ℤ → Prop} {R : Reserve} {s : Tracked} {k : Core} {l : List ℕ}
  {garbage : ℤ}

/-- The tree of a child. -/
theorem SystemInv.fork_tree (h : SystemInv kstack Q R s) (hcur : s.procs.current ≠ 0)
    (hl : Owned R s.sys.core.mem l s.procs.live (soleSlots Q s.creators s.procs) s.procs.dir)
    (hk : forkCore garbage s.sys.core = some k) :
    k.procs.live = insert (forkSlot garbage s.procs) s.procs.live ∧
      ∀ x p, pageAt k.mem (k.procs.dir (forkSlot garbage s.procs)) x = some p → p ∈ l := by
  obtain ⟨hspace, hapart⟩ := h.spaces.space (h.sched.current_mem hcur) hl
  have hslot := (h.sched.forkChild_new garbage 0).2
  rcases forkCore_cases hspace hl.free hapart hslot with ⟨d, m, l', hsome, hd, hg⟩ | ⟨hnone, -⟩
  · obtain rfl := Option.some.inj (hsome.symm.trans hk)
    have hnew := (h.sched.forkChild_new garbage (page2pa d)).1
    have hdir : (forkChild (page2pa d) garbage s.procs).dir (forkSlot garbage s.procs) = d := by
      rw [Procs.dir, hnew.cr3, PGNUM_page2pa (Nat.lt_trans hd (by decide))]
    exact ⟨hnew.live, fun x p hx => hg.mem_of_pageAt (x := x) (hdir ▸ hx)⟩
  · exact absurd (hnone.symm.trans hk).symm (Option.some_ne_none k)

/-- The tree of a thread. -/
theorem SystemInv.thread_tree (h : SystemInv kstack Q R s) (hcur : s.procs.current ≠ 0)
    (hl : Owned R s.sys.core.mem l s.procs.live (soleSlots Q s.creators s.procs) s.procs.dir)
    (hk : createThreadCore garbage s.sys.core = some k) :
    k.procs.live = insert (getPcbOr garbage s.procs.pcb_table) s.procs.live ∧
      (∀ x p, pageAt k.mem (k.procs.dir (getPcbOr garbage s.procs.pcb_table)) x = some p →
        p ∈ l ∨ pageAt s.sys.core.mem (s.procs.dir s.procs.current) x = some p) ∧
      ∀ (i : Fin 768) (j : Fin 1024), (i : ℕ) ≠ stackIndex →
        pageAt k.mem (k.procs.dir (getPcbOr garbage s.procs.pcb_table)) (.frame i j) =
          pageAt s.sys.core.mem (s.procs.dir s.procs.current) (.frame i j) := by
  obtain ⟨hspace, hapart⟩ := h.spaces.space (h.sched.current_mem hcur) hl
  have hslot := (h.sched.createThread_new garbage 0).2
  obtain ⟨d, t, stack, l', hprocs, -, htaken, hmade⟩ := createThreadCore_made hspace.aligned
    hspace.dir_lt hl.free (hapart .dir _ rfl) hslot hk
  have hnew := (h.sched.createThread_new garbage (page2pa d)).1
  have hdir : k.procs.dir (getPcbOr garbage s.procs.pcb_table) = d := by
    have hd : d < npages := hl.free.lt d htaken.dir.1
    rw [hprocs]
    exact (congrArg PGNUM hnew.cr3).trans (PGNUM_page2pa (Nat.lt_trans hd (by decide)))
  rw [hdir]
  replace hmade : ThreadMade s.sys.core.mem (s.procs.dir s.procs.current) l k.mem d t stack := hmade
  have hcases := hmade.pageAt_cases hapart
  refine ⟨by rw [hprocs]; exact hnew.live, fun x p hx => ?_, fun i j hi => ?_⟩
  · rcases hcases x with rfl | ⟨i, -, rfl, ht⟩ | ⟨i, j, -, rfl, hs⟩ | ⟨-, hsame⟩
    · exact .inl (Option.some.inj hx ▸ htaken.dir.1)
    · exact .inl (Option.some.inj (ht.symm.trans hx) ▸ hmade.mem.1)
    · exact .inl (Option.some.inj (hs.symm.trans hx) ▸ hmade.mem.2 j j.isLt)
    · exact .inr (hsame.symm.trans hx)
  · rcases hcases (.frame i j) with heq | ⟨_, -, heq, -⟩ | ⟨i', j', hi', heq, -⟩ | ⟨-, hsame⟩
    · exact Pos.noConfusion heq
    · exact Pos.noConfusion heq
    · obtain ⟨rfl, -⟩ := Pos.frame.inj heq
      exact absurd hi' hi
    · exact hsame

/-- Who is there after an exit. -/
theorem SystemInv.exit_live {i : ℤ} (hl : Owned R s.sys.core.mem l s.procs.live
    (soleSlots Q s.creators s.procs) s.procs.dir) (hk : SystemCall.exit.change s.sys.core = some k)
    (hi : i ∈ k.procs.live) : i ∈ s.procs.live ∧ s.procs.current ≠ i := by
  obtain ⟨cr3, hprocs⟩ := SystemCall.change_sched hl.free hk
  have hne : s.procs.current ≠ i := by
    rintro rfl
    refine hi.2.2 ?_
    rw [hprocs]
    show ((s.procs.modify s.procs.current PCB.exits).pcb_table _).status = -1
    rw [Procs.pcb_table_modify_self]
    rfl
  have hkeep : k.procs.pcb_table i = s.procs.pcb_table i := by
    rw [hprocs]
    exact s.procs.pcb_table_modify_of_ne PCB.exits (Ne.symm hne)
  exact ⟨⟨hi.1, hi.2.1, hkeep ▸ hi.2.2⟩, hne⟩

end New

/-! ## Steps -/

section Step

variable {kstack : ℤ → UInt32} {P : KernelPages} {Q : ℤ → Prop} {R : Reserve} {v v' : Viewed}
  {e : Event} {c : SystemCall} {i : ℤ} {garbage : ℤ}

/-- **A store.** -/
theorem DisplayInv.store (h : DisplayInv P v) (hs : SystemInv kstack Q R v.tracked) {va : UInt32}
    {b : UInt8} (hstep : ViewedStep kstack v (.store va b) v') : DisplayInv P v' := by
  obtain ⟨hstep, hviewers, hscreen⟩ := hstep
  obtain ⟨⟨hcur, hva⟩, hstored⟩ := trackedStep_store_iff.mp hstep
  have hmem : v'.tracked.sys.core.mem =
      userWrite v.tracked.sys.regs.cr3 va b v.tracked.sys.core.mem := by
    rw [hstored, Tracked.stored]
  refine ⟨fun i hi => ?_, fun a ha hlt => ?_⟩
  · replace hi : i ∈ v.tracked.procs.live := by rwa [hstored] at hi
    refine (h.spaces i hi).congr ?_ (by rw [hviewers]; rfl)
    exact hs.pageAt_step (e := .store va b) trivial hstep hi trivial
  · have hcurrent := h.spaces _ (hs.sched.current_mem hcur)
    rw [← hs.loaded] at hcurrent
    have htrans := hcurrent.translate_iff hva ha hlt
    rw [hmem, byte_userWrite, hscreen, screenAfter, h.screen a ha hlt, if_congr htrans rfl rfl]
    by_cases hdraws : v.tracked.procs.current ∈ v.viewers ∧ InVideo va
    · rw [if_pos hdraws]
      by_cases hnat : va.toNat = a
      · rw [if_pos ⟨hdraws, hnat⟩, hnat, Function.update_self]
      · rw [if_neg fun hboth => hnat hboth.2, Function.update_of_ne (Ne.symm hnat)]
    · rw [if_neg hdraws, if_neg fun hboth => hdraws hboth.1]

theorem mem_viewersAfter_slot :
    getPcbOr garbage v.tracked.procs.pcb_table ∈ viewersAfter v (.call (.createThread garbage)) ↔
      v.tracked.procs.current ∈ v.viewers := by
  rw [viewersAfter]
  split
  · next hin => exact iff_of_true (Finset.mem_insert_self _ _) hin
  · next hout => exact iff_of_false (Finset.notMem_erase _ _) hout

theorem mem_viewersAfter_of_ne (hne : i ≠ getPcbOr garbage v.tracked.procs.pcb_table) :
    i ∈ viewersAfter v (.call (.createThread garbage)) ↔ i ∈ v.viewers := by
  rw [viewersAfter]
  split
  · exact Finset.mem_insert.trans (or_iff_right hne)
  · exact Finset.mem_erase.trans (and_iff_right hne)

/-- **The spaces after a call.** The pages up to 1024 are never free. -/
theorem DisplayInv.spaces_call (h : DisplayInv P v) (hs : SystemInv kstack Q R v.tracked)
    (hkept : ∀ p ≤ 1024, p ∈ R.kept) (hproper : Proper Q v.tracked (.call c))
    (hstep : ViewedStep kstack v (.call c) v') (hi : i ∈ v'.tracked.procs.live) :
    Displays P v'.tracked.sys.core.mem (v'.tracked.procs.dir i) (i ∈ v'.viewers) := by
  obtain ⟨hstep, hviewers, -⟩ := hstep
  obtain ⟨hallowed, hexec, -⟩ := id hstep
  obtain ⟨l, hl⟩ := hs.spaces.owned
  have hhigh : ∀ p ∈ l, 1024 < p := fun p hp => Nat.lt_of_not_le fun hle =>
    hl.ok.notKept p hp (hkept p hle)
  obtain ⟨k, hk, hmem, hsame⟩ := SystemCall.exec_same hexec
  have hdir : v'.tracked.procs.dir i = k.procs.dir i := congrArg PGNUM (hsame i).cr3
  have hstays : i ∈ v.tracked.procs.live → Stays i v.tracked (.call c) →
      (i ∈ v'.viewers ↔ i ∈ v.viewers) →
      Displays P v'.tracked.sys.core.mem (v'.tracked.procs.dir i) (i ∈ v'.viewers) :=
    fun hi hstays => (h.spaces i hi).congr (hs.pageAt_step hproper hstep hi hstays)
  replace hi : i ∈ k.procs.live := hsame.live.subset hi
  rw [hviewers] at hstays ⊢
  cases c with
  | fork garbage =>
    obtain ⟨hinsert, htree⟩ := hs.fork_tree hallowed hl hk
    rw [hinsert] at hi
    rcases hi with rfl | hi
    · rw [hmem, hdir]
      exact .fresh (fun x p hx => hhigh p (htree x p hx)) (Finset.notMem_erase _ _)
    · have hne : i ≠ forkSlot garbage v.tracked.procs := by
        rintro rfl
        exact (hs.sched.forkChild_new garbage 0).1.notMem hi
      exact hstays hi trivial (Finset.mem_erase.trans (and_iff_right hne))
  | createThread garbage =>
    obtain ⟨hinsert, hshare, hlow⟩ := hs.thread_tree hallowed hl hk
    rw [hinsert] at hi
    rcases hi with rfl | hi
    · rw [hmem, hdir]
      exact (h.spaces _ (hs.sched.current_mem hallowed)).shared
        (fun x p hx => (hshare x p hx).imp_left (hhigh p)) hlow mem_viewersAfter_slot
    · have hne : i ≠ getPcbOr garbage v.tracked.procs.pcb_table := by
        rintro rfl
        exact (hs.sched.createThread_new garbage 0).1.notMem hi
      exact hstays hi trivial (mem_viewersAfter_of_ne hne)
  | exit =>
    obtain ⟨hi, hne⟩ := SystemInv.exit_live hl hk hi
    exact hstays hi hne Iff.rfl
  | timer | sleep _ | semWait _ | semPost _ | semTrywait _ | semDestroy _ =>
    -- these take and give no slot
    obtain rfl := Option.some.inj hk
    have hsched := SameProcs.change hs.sched hproper.readiesLive (fun _ => SystemCall.noConfusion)
      (fun _ => SystemCall.noConfusion) SystemCall.noConfusion
    exact hstays (hsched.live.subset hi) trivial Iff.rfl

/-- **A call** draws nothing. -/
theorem DisplayInv.call (h : DisplayInv P v) (hs : SystemInv kstack Q R v.tracked)
    (hkept : ∀ p ≤ 1024, p ∈ R.kept) (hproper : Proper Q v.tracked (.call c))
    (hstep : ViewedStep kstack v (.call c) v') : DisplayInv P v' := by
  refine ⟨fun i hi => h.spaces_call hs hkept hproper hstep hi, fun a ha hlt => ?_⟩
  obtain ⟨hstep, -, hscreen⟩ := hstep
  obtain ⟨l, hl⟩ := hs.spaces.owned
  have hframe := hs.frames_call hstep hl (p := a / 4096) fun hp =>
    hl.ok.notKept _ hp (hkept _ (by omega))
  rw [hscreen, Memory.byte, hframe]
  exact h.screen a ha hlt

/-- **One step.** -/
theorem DisplayInv.step (h : DisplayInv P v) (hs : SystemInv kstack Q R v.tracked)
    (hkept : ∀ p ≤ 1024, p ∈ R.kept) (hproper : Proper Q v.tracked e)
    (hstep : ViewedStep kstack v e v') : DisplayInv P v' := by
  cases e with
  | call c => exact h.call hs hkept hproper hstep
  | store va b => exact h.store hs hstep

/-- **Runs.** -/
theorem DisplayInv.run (hQ : ¬Q (-2)) (hkept : ∀ p ≤ 1024, p ∈ R.kept) (h : DisplayInv P v)
    (hs : SystemInv kstack Q R v.tracked) {events : List Event}
    (hrun : Run (Guarded (fun v e => Proper Q v.tracked e) (ViewedStep kstack)) v events v') :
    SystemInv kstack Q R v'.tracked ∧ DisplayInv P v' := by
  refine hrun.invariant (I := fun v => SystemInv kstack Q R v.tracked ∧ DisplayInv P v) ?_ ⟨hs, h⟩
  rintro v e v' ⟨hs, h⟩ ⟨hproper, hstep⟩
  exact ⟨hs.step hQ hproper hstep.1, h.step hs hkept hproper hstep⟩

end Step

/-! ## Runs from the start -/

section Runs

variable {kstack : ℤ → UInt32} {P : KernelPages} {K : KernelTables P} {m : Memory} {s : Tracked}
  {v : Viewed} {events : List Event} {i : ℤ} {va : UInt32} {a : ℕ}

/-- The game when it has been loaded. -/
theorem DisplayInv.boot (hready : KernelReady P m) (h : SystemBooted K m s) :
    DisplayInv P ⟨s, {1}, s.sys.core.mem.byte⟩ := by
  obtain ⟨stack, d, garbage, esp0, t, hseg, hboot, -⟩ := h
  obtain ⟨hload, hprocs, -⟩ := bootSystem_some hboot
  have hu := P.updir_le
  obtain ⟨l, hgs⟩ := gameSpace hseg (hready.initPage K) hload
  have hlive : s.procs.live = {1} := by rw [Tracked.procs, hprocs, live_initCond]
  have hdir : s.procs.dir 1 = P.updir := by
    rw [Procs.dir, Tracked.procs, hprocs, initCond_game]
    exact PGNUM_page2pa (by omega)
  refine ⟨fun i hi => ?_, fun _ _ _ => rfl⟩
  dsimp only at hi ⊢
  rw [hlive] at hi
  obtain rfl := Set.mem_singleton_iff.mp hi
  rw [hdir]
  refine ⟨fun x p hx => ?_, fun _ i j hi hj hlt => loadMemory_video hload hi hj hlt⟩
  exact (hgs.pages x p hx).imp (fun hk => ⟨Finset.mem_singleton_self 1, hk⟩) fun hr => hr.1

end Runs

end OsLab
