import OsLab.Memory.AddressSpace

/-!
# Writing through two address spaces

What one process writes is not visible to another as long as the two address spaces have no page in
common and neither maps its own directory or tables. `userByte_userWrites` says it of any
interleaving of writes: a process finds what it would have found had it been alone.

## Main definitions

* `Store` — a byte that a process writes
* `userWrites` — the writes of a list, in order
* `PagesApart` — no page is in both trees
* `Plain` — neither the directory nor a table is mapped as a frame
* `SameTree` — the pages of a tree hold the same in both memories
-/

namespace OsLab

/-- A byte that a process writes. -/
structure Store where
  cr3 : UInt32
  va : UInt32
  byte : UInt8
  user : va < KOFFSET

/-- The writes of a list, in order. -/
def userWrites (m : Memory) (ws : List Store) : Memory :=
  ws.foldl (fun m w => userWrite w.cr3 w.va w.byte m) m

/-- No page is in both trees. -/
def PagesApart (m : Memory) (d e : ℕ) : Prop :=
  ∀ x y p, pageAt m d x = some p → pageAt m e y ≠ some p

/-- Neither the directory nor a table is mapped as a frame. -/
def Plain (m : Memory) (d : ℕ) : Prop :=
  ∀ i j p, pageAt m d (.frame i j) = some p → p ≠ d ∧ ∀ k, pageAt m d (.table k) ≠ some p

section Write

variable {m m' : Memory} {d e p : ℕ} {cr3 a b va : UInt32} {v : UInt8} {x : Pos}

theorem PagesApart.symm (h : PagesApart m d e) : PagesApart m e d :=
  fun x y p hx hy => h y x p hy hx

theorem PagesApart.dir_ne (h : PagesApart m d e) : d ≠ e := by
  rintro rfl
  exact h .dir .dir d rfl rfl

theorem PagesApart.congr (h : PagesApart m d e) (hd : pageAt m' d = pageAt m d)
    (he : pageAt m' e = pageAt m e) : PagesApart m' d e := by
  intro x y p hx
  rw [he]
  exact h x y p (hd ▸ hx)

theorem Plain.congr (h : Plain m d) (hd : pageAt m' d = pageAt m d) : Plain m' d := by
  intro i j p hp
  rw [hd] at hp ⊢
  exact h i j p hp

/-- A tree is what it was when its pages are. -/
theorem pageAt_eq_of_frames (h : ∀ x p, pageAt m d x = some p → m'.frames p = m.frames p) :
    pageAt m' d = pageAt m d :=
  pageAt_congr (h .dir d rfl) fun i t ht => h (.table i) t ht

/-- A process does not write to the pages of another. -/
theorem PagesApart.frames_userWrite (h : PagesApart m (PGNUM cr3) e) (hva : va < KOFFSET)
    (hx : pageAt m e x = some p) : (userWrite cr3 va v m).frames p = m.frames p :=
  OsLab.frames_userWrite hva fun hp => h _ x p hp hx

theorem PagesApart.pageAt_userWrite (h : PagesApart m (PGNUM cr3) e) (hva : va < KOFFSET) :
    pageAt (userWrite cr3 va v m) e = pageAt m e :=
  pageAt_eq_of_frames fun _ _ hx => h.frames_userWrite hva hx

/-- A process that has none of its tables mapped does not change its own tree. -/
theorem Plain.pageAt_userWrite (h : Plain m (PGNUM cr3)) (hva : va < KOFFSET) :
    pageAt (userWrite cr3 va v m) (PGNUM cr3) = pageAt m (PGNUM cr3) := by
  refine pageAt_congr (OsLab.frames_userWrite hva fun hp => ?_) fun i t ht =>
    OsLab.frames_userWrite hva fun hp => ?_
  · exact (h _ _ _ hp).1 rfl
  · exact (h _ _ _ hp).2 i ht

/-- **A write by one process** is not visible to another. -/
theorem PagesApart.userByte_userWrite (h : PagesApart m (PGNUM a) (PGNUM b)) (hva : va < KOFFSET)
    {vb : UInt32} (hvb : vb < KOFFSET) :
    userByte (userWrite a va v m) b vb = userByte m b vb := by
  rw [userByte_eq hvb, userByte_eq hvb, h.pageAt_userWrite hva]
  cases hp : pageAt m (PGNUM b) (userPos vb hvb) with
  | none => rfl
  | some p => rw [Option.map_some, Option.map_some, h.frames_userWrite hva hp]

end Write

/-! ## Interleaved writes -/

/-- The pages of a tree hold the same in both memories. -/
def SameTree (m₁ m₂ : Memory) (d : ℕ) : Prop :=
  ∀ x p, pageAt m₁ d x = some p → m₂.frames p = m₁.frames p

section Interleaved

variable {m m₁ m₂ : Memory} {a b va : UInt32} {v : UInt8} {d : ℕ}

theorem SameTree.pageAt_eq (h : SameTree m₁ m₂ d) : pageAt m₂ d = pageAt m₁ d :=
  pageAt_eq_of_frames h

theorem SameTree.userByte_eq (h : SameTree m₁ m₂ (PGNUM b)) (hva : va < KOFFSET) :
    userByte m₂ b va = userByte m₁ b va := by
  rw [OsLab.userByte_eq hva, OsLab.userByte_eq hva, h.pageAt_eq]
  cases hp : pageAt m₁ (PGNUM b) (userPos va hva) with
  | none => rfl
  | some p => rw [Option.map_some, Option.map_some, h _ p hp]

/-- The process itself makes the same of the same tree. -/
theorem SameTree.userWrite (h : SameTree m₁ m₂ (PGNUM b)) (hplain : Plain m₁ (PGNUM b))
    (hva : va < KOFFSET) :
    SameTree (userWrite b va v m₁) (userWrite b va v m₂) (PGNUM b) := by
  intro x q hq
  rw [hplain.pageAt_userWrite hva] at hq
  have hsame : m₂.frames q = m₁.frames q := h x q hq
  rw [OsLab.userWrite, OsLab.userWrite, translate_user hva, translate_user hva, h.pageAt_eq]
  cases hp : pageAt m₁ (PGNUM b) (userPos va hva) with
  | none => exact hsame
  | some p =>
    have hoff := PGOFF_lt va
    simp only [Option.map_some]
    rw [Memory.poke_page _ (by omega), Memory.poke_page _ (by omega), Memory.frames_setFrame,
      Memory.frames_setFrame, h _ p hp, Function.update_apply, Function.update_apply, hsame]

/-- What others write makes no difference. -/
theorem SameTree.userWrite_other (h : SameTree m₁ m₂ (PGNUM b))
    (hapart : PagesApart m₁ (PGNUM a) (PGNUM b)) (hva : va < KOFFSET) :
    SameTree (OsLab.userWrite a va v m₁) m₂ (PGNUM b) := by
  intro x q hq
  rw [hapart.pageAt_userWrite hva] at hq
  rw [h x q hq, hapart.frames_userWrite hva hq]

/-- The two trees stay what they are. -/
theorem pageAt_userWrite_both {w : Store} (hw : w.cr3 = a ∨ w.cr3 = b)
    (ha : Plain m (PGNUM a)) (hb : Plain m (PGNUM b)) (hapart : PagesApart m (PGNUM a) (PGNUM b)) :
    pageAt (userWrite w.cr3 w.va w.byte m) (PGNUM a) = pageAt m (PGNUM a) ∧
      pageAt (userWrite w.cr3 w.va w.byte m) (PGNUM b) = pageAt m (PGNUM b) := by
  rcases hw with hw | hw <;> rw [hw]
  · exact ⟨ha.pageAt_userWrite w.user, hapart.pageAt_userWrite w.user⟩
  · exact ⟨hapart.symm.pageAt_userWrite w.user, hb.pageAt_userWrite w.user⟩

theorem SameTree.userWrites {ws : List Store} (h : SameTree m₁ m₂ (PGNUM b))
    (hws : ∀ w ∈ ws, w.cr3 = a ∨ w.cr3 = b) (ha : Plain m₁ (PGNUM a)) (hb : Plain m₁ (PGNUM b))
    (hapart : PagesApart m₁ (PGNUM a) (PGNUM b)) :
    SameTree (userWrites m₁ ws) (userWrites m₂ (ws.filter fun w => w.cr3 = b)) (PGNUM b) := by
  have hne : a ≠ b := fun heq => hapart.dir_ne (congrArg PGNUM heq)
  induction ws generalizing m₁ m₂ with
  | nil => exact h
  | cons w ws ih =>
    have hw := hws w (List.mem_cons_self ..)
    have hrest : ∀ u ∈ ws, u.cr3 = a ∨ u.cr3 = b := fun u hu => hws u (List.mem_cons_of_mem w hu)
    obtain ⟨hta, htb⟩ := pageAt_userWrite_both hw ha hb hapart
    have hnext : ∀ {m₂'}, SameTree (OsLab.userWrite w.cr3 w.va w.byte m₁) m₂' (PGNUM b) →
        SameTree (OsLab.userWrites (OsLab.userWrite w.cr3 w.va w.byte m₁) ws)
          (OsLab.userWrites m₂' (ws.filter fun w => w.cr3 = b)) (PGNUM b) := fun hsame =>
      ih hsame hrest (ha.congr hta) (hb.congr htb) (hapart.congr hta htb)
    rcases hw with hwa | hwb
    · rw [List.filter_cons_of_neg (by rw [hwa]; simpa using hne)]
      refine hnext ?_
      rw [hwa]
      exact h.userWrite_other hapart w.user
    · rw [List.filter_cons_of_pos (by rw [hwb]; simp)]
      refine hnext ?_
      dsimp only
      rw [hwb]
      exact h.userWrite hb w.user

/-- **Isolation.** Whatever the two processes write, one of them finds what it would have found had
the other not written at all. -/
theorem userByte_userWrites {ws : List Store} (hws : ∀ w ∈ ws, w.cr3 = a ∨ w.cr3 = b)
    (ha : Plain m (PGNUM a)) (hb : Plain m (PGNUM b)) (hapart : PagesApart m (PGNUM a) (PGNUM b))
    (hva : va < KOFFSET) :
    userByte (userWrites m ws) b va =
      userByte (userWrites m (ws.filter fun w => w.cr3 = b)) b va := by
  have hsame : SameTree m m (PGNUM b) := fun _ _ _ => rfl
  exact ((hsame.userWrites hws ha hb hapart).userByte_eq hva).symm

end Interleaved

end OsLab
