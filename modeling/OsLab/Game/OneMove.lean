import OsLab.Game.Play

/-!
# One press, one move

A press report sets the flag of its key. A move in a box leaves the flag set, but then the box is
taken, and a reset that empties it clears the flag. So there is no second move without a second
report: each step that is not a report leaves the moves of a box, and one more if the next move
could be made there, at what they were (`Credit.step`).

This is right for eight of the keys. `reset_game` calls `release_key` with 0 to 9, which are not the
numbers of keys but scan codes, and the code of key 9 is 10. A reset in which key 9 is pressed
leaves its flag set, and the next `update_keypress` makes a move (`heldReset_moves`).

## Main definitions

* `moves` — the moves of the player in box `j`
* `presses` — the press reports of key `j + 1`
* `NoHeldReset` — key 9 is not pressed where the game is reset
* `Credit` — a move in box `j` could be next
* `Pending` — a report of key `j + 1` has not been used yet

## Main results

* `oneMove_run` — without such a reset, no box gets more moves than its key has reports
* `heldReset_moves` — after such a reset, box 9 gets a move
-/

namespace OsLab

/-- The moves of the player in box `j`. -/
def moves (j : Fin 9) (l : List PlayAct) : ℕ := l.count (.update (some j))

/-- The press reports of key `j + 1`. -/
def presses (j : Fin 9) (l : List PlayAct) : ℕ := l.count (.report (keycodeArray (j : ℕ)))

/-- Key 9 is not pressed where the game is reset. -/
def NoHeldReset (p : Play) (a : PlayAct) : Prop := Resets p a → queryKey 8 p.game = false

/-- A move in box `j` could be next. -/
def Credit (j : Fin 9) (p : Play) : Prop :=
  p.game.text j = emptyText ∧ queryKey (j : ℕ) p.game = true

/-- A report of key `j + 1` has not been used yet. -/
def Pending (j : Fin 9) (p : Play) : Prop := p.get_kbd = some (keycodeArray (j : ℕ))

instance (j : Fin 9) (p : Play) : Decidable (Credit j p) := inferInstanceAs (Decidable (_ ∧ _))

instance (j : Fin 9) (p : Play) : Decidable (Pending j p) := inferInstanceAs (Decidable (_ = _))

/-- The moves of box `j` that reports were made for and that are still to come. -/
def credits (j : Fin 9) (p : Play) : ℕ :=
  (if Credit j p then 1 else 0) + if Pending j p then 1 else 0

theorem ite_le_ite {P Q : Prop} [Decidable P] [Decidable Q] (h : P → Q) :
    (if P then 1 else 0) ≤ if Q then 1 else 0 := by
  split
  · rw [if_pos (h ‹_›)]
  · exact Nat.zero_le _

section Step

variable {p q : Play} {j : Fin 9}

@[simp] theorem moves_append (j : Fin 9) (l l' : List PlayAct) :
    moves j (l ++ l') = moves j l + moves j l' :=
  List.count_append

@[simp] theorem presses_append (j : Fin 9) (l l' : List PlayAct) :
    presses j (l ++ l') = presses j l + presses j l' :=
  List.count_append

/-- After a move the box is not empty. -/
theorem taken {text : Board} {k : Fin 9} :
    Function.update (Function.update text j playerText) k computerText j ≠ emptyText := by
  rcases eq_or_ne j k with rfl | hne
  · rw [Function.update_self]
    decide
  · rw [Function.update_of_ne hne, Function.update_self]
    decide

theorem credits_mono (hcredit : Credit j q → Credit j p) (hpending : Pending j q → Pending j p) :
    credits j q ≤ credits j p :=
  Nat.add_le_add (ite_le_ite hcredit) (ite_le_ite hpending)

/-- A report that is used up may have made a move possible. -/
theorem credits_le_of_idle (hidle : ¬Pending j q)
    (hcredit : Credit j q → Credit j p ∨ Pending j p) :
    credits j q ≤ credits j p := by
  rw [credits, if_neg hidle, Nat.add_zero]
  by_cases hq : Credit j q
  · rw [if_pos hq, credits]
    rcases hcredit hq with hp | hp
    · rw [if_pos hp]
      exact Nat.le_add_right ..
    · rw [if_pos hp]
      exact Nat.le_add_left ..
  · rw [if_neg hq]
    exact Nat.zero_le _

theorem credits_eq_zero (hcredit : ¬Credit j p) (hidle : ¬Pending j p) : credits j p = 0 := by
  rw [credits, if_neg hcredit, if_neg hidle]

/-- **`process_keys`** turns a report into a flag. -/
theorem credits_returns (hok : PlayOk p) {b : Bool} (h : MainStep p (.returns b) q) :
    credits j q ≤ credits j p := by
  obtain ⟨code, hcode, -, -, rfl⟩ := mainStep_returns h
  have hj : ((j : ℕ) : ℤ) < 10 := by omega
  obtain ⟨hlow, hhigh⟩ := hok.code code hcode
  have hsmall : code % 0x100 = code := by omega
  refine credits_le_of_idle (fun h => Option.some_ne_none _ h.symm) ?_
  rintro ⟨hempty, hpressed⟩
  rcases eq_or_ne (keycodeArray (j : ℕ)) code with rfl | hne
  · exact .inr hcode
  · refine .inl ⟨hempty, ?_⟩
    simp only [queryKey, processKeys, hsmall] at hpressed
    split at hpressed
    · exact hpressed
    · split at hpressed
      · rw [pressKey, setKey_apply true _ _ (by omega) hj, if_neg hne] at hpressed
        exact hpressed
      · rw [releaseKey, setKey_apply false _ _ (by omega) hj] at hpressed
        split at hpressed
        · cases hpressed
        · exact hpressed

/-- **A reset** leaves no move to come, when key 9 is not pressed. -/
theorem credits_resetGame (hgame : q.game = resetGame p.game) (hidle : ¬Pending j q)
    (hheld : queryKey 8 p.game = false) : credits j q = 0 := by
  refine credits_eq_zero (fun hcredit => ?_) hidle
  have hpressed := hcredit.2
  rw [hgame, queryKey, resetGame, releaseKeys_apply _ (by omega) (by omega)] at hpressed
  split at hpressed
  · cases hpressed
  · have hj : ((j : ℕ) : ℤ) = 8 := by omega
    rw [hj] at hpressed
    exact Bool.false_ne_true (hheld.symm.trans hpressed)

/-- **`update_keypress`** makes the move that could be made. -/
theorem credits_update (hok : PlayOk p) {cell : Option (Fin 9)} (h : MainStep p (.update cell) q)
    (hheld : NoHeldReset p (.update cell)) :
    (if cell = some j then 1 else 0) + credits j q ≤ credits j p := by
  obtain ⟨hpoint, rfl, fuel, r, hr, rfl⟩ := mainStep_update h
  have hidle : p.get_kbd = none := hok.idle (by rw [hpoint]; decide)
  have hnot : ¬Pending j p := fun h => Option.some_ne_none _ (h.symm.trans hidle)
  have hmove : playerCell p.game = some j → Credit j p := by
    intro hcell
    obtain ⟨hempty, hpressed⟩ := playerCell_eq_some hcell
    rw [hok.index] at hpressed
    exact ⟨hempty, hpressed⟩
  cases henter : queryKey 9 p.game with
  | true =>
    obtain ⟨seed, hgame⟩ := updateKeypress_reset hr henter
    have hzero := credits_resetGame (p := { p with game := { p.game with seed := seed } })
      (q := { p with game := r.2, point := .seek false }) hgame hnot (hheld ⟨⟨_, rfl⟩, henter⟩)
    rw [hzero, Nat.add_zero, credits, if_neg hnot, Nat.add_zero]
    exact ite_le_ite hmove
  | false =>
    obtain ⟨text, flags, seed, hgame, hmoved, hflags⟩ := updateKeypress_keep hr henter
    have htext : r.2.text = text := by rw [hgame]
    have hkeep : queryKey (j : ℕ) r.2 = true → queryKey (j : ℕ) p.game = true := by
      rw [hgame]
      exact hflags _ (by omega) (by omega)
    obtain ⟨hcell, rfl⟩ | ⟨j', k, hcell, hk, rfl⟩ := hmoved
    · rw [hcell, if_neg (Option.some_ne_none j).symm, Nat.zero_add]
      exact credits_mono (fun hq => ⟨(congrFun htext j).symm.trans hq.1, hkeep hq.2⟩) id
    · rw [hcell]
      rcases eq_or_ne j' j with rfl | hne
      · -- the box is taken
        have hafter : credits j' { p with game := r.2, point := .seek false } = 0 :=
          credits_eq_zero (fun hq => taken (htext ▸ hq.1)) hnot
        rw [if_pos rfl, hafter, credits, if_pos (hmove hcell)]
        exact Nat.le_add_right ..
      · rw [if_neg fun h => hne (Option.some.inj h), Nat.zero_add]
        refine credits_mono (fun hq => ⟨?_, hkeep hq.2⟩) id
        have hempty := (congrFun htext j).symm.trans hq.1
        rcases eq_or_ne j k with rfl | hjk
        · rw [Function.update_self] at hempty
          exact absurd hempty (by decide)
        · rwa [Function.update_of_ne hjk, Function.update_of_ne hne.symm] at hempty

/-- **Every step**: what is to come grows by a report only, and a move is taken from it. -/
theorem credits_step (hok : PlayOk p) {a : PlayAct} (h : MainStep p a q) (hheld : NoHeldReset p a) :
    moves j [a] + credits j q ≤ presses j [a] + credits j p := by
  -- only `update` is a move, and only `report` is a report
  have hother (hmove : a ≠ .update (some j)) (hreport : a ≠ .report (keycodeArray (j : ℕ)))
      (hle : credits j q ≤ credits j p) :
      moves j [a] + credits j q ≤ presses j [a] + credits j p := by
    rw [moves, presses, List.count_singleton, List.count_singleton,
      if_neg (by simpa using hmove), if_neg (by simpa using hreport)]
    omega
  cases a with
  | event key_code =>
    obtain rfl := mainStep_event h
    exact hother PlayAct.noConfusion PlayAct.noConfusion (credits_mono id id)
  | report code =>
    obtain ⟨-, hidle, -, rfl⟩ := mainStep_report h
    have hnot : ¬Pending j p := fun hp => Option.some_ne_none _ (hp.symm.trans hidle)
    have hmoves : moves j [.report code] = 0 := rfl
    have hcredit : Credit j { p with
        key_state := (handleKeys p.key_state).2, get_kbd := some code } → Credit j p := id
    rw [hmoves, Nat.zero_add, presses, List.count_singleton, credits, credits, if_neg hnot,
      Nat.add_zero, Nat.add_comm]
    refine Nat.add_le_add (ite_le_ite fun hp => ?_) (ite_le_ite hcredit)
    have hcode : code = keycodeArray (j : ℕ) := Option.some.inj hp
    rw [hcode]
    exact beq_self_eq_true _
  | returns b => exact hother PlayAct.noConfusion PlayAct.noConfusion (credits_returns hok h)
  | time first target =>
    obtain ⟨-, rfl | rfl⟩ := mainStep_time h <;>
      exact hother PlayAct.noConfusion PlayAct.noConfusion (credits_mono id id)
  | update cell =>
    have hle := credits_update (j := j) hok h hheld
    have hpresses : presses j [.update cell] = 0 := rfl
    have hmoves : moves j [.update cell] = if cell = some j then 1 else 0 := by
      rw [moves, List.count_singleton]
      exact if_congr (by simp) rfl rfl
    omega
  | seek =>
    obtain ⟨redrawn, stray, junk, -, rfl⟩ := mainStep_seek h
    exact hother PlayAct.noConfusion PlayAct.noConfusion (credits_mono id id)
  | write =>
    obtain ⟨redrawn, i, stray, junk, -, rfl⟩ := mainStep_write h
    exact hother PlayAct.noConfusion PlayAct.noConfusion (credits_mono id id)
  | ticks =>
    obtain ⟨-, hq⟩ := mainStep_ticks h
    rw [hok.added, if_neg Bool.false_ne_true] at hq
    obtain rfl := hq
    exact hother PlayAct.noConfusion PlayAct.noConfusion (credits_mono id id)
  | redraw =>
    obtain ⟨-, hq⟩ := mainStep_redraw h
    obtain ⟨w, hw⟩ := redrawScreen_eq p.game
    rw [hw] at hq
    obtain rfl := hq
    exact hother PlayAct.noConfusion PlayAct.noConfusion (credits_mono id id)

end Step

/-! ## Runs -/

section Run

variable {p q : Play} {j : Fin 9} {l : List PlayAct}

/-- **Runs** from a state in which no move is to come. -/
theorem credits_run (hok : PlayOk p) (hzero : credits j p = 0)
    (h : Run (Guarded NoHeldReset MainStep) p l q) : moves j l ≤ presses j l := by
  have hstart : PlayOk p ∧ moves j [] + credits j p ≤ presses j [] :=
    ⟨hok, by rw [hzero]; exact Nat.le_refl 0⟩
  have hinv := h.history (I := fun q l => PlayOk q ∧ moves j l + credits j q ≤ presses j l)
    (fun s a t l hs hstep => ?_) hstart
  · rw [List.nil_append] at hinv
    exact Nat.le_of_add_right_le hinv.2
  · refine ⟨hs.1.step hstep.2, ?_⟩
    have hone := credits_step (j := j) hs.1 hstep.2 hstep.1
    have hbefore := hs.2
    rw [moves_append, presses_append]
    omega

theorem PlayOk.run (hok : PlayOk p) (h : Run (Guarded NoHeldReset MainStep) p l q) : PlayOk q :=
  h.invariant (fun _ _ _ hs hstep => hs.step hstep.2) hok

/-- No key is pressed at the start. -/
theorem credits_start (stray : ℤ → UInt32) (junk : Mem) (key_state : ℤ → KeyState) (k : Kernel)
    (now : ℤ) : credits j (playStart stray junk key_state k now) = 0 := by
  refine credits_eq_zero (fun hcredit => ?_) fun h => Option.some_ne_none _ h.symm
  have hpressed : (releaseKeys keyboardStart.flags).letter_pressed (j : ℕ) = true := hcredit.2
  rw [releaseKeys_apply _ (by omega) (by omega)] at hpressed
  split at hpressed <;> cases hpressed

/-- A reset. -/
theorem credits_reset (hok : PlayOk p) {a : PlayAct} (hreset : Resets p a)
    (h : Guarded NoHeldReset MainStep p a q) : credits j q = 0 := by
  obtain ⟨⟨cell, rfl⟩, henter⟩ := hreset
  obtain ⟨hpoint, -, fuel, r, hr, rfl⟩ := mainStep_update h.2
  have hidle : p.get_kbd = none := hok.idle (by rw [hpoint]; decide)
  obtain ⟨seed, hgame⟩ := updateKeypress_reset hr henter
  exact credits_resetGame (p := { p with game := { p.game with seed := seed } }) hgame
    (fun h => Option.some_ne_none _ (h.symm.trans hidle)) (h.1 ⟨⟨cell, rfl⟩, henter⟩)

end Run

/-- **One press, one move.** In every run without a reset in which key 9 is pressed, box `j` gets no
more moves than key `j + 1` has press reports, and after a reset no more than it has reports
since. -/
theorem oneMove_run (stray : ℤ → UInt32) (junk : Mem) (key_state : ℤ → KeyState) (k : Kernel)
    (now : ℤ) {l : List PlayAct} {p : Play}
    (h : Run (Guarded NoHeldReset MainStep) (playStart stray junk key_state k now) l p)
      (j : Fin 9) :
    moves j l ≤ presses j l ∧
      ∀ l₁ a l₂ p₁ p₂, l = l₁ ++ a :: l₂ →
        Run (Guarded NoHeldReset MainStep) (playStart stray junk key_state k now) l₁ p₁ →
        Resets p₁ a → Guarded NoHeldReset MainStep p₁ a p₂ →
        Run (Guarded NoHeldReset MainStep) p₂ l₂ p → moves j l₂ ≤ presses j l₂ := by
  have hok := playOk_start stray junk key_state k now
  refine ⟨credits_run hok (credits_start stray junk key_state k now) h, ?_⟩
  intro l₁ a l₂ p₁ p₂ _ hbefore hreset hstep hafter
  have hok₁ := hok.run hbefore
  exact credits_run (hok₁.step hstep.2) (credits_reset hok₁ hreset hstep) hafter

/-- **The flag of key 9 is left.** After a reset in which key 9 is pressed the next move is made in
box 9. -/
theorem heldReset_moves {p q : Play} {a : PlayAct} (hreset : Resets p a)
    (hheld : queryKey 8 p.game = true) (h : MainStep p a q) : playerCell q.game = some 8 := by
  obtain ⟨⟨cell, rfl⟩, henter⟩ := hreset
  obtain ⟨-, -, fuel, r, hr, rfl⟩ := mainStep_update h
  obtain ⟨seed, hgame⟩ := updateKeypress_reset hr henter
  have hflag (i : Fin 9) : queryKey (r.2.index i) r.2 =
      if (i : ℕ) < 8 then false else queryKey (i : ℕ) p.game := by
    rw [hgame]
    refine (releaseKeys_apply _ (i := (i : ℕ)) (by omega) (by omega)).trans ?_
    exact if_congr (by omega) rfl rfl
  refine List.find?_eq_some_iff_append.mpr
    ⟨?_, [0, 1, 2, 3, 4, 5, 6, 7], [], by decide, fun i hi => ?_⟩
  · have htext : r.2.text 8 = emptyText := by
      rw [hgame]
      exact (by decide : startBoard 8 = emptyText)
    simpa [htext, hflag] using hheld
  · have hlt : (i : ℕ) < 8 := by
      revert i
      decide
    simp [hflag, hlt]

/-! ## Two runs -/

instance (p : Play) (a : PlayAct) : Decidable (NoHeldReset p a) :=
  match a with
  | .update cell => decidable_of_iff (queryKey 9 p.game = true → queryKey 8 p.game = false)
      ⟨fun h hreset => h hreset.2, fun h henter => h ⟨⟨cell, rfl⟩, henter⟩⟩
  | .event _ | .report _ | .returns _ | .time _ _ | .seek | .write | .ticks | .redraw =>
    isTrue fun ⟨⟨_, h⟩, _⟩ => PlayAct.noConfusion h

/-- Key 1 and enter are pressed, and `update_keypress` is called. -/
def oneKeyRun : List PlayAct :=
  [.event 0x02, .event 0x1c, .time 2 2, .report 0x02, .returns true, .report 0x1c, .returns true,
    .report 0xff, .returns false, .update (some 0)]

theorem oneMove_run_first : ∃ p,
    Run (Guarded NoHeldReset MainStep) (sessionStart shippedFile) oneKeyRun p ∧
      moves 0 oneKeyRun ≤ presses 0 oneKeyRun := by
  have hsome :
      (oneKeyRun.foldlM (guardedBy NoHeldReset Play.next) (sessionStart shippedFile)).isSome =
      true := by decide +kernel
  obtain ⟨p, hp⟩ := Option.isSome_iff_exists.mp hsome
  have hrun := Run.of_guardedBy mainStep_next hp
  exact ⟨p, hrun, (oneMove_run _ _ _ _ _ hrun 0).1⟩

/-- Keys 9 and enter are pressed, and `update_keypress` is called twice. -/
def heldRun : List PlayAct :=
  [.event 0x0a, .event 0x1c, .time 2 2, .report 0x0a, .returns true, .report 0x1c, .returns true,
    .report 0xff, .returns false, .update (some 8)] ++ saves ++
  [.ticks, .time 3 3, .report 0xff, .returns false, .update (some 8)]

/-- **Two moves for one press.** -/
theorem heldRun_moves_twice :
    ∃ p, Run MainStep (sessionStart shippedFile) heldRun p ∧
      ¬moves 8 heldRun ≤ presses 8 heldRun := by
  have hsome : (heldRun.foldlM Play.next (sessionStart shippedFile)).isSome = true := by
    decide +kernel
  obtain ⟨p, hp⟩ := Option.isSome_iff_exists.mp hsome
  exact ⟨p, (Run.of_foldlM hp).mono mainStep_next, by decide⟩

end OsLab
