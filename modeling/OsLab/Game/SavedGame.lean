import OsLab.Game.SaveFile
import OsLab.Lib.Refs

/-!
# Saved games

The computer moves after the player and has one box more at the start. So there is always one `X`
more than there are `O`s, the nine boxes are never full after a move of the player, and the search
for the computer's box ends. This depends on the board that is loaded.

"You can quit at any time!" the game says, and the machine may be switched off between any two
sectors that are written. A save writes the nine boxes one by one. Switched off between two boxes
that have changed, it leaves part of the new board and part of the old one in the file.

## Main definitions

* `OneMoreX` — there is one `X` more than there are `O`s
* `Session` — the game, and the board that it has loaded or saved last
* `SessionStep` — a step of the program, or the power goes off and the machine boots from the same
  disk
* `CleanOff` — the power is not cut between two boxes that the save changes
* `SessionOk` — what always holds

## Main results

* `savedGame_run` — unless that happens, every board that is loaded or reached has one `X` more
* `midSave_loses` — after a move, that loses the balance
-/

namespace OsLab

/-! ## The balance -/

/-- The number of boxes that hold the character. -/
def boxesWith (c : UInt8) (b : Board) : ℕ := refs Finset.univ b c

/-- There is one `X` more than there are `O`s. -/
def OneMoreX (b : Board) : Prop := boxesWith computerText b = boxesWith playerText b + 1

instance (b : Board) : Decidable (OneMoreX b) := inferInstanceAs (Decidable (_ = _))

/-- Every box is empty or holds an `O` or an `X`. -/
def Marked (b : Board) : Prop := ∀ i, b i = emptyText ∨ b i = playerText ∨ b i = computerText

section Balance

variable {b : Board} {j k : Fin 9}

theorem boxesWith_update (c c' : UInt8) :
    boxesWith c (Function.update b j c') + (if b j = c then 1 else 0) =
      boxesWith c b + (if c' = c then 1 else 0) :=
  refs_update (Finset.mem_univ j)

/-- After the player's move there are as many `O`s as `X`s. -/
theorem OneMoreX.player (h : OneMoreX b) (hj : b j = emptyText) :
    boxesWith computerText (Function.update b j playerText) =
      boxesWith playerText (Function.update b j playerText) := by
  have hX := @boxesWith_update b j computerText playerText
  have hO := @boxesWith_update b j playerText playerText
  rw [hj, if_neg (by decide), if_neg (by decide)] at hX
  rw [hj, if_neg (by decide), if_pos rfl] at hO
  rw [OneMoreX] at h
  omega

/-- **Two moves** keep the balance. -/
theorem OneMoreX.moved (h : OneMoreX b) (hj : b j = emptyText)
    (hk : Function.update b j playerText k = emptyText) :
    OneMoreX (Function.update (Function.update b j playerText) k computerText) := by
  have heven := h.player hj
  have hX := @boxesWith_update (Function.update b j playerText) k computerText computerText
  have hO := @boxesWith_update (Function.update b j playerText) k playerText computerText
  rw [hk, if_neg (by decide), if_pos rfl] at hX
  rw [hk, if_neg (by decide), if_neg (by decide)] at hO
  rw [OneMoreX]
  omega

/-- **There is a box for the computer**: nine is odd. -/
theorem OneMoreX.room (h : OneMoreX b) (hb : Marked b) (hj : b j = emptyText) :
    ∃ i, Function.update b j playerText i = emptyText := by
  by_contra hfull
  push Not at hfull
  have heven := h.player hj
  have hmarked : ∀ i, Function.update b j playerText i = playerText ↔
      ¬Function.update b j playerText i = computerText := fun i => by
    have hi := hfull i
    rcases eq_or_ne i j with rfl | hne
    · rw [Function.update_self]
      decide
    · rw [Function.update_of_ne hne] at hi ⊢
      rcases hb i with h0 | hO | hX
      · exact absurd h0 hi
      · rw [hO]
        decide
      · rw [hX]
        decide
  have hsum := Finset.card_filter_add_card_filter_not (s := Finset.univ)
    (fun i => Function.update b j playerText i = computerText)
  simp only [← hmarked, Finset.card_univ, Fintype.card_fin] at hsum
  rw [boxesWith, boxesWith, refs, refs] at heven
  omega

theorem Marked.update (h : Marked b) {c : UInt8}
    (hc : c = emptyText ∨ c = playerText ∨ c = computerText) : Marked (Function.update b j c) := by
  intro i
  rcases eq_or_ne i j with rfl | hne
  · rw [Function.update_self]
    exact hc
  · rw [Function.update_of_ne hne]
    exact h i

theorem loadedText_marked (c : UInt8) :
    loadedText c = emptyText ∨ loadedText c = playerText ∨ loadedText c = computerText := by
  rw [loadedText]
  split
  · exact .inl rfl
  · next h =>
    by_cases hX : c = computerText
    · exact .inr (.inr hX)
    · exact .inr (.inl (by_contra fun hO => h ⟨hX, hO⟩))

theorem Marked.loadedText_eq (h : Marked b) (i : Fin 9) : loadedText (b i) = b i := by
  rcases h i with h | h | h <;> rw [h] <;> decide

/-- What a step of `main_loop` does to the board keeps the balance. -/
theorem OneMoreX.update {g : Game} {fuel : ℕ} {r : Bool × Game} (h : OneMoreX g.text)
    (hb : Marked g.text) (hr : updateKeypress fuel g = some r) :
    OneMoreX r.2.text ∧ Marked r.2.text := by
  cases henter : queryKey 9 g with
  | true =>
    obtain ⟨seed, hreset⟩ := updateKeypress_reset hr henter
    rw [hreset]
    exact ⟨(by decide : OneMoreX startBoard), (by unfold Marked; decide : Marked startBoard)⟩
  | false =>
    obtain ⟨text, flags, seed, hkeep, hmoved, -⟩ := updateKeypress_keep hr henter
    rw [hkeep]
    obtain ⟨-, rfl⟩ | ⟨j, k, hcell, hk, rfl⟩ := hmoved
    · exact ⟨h, hb⟩
    · exact ⟨h.moved (playerCell_eq_some hcell).1 hk,
        (hb.update (.inr (.inl rfl))).update (.inr (.inr rfl))⟩

end Balance

/-! ## Sessions -/

/-- The game, and the board that it has loaded or saved last. -/
structure Session where
  play : Play
  saved : Board

/-- What happens: a step of `main_loop`, or the machine is switched off and on again. -/
inductive SessionAct
  | play (a : PlayAct)
  | off

/-- The number of boxes that the save which is under way has written. -/
def Point.written : Point → ℕ
  | .save _ i => i
  | _ => 0

/-- A session starts with the board that was loaded. -/
def sessionOf (p : Play) : Session := ⟨p, p.game.text⟩

/-- A step of the program, or the power goes off and the machine boots from the same disk. -/
def SessionStep (s : Session) : SessionAct → Session → Prop
  | .play a, s' => MainStep s.play a s'.play ∧
    s'.saved = if a = .write ∧ s.play.point.written = 8 then s.play.game.text else s.saved
  | .off, s' => ∃ stray junk key_state k now, Booted s.play.kernel.disk k ∧
    s' = sessionOf (playStart stray junk key_state k now)

/-- The power is not cut between two boxes that the save changes. -/
def CleanOff (s : Session) (a : SessionAct) : Prop :=
  a = .off → (∀ j : Fin 9, j < s.play.point.written → s.saved j = s.play.game.text j) ∨
    ∀ j : Fin 9, s.play.point.written ≤ j → s.saved j = s.play.game.text j

/-- What always holds. -/
structure SessionOk (inode : Sector) (m : ℕ) (s : Session) : Prop where
  ok : PlayOk s.play
  file : GameFile inode m s.play.kernel.disk
  fd : SaveFd s.play.kernel s.play.fd inode
  offset : ∀ redrawn i, s.play.point = .save redrawn i →
    (s.play.kernel.fcbOf s.play.fd).offset = (i : ℕ)
  marked : Marked s.play.game.text
  balance : OneMoreX s.play.game.text
  saved : OneMoreX s.saved
  /-- The first boxes in the file are new, the others are those of the board that was saved last. -/
  board : ∀ j : Fin 9, fileBoard inode s.play.kernel.disk j =
    if j < s.play.point.written then s.play.game.text j else s.saved j

section Session

variable {s s' : Session} {inode : Sector} {m : ℕ} {d : Disk}

theorem written_of_ne {c : Point} (h : ∀ redrawn i, c ≠ .save redrawn i) : c.written = 0 := by
  cases c with
  | save redrawn i => exact absurd rfl (h redrawn i)
  | _ => rfl

/-- Steps between the saves. -/
theorem SessionOk.between (h : SessionOk inode m s) (hok : PlayOk s'.play)
    (hkernel : s'.play.kernel = s.play.kernel) (hfd : s'.play.fd = s.play.fd)
    (hsaved : s'.saved = s.saved)
    (htext : OneMoreX s'.play.game.text ∧ Marked s'.play.game.text)
    (hbefore : ∀ redrawn i, s.play.point ≠ .save redrawn i)
    (hafter : ∀ redrawn i, s'.play.point ≠ .save redrawn i) : SessionOk inode m s' := by
  have hboard := h.board
  rw [written_of_ne hbefore] at hboard
  refine ⟨hok, hkernel ▸ h.file, ?_, fun redrawn i hpoint => absurd hpoint (hafter redrawn i),
    htext.2, htext.1, hsaved ▸ h.saved, fun j => ?_⟩
  · rw [hkernel, hfd]
    exact h.fd
  · rw [hkernel, hboard, written_of_ne hafter, if_neg (Nat.not_lt_zero _),
      if_neg (Nat.not_lt_zero _), hsaved]

/-- Interrupts and `handle_keys`. -/
theorem SessionOk.same (h : SessionOk inode m s) (hok : PlayOk s'.play)
    (hkernel : s'.play.kernel = s.play.kernel) (hfd : s'.play.fd = s.play.fd)
    (hsaved : s'.saved = s.saved) (htext : s'.play.game.text = s.play.game.text)
    (hpoint : s'.play.point = s.play.point) : SessionOk inode m s' := by
  refine ⟨hok, hkernel ▸ h.file, ?_, fun redrawn i hp => ?_, htext ▸ h.marked, htext ▸ h.balance,
    hsaved ▸ h.saved, fun j => ?_⟩
  · rw [hkernel, hfd]
    exact h.fd
  · rw [hkernel, hfd]
    exact h.offset redrawn i (hpoint ▸ hp)
  · rw [hkernel, htext, hsaved, hpoint]
    exact h.board j

/-- **`lseek`** -/
theorem SessionOk.seek (h : SessionOk inode m s) (hok : PlayOk s'.play)
    (hstep : MainStep s.play .seek s'.play) (hsaved : s'.saved = s.saved) :
    SessionOk inode m s' := by
  obtain ⟨redrawn, stray, junk, hpoint, hq⟩ := mainStep_seek hstep
  have hboard := h.board
  have hbefore : s.play.point.written = 0 := by rw [hpoint]; rfl
  obtain ⟨hfd, hoff⟩ := @SaveFd.seek stray junk _ _ _ h.fd
  rw [hbefore] at hboard
  obtain ⟨q, saved⟩ := s'
  obtain rfl : q = _ := hq
  refine ⟨hok, ?_, hfd, fun redrawn' i hp => ?_, h.marked, h.balance, hsaved ▸ h.saved,
    fun j => ?_⟩
  · rw [disk_lseek]
    exact h.file
  · obtain ⟨-, rfl⟩ := Point.save.inj hp
    exact hoff
  · rw [disk_lseek, hboard j, hsaved]
    rfl

/-- **`write`** puts the next box into the file. -/
theorem SessionOk.write (h : SessionOk inode m s) (hok : PlayOk s'.play)
    (hstep : MainStep s.play .write s'.play)
    (hsaved : s'.saved = if s.play.point.written = 8 then s.play.game.text else s.saved) :
    SessionOk inode m s' := by
  obtain ⟨redrawn, i, stray, junk, hpoint, hq⟩ := mainStep_write hstep
  have hwritten : s.play.point.written = i := by rw [hpoint]; rfl
  have hi := i.isLt
  have hpos := h.file.pos
  obtain ⟨hfd, hoff, hframe, hbytes⟩ := @SaveFd.write stray junk
    (Function.update junk 0 (s.play.game.text i)) _ _ _ m i h.fd h.file.allocated h.file.distinct
    (h.offset redrawn i hpoint) (by omega)
  rw [Function.update_self] at hbytes
  -- the boxes up to this one are new
  have hboard : ∀ j : Fin 9, fileBoard inode (writeFile stray junk s.play.kernel s.play.fd
      (Function.update junk 0 (s.play.game.text i)) 1).kernel.disk j =
      if (j : ℕ) < i + 1 then s.play.game.text j else s.saved j := fun j => by
    have hold := h.board j
    rw [hwritten, fileBoard] at hold
    rw [fileBoard, hbytes j (by omega)]
    rcases Nat.lt_trichotomy j i with hlt | heq | hgt
    · rw [if_neg (by omega), if_pos (by omega), hold, if_pos hlt]
    · obtain rfl : j = i := Fin.ext heq
      rw [if_pos rfl, if_pos (Nat.lt_succ_self _), h.marked.loadedText_eq]
    · rw [if_neg (by omega), if_neg (by omega), hold, if_neg (by omega)]
  rw [hwritten] at hsaved
  obtain ⟨q, saved⟩ := s'
  obtain rfl : q = _ := hq
  obtain rfl : saved = _ := hsaved
  by_cases hlast : (i : ℕ) + 1 < 9
  · have hne : (i : ℕ) ≠ 8 := by omega
    refine ⟨hok, h.file.congr hframe, hfd, fun redrawn' i' hp => ?_, h.marked, h.balance, ?_,
      fun j => ?_⟩
    · rw [dif_pos hlast] at hp
      obtain ⟨-, rfl⟩ := Point.save.inj hp
      exact hoff
    · rw [if_neg hne]
      exact h.saved
    · rw [if_neg hne, hboard j, dif_pos hlast]
      rfl
  · have hi8 : (i : ℕ) = 8 := by omega
    have hafter : ∀ redrawn' i', (if h : (i : ℕ) + 1 < 9 then Point.save redrawn ⟨i + 1, h⟩
        else if redrawn then .top else .ticks) ≠ .save redrawn' i' := fun redrawn' i' => by
      rw [dif_neg hlast]
      cases redrawn <;> exact Point.noConfusion
    refine ⟨hok, h.file.congr hframe, hfd, fun redrawn' i' hp => absurd hp (hafter redrawn' i'),
      h.marked, h.balance, ?_, fun j => ?_⟩
    · rw [if_pos hi8]
      exact h.balance
    · have hj := j.isLt
      rw [if_pos hi8, hboard j, if_pos (by omega), ite_self]

/-- **A start.** The file holds a board with one `X` more. -/
theorem SessionOk.start {stray : ℤ → UInt32} {junk : Mem} {key_state : ℤ → KeyState} {k : Kernel}
    {now : ℤ} (hb : Booted d k) (hf : GameFile inode m d) (hfile : OneMoreX (fileBoard inode d)) :
    SessionOk inode m (sessionOf (playStart stray junk key_state k now)) := by
  obtain ⟨hfd, hdisk, htext⟩ := @playStart_loads stray junk k inode m d hb hf key_state now
  have hpoint : (playStart stray junk key_state k now).point = .top := rfl
  refine ⟨playOk_start stray junk key_state k now, ?_, hfd, fun redrawn i hp => ?_, ?_, ?_, ?_,
    fun j => ?_⟩
  · rw [sessionOf, hdisk]
    exact hf
  · exact absurd (hpoint.symm.trans hp) Point.noConfusion
  · rw [sessionOf, htext]
    exact fun i => loadedText_marked _
  · rw [sessionOf, htext]
    exact hfile
  · rw [sessionOf, htext]
    exact hfile
  · rw [sessionOf, hdisk, htext, ite_self]

/-- The board that is loaded after the power was cut in a clean moment. -/
theorem SessionOk.loads (h : SessionOk inode m s) (hclean : CleanOff s .off) :
    OneMoreX (fileBoard inode s.play.kernel.disk) := by
  rcases hclean rfl with hfirst | hrest
  · have hold : fileBoard inode s.play.kernel.disk = s.saved := by
      funext j
      rw [h.board j]
      split
      · next hj => exact (hfirst j hj).symm
      · rfl
    rw [hold]
    exact h.saved
  · have hnew : fileBoard inode s.play.kernel.disk = s.play.game.text := by
      funext j
      rw [h.board j]
      split
      · rfl
      · next hj => exact hrest j (Nat.not_lt.mp hj)
    rw [hnew]
    exact h.balance

/-- **Every step.** -/
theorem SessionOk.step {a : SessionAct} (h : SessionOk inode m s) (hclean : CleanOff s a)
    (hstep : SessionStep s a s') : SessionOk inode m s' := by
  cases a with
  | off =>
    obtain ⟨stray, junk, key_state, k, now, hb, rfl⟩ := hstep
    exact SessionOk.start hb h.file (h.loads hclean)
  | play a =>
    obtain ⟨hmain, hsaved⟩ := hstep
    have hok := h.ok.step hmain
    have hfair : OneMoreX s.play.game.text ∧ Marked s.play.game.text := ⟨h.balance, h.marked⟩
    cases a with
    | write =>
      refine h.write hok hmain (hsaved.trans ?_)
      simp
    | seek => exact h.seek hok hmain (hsaved.trans (if_neg fun h => PlayAct.noConfusion h.1))
    | event key_code =>
      rw [if_neg fun h => PlayAct.noConfusion h.1] at hsaved
      have hq := mainStep_event hmain
      exact h.same hok (by rw [hq]) (by rw [hq]) hsaved (by rw [hq]) (by rw [hq])
    | report code =>
      rw [if_neg fun h => PlayAct.noConfusion h.1] at hsaved
      obtain ⟨-, -, -, hq⟩ := mainStep_report hmain
      exact h.same hok (by rw [hq]) (by rw [hq]) hsaved (by rw [hq]) (by rw [hq])
    | returns b =>
      rw [if_neg fun h => PlayAct.noConfusion h.1] at hsaved
      obtain ⟨code, -, hpoint, -, hq⟩ := mainStep_returns hmain
      refine h.between hok (by rw [hq]) (by rw [hq]) hsaved (by rw [hq]; exact hfair)
        (fun _ _ => by rw [hpoint]; exact Point.noConfusion) fun _ _ => ?_
      rw [hq]
      cases b <;> exact Point.noConfusion
    | time first target =>
      rw [if_neg fun h => PlayAct.noConfusion h.1] at hsaved
      obtain ⟨hpoint, hq | hq⟩ := mainStep_time hmain
      · exact h.same hok (by rw [hq]) (by rw [hq]) hsaved (by rw [hq]) (by rw [hq])
      · exact h.between hok (by rw [hq]) (by rw [hq]) hsaved (by rw [hq]; exact hfair)
          (fun _ _ => by rw [hpoint]; exact Point.noConfusion)
          fun _ _ => by rw [hq]; exact Point.noConfusion
    | update cell =>
      rw [if_neg fun h => PlayAct.noConfusion h.1] at hsaved
      obtain ⟨hpoint, -, fuel, r, hr, hq⟩ := mainStep_update hmain
      exact h.between hok (by rw [hq]) (by rw [hq]) hsaved
        (by rw [hq]; exact h.balance.update h.marked hr)
        (fun _ _ => by rw [hpoint]; exact Point.noConfusion)
        fun _ _ => by rw [hq]; exact Point.noConfusion
    | ticks =>
      rw [if_neg fun h => PlayAct.noConfusion h.1] at hsaved
      obtain ⟨hpoint, hq⟩ := mainStep_ticks hmain
      rw [h.ok.added, if_neg Bool.false_ne_true] at hq
      refine h.between hok (by rw [hq]) (by rw [hq]) hsaved (by rw [hq]; exact hfair)
        (fun _ _ => by rw [hpoint]; exact Point.noConfusion) fun _ _ => ?_
      rw [hq]
      dsimp only
      split <;> exact Point.noConfusion
    | redraw =>
      rw [if_neg fun h => PlayAct.noConfusion h.1] at hsaved
      obtain ⟨hpoint, hq⟩ := mainStep_redraw hmain
      obtain ⟨w, hw⟩ := redrawScreen_eq s.play.game
      rw [hw] at hq
      exact h.between hok (by rw [hq]) (by rw [hq]) hsaved (by rw [hq]; exact hfair)
        (fun _ _ => by rw [hpoint]; exact Point.noConfusion)
        fun _ _ => by rw [hq]; exact Point.noConfusion

/-- **A move is lost in part.** The power is cut after one of the two boxes of a move was written
and before the other. -/
theorem midSave_loses (h : SessionOk inode m s) {j k : Fin 9} (hj : s.saved j = emptyText)
    (hk : Function.update s.saved j playerText k = emptyText)
    (hmove : s.play.game.text =
      Function.update (Function.update s.saved j playerText) k computerText)
    (hcut : ¬CleanOff s .off) : ¬OneMoreX (fileBoard inode s.play.kernel.disk) := by
  have hne : k ≠ j := by
    rintro rfl
    rw [Function.update_self] at hk
    exact absurd hk (by decide)
  have hk' : s.saved k = emptyText := by rwa [Function.update_of_ne hne] at hk
  -- the boxes that the save changes are `j` and `k`
  have hchanged (i : Fin 9) (hi : s.saved i ≠ s.play.game.text i) : i = j ∨ i = k := by
    by_contra hother
    obtain ⟨hij, hik⟩ := not_or.mp hother
    rw [hmove, Function.update_of_ne hik, Function.update_of_ne hij] at hi
    exact hi rfl
  simp only [CleanOff, true_implies, not_or, not_forall] at hcut
  obtain ⟨⟨i, hi, hdiff⟩, i', hi', hdiff'⟩ := hcut
  have hboard := h.board
  have hfile (n : Fin 9) (hn : i = n) (c : UInt8) (hc : s.play.game.text n = c) :
      fileBoard inode s.play.kernel.disk = Function.update s.saved n c := by
    funext x
    rcases eq_or_ne x n with rfl | hx
    · rw [Function.update_self, hboard, if_pos (hn ▸ hi), hc]
    · rw [Function.update_of_ne hx, hboard]
      split
      · next hlt =>
        by_contra hchange
        have hx' := hchanged x (Ne.symm hchange)
        have hin := hchanged i hdiff
        have hin' := hchanged i' hdiff'
        omega
      · rfl
  rcases hchanged i hdiff with rfl | rfl
  · rw [hfile i rfl playerText (by rw [hmove, Function.update_of_ne hne.symm,
      Function.update_self]), OneMoreX, h.saved.player hj]
    exact Nat.ne_of_lt (Nat.lt_succ_self _)
  · have hX := @boxesWith_update s.saved i computerText computerText
    have hO := @boxesWith_update s.saved i playerText computerText
    have hsaved := h.saved
    rw [hk', if_neg (by decide), if_pos rfl] at hX
    rw [hk', if_neg (by decide), if_neg (by decide)] at hO
    rw [OneMoreX] at hsaved
    rw [hfile i rfl computerText (by rw [hmove, Function.update_self]), OneMoreX]
    omega

theorem SessionOk.run {l : List SessionAct} (h : SessionOk inode m s)
    (hrun : Run (Guarded CleanOff SessionStep) s l s') : SessionOk inode m s' :=
  hrun.invariant (fun _ _ _ hs hstep => hs.step hstep.1 hstep.2) h

end Session

/-- **The saved game survives**, unless the power is cut between two boxes that a save changes: in
every run in which that does not happen there is one `X` more than there are `O`s, also on a board
that is loaded again, and the search for the computer's box ends. -/
theorem savedGame_run (stray : ℤ → UInt32) (junk : Mem) (key_state : ℤ → KeyState) (k : Kernel)
    (now : ℤ) {d : Disk} {inode : Sector} {m : ℕ} (hb : Booted d k) (hf : GameFile inode m d)
    (hfile : OneMoreX (fileBoard inode d)) {l : List SessionAct} {s : Session}
    (h : Run (Guarded CleanOff SessionStep)
      (sessionOf (playStart stray junk key_state k now)) l s) :
    OneMoreX s.play.game.text ∧
      (∀ s', Guarded CleanOff SessionStep s .off s' → OneMoreX s'.play.game.text) ∧
      ∀ j, playerCell s.play.game = some j →
        (∃ i, Function.update s.play.game.text j playerText i = emptyText) ∧
          ∃ fuel r, updateKeypress fuel s.play.game = some r := by
  have hok : SessionOk inode m s := (SessionOk.start hb hf hfile).run h
  refine ⟨hok.balance, fun s' hstep => (hok.step hstep.1 hstep.2).balance, fun j hj => ?_⟩
  have hroom := hok.balance.room hok.marked (playerCell_eq_some hj).1
  obtain ⟨fuel, r, hr⟩ := exists_computerMove s.play.game.seed hroom
  refine ⟨hroom, fuel, finishUpdate (some j) { s.play.game with text := r.1, seed := r.2 }, ?_⟩
  simp only [updateKeypress, hj, hr, Option.map_some]

/-! ## Two sessions -/

theorem booted_freshKernel (d : Disk) : Booted d (freshKernel (d 257) d) :=
  ⟨⟨rfl, rfl⟩, fun _ _ _ => rfl, 0, freeFd_freshKernel ..⟩

theorem allocated_oneFileInode : Allocated oneFileInode 1 := by
  refine ⟨by decide, fun j hj => ?_, fun j hj hlt => ?_⟩
  · obtain rfl : j = 0 := by omega
    rw [oneFileInode, dataBlockOffset_set_self _ (by decide)]
    decide
  · rw [oneFileInode, dataBlockOffset_set_of_ne _ (by omega), dataBlockOffset_emptyInode hlt]

theorem gameFile_gameDisk (file : Board) : GameFile oneFileInode 1 (gameDisk file) := by
  have hblock : (dataBlockOffset oneFileInode 0).toNat + 1 = 289 := by
    rw [oneFileInode, dataBlockOffset_set_self _ (by decide)]
    rfl
  refine ⟨Nat.one_pos, allocated_oneFileInode, fun i hi j hj _ => by omega, fun d hd k hk => ?_⟩
  have hkept : ∀ b, b ≠ 289 → d b = gameDisk file b := fun b hb => hd b fun j hj => by
    obtain rfl : j = 0 := by omega
    rwa [hblock]
  have hdirect : k.direct = gameDir := hk.direct.trans (hkept 257 (by decide))
  have hfind : (findSlot 16 fun i => strcmpEq (filename gameDir i.toNat) gameLoad) = some 0 := by
    decide
  have hinode : readInode k.disk (int32 (inodeOffset gameDir (0 : ℤ).toNat).toNat) = k.disk 258 :=
    rfl
  rw [fileInode, hdirect, hfind, Option.map_some, hinode, hk.disk, hkept 258 (by decide)]
  rfl

/-- A step with enough fuel, and a start from the disk. -/
def Session.next (s : Session) : SessionAct → Option Session
  | .play a => (s.play.next a).map fun q =>
    ⟨q, if a = .write ∧ s.play.point.written = 8 then s.play.game.text else s.saved⟩
  | .off => some (sessionOf (playStart (fun _ => 0) (fun _ => 0) (fun _ => .empty)
    (freshKernel (s.play.kernel.disk 257) s.play.kernel.disk) 1))

theorem sessionStep_next (s : Session) (a : SessionAct) (s' : Session) (h : s.next a = some s') :
    SessionStep s a s' := by
  cases a with
  | play a =>
    obtain ⟨q, hq, rfl⟩ := Option.map_eq_some_iff.mp h
    exact ⟨mainStep_next _ _ _ hq, rfl⟩
  | off => exact ⟨_, _, _, _, _, booted_freshKernel _, (Option.some.inj h).symm⟩

instance (s : Session) (a : SessionAct) : Decidable (CleanOff s a) :=
  match a with
  | .play _ => isTrue fun h => SessionAct.noConfusion h
  | .off => decidable_of_iff ((∀ j : Fin 9, (j : ℕ) < s.play.point.written →
      s.saved j = s.play.game.text j) ∨
      ∀ j : Fin 9, s.play.point.written ≤ j → s.saved j = s.play.game.text j)
    ⟨fun h _ => h, fun h => h rfl⟩

/-- The player takes box 1, the computer takes box 3, and a save starts. -/
def firstMove : List PlayAct :=
  [.event 0x02, .time 2 2, .report 0x02, .returns true, .report 0xff, .returns false,
    .update (some 0), .seek]

/-- The power is cut when `n` boxes are written. -/
def quitRun (n : ℕ) : List SessionAct :=
  firstMove.map .play ++ List.replicate n (.play .write) ++ [.off]

theorem savedGame_run_quit : ∃ s, Run (Guarded CleanOff SessionStep)
    (sessionOf (sessionStart shippedFile)) (quitRun 9) s ∧ OneMoreX s.play.game.text := by
  have hsome : ((quitRun 9).foldlM (guardedBy CleanOff Session.next)
      (sessionOf (sessionStart shippedFile))).isSome = true := by decide +kernel
  obtain ⟨s, hs⟩ := Option.isSome_iff_exists.mp hsome
  have hrun := Run.of_guardedBy sessionStep_next hs
  exact ⟨s, hrun, (savedGame_run _ _ _ _ _ (booted_freshKernel (gameDisk shippedFile))
    (gameFile_gameDisk shippedFile) (by decide +kernel) hrun).1⟩

/-- **The first box only.** The player's `O` is saved, and the computer's `X` is not. -/
theorem quitRun_loses : OneMoreX (sessionStart shippedFile).game.text ∧
    ∃ s, Run SessionStep (sessionOf (sessionStart shippedFile)) (quitRun 1) s ∧
      ¬OneMoreX s.play.game.text := by
  have hlost : (((quitRun 1).foldlM Session.next (sessionOf (sessionStart shippedFile))).any
      fun s => ¬OneMoreX s.play.game.text) = true := by decide +kernel
  obtain ⟨s, hs, hbalance⟩ := (Option.any_eq_true ..).mp hlost
  exact ⟨by decide +kernel, s, (Run.of_foldlM hs).mono sessionStep_next,
    of_decide_eq_true hbalance⟩

end OsLab
