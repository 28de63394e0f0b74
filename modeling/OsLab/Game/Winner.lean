import OsLab.Game.Play
import OsLab.Lib.Before

/-!
# The winner

A game goes on when a line is complete, and the winner is not looked for after each move but when
the screen is drawn. `redraw_screen` looks for the player's line first. When both have a line by
then, it declares the player, whoever was first.

The history of a game is the list of its boards, one for each single move, since the last reset or
since the board was loaded. A box that is taken stays taken, so lines stay, and who was first can be
read off the history (`Before`).

## Main definitions

* `Match` — a run of the game with its history
* `MatchStep` — a step of the game with its history
* `WinnerRight` — the declared winner was first
* `Overtakes` — the move completes the player's first line, and the computer has a line that has not
  been declared yet
* `NoOvertaking` — the player does not overtake the computer
* `MatchOk` — what holds of a game and its history

## Main results

* `winner_run` — the declared winner was first, in every run in which the player does not complete
  his first line while a line of the computer has not been declared yet
* `overtakes_breaks` — after such a move `redraw_screen` declares the player, who was not first
-/

namespace OsLab

/-- A run of the game with its history. -/
structure Match where
  play : Play
  /-- the boards since the last reset, the latest first -/
  boards : List Board

/-- What a step from `p` to `q` adds to the history. -/
def record (p : Play) (a : PlayAct) (q : Play) (boards : List Board) : List Board :=
  match a with
  | .update cell =>
    if queryKey 9 p.game then [startBoard]
    else
      match cell with
      | some j => q.game.text :: Function.update p.game.text j playerText :: boards
      | none => boards
  | .ticks => if p.game.has_added then [startBoard] else boards
  | _ => boards

section Record

variable {p q : Play} {boards : List Board}

theorem record_reset (cell : Option (Fin 9)) (h : queryKey 9 p.game = true) :
    record p (.update cell) q boards = [startBoard] := if_pos h

theorem record_none (h : queryKey 9 p.game = false) : record p (.update none) q boards = boards :=
  if_neg (by rw [h]; exact Bool.false_ne_true)

theorem record_some (j : Fin 9) (h : queryKey 9 p.game = false) :
    record p (.update (some j)) q boards =
      q.game.text :: Function.update p.game.text j playerText :: boards :=
  if_neg (by rw [h]; exact Bool.false_ne_true)

theorem record_ticks (h : p.game.has_added = false) : record p .ticks q boards = boards :=
  if_neg (by rw [h]; exact Bool.false_ne_true)

end Record

/-- A step of the game with its history. -/
def MatchStep (m : Match) (a : PlayAct) (m' : Match) : Prop :=
  MainStep m.play a m'.play ∧ m'.boards = record m.play a m'.play m.boards

/-- The history starts with the board that was loaded. -/
def matchStart (p : Play) : Match := ⟨p, [p.game.text]⟩

/-- **The declared winner was first.** -/
structure WinnerRight (m : Match) : Prop where
  player : m.play.game.winner = 1 → Before (HasLine playerText) (HasLine computerText) m.boards
  computer : m.play.game.winner = 2 → Before (HasLine computerText) (HasLine playerText) m.boards

/-- The move completes the player's first line, and the computer has a line that has not been
declared yet. -/
def Overtakes (p : Play) (a : PlayAct) : Prop :=
  ∃ j, a = .update (some j) ∧ queryKey 9 p.game = false ∧ p.game.winner = 0 ∧
    HasLine computerText p.game.text ∧ ¬HasLine playerText p.game.text ∧
    HasLine playerText (Function.update p.game.text j playerText)

/-! ## Lines -/

section Lines

variable {c c' : UInt8} {b b' : Board} {k : Fin 9}

/-- A line stays where boxes that are taken stay taken. -/
theorem HasLine.mono (h : HasLine c b) (hc : c ≠ emptyText)
    (hb : ∀ i, b i ≠ emptyText → b' i = b i) : HasLine c b' := by
  have hkeep (i : Fin 9) (hi : b i = c) : b' i = c := (hb i (hi ▸ hc)).trans hi
  obtain ⟨l, hl, h₁, h₂, h₃⟩ := h
  exact ⟨l, hl, hkeep _ h₁, hkeep _ h₂, hkeep _ h₃⟩

/-- Another character in one box makes no line. -/
theorem HasLine.of_update (h : HasLine c (Function.update b k c')) (hne : c' ≠ c) :
    HasLine c b := by
  have hkeep (i : Fin 9) (hi : Function.update b k c' i = c) : b i = c := by
    rcases eq_or_ne i k with rfl | hik
    · rw [Function.update_self] at hi
      exact absurd hi hne
    · rwa [Function.update_of_ne hik] at hi
  obtain ⟨l, hl, h₁, h₂, h₃⟩ := h
  exact ⟨l, hl, hkeep _ h₁, hkeep _ h₂, hkeep _ h₃⟩

/-- A move in an empty box leaves the others. -/
theorem update_keeps (hk : b k = emptyText) (i : Fin 9) (hi : b i ≠ emptyText) :
    Function.update b k c i = b i :=
  Function.update_of_ne (fun h => hi (by rw [h]; exact hk)) ..

end Lines

/-! ## Declaring the winner -/

section Declare

variable {g : Game}

theorem redrawScreen_player (hline : HasLine playerText g.text) (hwinner : g.winner ≠ 2) :
    (redrawScreen g).winner = 1 := by
  simp [redrawScreen, winpCheck, hline, hwinner]

theorem redrawScreen_computer (hplayer : ¬(HasLine playerText g.text ∧ g.winner ≠ 2))
    (hcomputer : HasLine computerText g.text ∧ g.winner ≠ 1) : (redrawScreen g).winner = 2 := by
  simp [redrawScreen, winpCheck, wincCheck, hplayer, hcomputer]

theorem redrawScreen_nobody (hplayer : ¬(HasLine playerText g.text ∧ g.winner ≠ 2))
    (hcomputer : ¬(HasLine computerText g.text ∧ g.winner ≠ 1)) :
    (redrawScreen g).winner = g.winner := by
  simp [redrawScreen, winpCheck, wincCheck, hplayer, hcomputer]

end Declare

/-! ## The invariant -/

/-- What holds of a game and its history. -/
structure MatchOk (m : Match) : Prop where
  ok : PlayOk m.play
  head : ∃ older, m.boards = m.play.game.text :: older
  /-- Boxes that were taken are taken. -/
  grows : ∀ b ∈ m.boards, ∀ i, b i ≠ emptyText → m.play.game.text i = b i
  winner : m.play.game.winner = 0 ∨ m.play.game.winner = 1 ∨ m.play.game.winner = 2
  /-- A line of the player that has not been declared yet was first. -/
  undeclared : m.play.game.winner = 0 → HasLine playerText m.play.game.text →
    Before (HasLine playerText) (HasLine computerText) m.boards
  right : WinnerRight m

section Invariant

variable {m m' : Match}

/-- A line that is not there now never was. -/
theorem MatchOk.noLine (h : MatchOk m) {c : UInt8} (hc : c ≠ emptyText)
    (hline : ¬HasLine c m.play.game.text) : ∀ b ∈ m.boards, ¬HasLine c b :=
  fun b hb hlineb => hline (hlineb.mono hc (h.grows b hb))

/-- A board that is the first of its history. -/
theorem MatchOk.fresh {p : Play} (hok : PlayOk p) (hwinner : p.game.winner = 0)
    (hlines : ¬(HasLine playerText p.game.text ∧ HasLine computerText p.game.text)) :
    MatchOk ⟨p, [p.game.text]⟩ where
  ok := hok
  head := ⟨[], rfl⟩
  grows b hb i _ := by rw [List.mem_singleton.mp hb]
  winner := .inl hwinner
  undeclared _ hline := Before.head hline fun b hb => by
    rw [List.mem_singleton.mp hb]
    exact fun hcomputer => hlines ⟨hline, hcomputer⟩
  right := ⟨fun h => absurd (hwinner.symm.trans h) (by decide),
    fun h => absurd (hwinner.symm.trans h) (by decide)⟩

/-- Steps that do not change the board, and declare at most the one that was first. -/
theorem MatchOk.declare (h : MatchOk m) (hok : PlayOk m'.play) (hboards : m'.boards = m.boards)
    (htext : m'.play.game.text = m.play.game.text)
    (hwinner : m'.play.game.winner = m.play.game.winner ∨
      m'.play.game.winner = 1 ∧ Before (HasLine playerText) (HasLine computerText) m.boards ∨
      m'.play.game.winner = 2 ∧ Before (HasLine computerText) (HasLine playerText) m.boards) :
    MatchOk m' := by
  have hhead : ∃ older, m'.boards = m'.play.game.text :: older := by
    rw [hboards, htext]
    exact h.head
  have hgrows : ∀ b ∈ m'.boards, ∀ i, b i ≠ emptyText → m'.play.game.text i = b i := by
    rw [hboards, htext]
    exact h.grows
  rcases hwinner with hsame | ⟨hone, hfirst⟩ | ⟨htwo, hfirst⟩
  · refine ⟨hok, hhead, hgrows, hsame ▸ h.winner, ?_, ?_, ?_⟩ <;> rw [hboards]
    · rw [hsame, htext]
      exact h.undeclared
    · rw [hsame]
      exact h.right.player
    · rw [hsame]
      exact h.right.computer
  · refine ⟨hok, hhead, hgrows, .inr (.inl hone), fun hzero => ?_, fun _ => hboards ▸ hfirst,
      fun htwo => ?_⟩
    · exact absurd (hone.symm.trans hzero) (by decide)
    · exact absurd (hone.symm.trans htwo) (by decide)
  · refine ⟨hok, hhead, hgrows, .inr (.inr htwo), fun hzero => ?_, fun hone => ?_,
      fun _ => hboards ▸ hfirst⟩
    · exact absurd (htwo.symm.trans hzero) (by decide)
    · exact absurd (htwo.symm.trans hone) (by decide)

/-- **The moves** of the player in box `j` and of the computer in box `k`. -/
theorem MatchOk.moved (h : MatchOk m) (hok : PlayOk m'.play) {j k : Fin 9}
    (hj : m.play.game.text j = emptyText)
    (hk : Function.update m.play.game.text j playerText k = emptyText)
    (htext : m'.play.game.text =
      Function.update (Function.update m.play.game.text j playerText) k computerText)
    (hboards : m'.boards =
      m'.play.game.text :: Function.update m.play.game.text j playerText :: m.boards)
    (hwinner : m'.play.game.winner = m.play.game.winner)
    (hfirst : m.play.game.winner = 0 → HasLine computerText m.play.game.text →
      HasLine playerText (Function.update m.play.game.text j playerText) →
      HasLine playerText m.play.game.text) : MatchOk m' := by
  have hcells (b : Board) (hb : b ∈ m'.boards) (i : Fin 9) (hi : b i ≠ emptyText) :
      m'.play.game.text i = b i := by
    rw [hboards] at hb
    rcases List.mem_cons.mp hb with rfl | hb
    · rfl
    · rw [htext]
      rcases List.mem_cons.mp hb with rfl | hb
      · exact update_keeps hk i hi
      · have hold := h.grows b hb i hi
        have hplayer := update_keeps (c := playerText) hj i (hold ▸ hi)
        rw [update_keeps hk i (by rw [hplayer, hold]; exact hi), hplayer, hold]
  have hcons {P Q : Board → Prop} (hbefore : Before P Q m.boards) : Before P Q m'.boards := by
    rw [hboards]
    exact (hbefore.cons _).cons _
  refine ⟨hok, ⟨_, hboards⟩, hcells, hwinner ▸ h.winner, fun hzero hline => ?_,
    fun hone => hcons (h.right.player (hwinner ▸ hone)),
    fun htwo => hcons (h.right.computer (hwinner ▸ htwo))⟩
  rw [hwinner] at hzero
  rw [htext] at hline
  have hplayer := hline.of_update (by decide)
  by_cases hbefore : HasLine playerText m.play.game.text
  · exact hcons (h.undeclared hzero hbefore)
  · -- the player's first line: the computer has none yet
    have hnone : ¬HasLine computerText m.play.game.text :=
      fun hcomputer => hbefore (hfirst hzero hcomputer hplayer)
    rw [hboards]
    refine (Before.head hplayer fun b hb => ?_).cons _
    rcases List.mem_cons.mp hb with rfl | hb
    · exact fun hcomputer => hnone (hcomputer.of_update (by decide))
    · exact h.noLine (by decide) hnone b hb

/-- **`redraw_screen`** declares the player if he has a line, and the computer if only it has. -/
theorem MatchOk.redrawn (h : MatchOk m) (hok : PlayOk m'.play) (hboards : m'.boards = m.boards)
    (hgame : m'.play.game = redrawScreen m.play.game) : MatchOk m' := by
  obtain ⟨w, hw⟩ := redrawScreen_eq m.play.game
  refine h.declare hok hboards (by rw [hgame, hw]) ?_
  rw [hgame]
  by_cases hplayer : HasLine playerText m.play.game.text ∧ m.play.game.winner ≠ 2
  · refine .inr (.inl ⟨redrawScreen_player hplayer.1 hplayer.2, ?_⟩)
    rcases h.winner with hzero | hone | htwo
    · exact h.undeclared hzero hplayer.1
    · exact h.right.player hone
    · exact absurd htwo hplayer.2
  · by_cases hcomputer : HasLine computerText m.play.game.text ∧ m.play.game.winner ≠ 1
    · refine .inr (.inr ⟨redrawScreen_computer hplayer hcomputer, ?_⟩)
      rcases h.winner with hzero | hone | htwo
      · have hnone : ¬HasLine playerText m.play.game.text :=
          fun hline => hplayer ⟨hline, by omega⟩
        obtain ⟨older, hhead⟩ := h.head
        have hnever := h.noLine (by decide) hnone
        rw [hhead] at hnever ⊢
        exact Before.head hcomputer.1 hnever
      · exact absurd hone hcomputer.2
      · exact h.right.computer htwo
    · exact .inl (redrawScreen_nobody hplayer hcomputer)

/-- **Every step**, unless the player overtakes the computer. -/
theorem MatchOk.step (h : MatchOk m) {a : PlayAct} (hlate : ¬Overtakes m.play a)
    (hstep : MatchStep m a m') : MatchOk m' := by
  have hok := h.ok.step hstep.1
  have hboards := hstep.2
  have hmain := hstep.1
  cases a with
  | update cell =>
    obtain ⟨-, rfl, fuel, r, hr, hq⟩ := mainStep_update hmain
    have hgame : m'.play.game = r.2 := by rw [hq]
    cases henter : queryKey 9 m.play.game with
    | true =>
      obtain ⟨seed, hreset⟩ := updateKeypress_reset hr henter
      rw [hreset] at hgame
      obtain ⟨play', boards'⟩ := m'
      obtain rfl : boards' = [startBoard] := hboards.trans (record_reset _ henter)
      have htext : play'.game.text = startBoard := congrArg Game.text hgame
      rw [← htext]
      exact MatchOk.fresh hok (congrArg Game.winner hgame) (by rw [htext]; decide)
    | false =>
      obtain ⟨text, flags, seed, hkeep, hmoved, -⟩ := updateKeypress_keep hr henter
      rw [hkeep] at hgame
      have hwinner : m'.play.game.winner = m.play.game.winner := by rw [hgame]
      have htext : m'.play.game.text = text := by rw [hgame]
      obtain ⟨hcell, rfl⟩ | ⟨j, k, hcell, hk, rfl⟩ := hmoved
      · rw [hcell, record_none henter] at hboards
        exact h.declare hok hboards htext (.inl hwinner)
      · rw [hcell, record_some j henter] at hboards
        refine h.moved hok (playerCell_eq_some hcell).1 hk htext hboards hwinner ?_
        intro hzero hcomputer hplayer
        by_contra hnone
        exact hlate ⟨j, by rw [hcell], henter, hzero, hcomputer, hnone, hplayer⟩
  | ticks =>
    obtain ⟨-, hq⟩ := mainStep_ticks hmain
    rw [h.ok.added, if_neg Bool.false_ne_true] at hq
    rw [record_ticks h.ok.added] at hboards
    exact h.declare hok hboards (by rw [hq]) (.inl (by rw [hq]))
  | redraw =>
    obtain ⟨-, hq⟩ := mainStep_redraw hmain
    exact h.redrawn hok hboards (by rw [hq])
  | event key_code =>
    have hq := mainStep_event hmain
    exact h.declare hok hboards (by rw [hq]) (.inl (by rw [hq]))
  | report code =>
    obtain ⟨-, -, -, hq⟩ := mainStep_report hmain
    exact h.declare hok hboards (by rw [hq]) (.inl (by rw [hq]))
  | returns b =>
    obtain ⟨code, -, -, -, hq⟩ := mainStep_returns hmain
    exact h.declare hok hboards (by rw [hq]) (.inl (by rw [hq]))
  | time first target =>
    obtain ⟨-, hq | hq⟩ := mainStep_time hmain <;>
      exact h.declare hok hboards (by rw [hq]) (.inl (by rw [hq]))
  | seek =>
    obtain ⟨redrawn, stray, junk, -, hq⟩ := mainStep_seek hmain
    exact h.declare hok hboards (by rw [hq]) (.inl (by rw [hq]))
  | write =>
    obtain ⟨redrawn, i, stray, junk, -, hq⟩ := mainStep_write hmain
    exact h.declare hok hboards (by rw [hq]) (.inl (by rw [hq]))

end Invariant

/-! ## Runs -/

/-- The player does not overtake the computer. -/
def NoOvertaking (m : Match) (a : PlayAct) : Prop := ¬Overtakes m.play a

section Run

variable {m m' : Match} {a : PlayAct} {l : List PlayAct}

theorem MatchOk.run (h : MatchOk m) (hrun : Run (Guarded NoOvertaking MatchStep) m l m') :
    MatchOk m' :=
  hrun.invariant (fun _ _ _ hs hstep => hs.step hstep.1 hstep.2) h

/-- **The winner stays** until the game is reset. -/
theorem MatchOk.winner_stays (h : MatchOk m) (hwinner : m.play.game.winner ≠ 0)
    (hstep : MatchStep m a m') (hreset : ¬Resets m.play a) :
    m'.play.game.winner = m.play.game.winner := by
  have hmain := hstep.1
  cases a with
  | update cell =>
    obtain ⟨-, rfl, fuel, r, hr, hq⟩ := mainStep_update hmain
    have henter : queryKey 9 m.play.game = false :=
      Bool.eq_false_iff.mpr fun h => hreset ⟨⟨_, rfl⟩, h⟩
    obtain ⟨text, flags, seed, hkeep, -⟩ := updateKeypress_keep hr henter
    rw [hq, hkeep]
  | redraw =>
    obtain ⟨-, hq⟩ := mainStep_redraw hmain
    rw [hq]
    rcases h.winner with hzero | hone | htwo
    · exact absurd hzero hwinner
    · rw [hone]
      by_cases hline : HasLine playerText m.play.game.text
      · exact redrawScreen_player hline (by rw [hone]; decide)
      · rw [redrawScreen_nobody (fun h => hline h.1) fun h => h.2 hone, hone]
    · rw [htwo]
      by_cases hline : HasLine computerText m.play.game.text
      · exact redrawScreen_computer (fun h => h.2 htwo) ⟨hline, by rw [htwo]; decide⟩
      · rw [redrawScreen_nobody (fun h => h.2 htwo) fun h => hline h.1, htwo]
  | ticks =>
    obtain ⟨-, hq⟩ := mainStep_ticks hmain
    rw [h.ok.added, if_neg Bool.false_ne_true] at hq
    rw [hq]
  | event key_code => rw [mainStep_event hmain]
  | report code =>
    obtain ⟨-, -, -, hq⟩ := mainStep_report hmain
    rw [hq]
  | returns b =>
    obtain ⟨code, -, -, -, hq⟩ := mainStep_returns hmain
    rw [hq]
  | time first target => obtain ⟨-, hq | hq⟩ := mainStep_time hmain <;> rw [hq]
  | seek =>
    obtain ⟨redrawn, stray, junk, -, hq⟩ := mainStep_seek hmain
    rw [hq]
  | write =>
    obtain ⟨redrawn, i, stray, junk, -, hq⟩ := mainStep_write hmain
    rw [hq]

/-- **Overtaking is declared.** After a move that overtakes the computer `redraw_screen` declares
the player, and he was not first. -/
theorem overtakes_breaks (h : MatchOk m) (hover : Overtakes m.play a) (hstep : MatchStep m a m') :
    (redrawScreen m'.play.game).winner = 1 ∧
      ¬Before (HasLine playerText) (HasLine computerText) m'.boards := by
  obtain ⟨j, rfl, henter, hzero, hcomputer, hnone, hplayer⟩ := hover
  obtain ⟨-, hcell, fuel, r, hr, hq⟩ := mainStep_update hstep.1
  obtain ⟨text, flags, seed, hkeep, hmoved, -⟩ := updateKeypress_keep hr henter
  have hboards := hstep.2
  rw [record_some j henter] at hboards
  obtain ⟨hcell', -⟩ | ⟨j', k, hcell', hk, rfl⟩ := hmoved
  · exact absurd (hcell.trans hcell') (Option.some_ne_none j)
  obtain rfl : j = j' := Option.some.inj (hcell.trans hcell')
  constructor
  · refine redrawScreen_player ?_ ?_
    · rw [hq, hkeep]
      exact hplayer.mono (by decide) (update_keeps hk)
    · rw [hq, hkeep, hzero]
      decide
  · obtain ⟨older, hhead⟩ := h.head
    have hnever := h.noLine (by decide) hnone
    have hfirst : Before (HasLine computerText) (HasLine playerText) m.boards := by
      rw [hhead] at hnever ⊢
      exact Before.head hcomputer hnever
    rw [hboards]
    exact fun hplayerFirst => hplayerFirst.asymm ((hfirst.cons _).cons _)

end Run

/-- **The declared winner completed a line first**, in every run in which the player does not
complete his first line while the computer has a line that has not been declared; and once declared
the winner stays until the next reset. -/
theorem winner_run (stray : ℤ → UInt32) (junk : Mem) (key_state : ℤ → KeyState) (k : Kernel)
    (now : ℤ)
    (hload : ¬(HasLine playerText (playStart stray junk key_state k now).game.text ∧
      HasLine computerText (playStart stray junk key_state k now).game.text))
    {l : List PlayAct} {m : Match}
    (h : Run (Guarded NoOvertaking MatchStep)
      (matchStart (playStart stray junk key_state k now)) l m) :
    WinnerRight m ∧ ∀ a m', m.play.game.winner ≠ 0 → MatchStep m a m' → ¬Resets m.play a →
      m'.play.game.winner = m.play.game.winner := by
  have hstart : MatchOk (matchStart (playStart stray junk key_state k now)) :=
    MatchOk.fresh (playOk_start stray junk key_state k now) rfl hload
  have hok := hstart.run h
  exact ⟨hok.right, fun a m' hwinner hstep hreset => hok.winner_stays hwinner hstep hreset⟩

/-! ## Two matches -/

instance (p : Play) (a : PlayAct) : Decidable (Overtakes p a) :=
  inferInstanceAs (Decidable (∃ _ : Fin 9, _))

instance (m : Match) (a : PlayAct) : Decidable (NoOvertaking m a) :=
  inferInstanceAs (Decidable (¬Overtakes m.play a))

/-- A step of `Play.next`, with the history. -/
def Match.next (m : Match) (a : PlayAct) : Option Match :=
  (m.play.next a).map fun q => ⟨q, record m.play a q m.boards⟩

theorem matchStep_next (m : Match) (a : PlayAct) (m' : Match) (h : m.next a = some m') :
    MatchStep m a m' := by
  obtain ⟨q, hq, rfl⟩ := Option.map_eq_some_iff.mp h
  exact ⟨mainStep_next _ _ _ hq, rfl⟩

/-- The player has boxes 1 and 4, and the computer 2, 5 and 6. -/
def midGame : Board := fun i =>
  if i = 0 ∨ i = 3 then playerText else if i = 1 ∨ i = 4 ∨ i = 5 then computerText else emptyText

/-- The key with scan code `code` is pressed, and the loop comes round at time `t`: the player takes
box `j + 1`. -/
def pressRun (code t : ℤ) (j : Fin 9) : List PlayAct :=
  [.event code, .time t t, .report code, .returns true, .report 0xff, .returns false,
    .update (some j)]

/-- The player takes box 7, and the screen is drawn. -/
def columnRun : List PlayAct := pressRun 0x08 34 6 ++ saves ++ [.ticks, .redraw]

theorem winner_run_column : ∃ m,
    Run (Guarded NoOvertaking MatchStep) (matchStart (sessionStart midGame)) columnRun m ∧
      WinnerRight m := by
  have hsome : (columnRun.foldlM (guardedBy NoOvertaking Match.next)
      (matchStart (sessionStart midGame))).isSome = true := by decide +kernel
  obtain ⟨m, hm⟩ := Option.isSome_iff_exists.mp hsome
  have hrun := Run.of_guardedBy matchStep_next hm
  exact ⟨m, hrun, (winner_run _ _ _ _ _ (by decide +kernel) hrun).1⟩

/-- The player takes box 3, and the computer box 8 and with it a column. The player takes box 7 and
has a column too when the screen is drawn. -/
def lateRun : List PlayAct := pressRun 0x04 2 2 ++ saves ++ .ticks :: columnRun

/-- **The second is declared.** -/
theorem lateRun_declares : ∃ m, Run MatchStep (matchStart (sessionStart midGame)) lateRun m ∧
    ¬WinnerRight m := by
  have hlate : ((lateRun.foldlM Match.next (matchStart (sessionStart midGame))).any fun m =>
      m.play.game.winner = 1 ∧ ¬Before (HasLine playerText) (HasLine computerText) m.boards) =
      true := by decide +kernel
  obtain ⟨m, hm, hdeclared⟩ := (Option.any_eq_true ..).mp hlate
  obtain ⟨hone, hfirst⟩ := of_decide_eq_true hdeclared
  exact ⟨m, (Run.of_foldlM hm).mono matchStep_next, fun h => hfirst (h.player hone)⟩

end OsLab
