import OsLab.Device.Keyboard
import OsLab.FileSystem.OpenContract
import OsLab.FileSystem.ReadWrite
import OsLab.Game.ComputerMove

/-!
# The game

Noughts and crosses against the computer: the functions of `effect.c`, `game.c` and `draw.c` that
change the game, and `main_loop`, which calls them. The loop polls the keyboard, makes a move, saves
the board with nine calls of `write`, catches up with the timer, and when a frame is due it looks
for a winner and saves the board again.

A state of the loop says which of these comes next (`Point`). `exec` does it. Interrupts of the
keyboard come at any point. The search of `update_keypress` gets fuel, and a step is one that some
amount of fuel is enough for (`MainStep`).

The coordinates of the boxes, the frame counter and what is drawn or printed are left out: nothing
here depends on them.

## Main definitions

* `Game` — the game's variables
* `Point` — what comes next in `main_loop`
* `Play` — the game, the keyboard, the file system and `main_loop`
* `Play.exec` — one step of `main_loop`, or an interrupt; `none` where that does not come next, or
  where the fuel does not suffice
* `MainStep` — a step of `main_loop`
* `PlayOk` — what holds in front of every step of `main_loop`

## Main results

* `releaseKeys_apply` — `release_key` for 0 to 9 clears the flags of keys 1 to 8
* `updateKeypress_cases` — what a call of `update_keypress` does
-/

namespace OsLab

/-! ## The functions -/

/-- There is a box 0. -/
instance boxes_ne_zero : NeZero 9 := ⟨by decide⟩

/-- `'O'` -/
def playerText : UInt8 := 79

/-- The game's variables. -/
structure Game where
  /-- `box[j].text` -/
  text : Board
  /-- `box[j].index` -/
  index : Fin 9 → ℤ
  winner : ℤ
  has_added : Bool
  flags : KeyFlags
  seed : UInt32

/-- `query_key` -/
def queryKey (index : ℤ) (g : Game) : Bool := g.flags.letter_pressed index

/-- `for(i = 0; i <= 9; i ++) release_key(i);` -/
def releaseKeys (f : KeyFlags) : KeyFlags := forRange 0 10 releaseKey f

/-- `initial_game` -/
def initialGame (g : Game) : Game :=
  { g with
    winner := 0
    has_added := false
    flags := releaseKeys g.flags
    index := fun i => (i : ℕ)
    text := startBoard }

/-- `reset_game` -/
def resetGame (g : Game) : Game :=
  { g with
    winner := 0
    index := fun i => (i : ℕ)
    flags := releaseKeys g.flags
    text := startBoard
    has_added := false }

/-- The lines of the board, in the order of `winp_check`. -/
def boardLines : List (Fin 9 × Fin 9 × Fin 9) :=
  [(0, 1, 2), (3, 4, 5), (6, 7, 8), (0, 4, 8), (2, 4, 6), (0, 3, 6), (1, 4, 7), (2, 5, 8)]

/-- Some line has this character in all of its boxes. -/
def HasLine (c : UInt8) (box : Board) : Prop :=
  ∃ l ∈ boardLines, box l.1 = c ∧ box l.2.1 = c ∧ box l.2.2 = c

instance (c : UInt8) (box : Board) : Decidable (HasLine c box) :=
  inferInstanceAs (Decidable (∃ l ∈ boardLines, _))

/-- `winp_check` -/
def winpCheck (g : Game) : Bool := HasLine playerText g.text

/-- `winc_check` -/
def wincCheck (g : Game) : Bool := HasLine computerText g.text

/-- What `redraw_screen` does to the game. -/
def redrawScreen (g : Game) : Game :=
  let g := if winpCheck g ∧ g.winner ≠ 2 then { g with winner := 1 } else g
  if wincCheck g ∧ g.winner ≠ 1 then { g with winner := 2 } else g

/-- The box of the player's move: the first that is empty and whose key is pressed. -/
def playerCell (g : Game) : Option (Fin 9) :=
  (List.finRange 9).find? fun j => g.text j = emptyText ∧ queryKey (g.index j) g

/-- `update_keypress`, from behind the loop on. -/
def finishUpdate (target : Option (Fin 9)) (g : Game) : Bool × Game :=
  if queryKey 9 g then (true, resetGame { g with has_added := true })
  else
    match target with
    | some j =>
      -- `target` is `j + 1`
      if (j : ℕ) + 1 ≠ 9 then (true, { g with flags := releaseKey (g.index j) g.flags })
      else (false, g)
    | none => (false, g)

/-- `update_keypress`, whose search for the computer's box gets fuel. -/
def updateKeypress (fuel : ℕ) (g : Game) : Option (Bool × Game) :=
  match playerCell g with
  | some j =>
    (computerMove fuel g.seed (Function.update g.text j playerText)).map fun r =>
      finishUpdate (some j) { g with text := r.1, seed := r.2 }
  | none => some (finishUpdate none g)

/-! ### What they do -/

section Functions

variable {g : Game} {fuel : ℕ}

/-- `release_key` takes a scan code, and those of keys 1 to 8 are 2 to 9. -/
theorem releaseKeys_apply (f : KeyFlags) {i : ℤ} (hi : 0 ≤ i) (hlt : i < 10) :
    (releaseKeys f).letter_pressed i = if i < 8 then false else f.letter_pressed i := by
  have hcode := keycodeArray_eq hi hlt
  refine (forRange_induction (P := fun k (f' : KeyFlags) =>
    f'.letter_pressed i = if keycodeArray i < k then false else f.letter_pressed i) (by decide)
      ?_ ?_).trans (if_congr (by split at hcode <;> omega) rfl rfl)
  · intro k f' hk hklt hP
    rw [releaseKey, setKey_apply false k f' hi hlt, hP]
    rcases lt_trichotomy (keycodeArray i) k with hbefore | heq | hafter
    · rw [if_neg (by omega), if_pos hbefore, if_pos (by omega)]
    · rw [if_pos heq, if_pos (by omega)]
    · rw [if_neg (by omega), if_neg (by omega), if_neg (by omega)]
  · rw [if_neg (by split at hcode <;> omega)]

/-- The player's box is empty, and its key is pressed. -/
theorem playerCell_eq_some {j : Fin 9} (h : playerCell g = some j) :
    g.text j = emptyText ∧ queryKey (g.index j) g = true := by
  have hfound := List.find?_some h
  simpa using hfound

/-- With the enter key pressed, the game is reset. -/
theorem finishUpdate_reset (target : Option (Fin 9)) (h : queryKey 9 g = true) :
    (finishUpdate target g).2 = resetGame g := by
  simp only [finishUpdate, if_pos h]
  rfl

/-- Otherwise a flag is cleared, or none. -/
theorem finishUpdate_keep (target : Option (Fin 9)) (h : queryKey 9 g = false) :
    ∃ f : KeyFlags, (finishUpdate target g).2 = { g with flags := f } ∧
      ∀ i, 0 ≤ i → i < 10 → f.letter_pressed i = true → g.flags.letter_pressed i = true := by
  cases target with
  | none => exact ⟨g.flags, by simp only [finishUpdate, h, Bool.false_eq_true, if_false],
      fun i _ _ hpressed => hpressed⟩
  | some j =>
    by_cases hlast : (j : ℕ) + 1 ≠ 9
    · refine ⟨releaseKey (g.index j) g.flags,
        by simp only [finishUpdate, h, Bool.false_eq_true, if_false, if_pos hlast],
        fun i hi hlt hpressed => ?_⟩
      rw [releaseKey, setKey_apply false _ _ hi hlt] at hpressed
      split at hpressed
      · cases hpressed
      · exact hpressed
    · exact ⟨g.flags, by simp only [finishUpdate, h, Bool.false_eq_true, if_false, if_neg hlast],
        fun i _ _ hpressed => hpressed⟩

/-- **A call of `update_keypress`** makes no move, or the player and the computer make one each. -/
theorem updateKeypress_cases {r : Bool × Game} (h : updateKeypress fuel g = some r) :
    (playerCell g = none ∧ r = finishUpdate none g) ∨
      ∃ j k seed, playerCell g = some j ∧ Function.update g.text j playerText k = emptyText ∧
        r = finishUpdate (some j) { g with
          text := Function.update (Function.update g.text j playerText) k computerText
          seed := seed } := by
  rw [updateKeypress] at h
  cases hcell : playerCell g with
  | none =>
    rw [hcell] at h
    exact .inl ⟨rfl, (Option.some.inj h).symm⟩
  | some j =>
    rw [hcell] at h
    obtain ⟨r', hmove, rfl⟩ := Option.map_eq_some_iff.mp h
    obtain ⟨k, hk, htext⟩ := computerMove_eq_some hmove
    exact .inr ⟨j, k, r'.2, rfl, hk, by rw [htext]⟩

/-- `redraw_screen` changes nothing but `winner`. -/
theorem redrawScreen_eq (g : Game) : ∃ w, redrawScreen g = { g with winner := w } := by
  simp only [redrawScreen]
  split <;> split <;> exact ⟨_, rfl⟩

/-- What the moves of one call of `update_keypress` make of the board. -/
def Moved (g : Game) (text : Board) : Prop :=
  (playerCell g = none ∧ text = g.text) ∨
    ∃ j k, playerCell g = some j ∧ Function.update g.text j playerText k = emptyText ∧
      text = Function.update (Function.update g.text j playerText) k computerText

/-- **A call that resets the game**: the enter key is pressed. -/
theorem updateKeypress_reset {r : Bool × Game} (h : updateKeypress fuel g = some r)
    (henter : queryKey 9 g = true) : ∃ seed, r.2 = resetGame { g with seed := seed } := by
  obtain ⟨-, rfl⟩ | ⟨j, k, seed, -, -, rfl⟩ := updateKeypress_cases h
  · exact ⟨g.seed, finishUpdate_reset none henter⟩
  · exact ⟨seed, finishUpdate_reset (some j) henter⟩

/-- **A call that does not.** -/
theorem updateKeypress_keep {r : Bool × Game} (h : updateKeypress fuel g = some r)
    (henter : queryKey 9 g = false) :
    ∃ text flags seed, r.2 = { g with text := text, flags := flags, seed := seed } ∧ Moved g text ∧
      ∀ i, 0 ≤ i → i < 10 → flags.letter_pressed i = true → g.flags.letter_pressed i = true := by
  obtain ⟨hcell, rfl⟩ | ⟨j, k, seed, hcell, hk, rfl⟩ := updateKeypress_cases h
  · obtain ⟨flags, hflags, hpressed⟩ := finishUpdate_keep (g := g) none henter
    exact ⟨g.text, flags, g.seed, hflags, .inl ⟨hcell, rfl⟩, hpressed⟩
  · obtain ⟨flags, hflags, hpressed⟩ := finishUpdate_keep (g := { g with
      text := Function.update (Function.update g.text j playerText) k computerText
      seed := seed }) (some j) henter
    exact ⟨_, flags, seed, hflags, .inr ⟨j, k, hcell, hk, rfl⟩, hpressed⟩

end Functions

/-! ## `main_loop` -/

/-- What comes next in `main_loop`. -/
inductive Point
  /-- the tests of the time -/
  | top
  /-- `process_keys` -/
  | keys
  | update
  /-- `lseek`, behind `update_keypress` or behind `redraw_screen` -/
  | seek (redrawn : Bool)
  /-- the `write` of box `i` -/
  | save (redrawn : Bool) (i : Fin 9)
  /-- `has_added`, and the loop that catches up with the timer -/
  | ticks
  | redraw
  deriving DecidableEq

/-- The game, the keyboard, the file system and `main_loop`. -/
structure Play where
  game : Game
  key_state : ℤ → KeyState
  /-- what `get_kbd` returned to a `process_keys` that is not over yet -/
  get_kbd : Option ℤ
  kernel : Kernel
  fd : ℤ
  point : Point
  now : ℤ
  target : ℤ

/-- What happens. -/
inductive PlayAct
  /-- the keyboard's interrupt -/
  | event (key_code : ℤ)
  /-- `handle_keys` reports a code to `process_keys` -/
  | report (code : ℤ)
  /-- `process_keys` returns -/
  | returns (b : Bool)
  /-- `get_time`, twice -/
  | time (first target : ℤ)
  /-- `update_keypress`, and the player's box -/
  | update (cell : Option (Fin 9))
  | seek
  | write
  | ticks
  | redraw
  deriving DecidableEq

/-- `HZ / FPS` -/
def ticksPerFrame : ℤ := 1000 / 30

/-- `redraw` when the loop has caught up with the timer. -/
def frameDue (now target : ℤ) : Bool :=
  forRange now target (fun t redraw => redraw || t.tmod ticksPerFrame = 0) false

section Exec

variable (stray : ℤ → UInt32) (junk : Mem) (fuel : ℕ)

/-- One step of `main_loop`, or an interrupt; `none` where that does not come next, or where the
fuel does not suffice. -/
def Play.exec (p : Play) : PlayAct → Option Play
  | .event key_code => some { p with key_state := keyboardEvent key_code p.key_state }
  | .report code =>
    if p.point = .keys ∧ p.get_kbd = none ∧ code = (handleKeys p.key_state).1 then
      some { p with key_state := (handleKeys p.key_state).2, get_kbd := some code }
    else none
  | .returns b =>
    match p.get_kbd with
    | some code =>
      if p.point = .keys ∧ b = (processKeys code p.game.flags).1 then
        some { p with
          game := { p.game with flags := (processKeys code p.game.flags).2 }
          get_kbd := none
          point := if b then .keys else .update }
      else none
    | none => none
  | .time first target =>
    if p.point = .top then
      some (if p.now = first then p else { p with target := target, point := .keys })
    else none
  | .update cell =>
    if p.point = .update ∧ cell = playerCell p.game then
      (updateKeypress fuel p.game).map fun r => { p with game := r.2, point := .seek false }
    else none
  | .seek =>
    match p.point with
    | .seek redrawn =>
      some { p with
        kernel := lseek stray junk p.kernel p.fd 0 SEEK_SET
        point := .save redrawn 0 }
    | _ => none
  | .write =>
    match p.point with
    | .save redrawn i =>
      some { p with
        kernel :=
          (writeFile stray junk p.kernel p.fd (Function.update junk 0 (p.game.text i)) 1).kernel
        point :=
          if h : (i : ℕ) + 1 < 9 then .save redrawn ⟨i + 1, h⟩
          else if redrawn then .top
          else .ticks }
    | _ => none
  | .ticks =>
    if p.point = .ticks then
      some { p with
        game := if p.game.has_added then resetGame p.game else p.game
        now := max p.now p.target
        point := if frameDue p.now p.target then .redraw else .top }
    else none
  | .redraw =>
    if p.point = .redraw then some { p with game := redrawScreen p.game, point := .seek true }
    else none

end Exec

/-- A step of `main_loop`. -/
def MainStep (p : Play) (a : PlayAct) (q : Play) : Prop :=
  ∃ stray junk fuel, p.exec stray junk fuel a = some q

/-- The step resets the game. -/
def Resets (p : Play) (a : PlayAct) : Prop := (∃ cell, a = .update cell) ∧ queryKey 9 p.game = true

section Step

variable {p q : Play}

theorem mainStep_event {key_code : ℤ} (h : MainStep p (.event key_code) q) :
    q = { p with key_state := keyboardEvent key_code p.key_state } := by
  obtain ⟨_, _, _, h⟩ := h
  exact (Option.some.inj h).symm

theorem mainStep_report {code : ℤ} (h : MainStep p (.report code) q) :
    p.point = .keys ∧ p.get_kbd = none ∧ code = (handleKeys p.key_state).1 ∧
      q = { p with key_state := (handleKeys p.key_state).2, get_kbd := some code } := by
  obtain ⟨_, _, _, h⟩ := h
  obtain ⟨⟨hpoint, hidle, hcode⟩, heq⟩ := Option.ite_none_right_eq_some.mp h
  exact ⟨hpoint, hidle, hcode, (Option.some.inj heq).symm⟩

theorem mainStep_returns {b : Bool} (h : MainStep p (.returns b) q) :
    ∃ code, p.get_kbd = some code ∧ p.point = .keys ∧ b = (processKeys code p.game.flags).1 ∧
      q = { p with
        game := { p.game with flags := (processKeys code p.game.flags).2 }
        get_kbd := none
        point := if b then .keys else .update } := by
  obtain ⟨_, _, _, h⟩ := h
  cases hcode : p.get_kbd with
  | none =>
    simp only [Play.exec, hcode] at h
    cases h
  | some code =>
    simp only [Play.exec, hcode] at h
    obtain ⟨⟨hpoint, hb⟩, heq⟩ := Option.ite_none_right_eq_some.mp h
    exact ⟨code, rfl, hpoint, hb, (Option.some.inj heq).symm⟩

theorem mainStep_time {first target : ℤ} (h : MainStep p (.time first target) q) :
    p.point = .top ∧ (q = p ∨ q = { p with target := target, point := .keys }) := by
  obtain ⟨_, _, _, h⟩ := h
  obtain ⟨hpoint, heq⟩ := Option.ite_none_right_eq_some.mp h
  refine ⟨hpoint, ?_⟩
  obtain rfl := Option.some.inj heq
  split
  · exact .inl rfl
  · exact .inr rfl

theorem mainStep_update {cell : Option (Fin 9)} (h : MainStep p (.update cell) q) :
    p.point = .update ∧ cell = playerCell p.game ∧
      ∃ fuel r, updateKeypress fuel p.game = some r ∧
        q = { p with game := r.2, point := .seek false } := by
  obtain ⟨_, _, fuel, h⟩ := h
  obtain ⟨⟨hpoint, hcell⟩, heq⟩ := Option.ite_none_right_eq_some.mp h
  obtain ⟨r, hr, hq⟩ := Option.map_eq_some_iff.mp heq
  exact ⟨hpoint, hcell, fuel, r, hr, hq.symm⟩

theorem mainStep_seek (h : MainStep p .seek q) :
    ∃ redrawn stray junk, p.point = .seek redrawn ∧
      q = { p with
        kernel := lseek stray junk p.kernel p.fd 0 SEEK_SET
        point := .save redrawn 0 } := by
  obtain ⟨stray, junk, _, h⟩ := h
  cases hpoint : p.point with
  | seek redrawn =>
    simp only [Play.exec, hpoint] at h
    exact ⟨redrawn, stray, junk, rfl, (Option.some.inj h).symm⟩
  | _ =>
    simp only [Play.exec, hpoint] at h
    cases h

theorem mainStep_write (h : MainStep p .write q) :
    ∃ redrawn i stray junk, p.point = .save redrawn i ∧
      q = { p with
        kernel :=
          (writeFile stray junk p.kernel p.fd (Function.update junk 0 (p.game.text i)) 1).kernel
        point :=
          if h : (i : ℕ) + 1 < 9 then .save redrawn ⟨i + 1, h⟩
          else if redrawn then .top
          else .ticks } := by
  obtain ⟨stray, junk, _, h⟩ := h
  cases hpoint : p.point with
  | save redrawn i =>
    simp only [Play.exec, hpoint] at h
    exact ⟨redrawn, i, stray, junk, rfl, (Option.some.inj h).symm⟩
  | _ =>
    simp only [Play.exec, hpoint] at h
    cases h

theorem mainStep_ticks (h : MainStep p .ticks q) :
    p.point = .ticks ∧
      q = { p with
        game := if p.game.has_added then resetGame p.game else p.game
        now := max p.now p.target
        point := if frameDue p.now p.target then .redraw else .top } := by
  obtain ⟨_, _, _, h⟩ := h
  obtain ⟨hpoint, heq⟩ := Option.ite_none_right_eq_some.mp h
  exact ⟨hpoint, (Option.some.inj heq).symm⟩

theorem mainStep_redraw (h : MainStep p .redraw q) :
    p.point = .redraw ∧ q = { p with game := redrawScreen p.game, point := .seek true } := by
  obtain ⟨_, _, _, h⟩ := h
  obtain ⟨hpoint, heq⟩ := Option.ite_none_right_eq_some.mp h
  exact ⟨hpoint, (Option.some.inj heq).symm⟩

end Step

/-! ### The start -/

/-- `"game_load.txt"` -/
def gameLoad : List UInt8 := "game_load.txt".toList.map Char.toUInt8

/-- The text that a character of the file stands for. -/
def loadedText (charac : UInt8) : UInt8 :=
  if charac ≠ computerText ∧ charac ≠ playerText then emptyText else charac

/-- The loop that loads the boxes `is`: `charac` is the first byte of the buffer. -/
def loadBoxes (stray : ℤ → UInt32) (junk : Mem) (fd : ℤ) :
    List (Fin 9) → Kernel → Mem → Board → Kernel × Board
  | [], k, _, text => (k, text)
  | i :: is, k, buf, text =>
    let r := readFile stray junk k fd buf 1
    loadBoxes stray junk fd is r.kernel r.buf (Function.update text i (loadedText (r.buf 0)))

/-- The game's variables when it is started. -/
def gameStatics : Game where
  text := fun _ => 0
  index := fun _ => 0
  winner := 0
  has_added := false
  flags := keyboardStart.flags
  seed := 0

/-- `main_loop` in front of its loop. -/
def playStart (stray : ℤ → UInt32) (junk : Mem) (key_state : ℤ → KeyState) (k : Kernel) (now : ℤ) :
    Play :=
  let g := initialGame gameStatics
  let k := openFile gameLoad s_rw k
  let fd := k.procs.cur.eax
  let r := loadBoxes stray junk fd (List.finRange 9) k junk g.text
  { game := { g with text := r.2 }
    key_state := key_state
    get_kbd := none
    kernel := r.1
    fd := fd
    point := .top
    now := now
    target := now }

/-! ### The game as it is shipped -/

/-- A directory with one file, `game_load.txt`, whose inode is in block 257. -/
def gameDir : Sector :=
  ByteBlock.ofFn 512 fun i =>
    if i < 13 then gameLoad.getD i 0 else if i = 28 ∨ i = 29 then 1 else 0

/-- A disk with that directory and that inode, and with these characters in the only block of the
file, block 288. -/
def gameDisk (file : Board) : Disk := fun s =>
  if s = 257 then gameDir
  else if s = 258 then oneFileInode
  else if s = 289 then ByteBlock.ofFn 512 fun i => if h : i < 9 then file ⟨i, h⟩ else 0
  else zeroSector

/-- The `game_load.txt` of the repository. -/
def shippedFile : Board := fun i => if i = 4 then computerText else 32

/-- `main_loop` in front of its loop, on a disk with this file. -/
def sessionStart (file : Board) : Play :=
  playStart (fun _ => 0) (fun _ => 0) (fun _ => .empty) (freshKernel gameDir (gameDisk file)) 1

/-- A step, with enough fuel for the searches that are made here. -/
def Play.next (p : Play) (a : PlayAct) : Option Play := p.exec (fun _ => 0) (fun _ => 0) 40 a

theorem mainStep_next (p : Play) (a : PlayAct) (q : Play) (h : p.next a = some q) :
    MainStep p a q :=
  ⟨_, _, _, h⟩

/-- A save. -/
def saves : List PlayAct := .seek :: List.replicate 9 .write

/-! ## What always holds -/

/-- What holds in front of every step of `main_loop`. -/
structure PlayOk (p : Play) : Prop where
  /-- Box `j` belongs to key `j + 1`. -/
  index : ∀ i : Fin 9, p.game.index i = (i : ℕ)
  /-- `update_keypress` has reset the game itself. -/
  added : p.game.has_added = false
  code : ∀ c, p.get_kbd = some c → 0 ≤ c ∧ c < 256
  idle : p.point ≠ .keys → p.get_kbd = none

/-- A code that `handle_keys` returns is a byte. -/
theorem handleKeys_byte (key_state : ℤ → KeyState) :
    0 ≤ (handleKeys key_state).1 ∧ (handleKeys key_state).1 < 256 := by
  obtain ⟨j, hj, hlt, -, heq⟩ | ⟨j, hj, hlt, -, heq⟩ | ⟨-, heq⟩ := handleKeys_cases key_state
  · have hcode := keycodeArray_eq hj hlt
    rw [heq]
    split at hcode <;> omega
  · have hcode := keycodeArray_eq hj hlt
    rw [heq]
    split at hcode <;> omega
  · rw [heq]
    simp only
    omega

theorem playOk_start (stray : ℤ → UInt32) (junk : Mem) (key_state : ℤ → KeyState) (k : Kernel)
    (now : ℤ) : PlayOk (playStart stray junk key_state k now) :=
  ⟨fun _ => rfl, rfl, fun _ h => absurd h.symm (Option.some_ne_none _), fun _ => rfl⟩

theorem PlayOk.step {p q : Play} {a : PlayAct} (h : PlayOk p) (hstep : MainStep p a q) :
    PlayOk q := by
  cases a with
  | event key_code =>
    obtain rfl := mainStep_event hstep
    exact ⟨h.index, h.added, h.code, h.idle⟩
  | report code =>
    obtain ⟨hpoint, -, rfl, rfl⟩ := mainStep_report hstep
    refine ⟨h.index, h.added, fun c hc => ?_, fun hne => absurd hpoint hne⟩
    obtain rfl := Option.some.inj hc
    exact handleKeys_byte p.key_state
  | returns b =>
    obtain ⟨code, -, -, -, rfl⟩ := mainStep_returns hstep
    exact ⟨h.index, h.added, fun c hc => absurd hc.symm (Option.some_ne_none c), fun _ => rfl⟩
  | time first target =>
    obtain ⟨hpoint, rfl | rfl⟩ := mainStep_time hstep
    · exact h
    · exact ⟨h.index, h.added, h.code, fun _ => h.idle (by rw [hpoint]; decide)⟩
  | update cell =>
    obtain ⟨hpoint, -, fuel, r, hr, rfl⟩ := mainStep_update hstep
    have hidle : p.get_kbd = none := h.idle (by rw [hpoint]; decide)
    cases henter : queryKey 9 p.game with
    | true =>
      obtain ⟨seed, hr⟩ := updateKeypress_reset hr henter
      rw [hr]
      exact ⟨fun _ => rfl, rfl, h.code, fun _ => hidle⟩
    | false =>
      obtain ⟨text, flags, seed, hr, -⟩ := updateKeypress_keep hr henter
      rw [hr]
      exact ⟨h.index, h.added, h.code, fun _ => hidle⟩
  | seek =>
    obtain ⟨redrawn, stray, junk, hpoint, rfl⟩ := mainStep_seek hstep
    exact ⟨h.index, h.added, h.code, fun _ => h.idle (by rw [hpoint]; exact Point.noConfusion)⟩
  | write =>
    obtain ⟨redrawn, i, stray, junk, hpoint, rfl⟩ := mainStep_write hstep
    exact ⟨h.index, h.added, h.code, fun _ => h.idle (by rw [hpoint]; exact Point.noConfusion)⟩
  | ticks =>
    obtain ⟨hpoint, rfl⟩ := mainStep_ticks hstep
    rw [h.added, if_neg Bool.false_ne_true]
    exact ⟨h.index, h.added, h.code, fun _ => h.idle (by rw [hpoint]; decide)⟩
  | redraw =>
    obtain ⟨hpoint, rfl⟩ := mainStep_redraw hstep
    obtain ⟨w, hw⟩ := redrawScreen_eq p.game
    rw [hw]
    exact ⟨h.index, h.added, h.code, fun _ => h.idle (by rw [hpoint]; decide)⟩

end OsLab
