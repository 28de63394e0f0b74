import OsLab.Lib.CInt
import OsLab.Lib.Run
import Mathlib.Tactic.IntervalCases

/-!
# The keyboard

The two ends of `keyboard.c`: the kernel's `Keyboard_event` and `handle_keys`, which keep one of
four states for each key, and the game's `process_keys`, which keeps the flag `letter_pressed`. The
system call gate is a trap gate, but `asm_do_irq` starts with `cli` and `handle_keys` is done with
the table when it says `sti`, so a call of `handle_keys` is one step. The rest of `process_keys`
runs in user mode, and interrupts come in between; it is a step of its own.

The kernel forgets: of the events of a key between two polls only the last one is left, and a press
after a reported press is dropped. What it never forgets is whether the key is down, and
`KeysOk` says where that is recorded: in the kernel's state of the key as long as there is something
to report, and in the flag, together with the answer `process_keys` has not used yet, when there is
not.

## Main definitions

* `keyboardEvent` — `Keyboard_event`, for the code the port gives
* `handleKeys` — `handle_keys`: the code it returns and the table it leaves
* `processKeys` — `process_keys` once `get_kbd` has returned: the `bool` it returns and the flags it
  leaves
* `Keyboard` — the kernel's table, the game's flags, and what `get_kbd` returned to a `process_keys`
  that is not over yet
* `lastEvent` — whether the last hardware event delivered for key `i` was a press, `none` where
  there was none
* `KeysOk` — where it is recorded that a key is down

## Main results

* `keyboard_pipeline` — a second press of a key is reported only after the key was released, and
  when there is nothing to report the flags are the keys that are down
-/

namespace OsLab

/-- The number of keys. -/
def NR_KEYS : ℕ := 10

/-- What the kernel remembers of a key. -/
inductive KeyState
  | empty
  | waitRelease
  | release
  | press
  deriving DecidableEq

/-- `keycode_array` of the kernel and `letter_code` of the game: `K_UP_1` to `K_UP_9` and
`K_ENTER`. -/
def keycodeArray (i : ℤ) : ℤ :=
  [0x02, 0x03, 0x04, 0x05, 0x06, 0x07, 0x08, 0x09, 0x0a, 0x1c].getD i.toNat 0

/-- `K_ENTER`. -/
def K_ENTER : ℤ := 0x1c

/-- `Keyboard_event`, for the code the port gives. -/
def keyboardEvent (key_code : ℤ) (key_state : ℤ → KeyState) : ℤ → KeyState :=
  match findSlot NR_KEYS fun i =>
    key_code = keycodeArray i ∨ key_code = keycodeArray i + 0x80 with
  | some i =>
    Function.update key_state i <|
      if key_code = keycodeArray i then
        match key_state i with
        | .waitRelease => .waitRelease
        | .empty | .release | .press => .press
      else .release
  | none => key_state

/-- `handle_keys`: the code it returns and the table it leaves. -/
def handleKeys (key_state : ℤ → KeyState) : ℤ × (ℤ → KeyState) :=
  match findSlot NR_KEYS fun i => key_state i = .press ∨ key_state i = .release with
  | some i =>
    if key_state i = .press then
      (keycodeArray i, Function.update key_state i .waitRelease)
    else (keycodeArray i + 0x80, Function.update key_state i .empty)
  | none => (0xff, key_state)

/-- The game's variables that `press_key` and `release_key` set. -/
structure KeyFlags where
  letter_pressed : ℤ → Bool
  refresh : Bool

/-- `press_key` and `release_key`: the flags of the keys with this scan code are set to `b`, and so
is `refresh` for the enter key. -/
def KeyFlags.setKey (b : Bool) (scan_code : ℤ) (f : KeyFlags) : KeyFlags where
  letter_pressed := forRange 0 NR_KEYS (fun i pressed =>
    if keycodeArray i = scan_code then Function.update pressed i b else pressed) f.letter_pressed
  refresh := if scan_code = K_ENTER then b else f.refresh

/-- `press_key` -/
def pressKey : ℤ → KeyFlags → KeyFlags := KeyFlags.setKey true

/-- `release_key` -/
def releaseKey : ℤ → KeyFlags → KeyFlags := KeyFlags.setKey false

/-- `process_keys` once `get_kbd` has returned: the `bool` it returns and the flags it leaves. -/
def processKeys (get_kbd : ℤ) (f : KeyFlags) : Bool × KeyFlags :=
  let keycode := get_kbd % 0x100
  if keycode = 0xff then (false, f)
  else if keycode < 0x80 then (true, pressKey keycode f)
  else (true, releaseKey (keycode - 0x80) f)

/-! ## The pipeline -/

/-- The kernel's table, the game's flags, and what `get_kbd` returned to a `process_keys` that is
not over yet. -/
structure Keyboard where
  key_state : ℤ → KeyState
  flags : KeyFlags
  get_kbd : Option ℤ

/-- What happens to the keyboard: the hardware delivers a code, `process_keys` is called and
`handle_keys` reports a code to it, and `process_keys` returns. -/
inductive KeyAct
  | event (key_code : ℤ)
  | report (code : ℤ)
  | returns (b : Bool)
  deriving DecidableEq

/-- One step of the keyboard. -/
def Keyboard.Step (s : Keyboard) : KeyAct → Keyboard → Prop
  | .event key_code, t => t = { s with key_state := keyboardEvent key_code s.key_state }
  | .report code, t =>
    s.get_kbd = none ∧ code = (handleKeys s.key_state).1 ∧
      t = { s with key_state := (handleKeys s.key_state).2, get_kbd := some code }
  | .returns b, t =>
    ∃ code, s.get_kbd = some code ∧ b = (processKeys code s.flags).1 ∧
      t = { s with flags := (processKeys code s.flags).2, get_kbd := none }

/-- The static variables at the start. -/
def keyboardStart : Keyboard where
  key_state := fun _ => .empty
  flags := { letter_pressed := fun _ => false, refresh := false }
  get_kbd := none

/-- What an event says of key `i`: that it goes down, that it goes up, or nothing. -/
def KeyAct.ofKey (i : ℤ) : KeyAct → Option Bool
  | .event key_code =>
    if key_code = keycodeArray i then some true
    else if key_code = keycodeArray i + 0x80 then some false
    else none
  | _ => none

/-- Whether the last hardware event delivered for key `i` was a press, `none` where there was
none. -/
def lastEvent (i : ℤ) (l : List KeyAct) : Option Bool :=
  (l.filterMap (KeyAct.ofKey i)).getLast?

/-! ## What the functions do to one key -/

/-- The codes of the ten keys are different, and so are their codes with the release bit. -/
theorem keycodeArray_eq {i : ℤ} (hi : 0 ≤ i) (hlt : i < 10) :
    keycodeArray i = if i = 9 then 28 else i + 2 := by
  interval_cases i <;> rfl

theorem keycodeArray_inj {i j : ℤ} (hi : 0 ≤ i) (hlt : i < 10) (hj : 0 ≤ j) (hjlt : j < 10) :
    keycodeArray i = keycodeArray j ↔ i = j := by
  rw [keycodeArray_eq hi hlt, keycodeArray_eq hj hjlt]
  split <;> split <;> omega

theorem keycodeArray_ne_release {i j : ℤ} (hi : 0 ≤ i) (hlt : i < 10) (hj : 0 ≤ j) (hjlt : j < 10) :
    keycodeArray i ≠ keycodeArray j + 0x80 := by
  rw [keycodeArray_eq hi hlt, keycodeArray_eq hj hjlt]
  split <;> split <;> omega

/-- The event that an act is for key `i`, by its code. -/
theorem ofKey_event (i key_code : ℤ) :
    (KeyAct.event key_code).ofKey i =
      if key_code = keycodeArray i then some true
      else if key_code = keycodeArray i + 0x80 then some false else none :=
  rfl

/-- **One event, one key.** A press is dropped where the last press was reported and the key was not
released since. -/
theorem keyboardEvent_apply (key_code : ℤ) (key_state : ℤ → KeyState) {i : ℤ} (hi : 0 ≤ i)
    (hlt : i < 10) :
    keyboardEvent key_code key_state i =
      match (KeyAct.event key_code).ofKey i with
      | some true => if key_state i = .waitRelease then .waitRelease else .press
      | some false => .release
      | none => key_state i := by
  rw [keyboardEvent, ofKey_event]
  cases hfound : findSlot NR_KEYS fun i =>
      key_code = keycodeArray i ∨ key_code = keycodeArray i + 0x80 with
  | none =>
    have hnot := findSlot_eq_none.mp hfound i hi hlt
    simp only [decide_eq_false_iff_not, not_or] at hnot
    rw [if_neg hnot.1, if_neg hnot.2]
  | some j =>
    obtain ⟨hj, hjlt, hcode, -⟩ := findSlot_eq_some hfound
    have hjlt : j < 10 := hjlt
    simp only [decide_eq_true_eq] at hcode
    dsimp only
    rcases eq_or_ne i j with rfl | hne
    · rw [Function.update_self]
      rcases eq_or_ne key_code (keycodeArray i) with hpress | hpress
      · rw [if_pos hpress, if_pos hpress]
        cases key_state i <;> rfl
      · rw [if_neg hpress, if_neg hpress, if_pos (hcode.resolve_left hpress)]
    · rw [Function.update_of_ne hne]
      have hother : key_code ≠ keycodeArray i ∧ key_code ≠ keycodeArray i + 0x80 := by
        have := keycodeArray_inj hi hlt hj hjlt
        have := keycodeArray_ne_release hi hlt hj hjlt
        have := keycodeArray_ne_release hj hjlt hi hlt
        omega
      rw [if_neg hother.1, if_neg hother.2]

/-- **The three outcomes of `handle_keys`.** -/
theorem handleKeys_cases (key_state : ℤ → KeyState) :
    (∃ j, 0 ≤ j ∧ j < 10 ∧ key_state j = .press ∧
      handleKeys key_state = (keycodeArray j, Function.update key_state j .waitRelease)) ∨
    (∃ j, 0 ≤ j ∧ j < 10 ∧ key_state j = .release ∧
      handleKeys key_state = (keycodeArray j + 0x80, Function.update key_state j .empty)) ∨
    (∀ j, 0 ≤ j → j < 10 → key_state j = .empty ∨ key_state j = .waitRelease) ∧
      handleKeys key_state = (0xff, key_state) := by
  rw [handleKeys]
  cases hfound : findSlot NR_KEYS fun i => key_state i = .press ∨ key_state i = .release with
  | none =>
    refine Or.inr (Or.inr ⟨fun j hj hlt => ?_, rfl⟩)
    have hnot := findSlot_eq_none.mp hfound j hj hlt
    simp only [decide_eq_false_iff_not, not_or] at hnot
    cases h : key_state j with
    | empty => exact Or.inl rfl
    | waitRelease => exact Or.inr rfl
    | release => exact absurd h hnot.2
    | press => exact absurd h hnot.1
  | some j =>
    obtain ⟨hj, hjlt, hstate, -⟩ := findSlot_eq_some hfound
    have hjlt : j < 10 := hjlt
    simp only [decide_eq_true_eq] at hstate
    dsimp only
    rcases hstate with hpress | hrelease
    · rw [if_pos hpress]
      exact Or.inl ⟨j, hj, hjlt, hpress, rfl⟩
    · rw [if_neg (by rw [hrelease]; decide)]
      exact Or.inr (Or.inl ⟨j, hj, hjlt, hrelease, rfl⟩)

/-- The loop of `press_key` and `release_key` sets the flags of the keys with the code. -/
theorem setKey_apply (b : Bool) (scan_code : ℤ) (f : KeyFlags) {i : ℤ} (hi : 0 ≤ i) (hlt : i < 10) :
    (f.setKey b scan_code).letter_pressed i =
      if keycodeArray i = scan_code then b else f.letter_pressed i := by
  simp only [KeyFlags.setKey, NR_KEYS]
  refine (forRange_induction (P := fun k (pressed : ℤ → Bool) =>
    pressed i = if i < k ∧ keycodeArray i = scan_code then b else f.letter_pressed i) (by decide)
      ?_ ?_).trans (if_congr (by simp only [Nat.cast_ofNat]; omega) rfl rfl)
  · intro k pressed hk hklt hP
    rcases eq_or_ne i k with rfl | hne
    · by_cases hcode : keycodeArray i = scan_code
      · rw [if_pos hcode, Function.update_self, if_pos ⟨by omega, hcode⟩]
      · rw [if_neg hcode, hP, if_neg fun h => hcode h.2, if_neg fun h => hcode h.2]
    · have hsame : (if keycodeArray k = scan_code then Function.update pressed k b else pressed) i =
          pressed i := by
        split
        · exact Function.update_of_ne hne ..
        · rfl
      rw [hsame, hP]
      exact if_congr (by omega) rfl rfl
  · rw [if_neg (by omega)]

/-- The flag of one key. -/
theorem setKey_letter_pressed (b : Bool) (f : KeyFlags) {i j : ℤ} (hi : 0 ≤ i) (hlt : i < 10)
    (hj : 0 ≤ j) (hjlt : j < 10) :
    (f.setKey b (keycodeArray j)).letter_pressed i = if i = j then b else f.letter_pressed i := by
  rw [setKey_apply b _ f hi hlt]
  exact if_congr (keycodeArray_inj hi hlt hj hjlt) rfl rfl

theorem processKeys_press {j : ℤ} (f : KeyFlags) (hj : 0 ≤ j) (hlt : j < 10) :
    processKeys (keycodeArray j) f = (true, f.setKey true (keycodeArray j)) := by
  have hcode := keycodeArray_eq hj hlt
  have hsmall : keycodeArray j % 0x100 = keycodeArray j := by split at hcode <;> omega
  simp only [processKeys, hsmall]
  rw [if_neg (by split at hcode <;> omega), if_pos (by split at hcode <;> omega), pressKey]

theorem processKeys_release {j : ℤ} (f : KeyFlags) (hj : 0 ≤ j) (hlt : j < 10) :
    processKeys (keycodeArray j + 0x80) f = (true, f.setKey false (keycodeArray j)) := by
  have hcode := keycodeArray_eq hj hlt
  have hsmall : (keycodeArray j + 0x80) % 0x100 = keycodeArray j + 0x80 := by
    split at hcode <;> omega
  simp only [processKeys, hsmall]
  rw [if_neg (by split at hcode <;> omega), if_neg (by split at hcode <;> omega), releaseKey,
    Int.add_sub_cancel]

theorem processKeys_none (f : KeyFlags) : processKeys 0xff f = (false, f) := rfl

/-! ## The history of a key -/

theorem lastEvent_append (i : ℤ) (l : List KeyAct) (a : KeyAct) :
    lastEvent i (l ++ [a]) = (a.ofKey i).or (lastEvent i l) := by
  rw [lastEvent, lastEvent, List.filterMap_append]
  cases h : a.ofKey i with
  | none => rw [List.filterMap_cons_none h, List.filterMap_nil, List.append_nil, Option.none_or]
  | some b =>
    rw [List.filterMap_cons_some h, List.filterMap_nil, List.getLast?_concat, Option.some_or]

/-- The flags as they are once `process_keys` has used what `get_kbd` returned. -/
def Keyboard.flagsAfter (s : Keyboard) : KeyFlags :=
  match s.get_kbd with
  | some code => (processKeys code s.flags).2
  | none => s.flags

/-- **Where it is recorded that a key is down.** As long as the kernel has something to report of
it, in the kernel's state; otherwise in the flag. -/
def KeysOk (s : Keyboard) (l : List KeyAct) : Prop :=
  ∀ i, 0 ≤ i → i < 10 →
    match s.key_state i with
    | .empty => s.flagsAfter.letter_pressed i = false ∧ lastEvent i l ≠ some true
    | .waitRelease => s.flagsAfter.letter_pressed i = true ∧ lastEvent i l = some true
    | .press => lastEvent i l = some true
    | .release => lastEvent i l = some false

theorem keysOk_start : KeysOk keyboardStart [] := by
  intro i _ _
  exact ⟨rfl, (Option.some_ne_none true).symm⟩

/-- An event is recorded for its key, and the flags wait. -/
theorem KeysOk.event {s : Keyboard} {l : List KeyAct} (h : KeysOk s l) (key_code : ℤ) :
    KeysOk { s with key_state := keyboardEvent key_code s.key_state } (l ++ [.event key_code]) := by
  intro i hi hlt
  have hkey := h i hi hlt
  have hflags : Keyboard.flagsAfter { s with key_state := keyboardEvent key_code s.key_state } =
      s.flagsAfter := rfl
  simp only [lastEvent_append, keyboardEvent_apply key_code s.key_state hi hlt, hflags]
  cases (KeyAct.event key_code).ofKey i with
  | none => exact hkey
  | some down =>
    cases down with
    | false => rfl
    | true =>
      by_cases hwait : s.key_state i = .waitRelease
      · simp only [hwait] at hkey
        simp only [hwait, if_true]
        exact ⟨hkey.1, rfl⟩
      · simp only [if_neg hwait]
        rfl

/-- A report moves what the kernel remembers of a key to the answer of `get_kbd`. -/
theorem KeysOk.report {s : Keyboard} {l : List KeyAct} (h : KeysOk s l) (hidle : s.get_kbd = none) :
    KeysOk { s with
      key_state := (handleKeys s.key_state).2, get_kbd := some (handleKeys s.key_state).1 }
      (l ++ [.report (handleKeys s.key_state).1]) := by
  intro i hi hlt
  have hkey := h i hi hlt
  have hbefore : s.flagsAfter = s.flags := by rw [Keyboard.flagsAfter, hidle]
  simp only [hbefore] at hkey
  have hlast (code : ℤ) : lastEvent i (l ++ [.report code]) = lastEvent i l :=
    lastEvent_append i l (.report code)
  simp only [hlast, Keyboard.flagsAfter]
  obtain ⟨j, hj, hjlt, hstate, hreport⟩ | ⟨j, hj, hjlt, hstate, hreport⟩ | ⟨-, hreport⟩ :=
    handleKeys_cases s.key_state
  · simp only [hreport, processKeys_press s.flags hj hjlt,
      setKey_letter_pressed true s.flags hi hlt hj hjlt]
    rcases eq_or_ne i j with rfl | hne
    · simp only [hstate] at hkey
      simp only [Function.update_self, if_true]
      exact ⟨trivial, hkey⟩
    · simp only [Function.update_of_ne hne, if_neg hne]
      exact hkey
  · simp only [hreport, processKeys_release s.flags hj hjlt,
      setKey_letter_pressed false s.flags hi hlt hj hjlt]
    rcases eq_or_ne i j with rfl | hne
    · simp only [hstate] at hkey
      simp only [Function.update_self, if_true]
      exact ⟨trivial, by rw [hkey]; decide⟩
    · simp only [Function.update_of_ne hne, if_neg hne]
      exact hkey
  · simp only [hreport, processKeys_none]
    exact hkey

theorem KeysOk.step {s t : Keyboard} {a : KeyAct} {l : List KeyAct} (h : KeysOk s l)
    (hstep : s.Step a t) : KeysOk t (l ++ [a]) := by
  cases a with
  | event key_code =>
    obtain rfl : t = _ := hstep
    exact h.event key_code
  | report code =>
    obtain ⟨hidle, rfl, rfl⟩ := hstep
    exact h.report hidle
  | returns b =>
    obtain ⟨code, hcode, -, rfl⟩ := hstep
    intro i hi hlt
    have hkey := h i hi hlt
    have hbefore : s.flagsAfter = (processKeys code s.flags).2 := by
      rw [Keyboard.flagsAfter, hcode]
    have hlast : lastEvent i (l ++ [.returns b]) = lastEvent i l :=
      lastEvent_append i l (.returns b)
    rw [hbefore] at hkey
    simp only [hlast]
    exact hkey

/-- The invariant of the keyboard's runs. -/
theorem KeysOk.run {s : Keyboard} {l : List KeyAct} (h : Run Keyboard.Step keyboardStart l s) :
    KeysOk s l :=
  h.history (I := KeysOk) (fun _ _ _ _ hok hstep => hok.step hstep) keysOk_start

/-! ## No second press -/

/-- While a key waits for its release, nothing but the release changes that, and it is not
reported. -/
theorem waitRelease_step {s t : Keyboard} {a : KeyAct} {i : ℤ} (hi : 0 ≤ i) (hlt : i < 10)
    (hwait : s.key_state i = .waitRelease) (hstep : s.Step a t)
    (hrelease : a ≠ .event (keycodeArray i + 0x80)) :
    t.key_state i = .waitRelease ∧ a ≠ .report (keycodeArray i) := by
  cases a with
  | event key_code =>
    obtain rfl : t = _ := hstep
    refine ⟨?_, KeyAct.noConfusion⟩
    have hcode : key_code ≠ keycodeArray i + 0x80 := fun h => hrelease (by rw [h])
    simp only [keyboardEvent_apply key_code s.key_state hi hlt, ofKey_event, if_neg hcode, hwait]
    by_cases hpress : key_code = keycodeArray i
    · simp [if_pos hpress]
    · simp only [if_neg hpress]
  | report code =>
    obtain ⟨-, rfl, rfl⟩ := hstep
    obtain ⟨j, hj, hjlt, hstate, hreport⟩ | ⟨j, hj, hjlt, hstate, hreport⟩ | ⟨-, hreport⟩ :=
      handleKeys_cases s.key_state
    · have hne : i ≠ j := fun h => by rw [h, hstate] at hwait; cases hwait
      simp only [hreport, Function.update_of_ne hne]
      refine ⟨hwait, fun h => hne ?_⟩
      exact ((keycodeArray_inj hi hlt hj hjlt).mp (KeyAct.report.inj h).symm)
    · have hne : i ≠ j := fun h => by rw [h, hstate] at hwait; cases hwait
      simp only [hreport, Function.update_of_ne hne]
      refine ⟨hwait, fun h => ?_⟩
      exact keycodeArray_ne_release hi hlt hj hjlt (KeyAct.report.inj h).symm
    · simp only [hreport]
      refine ⟨hwait, fun h => ?_⟩
      have hcode := keycodeArray_eq hi hlt
      have := KeyAct.report.inj h
      split at hcode <;> omega
  | returns b =>
    obtain ⟨code, -, -, rfl⟩ := hstep
    exact ⟨hwait, KeyAct.noConfusion⟩

/-- A run that reports the press of a waiting key releases it first. -/
theorem release_mem_of_report {s t : Keyboard} {l : List KeyAct} {i : ℤ} (hi : 0 ≤ i) (hlt : i < 10)
    (hwait : s.key_state i = .waitRelease)
    (hrun : Run Keyboard.Step s (l ++ [.report (keycodeArray i)]) t) :
    .event (keycodeArray i + 0x80) ∈ l := by
  induction l generalizing s with
  | nil =>
    obtain ⟨t', hstep, -⟩ := hrun.exists_of_cons
    exact absurd rfl (waitRelease_step hi hlt hwait hstep (by simp)).2
  | cons a l ih =>
    obtain ⟨t', hstep, hrest⟩ := hrun.exists_of_cons
    by_cases hrelease : a = .event (keycodeArray i + 0x80)
    · rw [hrelease]
      exact List.mem_cons_self
    · exact List.mem_cons_of_mem _ (ih (waitRelease_step hi hlt hwait hstep hrelease).1 hrest)

/-- A key whose press was reported waits for its release. -/
theorem waitRelease_of_report {s t : Keyboard} {i : ℤ} (hi : 0 ≤ i) (hlt : i < 10)
    (hstep : s.Step (.report (keycodeArray i)) t) : t.key_state i = .waitRelease := by
  obtain ⟨-, hcode, rfl⟩ := hstep
  obtain ⟨j, hj, hjlt, hstate, hreport⟩ | ⟨j, hj, hjlt, hstate, hreport⟩ | ⟨-, hreport⟩ :=
    handleKeys_cases s.key_state
  · simp only [hreport] at hcode ⊢
    obtain rfl := (keycodeArray_inj hi hlt hj hjlt).mp hcode
    exact Function.update_self ..
  · simp only [hreport] at hcode
    exact absurd hcode (keycodeArray_ne_release hi hlt hj hjlt)
  · simp only [hreport] at hcode
    have hsmall := keycodeArray_eq hi hlt
    split at hsmall <;> omega

/-! ## The pipeline as a whole -/

/-- Events do not touch what belongs to the game. -/
theorem run_events {s t : Keyboard} {events : List KeyAct}
    (hevents : ∀ a ∈ events, ∃ key_code, a = .event key_code)
    (hrun : Run Keyboard.Step s events t) : t.flags = s.flags ∧ t.get_kbd = s.get_kbd := by
  induction hrun with
  | nil => exact ⟨rfl, rfl⟩
  | @cons s u t a l hstep _ ih =>
    obtain ⟨key_code, rfl⟩ := hevents a List.mem_cons_self
    obtain rfl : u = _ := hstep
    exact ih fun b hb => hevents b (List.mem_cons_of_mem _ hb)

/-- When there is nothing to report, the flags are the keys that are down. -/
theorem KeysOk.letter_pressed {s : Keyboard} {l : List KeyAct} (h : KeysOk s l)
    (hidle : s.get_kbd = none)
    (hquiet : ∀ j, 0 ≤ j → j < 10 → s.key_state j = .empty ∨ s.key_state j = .waitRelease)
    {i : ℤ} (hi : 0 ≤ i) (hlt : i < 10) :
    s.flags.letter_pressed i = true ↔ lastEvent i l = some true := by
  have hkey := h i hi hlt
  have hafter : s.flagsAfter = s.flags := by rw [Keyboard.flagsAfter, hidle]
  rw [hafter] at hkey
  rcases hquiet i hi hlt with hstate | hstate
  · simp only [hstate] at hkey
    rw [hkey.1]
    exact iff_of_false Bool.false_ne_true hkey.2
  · simp only [hstate] at hkey
    exact iff_of_true hkey.1 hkey.2

/-- `process_keys` returns false for `0xff` only. -/
theorem quiet_of_returns_false {key_state : ℤ → KeyState} {f : KeyFlags}
    (hfalse : (processKeys (handleKeys key_state).1 f).1 = false) :
    (∀ j, 0 ≤ j → j < 10 → key_state j = .empty ∨ key_state j = .waitRelease) ∧
      (handleKeys key_state).1 = 0xff := by
  obtain ⟨j, hj, hjlt, -, hreport⟩ | ⟨j, hj, hjlt, -, hreport⟩ | ⟨hquiet, hreport⟩ :=
    handleKeys_cases key_state
  · rw [hreport, processKeys_press f hj hjlt] at hfalse
    exact absurd hfalse.symm Bool.false_ne_true
  · rw [hreport, processKeys_release f hj hjlt] at hfalse
    exact absurd hfalse.symm Bool.false_ne_true
  · rw [hreport]
    exact ⟨hquiet, rfl⟩

/-- **The keyboard pipeline.** In every run of hardware events and calls of `process_keys`, in any
order and with events inside the calls: between two reports of a press of a key, its release was
delivered; and when `process_keys` returns false, the flag of every key says whether the last event
of that key that was delivered before `handle_keys` returned was a press. -/
theorem keyboard_pipeline {l : List KeyAct} {s : Keyboard}
    (hrun : Run Keyboard.Step keyboardStart l s) {i : ℤ} (hi : 0 ≤ i) (hlt : i < 10) :
    (∀ before between after : List KeyAct,
      l = before ++ .report (keycodeArray i) :: (between ++ .report (keycodeArray i) :: after) →
        .event (keycodeArray i + 0x80) ∈ between) ∧
    (∀ (before events : List KeyAct) (code : ℤ),
      l = before ++ .report code :: (events ++ [.returns false]) →
        (∀ a ∈ events, ∃ key_code, a = .event key_code) →
          (s.flags.letter_pressed i = true ↔ lastEvent i before = some true)) := by
  constructor
  · rintro before between after rfl
    obtain ⟨s₁, -, hrest⟩ := hrun.exists_of_append
    obtain ⟨s₂, hreport, hrest⟩ := hrest.exists_of_cons
    rw [List.append_cons] at hrest
    obtain ⟨s₃, hsecond, -⟩ := hrest.exists_of_append
    exact release_mem_of_report hi hlt (waitRelease_of_report hi hlt hreport) hsecond
  · rintro before events code rfl hevents
    obtain ⟨s₁, hbefore, hrest⟩ := hrun.exists_of_append
    obtain ⟨s₂, ⟨hidle, rfl, rfl⟩, hrest⟩ := hrest.exists_of_cons
    obtain ⟨s₃, hbetween, hlast⟩ := hrest.exists_of_append
    obtain ⟨s₄, ⟨code, hcode, hfalse, rfl⟩, hend⟩ := hlast.exists_of_cons
    obtain ⟨hflags, hget⟩ := run_events hevents hbetween
    obtain rfl : (handleKeys s₁.key_state).1 = code := by
      rw [hget] at hcode
      exact Option.some.inj hcode
    rw [hflags] at hfalse
    obtain ⟨hquiet, hff⟩ := quiet_of_returns_false hfalse.symm
    cases hend
    simp only [hff, processKeys_none, hflags]
    exact (KeysOk.run hbefore).letter_pressed hidle hquiet hi hlt

/-- Key 1 is pressed twice and polled, and at the second poll there is nothing to report. -/
theorem keyboard_pipeline_autorepeat :
    ∃ s : Keyboard, Run Keyboard.Step keyboardStart
        [.event 0x02, .report 0x02, .returns true, .event 0x02, .report 0xff, .returns false] s ∧
      s.flags.letter_pressed 0 = true := by
  have hrun : ∃ s, Run Keyboard.Step keyboardStart
      [.event 0x02, .report 0x02, .returns true, .event 0x02, .report 0xff, .returns false] s :=
    ⟨_, .cons rfl (.cons ⟨rfl, by decide, rfl⟩ (.cons ⟨_, rfl, by decide, rfl⟩ (.cons rfl
      (.cons ⟨rfl, by decide, rfl⟩ (.cons ⟨_, rfl, by decide, rfl⟩ (.nil _))))))⟩
  obtain ⟨s, hs⟩ := hrun
  refine ⟨s, hs, ?_⟩
  exact ((keyboard_pipeline hs (i := 0) (by decide) (by decide)).2
    [.event 0x02, .report 0x02, .returns true, .event 0x02] [] 0xff rfl (by simp)).mpr (by decide)

end OsLab
