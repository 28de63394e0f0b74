import Mathlib.Tactic.Abel
import OsLab.Game.Play
import OsLab.Game.Screen
import OsLab.Lib.Stack

/-!
# All that `redraw_screen` writes

`redrawFrame` is what becomes of the pixels, and `redrawScreen` what becomes of the game. Here the
two are put together, with the variables in memory where the program has them: besides the buffer
and the screen `redraw_screen` writes the static buffer of `itoa`, that of `printf` when there is a
winner, and `winner` itself. The frame rate is drawn from the buffer in which `itoa` has left it.

That the number on the screen is the frame rate rests on the last byte of that buffer, which no call
of `itoa` writes: it is the `'\0'` behind the number, and is 0 from the start and after every call.

The stack, and what the system call writes in the kernel, are not part of this memory.

## Main definitions

* `Region` — a piece of memory
* `ScreenVars` — where the program's variables are that `redraw_screen` writes
* `ScreenVars.Fit` — no two of them overlap
* `itoaMem` — `itoa`, whose static buffer is at `buf`
* `redrawMemory` — `redraw_screen`, with `fps` from `get_fps`

## Main results

* `itoaMem_eq`, `stringAt_itoaMem` — the number in the buffer of `itoa`
* `redrawMemory_shows` — the picture, the winner, and that nothing else is written
-/

namespace OsLab

/-! ## Where things are -/

/-- A piece of memory. -/
structure Region where
  start : UInt32
  size : ℕ

/-- The addresses of the region. -/
def Region.places (r : Region) : Set UInt32 := {a | (a - r.start).toNat < r.size}

/-- The region does not go across the end of memory. -/
def Region.Inside (r : Region) : Prop := r.start.toNat + r.size ≤ 2 ^ 32

/-- One region ends before the other begins. -/
def Region.Apart (r r' : Region) : Prop :=
  r.start.toNat + r.size ≤ r'.start.toNat ∨ r'.start.toNat + r'.size ≤ r.start.toNat

instance (r : Region) : Decidable r.Inside := inferInstanceAs (Decidable (_ ≤ _))

instance (r r' : Region) : Decidable (r.Apart r') := inferInstanceAs (Decidable (_ ∨ _))

theorem Region.Apart.notMem {r r' : Region} {a : UInt32} (h : r.Apart r') (hr : r.Inside)
    (hr' : r'.Inside) (ha : a ∈ r.places) : a ∉ r'.places := by
  have hsub (b : UInt32) : (a - b).toNat = (2 ^ 32 - b.toNat + a.toNat) % 2 ^ 32 :=
    UInt32.toNat_sub a b
  have hlt := a.toNat_lt
  have ha : (a - r.start).toNat < r.size := ha
  intro (ha' : (a - r'.start).toNat < r'.size)
  rw [hsub] at ha ha'
  rw [Region.Apart, Region.Inside] at *
  omega

/-- What `redraw_screen` writes. -/
inductive ScreenPart
  | screen
  | vbuf
  | itoaBuf
  | printfBuf
  | winner
  deriving DecidableEq

/-- Where the program's variables are that `redraw_screen` writes. -/
structure ScreenVars where
  vbuf : UInt32
  /-- `buf` of `itoa` -/
  itoaBuf : UInt32
  /-- `buf` of `printf` -/
  printfBuf : UInt32
  winner : UInt32

/-- The variables, and video memory. -/
def ScreenVars.region (V : ScreenVars) : ScreenPart → Region
  | .screen => ⟨VMEM_ADDR, 64000⟩
  | .vbuf => ⟨V.vbuf, 64000⟩
  | .itoaBuf => ⟨V.itoaBuf, 30⟩
  | .printfBuf => ⟨V.printfBuf, 256⟩
  | .winner => ⟨V.winner, 4⟩

/-- No two of them overlap. -/
structure ScreenVars.Fit (V : ScreenVars) : Prop where
  inside : ∀ k, (V.region k).Inside
  apart : ∀ k k', k ≠ k' → (V.region k).Apart (V.region k')

theorem ScreenVars.Fit.subset_compl {V : ScreenVars} (hV : V.Fit) {k k' : ScreenPart}
    (hne : k ≠ k') : (V.region k).places ⊆ (V.region k').placesᶜ := fun _ ha =>
  (hV.apart k k' hne).notMem (hV.inside k) (hV.inside k') ha

/-! ## The code -/

/-- The loop of `itoa`: `p`, and memory. -/
def itoaLoopMem (a : ℤ) (p : UInt32) (m : LinearMemory) : UInt32 × LinearMemory :=
  let p := p - 1
  let m := Function.update m p (UInt8.ofInt (code '0' + a.tmod 10))
  if a.tdiv 10 ≠ 0 then itoaLoopMem (a.tdiv 10) p m else (p, m)
termination_by a.natAbs
decreasing_by
  obtain ⟨_, _, _⟩ := tdiv_tmod_spec a (show (0 : ℤ) < 10 by decide)
  omega

/-- `itoa`, whose static buffer is at `buf`. -/
def itoaMem (buf : UInt32) (a : ℤ) (m : LinearMemory) : UInt32 × LinearMemory :=
  -- `buf + sizeof(buf) - 1`
  itoaLoopMem a (buf + 29) m

/-- The string at `p`; no more than `n` bytes are looked at. -/
def stringAt (m : LinearMemory) : ℕ → UInt32 → List UInt8
  | 0, _ => []
  | n + 1, p => if m p = 0 then [] else m p :: stringAt m n (p + 1)

/-- What `printf` does to memory. -/
def printfMem (buf : UInt32) (ctl : CString) (args : VaList) (m : LinearMemory) : LinearMemory :=
  fun a => (printf buf.toNat ctl args fun x => m (UInt32.ofNat x.toNat)).mem a.toNat

/-- `"you win!\n"` -/
def youWin : CString := ⟨literal "you win!\n", by decide⟩

/-- `"computer win!\n"` -/
def computerWin : CString := ⟨literal "computer win!\n", by decide⟩

/-- `winner` -/
def ScreenVars.winnerIn (V : ScreenVars) (m : LinearMemory) : ℤ := int32 (m.loadWord V.winner).toNat

section Redraw

variable (stray : ℤ → ℕ → UInt8) (V : ScreenVars) (args : VaList)

/-- `if((check)&&(winner!=other)){ printf(msg); winner=who; }`. Behind the format the stack holds
`args`, which this format does not ask for. -/
def declareWinner (check : Bool) (other who : ℤ) (msg : CString) (m : LinearMemory) :
    LinearMemory :=
  if check ∧ V.winnerIn m ≠ other then
    (printfMem V.printfBuf msg args m).storeWord V.winner (UInt32.ofInt who)
  else m

/-- The frame rate, and the word behind it. -/
def drawLabel (fps : ℤ) (m : LinearMemory) : LinearMemory :=
  let (p, m) := itoaMem V.itoaBuf fps m
  let m := drawString stray V.vbuf 14 (stringAt m 30 p) 0 0 m
  let (p, m) := itoaMem V.itoaBuf fps m
  drawString stray V.vbuf 14 (literal "FPS") 0 ((stringAt m 30 p).length * 8) m

/-- `redraw_screen` up to the frame rate. -/
def drawBoard (g : Game) (m : LinearMemory) : LinearMemory :=
  -- `prepare_buffer`
  let m := (memset m V.vbuf 0 SCR_SIZE).2
  let m := drawBoxes stray V.vbuf g.text m
  let m := declareWinner V args (winpCheck g) 2 1 youWin m
  declareWinner V args (wincCheck g) 1 2 computerWin m

/-- **`redraw_screen`**, with `fps` from `get_fps`. -/
def redrawMemory (g : Game) (fps : ℤ) (m : LinearMemory) : LinearMemory :=
  let m := drawBoard stray V args g m
  let m := drawLabel stray V fps m
  -- `display_buffer`, and in the kernel `memcpy(VMEM_ADDR, (void *)tf->ebx, SCR_SIZE)`
  (memcpy m VMEM_ADDR V.vbuf SCR_SIZE).2

end Redraw

/-! ## `itoa` in memory -/

section Itoa

variable {m : LinearMemory} {p buf : UInt32} {a : ℤ} {s : List UInt8}

/-- The bytes of the string `s`. -/
def bytesOf (s : List UInt8) (o : UInt32) : UInt8 := s.getD o.toNat 0

theorem length_le_itoaLoop (a : ℤ) (s : List UInt8) : s.length < (itoaLoop a s).length := by
  fun_induction itoaLoop a s with
  | case1 a s q hne ih => exact (Nat.lt_succ_self _).trans ih
  | case2 a s q heq => exact Nat.lt_succ_self _

/-- One more digit in front of those that are there. -/
theorem update_bytesOf (c : UInt8) (hs : s.length < 2 ^ 32 - 1) :
    Function.update (m.written p s.length (bytesOf s)) (p - 1) c =
      m.written (p - 1) (c :: s).length (bytesOf (c :: s)) := by
  have hdown := LinearMemory.update_written_down m (p - 1) s.length (bytesOf (c :: s))
  have htail : m.written p s.length (fun o => bytesOf (c :: s) (o + 1)) =
      m.written p s.length (bytesOf s) := by
    refine LinearMemory.written_congr fun o ho => ?_
    have hnext : (o + 1).toNat = o.toNat + 1 := by
      rw [UInt32.toNat_add]
      show (o.toNat + 1) % 2 ^ 32 = _
      omega
    rw [bytesOf, hnext, List.getD_cons_succ, bytesOf]
  rw [sub_add_cancel, htail] at hdown
  exact hdown

theorem itoaLoopMem_eq (a : ℤ) (s : List UInt8) (p : UInt32)
    (hlen : (itoaLoop a s).length < 2 ^ 32) :
    itoaLoopMem a p (m.written p s.length (bytesOf s)) =
      (p + UInt32.ofNat s.length - UInt32.ofNat (itoaLoop a s).length,
        m.written (p + UInt32.ofNat s.length - UInt32.ofNat (itoaLoop a s).length)
          (itoaLoop a s).length (bytesOf (itoaLoop a s))) := by
  have hnext (s : List UInt8) (c : UInt8) (p : UInt32) :
      p - 1 + UInt32.ofNat (c :: s).length = p + UInt32.ofNat s.length := by
    rw [List.length_cons, UInt32.ofNat_add, add_comm (UInt32.ofNat s.length), ← add_assoc]
    exact congrArg (· + _) (sub_add_cancel p 1)
  have hlt := length_le_itoaLoop a s
  fun_induction itoaLoop a s generalizing p with
  | case1 a s q hne ih =>
    rw [itoaLoopMem, update_bytesOf _ (by omega), if_pos hne,
      ih (p - 1) hlen (length_le_itoaLoop _ _), hnext]
  | case2 a s q heq =>
    rw [itoaLoopMem, update_bytesOf _ (by omega), if_neg heq,
      ← hnext s (UInt8.ofInt (code '0' + a.tmod 10)) p, add_sub_cancel_right]

/-- **`itoa`** leaves the number at the end of its buffer. -/
theorem itoaMem_eq (hlen : (itoa a).length < 2 ^ 32) :
    itoaMem buf a m = (buf + 29 - UInt32.ofNat (itoa a).length,
      m.written (buf + 29 - UInt32.ofNat (itoa a).length) (itoa a).length (bytesOf (itoa a))) := by
  have hloop := itoaLoopMem_eq (m := m) a [] (buf + 29) hlen
  rw [List.length_nil, LinearMemory.written_zero] at hloop
  rw [itoaMem, hloop]
  show (buf + 29 + 0 - _, m.written (buf + 29 + 0 - _) _ _) = _
  rw [add_zero]
  rfl

theorem stringAt_eq {n : ℕ} (hlen : s.length < n) (hne : ∀ c ∈ s, c ≠ 0)
    (hs : ∀ i < s.length, m (p + UInt32.ofNat i) = s.getD i 0)
    (hnul : m (p + UInt32.ofNat s.length) = 0) : stringAt m n p = s := by
  induction s generalizing n p with
  | nil =>
    obtain ⟨n, rfl⟩ : ∃ k, n = k + 1 := Nat.exists_eq_add_one.mpr hlen
    have hnul : m p = 0 := (congrArg m (add_zero p)).symm.trans hnul
    rw [stringAt, if_pos hnul]
  | cons c s ih =>
    obtain ⟨n, rfl⟩ : ∃ k, n = k + 1 := Nat.exists_eq_add_one.mpr (Nat.zero_lt_of_lt hlen)
    have hshift (i : ℕ) : p + 1 + UInt32.ofNat i = p + UInt32.ofNat (i + 1) := by
      rw [UInt32.ofNat_add, add_assoc, add_comm 1]
      rfl
    have hfirst : m p = c := (congrArg m (add_zero p)).symm.trans (hs 0 (Nat.succ_pos _))
    rw [stringAt, hfirst, if_neg (hne c (List.mem_cons_self ..)), ih (Nat.lt_of_succ_lt_succ hlen)
      (fun d hd => hne d (List.mem_cons_of_mem c hd))
      (fun i hi => (congrArg m (hshift i)).trans (hs (i + 1) (Nat.succ_lt_succ hi)))
      ((congrArg m (hshift s.length)).trans hnul)]

/-- No character of a number is a `'\0'`. -/
theorem itoaLoop_ne_zero {p : List UInt8} (hp : ∀ c ∈ p, c ≠ 0) : ∀ c ∈ itoaLoop a p, c ≠ 0 := by
  have hchar (a : ℤ) : UInt8.ofInt (code '0' + a.tmod 10) ≠ 0 := by
    have hspec := tdiv_tmod_spec a (show (0 : ℤ) < 10 by decide)
    have hcode : code '0' = 48 := rfl
    have hmod : ((48 + a.tmod 10) % 2 ^ 8).toNat % 2 ^ 8 = (48 + a.tmod 10).toNat := by omega
    intro hzero
    have hnat := congrArg UInt8.toNat hzero
    rw [hcode, UInt8.ofInt, UInt8.toNat_ofNat', hmod, UInt8.toNat_zero] at hnat
    omega
  fun_induction itoaLoop a p with
  | case1 a p q hne ih => exact ih (List.forall_mem_cons.mpr ⟨hchar a, hp⟩)
  | case2 a p q heq => exact List.forall_mem_cons.mpr ⟨hchar a, hp⟩

end Itoa

/-! ## What each part writes -/

section Parts

variable {stray : ℤ → ℕ → UInt8} {V : ScreenVars} {args : VaList} {m m' : LinearMemory}
  {text : Board} {fps : ℤ} {str : List UInt8} {y : ℕ} {a : UInt32} {ctl : CString}

theorem memset_vbuf_eqOn :
    Set.EqOn (memset m V.vbuf 0 SCR_SIZE).2 m (V.region .vbuf).placesᶜ := fun a ha => by
  rw [memset_fills]
  exact if_neg ha

theorem drawBoxes_eqOn :
    Set.EqOn (drawBoxes stray V.vbuf text m) m (V.region .vbuf).placesᶜ := fun a ha => by
  refine (drawBoxes_painted text).kept a ?_
  rintro ⟨j, -, hink⟩
  exact ha (hink.inside (box_on_screen j).2.1 (box_on_screen j).2.2)

/-- A string in the first line. -/
theorem drawString_eqOn (hy : y + 8 * str.length ≤ 320) :
    Set.EqOn (drawString stray V.vbuf 14 str 0 y m) m (V.region .vbuf).placesᶜ := fun a ha => by
  refine (drawString_painted 0 hy).kept a ?_
  intro (hink : LineInk stray V.vbuf (0 : ℕ) str y a)
  exact ha (hink.inside (by decide) hy)

/-- `itoa` writes the characters of its buffer in front of the `'\0'`. -/
theorem itoaMem_outside {buf : UInt32} (hl : -2 ^ 31 ≤ fps) (hu : fps < 2 ^ 31)
    (ha : 29 ≤ (a - buf).toNat) : (itoaMem buf fps m).2 a = m a := by
  have hlen := length_itoa_le hl hu
  have hn : (UInt32.ofNat (itoa fps).length).toNat = (itoa fps).length :=
    UInt32.toNat_ofNat_of_lt (show _ < 2 ^ 32 by omega)
  rw [itoaMem_eq (by omega)]
  refine if_neg fun hlt => ?_
  have hsplit : a - buf = (a - (buf + 29 - UInt32.ofNat (itoa fps).length)) +
      (29 - UInt32.ofNat (itoa fps).length) := by abel
  have hend : (29 - UInt32.ofNat (itoa fps).length).toNat = 29 - (itoa fps).length := by
    rw [UInt32.toNat_sub, hn]
    show (2 ^ 32 - (itoa fps).length + 29) % 2 ^ 32 = _
    omega
  rw [hsplit, UInt32.toNat_add, hend] at ha
  omega

/-- The `'\0'` behind the number stays. -/
theorem itoaMem_nul {buf : UInt32} (hl : -2 ^ 31 ≤ fps) (hu : fps < 2 ^ 31) :
    (itoaMem buf fps m).2 (buf + 29) = m (buf + 29) :=
  itoaMem_outside hl hu (by rw [add_sub_cancel_left]; decide)

theorem itoaMem_eqOn (hl : -2 ^ 31 ≤ fps) (hu : fps < 2 ^ 31) :
    Set.EqOn (itoaMem V.itoaBuf fps m).2 m (V.region .itoaBuf).placesᶜ := fun a ha =>
  itoaMem_outside hl hu (by
    have ha : ¬(a - V.itoaBuf).toNat < 30 := ha
    omega)

/-- **The number in the buffer of `itoa`**, if the last byte of the buffer is 0. -/
theorem stringAt_itoaMem {buf : UInt32} (hl : -2 ^ 31 ≤ fps) (hu : fps < 2 ^ 31)
    (hnul : m (buf + 29) = 0) :
    stringAt (itoaMem buf fps m).2 30 (itoaMem buf fps m).1 = itoa fps := by
  have hlen := length_itoa_le hl hu
  have hlast : (itoaMem buf fps m).2 (buf + 29) = 0 := (itoaMem_nul hl hu).trans hnul
  rw [itoaMem_eq (by omega)] at hlast ⊢
  refine stringAt_eq (by omega) (itoaLoop_ne_zero (List.forall_mem_nil _)) (fun i hi => ?_) ?_
  · have hi' : (UInt32.ofNat i).toNat = i := UInt32.toNat_ofNat_of_lt (show i < 2 ^ 32 by omega)
    dsimp only
    rw [LinearMemory.written, add_sub_cancel_left, hi', if_pos hi, bytesOf, hi']
  · rwa [sub_add_cancel]

theorem printfMem_eqOn (hin : (V.region .printfBuf).Inside) :
    Set.EqOn (printfMem V.printfBuf ctl args m) m (V.region .printfBuf).placesᶜ := fun a ha => by
  have ha : ¬(a - V.printfBuf).toNat < 256 := ha
  have hin : V.printfBuf.toNat + 256 ≤ 2 ^ 32 := hin
  have hlt := a.toNat_lt
  rw [UInt32.toNat_sub] at ha
  rw [printfMem, printf_mem_outside (by omega), Int.toNat_natCast, UInt32.ofNat_toNat]

theorem declareWinner_eqOn (hin : (V.region .printfBuf).Inside) (check : Bool) (other who : ℤ) :
    Set.EqOn (declareWinner V args check other who ctl m) m
      ((V.region .printfBuf).places ∪ (V.region .winner).places)ᶜ := fun a ha => by
  rw [Set.mem_compl_iff, Set.mem_union, not_or] at ha
  rw [declareWinner]
  split
  · exact (if_neg ha.2).trans (printfMem_eqOn hin ha.1)
  · rfl

theorem winnerIn_congr (h : Set.EqOn m m' (V.region .winner).places) :
    V.winnerIn m = V.winnerIn m' := by
  refine congrArg (fun w : UInt32 => int32 w.toNat) (LinearMemory.loadWord_congr fun k hk => h ?_)
  have hk' : (UInt32.ofNat k).toNat = k := UInt32.toNat_ofNat_of_lt (show k < 2 ^ 32 by omega)
  show (V.winner + UInt32.ofNat k - V.winner).toNat < 4
  rwa [add_sub_cancel_left, hk']

theorem winnerIn_declareWinner (check : Bool) (other : ℤ) {who : ℤ} (hwho : 0 ≤ who)
    (hlt : who < 2 ^ 31) :
    V.winnerIn (declareWinner V args check other who ctl m) =
      if check ∧ V.winnerIn m ≠ other then who else V.winnerIn m := by
  rw [declareWinner]
  split
  · have hword : (UInt32.ofInt who).toNat = who.toNat := by
      rw [UInt32.ofInt, UInt32.toNat_ofNat']
      omega
    rw [ScreenVars.winnerIn, LinearMemory.loadWord_storeWord, hword, Int.toNat_of_nonneg hwho]
    exact int32_eq (by omega) hlt
  · rfl

end Parts

/-! ## All of it -/

section All

variable {stray : ℤ → ℕ → UInt8} {V : ScreenVars} {args : VaList} {m m' : LinearMemory} {g : Game}
  {fps : ℤ}

theorem last_mem_itoaBuf : V.itoaBuf + 29 ∈ (V.region .itoaBuf).places := by
  show (V.itoaBuf + 29 - V.itoaBuf).toNat < 30
  rw [add_sub_cancel_left]
  decide

/-- The label: what is drawn is the text of `itoa`. -/
theorem drawLabel_eq (hV : V.Fit) (hl : -2 ^ 31 ≤ fps) (hu : fps < 2 ^ 31)
    (hnul : m (V.itoaBuf + 29) = 0) : drawLabel stray V fps m =
      drawString stray V.vbuf 14 (literal "FPS") 0 ((itoa fps).length * 8)
        (itoaMem V.itoaBuf fps
          (drawString stray V.vbuf 14 (itoa fps) 0 0 (itoaMem V.itoaBuf fps m).2)).2 := by
  have hlen := length_itoa_le hl hu
  have hkept : (itoaMem V.itoaBuf fps m).2 (V.itoaBuf + 29) = 0 := (itoaMem_nul hl hu).trans hnul
  have hdrawn : drawString stray V.vbuf 14 (itoa fps) 0 0 (itoaMem V.itoaBuf fps m).2
      (V.itoaBuf + 29) = 0 :=
    (drawString_eqOn (y := 0) (by omega) (hV.subset_compl (by decide) last_mem_itoaBuf)).trans hkept
  rw [drawLabel]
  dsimp only
  rw [stringAt_itoaMem hl hu hnul, stringAt_itoaMem hl hu hdrawn]

/-- **The label in the buffer**, whatever is beside the buffer. -/
theorem drawLabel_vbuf (hV : V.Fit) (hl : -2 ^ 31 ≤ fps) (hu : fps < 2 ^ 31)
    (hnul : m (V.itoaBuf + 29) = 0) (hsame : Set.EqOn m m' (V.region .vbuf).places) :
    Set.EqOn (drawLabel stray V fps m)
      (drawString stray V.vbuf 14 (literal "FPS") 0 ((itoa fps).length * 8)
        (drawString stray V.vbuf 14 (itoa fps) 0 0 m')) (V.region .vbuf).places := by
  have hlen := length_itoa_le hl hu
  have hfps : (literal "FPS").length = 3 := rfl
  have hitoa (m : LinearMemory) :
      Set.EqOn (itoaMem V.itoaBuf fps m).2 m (V.region .vbuf).places :=
    (itoaMem_eqOn hl hu).mono (hV.subset_compl (by decide))
  have hnumber (m : LinearMemory) : Painted m (LineInk stray V.vbuf 0 (itoa fps) (0 : ℕ)) 14
      (drawString stray V.vbuf 14 (itoa fps) 0 (0 : ℕ) m) := drawString_painted 0 (by omega)
  have hword (m : LinearMemory) :
      Painted m (LineInk stray V.vbuf 0 (literal "FPS") ((itoa fps).length * 8 : ℕ)) 14
        (drawString stray V.vbuf 14 (literal "FPS") 0 ((itoa fps).length * 8 : ℕ) m) :=
    drawString_painted 0 (by omega)
  push_cast at hnumber hword
  rw [drawLabel_eq hV hl hu hnul]
  exact (hword _).eqOn (hword _)
    ((hitoa _).trans ((hnumber _).eqOn (hnumber _) ((hitoa m).trans hsame)))

theorem drawLabel_eqOn (hV : V.Fit) (hl : -2 ^ 31 ≤ fps) (hu : fps < 2 ^ 31)
    (hnul : m (V.itoaBuf + 29) = 0) {a : UInt32} (hbuf : a ∉ (V.region .vbuf).places)
    (hitoa : 29 ≤ (a - V.itoaBuf).toNat) : drawLabel stray V fps m a = m a := by
  have hlen := length_itoa_le hl hu
  have hfps : (literal "FPS").length = 3 := rfl
  have hnumber (m : LinearMemory) : drawString stray V.vbuf 14 (itoa fps) 0 (0 : ℕ) m a = m a :=
    drawString_eqOn (by omega) hbuf
  have hword (m : LinearMemory) :
      drawString stray V.vbuf 14 (literal "FPS") 0 ((itoa fps).length * 8 : ℕ) m a = m a :=
    drawString_eqOn (by omega) hbuf
  push_cast at hnumber hword
  rw [drawLabel_eq hV hl hu hnul]
  exact (hword _).trans ((itoaMem_outside hl hu hitoa).trans
    ((hnumber _).trans (itoaMem_outside hl hu hitoa)))

/-- The board, and the winner, in front of the label. -/
theorem drawBoard_vbuf (hV : V.Fit) :
    Set.EqOn (drawBoard stray V args g m)
      (drawBoxes stray V.vbuf g.text (memset m V.vbuf 0 SCR_SIZE).2) (V.region .vbuf).places := by
  have hsub : (V.region .vbuf).places ⊆
      ((V.region .printfBuf).places ∪ (V.region .winner).places)ᶜ := by
    rw [Set.compl_union]
    exact Set.subset_inter (hV.subset_compl (by decide)) (hV.subset_compl (by decide))
  exact ((declareWinner_eqOn (hV.inside _) ..).mono hsub).trans
    ((declareWinner_eqOn (hV.inside _) ..).mono hsub)

theorem drawBoard_eqOn (hV : V.Fit) : Set.EqOn (drawBoard stray V args g m) m
    ((V.region .vbuf).places ∪ ((V.region .printfBuf).places ∪ (V.region .winner).places))ᶜ := by
  intro a ha
  rw [Set.mem_compl_iff, Set.mem_union, not_or] at ha
  exact (declareWinner_eqOn (hV.inside _) _ _ _ ha.2).trans
    ((declareWinner_eqOn (hV.inside _) _ _ _ ha.2).trans
      ((drawBoxes_eqOn ha.1).trans (memset_vbuf_eqOn ha.1)))

/-- **The winner** is the one that `redrawScreen` says. -/
theorem winnerIn_drawBoard (hV : V.Fit) (hw : V.winnerIn m = g.winner) :
    V.winnerIn (drawBoard stray V args g m) = (redrawScreen g).winner := by
  have hsub : (V.region .winner).places ⊆ (V.region .vbuf).placesᶜ :=
    hV.subset_compl (by decide)
  have hdrawn : V.winnerIn (drawBoxes stray V.vbuf g.text (memset m V.vbuf 0 SCR_SIZE).2) =
      g.winner :=
    (winnerIn_congr ((drawBoxes_eqOn.mono hsub).trans (memset_vbuf_eqOn.mono hsub))).trans hw
  rw [drawBoard]
  simp only [winnerIn_declareWinner _ _ (by decide : (0 : ℤ) ≤ 2) (by decide),
    winnerIn_declareWinner _ _ (by decide : (0 : ℤ) ≤ 1) (by decide), hdrawn]
  rw [redrawScreen]
  by_cases hp : winpCheck g ∧ g.winner ≠ 2
  · have hcheck : wincCheck { g with winner := 1 } = wincCheck g := rfl
    simp only [if_pos hp, apply_ite Game.winner, hcheck]
  · simp only [if_neg hp, apply_ite Game.winner]

/-- The last byte of the buffer of `itoa`, when the board has been drawn. -/
theorem drawBoard_nul (hV : V.Fit) (hnul : m (V.itoaBuf + 29) = 0) :
    drawBoard stray V args g m (V.itoaBuf + 29) = 0 := by
  refine (drawBoard_eqOn hV ?_).trans hnul
  rw [Set.compl_union, Set.compl_union]
  exact ⟨hV.subset_compl (by decide) last_mem_itoaBuf, hV.subset_compl (by decide) last_mem_itoaBuf,
    hV.subset_compl (by decide) last_mem_itoaBuf⟩

/-- The buffer is copied to the screen. -/
theorem redrawMemory_eq_moved (hV : V.Fit) : redrawMemory stray V args g fps m =
    (drawLabel stray V fps (drawBoard stray V args g m)).moved VMEM_ADDR V.vbuf 64000 := by
  have hin : V.vbuf.toNat + SCR_SIZE.toNat ≤ 2 ^ 32 := hV.inside .vbuf
  rw [redrawMemory, memcpy, memmove_eq_moved hin (by decide)]
  rfl

theorem redrawMemory_outside (hV : V.Fit) {a : UInt32} (ha : a ∉ (V.region .screen).places) :
    redrawMemory stray V args g fps m a =
      drawLabel stray V fps (drawBoard stray V args g m) a := by
  rw [redrawMemory_eq_moved hV]
  exact if_neg ha

/-- **The picture** is on the screen. -/
theorem redrawMemory_spot (hV : V.Fit) (hl : -2 ^ 31 ≤ fps) (hu : fps < 2 ^ 31)
    (hnul : m (V.itoaBuf + 29) = 0) {r c : ℕ} (hr : r < 200) (hc : c < 320) :
    redrawMemory stray V args g fps m (spot VMEM_ADDR r c) =
      picture stray g.text (label fps) r c := by
  have hoff : (spot VMEM_ADDR r c - VMEM_ADDR).toNat < 64000 := by
    rw [toNat_spot VMEM_ADDR hr hc]
    omega
  have hin : spot V.vbuf r c ∈ (V.region .vbuf).places := by
    show (spot V.vbuf r c - V.vbuf).toNat < 64000
    rw [toNat_spot V.vbuf hr hc]
    omega
  rw [redrawMemory_eq_moved hV]
  refine (if_pos hoff).trans ?_
  rw [spot, add_sub_cancel_left]
  exact (drawLabel_vbuf hV hl hu (drawBoard_nul hV hnul) (drawBoard_vbuf hV) hin).trans
    (drawFrame_spot hl hu hr hc)

/-- **The winner**, when everything has been drawn. -/
theorem winnerIn_redrawMemory (hV : V.Fit) (hl : -2 ^ 31 ≤ fps) (hu : fps < 2 ^ 31)
    (hnul : m (V.itoaBuf + 29) = 0) (hw : V.winnerIn m = g.winner) :
    V.winnerIn (redrawMemory stray V args g fps m) = (redrawScreen g).winner := by
  have hboard : V.winnerIn (drawBoard stray V args g m) = _ := winnerIn_drawBoard hV hw
  rw [← hboard]
  refine winnerIn_congr fun a ha => ?_
  have hout : a ∉ (V.region .itoaBuf).places := hV.subset_compl (by decide) ha
  have hitoa : ¬(a - V.itoaBuf).toNat < 30 := hout
  rw [redrawMemory_outside hV (hV.subset_compl (by decide) ha)]
  exact drawLabel_eqOn hV hl hu (drawBoard_nul hV hnul) (hV.subset_compl (by decide) ha) (by omega)

/-- **`redraw_screen`.** The picture is on the screen and the winner has been declared; the last
byte of the buffer of `itoa` is 0, as it was; and nothing but the screen, the buffer, the buffers of
`itoa` and `printf` and `winner` is written. -/
theorem redrawMemory_shows (hV : V.Fit) (hl : -2 ^ 31 ≤ fps) (hu : fps < 2 ^ 31)
    (hnul : m (V.itoaBuf + 29) = 0) :
    (∀ r < 200, ∀ c < 320, redrawMemory stray V args g fps m (spot VMEM_ADDR r c) =
      picture stray g.text (label fps) r c) ∧
    (V.winnerIn m = g.winner →
      V.winnerIn (redrawMemory stray V args g fps m) = (redrawScreen g).winner) ∧
    redrawMemory stray V args g fps m (V.itoaBuf + 29) = 0 ∧
    ∀ a, (∀ k, a ∉ (V.region k).places) → redrawMemory stray V args g fps m a = m a := by
  have hboard : drawBoard stray V args g m (V.itoaBuf + 29) = 0 := drawBoard_nul hV hnul
  refine ⟨fun r hr c hc => redrawMemory_spot hV hl hu hnul hr hc,
    winnerIn_redrawMemory hV hl hu hnul, ?_, fun a ha => ?_⟩
  · have hend : 29 ≤ (V.itoaBuf + 29 - V.itoaBuf).toNat := by
      rw [add_sub_cancel_left]
      decide
    rw [redrawMemory_outside hV (hV.subset_compl (by decide) last_mem_itoaBuf),
      drawLabel_eqOn hV hl hu hboard (hV.subset_compl (by decide) last_mem_itoaBuf) hend, hboard]
  · have hitoa : ¬(a - V.itoaBuf).toNat < 30 := ha .itoaBuf
    rw [redrawMemory_outside hV (ha .screen), drawLabel_eqOn hV hl hu hboard (ha .vbuf) (by omega)]
    refine drawBoard_eqOn hV ?_
    rw [Set.compl_union, Set.compl_union]
    exact ⟨ha .vbuf, ha .printfBuf, ha .winner⟩

/-- The variables in the order in which they might be linked. -/
def screenVars : ScreenVars := ⟨0x8050000, 0x8060000, 0x8060020, 0x8060120⟩

theorem screenVars_fit : screenVars.Fit where
  inside k := by cases k <;> decide
  apart k k' hne := by cases k <;> cases k' <;> first | exact absurd rfl hne | decide

/-- The game in which the player has the first row. -/
def wonGame : Game :=
  { text := ![79, 79, 79, 0, 88, 88, 0, 0, 0]
    index := fun i => (i : ℕ)
    winner := 0
    has_added := false
    flags := ⟨fun _ => false, false⟩
    seed := 0 }

/-- The player's row is drawn, and the player has won. -/
theorem redrawMemory_shows_won :
    redrawMemory (fun _ _ => 0) screenVars noArgs wonGame 30 (fun _ => 0) (spot VMEM_ADDR 60 102) =
        48 ∧
      screenVars.winnerIn (redrawMemory (fun _ _ => 0) screenVars noArgs wonGame 30 fun _ => 0) =
        1 := by
  obtain ⟨hpicture, hwinner, -⟩ := @redrawMemory_shows (fun _ _ => 0) screenVars noArgs
    (fun _ => 0) wonGame 30 screenVars_fit (by decide) (by decide) rfl
  exact ⟨(hpicture 60 (by decide) 102 (by decide)).trans (by decide),
    (hwinner (by decide)).trans (by decide)⟩

end All

end OsLab
