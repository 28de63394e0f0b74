import Mathlib.Data.Fin.VecNotation
import OsLab.Game.Font
import OsLab.Game.NumberText
import OsLab.Game.SavedGame
import OsLab.Lib.Paint
import OsLab.Memory.Memmove

/-!
# The screen

`redraw_screen` draws the boxes, the frame rate and the word `FPS` into the buffer `vbuf`, and hands
it to the `VMEMORY` system call, which copies it to video memory. Nothing in `draw_pixel` asks
whether a pixel is on the screen; all of them are, because of where the boxes are and of how long
the number can be.

The coordinates of `video.c` are a row `x` and a column `y`. Those of the boxes are numbers of type
`float` without a fraction.

Here only the pixels are followed, those in the buffer and those on the screen. `redraw_screen`
writes more than these (the static buffers of `itoa` and `printf`, and `winner`); all that it writes
is in `redrawMemory`, whose pixels are shown to be these.

## Main definitions

* `drawFrame` — the pixels that `redraw_screen` draws before `display_buffer`, with `fps` from
  `get_fps`
* `redrawFrame` — the pixels that `redraw_screen` leaves, in the buffer and on the screen
* `picture` — the pixel in row `r` and column `c`: text in the first row of characters, and the
  boxes below it

## Main results

* `drawCharacter_painted`, `drawString_painted` — what is painted
* `redrawFrame_spot` — the picture on the screen, pixel by pixel
* `redrawFrame_injective` — the board can be read off the screen
-/

namespace OsLab

/-! ## The code -/

/-- The pixels of a row. -/
def SCR_WIDTH : ℕ := 320
/-- The pixels of the screen. -/
def SCR_SIZE : UInt32 := 64000
/-- Where video memory is. -/
def VMEM_ADDR : UInt32 := 0xA0000

/-- `(p[i] >> j) & 1`, where `p = font8x8_basic[(int)ch]` -/
def glyphBit (stray : ℤ → ℕ → UInt8) (ch : UInt8) (i j : ℕ) : Bool :=
  (fontRow stray (schar ch) i >>> UInt8.ofNat j) &&& 1 ≠ 0

section Draw

variable (stray : ℤ → ℕ → UInt8) (vbuf : UInt32)

/-- The address of a pixel in `vbuf`. -/
def pixel (x y : ℤ) : UInt32 := vbuf + UInt32.ofInt (x * 2 ^ 8 + x * 2 ^ 6 + y)

/-- `draw_pixel` -/
def drawPixel (x y : ℤ) (color : UInt8) (m : LinearMemory) : LinearMemory :=
  Function.update m (pixel vbuf x y) color

/-- `draw_character` -/
def drawCharacter (ch : UInt8) (x y : ℤ) (color : UInt8) (m : LinearMemory) : LinearMemory :=
  countUp (fun i m => countUp (fun j m =>
    if glyphBit stray ch i j then drawPixel vbuf (x + i) (y + j) color m else m) m 8) m 8

/-- `draw_string` -/
def drawString (color : UInt8) : List UInt8 → ℤ → ℤ → LinearMemory → LinearMemory
  | [], _, _, m => m
  | ch :: str, x, y, m =>
    let m := drawCharacter stray vbuf ch x y color m
    if SCR_WIDTH ≤ y + 8 then drawString color str (x + 8) 0 m
    else drawString color str x (y + 8) m

/-- `box[j].x` -/
def boxX : Fin 9 → ℕ := ![60, 60, 60, 120, 120, 120, 180, 180, 180]

/-- `box[j].y` -/
def boxY : Fin 9 → ℕ := ![100, 200, 300, 100, 200, 300, 100, 200, 300]

/-- The loop over the boxes in `redraw_screen`. -/
def drawBoxes (text : Board) (m : LinearMemory) : LinearMemory :=
  (List.finRange 9).foldl (fun m j =>
    if text j ≠ emptyText then drawCharacter stray vbuf (text j) (boxX j) (boxY j) 48 m else m) m

/-- The pixels that `redraw_screen` draws before `display_buffer`, with `fps` from `get_fps`. The
buffer that `itoa` writes the number to is left out, as are the winner and `printf`. -/
def drawFrame (text : Board) (fps : ℤ) (m : LinearMemory) : LinearMemory :=
  -- `prepare_buffer`
  let m := (memset m vbuf 0 SCR_SIZE).2
  let m := drawBoxes stray vbuf text m
  let m := drawString stray vbuf 14 (itoa fps) 0 0 m
  drawString stray vbuf 14 (literal "FPS") 0 ((itoa fps).length * 8) m

/-- The pixels that `redraw_screen` leaves, in the buffer and on the screen. -/
def redrawFrame (text : Board) (fps : ℤ) (m : LinearMemory) : LinearMemory :=
  -- `display_buffer`, and in the kernel `memcpy(VMEM_ADDR, (void *)tf->ebx, SCR_SIZE)`
  (memcpy (drawFrame stray vbuf text fps m) VMEM_ADDR vbuf SCR_SIZE).2

end Draw

/-! ## The picture -/

/-- The pixel in row `r` and column `c`: text in the first row of characters, and the boxes
below it. -/
def picture (stray : ℤ → ℕ → UInt8) (text : Board) (label : List UInt8) (r c : ℕ) : UInt8 :=
  if r < 8 ∧ c / 8 < label.length ∧ glyphBit stray (label.getD (c / 8) 0) r (c % 8) then 14
  else if ∃ j, text j ≠ emptyText ∧ (boxX j ≤ r ∧ r < boxX j + 8) ∧ (boxY j ≤ c ∧ c < boxY j + 8) ∧
    glyphBit stray (text j) (r - boxX j) (c - boxY j) then 48
  else 0

/-! ## What is painted -/

section Painted

variable {stray : ℤ → ℕ → UInt8} {vbuf : UInt32} {m : LinearMemory} {ch color : UInt8}

/-- The places of a character at row `x` and column `y`. -/
def Ink (stray : ℤ → ℕ → UInt8) (vbuf : UInt32) (ch : UInt8) (x y : ℤ) (a : UInt32) : Prop :=
  ∃ i < 8, ∃ j < 8, glyphBit stray ch i j ∧ a = pixel vbuf (x + i) (y + j)

theorem drawCharacter_painted (stray : ℤ → ℕ → UInt8) (vbuf : UInt32) (ch : UInt8) (x y : ℤ)
    (color : UInt8) (m : LinearMemory) :
    Painted m (Ink stray vbuf ch x y) color (drawCharacter stray vbuf ch x y color m) := by
  refine Painted.countUp 8 fun i _ m => ?_
  refine Painted.countUp 8 fun j _ m => ?_
  split
  next hbit => exact (Painted.update m _ color).congr fun a => by simp [hbit]
  next hbit => exact (Painted.refl m color).congr fun a => by simp [hbit]

/-- A string on one line: its places, from column `y` on. -/
def LineInk (stray : ℤ → ℕ → UInt8) (vbuf : UInt32) (x : ℤ) : List UInt8 → ℤ → UInt32 → Prop
  | [], _, _ => False
  | ch :: str, y, a => Ink stray vbuf ch x y a ∨ LineInk stray vbuf x str (y + 8) a

/-- A string that fits on its line. -/
theorem drawString_painted {str : List UInt8} (x : ℤ) {y : ℕ} (h : y + 8 * str.length ≤ 320) :
    Painted m (LineInk stray vbuf x str y) color (drawString stray vbuf color str x y m) := by
  induction str generalizing y m with
  | nil => exact Painted.refl m color
  | cons ch str ih =>
    rw [List.length_cons] at h
    have hfirst := drawCharacter_painted stray vbuf ch x y color m
    have hrest := ih (y := y + 8) (m := drawCharacter stray vbuf ch x y color m) (by omega)
    rw [drawString]
    split
    next hend =>
      -- the last character, behind which the next line begins
      have hnil : str = [] := List.length_eq_zero_iff.mp (by simp only [SCR_WIDTH] at hend; omega)
      subst hnil
      exact hfirst.congr fun a => by simp [LineInk]
    next => exact hfirst.union hrest

theorem lineInk_append {x : ℤ} {str str' : List UInt8} {y : ℤ} {a : UInt32} :
    LineInk stray vbuf x (str ++ str') y a ↔
      LineInk stray vbuf x str y a ∨ LineInk stray vbuf x str' (str.length * 8 + y) a := by
  induction str generalizing y with
  | nil => simp [LineInk]
  | cons ch str ih =>
    have hlen : ((str.length : ℤ) * 8 + (y + 8)) = ((str.length + 1 : ℕ) : ℤ) * 8 + y := by
      push_cast
      ring
    rw [List.cons_append, LineInk, LineInk, ih, or_assoc, hlen, List.length_cons]

theorem drawBoxes_painted (text : Board) :
    Painted m (fun a => ∃ j, text j ≠ emptyText ∧ Ink stray vbuf (text j) (boxX j) (boxY j) a) 48
      (drawBoxes stray vbuf text m) := by
  have hboxes := Painted.foldl (m := m) (v := 48)
    (S := fun j a => text j ≠ emptyText ∧ Ink stray vbuf (text j) (boxX j) (boxY j) a)
    (f := fun m j => if text j ≠ emptyText then
      drawCharacter stray vbuf (text j) (boxX j) (boxY j) 48 m else m)
    (fun j m => ?_) (List.finRange 9)
  · exact hboxes.congr fun a => by simp
  · split
    next hj => exact (drawCharacter_painted ..).congr fun a => (and_iff_right hj).symm
    next hj => exact (Painted.refl m 48).congr fun a => by simp [hj]

/-! ### Where it is -/

/-- The address of the pixel in row `r` and column `c`. -/
def spot (base : UInt32) (r c : ℕ) : UInt32 := base + UInt32.ofNat (320 * r + c)

variable {x y r c r' c' : ℕ}

theorem pixel_eq_spot (x y : ℕ) : pixel vbuf x y = spot vbuf x y := by
  have hmod : (((x : ℤ) * 2 ^ 8 + x * 2 ^ 6 + y) % 2 ^ 32).toNat = (320 * x + y) % 2 ^ 32 := by
    omega
  rw [pixel, spot, UInt32.ofInt, hmod]
  congr 1
  exact UInt32.toNat_inj.mp (by simp)

theorem toNat_spot (base : UInt32) (hr : r < 200) (hc : c < 320) :
    (spot base r c - base).toNat = 320 * r + c := by
  rw [spot, add_sub_cancel_left]
  exact UInt32.toNat_ofNat_of_lt (show 320 * r + c < 2 ^ 32 by omega)

theorem spot_inj (hr : r < 200) (hc : c < 320) (hr' : r' < 200) (hc' : c' < 320) :
    spot vbuf r c = spot vbuf r' c' ↔ r = r' ∧ c = c' := by
  refine ⟨fun h => ?_, fun h => by rw [h.1, h.2]⟩
  have hnat := toNat_spot vbuf hr hc
  rw [h, toNat_spot vbuf hr' hc'] at hnat
  omega

theorem ink_spot (hx : x + 8 ≤ 200) (hy : y + 8 ≤ 320) (hr : r < 200) (hc : c < 320) :
    Ink stray vbuf ch x y (spot vbuf r c) ↔
      (x ≤ r ∧ r < x + 8) ∧ (y ≤ c ∧ c < y + 8) ∧ glyphBit stray ch (r - x) (c - y) := by
  have hpixel (i j : ℕ) : pixel vbuf ((x : ℤ) + i) ((y : ℤ) + j) = spot vbuf (x + i) (y + j) := by
    rw [← pixel_eq_spot]
    push_cast
    rfl
  constructor
  · rintro ⟨i, hi, j, hj, hbit, heq⟩
    rw [hpixel, spot_inj hr hc (by omega) (by omega)] at heq
    obtain ⟨rfl, rfl⟩ := heq
    rw [Nat.add_sub_cancel_left, Nat.add_sub_cancel_left]
    exact ⟨⟨by omega, by omega⟩, ⟨by omega, by omega⟩, hbit⟩
  · rintro ⟨⟨hxr, hrx⟩, ⟨hyc, hcy⟩, hbit⟩
    refine ⟨r - x, by omega, c - y, by omega, hbit, ?_⟩
    rw [hpixel, Nat.add_sub_cancel' hxr, Nat.add_sub_cancel' hyc]

theorem Ink.inside {a : UInt32} (hx : x + 8 ≤ 200) (hy : y + 8 ≤ 320)
    (h : Ink stray vbuf ch x y a) : (a - vbuf).toNat < 64000 := by
  obtain ⟨i, hi, j, hj, -, rfl⟩ := h
  have hpixel : pixel vbuf ((x : ℤ) + i) ((y : ℤ) + j) = spot vbuf (x + i) (y + j) := by
    rw [← pixel_eq_spot]
    push_cast
    rfl
  rw [hpixel, toNat_spot vbuf (by omega) (by omega)]
  omega

theorem lineInk_spot {str : List UInt8} (hx : x + 8 ≤ 200) (hy : y + 8 * str.length ≤ 320)
    (hr : r < 200) (hc : c < 320) :
    LineInk stray vbuf x str y (spot vbuf r c) ↔
      (x ≤ r ∧ r < x + 8) ∧ y ≤ c ∧ (c - y) / 8 < str.length ∧
        glyphBit stray (str.getD ((c - y) / 8) 0) (r - x) ((c - y) % 8) := by
  induction str generalizing y with
  | nil => simp [LineInk]
  | cons ch str ih =>
    rw [List.length_cons] at hy ⊢
    have hnext : ((y : ℤ) + 8) = (y + 8 : ℕ) := by push_cast; rfl
    rw [LineInk, ink_spot hx (by omega) hr hc, hnext, ih (by omega)]
    rcases Nat.lt_or_ge c (y + 8) with hlt | hge
    · -- in the first character, or in front of it
      have hmod : y ≤ c → (c - y) / 8 = 0 ∧ (c - y) % 8 = c - y := fun _ => by omega
      constructor
      · rintro (⟨hrow, ⟨hyc, -⟩, hbit⟩ | ⟨-, hyc, -⟩)
        · rw [(hmod hyc).1, (hmod hyc).2]
          exact ⟨hrow, hyc, Nat.succ_pos _, hbit⟩
        · omega
      · rintro ⟨hrow, hyc, -, hbit⟩
        rw [(hmod hyc).1, (hmod hyc).2] at hbit
        exact .inl ⟨hrow, ⟨hyc, hlt⟩, hbit⟩
    · have hdiv : (c - y) / 8 = (c - (y + 8)) / 8 + 1 := by omega
      have hmod : (c - y) % 8 = (c - (y + 8)) % 8 := by omega
      rw [hdiv, hmod, List.getD_cons_succ, Nat.succ_lt_succ_iff]
      constructor
      · rintro (⟨-, ⟨-, hcy⟩, -⟩ | ⟨hrow, -, hlen, hbit⟩)
        · omega
        · exact ⟨hrow, by omega, hlen, hbit⟩
      · rintro ⟨hrow, -, hlen, hbit⟩
        exact .inr ⟨hrow, hge, hlen, hbit⟩

theorem LineInk.inside {str : List UInt8} {a : UInt32} (hx : x + 8 ≤ 200)
    (hy : y + 8 * str.length ≤ 320) (h : LineInk stray vbuf x str y a) :
    (a - vbuf).toNat < 64000 := by
  induction str generalizing y with
  | nil => exact h.elim
  | cons ch str ih =>
    rw [List.length_cons] at hy
    have hnext : ((y : ℤ) + 8) = (y + 8 : ℕ) := by push_cast; rfl
    rw [LineInk, hnext] at h
    rcases h with h | h
    · exact h.inside hx (by omega)
    · exact ih (by omega) h

end Painted

/-! ## The screen -/

section Screen

variable {stray : ℤ → ℕ → UInt8} {vbuf : UInt32} {m : LinearMemory} {text : Board} {fps : ℤ}
  {r c : ℕ}

/-- The line of text. -/
def label (fps : ℤ) : List UInt8 := itoa fps ++ literal "FPS"

theorem length_label (hl : -2 ^ 31 ≤ fps) (hu : fps < 2 ^ 31) : (label fps).length ≤ 13 := by
  have := length_itoa_le hl hu
  rw [label, List.length_append]
  exact Nat.add_le_add this (Nat.le_refl 3)

/-- Where the buffer is: behind video memory, and not across the end of memory. -/
structure BufferFits (vbuf : UInt32) : Prop where
  above : 0xA0000 + 64000 ≤ vbuf.toNat
  below : vbuf.toNat + 64000 ≤ 2 ^ 32

/-- The text is painted over the boxes. -/
theorem drawFrame_painted (hl : -2 ^ 31 ≤ fps) (hu : fps < 2 ^ 31) :
    Painted (drawBoxes stray vbuf text (memset m vbuf 0 SCR_SIZE).2)
      (LineInk stray vbuf 0 (label fps) 0) 14 (drawFrame stray vbuf text fps m) := by
  have hlen := length_itoa_le hl hu
  have hfps : (literal "FPS").length = 3 := rfl
  rw [drawFrame]
  generalize drawBoxes stray vbuf text (memset m vbuf 0 SCR_SIZE).2 = m₀
  have hnumber : Painted m₀ (LineInk stray vbuf 0 (itoa fps) (0 : ℕ)) 14
      (drawString stray vbuf 14 (itoa fps) 0 (0 : ℕ) m₀) := drawString_painted 0 (by omega)
  have hword (m : LinearMemory) :
      Painted m (LineInk stray vbuf 0 (literal "FPS") ((itoa fps).length * 8 : ℕ)) 14
        (drawString stray vbuf 14 (literal "FPS") 0 ((itoa fps).length * 8 : ℕ) m) :=
    drawString_painted 0 (by omega)
  push_cast at hnumber hword
  exact (hnumber.union (hword _)).congr fun a => by rw [label, lineInk_append, add_zero]

theorem box_on_screen (j : Fin 9) : 60 ≤ boxX j ∧ boxX j + 8 ≤ 200 ∧ boxY j + 8 ≤ 320 := by
  have hall : ∀ j, 60 ≤ boxX j ∧ boxX j + 8 ≤ 200 ∧ boxY j + 8 ≤ 320 := by decide
  exact hall j

/-- **The picture in the buffer.** -/
theorem drawFrame_spot (hl : -2 ^ 31 ≤ fps) (hu : fps < 2 ^ 31) (hr : r < 200) (hc : c < 320) :
    drawFrame stray vbuf text fps m (spot vbuf r c) = picture stray text (label fps) r c := by
  have hlen := length_label hl hu
  obtain ⟨htext, hbelow⟩ : Painted _ (LineInk stray vbuf 0 (label fps) (0 : ℕ)) 14
    (drawFrame stray vbuf text fps m) := drawFrame_painted hl hu
  obtain ⟨hboxes, hground⟩ : Painted (memset m vbuf 0 SCR_SIZE).2 _ 48
    (drawBoxes stray vbuf text (memset m vbuf 0 SCR_SIZE).2) := drawBoxes_painted text
  have hlabel : LineInk stray vbuf (0 : ℕ) (label fps) (0 : ℕ) (spot vbuf r c) ↔ _ :=
    lineInk_spot (by decide) (by omega) hr hc
  have hbox (j : Fin 9) : Ink stray vbuf (text j) (boxX j) (boxY j) (spot vbuf r c) ↔ _ :=
    ink_spot (box_on_screen j).2.1 (box_on_screen j).2.2 hr hc
  rw [picture]
  split
  next hink => exact htext _ (hlabel.mpr ⟨⟨Nat.zero_le r, by omega⟩, Nat.zero_le c, hink.2⟩)
  next hink =>
    rw [hbelow _ fun h => hink ⟨by have := (hlabel.mp h).1.2; omega, (hlabel.mp h).2.2⟩]
    split
    next hink =>
      obtain ⟨j, hj, hink⟩ := hink
      exact hboxes _ ⟨j, hj, (hbox j).mpr hink⟩
    next hink =>
      rw [hground _ fun ⟨j, hj, h⟩ => hink ⟨j, hj, (hbox j).mp h⟩, memset_fills]
      refine if_pos ?_
      rw [toNat_spot vbuf hr hc]
      show 320 * r + c < 64000
      omega

theorem redrawFrame_eq_moved (hfits : BufferFits vbuf) : redrawFrame stray vbuf text fps m =
    (drawFrame stray vbuf text fps m).moved VMEM_ADDR vbuf 64000 := by
  rw [redrawFrame, memcpy, memmove_eq_moved hfits.below (by decide)]
  rfl

/-- **The picture on the screen.** -/
theorem redrawFrame_spot (hfits : BufferFits vbuf) (hl : -2 ^ 31 ≤ fps) (hu : fps < 2 ^ 31)
    (hr : r < 200) (hc : c < 320) :
    redrawFrame stray vbuf text fps m (spot VMEM_ADDR r c) =
      picture stray text (label fps) r c := by
  have hin : (spot VMEM_ADDR r c - VMEM_ADDR).toNat < 64000 := by
    rw [toNat_spot VMEM_ADDR hr hc]
    omega
  rw [redrawFrame_eq_moved hfits]
  refine (if_pos hin).trans ?_
  rw [spot, add_sub_cancel_left]
  exact drawFrame_spot hl hu hr hc

/-- A pixel in a box shows that box. -/
theorem picture_box (text : Board) (label : List UInt8) (j : Fin 9) {i k : ℕ} (hi : i < 8)
    (hk : k < 8) : picture stray text label (boxX j + i) (boxY j + k) =
      if text j ≠ emptyText ∧ glyphBit stray (text j) i k then 48 else 0 := by
  have hapart : ∀ j j' : Fin 9, boxX j' ≤ boxX j + 7 → boxX j < boxX j' + 8 →
      boxY j' ≤ boxY j + 7 → boxY j < boxY j' + 8 → j' = j := by decide
  have hbelow := (box_on_screen j).1
  rw [picture, if_neg (by omega)]
  refine if_congr ⟨?_, fun ⟨hj, hbit⟩ => ?_⟩ rfl rfl
  · rintro ⟨j', hj, hrow, hcolumn, hbit⟩
    obtain rfl := hapart j j' (by omega) (by omega) (by omega) (by omega)
    rw [Nat.add_sub_cancel_left, Nat.add_sub_cancel_left] at hbit
    exact ⟨hj, hbit⟩
  · refine ⟨j, hj, ⟨by omega, by omega⟩, ⟨by omega, by omega⟩, ?_⟩
    rwa [Nat.add_sub_cancel_left, Nat.add_sub_cancel_left]

/-- The two marks differ in their first row. -/
theorem glyphBit_marks (stray : ℤ → ℕ → UInt8) :
    glyphBit stray playerText 0 2 ∧ ¬glyphBit stray playerText 0 0 ∧
      glyphBit stray computerText 0 0 ∧ ¬glyphBit stray computerText 0 2 := by
  have hplayer : fontRow stray (schar playerText) 0 = 0x1C := rfl
  have hcomputer : fontRow stray (schar computerText) 0 = 0x63 := rfl
  rw [glyphBit, glyphBit, glyphBit, glyphBit, hplayer, hcomputer]
  decide

/-- **The board can be read off the screen**, whatever the frame rate is. -/
theorem redrawFrame_injective {text' : Board} {fps' : ℤ} {m' : LinearMemory}
    (hfits : BufferFits vbuf) (hl : -2 ^ 31 ≤ fps) (hu : fps < 2 ^ 31) (hl' : -2 ^ 31 ≤ fps')
    (hu' : fps' < 2 ^ 31) (htext : Marked text) (htext' : Marked text')
    (h : ∀ r < 200, ∀ c < 320, redrawFrame stray vbuf text fps m (spot VMEM_ADDR r c) =
      redrawFrame stray vbuf text' fps' m' (spot VMEM_ADDR r c)) : text = text' := by
  obtain ⟨hO, hO', hX, hX'⟩ := glyphBit_marks stray
  funext j
  have hon := box_on_screen j
  have hpixel (k : ℕ) (hk : k < 8) :
      (if text j ≠ emptyText ∧ glyphBit stray (text j) 0 k then (48 : UInt8) else 0) =
        if text' j ≠ emptyText ∧ glyphBit stray (text' j) 0 k then 48 else 0 := by
    have hsame := h (boxX j + 0) (by omega) (boxY j + k) (by omega)
    rwa [redrawFrame_spot hfits hl hu (by omega) (by omega),
      redrawFrame_spot hfits hl' hu' (by omega) (by omega), picture_box _ _ _ (by decide) hk,
      picture_box _ _ _ (by decide) hk] at hsame
  have hfirst := hpixel 0 (by decide)
  have hthird := hpixel 2 (by decide)
  have hneO : playerText ≠ emptyText := by decide
  have hneX : computerText ≠ emptyText := by decide
  rcases htext j with hj | hj | hj <;> rcases htext' j with hj' | hj' | hj' <;>
    simp [hj, hj', hO, hO', hX, hX', hneO, hneX] at hfirst hthird ⊢

theorem redrawFrame_injective_start : startBoard = startBoard :=
  @redrawFrame_injective (fun _ _ => 0) 0x8050000 (fun _ => 0) startBoard 30 startBoard 30
    (fun a => a.toUInt8) ⟨by decide, by decide⟩ (by decide)
    (by decide) (by decide) (by decide) (by unfold Marked; decide) (by unfold Marked; decide)
    fun r hr c hc => by
      rw [redrawFrame_spot ⟨by decide, by decide⟩ (by decide) (by decide) hr hc,
        redrawFrame_spot ⟨by decide, by decide⟩ (by decide) (by decide) hr hc]

end Screen

end OsLab
