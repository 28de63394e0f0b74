import OsLab.Disk.Formatter

/-!
# Sequences of `bit_alloc` calls

Calls of `bit_alloc` in either mode, one after the other on the same bitmap, are the first-fit
allocations that their modes ask for, as long as each finds a clear block in its zone. The zones
overlap, so an inode may be put among the data, but no block is given out twice.

## Main definitions

* `bitAllocs` — the block numbers that a sequence of calls returns, and the bitmap after it
* `EachFinds` — each call finds a clear block at or after its base byte

## Main results

* `bitAllocs_firstFit` — what such a sequence returns and marks
-/

namespace OsLab

/-- The block numbers that a sequence of calls returns, and the bitmap after it. -/
def bitAllocs : Bitmap → ℕ → List AllocMode → List ℕ × Bitmap
  | bitmap, _, [] => ([], bitmap)
  | bitmap, bitoffset, mode :: modes =>
    let r := bitAlloc bitmap bitoffset mode
    let rest := bitAllocs r.1 r.2 modes
    (r.2 :: rest.1, rest.2)

/-- Each call finds a clear block at or after its base byte. -/
def EachFinds : Bitmap → ℕ → List AllocMode → Prop
  | _, _, [] => True
  | bitmap, bitoffset, mode :: modes =>
    (∃ b, 8 * mode.base ≤ b ∧ b < NR_BLOCK ∧ used bitmap b = false) ∧
      EachFinds (bitAlloc bitmap bitoffset mode).1 (bitAlloc bitmap bitoffset mode).2 modes

/-- The first clear block of a zone that has one. -/
theorem exists_firstFit {bitmap : Bitmap} {lo : ℕ}
    (h : ∃ b, lo ≤ b ∧ b < NR_BLOCK ∧ used bitmap b = false) :
    ∃ b, FirstFit (used bitmap) lo b ∧ b < NR_BLOCK := by
  refine ⟨Nat.find h, ⟨(Nat.find_spec h).1, (Nat.find_spec h).2.2, fun c hc hlt => ?_⟩,
    (Nat.find_spec h).2.1⟩
  have hnot := Nat.find_min h hlt
  have hcn : c < NR_BLOCK := Nat.lt_trans hlt (Nat.find_spec h).2.1
  by_contra hclear
  exact hnot ⟨hc, hcn, by simpa using hclear⟩

/-- **`bit_alloc` is a first-fit allocator.** -/
theorem firstFits_bitAllocs {modes : List AllocMode} {bitmap : Bitmap} {bitoffset : ℕ}
    (h : EachFinds bitmap bitoffset modes) :
    FirstFits (fun mode => 8 * mode.base) (used bitmap) modes (bitAllocs bitmap bitoffset modes).1
      (used (bitAllocs bitmap bitoffset modes).2) := by
  induction modes generalizing bitmap bitoffset with
  | nil => exact .nil _
  | cons mode modes ih =>
    obtain ⟨hfinds, hrest⟩ := h
    obtain ⟨b, hb, hlt⟩ := exists_firstFit hfinds
    obtain ⟨hreturned, hused⟩ := bitAlloc_eq bitoffset hb hlt
    refine .cons (b := (bitAlloc bitmap bitoffset mode).2) (by rw [hreturned]; exact hb) ?_
    rw [hreturned, ← hused, ← hreturned]
    exact ih hrest

/-- **What a sequence of calls returns and marks.** Each call takes the first clear block from its
base byte on. So no block is returned twice, and after `formatter` neither the blocks of the bitmap
nor the directory are, nor is data put before block 288. -/
theorem bitAllocs_firstFit (bitmap : Bitmap) (bitoffset : ℕ) (modes : List AllocMode)
    (h : EachFinds bitmap bitoffset modes) :
    FirstFits (fun mode => 8 * mode.base) (used bitmap) modes (bitAllocs bitmap bitoffset modes).1
        (used (bitAllocs bitmap bitoffset modes).2) ∧
      (bitAllocs bitmap bitoffset modes).1.Nodup ∧
      (bitmap = formatBitmap → (∀ b ∈ (bitAllocs bitmap bitoffset modes).1, 257 ≤ b) ∧
        ∀ e ∈ modes.zip (bitAllocs bitmap bitoffset modes).1, e.1 = .alloc_data → 288 ≤ e.2) := by
  have hfits := firstFits_bitAllocs h
  refine ⟨hfits, hfits.nodup, fun hformat => ⟨fun b hb => ?_, fun e he hdata => ?_⟩⟩
  · have hclear := hfits.clear hb
    rw [hformat, used_formatBitmap] at hclear
    exact Nat.not_lt.mp (of_decide_eq_false hclear)
  · have hle := hfits.le he
    rw [hdata] at hle
    exact hle

theorem eachFinds_formatBitmap :
    EachFinds formatBitmap 0 [.alloc_inode, .alloc_data, .alloc_inode] := by
  have hfits : FirstFit (used formatBitmap) (8 * AllocMode.alloc_inode.base) 257 := by
    refine ⟨by decide, by rw [used_formatBitmap]; decide, fun c _ hc => ?_⟩
    rw [used_formatBitmap]
    exact decide_eq_true hc
  have hclear : ∀ b, 258 ≤ b →
      used (bitAlloc formatBitmap 0 .alloc_inode).1 b = false := fun b hb => by
    rw [(bitAlloc_eq 0 hfits (by decide)).2, Function.update_of_ne (by omega), used_formatBitmap]
    exact decide_eq_false (by omega)
  have hdata : FirstFit (used (bitAlloc formatBitmap 0 .alloc_inode).1)
      (8 * AllocMode.alloc_data.base) 288 :=
    ⟨by decide, hclear 288 (by decide), fun c hc hlt => absurd hlt (Nat.not_lt.mpr hc)⟩
  refine ⟨⟨257, by decide, by decide, hfits.clear⟩, ⟨288, by decide, by decide, hdata.clear⟩,
    ⟨258, by decide, by decide, ?_⟩, trivial⟩
  rw [(bitAlloc_eq _ hdata (by decide)).2, Function.update_of_ne (by decide)]
  exact hclear 258 (by decide)

theorem bitAllocs_firstFit_formatBitmap :
    (bitAllocs formatBitmap 0 [.alloc_inode, .alloc_data, .alloc_inode]).1.Nodup :=
  (bitAllocs_firstFit formatBitmap 0 _ eachFinds_formatBitmap).2.1

end OsLab
