import OsLab.FileSystem.Seg

/-!
# String copies

The two string routines of `lib/string.c` that the file system moves data with. Both are about C
strings and not about bytes: `strncpy` goes on with zeros after the first zero it meets, and
`strcpy` stops there, leaving the rest of the target alone. `strncpy_get` and `strcpy_get` state
this byte by byte.

## Main definitions

* `strcpy` — `strcpy(dst + d, src + s)`, for a source with `room` bytes from `s` on, one of them
  zero
* `stringByte` — byte `i` of the string at `s`, and zero behind its end

## Main results

* `strncpy_get`, `strcpy_get` — every byte of the target
-/

namespace OsLab

/-- `strncpy(dst + d, src + s, size)`. The source pointer stops at the first zero. -/
def strncpy (dst : Mem) (d : ℤ) (src : Mem) (s : ℤ) : ℕ → Mem
  | 0 => dst
  | size + 1 => strncpy (Function.update dst d (src s)) (d + 1) src
      (if src s ≠ 0 then s + 1 else s) size

/-- `strcpy(dst + d, src + s)`, for a source with `room` bytes from `s` on, one of them zero. -/
def strcpy (dst : Mem) (d : ℤ) (src : Mem) (s : ℤ) : ℕ → Mem
  | 0 => dst
  | room + 1 =>
    let dst := Function.update dst d (src s)
    if src s ≠ 0 then strcpy dst (d + 1) src (s + 1) room else dst

/-- Byte `i` of the string at `s`, and zero behind its end. -/
def stringByte (src : Mem) (s : ℤ) (i : ℕ) : UInt8 :=
  if ∃ j ≤ i, src (s + j) = 0 then 0 else src (s + i)

variable {dst src : Mem} {d s : ℤ}

theorem stringByte_of_zero (h : src s = 0) (i : ℕ) : stringByte src s i = 0 :=
  if_pos ⟨0, Nat.zero_le i, by simpa using h⟩

@[simp] theorem stringByte_zero : stringByte src s 0 = src s := by
  rw [stringByte]
  split
  · next h =>
    obtain ⟨j, hj, hz⟩ := h
    obtain rfl : j = 0 := by omega
    simpa using hz.symm
  · simp

theorem stringByte_succ (h : src s ≠ 0) (i : ℕ) :
    stringByte src s (i + 1) = stringByte src (s + 1) i := by
  have hshift : ∀ j : ℕ, s + (j + 1 : ℕ) = s + 1 + j := fun j => by push_cast; omega
  rw [stringByte, stringByte, hshift]
  refine if_congr ⟨?_, ?_⟩ rfl rfl
  · rintro ⟨j, hj, hz⟩
    cases j with
    | zero => exact absurd (by simpa using hz) h
    | succ j => exact ⟨j, by omega, by rwa [← hshift]⟩
  · rintro ⟨j, hj, hz⟩
    exact ⟨j + 1, by omega, by rwa [hshift]⟩

theorem stringByte_eq_zero_iff (i : ℕ) :
    stringByte src s i = 0 ↔ ∃ j ≤ i, src (s + (j : ℕ)) = 0 := by
  rw [stringByte]
  split
  · next h => exact iff_of_true rfl h
  · next h => exact iff_of_false (fun hz => h ⟨i, Nat.le_refl i, hz⟩) h

/-- A byte of a string is what is stored there unless a zero comes before it. -/
theorem stringByte_eq_self_iff (i : ℕ) :
    stringByte src s i = src (s + i) ↔ ∀ j < i, src (s + (j : ℕ)) = 0 → src (s + i) = 0 := by
  rw [stringByte]
  constructor
  · intro h j hj hz
    rwa [if_pos ⟨j, by omega, hz⟩, eq_comm] at h
  · intro h
    split
    · next hex =>
      obtain ⟨j, hj, hz⟩ := hex
      rcases Nat.eq_or_lt_of_le hj with rfl | hlt
      · exact hz.symm
      · exact (h j hlt hz).symm
    · rfl

/-- A string that was moved as a string is the same string. -/
theorem stringByte_idem {src' : Mem} {s' : ℤ} {i : ℕ}
    (h : ∀ j ≤ i, src' (s' + (j : ℕ)) = stringByte src s j) :
    stringByte src' s' i = stringByte src s i := by
  by_cases hz : stringByte src s i = 0
  · rw [hz, stringByte_eq_zero_iff]
    exact ⟨i, Nat.le_refl i, by rw [h i (Nat.le_refl i), hz]⟩
  · rw [stringByte, if_neg, h i (Nat.le_refl i)]
    rintro ⟨j, hj, hj0⟩
    rw [h j hj, stringByte_eq_zero_iff] at hj0
    obtain ⟨l, hl, hl0⟩ := hj0
    exact hz ((stringByte_eq_zero_iff i).mpr ⟨l, by omega, hl0⟩)

/-- **What `strncpy` writes.** -/
theorem strncpy_get (dst src : Mem) (d s : ℤ) (size : ℕ) (a : ℤ) :
    strncpy dst d src s size a =
      if d ≤ a ∧ a < d + size then stringByte src s (a - d).toNat else dst a := by
  induction size generalizing dst d s with
  | zero => rw [strncpy, if_neg (by omega)]
  | succ size ih =>
    rw [strncpy, ih]
    rcases lt_trichotomy a d with hlt | rfl | hgt
    · rw [if_neg (by omega), if_neg (by omega), Function.update_of_ne (by omega)]
    · rw [if_neg (by omega), if_pos (by omega), Function.update_self, Int.sub_self,
        Int.toNat_zero, stringByte_zero]
    · have hsucc : (a - d).toNat = (a - (d + 1)).toNat + 1 := by omega
      rw [Function.update_of_ne (by omega), hsucc]
      refine if_congr (by push_cast; omega) ?_ rfl
      by_cases hz : src s = 0
      · rw [if_neg (not_not.mpr hz), stringByte_of_zero hz, stringByte_of_zero hz]
      · rw [if_pos hz, stringByte_succ hz]

/-- **What `strcpy` writes.** The string ends at byte `z`. -/
theorem strcpy_get (dst : Mem) (d : ℤ) {room z : ℕ} (hz : z < room) (hend : src (s + z) = 0)
    (hbefore : ∀ j < z, src (s + (j : ℕ)) ≠ 0) (a : ℤ) :
    strcpy dst d src s room a = if d ≤ a ∧ a ≤ d + z then src (s + (a - d)) else dst a := by
  induction room generalizing dst d s z with
  | zero => omega
  | succ room ih =>
    rw [strcpy]
    rcases z with _ | z
    · have hs : src s = 0 := by simpa using hend
      simp only [hs, ne_eq, not_true, if_false]
      rcases eq_or_ne a d with rfl | hne
      · rw [Function.update_self, if_pos (by omega), Int.sub_self, Int.add_zero, hs]
      · rw [Function.update_of_ne hne, if_neg (by omega)]
    · have hs : src s ≠ 0 := by simpa using hbefore 0 (Nat.succ_pos _)
      have hshift : ∀ j : ℕ, s + 1 + j = s + (j + 1 : ℕ) := fun j => by push_cast; omega
      simp only [ne_eq, hs, not_false_iff, if_true]
      rw [ih _ _ (Nat.lt_of_succ_lt_succ hz) (by rw [hshift]; exact hend)
        fun j hj => by rw [hshift]; exact hbefore (j + 1) (Nat.succ_lt_succ hj)]
      rcases eq_or_ne a d with rfl | hne
      · rw [if_neg (by omega), if_pos (by omega), Function.update_self, Int.sub_self, Int.add_zero]
      · rw [Function.update_of_ne hne]
        exact if_congr (by push_cast; omega) (by congr 1; omega) rfl

end OsLab
