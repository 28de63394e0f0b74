import Mathlib.Data.List.GetD

/-!
# Splicing into a list

`splice l o s` is `l` with the elements from position `o` on replaced by `s`. Splicing in a list in
two pieces, one after the other, is splicing it in at once (`splice_append`).
-/

variable {α : Type*} {l s t : List α} {o : ℕ}

/-- `l` with `s` in place of its elements from position `o` on. -/
def splice (l : List α) (o : ℕ) (s : List α) : List α := l.take o ++ s ++ l.drop (o + s.length)

theorem length_splice (h : o + s.length ≤ l.length) : (splice l o s).length = l.length := by
  rw [splice, List.length_append, List.length_append, List.length_take, List.length_drop]
  omega

/-- Two lists of the same length are equal if they are equal at every position. -/
theorem ext_getD {d : α} (hlen : l.length = t.length)
    (h : ∀ p < l.length, l.getD p d = t.getD p d) : l = t := by
  refine List.ext_getElem hlen fun p hp hp' => ?_
  have hp := h p hp
  rwa [List.getD_eq_getElem _ _ (by omega), List.getD_eq_getElem _ _ (by omega)] at hp

/-- **What is at each position.** -/
theorem getD_splice (h : o + s.length ≤ l.length) (p : ℕ) (d : α) :
    (splice l o s).getD p d =
      if o ≤ p ∧ p < o + s.length then s.getD (p - o) d else l.getD p d := by
  have htake : (l.take o).length = o := by rw [List.length_take]; omega
  rw [splice, List.append_assoc]
  rcases Nat.lt_or_ge p o with hlt | hge
  · rw [List.getD_append _ _ _ _ (by omega), if_neg (by omega), List.getD_eq_getElem?_getD,
      List.getD_eq_getElem?_getD, List.getElem?_take_of_lt hlt]
  · rw [List.getD_append_right _ _ _ _ (by omega), htake]
    rcases Nat.lt_or_ge (p - o) s.length with hin | hout
    · rw [List.getD_append _ _ _ _ hin, if_pos (by omega)]
    · have hpos : o + s.length + (p - o - s.length) = p := by omega
      rw [List.getD_append_right _ _ _ _ hout, if_neg (by omega), List.getD_eq_getElem?_getD,
        List.getD_eq_getElem?_getD, List.getElem?_drop, hpos]

/-- **One piece after the other.** -/
theorem splice_append (h : o + (s ++ t).length ≤ l.length) :
    splice (splice l o s) (o + s.length) t = splice l o (s ++ t) := by
  rw [List.length_append] at h
  have hs : (splice l o s).length = l.length := length_splice (by omega)
  have hst : (splice l o (s ++ t)).length = l.length :=
    length_splice (by rw [List.length_append]; omega)
  have hlen : (splice (splice l o s) (o + s.length) t).length = l.length :=
    (length_splice (by omega)).trans hs
  rcases l with _ | ⟨d, l⟩
  · have h0 : splice (splice [] o s) (o + s.length) t = [] := List.eq_nil_of_length_eq_zero hlen
    have h1 : splice [] o (s ++ t) = [] := List.eq_nil_of_length_eq_zero hst
    rw [h0, h1]
  refine ext_getD (d := d) (hlen.trans hst.symm) fun p _ => ?_
  rw [getD_splice (by omega), getD_splice (by omega),
    getD_splice (by rw [List.length_append]; omega), List.length_append]
  rcases Nat.lt_or_ge p (o + s.length) with hlt | hge
  · rw [if_neg (by omega)]
    rcases Nat.lt_or_ge p o with hlt' | hge'
    · rw [if_neg (by omega), if_neg (by omega)]
    · rw [if_pos (by omega), if_pos (by omega), List.getD_append _ _ _ _ (by omega)]
  · by_cases hin : p < o + s.length + t.length
    · have hpos : p - o - s.length = p - (o + s.length) := by omega
      rw [if_pos ⟨hge, hin⟩, if_pos (by omega), List.getD_append_right _ _ _ _ (by omega), hpos]
    · rw [if_neg (by omega), if_neg (by omega), if_neg (by omega)]
