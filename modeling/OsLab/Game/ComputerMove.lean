import Mathlib.Data.UInt
import OsLab.Lib.Lcg

/-!
# The computer's move

`update_keypress` answers a move of the player with a loop that draws cells from `rand` until one is
empty. Nothing in it decreases. It ends because the generator comes past every state from every
seed, and so draws every cell (`exists_draw`).

The loop is given the number of draws as fuel; with more fuel it yields the same.

## Main definitions

* `nextSeed` — `seed` after a call of `rand`
* `drawn` — the cell that is drawn, `rand() % 9`
* `computerMove` — the loop of `update_keypress`, for so many draws: the board, and `seed`

## Main results

* `exists_draw` — every cell is drawn
* `computerMove_ends` — the loop ends, and one empty cell is taken
-/

namespace OsLab

/-! ## The code -/

/-- The `text` of the nine boxes. -/
abbrev Board := Fin 9 → UInt8

/-- `'\0'` -/
def emptyText : UInt8 := 0

/-- `'X'` -/
def computerText : UInt8 := 88

/-- `seed` after a call of `rand`. -/
def nextSeed (seed : UInt32) : UInt32 := 0x015A4E35 * seed + 1

/-- What `rand` returns, with the new `seed`. -/
def rand (seed : UInt32) : ℕ × UInt32 :=
  let seed := nextSeed seed
  (((seed >>> 16) &&& 0x7FFF).toNat, seed)

/-- The cell that is drawn, `rand() % 9`. -/
def drawn (seed : UInt32) : Fin 9 := Fin.ofNat 9 (rand seed).1

/-- The loop of `update_keypress`, for so many draws: the board, and `seed`. -/
def computerMove : ℕ → UInt32 → Board → Option (Board × UInt32)
  | 0, _, _ => none
  | fuel + 1, seed, box =>
    let k := drawn seed
    let seed := (rand seed).2
    if box k = emptyText then some (Function.update box k computerText, seed)
    else computerMove fuel seed box

/-! ## The generator -/

section Generator

variable {seed : UInt32}

theorem toNat_nextSeed (seed : UInt32) :
    ((nextSeed seed).toNat : ℤ) ≡ lcg 0x015A4E35 1 seed.toNat [ZMOD 2 ^ 32] := by
  have hmod : (nextSeed seed).toNat = (0x015A4E35 * seed.toNat + 1) % 2 ^ 32 := by
    rw [nextSeed, UInt32.toNat_add, UInt32.toNat_mul, Nat.mod_add_mod]
    rfl
  rw [hmod, Int.natCast_mod]
  exact Int.mod_modEq _ _

theorem toNat_iterate_nextSeed (n : ℕ) (seed : UInt32) :
    ((nextSeed^[n] seed).toNat : ℤ) ≡ (lcg 0x015A4E35 1)^[n] seed.toNat [ZMOD 2 ^ 32] := by
  induction n with
  | zero => rfl
  | succ n ih =>
    rw [Function.iterate_succ_apply', Function.iterate_succ_apply']
    exact (toNat_nextSeed _).trans (Lcg.modEq_step ih)

/-- **Every state is reached** from every seed. -/
theorem exists_iterate_nextSeed (seed t : UInt32) : ∃ n, nextSeed^[n] seed = t := by
  obtain ⟨n, hn⟩ := Lcg.exists_iterate (a := 0x015A4E35) (c := 1) (by decide) odd_one 32
    seed.toNat t.toNat
  refine ⟨n, UInt32.toNat_inj.mp ?_⟩
  have hmod : ((nextSeed^[n] seed).toNat : ℤ) ≡ t.toNat [ZMOD 2 ^ 32] :=
    (toNat_iterate_nextSeed n seed).trans hn
  have hlt := (nextSeed^[n] seed).toNat_lt
  have hlt' := t.toNat_lt
  have heq := hmod.eq
  omega

/-- **Every cell is drawn.** -/
theorem exists_draw (seed : UInt32) (k : Fin 9) : ∃ n, drawn (nextSeed^[n] seed) = k := by
  have hcell :
      ∀ k : Fin 9, Fin.ofNat 9 (((UInt32.ofNat (65536 * k) >>> 16) &&& 0x7FFF).toNat) = k := by
    decide
  obtain ⟨n, hn⟩ := exists_iterate_nextSeed (nextSeed seed) (UInt32.ofNat (65536 * k))
  refine ⟨n, ?_⟩
  have hseed : nextSeed (nextSeed^[n] seed) = UInt32.ofNat (65536 * k) := by
    rw [← hn, ← Function.iterate_succ_apply' nextSeed, Function.iterate_succ_apply]
  rw [drawn, rand]
  dsimp only
  rw [hseed]
  exact hcell k

end Generator

/-! ## The loop -/

section Move

variable {box : Board} {seed : UInt32} {fuel : ℕ}

/-- **One draw.** -/
theorem computerMove_succ (fuel : ℕ) (seed : UInt32) (box : Board) :
    computerMove (fuel + 1) seed box =
      if box (drawn seed) = emptyText then
        some (Function.update box (drawn seed) computerText, nextSeed seed)
      else computerMove fuel (nextSeed seed) box := rfl

/-- The loop draws until a cell is empty. -/
theorem computerMove_eq {n : ℕ} (hn : box (drawn (nextSeed^[n] seed)) = emptyText)
    (hbefore : ∀ m < n, box (drawn (nextSeed^[m] seed)) ≠ emptyText) (hfuel : n < fuel) :
    computerMove fuel seed box =
      some (Function.update box (drawn (nextSeed^[n] seed)) computerText,
        nextSeed^[n + 1] seed) := by
  induction n generalizing seed fuel with
  | zero =>
    obtain ⟨fuel, rfl⟩ := Nat.exists_eq_add_of_lt hfuel
    rw [Nat.zero_add, computerMove_succ]
    exact if_pos hn
  | succ n ih =>
    obtain ⟨fuel, rfl⟩ : ∃ fuel', fuel = fuel' + 1 := ⟨fuel - 1, by omega⟩
    have hfirst : box (drawn seed) ≠ emptyText := hbefore 0 (Nat.zero_lt_succ n)
    rw [computerMove_succ, if_neg hfirst]
    exact ih hn (fun m hm => hbefore (m + 1) (Nat.succ_lt_succ hm)) (Nat.lt_of_succ_lt_succ hfuel)

/-- It goes on as long as the cells that are drawn are taken. -/
theorem computerMove_none (h : ∀ m < fuel, box (drawn (nextSeed^[m] seed)) ≠ emptyText) :
    computerMove fuel seed box = none := by
  induction fuel generalizing seed with
  | zero => rfl
  | succ fuel ih =>
    have hfirst : box (drawn seed) ≠ emptyText := h 0 (Nat.zero_lt_succ fuel)
    rw [computerMove_succ, if_neg hfirst]
    exact ih fun m hm => h (m + 1) (Nat.succ_lt_succ hm)

/-- What the loop has done when it ends. -/
theorem computerMove_eq_some {r : Board × UInt32} (h : computerMove fuel seed box = some r) :
    ∃ k, box k = emptyText ∧ r.1 = Function.update box k computerText := by
  induction fuel generalizing seed with
  | zero => cases h
  | succ fuel ih =>
    rw [computerMove_succ] at h
    split at h
    · obtain rfl := Option.some.inj h
      exact ⟨drawn seed, ‹_›, rfl⟩
    · exact ih h

/-- On a full board it draws for ever. -/
theorem computerMove_full (h : ∀ k, box k ≠ emptyText) (fuel : ℕ) (seed : UInt32) :
    computerMove fuel seed box = none :=
  computerMove_none fun _ _ => h _

/-- With an empty cell some amount of fuel is enough. -/
theorem exists_computerMove (seed : UInt32) (h : ∃ k, box k = emptyText) :
    ∃ fuel r, computerMove fuel seed box = some r := by
  obtain ⟨k, hk⟩ := h
  have hex : ∃ n, box (drawn (nextSeed^[n] seed)) = emptyText := by
    obtain ⟨n, hn⟩ := exists_draw seed k
    exact ⟨n, hn ▸ hk⟩
  exact ⟨_, _, computerMove_eq (Nat.find_spec hex) (fun _ hm => Nat.find_min hex hm)
    (Nat.lt_succ_self _)⟩

end Move

/-- **The computer's move ends**, whatever `seed` is, and takes one cell, which was empty. -/
theorem computerMove_ends (seed : UInt32) (box : Board) (h : ∃ k, box k = emptyText) :
    ∃ n k seed', box k = emptyText ∧ (∀ fuel, n ≤ fuel →
      computerMove fuel seed box = some (Function.update box k computerText, seed')) ∧
      ∀ fuel, fuel < n → computerMove fuel seed box = none := by
  obtain ⟨k, hk⟩ := h
  have hex : ∃ n, box (drawn (nextSeed^[n] seed)) = emptyText := by
    obtain ⟨n, hn⟩ := exists_draw seed k
    exact ⟨n, hn ▸ hk⟩
  have hbefore : ∀ m < Nat.find hex, box (drawn (nextSeed^[m] seed)) ≠ emptyText :=
    fun m hm => Nat.find_min hex hm
  refine ⟨Nat.find hex + 1, drawn (nextSeed^[Nat.find hex] seed), nextSeed^[Nat.find hex + 1] seed,
    Nat.find_spec hex, fun fuel hfuel => ?_, fun fuel hfuel => ?_⟩
  · exact computerMove_eq (Nat.find_spec hex) hbefore hfuel
  · exact computerMove_none fun m hm => hbefore m (by omega)

/-- The board of a new game: the computer has the middle. -/
def startBoard : Board := Function.update (fun _ => emptyText) 4 computerText

theorem computerMove_ends_start :
    ∃ n k seed', startBoard k = emptyText ∧ (∀ fuel, n ≤ fuel →
      computerMove fuel 0 startBoard = some (Function.update startBoard k computerText, seed')) ∧
      ∀ fuel, fuel < n → computerMove fuel 0 startBoard = none :=
  computerMove_ends 0 startBoard ⟨0, by decide⟩

end OsLab
