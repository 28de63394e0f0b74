import OsLab.Lib.CInt
import OsLab.Lib.StringInstr
import OsLab.Memory.Page

/-!
# Moving memory

`memmove`, `memcpy` and `memset` of `lib/string.c`. They are there twice: as built they are repeated
string instructions, which take words where the addresses and the length allow it, and under `#else`
there are the loops over bytes. Nothing runs but the first, so the second is what the first has to
agree with.

## Main results

* `memmove_eq_bytewise` — the two `memmove`s are one function, whatever they are called with
* `memset_bytewise` — so are the two `memset`s, as long as the length is an `int`
* `memmove_moves` — blocks that do not run off the end of memory arrive as they were, overlapping
  or not, and nothing else changes
* `linear_memcpy` — copying in the memory of the pages is `memcpy`, at the addresses of the kernel
-/

namespace OsLab

/-! ## As built -/

/-- `(int)p % 4 == 0` -/
def Aligned (p : UInt32) : Prop := (int32 p.toNat).tmod 4 = 0

instance (p : UInt32) : Decidable (Aligned p) := inferInstanceAs (Decidable (_ = _))

section StringInstr

open StringState

variable (m : LinearMemory)

/-- `memset` -/
def memset (v c n : UInt32) : UInt32 × LinearMemory :=
  if n = 0 then (v, m)
  else if Aligned v ∧ n % 4 = 0 then
    let c := c &&& 0xFF
    let c := (c <<< 24) ||| (c <<< 16) ||| (c <<< 8) ||| c
    -- `cld; rep stosl`
    (v, (rep ⟨m, v, 0⟩ (stosl false c) (n / 4).toNat).mem)
  else
    -- `cld; rep stosb`
    (v, (rep ⟨m, v, 0⟩ (stosb false c.toUInt8) n.toNat).mem)

/-- `memmove` -/
def memmove (dst src n : UInt32) : UInt32 × LinearMemory :=
  let s := src
  let d := dst
  if s < d ∧ s + n > d then
    let s := s + n
    let d := d + n
    if Aligned s ∧ Aligned d ∧ n % 4 = 0 then
      -- `std; rep movsl`
      (dst, (rep ⟨m, d - 4, s - 4⟩ (movsl true) (n / 4).toNat).mem)
    else
      -- `std; rep movsb`
      (dst, (rep ⟨m, d - 1, s - 1⟩ (movsb true) n.toNat).mem)
  else
    if Aligned s ∧ Aligned d ∧ n % 4 = 0 then
      -- `cld; rep movsl`
      (dst, (rep ⟨m, d, s⟩ (movsl false) (n / 4).toNat).mem)
    else
      -- `cld; rep movsb`
      (dst, (rep ⟨m, d, s⟩ (movsb false) n.toNat).mem)

/-- `memcpy` -/
def memcpy (dst src n : UInt32) : UInt32 × LinearMemory := memmove m dst src n

end StringInstr

/-! ## Under `#else` -/

namespace Bytewise

/-- `while (--m >= 0) *p++ = c;` -/
def memsetLoop (mem : LinearMemory) (p : UInt32) (c : UInt8) (m : ℤ) : LinearMemory :=
  if 0 ≤ int32 (m - 1) then
    memsetLoop (Function.update mem p c) (p + 1) c (int32 (m - 1))
  else mem
termination_by uint32 m
decreasing_by
  -- the count that is not negative after it has gone down is not 0 before
  have hmod : int32 (m - 1) % 2 ^ 32 = (m - 1) % 2 ^ 32 := Int.bmod_emod ..
  have hlt := int32_lt (m - 1)
  simp only [uint32]
  omega

/-- `memset` -/
def memset (mem : LinearMemory) (v c n : UInt32) : UInt32 × LinearMemory :=
  (v, memsetLoop mem v c.toUInt8 (int32 n.toNat))

/-- `while (n-- > 0) *--d = *--s;` -/
def moveDown (m : LinearMemory) (d s : UInt32) : ℕ → LinearMemory
  | 0 => m
  | n + 1 => moveDown (Function.update m (d - 1) (m (s - 1))) (d - 1) (s - 1) n

/-- `while (n-- > 0) *d++ = *s++;` -/
def moveUp (m : LinearMemory) (d s : UInt32) : ℕ → LinearMemory
  | 0 => m
  | n + 1 => moveUp (Function.update m d (m s)) (d + 1) (s + 1) n

/-- `memmove` -/
def memmove (m : LinearMemory) (dst src n : UInt32) : UInt32 × LinearMemory :=
  let s := src
  let d := dst
  if s < d ∧ s + n > d then
    let s := s + n
    let d := d + n
    (dst, moveDown m d s n.toNat)
  else
    (dst, moveUp m d s n.toNat)

end Bytewise

/-! ## What they come to -/

section Moves

open StringState

variable {m : LinearMemory} {dst src v c n : UInt32}

theorem aligned_iff {p : UInt32} : Aligned p ↔ p.toNat % 4 = 0 := by
  have hlt := p.toNat_lt
  rw [Aligned, ← Int.dvd_iff_tmod_eq_zero, int32, Int.bmod_def]
  split <;> omega

theorem moveUp_eq_rep (k : ℕ) {d s : UInt32} :
    Bytewise.moveUp m d s k = (rep ⟨m, d, s⟩ (movsb false) k).mem := by
  induction k generalizing m d s with
  | zero => rfl
  | succ k ih => exact ih

theorem moveDown_eq_rep (k : ℕ) {d s : UInt32} :
    Bytewise.moveDown m d s k = (rep ⟨m, d - 1, s - 1⟩ (movsb true) k).mem := by
  induction k generalizing m d s with
  | zero => rfl
  | succ k ih => exact ih

/-- Where `memmove` takes words it can. -/
theorem words_fit {d s : UInt32} (h : Aligned s ∧ Aligned d ∧ n % 4 = 0) :
    (d - s).toNat % 4 = 0 ∧ 4 * (n / 4).toNat = n.toNat := by
  obtain ⟨hs, hd, hn⟩ := h
  rw [aligned_iff] at hs hd
  rw [← UInt32.toNat_inj, UInt32.toNat_mod] at hn
  rw [UInt32.toNat_sub, UInt32.toNat_div]
  have hlt := s.toNat_lt
  change n.toNat % 4 = 0 at hn
  constructor
  · omega
  · show 4 * (n.toNat / 4) = n.toNat
    omega

theorem rep_words_up {d s : UInt32} (h : Aligned s ∧ Aligned d ∧ n % 4 = 0) :
    rep ⟨m, d, s⟩ (movsl false) (n / 4).toNat = rep ⟨m, d, s⟩ (movsb false) n.toNat := by
  obtain ⟨hdist, hn⟩ := words_fit h
  have hwords : rep ⟨m, d, s⟩ (movsl false) (n / 4).toNat =
      rep ⟨m, d, s⟩ (movsb false) (4 * (n / 4).toNat) := rep_movsl_up hdist
  rw [hwords, hn]

theorem rep_words_down {d s : UInt32} (h : Aligned s ∧ Aligned d ∧ n % 4 = 0) :
    (rep ⟨m, d - 4, s - 4⟩ (movsl true) (n / 4).toNat).mem =
      (rep ⟨m, d - 1, s - 1⟩ (movsb true) n.toNat).mem := by
  obtain ⟨hdist, hn⟩ := words_fit h
  have h43 : (4 : UInt32) - 3 = 1 := by decide
  have hlast (a : UInt32) : a - 4 + 3 = a - 1 := by rw [sub_add, h43]
  have hdist' : (d - 4 - (s - 4)).toNat % 4 = 0 := by rwa [sub_sub_sub_cancel_right]
  have hwords : (rep ⟨m, d - 4, s - 4⟩ (movsl true) (n / 4).toNat).shift 3 =
      rep (StringState.shift ⟨m, d - 4, s - 4⟩ 3) (movsb true) (4 * (n / 4).toNat) :=
    rep_movsl_down hdist'
  have hstart : StringState.shift ⟨m, d - 4, s - 4⟩ 3 = ⟨m, d - 1, s - 1⟩ := by
    rw [shift, hlast, hlast]
  rw [hn, hstart] at hwords
  show (StringState.shift _ 3).mem = _
  rw [hwords]

/-- `memmove` copies byte by byte, or as if it did. -/
theorem memmove_eq_rep : memmove m dst src n =
    (dst, if src < dst ∧ src + n > dst then
        (rep ⟨m, dst + n - 1, src + n - 1⟩ (movsb true) n.toNat).mem
      else (rep ⟨m, dst, src⟩ (movsb false) n.toNat).mem) := by
  simp only [memmove]
  split
  · split
    next h => rw [rep_words_down h]
    next => rfl
  · split
    next h => rw [rep_words_up h]
    next => rfl

/-- **The two `memmove`s agree.** -/
theorem memmove_eq_bytewise : memmove = Bytewise.memmove := by
  funext m dst src n
  simp only [memmove_eq_rep, Bytewise.memmove, moveDown_eq_rep, moveUp_eq_rep]
  split <;> rfl

/-- Blocks that do not run off the end of memory. -/
theorem memmove_eq_moved (hs : src.toNat + n.toNat ≤ 2 ^ 32) (hd : dst.toNat + n.toNat ≤ 2 ^ 32) :
    memmove m dst src n = (dst, m.moved dst src n.toNat) := by
  have hsub (a b : UInt32) : (a - b).toNat = (2 ^ 32 - b.toNat + a.toNat) % 2 ^ 32 :=
    UInt32.toNat_sub a b
  have hadd : (src + n).toNat = (src.toNat + n.toNat) % 2 ^ 32 := UInt32.toNat_add ..
  have hltd := dst.toNat_lt
  have hdist := hsub dst src
  have hdist' := hsub src dst
  rw [memmove_eq_rep]
  simp only [gt_iff_lt, UInt32.lt_iff_toNat_lt]
  split
  next h =>
    have hfit : (dst + n - 1 - (src + n - 1)).toNat + n.toNat ≤ 2 ^ 32 := by
      rw [sub_sub_sub_cancel_right, add_sub_add_right_eq_sub]
      omega
    have hfirst (a : UInt32) : a + n - 1 + 1 - UInt32.ofNat n.toNat = a := by
      rw [sub_add_cancel, UInt32.ofNat_toNat, add_sub_cancel_right]
    have hrep : rep ⟨m, dst + n - 1, src + n - 1⟩ (movsb true) n.toNat = _ := rep_movsb_down hfit
    rw [hrep, hfirst, hfirst]
  next h =>
    have hfit : (src - dst).toNat + n.toNat ≤ 2 ^ 32 := by omega
    have hrep : rep ⟨m, dst, src⟩ (movsb false) n.toNat = _ := rep_movsb_up hfit
    rw [hrep]

/-- **Overlapping or not**, a block arrives as it was, and nothing else changes. -/
theorem memmove_moves (hs : src.toNat + n.toNat ≤ 2 ^ 32) (hd : dst.toNat + n.toNat ≤ 2 ^ 32) :
    (memmove m dst src n).1 = dst ∧
      (∀ k < n, (memmove m dst src n).2 (dst + k) = m (src + k)) ∧
      ∀ a : UInt32, a < dst ∨ dst.toNat + n.toNat ≤ a.toNat → (memmove m dst src n).2 a = m a := by
  rw [memmove_eq_moved hs hd]
  refine ⟨rfl, fun k hk => ?_, fun a ha => if_neg ?_⟩
  · have hoff : dst + k - dst = k := add_sub_cancel_left dst k
    have hin : (dst + k - dst).toNat < n.toNat := by
      rw [hoff]
      exact UInt32.lt_iff_toNat_lt.mp hk
    exact (if_pos hin).trans (by rw [hoff])
  · have hlt := a.toNat_lt
    rw [UInt32.lt_iff_toNat_lt] at ha
    rw [UInt32.toNat_sub]
    omega

/-- Eight bytes moved up by four: the last of them was overwritten while they were moved. -/
theorem memmove_moves_overlap :
    (memmove (fun a => a.toUInt8) 0x1004 0x1000 8).2 (0x1004 + 7) = 0x07 :=
  (memmove_moves (by decide) (by decide)).2.1 7 (by decide)

/-- `c = (c<<24)|(c<<16)|(c<<8)|c;` -/
theorem byte32_fill (k : ℕ) (hk : k < 4) : ByteBlock.byte32
    (((c &&& 0xFF) <<< 24) ||| ((c &&& 0xFF) <<< 16) ||| ((c &&& 0xFF) <<< 8) ||| (c &&& 0xFF)) k =
      c.toUInt8 := by
  have hfill : ∀ x < 256, ∀ k < 4,
      (x <<< 24 % 2 ^ 32 ||| x <<< 16 % 2 ^ 32 ||| x <<< 8 % 2 ^ 32 ||| x) / 256 ^ k % 2 ^ 8 =
        x := by
    decide +kernel
  have hlow : (c &&& 0xFF).toNat = c.toNat % 2 ^ 8 := by
    rw [UInt32.toNat_and]
    exact Nat.and_two_pow_sub_one_eq_mod c.toNat 8
  rw [ByteBlock.byte32, ← UInt8.toNat_inj, UInt8.toNat_ofNat', UInt32.toNat_toUInt8]
  simp only [UInt32.toNat_or, UInt32.toNat_shiftLeft, hlow]
  exact hfill _ (Nat.mod_lt _ (by decide)) k hk

/-- `memset`, whatever it is called with. -/
theorem memset_fills : memset m v c n = (v, m.filled v c.toUInt8 n.toNat) := by
  have hlt := n.toNat_lt
  have hbytes : (rep ⟨m, v, 0⟩ (stosb false c.toUInt8) n.toNat).mem =
      m.filled v c.toUInt8 n.toNat := by
    rw [rep_stosb (Nat.le_of_lt hlt)]
  rw [memset]
  split
  next h => rw [h, UInt32.toNat_zero, LinearMemory.filled_zero]
  next =>
    split
    next h =>
      obtain ⟨-, hn⟩ := words_fit ⟨h.1, h.1, h.2⟩
      simp only [rep_stosl byte32_fill, hn, hbytes]
    next => rw [hbytes]

theorem memsetLoop_eq_rep {x : UInt8} {k : ℕ} (hk : k < 2 ^ 31) :
    Bytewise.memsetLoop m v x k = (rep ⟨m, v, 0⟩ (stosb false x) k).mem := by
  induction k generalizing m v with
  | zero =>
    rw [Bytewise.memsetLoop, if_neg (by decide)]
    rfl
  | succ k ih =>
    have hpred : int32 ((k + 1 : ℕ) - 1) = k := by
      rw [Nat.cast_succ, add_sub_cancel_right]
      exact int32_eq (by omega) (by omega)
    rw [Bytewise.memsetLoop, hpred, if_pos (Int.natCast_nonneg k), ih (by omega)]
    rfl

/-- **The two `memset`s agree** if the length is an `int`; if not, the loop is not entered. -/
theorem memset_bytewise : Bytewise.memset m v c n =
    if 2 ^ 31 < n.toNat then (v, m) else memset m v c n := by
  have hlt := n.toNat_lt
  rw [Bytewise.memset]
  rcases Nat.lt_or_ge n.toNat (2 ^ 31) with h | h
  · rw [if_neg (by omega), int32_eq (by omega) (by omega), memsetLoop_eq_rep h,
      rep_stosb (by omega), memset_fills]
  · have hneg : int32 n.toNat = n.toNat - 2 ^ 32 := int32_eq_of_overflow (by omega) (by omega)
    rw [hneg, Bytewise.memsetLoop]
    rcases Nat.eq_or_lt_of_le h with heq | hgt
    · -- the first `--m` overflows, and leaves the greatest `int`
      have hmax : int32 ((n.toNat : ℤ) - 2 ^ 32 - 1) = (2 ^ 31 - 1 : ℕ) := by
        rw [← heq]
        decide
      have hrep (k : ℕ) : rep ⟨Function.update m v c.toUInt8, v + 1, 0⟩ (stosb false c.toUInt8) k =
          rep ⟨m, v, 0⟩ (stosb false c.toUInt8) (k + 1) := rfl
      have hcount : 2 ^ 31 - 1 + 1 = n.toNat := by omega
      rw [hmax, if_pos (Int.natCast_nonneg _), memsetLoop_eq_rep (by decide), hrep, hcount,
        rep_stosb (by omega), if_neg (by omega), memset_fills]
    · have hstop : int32 ((n.toNat : ℤ) - 2 ^ 32 - 1) = n.toNat - 2 ^ 32 - 1 :=
        int32_eq (by omega) (by omega)
      rw [hstop, if_neg (by omega), if_pos hgt]

end Moves

/-! ## The memory of the kernel -/

/-- The memory behind the addresses of the kernel. -/
def Memory.linear (m : Memory) : LinearMemory := fun a => m.byte (phys a)

section Linear

variable {m : Memory} {dst src c n : UInt32}

theorem Memory.byte_poke {a len b : ℕ} {f : ℕ → UInt8} :
    (m.poke a len f).byte b = if a ≤ b ∧ b < a + len then f (b - a) else m.byte b := by
  have hpos : 4096 * (b / 4096) + b % 4096 = b := Nat.div_add_mod b 4096
  rw [byte, poke, ByteBlock.get_ofFn, if_pos (Nat.mod_lt b (by decide)), hpos, byte]

theorem phys_eq {a : UInt32} (hk : KOFFSET ≤ a) : phys a + 0xC0000000 = a.toNat := by
  have hle : 0xC0000000 ≤ a.toNat := UInt32.le_iff_toNat_le.mp hk
  rw [phys, UInt32.toNat_sub_of_le _ _ hk]
  exact Nat.sub_add_cancel hle

theorem phys_add {a o : UInt32} (hk : KOFFSET ≤ a) (h : a.toNat + o.toNat < 2 ^ 32) :
    phys (a + o) = phys a + o.toNat := by
  have hadd : (a + o).toNat = a.toNat + o.toNat := by
    rw [UInt32.toNat_add, Nat.mod_eq_of_lt h]
  have hk' : KOFFSET ≤ a + o := UInt32.le_iff_toNat_le.mpr <| by
    have := UInt32.le_iff_toNat_le.mp hk
    omega
  have h₁ := phys_eq hk
  have h₂ := phys_eq hk'
  omega

/-- What is written in one place is written at the address that the place has. -/
theorem Memory.linear_poke {f : ℕ → UInt8} (hk : KOFFSET ≤ dst)
    (hd : dst.toNat + n.toNat ≤ 2 ^ 32) :
    (m.poke (phys dst) n.toNat f).linear =
      m.linear.written dst n.toNat fun o => f o.toNat := by
  funext a
  have hlt : phys a < 2 ^ 32 := (a - KOFFSET).toNat_lt
  have hdist : a - dst = a - KOFFSET - (dst - KOFFSET) := (sub_sub_sub_cancel_right a dst _).symm
  have hoff : (a - dst).toNat = (2 ^ 32 - phys dst + phys a) % 2 ^ 32 := by
    rw [hdist, UInt32.toNat_sub, phys, phys]
  have hphys := phys_eq hk
  rw [linear, byte_poke, LinearMemory.written, linear]
  refine ite_congr (by simp only [eq_iff_iff]; omega) (fun ha => ?_) fun _ => rfl
  congr 1
  omega

/-- **Copying between kernel addresses.** -/
theorem linear_memcpy (hkd : KOFFSET ≤ dst) (hd : dst.toNat + n.toNat ≤ 2 ^ 32)
    (hks : KOFFSET ≤ src) (hs : src.toNat + n.toNat ≤ 2 ^ 32) :
    memcpy m.linear dst src n = (dst, (m.memcpy dst src n.toNat).linear) := by
  rw [memcpy, memmove_eq_moved hs hd, Memory.memcpy, Memory.linear_poke hkd hd]
  refine congrArg (Prod.mk dst) (LinearMemory.written_congr fun o ho => ?_)
  rw [Memory.linear, phys_add hks (by omega)]

/-- The first page of the kernel's addresses, copied to the second. -/
theorem linear_memcpy_page :
    memcpy (Memory.linear ⟨fun _ => ⟨none, 0⟩, none, fun _ => zeroFrame⟩) 0xC0001000 0xC0000000
        4096 =
      (0xC0001000, (Memory.memcpy ⟨fun _ => ⟨none, 0⟩, none, fun _ => zeroFrame⟩ 0xC0001000
        0xC0000000 4096).linear) :=
  linear_memcpy (by decide) (by decide) (by decide) (by decide)

end Linear

end OsLab
