import OsLab.Lib.ByteBlock
import Mathlib.Data.UInt
import Mathlib.Logic.Function.Iterate

/-!
# Memory as a string instruction sees it

A linear memory of `2 ^ 32` bytes, and the instructions that move through it: `movsb` and `movsl`
copy a byte or a word from `[esi]` to `[edi]`, `stosb` and `stosl` store `al` or `eax`, and all of
them move on, upwards or downwards as the direction flag says. Addresses wrap around.

What a repeated `movsb` leaves is told without following it: byte by byte the copy is right as long
as it does not come to a byte that it has written itself, which depends on the distance of the two
blocks alone (`rep_movsb_up`, `rep_movsb_down`). Copying words is copying bytes four times as often
if the distance is a multiple of four, and then whatever the blocks are (`rep_movsl`).

## Main definitions

* `LinearMemory` — a byte at each address
* `StringState` — the memory and the index registers
* `rep` — `rep`, with `ecx = n`
-/

/-- A byte at each address. -/
abbrev LinearMemory := UInt32 → UInt8

namespace LinearMemory

variable (m : LinearMemory)

/-- The word at `a`. -/
def loadWord (a : UInt32) : UInt32 := ByteBlock.le32 fun k => m (a + UInt32.ofNat k)

/-- `n` bytes from `dst` on become `f 0`, `f 1`, …. -/
def written (dst : UInt32) (n : ℕ) (f : UInt32 → UInt8) : LinearMemory := fun a =>
  if (a - dst).toNat < n then f (a - dst) else m a

/-- The word at `a` becomes `v`. -/
def storeWord (a v : UInt32) : LinearMemory :=
  m.written a 4 fun o => ByteBlock.byte32 v o.toNat

/-- `n` bytes at `dst` become those at `src`, as they were. -/
def moved (dst src : UInt32) (n : ℕ) : LinearMemory := m.written dst n fun o => m (src + o)

/-- `n` bytes at `dst` become `c`. -/
def filled (dst : UInt32) (c : UInt8) (n : ℕ) : LinearMemory := m.written dst n fun _ => c

variable {m} {dst : UInt32} {n : ℕ} {f g : UInt32 → UInt8}

@[simp] theorem written_zero : m.written dst 0 f = m :=
  funext fun _ => if_neg (Nat.not_lt_zero _)

@[simp] theorem filled_zero {c : UInt8} : m.filled dst c 0 = m := written_zero

theorem written_congr (h : ∀ o, o.toNat < n → f o = g o) :
    m.written dst n f = m.written dst n g :=
  funext fun _ => ite_congr rfl (fun ha => h _ ha) fun _ => rfl

/-- One more byte at the upper end. -/
theorem update_written_up (h : n < 2 ^ 32) :
    Function.update (m.written dst n f) (dst + UInt32.ofNat n) (f (UInt32.ofNat n)) =
      m.written dst (n + 1) f := by
  have hn : (UInt32.ofNat n).toNat = n := UInt32.toNat_ofNat_of_lt h
  funext a
  rcases eq_or_ne a (dst + UInt32.ofNat n) with rfl | hne
  · rw [Function.update_self, written, add_sub_cancel_left, if_pos (by omega)]
  · rw [Function.update_of_ne hne, written, written]
    refine if_congr ⟨fun hlt => by omega, fun hlt => ?_⟩ rfl rfl
    refine Nat.lt_of_le_of_ne (Nat.le_of_lt_succ hlt) fun heq => hne ?_
    rw [← heq, UInt32.ofNat_toNat, add_sub_cancel]

/-- One more byte at the lower end. -/
theorem update_written_down (m : LinearMemory) (dst : UInt32) (n : ℕ) (f : UInt32 → UInt8) :
    Function.update (m.written (dst + 1) n fun o => f (o + 1)) dst (f 0) =
      m.written dst (n + 1) f := by
  funext a
  rcases eq_or_ne a dst with rfl | hne
  · rw [Function.update_self, written, sub_self]
    exact (if_pos (Nat.succ_pos n)).symm
  · have hpos : (a - dst).toNat ≠ 0 := fun h0 => hne (sub_eq_zero.mp (UInt32.toNat_inj.mp h0))
    have hlt := (a - dst).toNat_lt
    have hpred : (a - (dst + 1)).toNat + 1 = (a - dst).toNat := by
      rw [← sub_sub, UInt32.toNat_sub]
      show (2 ^ 32 - 1 + (a - dst).toNat) % 2 ^ 32 + 1 = _
      omega
    rw [Function.update_of_ne hne, written, written, ← sub_sub, sub_add_cancel]
    exact if_congr (by rw [sub_sub]; omega) rfl rfl

theorem update_moved_down {src : UInt32} :
    Function.update (m.moved (dst + 1) (src + 1) n) dst (m src) = m.moved dst src (n + 1) := by
  have h := update_written_down m dst n fun o => m (src + o)
  simp only [add_zero, add_comm _ (1 : UInt32), ← add_assoc] at h
  rwa [moved, moved, add_comm dst, add_comm src]

/-- A word of equal bytes. -/
theorem storeWord_eq_filled {a v : UInt32} {c : UInt8} (h : ∀ k < 4, ByteBlock.byte32 v k = c) :
    m.storeWord a v = m.filled a c 4 :=
  written_congr fun o ho => h o.toNat ho

/-- A word that is loaded and stored is four bytes moved. -/
theorem storeWord_loadWord (dst src : UInt32) :
    m.storeWord dst (m.loadWord src) = m.moved dst src 4 := by
  refine written_congr fun o ho => ?_
  rw [loadWord, ByteBlock.byte32_le32 _ ho, UInt32.ofNat_toNat]

end LinearMemory

/-- The memory and the index registers. -/
@[ext] structure StringState where
  mem : LinearMemory
  edi : UInt32
  esi : UInt32

/-- An index register after an element of `k` bytes, if the direction flag is `df`. -/
def advance (df : Bool) (k a : UInt32) : UInt32 := if df then a - k else a + k

namespace StringState

section Instructions

variable (df : Bool) (al : UInt8) (eax : UInt32) (s : StringState)

/-- `movsb` -/
def movsb : StringState where
  mem := Function.update s.mem s.edi (s.mem s.esi)
  edi := advance df 1 s.edi
  esi := advance df 1 s.esi

/-- `movsl` -/
def movsl : StringState where
  mem := s.mem.storeWord s.edi (s.mem.loadWord s.esi)
  edi := advance df 4 s.edi
  esi := advance df 4 s.esi

/-- `stosb` -/
def stosb : StringState where
  mem := Function.update s.mem s.edi al
  edi := advance df 1 s.edi
  esi := s.esi

/-- `stosl` -/
def stosl : StringState where
  mem := s.mem.storeWord s.edi eax
  edi := advance df 4 s.edi
  esi := s.esi

/-- `rep`, with `ecx = n`. -/
def rep (f : StringState → StringState) (n : ℕ) : StringState := f^[n] s

/-- The state with both index registers `k` further. -/
def shift (k : UInt32) : StringState := { s with edi := s.edi + k, esi := s.esi + k }

end Instructions

@[simp] theorem movsb_mk (df : Bool) (m : LinearMemory) (d a : UInt32) :
    movsb df ⟨m, d, a⟩ = ⟨Function.update m d (m a), advance df 1 d, advance df 1 a⟩ := rfl

@[simp] theorem stosb_mk (df : Bool) (c : UInt8) (m : LinearMemory) (d a : UInt32) :
    stosb df c ⟨m, d, a⟩ = ⟨Function.update m d c, advance df 1 d, a⟩ := rfl

variable {df : Bool} {s : StringState} {f : StringState → StringState} {n : ℕ}

theorem rep_succ : s.rep f (n + 1) = f (s.rep f n) := Function.iterate_succ_apply' f n s

theorem rep_add {k : ℕ} : s.rep f (k + n) = (s.rep f n).rep f k :=
  Function.iterate_add_apply f k n s

/-! ## Bytes -/

/-- **Upwards**, the copy is right if it does not come to a byte it has written. -/
theorem rep_movsb_up (h : (s.esi - s.edi).toNat + n ≤ 2 ^ 32) :
    s.rep (movsb false) n =
      ⟨s.mem.moved s.edi s.esi n, s.edi + UInt32.ofNat n, s.esi + UInt32.ofNat n⟩ := by
  induction n with
  | zero => ext1 <;> simp [rep, LinearMemory.moved, LinearMemory.written_zero]
  | succ n ih =>
    have hlt : n < 2 ^ 32 := by omega
    have hn : (UInt32.ofNat n).toNat = n := UInt32.toNat_ofNat_of_lt hlt
    have hunread : s.mem.moved s.edi s.esi n (s.esi + UInt32.ofNat n) =
        s.mem (s.esi + UInt32.ofNat n) := by
      refine if_neg ?_
      rw [add_sub_right_comm, UInt32.toNat_add]
      omega
    have hmem : Function.update (s.mem.moved s.edi s.esi n) (s.edi + UInt32.ofNat n)
        (s.mem (s.esi + UInt32.ofNat n)) = s.mem.moved s.edi s.esi (n + 1) :=
      LinearMemory.update_written_up hlt
    rw [rep_succ, ih (by omega), movsb_mk, hunread, hmem, UInt32.ofNat_add, ← add_assoc,
      ← add_assoc]
    rfl

/-- **Downwards**, the copy is right if it does not come to a byte it has written. -/
theorem rep_movsb_down (h : (s.edi - s.esi).toNat + n ≤ 2 ^ 32) :
    s.rep (movsb true) n =
      ⟨s.mem.moved (s.edi + 1 - UInt32.ofNat n) (s.esi + 1 - UInt32.ofNat n) n,
        s.edi - UInt32.ofNat n, s.esi - UInt32.ofNat n⟩ := by
  induction n with
  | zero => ext1 <;> simp [rep, LinearMemory.moved, LinearMemory.written_zero]
  | succ n ih =>
    have hlt : n < 2 ^ 32 := by omega
    have hn : (UInt32.ofNat n).toNat = n := UInt32.toNat_ofNat_of_lt hlt
    have hend (a : UInt32) : a + 1 - UInt32.ofNat n = a - UInt32.ofNat n + 1 :=
      add_sub_right_comm ..
    have hend' (a : UInt32) : a + 1 - UInt32.ofNat (n + 1) = a - UInt32.ofNat n := by
      rw [UInt32.ofNat_add]
      exact add_sub_add_right_eq_sub ..
    have hunread : s.mem.moved (s.edi + 1 - UInt32.ofNat n) (s.esi + 1 - UInt32.ofNat n) n
        (s.esi - UInt32.ofNat n) = s.mem (s.esi - UInt32.ofNat n) := by
      refine if_neg ?_
      have hdist : s.esi - UInt32.ofNat n - (s.edi + 1 - UInt32.ofNat n) =
          -(s.edi - s.esi + 1) := by
        rw [sub_sub_sub_cancel_right, neg_add', neg_sub, sub_sub]
      have hsucc : (s.edi - s.esi + 1).toNat = ((s.edi - s.esi).toNat + 1) % 2 ^ 32 := by
        rw [UInt32.toNat_add]
        rfl
      rw [hdist, UInt32.toNat_neg, hsucc]
      show ¬(2 ^ 32 - ((s.edi - s.esi).toNat + 1) % 2 ^ 32) % 2 ^ 32 < n
      omega
    have hmem : Function.update (s.mem.moved (s.edi + 1 - UInt32.ofNat n)
        (s.esi + 1 - UInt32.ofNat n) n) (s.edi - UInt32.ofNat n) (s.mem (s.esi - UInt32.ofNat n)) =
        s.mem.moved (s.edi - UInt32.ofNat n) (s.esi - UInt32.ofNat n) (n + 1) := by
      rw [hend, hend]
      exact LinearMemory.update_moved_down
    rw [rep_succ, ih (by omega), movsb_mk, hunread, hmem, hend', hend', UInt32.ofNat_add, ← sub_sub,
      ← sub_sub]
    rfl

/-- Storing bytes upwards. -/
theorem rep_stosb {c : UInt8} (h : n ≤ 2 ^ 32) :
    s.rep (stosb false c) n = ⟨s.mem.filled s.edi c n, s.edi + UInt32.ofNat n, s.esi⟩ := by
  induction n with
  | zero => ext1 <;> simp [rep, LinearMemory.filled, LinearMemory.written_zero]
  | succ n ih =>
    have hmem : Function.update (s.mem.filled s.edi c n) (s.edi + UInt32.ofNat n) c =
        s.mem.filled s.edi c (n + 1) := LinearMemory.update_written_up (by omega)
    rw [rep_succ, ih (by omega), stosb_mk, hmem, UInt32.ofNat_add, ← add_assoc]
    rfl

/-! ## Words -/

theorem rep_movsl_distance :
    (s.rep (movsl df) n).edi - (s.rep (movsl df) n).esi = s.edi - s.esi := by
  induction n with
  | zero => rfl
  | succ n ih =>
    rw [rep_succ, ← ih, movsl]
    cases df
    · exact add_sub_add_right_eq_sub ..
    · exact sub_sub_sub_cancel_right ..

theorem movsl_up (h : (s.edi - s.esi).toNat % 4 = 0) : s.movsl false = s.rep (movsb false) 4 := by
  have hflip : (s.esi - s.edi).toNat = (2 ^ 32 - (s.edi - s.esi).toNat) % 2 ^ 32 := by
    rw [← neg_sub, UInt32.toNat_neg]
    rfl
  rw [rep_movsb_up (by omega), movsl, LinearMemory.storeWord_loadWord]
  rfl

theorem movsl_down (h : (s.edi - s.esi).toNat % 4 = 0) :
    (s.movsl true).shift 3 = (s.shift 3).rep (movsb true) 4 := by
  have hdist : (s.shift 3).edi - (s.shift 3).esi = s.edi - s.esi := add_sub_add_right_eq_sub ..
  have hlt := (s.edi - s.esi).toNat_lt
  have hlow (a : UInt32) : a + 3 + 1 - 4 = a := by
    rw [add_assoc]
    exact add_sub_cancel_right a 4
  have hnext (a : UInt32) : a - 4 + 3 = a + 3 - 4 := sub_add_eq_add_sub ..
  rw [rep_movsb_down (by rw [hdist]; omega), movsl, LinearMemory.storeWord_loadWord]
  ext1
  · show _ = s.mem.moved (s.edi + 3 + 1 - 4) (s.esi + 3 + 1 - 4) 4
    rw [hlow, hlow]
    rfl
  · exact hnext s.edi
  · exact hnext s.esi

/-- **Words upwards.** -/
theorem rep_movsl_up (h : (s.edi - s.esi).toNat % 4 = 0) :
    s.rep (movsl false) n = s.rep (movsb false) (4 * n) := by
  induction n with
  | zero => rfl
  | succ n ih =>
    rw [rep_succ, movsl_up (by rwa [rep_movsl_distance]), ih, ← rep_add, Nat.mul_succ,
      Nat.add_comm]

/-- **Words downwards**: the registers point to the first byte of a word, not to the last. -/
theorem rep_movsl_down (h : (s.edi - s.esi).toNat % 4 = 0) :
    (s.rep (movsl true) n).shift 3 = (s.shift 3).rep (movsb true) (4 * n) := by
  induction n with
  | zero => rfl
  | succ n ih =>
    rw [rep_succ, movsl_down (by rwa [rep_movsl_distance]), ih, ← rep_add, Nat.mul_succ,
      Nat.add_comm]

/-- **Storing words** of equal bytes. -/
theorem rep_stosl {v : UInt32} {c : UInt8} (h : ∀ k < 4, ByteBlock.byte32 v k = c) :
    s.rep (stosl false v) n = s.rep (stosb false c) (4 * n) := by
  induction n with
  | zero => rfl
  | succ n ih =>
    have hword (t : StringState) : t.stosl false v = t.rep (stosb false c) 4 := by
      rw [rep_stosb (by decide), stosl, LinearMemory.storeWord_eq_filled h]
      rfl
    rw [rep_succ, hword, ih, ← rep_add, Nat.mul_succ, Nat.add_comm]

end StringState
