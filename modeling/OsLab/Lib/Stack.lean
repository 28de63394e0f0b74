import OsLab.Lib.StringInstr
import Mathlib.Data.List.Induction

/-!
# Words in linear memory, and a stack of them

Loading and storing words, which may overlap, wrap around, and lie at any address; an array of words
(`word`, `setWord`); and a stack that grows downwards. What is pushed word by word is read back word
by word from the top (`pushAll_word`), and nothing but the words that were pushed is written
(`pushAll_outside`).
-/

namespace LinearMemory

variable {m m' : LinearMemory} {a b v : UInt32}

theorem loadWord_congr (h : ∀ k < 4, m (a + UInt32.ofNat k) = m' (a + UInt32.ofNat k)) :
    m.loadWord a = m'.loadWord a :=
  ByteBlock.le32_congr h

theorem storeWord_outside (h : 4 ≤ (b - a).toNat) : m.storeWord a v b = m b :=
  if_neg (Nat.not_lt.mpr h)

/-- **Load after store.** -/
@[simp] theorem loadWord_storeWord : (m.storeWord a v).loadWord a = v := by
  rw [loadWord, ← ByteBlock.le32_byte32 v]
  refine ByteBlock.le32_congr fun k hk => ?_
  have hoff : (a + UInt32.ofNat k - a).toNat = k := by
    rw [add_sub_cancel_left]
    exact UInt32.toNat_ofNat_of_lt (show k < 2 ^ 32 by omega)
  rw [storeWord, written, hoff, if_pos hk, ByteBlock.le32_byte32]

/-- **Load of another word.** -/
theorem loadWord_storeWord_of_apart (h : 4 ≤ (b - a).toNat) (h' : 4 ≤ (a - b).toNat) :
    (m.storeWord a v).loadWord b = m.loadWord b := by
  refine loadWord_congr fun k hk => storeWord_outside ?_
  have hdist : (a - b).toNat = (2 ^ 32 - (b - a).toNat) % 2 ^ 32 := by
    rw [← neg_sub, UInt32.toNat_neg]
    rfl
  have hlt := (b - a).toNat_lt
  have hk' : (UInt32.ofNat k).toNat = k := UInt32.toNat_ofNat_of_lt (show k < 2 ^ 32 by omega)
  rw [add_sub_right_comm, UInt32.toNat_add, hk']
  omega

/-! ### Arrays of words -/

variable (m) in
/-- The `k`-th of the words from `a` on. -/
def word (a : UInt32) (k : ℕ) : UInt32 := m.loadWord (a + 4 * UInt32.ofNat k)

variable (m) in
/-- A write to the `k`th word from `a` on. -/
def setWord (a : UInt32) (k : ℕ) (v : UInt32) : LinearMemory :=
  m.storeWord (a + 4 * UInt32.ofNat k) v

variable {j k n : ℕ}

theorem toNat_four_mul (h : 4 * k < 2 ^ 32) : (4 * UInt32.ofNat k).toNat = 4 * k := by
  have hk : (UInt32.ofNat k).toNat = k := UInt32.toNat_ofNat_of_lt (show k < 2 ^ 32 by omega)
  rw [UInt32.toNat_mul, hk]
  show 4 * k % 2 ^ 32 = 4 * k
  omega

/-- **One element changes.** -/
theorem word_setWord (hn : 4 * n ≤ 2 ^ 32) (hj : j < n) (hk : k < n) :
    (m.setWord a j v).word a k = if k = j then v else m.word a k := by
  split
  · next h =>
    rw [h]
    exact loadWord_storeWord
  · next h =>
    have hdist (x y : ℕ) (hx : x < n) (hy : y < n) (hne : x ≠ y) :
        4 ≤ (a + 4 * UInt32.ofNat x - (a + 4 * UInt32.ofNat y)).toNat := by
      rw [add_sub_add_left_eq_sub, UInt32.toNat_sub, toNat_four_mul (by omega),
        toNat_four_mul (by omega)]
      omega
    exact loadWord_storeWord_of_apart (hdist k j hk hj h) (hdist j k hj hk (Ne.symm h))

theorem setWord_outside (hn : 4 * n ≤ 2 ^ 32) (hj : j < n) (h : 4 * n ≤ (b - a).toNat) :
    m.setWord a j v b = m b := by
  refine storeWord_outside ?_
  have hle : 4 * UInt32.ofNat j ≤ b - a := by
    rw [UInt32.le_iff_toNat_le, toNat_four_mul (by omega)]
    omega
  rw [← sub_sub, UInt32.toNat_sub_of_le _ _ hle, toNat_four_mul (by omega)]
  omega

theorem word_congr (hn : 4 * n ≤ 2 ^ 32) (hk : k < n)
    (h : ∀ b, (b - a).toNat < 4 * n → m b = m' b) : m.word a k = m'.word a k := by
  refine loadWord_congr fun i hi => h _ ?_
  have hi' : (UInt32.ofNat i).toNat = i := UInt32.toNat_ofNat_of_lt (show i < 2 ^ 32 by omega)
  rw [add_assoc, add_sub_cancel_left, UInt32.toNat_add, toNat_four_mul (by omega), hi']
  omega

/-- **Words that are moved.** -/
theorem word_moved {dst src o : UInt32} {N : ℕ} (hN : N ≤ 2 ^ 32)
    (h : o.toNat + 4 * k + 4 ≤ N) :
    (m.moved dst src N).word (dst + o) k = m.word (src + o) k := by
  rw [word, word]
  refine ByteBlock.le32_congr fun i hi => ?_
  have hi' : (UInt32.ofNat i).toNat = i := UInt32.toNat_ofNat_of_lt (show i < 2 ^ 32 by omega)
  have hoff : (o + 4 * UInt32.ofNat k + UInt32.ofNat i).toNat = o.toNat + 4 * k + i := by
    rw [UInt32.toNat_add, UInt32.toNat_add, toNat_four_mul (by omega), hi']
    omega
  rw [add_assoc (dst + o), add_assoc dst, add_assoc (src + o), add_assoc src, ← add_assoc o]
  rw [moved, written, add_sub_cancel_left, if_pos (by omega)]

end LinearMemory

/-- A memory, and the stack pointer. -/
structure StackState where
  mem : LinearMemory
  esp : UInt32

namespace StackState

variable (s : StackState)

/-- `pushl` -/
def push (w : UInt32) : StackState := ⟨s.mem.storeWord (s.esp - 4) w, s.esp - 4⟩

/-- The words are pushed one after the other. -/
def pushAll (ws : List UInt32) : StackState := ws.foldl push s

variable {s} {ws : List UInt32} {w : UInt32} {k : ℕ}

theorem pushAll_snoc : s.pushAll (ws ++ [w]) = (s.pushAll ws).push w := by
  rw [pushAll, List.foldl_append]
  rfl

theorem pushAll_append {ws' : List UInt32} : s.pushAll (ws ++ ws') = (s.pushAll ws).pushAll ws' :=
  List.foldl_append

@[simp] theorem word_push_zero : (s.push w).mem.word (s.push w).esp 0 = w := by
  have htop : (s.push w).esp + 4 * UInt32.ofNat 0 = s.esp - 4 := add_zero _
  rw [LinearMemory.word, htop]
  exact LinearMemory.loadWord_storeWord

theorem word_push_succ (hk : 4 * (k + 2) ≤ 2 ^ 32) :
    (s.push w).mem.word (s.push w).esp (k + 1) = s.mem.word s.esp k := by
  have hword : (s.push w).esp + 4 * UInt32.ofNat (k + 1) = s.esp + 4 * UInt32.ofNat k := by
    show s.esp - 4 + 4 * UInt32.ofNat (k + 1) = _
    rw [UInt32.ofNat_add, mul_add, add_comm (4 * UInt32.ofNat k), ← add_assoc]
    exact congrArg (· + 4 * UInt32.ofNat k) (sub_add_cancel s.esp 4)
  have hoff := LinearMemory.toNat_four_mul (k := k) (by omega)
  have hup : (s.esp + 4 * UInt32.ofNat k - (s.esp - 4)).toNat = 4 * k + 4 := by
    rw [add_sub_sub_cancel, UInt32.toNat_add, hoff]
    show (4 * k + 4) % 2 ^ 32 = 4 * k + 4
    omega
  have hdown : (s.esp - 4 - (s.esp + 4 * UInt32.ofNat k)).toNat = 2 ^ 32 - (4 * k + 4) := by
    rw [← neg_sub, UInt32.toNat_neg, hup]
    show (2 ^ 32 - (4 * k + 4)) % 2 ^ 32 = _
    omega
  rw [LinearMemory.word, hword]
  exact LinearMemory.loadWord_storeWord_of_apart (by omega) (by omega)

@[simp] theorem pushAll_esp : (s.pushAll ws).esp = s.esp - 4 * UInt32.ofNat ws.length := by
  induction ws using List.reverseRecOn with
  | nil => exact (sub_zero s.esp).symm
  | append_singleton ws w ih =>
    rw [pushAll_snoc, List.length_append, UInt32.ofNat_add, mul_add, ← sub_sub, ← ih]
    rfl

/-- **Nothing else is written.** -/
theorem pushAll_outside {a : UInt32}
    (h : 4 * ws.length ≤ (a - (s.pushAll ws).esp).toNat) : (s.pushAll ws).mem a = s.mem a := by
  induction ws using List.reverseRecOn with
  | nil => rfl
  | append_singleton ws w ih =>
    rw [pushAll_snoc, List.length_append] at h
    change 4 * (ws.length + 1) ≤ (a - ((s.pushAll ws).esp - 4)).toNat at h
    have hdist : (a - (s.pushAll ws).esp).toNat + 4 = (a - ((s.pushAll ws).esp - 4)).toNat := by
      have hsub : a - (s.pushAll ws).esp = a - ((s.pushAll ws).esp - 4) - 4 := by
        rw [sub_sub, sub_add_cancel]
      have hle : (4 : UInt32) ≤ a - ((s.pushAll ws).esp - 4) := by
        rw [UInt32.le_iff_toNat_le]
        exact le_trans (by decide) (le_trans (Nat.le_mul_of_pos_right 4 (Nat.succ_pos _)) h)
      rw [hsub, UInt32.toNat_sub_of_le _ _ hle]
      exact Nat.sub_add_cancel (UInt32.le_iff_toNat_le.mp hle)
    rw [pushAll_snoc]
    exact (LinearMemory.storeWord_outside (by omega)).trans (ih (by omega))

/-- **What was pushed last is on top.** -/
theorem pushAll_word (hlen : 4 * ws.length < 2 ^ 32) (hk : k < ws.length) :
    
    (s.pushAll ws).mem.word (s.pushAll ws).esp k = ws.reverse.getD k 0 := by
  induction ws using List.reverseRecOn generalizing k with
  | nil => exact absurd hk (Nat.not_lt_zero k)
  | append_singleton ws w ih =>
    rw [List.length_append, List.length_singleton] at hlen hk
    rw [pushAll_snoc, List.reverse_append]
    cases k with
    | zero => exact word_push_zero
    | succ k => exact (word_push_succ (by omega)).trans (ih (by omega) (by omega))

end StackState
