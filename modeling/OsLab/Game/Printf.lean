import Mathlib.Data.List.GetD
import OsLab.FileSystem.Seg
import OsLab.Game.Printfmt

/-!
# `printf`

The game's `printf` formats into a buffer of 256 bytes and hands the buffer to the `WRITE` system
call, together with what `vsnprintf` returns. `vsnprintf` stores at most 255 characters, but what it
returns is `cnt`, and `sprintputch` counts the characters that it drops as well. A longer text is
followed on the serial line by what is behind the buffer.

`cnt` is an `int`. Where the text has 255 characters modulo `2 ^ 32`, it is right again.

## Main definitions

* `SprintBuf` — `struct sprintbuf`, and the memory that `buf` points into
* `vsnprintf` — `vsnprintf`: what it returns, and the memory it leaves
* `Printed` — a call of `printf`: the `len` it hands to `str_write`, the value it returns, what is
  put out, and memory afterwards
* `printf` — `printf`, whose static buffer is at `buf`
* `PrintsText` — what a call of `printf` does that puts out what it formatted, and nothing else

## Main results

* `putAll_sprintputch` — what is counted and what is stored
* `printf_prints_iff` — `printf` puts out the text it stored when that is all of the text
-/

namespace OsLab

/-- `struct sprintbuf`, and the memory that `buf` points into. -/
structure SprintBuf where
  buf : ℤ
  ebuf : ℤ
  cnt : ℤ
  mem : Mem

/-- `sprintputch` -/
def sprintputch (ch : ℤ) (b : SprintBuf) : SprintBuf :=
  let b := { b with cnt := int32 (b.cnt + 1) }
  if b.buf < b.ebuf then
    { b with mem := Function.update b.mem b.buf (UInt8.ofInt ch), buf := b.buf + 1 }
  else b

/-- `E_INVAL` -/
def E_INVAL : ℤ := 3

/-- `b` when `vsnprintf` has called `vprintfmt`. -/
def sprintBuf (buf n : ℤ) (fmt : List UInt8) (ap : VaList) (mem : Mem) : SprintBuf :=
  vprintfmt sprintputch fmt ap ⟨buf, buf + n - 1, 0, mem⟩

/-- `vsnprintf`: what it returns, and the memory it leaves. -/
def vsnprintf (buf n : ℤ) (fmt : List UInt8) (ap : VaList) (mem : Mem) : ℤ × Mem :=
  if buf = 0 ∨ n < 1 then (-E_INVAL, mem)
  else
    let b := sprintBuf buf n fmt ap mem
    (b.cnt, Function.update b.mem b.buf 0)

/-- `fs_write`: what it returns, and what it puts out on the serial line. -/
def fsWrite (fd buf len : ℤ) (mem : Mem) : ℤ × List UInt8 :=
  if fd = 1 then (len, forRange 0 len (fun i out => out ++ [mem (buf + i)]) []) else (-1, [])

/-- A call of `printf`: the `len` it hands to `str_write`, the value it returns, what is put out,
and memory afterwards. -/
structure Printed where
  len : ℤ
  ret : ℤ
  serial : List UInt8
  mem : Mem

/-- `printf`, whose static buffer is at `buf`. -/
def printf (buf : ℤ) (ctl : CString) (args : VaList) (mem : Mem) : Printed :=
  let (len, mem) := vsnprintf buf 256 ctl.val args mem
  let (ret, serial) := fsWrite 1 buf len mem
  { len, ret, serial, mem }

/-! ## What is stored -/

/-- The byte that a character is stored as. -/
def byteOf (ch : ℤ) : UInt8 := UInt8.ofInt ch

theorem int32_add_one (x : ℤ) : int32 (int32 x + 1) = int32 (x + 1) := by
  rw [int32, int32, Int.bmod_add_bmod]
  rfl

/-- **Counted and stored.** All the characters are counted, and the first ones are stored, up to
`ebuf`. -/
theorem putAll_sprintputch (text : List ℤ) {b : SprintBuf} {n : ℕ} (hn : b.ebuf = b.buf + n) {c : ℤ}
    (hc : b.cnt = int32 c) :
    (putAll sprintputch text b).cnt = int32 (c + text.length) ∧
      (putAll sprintputch text b).buf = b.buf + min text.length n ∧
      ∀ a, (putAll sprintputch text b).mem a =
        if b.buf ≤ a ∧ a < b.buf + min text.length n then
          byteOf (text.getD (a - b.buf).toNat 0)
        else b.mem a := by
  induction text generalizing b n c with
  | nil =>
    refine ⟨by rw [List.length_nil, Nat.cast_zero, add_zero]; exact hc, ?_, fun a => ?_⟩
    · rw [List.length_nil, Nat.zero_min, Nat.cast_zero, add_zero]
      rfl
    · rw [if_neg (by simp only [List.length_nil, Nat.zero_min, Nat.cast_zero]; omega)]
      rfl
  | cons ch text ih =>
    have hcnt : (sprintputch ch b).cnt = int32 (c + 1) := by
      rw [← int32_add_one, ← hc, sprintputch]
      split <;> rfl
    have hlen : c + (ch :: text).length = c + 1 + text.length := by
      rw [List.length_cons, Nat.cast_succ]
      omega
    rw [hlen]
    cases n with
    | zero =>
      have hfull : ¬b.buf < b.ebuf := by omega
      have hdrop : sprintputch ch b = { b with cnt := int32 (b.cnt + 1) } := by
        rw [sprintputch]
        exact if_neg hfull
      rw [hdrop] at hcnt
      obtain ⟨hcount, hbuf, hmem⟩ :=
        ih (b := { b with cnt := int32 (b.cnt + 1) }) (n := 0) (c := c + 1) hn hcnt
      have hput : putAll sprintputch (ch :: text) b =
          putAll sprintputch text { b with cnt := int32 (b.cnt + 1) } :=
        congrArg (putAll sprintputch text) hdrop
      rw [hput]
      refine ⟨hcount, ?_, fun a => ?_⟩
      · rw [hbuf, Nat.min_zero, Nat.min_zero]
      · rw [hmem, Nat.min_zero, Nat.min_zero, if_neg (by omega), if_neg (by omega)]
    | succ n =>
      have hroom : b.buf < b.ebuf := by omega
      have hstore : sprintputch ch b =
          { b with
            cnt := int32 (b.cnt + 1)
            mem := Function.update b.mem b.buf (byteOf ch)
            buf := b.buf + 1 } := by
        rw [sprintputch]
        exact if_pos hroom
      have hroom' : (sprintputch ch b).ebuf = (sprintputch ch b).buf + n := by
        rw [hstore]
        simp only
        omega
      obtain ⟨hcount, hbuf, hmem⟩ := ih hroom' hcnt
      have hput :
          putAll sprintputch (ch :: text) b = putAll sprintputch text (sprintputch ch b) := rfl
      have hmin : min (ch :: text).length (n + 1) = min text.length n + 1 := by
        rw [List.length_cons]
        omega
      rw [hput, hmin]
      refine ⟨hcount, ?_, fun a => ?_⟩
      · rw [hbuf, hstore]
        simp only
        omega
      · rw [hmem, hstore]
        simp only
        rcases lt_trichotomy a b.buf with hbefore | rfl | hafter
        · rw [if_neg (by omega), if_neg (by omega), Function.update_of_ne (by omega)]
        · rw [if_neg (by omega), if_pos (by omega), Function.update_self, Int.sub_self]
          rfl
        · have hpos : (a - b.buf).toNat = (a - (b.buf + 1)).toNat + 1 := by omega
          rw [Function.update_of_ne (by omega), hpos, List.getD_cons_succ]
          exact if_congr (by omega) rfl rfl

/-! ## What is put out -/

/-- The bytes that `fs_write` puts out. -/
theorem fsWrite_serial (buf len : ℤ) (mem : Mem) :
    (fsWrite 1 buf len mem).2 = (List.range len.toNat).map fun i : ℕ => mem (buf + i) := by
  rw [fsWrite, if_pos rfl]
  simp only
  rcases Int.lt_or_le len 0 with hneg | hpos
  · rw [forRange_of_ge (by omega), Int.toNat_of_nonpos (by omega)]
    rfl
  · refine forRange_induction (P := fun i (out : List UInt8) =>
      out = (List.range i.toNat).map fun i : ℕ => mem (buf + i)) hpos
        (fun i out hi hlt hout => ?_) rfl
    have hnext : (i + 1).toNat = i.toNat + 1 := by omega
    have hcast : (i.toNat : ℤ) = i := by omega
    rw [hout, hnext, List.range_succ, List.map_append, List.map_singleton, hcast]

section Printf

variable {buf : ℤ} {ctl : CString} {args : VaList} {mem : Mem}

/-- How many of the bytes of the buffer this call of `vsnprintf` stores, the `'\0'` at the end not
counted. -/
def stored (buf : ℤ) (ctl : CString) (args : VaList) (mem : Mem) : ℤ :=
  (sprintBuf buf 256 ctl.val args mem).buf - buf

theorem stored_eq : stored buf ctl args mem = min (formatted ctl.val args).length 255 := by
  have hput := putAll_sprintputch (formatted ctl.val args)
    (b := ⟨buf, buf + 256 - 1, 0, mem⟩) (n := 255) (c := 0) (by simp only; omega) rfl
  rw [stored, sprintBuf, vprintfmt_eq, hput.2.1]
  simp only
  omega

/-- The buffer is not at address 0, so `len` is the number of characters, as an `int`. -/
theorem printf_len (hbuf : buf ≠ 0) :
    (printf buf ctl args mem).len = int32 (formatted ctl.val args).length := by
  have hput := putAll_sprintputch (formatted ctl.val args)
    (b := ⟨buf, buf + 256 - 1, 0, mem⟩) (n := 255) (c := 0) (by simp only; omega) rfl
  have hnot : ¬(buf = 0 ∨ (256 : ℤ) < 1) := by omega
  rw [printf, vsnprintf, if_neg hnot]
  simp only
  rw [sprintBuf, vprintfmt_eq, hput.1, Int.zero_add]

/-- The bytes that are put out, as far as they were stored. -/
theorem printf_mem (hbuf : buf ≠ 0) {i : ℕ} (hi : i < (formatted ctl.val args).length)
    (hlt : i < 255) :
    (printf buf ctl args mem).mem (buf + i) = byteOf ((formatted ctl.val args).getD i 0) := by
  have hput := putAll_sprintputch (formatted ctl.val args)
    (b := ⟨buf, buf + 256 - 1, 0, mem⟩) (n := 255) (c := 0) (by simp only; omega) rfl
  have hnot : ¬(buf = 0 ∨ (256 : ℤ) < 1) := by omega
  rw [printf, vsnprintf, if_neg hnot]
  simp only
  rw [sprintBuf, vprintfmt_eq, hput.2.1, Function.update_of_ne (by simp only; omega), hput.2.2]
  simp only
  have hpos : (buf + i - buf).toNat = i := by omega
  rw [if_pos (by omega), hpos]

/-- `printf` writes nothing but its buffer. -/
theorem printf_mem_outside {a : ℤ} (ha : a < buf ∨ buf + 256 ≤ a) :
    (printf buf ctl args mem).mem a = mem a := by
  have hput := putAll_sprintputch (formatted ctl.val args)
    (b := ⟨buf, buf + 256 - 1, 0, mem⟩) (n := 255) (c := 0) (by simp only; omega) rfl
  show (vsnprintf buf 256 ctl.val args mem).2 a = mem a
  rw [vsnprintf]
  split
  · rfl
  · simp only
    rw [sprintBuf, vprintfmt_eq, hput.2.1, Function.update_of_ne (by simp only; omega), hput.2.2]
    exact if_neg (by simp only; omega)

theorem printf_serial :
    (printf buf ctl args mem).serial =
      (List.range (printf buf ctl args mem).len.toNat).map fun i : ℕ =>
        (printf buf ctl args mem).mem (buf + i) := by
  rw [printf]
  exact fsWrite_serial ..

/-- What a call of `printf` does that puts out what it formatted, and nothing else. -/
structure PrintsText (buf : ℤ) (ctl : CString) (args : VaList) (mem : Mem) : Prop where
  /-- The text is put out, without what is behind the 255th character. -/
  text : (printf buf ctl args mem).serial = ((formatted ctl.val args).take 255).map byteOf
  /-- The length is not more than what was stored. -/
  length : (printf buf ctl args mem).len ≤ stored buf ctl args mem
  /-- So the bytes come from the part of the buffer that this call filled. -/
  inside : ∀ a, buf ≤ a → a < buf + (printf buf ctl args mem).len →
    a < buf + stored buf ctl args mem

/-- The text that is put out has as many characters as were stored. -/
theorem PrintsText.toNat_len (h : PrintsText buf ctl args mem) :
    (printf buf ctl args mem).len.toNat = min 255 (formatted ctl.val args).length := by
  have hlen := congrArg List.length h.text
  rwa [printf_serial, List.length_map, List.length_range, List.length_map, List.length_take] at hlen

/-- If the length is that of what was stored, what was stored is put out. -/
theorem printsText_of_len (hbuf : buf ≠ 0)
    (hlen : (printf buf ctl args mem).len = min (formatted ctl.val args).length 255) :
    PrintsText buf ctl args mem := by
  refine ⟨?_, by rw [hlen, stored_eq], fun a _ hlt => by rwa [stored_eq, ← hlen]⟩
  have hnat : (printf buf ctl args mem).len.toNat = min (formatted ctl.val args).length 255 := by
    omega
  rw [printf_serial, hnat]
  refine List.ext_getElem ?_ fun i hi hi' => ?_
  · rw [List.length_map, List.length_range, List.length_map, List.length_take, Nat.min_comm]
  · rw [List.length_map, List.length_range] at hi
    rw [List.getElem_map, List.getElem_range, printf_mem hbuf (by omega) (by omega),
      List.getElem_map,
      List.getElem_take, List.getD_eq_getElem _ _ (by omega)]

/-- **When `printf` puts out what it formatted.** -/
theorem printf_prints_iff (ctl : CString) (args : VaList) (mem : Mem) (hbuf : buf ≠ 0) :
    PrintsText buf ctl args mem ↔
      (formatted ctl.val args).length ≤ 255 ∨ (formatted ctl.val args).length % 2 ^ 32 = 255 := by
  have hlen := @printf_len buf ctl args mem hbuf
  have hmod : int32 (formatted ctl.val args).length % 2 ^ 32 =
      ((formatted ctl.val args).length : ℤ) % 2 ^ 32 := Int.bmod_emod ..
  have hlow := le_int32 (formatted ctl.val args).length
  have hhigh := int32_lt (formatted ctl.val args).length
  constructor
  · intro h
    have hnat := h.toNat_len
    omega
  · intro h
    exact printsText_of_len hbuf (by omega)

/-- A format of `n` letters. -/
def letters (n : ℕ) : CString :=
  ⟨List.replicate n 97, fun h => absurd (List.eq_of_mem_replicate h) (by decide)⟩

/-- No arguments but zeros. -/
def noArgs : VaList := ⟨fun _ => 0, fun _ => []⟩

theorem length_formatted_letters (n : ℕ) : (formatted (letters n).val noArgs).length = n := by
  have hplain : ∀ c ∈ (letters n).val, uchar c ≠ code '%' := by
    intro c hc
    rw [List.eq_of_mem_replicate hc]
    decide
  rw [formatted_text _ hplain, List.length_map]
  exact List.length_replicate

/-- 255 letters fit. -/
theorem printf_prints_iff_letters :
    PrintsText 1 (letters 255) noArgs (fun _ => 0) ↔
      (formatted (letters 255).val noArgs).length ≤ 255 ∨
        (formatted (letters 255).val noArgs).length % 2 ^ 32 = 255 :=
  printf_prints_iff (letters 255) noArgs _ (by decide)

/-- After 256 letters the `'\0'` behind the text is put out, and not the last letter. -/
theorem printf_puts_nul : ¬PrintsText 1 (letters 256) noArgs fun _ => 0 := by
  intro h
  have hlen := @printf_len 1 (letters 256) noArgs (fun _ => 0) (by decide)
  have hnat := h.toNat_len
  rw [hlen, length_formatted_letters] at hnat
  exact absurd hnat (by decide)

end Printf

end OsLab
