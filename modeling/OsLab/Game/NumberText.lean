import Mathlib.Data.Nat.Log
import OsLab.Game.Printf

/-!
# Numbers as text

`lib/` writes numbers in two ways, `itoa` and the conversions of `vprintfmt`, and reads them in one,
`strtol`. Neither of the two writes what `strtol` reads in every case: `itoa` does not know of
negative numbers, and where a negative number is padded the blanks are put between its sign and its
digits.

A `long` has 32 bits and wraps around, in `strtol` after every digit. A string is taken without its
`'\0'`.

## Main definitions

* `strtol` — `strtol`: the value, and the string at `*endptr`
* `numeral` — the digits of a number, the first one first
* `NearZero` — the characters that are not above `'0'`, and not far below

## Main results

* `printnum_collect` — what `printnum` puts out: padding, and then the digits
* `strtol_itoa` — reading back what `itoa` has written
* `strtol_zeroPadded`, `strtol_blankPadded`, `strtol_pointer` — reading back what `vprintfmt` puts
  out for `%0*d`, `%*d` and `%p`
-/

namespace OsLab

/-! ## `itoa` -/

/-- The loop of `itoa`, with the string that it has written at `p`. -/
def itoaLoop (a : ℤ) (p : List UInt8) : List UInt8 :=
  let p := UInt8.ofInt (code '0' + a.tmod 10) :: p
  if a.tdiv 10 ≠ 0 then itoaLoop (a.tdiv 10) p else p
termination_by a.natAbs
decreasing_by
  obtain ⟨_, _, _⟩ := tdiv_tmod_spec a (show (0 : ℤ) < 10 by decide)
  omega

/-- `itoa` -/
def itoa (a : ℤ) : List UInt8 := itoaLoop a []

/-! ## `strtol` -/

/-- `dig`, unless `*s` is not a letter or a digit. -/
def digitOf (c : UInt8) : Option ℤ :=
  if code '0' ≤ schar c ∧ schar c ≤ code '9' then some (schar c - code '0')
  else if code 'a' ≤ schar c ∧ schar c ≤ code 'z' then some (schar c - code 'a' + 10)
  else if code 'A' ≤ schar c ∧ schar c ≤ code 'Z' then some (schar c - code 'A' + 10)
  else none

/-- The loop over the digits: `val`, and the string behind them. -/
def readDigits (base : ℤ) : List UInt8 → ℤ → ℤ × List UInt8
  | [], val => (val, [])
  | c :: s, val =>
    match digitOf c with
    | some dig =>
      if base ≤ dig then (val, c :: s) else readDigits base s (int32 (val * base + dig))
    | none => (val, c :: s)

/-- `neg`, and the string behind the sign. -/
def readSign : List UInt8 → Bool × List UInt8
  | [] => (false, [])
  | c :: s =>
    if schar c = code '+' then (false, s)
    else if schar c = code '-' then (true, s)
    else (false, c :: s)

/-- `base`, and the string behind the prefix. -/
def readPrefix (base : ℤ) (s : List UInt8) : ℤ × List UInt8 :=
  if (base = 0 ∨ base = 16) ∧ literal "0x" <+: s then (16, s.drop 2)
  else if base = 0 ∧ literal "0" <+: s then (8, s.drop 1)
  else if base = 0 then (10, s)
  else (base, s)

/-- `strtol`: the value, and the string at `*endptr`. -/
def strtol (s : List UInt8) (base : ℤ) : ℤ × List UInt8 :=
  let s := s.dropWhile fun c => schar c = code ' ' ∨ schar c = code '\t'
  let (neg, s) := readSign s
  let (base, s) := readPrefix base s
  let (val, s) := readDigits base s 0
  (if neg then int32 (-val) else val, s)

/-! ## Digits -/

/-- The digits of a number, the first one first. -/
def numeral (base : Base) (num : ℕ) : List ℕ :=
  if base.val ≤ num then numeral base (num / base.val) ++ [num % base.val] else [num % base.val]
termination_by num
decreasing_by
  exact Nat.div_lt_self (by have := base.one_lt; omega) base.one_lt

/-- The number that digits stand for. -/
def valueOf (base : ℕ) (ds : List ℕ) : ℕ := ds.foldl (fun v d => v * base + d) 0

/-- The character of a digit. -/
def digitChar (d : ℕ) : UInt8 := (literal "0123456789abcdef").getD d 0

section Numeral

variable {base : Base} {num : ℕ}

theorem numeral_of_le (h : base.val ≤ num) :
    numeral base num = numeral base (num / base.val) ++ [num % base.val] := by
  rw [numeral, if_pos h]

theorem numeral_of_lt (h : num < base.val) : numeral base num = [num] := by
  rw [numeral, if_neg (by omega), Nat.mod_eq_of_lt h]

theorem lt_of_mem_numeral {d : ℕ} (hd : d ∈ numeral base num) : d < base.val := by
  have hpos : 0 < base.val := Nat.zero_lt_of_lt base.one_lt
  fun_induction numeral base num with
  | case1 num h ih =>
    rcases List.mem_append.mp hd with hd | hd
    · exact ih hd
    · exact List.mem_singleton.mp hd ▸ Nat.mod_lt num hpos
  | case2 num h => exact List.mem_singleton.mp hd ▸ Nat.mod_lt num hpos

@[simp] theorem valueOf_numeral : valueOf base.val (numeral base num) = num := by
  fun_induction numeral base num with
  | case1 num h ih =>
    rw [valueOf, List.foldl_append]
    exact (congrArg (· * base.val + num % base.val) ih).trans (Nat.div_add_mod' num base.val)
  | case2 num h =>
    rw [valueOf, List.foldl_cons, List.foldl_nil, Nat.zero_mul, Nat.zero_add,
      Nat.mod_eq_of_lt (Nat.lt_of_not_le h)]

@[simp] theorem length_numeral : (numeral base num).length = Nat.log base.val num + 1 := by
  fun_induction numeral base num with
  | case1 num h ih =>
    rw [List.length_append, ih, Nat.log_of_one_lt_of_le base.one_lt h]
    rfl
  | case2 num h => rw [Nat.log_of_lt (Nat.lt_of_not_le h)]; rfl

end Numeral

/-! ## What is written -/

theorem putPad_collect (ch width : ℤ) (out : List ℤ) :
    putPad collect ch width out = out ++ List.replicate width.toNat ch := by
  rw [putPad]
  induction width.toNat with
  | zero => exact (List.append_nil out).symm
  | succ n ih =>
    rw [Function.iterate_succ_apply', ih, collect, List.append_assoc, List.replicate_succ']

/-- **Padding, and then the digits.** -/
theorem printnum_collect (base : Base) (num : ℕ) (width padc : ℤ) (out : List ℤ) :
    printnum collect base num width padc out =
      out ++ List.replicate (int32 (width - (Nat.log base.val num + 1))).toNat padc ++
        (numeral base num).map hexDigit := by
  fun_induction printnum collect base num width padc out with
  | case1 num width h ih =>
    have hcount : int32 (int32 (width - 1) - (Nat.log base.val (num / base.val) + 1)) =
        int32 (width - (Nat.log base.val num + 1)) := by
      rw [Nat.log_of_one_lt_of_le base.one_lt h, int32, int32, int32, Int.bmod_sub_bmod]
      congr 1
      push_cast
      ring
    rw [ih, hcount, numeral_of_le h, List.map_append, ← List.append_assoc]
    rfl
  | case2 num width h =>
    have hlt := Nat.lt_of_not_le h
    rw [putPad_collect, Nat.log_of_lt hlt, numeral_of_lt hlt, Nat.mod_eq_of_lt hlt]
    rfl

@[simp] theorem byteOf_uchar (c : UInt8) : byteOf (uchar c) = c := by
  have hlt := c.toNat_lt
  have hmod : ((c.toNat : ℤ) % 2 ^ 8).toNat = c.toNat := by omega
  rw [byteOf, uchar, UInt8.ofInt, hmod, UInt8.ofNat_toNat]

/-- The text of a string of characters. -/
def textOf (chars : List ℤ) : List UInt8 := chars.map byteOf

@[simp] theorem textOf_digits (ds : List ℕ) : textOf (ds.map hexDigit) = ds.map digitChar := by
  rw [textOf, List.map_map]
  exact List.map_congr_left fun d _ => byteOf_uchar (digitChar d)

/-! ## What is read -/

theorem digitOf_digitChar {d : ℕ} (h : d < 16) : digitOf (digitChar d) = some (d : ℤ) := by
  have hall : ∀ d < 16, digitOf (digitChar d) = some (d : ℤ) := by decide
  exact hall d h

theorem readDigits_digits {base : ℕ} {ds : List ℕ} (hbase : base ≤ 16) (hds : ∀ d ∈ ds, d < base)
    (s : List UInt8) (v : ℕ) :
    readDigits base (ds.map digitChar ++ s) (int32 v) =
      readDigits base s (int32 (ds.foldl (fun v d => v * base + d) v : ℕ)) := by
  induction ds generalizing v with
  | nil => rfl
  | cons d ds ih =>
    have hd := hds d List.mem_cons_self
    have hval : int32 (int32 v * base + d) = int32 (v * base + d : ℕ) := by
      rw [int32, int32, int32, ← Int.bmod_add_bmod, Int.bmod_mul_bmod, Int.bmod_add_bmod]
      push_cast
      rfl
    rw [List.map_cons, List.cons_append, readDigits, digitOf_digitChar (by omega)]
    simp only
    rw [if_neg (by omega), hval, ih fun d h => hds d (List.mem_cons_of_mem _ h)]
    rfl

/-- Zeros in front do not matter. -/
theorem readDigits_zeros (base k : ℕ) (hbase : 0 < base) (s : List UInt8) :
    readDigits base (List.replicate k (digitChar 0) ++ s) 0 = readDigits base s 0 := by
  induction k with
  | zero => rfl
  | succ k ih =>
    rw [List.replicate_succ, List.cons_append, readDigits, digitOf_digitChar (by decide)]
    simp only
    rw [if_neg (by omega), Nat.cast_zero, Int.zero_mul, Int.add_zero]
    exact ih

/-- Zeros, and then a number. -/
theorem readDigits_numeral (base : Base) (hbase : base.val ≤ 16) (k num : ℕ) :
    readDigits base.val (List.replicate k (digitChar 0) ++ (numeral base num).map digitChar) 0 =
      (int32 num, []) := by
  have hlt : ∀ d ∈ numeral base num, d < base.val := fun d => lt_of_mem_numeral
  have hread := readDigits_digits hbase hlt [] 0
  have hval : (numeral base num).foldl (fun v d => v * base.val + d) 0 = num := valueOf_numeral
  rw [List.append_nil, hval] at hread
  rw [readDigits_zeros _ _ (Nat.zero_lt_of_lt base.one_lt)]
  exact hread

/-- A string that begins with a digit has no blanks and no sign in front. -/
theorem strtol_of_digit {d : ℕ} (hd : d < 16) (s : List UInt8) (base : ℤ) :
    strtol (digitChar d :: s) base =
      readDigits (readPrefix base (digitChar d :: s)).1
        (readPrefix base (digitChar d :: s)).2 0 := by
  have hall : ∀ d < 16, schar (digitChar d) ≠ code ' ' ∧ schar (digitChar d) ≠ code '\t' ∧
      schar (digitChar d) ≠ code '+' ∧ schar (digitChar d) ≠ code '-' := by decide
  obtain ⟨hblank, htab, hplus, hminus⟩ := hall d hd
  have hdrop : (digitChar d :: s).dropWhile (fun c => schar c = code ' ' ∨ schar c = code '\t') =
      digitChar d :: s := List.dropWhile_cons_of_neg (by simp [hblank, htab])
  simp only [strtol, hdrop, readSign, if_neg hplus, if_neg hminus, Bool.false_eq_true, if_false]

/-- A string that begins with a minus sign. -/
theorem strtol_minus (s : List UInt8) (base : ℤ) :
    strtol (45 :: s) base =
      (int32 (-(readDigits (readPrefix base s).1 (readPrefix base s).2 0).1),
        (readDigits (readPrefix base s).1 (readPrefix base s).2 0).2) := by
  have hdrop : ((45 : UInt8) :: s).dropWhile (fun c => schar c = code ' ' ∨ schar c = code '\t') =
      45 :: s := List.dropWhile_cons_of_neg (by decide)
  have hsign : readSign (45 :: s) = (true, s) := rfl
  simp only [strtol, hdrop, hsign, if_true]

/-- Blanks in front do not matter. -/
theorem strtol_blanks (k : ℕ) (s : List UInt8) (base : ℤ) :
    strtol (List.replicate k 32 ++ s) base = strtol s base := by
  have hdrop : (List.replicate k 32 ++ s).dropWhile
      (fun c => decide (schar c = code ' ' ∨ schar c = code '\t')) =
        s.dropWhile fun c => schar c = code ' ' ∨ schar c = code '\t' :=
    List.dropWhile_append_of_pos fun c hc => by
      rw [List.eq_of_mem_replicate hc]
      decide
  rw [strtol, hdrop, strtol]

/-- **An unsigned number**, with zeros in front. -/
theorem strtol_unsigned (k num : ℕ) :
    strtol (List.replicate k (digitChar 0) ++ (numeral decimal num).map digitChar) 10 =
      (int32 num, []) := by
  have hread := readDigits_numeral decimal (by decide) k num
  have hdigit : ∃ d s, d < 16 ∧
      List.replicate k (digitChar 0) ++ (numeral decimal num).map digitChar = digitChar d :: s := by
    have hne : List.replicate k 0 ++ numeral decimal num ≠ [] :=
      List.append_ne_nil_of_right_ne_nil _ <| List.ne_nil_of_length_pos <| by
        rw [length_numeral]
        exact Nat.succ_pos _
    obtain ⟨d, ds, hcons⟩ := List.exists_cons_of_ne_nil hne
    have hd : d < 16 := by
      rcases List.mem_append.mp (hcons ▸ List.mem_cons_self) with h | h
      · rw [List.eq_of_mem_replicate h]
        decide
      · exact (lt_of_mem_numeral h).trans (by decide)
    refine ⟨d, ds.map digitChar, hd, ?_⟩
    rw [← List.map_replicate, ← List.map_append, hcons, List.map_cons]
  obtain ⟨d, s, hd, heq⟩ := hdigit
  rw [heq] at hread ⊢
  rw [strtol_of_digit hd]
  exact hread

/-- **A negative number**, with zeros behind the sign. -/
theorem strtol_negative (k num : ℕ) :
    strtol (45 :: (List.replicate k (digitChar 0) ++ (numeral decimal num).map digitChar)) 10 =
      (int32 (-num), []) := by
  have hread := readDigits_numeral decimal (by decide) k num
  have hneg : int32 (-int32 num) = int32 (-num) := by
    rw [int32, int32, int32, Int.bmod_neg_bmod]
  have hbase (s : List UInt8) : readPrefix 10 s = ((decimal.val : ℤ), s) := rfl
  simp only [strtol_minus, hbase, hread, hneg]

/-! ## Written and read -/

/-- The text of `%d`. -/
theorem text_decimal (num : ℤ) (f : Escape) :
    textOf (putDecimal collect num f []) =
      (if num < 0 then [45] else []) ++
        (List.replicate (int32 (f.width - (Nat.log 10 num.natAbs + 1))).toNat (byteOf f.padc) ++
          (numeral decimal num.natAbs).map digitChar) := by
  simp only [putDecimal]
  rw [printnum_collect, ← textOf_digits]
  simp only [textOf, List.map_append, List.map_replicate, List.append_assoc]
  congr 1
  split <;> rfl

/-- `%d`, when flags and width have been read. -/
theorem convert_decimal (f : Escape) (ap : VaList) (hflag : f.lflag = 0) :
    convert collect ⟨code 'd', [], f, ap⟩ [] =
      some (ap.skip 1, putDecimal collect ap.int f []) := by
  have hint : getint ap f.lflag = (ap.int, ap.skip 1) := if_neg (by omega)
  simp only [convert]
  rw [if_neg (by decide), if_neg (by decide), if_neg (by decide), if_pos trivial, hint]

theorem formatted_escape {fmt : List UInt8} {f : Escape} {ap ap' : VaList} {ch : ℤ} {text : List ℤ}
    (hread : reswitch fmt {} ap = ⟨ch, [], f, ap'⟩) {ap'' : VaList}
    (hconvert : convert collect ⟨ch, [], f, ap'⟩ [] = some (ap'', text)) :
    formatted (37 :: fmt) ap = text := by
  rw [formatted, vprintfmt, if_neg (by decide)]
  simp only
  rw [hread, hconvert]
  simp only
  rw [vprintfmt]

/-- `%*d` -/
theorem reswitch_star (f : Escape) (ap : VaList) (hwidth : f.width < 0) :
    reswitch [42, 100] f ap =
      ⟨code 'd', [], { f with width := ap.int, precision := -1 }, ap.skip 1⟩ := by
  have hd : uchar 100 = code 'd' := by decide
  rw [reswitch]
  simp only
  rw [if_neg (by decide), if_neg (by decide), if_neg (by decide), if_pos (by decide),
    reswitch_plain [] _ _ (by decide) (by decide), Escape.processPrecision, if_pos hwidth, hd]

/-- `%0*d` -/
theorem formatted_zeroPadded (ap : VaList) :
    formatted (literal "%0*d") ap =
      putDecimal collect (ap.skip 1).int { padc := code '0', width := ap.int } [] := by
  have hfmt : literal "%0*d" = 37 :: [48, 42, 100] := rfl
  rw [hfmt]
  refine formatted_escape ?_ (convert_decimal _ _ ?_)
  · rw [reswitch]
    simp only
    rw [if_neg (by decide), if_pos (by decide), reswitch_star _ _ (by decide)]
  · rfl

/-- `%*d` -/
theorem formatted_blankPadded (ap : VaList) :
    formatted (literal "%*d") ap = putDecimal collect (ap.skip 1).int { width := ap.int } [] := by
  have hfmt : literal "%*d" = 37 :: [42, 100] := rfl
  rw [hfmt]
  exact formatted_escape (reswitch_star _ _ (by decide)) (convert_decimal _ _ rfl)

/-- `%p` -/
theorem formatted_pointer (ap : VaList) :
    formatted (literal "%p") ap =
      [code '0', code 'x'] ++ (numeral hexadecimal (ap.words 0).toNat).map hexDigit := by
  have hfmt : literal "%p" = 37 :: [112] := rfl
  have hp : uchar 112 = code 'p' := by decide
  have hlog : Nat.log 16 (ap.words 0).toNat ≤ Nat.log 16 (2 ^ 32) :=
    Nat.log_mono_right (Nat.le_of_lt (ap.words 0).toNat_lt)
  have hpow : Nat.log 16 (2 ^ 32) = 8 := Nat.log_eq_of_pow_le_of_lt_pow (by decide) (by decide)
  have hpads : (int32 (-1 - (Nat.log 16 (ap.words 0).toNat + 1))).toNat = 0 := by
    rw [int32_eq (by omega) (by omega)]
    omega
  have hplain := reswitch_plain (c := 112) [] {} ap (by decide) (by decide)
  rw [hp] at hplain
  rw [hfmt]
  refine @formatted_escape _ _ _ _ _ _ hplain (ap.skip 1) ?_
  simp only [convert]
  rw [if_neg (by decide), if_neg (by decide), if_neg (by decide), if_neg (by decide),
    if_neg (by decide), if_neg (by decide), if_pos trivial, printnum_collect]
  show some (_, _ ++ List.replicate (int32 (-1 - (Nat.log 16 (ap.words 0).toNat + 1))).toNat _ ++
    _) = _
  rw [hpads]
  rfl

/-- What is read back of `%0*d` is the number. -/
theorem strtol_zeroPadded (ap : VaList) :
    strtol (textOf (formatted (literal "%0*d") ap)) 10 = ((ap.skip 1).int, []) := by
  have hzero : byteOf (code '0') = digitChar 0 := by decide
  have hint : int32 (ap.skip 1).int = (ap.skip 1).int := int32_eq (le_int32 _) (int32_lt _)
  rw [formatted_zeroPadded, text_decimal, hzero]
  generalize (ap.skip 1).int = v at hint ⊢
  split
  next hneg =>
    have habs : -(v.natAbs : ℤ) = v := by omega
    rw [List.singleton_append, strtol_negative, habs, hint]
  next hneg =>
    have habs : (v.natAbs : ℤ) = v := by omega
    rw [List.nil_append, strtol_unsigned, habs, hint]

/-- What is read back of `%*d` is the number, unless blanks separate it from its sign. -/
theorem strtol_blankPadded (ap : VaList) :
    (strtol (textOf (formatted (literal "%*d") ap)) 10).1 =
      if (ap.skip 1).int < 0 ∧ 0 < int32 (ap.int - (Nat.log 10 (ap.skip 1).int.natAbs + 1)) then 0
      else (ap.skip 1).int := by
  have hblank : byteOf (code ' ') = 32 := by decide
  have hint : int32 (ap.skip 1).int = (ap.skip 1).int := int32_eq (le_int32 _) (int32_lt _)
  rw [formatted_blankPadded, text_decimal, hblank]
  generalize (ap.skip 1).int = v at hint ⊢
  rcases Int.lt_or_le v 0 with hneg | hnonneg
  · have habs : -(v.natAbs : ℤ) = v := by omega
    rw [if_pos hneg, List.singleton_append]
    rcases Int.lt_or_le 0 (int32 (ap.int - (Nat.log 10 v.natAbs + 1))) with hpad | hpad
    · obtain ⟨k, hk⟩ : ∃ k, (int32 (ap.int - (Nat.log 10 v.natAbs + 1))).toNat = k + 1 :=
        Nat.exists_eq_succ_of_ne_zero (by omega)
      rw [if_pos ⟨hneg, hpad⟩, hk, strtol_minus]
      rfl
    · have hnone := strtol_negative 0 v.natAbs
      rw [List.replicate_zero, List.nil_append] at hnone
      rw [if_neg (by omega), Int.toNat_of_nonpos hpad, List.replicate_zero, List.nil_append, hnone,
        habs, hint]
  · have habs : (v.natAbs : ℤ) = v := by omega
    have hdigits := strtol_unsigned 0 v.natAbs
    rw [List.replicate_zero, List.nil_append] at hdigits
    rw [if_neg (by omega), if_neg (by omega), List.nil_append, strtol_blanks, hdigits, habs, hint]

/-- What is read back of `%p`, where the base is left open, is the pointer. -/
theorem strtol_pointer (ap : VaList) :
    strtol (textOf (formatted (literal "%p") ap)) 0 = (int32 (ap.words 0).toNat, []) := by
  have hread := readDigits_numeral hexadecimal (by decide) 0 (ap.words 0).toNat
  rw [List.replicate_zero, List.nil_append] at hread
  have htext : textOf (formatted (literal "%p") ap) =
      digitChar 0 :: 120 :: (numeral hexadecimal (ap.words 0).toNat).map digitChar := by
    rw [formatted_pointer, ← textOf_digits]
    rfl
  have hprefix : readPrefix 0 (textOf (formatted (literal "%p") ap)) =
      ((hexadecimal.val : ℤ), (numeral hexadecimal (ap.words 0).toNat).map digitChar) := by
    rw [htext, readPrefix, if_pos ⟨.inl rfl, _, rfl⟩]
    rfl
  rw [htext] at hprefix ⊢
  rw [strtol_of_digit (by decide), hprefix]
  exact hread

/-! ### `itoa` -/

theorem itoaLoop_of_nonneg (num : ℕ) (p : List UInt8) :
    itoaLoop num p = (numeral decimal num).map digitChar ++ p := by
  have hchar : ∀ d < 10, UInt8.ofInt (code '0' + (d : ℕ)) = digitChar d := by decide
  induction num using Nat.strong_induction_on generalizing p with
  | h num ih =>
    have hrem : (num : ℤ).tmod 10 = (num % 10 : ℕ) := rfl
    have hquot : (num : ℤ).tdiv 10 = (num / 10 : ℕ) := rfl
    rw [itoaLoop, hrem, hquot, hchar _ (Nat.mod_lt num (by decide))]
    rcases Nat.lt_or_ge num 10 with hlt | hge
    · rw [numeral_of_lt hlt, Nat.mod_eq_of_lt hlt, if_neg (by omega)]
      rfl
    · rw [numeral_of_le hge, if_pos (by omega), ih (num / 10) (by omega), List.map_append,
        List.append_assoc]
      rfl

/-- The characters that are not above `'0'`, and not far below. -/
def NearZero (c : UInt8) : Prop := 39 ≤ c.toNat ∧ c.toNat ≤ 48

/-- For a negative number `itoa` goes down from `'0'`. -/
theorem nearZero_itoaLoop {a : ℤ} (ha : a ≤ 0) {p : List UInt8} (hp : ∀ c ∈ p, NearZero c) :
    ∀ c ∈ itoaLoop a p, NearZero c := by
  have hchar (a : ℤ) (ha : a ≤ 0) : NearZero (UInt8.ofInt (code '0' + a.tmod 10)) := by
    have hspec := tdiv_tmod_spec a (show (0 : ℤ) < 10 by decide)
    have hcode : code '0' = 48 := rfl
    have hmod : ((48 + a.tmod 10) % 2 ^ 8).toNat % 2 ^ 8 = (48 + a.tmod 10).toNat := by omega
    rw [NearZero, hcode, UInt8.ofInt, UInt8.toNat_ofNat', hmod]
    omega
  fun_induction itoaLoop a p with
  | case1 a p q hne ih =>
    have hspec := tdiv_tmod_spec a (show (0 : ℤ) < 10 by decide)
    exact ih (by omega) (List.forall_mem_cons.mpr ⟨hchar a ha, hp⟩)
  | case2 a p q heq => exact List.forall_mem_cons.mpr ⟨hchar a ha, hp⟩

/-- No blanks, and no digit that counts. -/
theorem NearZero.spec {c : UInt8} (h : NearZero c) :
    schar c ≠ code ' ' ∧ schar c ≠ code '\t' ∧ (digitOf c = none ∨ digitOf c = some 0) := by
  have hall : ∀ n < 49, 39 ≤ n → schar (UInt8.ofNat n) ≠ code ' ' ∧
      schar (UInt8.ofNat n) ≠ code '\t' ∧
        (digitOf (UInt8.ofNat n) = none ∨ digitOf (UInt8.ofNat n) = some 0) := by decide
  have hc := hall c.toNat (Nat.lt_succ_of_le h.2) h.1
  rwa [UInt8.ofNat_toNat] at hc

theorem readDigits_nearZero {s : List UInt8} (hs : ∀ c ∈ s, NearZero c) :
    (readDigits 10 s 0).1 = 0 := by
  induction s with
  | nil => rfl
  | cons c s ih =>
    obtain ⟨hc, hrest⟩ := List.forall_mem_cons.mp hs
    obtain ⟨-, -, hnone | hzero⟩ := hc.spec
    · rw [readDigits, hnone]
    · rw [readDigits, hzero]
      exact ih hrest

/-- Such a string is read as zero, whatever is taken for its sign. -/
theorem strtol_nearZero {s : List UInt8} (hs : ∀ c ∈ s, NearZero c) : (strtol s 10).1 = 0 := by
  have hbase (s : List UInt8) : readPrefix 10 s = (10, s) := rfl
  have hdrop : s.dropWhile (fun c => schar c = code ' ' ∨ schar c = code '\t') = s := by
    cases s with
    | nil => rfl
    | cons c s =>
      obtain ⟨hblank, htab, -⟩ := (hs c List.mem_cons_self).spec
      exact List.dropWhile_cons_of_neg (by simp [hblank, htab])
  have hsign : ∀ c ∈ (readSign s).2, NearZero c := by
    intro c hc
    cases s with
    | nil => exact absurd hc List.not_mem_nil
    | cons d s =>
      rw [readSign] at hc
      split at hc
      · exact hs c (List.mem_cons_of_mem d hc)
      · split at hc
        · exact hs c (List.mem_cons_of_mem d hc)
        · exact hs c hc
  simp only [strtol, hdrop, hbase, readDigits_nearZero hsign]
  split <;> rfl

theorem length_itoaLoop_le {a : ℤ} {k : ℕ} (h : a.natAbs < 10 ^ (k + 1)) (p : List UInt8) :
    (itoaLoop a p).length ≤ k + 1 + p.length := by
  induction k generalizing a p with
  | zero =>
    have hspec := tdiv_tmod_spec a (show (0 : ℤ) < 10 by decide)
    rw [itoaLoop, if_neg (by omega), List.length_cons]
    omega
  | succ k ih =>
    have hspec := tdiv_tmod_spec a (show (0 : ℤ) < 10 by decide)
    rw [itoaLoop]
    split
    next hne =>
      have hrest := ih (a := a.tdiv 10) (by rw [pow_succ] at h; omega)
        (UInt8.ofInt (code '0' + a.tmod 10) :: p)
      rw [List.length_cons] at hrest
      omega
    next =>
      rw [List.length_cons]
      omega

/-- `itoa` does not come to the beginning of its buffer. -/
theorem length_itoa_le {a : ℤ} (hl : -2 ^ 31 ≤ a) (hu : a < 2 ^ 31) : (itoa a).length ≤ 10 :=
  length_itoaLoop_le (k := 9) (by omega) []

/-- What is read back of `itoa` is the number, unless it was negative. -/
theorem strtol_itoa {a : ℤ} (ha : a < 2 ^ 31) : (strtol (itoa a) 10).1 = max a 0 := by
  rcases Int.lt_or_le a 0 with hneg | hnonneg
  · rw [itoa, strtol_nearZero (nearZero_itoaLoop (Int.le_of_lt hneg) (List.forall_mem_nil _)),
      Int.max_eq_right (Int.le_of_lt hneg)]
  · lift a to ℕ using hnonneg
    have hdigits := strtol_unsigned 0 a
    rw [List.replicate_zero, List.nil_append] at hdigits
    rw [itoa, itoaLoop_of_nonneg, List.append_nil, hdigits, int32_eq (by omega) ha,
      Int.max_eq_left (Int.natCast_nonneg a)]

theorem strtol_itoa_fps : (strtol (itoa 60) 10).1 = max 60 0 := strtol_itoa (by decide)

end OsLab
