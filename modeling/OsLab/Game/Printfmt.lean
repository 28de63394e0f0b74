import OsLab.Lib.CInt
import OsLab.Lib.Sink

/-!
# `vprintfmt`

The formatting functions of `printfmt.c`. All of them are handed a function `putch`, and nothing is
known of the state `putdat` that it works on. So the text that a format stands for is a list of
characters (`formatted`), and with any `putch` `vprintfmt` puts out just these, in order
(`vprintfmt_eq`).

A character is an `int`, as it is for `putch`. The arguments are the words on the stack behind the
format; a pointer among them leads to a string, which is taken without its `'\0'`.

## Main definitions

* `VaList` — a `va_list`: the words from the next argument on, and the string at each address
* `Escape` — the local variables that describe an escape, with their values at its start
* `Conversion` — what is known where an escape has been read: the character that says what to put
  out, the format behind it, and the variables
* `convert` — the cases of the `switch` that put something out: the arguments that are left, and the
  new state
* `formatted` — the characters that a format and its arguments stand for

## Main results

* `vprintfmt_eq` — whatever `putch` is, the formatted text is what it is called with
* `formatted_text` — a format without `%` is its own text
-/

namespace OsLab

/-! ## Arguments -/

/-- A `va_list`: the words from the next argument on, and the string at each address. -/
structure VaList where
  words : ℕ → UInt32
  str : UInt32 → List UInt8

/-- The list after `n` words were taken from it. -/
def VaList.skip (n : ℕ) (ap : VaList) : VaList := { ap with words := fun i => ap.words (i + n) }

/-- `va_arg(ap, int)` -/
def VaList.int (ap : VaList) : ℤ := int32 (ap.words 0).toNat

/-- `va_arg(ap, unsigned long long)` -/
def VaList.longLong (ap : VaList) : ℕ := (ap.words 0).toNat + 2 ^ 32 * (ap.words 1).toNat

/-- `getuint` -/
def getuint (ap : VaList) (lflag : ℤ) : ℕ × VaList :=
  if 2 ≤ lflag then (ap.longLong, ap.skip 2) else ((ap.words 0).toNat, ap.skip 1)

/-- `getint` -/
def getint (ap : VaList) (lflag : ℤ) : ℤ × VaList :=
  if 2 ≤ lflag then ((ap.longLong : ℤ).bmod (2 ^ 64), ap.skip 2) else (ap.int, ap.skip 1)

/-! ## Characters -/

/-- A character constant. -/
def code (c : Char) : ℤ := c.toNat

/-- A string constant. -/
def literal (s : String) : List UInt8 := s.toList.map Char.toUInt8

/-- A byte through a pointer to `unsigned char`. -/
def uchar (c : UInt8) : ℤ := c.toNat

/-- A byte through a pointer to `char`, which is signed. -/
def schar (c : UInt8) : ℤ := c.toInt8.toInt

/-- `strnlen`, for a string without its `'\0'`. -/
def strnlen (p : List UInt8) (size : ℤ) : ℤ := min p.length (uint32 size)

/-! ## Escapes -/

/-- The local variables that describe an escape, with their values at its start. -/
structure Escape where
  padc : ℤ := code ' '
  width : ℤ := -1
  precision : ℤ := -1
  lflag : ℤ := 0
  altflag : Bool := false

/-- The label `process_precision`. -/
def Escape.processPrecision (f : Escape) : Escape :=
  if f.width < 0 then { f with width := f.precision, precision := -1 } else f

/-- The loop over the digits of a number: the number, and the format behind it. -/
def readNumber (precision : ℤ) : List UInt8 → ℤ × List UInt8
  | [] => (precision, [])
  | c :: fmt =>
    if code '0' ≤ uchar c ∧ uchar c ≤ code '9' then
      readNumber (int32 (precision * 10 + uchar c - code '0')) fmt
    else (precision, c :: fmt)

theorem length_readNumber_le (precision : ℤ) (fmt : List UInt8) :
    (readNumber precision fmt).2.length ≤ fmt.length := by
  induction fmt generalizing precision with
  | nil => exact Nat.le_refl _
  | cons c fmt ih =>
    rw [readNumber]
    split
    · exact (ih _).trans (Nat.le_succ _)
    · exact Nat.le_refl _

/-- What is known where an escape has been read: the character that says what to put out, the format
behind it, and the variables. -/
structure Conversion where
  ch : ℤ
  fmt : List UInt8
  f : Escape
  ap : VaList

/-- The label `reswitch`, up to a character that is not a flag and does not belong to a width. -/
def reswitch (fmt : List UInt8) (f : Escape) (ap : VaList) : Conversion :=
  match fmt with
  | [] => ⟨0, [], f, ap⟩
  | c :: fmt =>
    let ch := uchar c
    if ch = code '-' then reswitch fmt { f with padc := code '-' } ap
    else if ch = code '0' then reswitch fmt { f with padc := code '0' } ap
    else if code '1' ≤ ch ∧ ch ≤ code '9' then
      let number := readNumber (int32 (0 * 10 + ch - code '0')) fmt
      reswitch number.2 { f with precision := number.1 }.processPrecision ap
    else if ch = code '*' then
      reswitch fmt { f with precision := ap.int }.processPrecision (ap.skip 1)
    else if ch = code '.' then reswitch fmt (if f.width < 0 then { f with width := 0 } else f) ap
    else if ch = code '#' then reswitch fmt { f with altflag := true } ap
    else if ch = code 'l' then reswitch fmt { f with lflag := int32 (f.lflag + 1) } ap
    else ⟨ch, fmt, f, ap⟩
termination_by fmt.length
decreasing_by
  all_goals first
    | exact Nat.lt_succ_self _
    | exact Nat.lt_succ_of_le (length_readNumber_le _ _)

theorem length_reswitch_le (fmt : List UInt8) (f : Escape) (ap : VaList) :
    (reswitch fmt f ap).fmt.length ≤ fmt.length := by
  fun_induction reswitch fmt f ap with
  | case1 f ap => exact Nat.le_refl _
  | case4 f ap c fmt ch hminus hzero hdigit number ih =>
    exact ih.trans ((length_readNumber_le _ _).trans (Nat.le_succ _))
  | case9 f ap c fmt => exact Nat.le_succ _
  | _ => exact Nat.le_succ_of_le ‹_›

/-! ## Output -/

/-- `MAXERROR` -/
def MAXERROR : ℤ := 8

/-- `error_string`; there is nothing at the other numbers. (For the least `int`, which is its own
negation, the index wraps around to entry 0.) -/
def errorString (err : ℤ) : Option (List UInt8) :=
  if err = 1 then some (literal "unspecified error")
  else if err = 2 then some (literal "bad environment")
  else if err = 3 then some (literal "invalid parameter")
  else if err = 4 then some (literal "out of memory")
  else if err = 5 then some (literal "out of environments")
  else if err = 6 then some (literal "segmentation fault")
  else none

/-- `"0123456789abcdef"[d]` -/
def hexDigit (d : ℕ) : ℤ := uchar ((literal "0123456789abcdef").getD d 0)

/-- A base of numbers. -/
structure Base where
  val : ℕ
  one_lt : 1 < val

/-- The base of `%d` and `%u`. -/
def decimal : Base := ⟨10, by decide⟩

/-- The base of `%x` and `%p`. -/
def hexadecimal : Base := ⟨16, by decide⟩

section Output

variable {σ : Type*} (putch : ℤ → σ → σ)

/-- `for (; width > 0; width--) putch(ch, putdat);` -/
def putPad (ch width : ℤ) (s : σ) : σ := (putch ch)^[width.toNat] s

/-- `printnum` -/
def printnum (base : Base) (num : ℕ) (width padc : ℤ) (s : σ) : σ :=
  if h : base.val ≤ num then
    putch (hexDigit (num % base.val)) (printnum base (num / base.val) (int32 (width - 1)) padc s)
  else putch (hexDigit (num % base.val)) (putPad putch padc (int32 (width - 1)) s)
termination_by num
decreasing_by
  exact Nat.div_lt_self (Nat.lt_of_lt_of_le (Nat.zero_lt_of_lt base.one_lt) h) base.one_lt

/-- The loop of `%s` over the string, which counts the width down. -/
def putChars (altflag : Bool) : List UInt8 → ℤ → ℤ → σ → ℤ × σ
  | [], _, width, s => (width, s)
  | c :: p, precision, width, s =>
    if precision < 0 ∨ 0 ≤ precision - 1 then
      let precision := if precision < 0 then precision else precision - 1
      let ch := schar c
      let ch := if altflag ∧ (ch < code ' ' ∨ code '~' < ch) then code '?' else ch
      putChars altflag p precision (int32 (width - 1)) (putch ch s)
    else (width, s)

/-- `%s` -/
def putString (p : List UInt8) (f : Escape) (s : σ) : σ :=
  let left := 0 < f.width ∧ f.padc ≠ code '-'
  let width := if left then int32 (f.width - strnlen p f.precision) else f.width
  let s := if left then putPad putch f.padc width s else s
  -- the loop that pads leaves a width that is not positive
  let width := if left then min width 0 else width
  let (width, s) := putChars putch f.altflag p f.precision width s
  putPad putch (code ' ') width s

/-- `%d` -/
def putDecimal (num : ℤ) (f : Escape) (s : σ) : σ :=
  let s := if num < 0 then putch (code '-') s else s
  printnum putch decimal num.natAbs f.width f.padc s

/-- `%e`: what `printfmt` puts out for `"error %d"` or for `"%s"`. -/
def putError (err : ℤ) (s : σ) : σ :=
  let err := if err < 0 then int32 (-err) else err
  match if err < MAXERROR then errorString err else none with
  | some p => putString putch p {} s
  | none => putDecimal putch err {} (putAll putch ((literal "error ").map uchar) s)

/-- The cases of the `switch` that put something out: the arguments that are left, and the new
state. `none` is an escape that is not recognized. -/
def convert (c : Conversion) (s : σ) : Option (VaList × σ) :=
  if c.ch = code 'c' then some (c.ap.skip 1, putch c.ap.int s)
  else if c.ch = code 'e' then some (c.ap.skip 1, putError putch c.ap.int s)
  else if c.ch = code 's' then
    let p := if c.ap.words 0 = 0 then literal "(null)" else c.ap.str (c.ap.words 0)
    some (c.ap.skip 1, putString putch p c.f s)
  else if c.ch = code 'd' then
    let (num, ap) := getint c.ap c.f.lflag
    some (ap, putDecimal putch num c.f s)
  else if c.ch = code 'u' then
    let (num, ap) := getuint c.ap c.f.lflag
    some (ap, printnum putch decimal num c.f.width c.f.padc s)
  else if c.ch = code 'o' then
    some (c.ap, putch (code 'X') (putch (code 'X') (putch (code 'X') s)))
  else if c.ch = code 'p' then
    let s := putch (code 'x') (putch (code '0') s)
    some (c.ap.skip 1,
      printnum putch hexadecimal (c.ap.words 0).toNat c.f.width c.f.padc s)
  else if c.ch = code 'x' then
    let (num, ap) := getuint c.ap c.f.lflag
    some (ap, printnum putch hexadecimal num c.f.width c.f.padc s)
  else if c.ch = code '%' then some (c.ap, putch c.ch s)
  else none

/-- `vprintfmt` -/
def vprintfmt (fmt : List UInt8) (ap : VaList) (s : σ) : σ :=
  match fmt with
  | [] => s
  | c :: fmt =>
    if uchar c ≠ code '%' then vprintfmt fmt ap (putch (uchar c) s)
    else
      let conversion := reswitch fmt {} ap
      match convert putch conversion s with
      | some (ap, s) => vprintfmt conversion.fmt ap s
      -- an escape that is not recognized is put out as it stands
      | none => vprintfmt fmt conversion.ap (putch (code '%') s)
termination_by fmt.length
decreasing_by
  · exact Nat.lt_succ_self _
  · exact Nat.lt_succ_of_le (length_reswitch_le ..)
  · exact Nat.lt_succ_self _

end Output

/-! ## The formatted text -/

section Map

variable {σ τ : Type*} {putch : ℤ → σ → σ} {putch' : ℤ → τ → τ} {g : σ → τ}

theorem putPad_map (h : PutMap putch putch' g) (ch width : ℤ) (s : σ) :
    g (putPad putch ch width s) = putPad putch' ch width (g s) :=
  h.iterate ch width.toNat s

theorem printnum_map (h : PutMap putch putch' g) (base : Base) (num : ℕ) (width padc : ℤ) (s : σ) :
    g (printnum putch base num width padc s) = printnum putch' base num width padc (g s) := by
  fun_induction printnum putch base num width padc s with
  | case1 num width hle ih =>
    rw [h, ih]
    conv_rhs => rw [printnum, dif_pos hle]
  | case2 num width hlt =>
    rw [h, putPad_map h]
    conv_rhs => rw [printnum, dif_neg hlt]

theorem putChars_map (h : PutMap putch putch' g) (altflag : Bool) (p : List UInt8)
    (precision width : ℤ) (s : σ) :
    (putChars putch altflag p precision width s).map id g =
      putChars putch' altflag p precision width (g s) := by
  induction p generalizing precision width s with
  | nil => rfl
  | cons c p ih =>
    rw [putChars, putChars]
    split
    · rw [ih, h]
    · rfl

theorem putString_map (h : PutMap putch putch' g) (p : List UInt8) (f : Escape) (s : σ) :
    g (putString putch p f s) = putString putch' p f (g s) := by
  by_cases hleft : 0 < f.width ∧ f.padc ≠ code '-'
  · simp only [putString, if_pos hleft]
    rw [putPad_map h, ← putPad_map h f.padc, ← putChars_map h]
    rfl
  · simp only [putString, if_neg hleft]
    rw [putPad_map h, ← putChars_map h]
    rfl

theorem putDecimal_map (h : PutMap putch putch' g) (num : ℤ) (f : Escape) (s : σ) :
    g (putDecimal putch num f s) = putDecimal putch' num f (g s) := by
  simp only [putDecimal]
  rw [printnum_map h]
  split
  · rw [h]
  · rfl

theorem putError_map (h : PutMap putch putch' g) (err : ℤ) (s : σ) :
    g (putError putch err s) = putError putch' err (g s) := by
  simp only [putError]
  split
  · exact putString_map h ..
  · rw [putDecimal_map h, h.apply_putAll]

theorem convert_map (h : PutMap putch putch' g) (c : Conversion) (s : σ) :
    (convert putch c s).map (Prod.map id g) = convert putch' c (g s) := by
  simp [convert, apply_ite (Option.map (Prod.map id g)), h _ _, putError_map h, putString_map h,
    putDecimal_map h, printnum_map h]

/-- **`putch` is only called.** -/
theorem vprintfmt_map (h : PutMap putch putch' g) (fmt : List UInt8) (ap : VaList) (s : σ) :
    g (vprintfmt putch fmt ap s) = vprintfmt putch' fmt ap (g s) := by
  fun_induction vprintfmt putch fmt ap s with
  | case1 ap s => rw [vprintfmt]
  | case2 ap s c fmt hne ih =>
    rw [ih, h]
    conv_rhs => rw [vprintfmt, if_pos hne]
  | case3 ap s c fmt hescape conversion ap' s' hconvert ih =>
    have hconvert' : convert putch' conversion (g s) = some (ap', g s') := by
      rw [← convert_map h, hconvert]
      rfl
    rw [ih]
    conv_rhs => rw [vprintfmt, if_neg hescape]
    simp only [conversion] at hconvert' ⊢
    rw [hconvert']
  | case4 ap s c fmt hescape conversion hconvert ih =>
    have hconvert' : convert putch' conversion (g s) = none := by
      rw [← convert_map h, hconvert]
      rfl
    rw [ih, h]
    conv_rhs => rw [vprintfmt, if_neg hescape]
    simp only [conversion] at hconvert' ⊢
    rw [hconvert']

end Map

/-- The characters that a format and its arguments stand for. -/
def formatted (fmt : List UInt8) (ap : VaList) : List ℤ := vprintfmt collect fmt ap []

/-- **The formatted text is what is put out.** -/
theorem vprintfmt_eq {σ : Type*} (putch : ℤ → σ → σ) (fmt : List UInt8) (ap : VaList) (s : σ) :
    vprintfmt putch fmt ap s = putAll putch (formatted fmt ap) s :=
  (vprintfmt_map (PutMap.foldl putch s) fmt ap []).symm

/-- A text without `%` is put out as it is. -/
theorem vprintfmt_text {σ : Type*} (putch : ℤ → σ → σ) {text : List UInt8} (fmt : List UInt8)
    (ap : VaList) (s : σ) (h : ∀ c ∈ text, uchar c ≠ code '%') :
    vprintfmt putch (text ++ fmt) ap s =
      vprintfmt putch fmt ap (putAll putch (text.map uchar) s) := by
  induction text generalizing s with
  | nil => rfl
  | cons c text ih =>
    rw [List.cons_append, vprintfmt, if_pos (h c List.mem_cons_self),
      ih _ fun d hd => h d (List.mem_cons_of_mem c hd)]
    rfl

/-- An escape without flags. -/
theorem reswitch_plain {c : UInt8} (fmt : List UInt8) (f : Escape) (ap : VaList)
    (h : code '9' < uchar c) (hl : uchar c ≠ code 'l') :
    reswitch (c :: fmt) f ap = ⟨uchar c, fmt, f, ap⟩ := by
  have hdigits : code '-' < code '9' ∧ code '0' < code '9' ∧ code '*' < code '9' ∧
      code '.' < code '9' ∧ code '#' < code '9' := by decide
  rw [reswitch]
  simp only
  rw [if_neg (by omega), if_neg (by omega), if_neg (by omega), if_neg (by omega), if_neg (by omega),
    if_neg (by omega), if_neg hl]

/-- `printfmt(putch, putdat, "%s", p)` in `%e`. -/
theorem vprintfmt_percent_s {σ : Type*} (putch : ℤ → σ → σ) {ap : VaList} (s : σ)
    (h : ap.words 0 ≠ 0) :
    vprintfmt putch (literal "%s") ap s = putString putch (ap.str (ap.words 0)) {} s := by
  have hfmt : literal "%s" = [37, 115] := rfl
  rw [hfmt, vprintfmt, if_neg (by decide)]
  simp only
  rw [reswitch_plain [] {} ap (by decide) (by decide)]
  simp only [convert]
  rw [if_neg (by decide), if_neg (by decide), if_pos (by decide), if_neg h]
  simp only
  rw [vprintfmt]

/-- `printfmt(putch, putdat, "error %d", err)` in `%e`. -/
theorem vprintfmt_error {σ : Type*} (putch : ℤ → σ → σ) (ap : VaList) (s : σ) :
    vprintfmt putch (literal "error %d") ap s =
      putDecimal putch ap.int {} (putAll putch ((literal "error ").map uchar) s) := by
  have hfmt : literal "error %d" = literal "error " ++ [37, 100] := rfl
  have htext : ∀ c ∈ literal "error ", uchar c ≠ code '%' := by decide +kernel
  have hint : getint ap ({} : Escape).lflag = (ap.int, ap.skip 1) := if_neg (by decide)
  rw [hfmt, vprintfmt_text putch _ ap s htext, vprintfmt, if_neg (by decide)]
  simp only
  rw [reswitch_plain [] {} ap (by decide) (by decide)]
  simp only [convert]
  rw [if_neg (by decide), if_neg (by decide), if_neg (by decide), if_pos (by decide), hint]
  simp only
  rw [vprintfmt]

/-- **A format without escapes is its own text.** -/
theorem formatted_text {fmt : List UInt8} (ap : VaList) (h : ∀ c ∈ fmt, uchar c ≠ code '%') :
    formatted fmt ap = fmt.map uchar := by
  have hall : ∀ l out : List ℤ, putAll collect l out = out ++ l := by
    intro l
    induction l with
    | nil => exact fun out => (List.append_nil out).symm
    | cons a l ih => exact fun out => (ih (collect a out)).trans (List.append_assoc out [a] l)
  have hend := vprintfmt_text collect [] ap [] h
  rw [List.append_nil, vprintfmt, hall, List.nil_append] at hend
  exact hend

end OsLab
