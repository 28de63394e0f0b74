import OsLab.Process.KernelStacks
import Mathlib.Data.BitVec
import Mathlib.Tactic.IntervalCases

/-!
# The descriptor tables

`init_segment` and `init_idt` fill in two tables that nobody but the processor reads. The fields of
the entries are those of the C structures, and the processor takes what it wants from the 64 bits
that they make.

`deliver` is what the processor does about a vector: it looks the gate up, refuses an `int n` that
is not allowed, and finds the privilege of the handler in the segment that the gate names. What it
refuses becomes a general protection fault, which is vector 13.

## Main definitions

* `initIdt` — `init_idt`; `addr` is where the stubs are
* `initSegment` — `init_segment`: `memset`, and the five descriptors
* `DescriptorView` — what the processor reads in a descriptor
* `deliver` — what the processor does at the privilege `cpl` about vector `n`, if it is allowed;
  `instr` says that there has been an `int n`
* `Loads` — a program at the privilege `cpl` can load a data segment register with the selector

## Main results

* `deliver_event`, `deliver_int` — where each of the vectors leads to
* `int_from_user` — the one way into the kernel that a program has is the system call
* `user_segments` — the segments that a program can load are the whole of memory, without privileges
-/

namespace OsLab

/-! ## Descriptors -/

/-- `struct GateDescriptor` -/
structure GateDescriptor where
  offset_15_0 : BitVec 16
  segment : BitVec 16
  pad0 : BitVec 8
  type : BitVec 4
  system : BitVec 1
  privilege_level : BitVec 2
  present : BitVec 1
  offset_31_16 : BitVec 16

/-- The first field is in the lowest bits. -/
def GateDescriptor.bits (g : GateDescriptor) : BitVec 64 :=
  g.offset_31_16 ++ g.present ++ g.privilege_level ++ g.system ++ g.type ++ g.pad0 ++ g.segment ++
    g.offset_15_0

/-- `struct SegmentDescriptor` -/
structure SegDesc where
  limit_15_0 : BitVec 16
  base_15_0 : BitVec 16
  base_23_16 : BitVec 8
  type : BitVec 4
  segment_type : BitVec 1
  privilege_level : BitVec 2
  present : BitVec 1
  limit_19_16 : BitVec 4
  soft_use : BitVec 1
  operation_size : BitVec 1
  pad0 : BitVec 1
  granularity : BitVec 1
  base_31_24 : BitVec 8

/-- The descriptor in memory. -/
def SegDesc.bits (d : SegDesc) : BitVec 64 :=
  d.base_31_24 ++ d.granularity ++ d.pad0 ++ d.operation_size ++ d.soft_use ++ d.limit_19_16 ++
    d.present ++ d.privilege_level ++ d.segment_type ++ d.type ++ d.base_23_16 ++ d.base_15_0 ++
    d.limit_15_0

/-! ## The code -/

/-- The gates of the table. -/
def NR_IRQ : ℤ := 256
/-- The entry of the kernel's code. -/
def SEG_KERNEL_CODE : BitVec 32 := 1
/-- The privilege of the kernel. -/
def DPL_KERNEL : BitVec 32 := 0
/-- The privilege of the programs. -/
def DPL_USER : BitVec 32 := 3
/-- A gate that turns interrupts off. -/
def INTERRUPT_GATE_32 : BitVec 4 := 0xE
/-- A gate that leaves them on. -/
def TRAP_GATE_32 : BitVec 4 := 0xF

/-- `set_intr` and `set_trap` assign the same fields. -/
def setGate (type : BitVec 4) (selector offset dpl : BitVec 32) : GateDescriptor where
  offset_15_0 := (offset &&& 0xFFFF).setWidth 16
  segment := (selector <<< 3).setWidth 16
  pad0 := 0
  type := type
  system := 0
  privilege_level := dpl.setWidth 2
  present := 1
  offset_31_16 := ((offset >>> 16) &&& 0xFFFF).setWidth 16

/-- `set_intr` -/
def setIntr := setGate INTERRUPT_GATE_32

/-- `set_trap` -/
def setTrap := setGate TRAP_GATE_32

/-- The entries of `do_irq.S`. -/
inductive Stub
  | vec (n : ℕ)
  | vecsys
  | irq (n : ℕ)
  | irq_empty
  deriving DecidableEq

/-- The number that the stub pushes, an `int32_t` for `irq_handle`. -/
def Stub.number : Stub → UInt32
  | vec n => UInt32.ofNat n
  | vecsys => 0x80
  | irq n => 1000 + UInt32.ofNat n
  | irq_empty => -1

/-- `init_idt`; `addr` is where the stubs are. -/
def initIdt (addr : Stub → BitVec 32) (idt : ℤ → GateDescriptor) : ℤ → GateDescriptor :=
  let idt := forRange 0 NR_IRQ
    (fun i idt => Function.update idt i (setTrap SEG_KERNEL_CODE (addr .irq_empty) DPL_KERNEL)) idt
  -- `vec0` to `vec14`
  let idt := forRange 0 15
    (fun i idt =>
      Function.update idt i (setTrap SEG_KERNEL_CODE (addr (.vec i.toNat)) DPL_KERNEL)) idt
  let idt := Function.update idt 0x80 (setTrap SEG_KERNEL_CODE (addr .vecsys) DPL_USER)
  let idt := Function.update idt 32 (setIntr SEG_KERNEL_CODE (addr (.irq 0)) DPL_KERNEL)
  let idt := Function.update idt (32 + 1) (setIntr SEG_KERNEL_CODE (addr (.irq 1)) DPL_KERNEL)
  Function.update idt (32 + 14) (setIntr SEG_KERNEL_CODE (addr (.irq 14)) DPL_KERNEL)

/-- The bit of a data segment that can be written. -/
def SEG_WRITABLE : BitVec 32 := 0x2
/-- The bit of a code segment that can be read. -/
def SEG_READABLE : BitVec 32 := 0x2
/-- The bit of a code segment. -/
def SEG_EXECUTABLE : BitVec 32 := 0x8
/-- The type of a TSS. -/
def SEG_TSS_32BIT : BitVec 4 := 0x9

/-- `set_segment`, for a segment that is all of memory. -/
def setSegment (pl type : BitVec 32) : SegDesc where
  limit_15_0 := 0xFFFF
  base_15_0 := 0
  base_23_16 := 0
  type := type.setWidth 4
  segment_type := 1
  privilege_level := pl.setWidth 2
  present := 1
  limit_19_16 := 0xF
  soft_use := 0
  operation_size := 0
  pad0 := 1
  granularity := 1
  base_31_24 := 0

/-- `sizeof(TSS)` -/
def sizeofTSS : BitVec 32 := 100

/-- `set_tss` for a TSS at `tss`. -/
def setTss (tss : BitVec 32) : SegDesc :=
  let base := tss
  let limit := sizeofTSS - 1
  { limit_15_0 := (limit &&& 0xFFFF).setWidth 16
    base_15_0 := (base &&& 0xFFFF).setWidth 16
    base_23_16 := ((base >>> 16) &&& 0xFF).setWidth 8
    type := SEG_TSS_32BIT
    segment_type := 0
    privilege_level := DPL_USER.setWidth 2
    present := 1
    limit_19_16 := (limit >>> 16).setWidth 4
    soft_use := 0
    operation_size := 0
    pad0 := 1
    granularity := 0
    base_31_24 := (base >>> 24).setWidth 8 }

/-- `init_segment`: `memset`, and the five descriptors. -/
def initSegment (tss : BitVec 32) (gdt : ℕ → SegDesc) : ℕ → SegDesc :=
  let gdt := fun i => if i < 6 then ⟨0, 0, 0, 0, 0, 0, 0, 0, 0, 0, 0, 0, 0⟩ else gdt i
  let gdt := Function.update gdt 1 (setSegment DPL_KERNEL (SEG_EXECUTABLE ||| SEG_READABLE))
  let gdt := Function.update gdt 2 (setSegment DPL_KERNEL SEG_WRITABLE)
  let gdt := Function.update gdt 3 (setSegment DPL_USER (SEG_EXECUTABLE ||| SEG_READABLE))
  let gdt := Function.update gdt 4 (setSegment DPL_USER SEG_WRITABLE)
  Function.update gdt 5 (setTss tss)

/-! ## The processor -/

/-- What the processor reads in a descriptor. -/
structure DescriptorView where
  type : BitVec 4
  /-- A code or data segment, not one of the system's. -/
  isSegment : Bool
  dpl : ℕ
  present : Bool

/-- Both kinds of descriptor have these bits in the same places. -/
def view (b : BitVec 64) : DescriptorView where
  type := b.extractLsb' 40 4
  isSegment := b.extractLsb' 44 1 == 1
  dpl := (b.extractLsb' 45 2).toNat
  present := b.extractLsb' 47 1 == 1

/-- Where a gate leads to. -/
def gateOffset (b : BitVec 64) : BitVec 32 := b.extractLsb' 48 16 ++ b.extractLsb' 0 16

/-- The segment that a gate leads to. -/
def gateSelector (b : BitVec 64) : BitVec 16 := b.extractLsb' 16 16

/-- Where a segment begins. -/
def segBase (b : BitVec 64) : BitVec 32 :=
  b.extractLsb' 56 8 ++ b.extractLsb' 32 8 ++ b.extractLsb' 16 16

/-- The last offset in the segment. -/
def segLimit (b : BitVec 64) : ℕ :=
  let limit := (b.extractLsb' 48 4 ++ b.extractLsb' 0 16 : BitVec 20).toNat
  if b.extractLsb' 55 1 = 1 then 4096 * limit + 4095 else limit

/-- The descriptor that a selector selects, in a table that ends with the byte `limit`. There is no
other table. -/
def select (gdt : ℕ → BitVec 64) (limit : ℕ) (sel : BitVec 16) : Option (BitVec 64) :=
  if sel.extractLsb' 2 1 = 0 ∧ 8 * (sel.toNat / 8) + 7 ≤ limit then some (gdt (sel.toNat / 8))
  else none

/-- Where a vector leads to. -/
structure Entered where
  eip : BitVec 32
  cpl : ℕ
  /-- Interrupts are turned off. -/
  cli : Bool
  deriving DecidableEq

/-- What the processor does at the privilege `cpl` about vector `n`, if it is allowed; `instr` says
that there has been an `int n`. -/
def deliver (idt gdt : ℕ → BitVec 64) (limit cpl : ℕ) (instr : Bool) (n : ℕ) : Option Entered :=
  let g := view (idt n)
  if (g.type = 0xE ∨ g.type = 0xF) ∧ g.isSegment = false ∧ (instr = true → cpl ≤ g.dpl) ∧
      g.present = true then
    (select gdt limit (gateSelector (idt n))).bind fun d =>
      let s := view d
      -- a code segment that is not conforming
      if s.isSegment = true ∧ s.type.extractLsb' 2 2 = 2 ∧ s.dpl ≤ cpl ∧ s.present = true then
        some ⟨gateOffset (idt n), s.dpl, g.type = 0xE⟩
      else none
  else none

/-- `int n` -/
def intInstr (idt gdt : ℕ → BitVec 64) (limit cpl n : ℕ) : Option Entered :=
  deliver idt gdt limit cpl true n <|> deliver idt gdt limit cpl false 13

/-- A program at the privilege `cpl` can load a data segment register with the selector. -/
def Loads (gdt : ℕ → BitVec 64) (limit cpl : ℕ) (sel : BitVec 16) : Prop :=
  sel.toNat / 4 = 0 ∨ ∃ d, select gdt limit sel = some d ∧ (view d).isSegment = true ∧
    ((view d).type.extractLsb' 3 1 = 0 ∨ (view d).type.extractLsb' 1 1 = 1) ∧
    max cpl (sel.toNat % 4) ≤ (view d).dpl ∧ (view d).present = true

/-! ## What it reads -/

section Views

variable {g : GateDescriptor} {d : SegDesc} {type : BitVec 4} {selector offset dpl tss : BitVec 32}

@[simp] theorem view_gate : view g.bits =
    ⟨g.type, g.system == 1, g.privilege_level.toNat, g.present == 1⟩ := by
  simp (disch := decide) only [view, GateDescriptor.bits, BitVec.extractLsb'_append_eq_of_le,
    BitVec.extractLsb'_append_eq_of_add_le]
  simp

@[simp] theorem view_seg : view d.bits =
    ⟨d.type, d.segment_type == 1, d.privilege_level.toNat, d.present == 1⟩ := by
  simp (disch := decide) only [view, SegDesc.bits, BitVec.extractLsb'_append_eq_of_le,
    BitVec.extractLsb'_append_eq_of_add_le]
  simp

@[simp] theorem gateOffset_bits : gateOffset g.bits = g.offset_31_16 ++ g.offset_15_0 := by
  simp (disch := decide) only [gateOffset, GateDescriptor.bits,
    BitVec.extractLsb'_append_eq_of_le, BitVec.extractLsb'_append_eq_of_add_le]
  simp

@[simp] theorem gateSelector_bits : gateSelector g.bits = g.segment := by
  simp (disch := decide) only [gateSelector, GateDescriptor.bits,
    BitVec.extractLsb'_append_eq_of_le, BitVec.extractLsb'_append_eq_of_add_le]
  simp

theorem segBase_bits : segBase d.bits = d.base_31_24 ++ d.base_23_16 ++ d.base_15_0 := by
  simp (disch := decide) only [segBase, SegDesc.bits,
    BitVec.extractLsb'_append_eq_of_le, BitVec.extractLsb'_append_eq_of_add_le]
  simp

theorem segLimit_bits : segLimit d.bits =
    if d.granularity = 1 then 4096 * (d.limit_19_16 ++ d.limit_15_0).toNat + 4095
    else (d.limit_19_16 ++ d.limit_15_0).toNat := by
  simp (disch := decide) only [segLimit, SegDesc.bits,
    BitVec.extractLsb'_append_eq_of_le, BitVec.extractLsb'_append_eq_of_add_le]
  simp

theorem setWidth_and_mask {k : ℕ} (hk : k ≤ 32) (x : BitVec 32) :
    (x &&& BitVec.ofNat 32 (2 ^ k - 1)).setWidth k = x.extractLsb' 0 k := by
  have hmask : (BitVec.ofNat 32 (2 ^ k - 1)).toNat = 2 ^ k - 1 := by
    have hle : 2 ^ k ≤ 2 ^ 32 := Nat.pow_le_pow_right (by decide) hk
    rw [BitVec.toNat_ofNat, Nat.mod_eq_of_lt (by omega)]
  refine BitVec.eq_of_toNat_eq ?_
  rw [BitVec.toNat_setWidth, BitVec.toNat_and, hmask, Nat.and_two_pow_sub_one_eq_mod, Nat.mod_mod,
    BitVec.extractLsb'_toNat, Nat.shiftRight_zero]

theorem setWidth_ushiftRight (x : BitVec 32) (k len : ℕ) :
    (x >>> k).setWidth len = x.extractLsb' k len := by
  refine BitVec.eq_of_toNat_eq ?_
  rw [BitVec.toNat_setWidth, BitVec.toNat_ushiftRight, BitVec.extractLsb'_toNat]

/-- **The processor goes where it is sent.** -/
@[simp] theorem gateOffset_setGate :
    gateOffset (setGate type selector offset dpl).bits = offset := by
  have hlo : (offset &&& 0xFFFF).setWidth 16 = offset.extractLsb' 0 16 :=
    setWidth_and_mask (by decide) offset
  have hhi : ((offset >>> 16) &&& 0xFFFF).setWidth 16 = offset.extractLsb' 16 16 := by
    rw [← setWidth_ushiftRight]
    exact (setWidth_and_mask (by decide) _).trans (setWidth_ushiftRight _ 0 16).symm
  rw [gateOffset_bits, setGate, hlo, hhi,
    BitVec.extractLsb'_append_extractLsb'_eq_extractLsb' (by decide)]
  exact BitVec.extractLsb'_eq_self

end Views

/-! ## The vectors -/

/-- What a vector is for. -/
def handlerOf (n : ℕ) : Stub :=
  if n = 46 then .irq 14
  else if n = 33 then .irq 1
  else if n = 32 then .irq 0
  else if n = 0x80 then .vecsys
  else if n < 15 then .vec n
  else .irq_empty

/-- The devices that the kernel knows. -/
def IsIrq (n : ℕ) : Prop := n = 32 ∨ n = 33 ∨ n = 46

instance (n : ℕ) : Decidable (IsIrq n) := inferInstanceAs (Decidable (_ ∨ _))

/-- What the processor finds at `idt`. -/
def idtBits (addr : Stub → BitVec 32) (idt : ℤ → GateDescriptor) (n : ℕ) : BitVec 64 :=
  (initIdt addr idt n).bits

/-- What the processor finds at `gdt`. -/
def gdtBits (tss : BitVec 32) (gdt : ℕ → SegDesc) (i : ℕ) : BitVec 64 :=
  (initSegment tss gdt i).bits

/-- `sizeof(gdt) - 1` -/
def gdtLimit : ℕ := 47

section Vectors

variable {addr : Stub → BitVec 32} {idt : ℤ → GateDescriptor} {tss : BitVec 32} {gdt : ℕ → SegDesc}
  {n cpl : ℕ} {sel : BitVec 16}

/-- A loop that sets each entry to a value of its own. -/
theorem forRange_set {α : Type*} (g : ℤ → α) (t : ℤ → α) {lo hi : ℤ} (hle : lo ≤ hi) (j : ℤ) :
    forRange lo hi (fun i t => Function.update t i (g i)) t j =
      if lo ≤ j ∧ j < hi then g j else t j := by
  refine forRange_induction
    (P := fun i (t' : ℤ → α) => t' j = if lo ≤ j ∧ j < i then g j else t j) hle ?_ ?_
  · intro i t' hli hih hP
    rcases eq_or_ne j i with rfl | hne
    · rw [Function.update_self, if_pos ⟨hli, by omega⟩]
    · rw [Function.update_of_ne hne, hP]
      exact if_congr (by omega) rfl rfl
  · rw [if_neg (by omega)]

/-- **The table**, entry by entry. -/
theorem initIdt_apply (hn : n < 256) :
    initIdt addr idt n = setGate (if IsIrq n then INTERRUPT_GATE_32 else TRAP_GATE_32)
      SEG_KERNEL_CODE (addr (handlerOf n)) (if n = 0x80 then DPL_USER else DPL_KERNEL) := by
  have hall : (0 : ℤ) ≤ n ∧ (n : ℤ) < NR_IRQ := ⟨Int.natCast_nonneg n, by rw [NR_IRQ]; omega⟩
  rw [initIdt]
  simp only [Function.update_apply]
  rw [forRange_set (fun i => setTrap SEG_KERNEL_CODE (addr (.vec i.toNat)) DPL_KERNEL) _
    (by decide),
    forRange_set (fun _ => setTrap SEG_KERNEL_CODE (addr .irq_empty) DPL_KERNEL) _ (by decide),
    if_pos hall]
  by_cases h46 : n = 46
  · rw [h46]
    rfl
  by_cases h33 : n = 33
  · rw [h33]
    rfl
  by_cases h32 : n = 32
  · rw [h32]
    rfl
  by_cases h80 : n = 0x80
  · rw [h80]
    rfl
  have hirq : ¬IsIrq n := fun h => h.elim h32 fun h => h.elim h33 h46
  rw [if_neg (by omega), if_neg (by omega), if_neg (by omega), if_neg (by omega), if_neg hirq,
    if_neg h80, handlerOf, if_neg h46, if_neg h33, if_neg h32, if_neg h80]
  by_cases h15 : n < 15
  · rw [if_pos (by omega), if_pos h15, Int.toNat_natCast]
    rfl
  · rw [if_neg (by omega), if_neg h15]
    rfl

theorem view_idtBits (hn : n < 256) : view (idtBits addr idt n) =
    ⟨if IsIrq n then 0xE else 0xF, false, if n = 0x80 then 3 else 0, true⟩ := by
  rw [idtBits, initIdt_apply hn, view_gate, setGate]
  refine congrArg₂ (fun t d => DescriptorView.mk t false d true) rfl ?_
  show (BitVec.setWidth 2 (if n = 0x80 then DPL_USER else DPL_KERNEL)).toNat = _
  split <;> rfl

theorem gateSelector_idtBits (hn : n < 256) : gateSelector (idtBits addr idt n) = 8 := by
  rw [idtBits, initIdt_apply hn, gateSelector_bits]
  rfl

theorem gateOffset_idtBits (hn : n < 256) :
    gateOffset (idtBits addr idt n) = addr (handlerOf n) := by
  rw [idtBits, initIdt_apply hn, gateOffset_setGate]

/-- The segment of the kernel's code. -/
theorem select_kernelCode : select (gdtBits tss gdt) gdtLimit 8 = some (gdtBits tss gdt 1) := rfl

theorem view_kernelCode : view (gdtBits tss gdt 1) = ⟨0xA, true, 0, true⟩ := by
  rw [gdtBits, view_seg]
  rfl

/-- A gate that lets pass leads to its handler, with the kernel's privilege. -/
theorem deliver_eq {instr : Bool} (hn : n < 256) :
    deliver (idtBits addr idt) (gdtBits tss gdt) gdtLimit cpl instr n =
      if instr = true → cpl ≤ (if n = 0x80 then 3 else 0) then
        some ⟨addr (handlerOf n), 0, decide (IsIrq n)⟩
      else none := by
  have htype : (if IsIrq n then 0xE else 0xF : BitVec 4) = 0xE ∨
      (if IsIrq n then 0xE else 0xF : BitVec 4) = 0xF := by
    split
    · exact .inl rfl
    · exact .inr rfl
  have hcli : decide ((if IsIrq n then 0xE else 0xF : BitVec 4) = 0xE) = decide (IsIrq n) := by
    refine decide_eq_decide.mpr ⟨fun h => ?_, fun h => if_pos h⟩
    by_contra hno
    rw [if_neg hno] at h
    exact absurd h (by decide)
  have hcode : (0xA : BitVec 4).extractLsb' 2 2 = 2 := by decide
  rw [deliver]
  simp only [view_idtBits hn, gateSelector_idtBits hn, select_kernelCode, gateOffset_idtBits hn,
    Option.bind_some, view_kernelCode, hcode, hcli, Nat.zero_le, true_and, and_true, if_true]
  exact if_congr ⟨fun h => h.2, fun h => ⟨htype, h⟩⟩ rfl rfl

/-- **Where a vector leads to**, from either privilege. -/
theorem deliver_event (hn : n < 256) :
    deliver (idtBits addr idt) (gdtBits tss gdt) gdtLimit cpl false n =
      some ⟨addr (handlerOf n), 0, decide (IsIrq n)⟩ := by
  rw [deliver_eq hn]
  exact if_pos fun h => absurd h Bool.false_ne_true

/-- **Where an instruction of a program leads to.** -/
theorem deliver_int (hn : n < 256) :
    deliver (idtBits addr idt) (gdtBits tss gdt) gdtLimit 3 true n =
      if n = 0x80 then some ⟨addr .vecsys, 0, false⟩ else none := by
  rw [deliver_eq hn]
  by_cases h80 : n = 0x80
  · rw [h80]
    rfl
  · rw [if_neg h80, if_neg h80, if_neg fun h => absurd (h rfl) (by decide)]

/-- **The one way into the kernel**: whatever `int n` a program executes, `irq_handle` sees a system
call or a general protection fault, and never an interrupt. -/
theorem int_from_user (hn : n < 256) :
    ∃ stub : Stub, intInstr (idtBits addr idt) (gdtBits tss gdt) gdtLimit 3 n =
        some ⟨addr stub, 0, false⟩ ∧
      stub.number = if n = 0x80 then 0x80 else 13 := by
  by_cases h80 : n = 0x80
  · refine ⟨.vecsys, ?_, ?_⟩
    · rw [intInstr, deliver_int hn, if_pos h80]
      rfl
    · rw [if_pos h80]
      rfl
  · refine ⟨.vec 13, ?_, ?_⟩
    · rw [intInstr, deliver_int hn, if_neg h80, deliver_event (by decide)]
      rfl
    · rw [if_neg h80]
      rfl

/-- A program that plays the timer. -/
theorem int_from_user_timer :
    ∃ stub : Stub, intInstr (idtBits (fun _ => 0xC0101000) fun _ => setTrap 0 0 0)
        (gdtBits 0xC0110000 fun _ => setSegment 0 0) gdtLimit 3 32 =
        some ⟨0xC0101000, 0, false⟩ ∧
      stub.number = if 32 = 0x80 then 0x80 else 13 :=
  int_from_user (by decide)

/-! ### Segments -/

theorem gdtBits_user (tss : BitVec 32) (gdt : ℕ → SegDesc) {i : ℕ} (hi : i = 3 ∨ i = 4) :
    view (gdtBits tss gdt i) = ⟨if i = 3 then 0xA else 0x2, true, 3, true⟩ ∧
      segBase (gdtBits tss gdt i) = 0 ∧ segLimit (gdtBits tss gdt i) = 2 ^ 32 - 1 := by
  have hentry : initSegment tss gdt i =
      setSegment DPL_USER (if i = 3 then SEG_EXECUTABLE ||| SEG_READABLE else SEG_WRITABLE) := by
    rcases hi with rfl | rfl <;> rfl
  rw [gdtBits, hentry, view_seg, segBase_bits, segLimit_bits]
  refine ⟨?_, (by decide : (0 : BitVec 8) ++ (0 : BitVec 8) ++ (0 : BitVec 16) = 0),
    (by decide : 4096 * ((0xF : BitVec 4) ++ (0xFFFF : BitVec 16)).toNat + 4095 = 2 ^ 32 - 1)⟩
  rcases hi with rfl | rfl <;> rfl

/-- The other entries are the null descriptor, the kernel's segments and the TSS. -/
theorem gdtBits_cases {i : ℕ} (hi : i < 6) (hseg : (view (gdtBits tss gdt i)).isSegment = true)
    (hdpl : 3 ≤ (view (gdtBits tss gdt i)).dpl) : i = 3 ∨ i = 4 := by
  rw [gdtBits, view_seg] at hseg hdpl
  interval_cases i
  · exact absurd hseg (by decide : ¬((0 : BitVec 1) == 1) = true)
  · exact absurd hdpl (by decide : ¬3 ≤ (0 : BitVec 2).toNat)
  · exact absurd hdpl (by decide : ¬3 ≤ (0 : BitVec 2).toNat)
  · exact .inl rfl
  · exact .inr rfl
  · exact absurd hseg (by decide : ¬((0 : BitVec 1) == 1) = true)

theorem loads_iff (hnull : sel.toNat / 4 ≠ 0) : Loads (gdtBits tss gdt) gdtLimit 3 sel ↔
    sel.extractLsb' 2 1 = 0 ∧ (sel.toNat / 8 = 3 ∨ sel.toNat / 8 = 4) := by
  rw [Loads, or_iff_right hnull]
  constructor
  · rintro ⟨d, hd, hseg, -, hdpl, -⟩
    rw [select] at hd
    obtain ⟨⟨hti, hlimit⟩, hd⟩ := Option.ite_none_right_eq_some.mp hd
    obtain rfl := Option.some.inj hd
    rw [gdtLimit] at hlimit
    exact ⟨hti, gdtBits_cases (by omega) hseg (le_trans (Nat.le_max_left ..) hdpl)⟩
  · rintro ⟨hti, hi⟩
    obtain ⟨hview, -⟩ := gdtBits_user tss gdt hi
    have hlimit : 8 * (sel.toNat / 8) + 7 ≤ gdtLimit := by
      rw [gdtLimit]
      omega
    refine ⟨_, if_pos ⟨hti, hlimit⟩, ?_⟩
    rw [hview]
    refine ⟨rfl, ?_, ?_, rfl⟩
    · rcases hi with hi | hi <;> rw [hi] <;> decide
    · show max 3 (sel.toNat % 4) ≤ 3
      omega

/-- **What a program can load** is the null selector, and what selects a segment that is the whole
of memory and has no privileges. -/
theorem user_segments : Loads (gdtBits tss gdt) gdtLimit 3 sel ↔
    sel.toNat / 4 = 0 ∨ ∃ d, select (gdtBits tss gdt) gdtLimit sel = some d ∧
      (view d).isSegment = true ∧ (view d).dpl = 3 ∧ segBase d = 0 ∧ segLimit d = 2 ^ 32 - 1 := by
  by_cases hnull : sel.toNat / 4 = 0
  · exact iff_of_true (.inl hnull) (.inl hnull)
  rw [loads_iff hnull, or_iff_right hnull]
  constructor
  · rintro ⟨hti, hi⟩
    obtain ⟨hview, hbase, hlimit⟩ := gdtBits_user tss gdt hi
    have hin : 8 * (sel.toNat / 8) + 7 ≤ gdtLimit := by
      rw [gdtLimit]
      omega
    refine ⟨_, if_pos ⟨hti, hin⟩, ?_, ?_, hbase, hlimit⟩ <;> rw [hview]
  · rintro ⟨d, hd, hseg, hdpl, -, -⟩
    rw [select] at hd
    obtain ⟨⟨hti, hlimit⟩, hd⟩ := Option.ite_none_right_eq_some.mp hd
    obtain rfl := Option.some.inj hd
    rw [gdtLimit] at hlimit
    exact ⟨hti, gdtBits_cases (by omega) hseg hdpl.ge⟩

end Vectors

end OsLab
