import OsLab.Lib.CInt
import OsLab.Lib.Stack

/-!
# Into the kernel and back

A trap puts the registers of the program on the kernel's stack: the processor the first of them, on
the stack that the TSS names if the program is in user mode, the stub of the vector the number of
the trap, and `asm_do_irq` the rest. `irq_handle` gets the address and takes it for a pointer to a
`struct TrapFrame`. In the end `asm_do_irq` loads `%esp` from `current->tf` and pops it all again.

A trap that comes in the kernel leaves no `esp` and no `ss` behind, and `iret` takes none: there the
last two fields are whatever is on the stack. `fs`, `gs` and the floating-point registers are in no
frame. A program finds in them what the last one has left.

## Main definitions

* `Cpu` — what a program has in the processor
* `TrapField` — the fields of `struct TrapFrame`
* `Cpu.trap` — from the trap to the call of `irq_handle`
* `resume` — from the load of `%esp` from `tf` to the end of `asm_do_irq`

## Main results

* `resume_trap` — what comes back is what was there, in either mode
* `frameAt_trap` — `irq_handle` finds each register in the field of its name
* `Cpu.trap_outside` — nothing but the frame is written
-/

namespace OsLab

/-- What a program has in the processor. -/
structure Cpu where
  eax : UInt32
  ecx : UInt32
  edx : UInt32
  ebx : UInt32
  esp : UInt32
  ebp : UInt32
  esi : UInt32
  edi : UInt32
  eip : UInt32
  eflags : UInt32
  cs : UInt16
  ss : UInt16
  ds : UInt16
  es : UInt16

/-- The privilege is in the low bits of `%cs`. -/
def Cpu.User (c : Cpu) : Prop := c.cs &&& 3 ≠ 0

instance (c : Cpu) : Decidable c.User := inferInstanceAs (Decidable (_ ≠ _))

/-! ## Frames -/

/-- The fields of `struct TrapFrame`. -/
inductive TrapField
  | edi | esi | ebp | xxx | ebx | edx | ecx | eax
  | es | ds
  | irq
  | error_code
  | eip | cs | eflags
  | esp | ss
  deriving DecidableEq

/-- The words of a frame in the order of the fields. -/
def trapFields : List TrapField :=
  [.edi, .esi, .ebp, .xxx, .ebx, .edx, .ecx, .eax, .es, .ds, .irq, .error_code, .eip, .cs, .eflags,
    .esp, .ss]

/-- The place of a field, in words from `%esp` on. -/
def TrapField.index (f : TrapField) : ℕ := trapFields.idxOf f

/-- `sizeof(struct TrapFrame)` -/
def sizeofTrapFrame : ℕ := 68

/-- `struct TrapFrame` -/
abbrev TrapFrame := TrapField → UInt32

/-- `*tf` -/
def frameAt (m : LinearMemory) (tf : UInt32) : TrapFrame := fun f => m.word tf f.index

/-- `tf->f = v` -/
def setField (m : LinearMemory) (tf : UInt32) (f : TrapField) (v : UInt32) : LinearMemory :=
  m.setWord tf f.index v

section Fields

variable {m m' : LinearMemory} {tf a v : UInt32} {f g : TrapField}

theorem TrapField.index_lt (f : TrapField) : f.index < 17 :=
  List.idxOf_lt_length_iff.mpr (by cases f <;> decide)

theorem TrapField.index_inj : f.index = g.index ↔ f = g :=
  ⟨fun h => (List.idxOf_inj (by cases f <;> decide)).mp h, fun h => h ▸ rfl⟩

/-- **An assignment to a field** changes this field. -/
@[simp] theorem frameAt_setField :
    frameAt (setField m tf f v) tf = Function.update (frameAt m tf) f v := by
  funext g
  rw [Function.update_apply, frameAt, setField,
    LinearMemory.word_setWord (by decide) f.index_lt g.index_lt]
  exact if_congr TrapField.index_inj rfl rfl

theorem setField_outside (h : sizeofTrapFrame ≤ (a - tf).toNat) : setField m tf f v a = m a :=
  LinearMemory.setWord_outside (by decide) f.index_lt h

theorem frameAt_congr (h : ∀ a, (a - tf).toNat < sizeofTrapFrame → m a = m' a) :
    frameAt m tf = frameAt m' tf :=
  funext fun f => LinearMemory.word_congr (by decide) f.index_lt h

end Fields

/-! ## The instructions -/

/-- From the trap to the call of `irq_handle`. The error code of an exception that has one is pushed
by the processor, and otherwise the stub pushes 0. -/
def Cpu.trap (c : Cpu) (esp0 irq error_code : UInt32) (m : LinearMemory) : StackState :=
  -- the processor
  let s : StackState :=
    if c.User then StackState.pushAll ⟨m, esp0⟩ [c.ss.toUInt32, c.esp] else ⟨m, c.esp⟩
  let s := s.pushAll [c.eflags, c.cs.toUInt32, c.eip]
  -- `vec0`, …, `irq_empty`
  let s := s.pushAll [error_code, irq]
  -- `pushl %ds; pushl %es`
  let s := s.pushAll [c.ds.toUInt32, c.es.toUInt32]
  -- `pushal`
  s.pushAll [c.eax, c.ecx, c.edx, c.ebx, s.esp, c.ebp, c.esi, c.edi]

/-- What `popal`, `popl %es`, `popl %ds`, `addl $8, %esp` and `iret` take from a frame at `tf` that
has been pushed in the kernel's mode, where the stack segment is `kss`. -/
def TrapFrame.popped (f : TrapFrame) (kss : UInt16) (tf : UInt32) : Cpu where
  edi := f .edi
  esi := f .esi
  ebp := f .ebp
  ebx := f .ebx
  edx := f .edx
  ecx := f .ecx
  eax := f .eax
  es := (f .es).toUInt16
  ds := (f .ds).toUInt16
  eip := f .eip
  cs := (f .cs).toUInt16
  eflags := f .eflags
  esp := tf + 60
  ss := kss

/-- `iret` pops the other stack pointer if it goes to another privilege. -/
def TrapFrame.cpu (f : TrapFrame) (kss : UInt16) (tf : UInt32) : Cpu :=
  let c := f.popped kss tf
  if c.User then { c with esp := f .esp, ss := (f .ss).toUInt16 } else c

/-- From the load of `%esp` from `tf` to the end of `asm_do_irq`. -/
def resume (kss : UInt16) (m : LinearMemory) (tf : UInt32) : Cpu := (frameAt m tf).cpu kss tf

/-! ## There and back -/

/-- The frame of a program. -/
def Cpu.frame (c : Cpu) (irq error_code xxx : UInt32) : TrapFrame
  | .edi => c.edi
  | .esi => c.esi
  | .ebp => c.ebp
  | .xxx => xxx
  | .ebx => c.ebx
  | .edx => c.edx
  | .ecx => c.ecx
  | .eax => c.eax
  | .es => c.es.toUInt32
  | .ds => c.ds.toUInt32
  | .irq => irq
  | .error_code => error_code
  | .eip => c.eip
  | .cs => c.cs.toUInt32
  | .eflags => c.eflags
  | .esp => c.esp
  | .ss => c.ss.toUInt32

/-- How much of its frame a program leaves behind. -/
def Cpu.frameSize (c : Cpu) : ℕ := if c.User then sizeofTrapFrame else 60

/-- The end of the frame, where pushing starts. -/
def Cpu.frameEnd (c : Cpu) (esp0 : UInt32) : UInt32 := if c.User then esp0 else c.esp

/-- The words that are pushed. -/
def Cpu.pushed (c : Cpu) (irq error_code xxx : UInt32) : List UInt32 :=
  (if c.User then [c.ss.toUInt32, c.esp] else []) ++
    [c.eflags, c.cs.toUInt32, c.eip, error_code, irq, c.ds.toUInt32, c.es.toUInt32, c.eax, c.ecx,
      c.edx, c.ebx, xxx, c.ebp, c.esi, c.edi]

section Trap

variable {c : Cpu} {esp0 irq error_code a : UInt32} {kss : UInt16} {m : LinearMemory}

theorem Cpu.trap_eq_pushAll (c : Cpu) (esp0 irq error_code : UInt32) (m : LinearMemory) :
    ∃ xxx, c.trap esp0 irq error_code m =
      StackState.pushAll ⟨m, c.frameEnd esp0⟩ (c.pushed irq error_code xxx) := by
  by_cases hu : c.User
  · simp only [trap, frameEnd, pushed, if_pos hu, ← StackState.pushAll_append]
    exact ⟨_, rfl⟩
  · simp only [trap, frameEnd, pushed, if_neg hu, ← StackState.pushAll_append]
    exact ⟨_, rfl⟩

@[simp] theorem Cpu.length_pushed (c : Cpu) (irq error_code xxx : UInt32) :
    4 * (c.pushed irq error_code xxx).length = c.frameSize := by
  rw [pushed, frameSize]
  split <;> rfl

theorem Cpu.frameSize_le (c : Cpu) : c.frameSize ≤ sizeofTrapFrame := by
  rw [frameSize]
  split
  · exact Nat.le_refl _
  · decide

@[simp] theorem Cpu.trap_esp :
    (c.trap esp0 irq error_code m).esp = c.frameEnd esp0 - UInt32.ofNat c.frameSize := by
  obtain ⟨xxx, heq⟩ := c.trap_eq_pushAll esp0 irq error_code m
  rw [heq, StackState.pushAll_esp, ← c.length_pushed irq error_code xxx, UInt32.ofNat_mul]
  rfl

/-- **Nothing but the frame is written.** -/
theorem Cpu.trap_outside
    (h : c.frameSize ≤ (a - (c.trap esp0 irq error_code m).esp).toNat) :
    (c.trap esp0 irq error_code m).mem a = m a := by
  obtain ⟨xxx, heq⟩ := c.trap_eq_pushAll esp0 irq error_code m
  rw [heq] at h ⊢
  exact StackState.pushAll_outside ((c.length_pushed ..).trans_le h)

/-- **Each register is in the field of its name.** -/
theorem frameAt_trap (c : Cpu) (esp0 irq error_code : UInt32) (m : LinearMemory) :
    ∃ xxx, ∀ f : TrapField, 4 * f.index < c.frameSize →
    frameAt (c.trap esp0 irq error_code m).mem (c.trap esp0 irq error_code m).esp f =
      c.frame irq error_code xxx f := by
  obtain ⟨xxx, heq⟩ := c.trap_eq_pushAll esp0 irq error_code m
  refine ⟨xxx, fun f hf => ?_⟩
  have hlen := c.length_pushed irq error_code xxx
  have hle : c.frameSize ≤ 68 := c.frameSize_le
  rw [heq, frameAt, StackState.pushAll_word (by omega) (by omega)]
  rw [Cpu.frameSize] at hf
  rw [Cpu.pushed]
  split
  · cases f <;> rfl
  · next hu =>
    rw [if_neg hu] at hf
    cases f with
    | esp | ss => exact absurd hf (by decide)
    | _ => rfl

/-- The fields that are there in either mode, and `esp` and `ss`, that are there in user mode. -/
theorem TrapField.lt_frameSize {f : TrapField} :
    4 * f.index < c.frameSize ↔ f ≠ .esp ∧ f ≠ .ss ∨ c.User := by
  rw [Cpu.frameSize]
  split
  · next hu =>
    have hlt := f.index_lt
    exact ⟨fun _ => .inr hu, fun _ => show 4 * f.index < 68 by omega⟩
  · next hu =>
    rw [or_iff_left hu]
    cases f <;> decide

theorem TrapFrame.user_cpu {f : TrapFrame} {tf : UInt32} :
    (f.cpu kss tf).User ↔ (f.popped kss tf).User := by
  rw [cpu]
  split <;> rfl

/-- What is taken from a frame is taken from the fields that are there. -/
theorem TrapFrame.cpu_congr {f g : TrapFrame} {tf : UInt32}
    (h : ∀ x : TrapField, 4 * x.index < (g.cpu kss tf).frameSize → f x = g x) :
    f.cpu kss tf = g.cpu kss tf := by
  by_cases hu : (g.cpu kss tf).User
  · have hfg : f = g := funext fun x => h x (TrapField.lt_frameSize.mpr (.inr hu))
    rw [hfg]
  · have hlow (x : TrapField) (hx : x ≠ .esp ∧ x ≠ .ss) : f x = g x :=
      h x (TrapField.lt_frameSize.mpr (.inl hx))
    have hpopped : f.popped kss tf = g.popped kss tf := by
      rw [popped, popped, hlow .edi (by decide), hlow .esi (by decide), hlow .ebp (by decide),
        hlow .ebx (by decide), hlow .edx (by decide), hlow .ecx (by decide),
        hlow .eax (by decide), hlow .es (by decide), hlow .ds (by decide), hlow .eip (by decide),
        hlow .cs (by decide), hlow .eflags (by decide)]
    rw [user_cpu] at hu
    rw [cpu, cpu, hpopped, if_neg hu, if_neg hu]

theorem TrapFrame.cpu_frame {xxx tf : UInt32} (h : c.User ∨ c.ss = kss ∧ c.esp = tf + 60) :
    (c.frame irq error_code xxx).cpu kss tf = c := by
  have hu : ((c.frame irq error_code xxx).popped kss tf).User ↔ c.User := by
    have hcs : ((c.frame irq error_code xxx).popped kss tf).cs = c.cs :=
      UInt16.toUInt16_toUInt32 c.cs
    rw [Cpu.User, hcs, Cpu.User]
  by_cases huser : c.User
  · rw [cpu, if_pos (hu.mpr huser)]
    simp [popped, Cpu.frame]
  · obtain ⟨hss, hesp⟩ := h.resolve_left huser
    rw [cpu, if_neg (mt hu.mp huser)]
    simp [popped, Cpu.frame, ← hss, ← hesp]

/-- **What comes back is what was there.** -/
theorem resume_trap (h : c.User ∨ c.ss = kss) :
    resume kss (c.trap esp0 irq error_code m).mem (c.trap esp0 irq error_code m).esp = c := by
  obtain ⟨xxx, hframe⟩ := frameAt_trap c esp0 irq error_code m
  have hcpu : (c.frame irq error_code xxx).cpu kss (c.trap esp0 irq error_code m).esp = c := by
    refine TrapFrame.cpu_frame ?_
    by_cases hu : c.User
    · exact .inl hu
    · refine .inr ⟨h.resolve_left hu, ?_⟩
      rw [Cpu.trap_esp, Cpu.frameEnd, Cpu.frameSize, if_neg hu, if_neg hu]
      exact (sub_add_cancel c.esp 60).symm
  refine (TrapFrame.cpu_congr fun x hx => ?_).trans hcpu
  rw [hcpu] at hx
  exact hframe x hx

/-- What is resumed is told by the bytes of the frame. -/
theorem resume_congr {m' : LinearMemory} {tf : UInt32}
    (h : ∀ a, (a - tf).toNat < (resume kss m tf).frameSize → m' a = m a) :
    resume kss m' tf = resume kss m tf := by
  refine TrapFrame.cpu_congr fun x hx => ?_
  obtain ⟨n, hn, hle⟩ : ∃ n, (resume kss m tf).frameSize = 4 * n ∧ 4 * n ≤ 2 ^ 32 := by
    rw [Cpu.frameSize]
    split
    · exact ⟨17, rfl, by decide⟩
    · exact ⟨15, rfl, by decide⟩
  change 4 * x.index < (resume kss m tf).frameSize at hx
  exact LinearMemory.word_congr hle (by omega) fun a ha => h a (by omega)

/-- A frame that goes back to user mode may be anywhere. -/
theorem TrapFrame.cpu_of_user {f : TrapFrame} {tf tf' : UInt32} (h : (f.cpu kss tf).User) :
    f.cpu kss tf' = f.cpu kss tf := by
  rw [user_cpu] at h
  have h' : (f.popped kss tf').User := h
  rw [cpu, cpu, if_pos h, if_pos h']
  rfl

theorem TrapFrame.cpu_fields (kss : UInt16) (f : TrapFrame) (tf : UInt32) :
    (f.cpu kss tf).eax = f .eax ∧ (f.cpu kss tf).ebx = f .ebx ∧
      (f.cpu kss tf).cs = (f .cs).toUInt16 ∧ (f.cpu kss tf).ds = (f .ds).toUInt16 ∧
      (f.cpu kss tf).es = (f .es).toUInt16 := by
  rw [cpu]
  split <;> exact ⟨rfl, rfl, rfl, rfl, rfl⟩

theorem TrapFrame.cpu_ss {f : TrapFrame} {tf : UInt32} (h : (f.cpu kss tf).User) :
    (f.cpu kss tf).ss = (f .ss).toUInt16 := by
  rw [user_cpu] at h
  rw [cpu, if_pos h]

/-- A result for the program. -/
theorem TrapFrame.cpu_eax {f : TrapFrame} {tf v : UInt32} :
    TrapFrame.cpu (Function.update f .eax v) kss tf = { f.cpu kss tf with eax := v } := by
  have hpopped : TrapFrame.popped (Function.update f .eax v) kss tf =
      { f.popped kss tf with eax := v } := rfl
  have hu : (TrapFrame.popped (Function.update f .eax v) kss tf).User ↔ (f.popped kss tf).User :=
    Iff.rfl
  rw [cpu, cpu]
  by_cases h : (f.popped kss tf).User
  · rw [if_pos h, if_pos (hu.mpr h)]
    rfl
  · rw [if_neg h, if_neg (mt hu.mp h), hpopped]

end Trap

end OsLab
