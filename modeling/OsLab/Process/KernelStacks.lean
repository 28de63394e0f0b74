import OsLab.Memory.Memmove
import OsLab.Process.Pcb
import OsLab.Process.TrapFrame

/-!
# The kernel stacks

Each PCB has a kernel stack of a page inside it, and the idle process is on the stack on which the
kernel has started. On each stack is at most one frame, at the end: a process in user mode starts
with an empty stack whenever it enters the kernel, and the idle process always sleeps at the same
place. `StackLayout` says where the stacks are, and `Frames` what is resumed from them.

## Main definitions

* `StackLayout` — where the stacks are
* `Scribbled` — memory before and after some of the kernel's code has run on the stack of the
  process in slot `i`, below a frame at `tf`
* `startFrame` — `loader` and `create_thread` set these fields of a new frame at `tf`
* `Frames` — what is resumed from the frames of the processes in the slots `U`

## Main results

* `StackLayout.inStack_inj` — the stacks do not overlap
* `Frames.mono` — what the kernel writes below a frame, or outside the stacks, changes none
* `Frames.setEax`, `Frames.copy`, `Frames.start` — a result, the frame of a child, and the frame of
  a new program
-/

namespace OsLab

/-- The bytes of a kernel stack. -/
def KSTACK_SIZE : ℕ := 4096

/-- `sizeof(struct PCB)`: `tf`, the stack, the descriptors and eight words. -/
def sizeofPCB : ℕ := 4 + KSTACK_SIZE + 4 * 32 + 32

/-- `SELECTOR_KERNEL(SEG_KERNEL_DATA)`, which is also what the boot sector loads into `%ss`. -/
def KERNEL_DATA : UInt16 := 0x10

/-- Where the stacks are. -/
structure StackLayout where
  pcb_table : UInt32
  /-- The stack of the idle process, below its `%esp`. -/
  boot : UInt32
  bootSize : ℕ
  fits : pcb_table.toNat + 100 * sizeofPCB ≤ 2 ^ 32
  room : 60 ≤ bootSize ∧ bootSize < 2 ^ 32
  apart : ∀ a, (a - boot).toNat < bootSize → 100 * sizeofPCB ≤ (a - pcb_table).toNat

namespace StackLayout

variable (L : StackLayout)

/-- `pcb_table[i].kstack` -/
def kstack (i : ℤ) : UInt32 := L.pcb_table + UInt32.ofNat (sizeofPCB * i.toNat + 4)

/-- Where the stack of the process in slot `i` begins. -/
def bottom (i : ℤ) : UInt32 := if i = 0 then L.boot else L.kstack i

/-- The bytes of a slot's stack. The idle process has that of the boot. -/
def size (i : ℤ) : ℕ := if i = 0 then L.bootSize else KSTACK_SIZE

/-- How long the frame of the process in slot `i` is. -/
def frameSize (i : ℤ) : ℕ := if i = 0 then 60 else sizeofTrapFrame

/-- Where it ends, which is also the end of the stack. -/
def top (i : ℤ) : UInt32 := L.bottom i + UInt32.ofNat (L.size i)

/-- Where the frame of a slot begins that lies at the top of its stack. -/
def frame (i : ℤ) : UInt32 := L.top i - UInt32.ofNat (frameSize i)

/-- The address is on the stack of the slot. -/
def InStack (i : ℤ) (a : UInt32) : Prop := (a - L.bottom i).toNat < L.size i

/-- What a process is when it is in its own code: the idle process in the kernel, with its stack as
it always is, and the others in user mode. -/
def CpuOk (i : ℤ) (c : Cpu) : Prop :=
  if i = 0 then ¬c.User ∧ c.esp = L.top 0 ∧ c.ss = KERNEL_DATA else c.User

end StackLayout

/-! ## Where things are -/

section Layout

variable {L : StackLayout} {i j : ℤ} {a : UInt32} {c : Cpu}

theorem StackLayout.frameSize_le (L : StackLayout) (i : ℤ) : frameSize i ≤ L.size i := by
  rw [frameSize, size]
  split
  · exact L.room.1
  · decide

theorem StackLayout.size_lt (L : StackLayout) (i : ℤ) : L.size i < 2 ^ 32 := by
  rw [size]
  split
  · exact L.room.2
  · decide

theorem StackLayout.CpuOk.frameSize (h : L.CpuOk i c) : c.frameSize = StackLayout.frameSize i := by
  rw [CpuOk] at h
  rw [Cpu.frameSize, StackLayout.frameSize]
  split at h
  · next hi => rw [if_neg h.1, if_pos hi]
  · next hi => rw [if_pos h, if_neg hi]

theorem StackLayout.frame_eq (L : StackLayout) (i : ℤ) :
    L.frame i = L.bottom i + UInt32.ofNat (L.size i - frameSize i) := by
  rw [frame, top, add_sub_assoc, UInt32.ofNat_sub (L.frameSize_le i)]

/-- **A frame is at the end of its stack.** -/
theorem StackLayout.inFrame (h : (a - L.frame i).toNat < frameSize i) :
    L.InStack i a ∧ (L.frame i - L.bottom i).toNat ≤ (a - L.bottom i).toNat := by
  have hle := L.frameSize_le i
  have hlt := L.size_lt i
  have hoff : (L.frame i - L.bottom i).toNat = L.size i - frameSize i := by
    rw [frame_eq, add_sub_cancel_left]
    exact UInt32.toNat_ofNat_of_lt (show L.size i - frameSize i < 2 ^ 32 by omega)
  have ha : (a - L.bottom i).toNat = (a - L.frame i).toNat + (L.size i - frameSize i) := by
    rw [← sub_add_sub_cancel a (L.frame i), UInt32.toNat_add, hoff]
    omega
  rw [InStack]
  omega

/-- In the table, an address tells whose stack it is on. -/
theorem StackLayout.kstack_offset (hi : 0 ≤ i) (hlt : i < MAX_PCB)
    (h : (a - L.kstack i).toNat < KSTACK_SIZE) :
    (a - L.pcb_table).toNat = sizeofPCB * i.toNat + 4 + (a - L.kstack i).toNat := by
  simp only [KSTACK_SIZE, MAX_PCB] at h hlt
  have hoff : (UInt32.ofNat (sizeofPCB * i.toNat + 4)).toNat = sizeofPCB * i.toNat + 4 :=
    UInt32.toNat_ofNat_of_lt (show 4260 * i.toNat + 4 < 2 ^ 32 by omega)
  have hsplit : a - L.pcb_table = UInt32.ofNat (sizeofPCB * i.toNat + 4) + (a - L.kstack i) := by
    rw [kstack, ← sub_sub, add_sub_cancel]
  rw [hsplit, UInt32.toNat_add, hoff]
  have hsize : sizeofPCB = 4260 := rfl
  rw [hsize]
  omega

/-- **The stacks do not overlap.** -/
theorem StackLayout.inStack_inj (hi : 0 ≤ i) (hilt : i < MAX_PCB) (hj : 0 ≤ j) (hjlt : j < MAX_PCB)
    (h : L.InStack i a) (h' : L.InStack j a) : i = j := by
  have hsize : sizeofPCB = 4260 := rfl
  have hboot (k : ℤ) (hk : 0 ≤ k) (hklt : k < MAX_PCB) (h0 : (a - L.boot).toNat < L.bootSize)
      (hkstack : (a - L.kstack k).toNat < KSTACK_SIZE) : False := by
    have happart := L.apart a h0
    have hoff := kstack_offset hk hklt hkstack
    simp only [KSTACK_SIZE, MAX_PCB] at hkstack hklt
    rw [hsize] at happart hoff
    omega
  rw [InStack, bottom, size] at h h'
  split at h
  · next hi0 =>
    split at h'
    · next hj0 => exact hi0.trans hj0.symm
    · exact (hboot j hj hjlt h h').elim
  · split at h'
    · exact (hboot i hi hilt h' h).elim
    · have hoffi := kstack_offset hi hilt h
      have hoffj := kstack_offset hj hjlt h'
      simp only [KSTACK_SIZE] at h h'
      rw [hsize] at hoffi hoffj
      omega

theorem StackLayout.kstack_fits (L : StackLayout) (hi : 0 ≤ i) (hlt : i < MAX_PCB) :
    (L.kstack i).toNat + KSTACK_SIZE ≤ 2 ^ 32 := by
  have hfits := L.fits
  have hsize : sizeofPCB = 4260 := rfl
  simp only [MAX_PCB] at hlt
  have hoff : (UInt32.ofNat (sizeofPCB * i.toNat + 4)).toNat = sizeofPCB * i.toNat + 4 :=
    UInt32.toNat_ofNat_of_lt (show 4260 * i.toNat + 4 < 2 ^ 32 by omega)
  rw [kstack, UInt32.toNat_add, hoff]
  rw [hsize] at hfits ⊢
  have hmod := Nat.mod_le (L.pcb_table.toNat + (4260 * i.toNat + 4)) (2 ^ 32)
  simp only [KSTACK_SIZE]
  omega

end Layout

/-! ## What the kernel writes -/

/-- Memory before and after some of the kernel's code has run on the stack of the process in slot
`i`, below a frame at `tf`. -/
def Scribbled (L : StackLayout) (i : ℤ) (tf : UInt32) (m m' : LinearMemory) : Prop :=
  ∀ j, 0 ≤ j → j < MAX_PCB → ∀ a, L.InStack j a →
    (j = i → (tf - L.bottom i).toNat ≤ (a - L.bottom i).toNat) → m' a = m a

/-- `(struct TrapFrame *)(pcb_table[i].kstack + 4096 - sizeof(struct TrapFrame))` -/
def StackLayout.newFrame (L : StackLayout) (i : ℤ) : UInt32 :=
  L.kstack i + 4096 - UInt32.ofNat sizeofTrapFrame

/-- `loader` and `create_thread` set these fields of a new frame at `tf`. The selectors are taken
from `src`. -/
def startFrame (m : LinearMemory) (tf eip : UInt32) (src : LinearMemory → TrapFrame) :
    LinearMemory :=
  let m := setField m tf .ss (src m .ss)
  let m := setField m tf .esp (0xC0000000 - 4)
  let m := setField m tf .eflags 0x202
  let m := setField m tf .cs (src m .cs)
  let m := setField m tf .eip eip
  let m := setField m tf .ds (src m .ds)
  setField m tf .es (src m .es)

/-- How a program starts, with what was in the other registers. -/
def Cpu.start (c : Cpu) (eip : UInt32) (cs ss ds es : UInt16) : Cpu :=
  { c with
    ss := ss
    esp := 0xC0000000 - 4
    eflags := 0x202
    cs := cs
    eip := eip
    ds := ds
    es := es }

section Start

variable {m : LinearMemory} {tf eip : UInt32} {kss : UInt16} {src : LinearMemory → TrapFrame}

theorem frameAt_startFrame (hsrc : ∀ m f v, src (setField m tf f v) = src m) :
    frameAt (startFrame m tf eip src) tf = fun
      | .ss => src m .ss
      | .esp => 0xC0000000 - 4
      | .eflags => 0x202
      | .cs => src m .cs
      | .eip => eip
      | .ds => src m .ds
      | .es => src m .es
      | f => frameAt m tf f := by
  simp only [startFrame, hsrc, frameAt_setField]
  funext f
  cases f <;> rfl

theorem cpu_startFrame (hsrc : ∀ m f v, src (setField m tf f v) = src m)
    (hcs : (src m .cs).toUInt16 &&& 3 ≠ 0) :
    resume kss (startFrame m tf eip src) tf =
      ((frameAt m tf).popped kss tf).start eip (src m .cs).toUInt16 (src m .ss).toUInt16
        (src m .ds).toUInt16 (src m .es).toUInt16 := by
  rw [resume, frameAt_startFrame hsrc, TrapFrame.cpu]
  exact if_pos hcs

theorem startFrame_outside {a : UInt32} (h : sizeofTrapFrame ≤ (a - tf).toNat) :
    startFrame m tf eip src a = m a := by
  simp only [startFrame, setField_outside h]

end Start

/-! ## Frames -/

/-- What is resumed from the frames of the processes in the slots `U`. -/
def Frames (L : StackLayout) (U : ℤ → Prop) (ctx : ℤ → Cpu) (tf : ℤ → UInt32) (m : LinearMemory) :
    Prop :=
  ∀ i, 0 ≤ i → i < MAX_PCB → U i →
    tf i = L.frame i ∧ L.CpuOk i (ctx i) ∧ resume KERNEL_DATA m (tf i) = ctx i

section Frames

variable {L : StackLayout} {U V : ℤ → Prop} {ctx : ℤ → Cpu} {tf : ℤ → UInt32}
  {m m' : LinearMemory} {i j : ℤ} {a v eip : UInt32}

/-- **What is written elsewhere** changes no frame. -/
theorem Frames.mono (h : Frames L U ctx tf m) (hsub : ∀ i, 0 ≤ i → i < MAX_PCB → V i → U i)
    (hm : ∀ i, 0 ≤ i → i < MAX_PCB → V i → ∀ a, (a - L.frame i).toNat < StackLayout.frameSize i →
      m' a = m a) : Frames L V ctx tf m' := by
  intro i hi hlt hV
  obtain ⟨htf, hok, hresume⟩ := h i hi hlt (hsub i hi hlt hV)
  refine ⟨htf, hok, (resume_congr fun a ha => hm i hi hlt hV a ?_).trans hresume⟩
  rwa [hresume, hok.frameSize, htf] at ha

theorem Frames.scribble (h : Frames L U ctx tf m) (hs : Scribbled L i (L.frame i) m m') :
    Frames L U ctx tf m' := by
  refine h.mono (fun _ _ _ hU => hU) fun j hj hlt _ a ha => ?_
  obtain ⟨hin, hle⟩ := StackLayout.inFrame ha
  refine hs j hj hlt a hin fun hji => ?_
  rwa [hji] at hle

theorem StackLayout.newFrame_eq (hi : i ≠ 0) : L.newFrame i = L.frame i := by
  rw [newFrame, frame, top, bottom, size, frameSize, if_neg hi, if_neg hi, if_neg hi]
  rfl

/-- What is outside one stack, is outside the frame that is on it. -/
theorem StackLayout.outside_frame (hi : 0 ≤ i) (hilt : i < MAX_PCB) (hj : 0 ≤ j)
    (hjlt : j < MAX_PCB) (hne : j ≠ i) (ha : (a - L.frame j).toNat < frameSize j) :
    frameSize i ≤ (a - L.frame i).toNat := by
  refine Nat.le_of_not_lt fun hlt => hne ?_
  exact L.inStack_inj hj hjlt hi hilt (L.inFrame ha).1 (L.inFrame hlt).1

theorem StackLayout.frameSize_of_ne (hi : i ≠ 0) : frameSize i = sizeofTrapFrame := if_neg hi

/-- **A result.** -/
theorem Frames.setEax (h : Frames L U ctx tf m) (hi : 0 ≤ i) (hlt : i < MAX_PCB) (hU : U i)
    (h0 : i ≠ 0) :
    Frames L U (Function.update ctx i { ctx i with eax := v }) tf
      (setField m (tf i) .eax v) := by
  obtain ⟨htf, hok, hresume⟩ := h i hi hlt hU
  intro j hj hjlt hUj
  rcases eq_or_ne j i with rfl | hne
  · rw [Function.update_self]
    refine ⟨htf, ?_, ?_⟩
    · rw [StackLayout.CpuOk, if_neg h0] at hok ⊢
      exact hok
    · rw [← hresume, resume, frameAt_setField, TrapFrame.cpu_eax]
      rfl
  · rw [Function.update_of_ne hne]
    obtain ⟨htf', hok', hresume'⟩ := h j hj hjlt hUj
    refine ⟨htf', hok', (resume_congr fun a ha => ?_).trans hresume'⟩
    rw [hresume', hok'.frameSize, htf'] at ha
    refine setField_outside ?_
    rw [htf, ← StackLayout.frameSize_of_ne h0]
    exact StackLayout.outside_frame hi hlt hj hjlt hne ha

/-- A process gets a frame. -/
theorem Frames.insert {c : Cpu} (m' : LinearMemory) (h : Frames L U ctx tf m) (hok : L.CpuOk i c)
    (hm : ∀ j, 0 ≤ j → j < MAX_PCB → j ≠ i → ∀ a, (a - L.frame j).toNat < StackLayout.frameSize j →
      m' a = m a)
    (hresume : resume KERNEL_DATA m' (L.frame i) = c) :
    Frames L (fun j => U j ∨ j = i) (Function.update ctx i c) (Function.update tf i (L.frame i))
      m' := by
  intro j hj hlt hU
  rcases eq_or_ne j i with rfl | hne
  · rw [Function.update_self, Function.update_self]
    exact ⟨rfl, hok, hresume⟩
  · rw [Function.update_of_ne hne, Function.update_of_ne hne]
    exact (h.mono (V := fun k => U k ∧ k ≠ i) (fun _ _ _ hk => hk.1)
      fun k hk hklt hV => hm k hk hklt hV.2) j hj hlt ⟨hU.resolve_right hne, hne⟩

theorem StackLayout.frame_of_ne (hi : i ≠ 0) : L.frame i = L.kstack i + 4028 := by
  rw [frame_eq, bottom, size, frameSize, if_neg hi, if_neg hi, if_neg hi]
  rfl

/-- **The frame of a child.** -/
theorem Frames.copy (h : Frames L U ctx tf m) (hi : 0 ≤ i) (hilt : i < MAX_PCB) (hU : U i)
    (hi0 : i ≠ 0) (hj : 0 ≤ j) (hjlt : j < MAX_PCB) (hj0 : j ≠ 0) :
    Frames L (fun k => U k ∨ k = j) (Function.update ctx j (ctx i))
      (Function.update tf j (L.frame j)) (memcpy m (L.kstack j) (L.kstack i) 4096).2 := by
  obtain ⟨htf, hok, hresume⟩ := h i hi hilt hU
  rw [StackLayout.CpuOk, if_neg hi0] at hok
  have hmoved : memcpy m (L.kstack j) (L.kstack i) 4096 =
      (L.kstack j, m.moved (L.kstack j) (L.kstack i) 4096) :=
    memmove_eq_moved (L.kstack_fits hi hilt) (L.kstack_fits hj hjlt)
  rw [hmoved]
  refine h.insert _ (by rwa [StackLayout.CpuOk, if_neg hj0]) (fun k hk hklt hne a ha => ?_) ?_
  · refine if_neg fun hin => hne ?_
    have hin' : L.InStack j a := by
      rwa [StackLayout.InStack, StackLayout.bottom, StackLayout.size, if_neg hj0, if_neg hj0]
    exact L.inStack_inj hk hklt hj hjlt (StackLayout.inFrame ha).1 hin'
  · have hframe : frameAt (m.moved (L.kstack j) (L.kstack i) 4096) (L.frame j) =
        frameAt m (L.frame i) := by
      funext f
      have hf := f.index_lt
      have h4028 : (4028 : UInt32).toNat = 4028 := rfl
      rw [frameAt, frameAt, StackLayout.frame_of_ne hi0, StackLayout.frame_of_ne hj0]
      exact LinearMemory.word_moved (by decide) (by omega)
    rw [htf] at hresume
    rw [resume, hframe, ← hresume]
    exact TrapFrame.cpu_of_user (by rw [← resume, hresume]; exact hok)

/-- **The frame of a new program.** -/
theorem Frames.start (eip : UInt32) (src : LinearMemory → TrapFrame) (h : Frames L U ctx tf m)
    (hj : 0 ≤ j) (hjlt : j < MAX_PCB) (hj0 : j ≠ 0)
    (hsrc : ∀ m f v, src (setField m (L.frame j) f v) = src m)
    (hcs : (src m .cs).toUInt16 &&& 3 ≠ 0) :
    ∃ g : Cpu, Frames L (fun k => U k ∨ k = j)
      (Function.update ctx j (g.start eip (src m .cs).toUInt16 (src m .ss).toUInt16
        (src m .ds).toUInt16 (src m .es).toUInt16))
      (Function.update tf j (L.frame j)) (startFrame m (L.frame j) eip src) := by
  refine ⟨(frameAt m (L.frame j)).popped KERNEL_DATA (L.frame j),
    h.insert _ ?_ (fun k hk hklt hne a ha => startFrame_outside ?_) (cpu_startFrame hsrc hcs)⟩
  · rw [StackLayout.CpuOk, if_neg hj0]
    exact hcs
  · rw [← StackLayout.frameSize_of_ne hj0]
    exact StackLayout.outside_frame hj hjlt hk hklt hne ha

end Frames

end OsLab
