import OsLab.FileSystem.ReadBack
import OsLab.Lib.OpenFiles
import OsLab.Lib.Results

/-!
# Files, as processes see them

FCBs are open files, an FCB's `offset` is its cursor, and the blocks of an inode are what is in the
file. `lseek`, `read` and `write` are then the operations of `OpenFiles`, for any number of files
and FCBs and calls by any processes in turn, as long as no call goes to the end of the last block,
no string that is read or written has a zero, and `SEEK_END` is not used. Two FCBs on one file see
what the other writes, two files do not share anything, and no other sector changes.

## Main definitions

* `FileCall` — a call of the process in slot `proc`
* `Answer` — what the caller gets: the value in `eax`, and the bytes that `read` has put into its
  buffer
* `FileTable` — the files, the FCBs and the descriptors
* `Fits` — what the calls have to respect
* `Shows` — the kernel's state shows the files `A`

## Main results

* `Shows.step` — one call
* `files_refine` — runs
-/

namespace OsLab

/-! ## Calls -/

/-- A call of the process in slot `proc`. The caller's buffer is `buf`, and `junk` is what the
kernel stack holds. -/
structure FileCall where
  proc : ℤ
  fd : ℤ
  op : FileOp UInt8
  buf : Mem
  junk : Mem

/-- What the caller gets: the value in `eax`, and the bytes that `read` has put into its buffer. -/
structure Answer where
  eax : ℤ
  bytes : List UInt8

/-- The part of the buffer that a call is to fill. -/
def filled (buf : Mem) : FileOp UInt8 → List UInt8
  | .read n => (List.range n).map fun j : ℕ => buf j
  | _ => []

/-- The call in the kernel: its answer, and the state that it leaves. -/
def FileCall.exec (stray : ℤ → UInt32) (k : Kernel) (c : FileCall) : Option (Answer × Kernel) :=
  let k := k.runs c.proc
  let r : Kernel × Mem :=
    match c.op with
    | .seekSet o => (lseek stray c.junk k c.fd o SEEK_SET, c.buf)
    | .seekCur d => (lseek stray c.junk k c.fd d SEEK_CUR, c.buf)
    | .read n => ((readFile stray c.junk k c.fd c.buf n).kernel,
        (readFile stray c.junk k c.fd c.buf n).buf)
    | .write s => ((writeFile stray c.junk k c.fd c.buf s.length).kernel,
        (writeFile stray c.junk k c.fd c.buf s.length).buf)
  some (⟨r.1.result, if r.1.result = -1 then [] else filled r.2 c.op⟩, r.1)

/-! ## What they stand for -/

/-- The files, the FCBs and the descriptors. Every block is a block of one file, at one place. -/
structure FileTable (φ : Type*) where
  inode : φ → Sector
  blocks : φ → ℕ
  /-- The file of each FCB, and its mode. -/
  file : ℤ → φ
  mode : ℤ → ℤ
  /-- The FCB of each descriptor of each process. -/
  desc : ℤ → ℤ → ℤ
  allocated : ∀ x, Allocated (inode x) (blocks x)
  apart : ∀ x y, ∀ i < blocks x, ∀ j < blocks y,
    dataBlockOffset (inode x) i = dataBlockOffset (inode y) j → x = y ∧ i = j

namespace FileTable

variable {φ : Type*} (F : FileTable φ)

/-- Entry `i` is that of an open file. -/
def Open (i : ℤ) : Prop := i ≠ -1 ∧ (F.mode i = s_r ∨ F.mode i = s_w ∨ F.mode i = s_rw)

/-- Entry `i` lets its file be read. -/
def reads (i : ℤ) : Bool := F.mode i = s_r ∨ F.mode i = s_rw

/-- Entry `i` lets its file be written. -/
def writes (i : ℤ) : Bool := F.mode i = s_w ∨ F.mode i = s_rw

/-- Sector `b` is a block of file `x`. -/
def HasBlock (x : φ) (b : ℕ) : Prop :=
  ∃ j < F.blocks x, b = (dataBlockOffset (F.inode x) j).toNat + 1

theorem distinct (x : φ) : DistinctBlocks (F.inode x) (F.blocks x) := fun i hi j hj heq =>
  (F.apart x x i hi j hj heq).2

theorem eq_of_hasBlock {x y : φ} {b : ℕ} (hx : F.HasBlock x b) (hy : F.HasBlock y b) : x = y := by
  obtain ⟨i, hi, rfl⟩ := hx
  obtain ⟨j, hj, heq⟩ := hy
  exact (F.apart x y i hi j hj (UInt32.toNat_inj.mp (Nat.succ.inj heq))).1

variable (A : OpenFiles ℤ φ UInt8) (c : FileCall)

/-- What the calls have to respect. -/
def Fits : Prop :=
  F.Open (F.desc c.proc c.fd) ∧
    match c.op with
    | .seekSet _ => True
    | .seekCur d => A.cursor (F.desc c.proc c.fd) + d < 2 ^ 31
    | .read n => F.reads (F.desc c.proc c.fd) →
        A.cursor (F.desc c.proc c.fd) + n < (A.content (F.file (F.desc c.proc c.fd))).length ∧
          0 ∉ A.slice F.file (F.desc c.proc c.fd) n
    | .write s => F.writes (F.desc c.proc c.fd) →
        A.cursor (F.desc c.proc c.fd) + s.length <
            (A.content (F.file (F.desc c.proc c.fd))).length ∧
          0 ∉ s ∧ Holds c.buf s

/-- The value that the call returns. -/
def value : FileOp UInt8 → ℤ
  | .seekSet _ | .seekCur _ => 1
  | .read n => n
  | .write s => s.length

/-- The answer of a call, from that of the abstract files. -/
def answer (op : FileOp UInt8) : Option (List UInt8) → Answer
  | none => ⟨-1, []⟩
  | some bytes => ⟨value op, bytes⟩

end FileTable

open Classical in
/-- **What a call is to do.** -/
noncomputable def FileTable.spec {φ : Type*} [DecidableEq φ] (F : FileTable φ)
    (A : OpenFiles ℤ φ UInt8) (c : FileCall) : Option (Answer × OpenFiles ℤ φ UInt8) :=
  if F.Fits A c then
    (A.exec F.file F.reads F.writes (F.desc c.proc c.fd) c.op).map fun r => (answer c.op r.1, r.2)
  else none

/-- **The kernel's state shows the files** `A`. The sectors that are in no file are those of `d`. -/
structure Shows {φ : Type*} (F : FileTable φ) (d : Disk) (k : Kernel) (A : OpenFiles ℤ φ UInt8) :
    Prop where
  desc : ∀ p fd, (k.procs.pcb_table p).fcbAt fd = F.desc p fd
  mode : ∀ i, (k.fcb_table i).f_state = F.mode i
  inode : ∀ i, F.Open i → (k.fcb_table i).inode = F.inode (F.file i)
  offset : ∀ i, F.Open i → (k.fcb_table i).offset = A.cursor i
  content : ∀ x, A.content x = fileContent (F.inode x) (F.blocks x) k.disk
  rest : ∀ b, (∀ x, ¬F.HasBlock x b) → k.disk b = d b

section Step

variable {φ : Type*} {F : FileTable φ} {d : Disk} {k k' : Kernel} {A A' : OpenFiles ℤ φ UInt8}
  {stray : ℤ → UInt32} {junk buf : Mem} {p fd i v : ℤ} {o n : ℕ} {s : List UInt8} {c : FileCall}
  {b : Answer}

@[simp] theorem Kernel.result_setEax (k : Kernel) (v : ℤ) : (k.setEax v).result = v := by
  simp only [Kernel.result, Kernel.setEax, Kernel.modifyCur, Procs.modify, Procs.cur,
    Function.update_self]

/-- Where the result goes is no descriptor. -/
@[simp] theorem Kernel.desc_setEax (k : Kernel) (v p fd : ℤ) :
    ((k.setEax v).procs.pcb_table p).fcbAt fd = (k.procs.pcb_table p).fcbAt fd := by
  simp only [Kernel.setEax, Kernel.modifyCur]
  rcases eq_or_ne p k.procs.current with rfl | hne
  · rw [Procs.pcb_table_modify_self]
    rfl
  · rw [Procs.pcb_table_modify_of_ne _ _ hne]

/-- The state after a call with which FCB `i` comes to offset `o`. -/
structure CameTo (i : ℤ) (o : ℕ) (k k' : Kernel) : Prop where
  table : k'.fcb_table = Function.update k.fcb_table i { k.fcb_table i with offset := o }
  desc : ∀ p fd, (k'.procs.pcb_table p).fcbAt fd = (k.procs.pcb_table p).fcbAt fd

theorem cameTo_finish (x : Transfer) (k : Kernel) (p : ℤ) :
    CameTo i o k (x.finish (k.runs p) i o v).kernel :=
  ⟨rfl, fun q fd => Kernel.desc_setEax _ v q fd⟩

/-- A call that is refused. -/
theorem Shows.refused (h : Shows F d k A) (p : ℤ) :
    Shows F d ((k.runs p).setEax (-1)) A :=
  ⟨fun q fd => (Kernel.desc_setEax _ _ q fd).trans (h.desc q fd), h.mode, h.inode, h.offset,
    h.content, h.rest⟩

/-- What a call leaves shows what the specification asks for, if its disk does. -/
theorem Shows.came (h : Shows F d k A) {content : φ → List UInt8} (hk : CameTo i o k k')
    (hcontent : ∀ x, content x = fileContent (F.inode x) (F.blocks x) k'.disk)
    (hrest : ∀ b, (∀ x, ¬F.HasBlock x b) → k'.disk b = k.disk b) :
    Shows F d k' ⟨content, Function.update A.cursor i o⟩ := by
  have hfcb : ∀ j, (k'.fcb_table j).f_state = (k.fcb_table j).f_state ∧
      (k'.fcb_table j).inode = (k.fcb_table j).inode := fun j => by
    rw [hk.table]
    rcases eq_or_ne j i with rfl | hne
    · rw [Function.update_self]
      exact ⟨rfl, rfl⟩
    · rw [Function.update_of_ne hne]
      exact ⟨rfl, rfl⟩
  refine ⟨fun q fd => (hk.desc q fd).trans (h.desc q fd), fun j => (hfcb j).1.trans (h.mode j),
    fun j hj => (hfcb j).2.trans (h.inode j hj), fun j hj => ?_, hcontent,
    fun b hb => (hrest b hb).trans (h.rest b hb)⟩
  rw [hk.table]
  dsimp only
  rcases eq_or_ne j i with rfl | hne
  · rw [Function.update_self, Function.update_self]
  · rw [Function.update_of_ne hne, Function.update_of_ne hne]
    exact h.offset j hj

/-- The disk is what it was. -/
theorem Shows.moved (h : Shows F d k A) (hk : CameTo i o k k') (hdisk : k'.disk = k.disk) :
    Shows F d k' (A.moved i o) :=
  h.came hk (fun x => by rw [hdisk]; exact h.content x) fun b _ => by rw [hdisk]

theorem Shows.index (h : Shows F d k A) (p fd : ℤ) : (k.runs p).fcbIndex fd = F.desc p fd :=
  h.desc p fd

theorem Shows.fcbOf (h : Shows F d k A) (p fd : ℤ) :
    (k.runs p).fcbOf fd = k.fcb_table (F.desc p fd) := congrArg k.fcb_table (h.desc p fd)

/-- **`lseek`** -/
theorem Shows.seek (stray : ℤ → UInt32) (junk : Mem) (offset : ℤ) (h : Shows F d k A)
    (hi : F.Open (F.desc p fd)) {whence : ℤ} {t : ℕ}
    (hwhence : whence = SEEK_SET ∧ offset = t ∨
      whence = SEEK_CUR ∧ (A.cursor (F.desc p fd) : ℤ) + offset = t ∧ t < 2 ^ 31) :
    (lseek stray junk (k.runs p) fd offset whence).result = 1 ∧
      Shows F d (lseek stray junk (k.runs p) fd offset whence) (A.moved (F.desc p fd) t) := by
  have hne : (k.runs p).fcbIndex fd ≠ -1 := by
    rw [h.index]
    exact hi.1
  rcases hwhence with ⟨rfl, rfl⟩ | ⟨rfl, ht, hlt⟩
  · simp only [lseek, if_neg hne, if_true]
    refine ⟨Kernel.result_setEax .., h.moved ⟨?_, fun q fd => Kernel.desc_setEax _ _ q fd⟩ rfl⟩
    rw [← h.index p fd]
    rfl
  · have hint : int32 (((k.runs p).fcb_table (F.desc p fd)).offset + offset) = t := by
      show int32 ((k.fcb_table _).offset + offset) = t
      rw [h.offset _ hi, ht, int32_eq (by omega) (by omega)]
    simp only [lseek, if_neg hne, if_neg (by decide : ¬SEEK_CUR = SEEK_SET), if_true]
    refine ⟨Kernel.result_setEax .., h.moved ⟨?_, fun q fd => Kernel.desc_setEax _ _ q fd⟩ rfl⟩
    show Function.update k.fcb_table ((k.runs p).fcbIndex fd) _ = _
    rw [h.index p fd]
    dsimp only
    rw [hint]
    rfl

/-- **`read`** -/
theorem Shows.read (stray : ℤ → UInt32) (junk buf : Mem) (h : Shows F d k A)
    (hi : F.Open (F.desc p fd)) (hr : F.reads (F.desc p fd))
    (hroom : A.cursor (F.desc p fd) + n < (A.content (F.file (F.desc p fd))).length)
    (hz : 0 ∉ A.slice F.file (F.desc p fd) n) :
    (readFile stray junk (k.runs p) fd buf n).kernel.result = n ∧
      filled (readFile stray junk (k.runs p) fd buf n).buf (.read n) =
        A.slice F.file (F.desc p fd) n ∧
      Shows F d (readFile stray junk (k.runs p) fd buf n).kernel
        (A.moved (F.desc p fd) (A.cursor (F.desc p fd) + n)) := by
  have hinode := h.inode _ hi
  have hcontent := h.content (F.file (F.desc p fd))
  have ha := F.allocated (F.file (F.desc p fd))
  rw [hcontent, length_fileContent] at hroom
  have hne : (k.runs p).fcbIndex fd ≠ -1 := by
    rw [h.index]
    exact hi.1
  have hmode : ((k.runs p).fcbOf fd).f_state = s_r ∨ ((k.runs p).fcbOf fd).f_state = s_rw := by
    rw [h.fcbOf, h.mode]
    exact of_decide_eq_true hr
  have hoffset : ((k.runs p).fcbOf fd).offset = A.cursor (F.desc p fd) := by
    rw [h.fcbOf]
    exact h.offset _ hi
  rw [← hinode, ← h.fcbOf] at ha
  obtain ⟨x, hgot, heq⟩ := @readFile_got stray junk (k.runs p) fd _ buf _ n hne hmode hoffset ha
    hroom
  -- the byte at each position of the request
  have hbyte : ∀ j < n, (A.slice F.file (F.desc p fd) n).getD j 0 =
      fileByte (F.inode (F.file (F.desc p fd))) k.disk (A.cursor (F.desc p fd) + j) := by
    intro j hj
    rw [OpenFiles.getD_slice hj, hcontent, getD_fileContent (by omega)]
  have hlen : (A.slice F.file (F.desc p fd) n).length = n := by
    refine OpenFiles.length_slice ?_
    rw [OpenFiles.Room, hcontent, length_fileContent]
    omega
  have hnonzero : ∀ j < n, fileByte (F.inode (F.file (F.desc p fd))) k.disk
      (A.cursor (F.desc p fd) + j) ≠ 0 := fun j hj heq => by
    rw [← hbyte j hj, List.getD_eq_getElem _ _ (by omega)] at heq
    exact hz (heq ▸ List.getElem_mem _)
  refine ⟨?_, ?_, ?_⟩
  · rw [heq, Transfer.result_finish]
  · refine ext_getD (d := 0) (by rw [hlen, filled, List.length_map, List.length_range])
      fun j hj => ?_
    rw [filled, List.length_map, List.length_range] at hj
    rw [hbyte j hj, filled, List.getD_eq_getElem _ _ (by simpa using hj), List.getElem_map,
      List.getElem_range, readFile_spec hne hmode hoffset ha hroom hj, h.fcbOf, hinode]
    refine takeByte_of_ne _ (Nat.le_add_right _ _) fun q hq hlt => ?_
    have hle : A.cursor (F.desc p fd) ≤ q := (Nat.le_max_left _ _).trans hq
    have hpos : A.cursor (F.desc p fd) + (q - A.cursor (F.desc p fd)) = q := by omega
    rw [← hpos]
    exact hnonzero _ (by omega)
  · rw [heq, h.index]
    exact h.moved (cameTo_finish x k p) ((Transfer.disk_finish ..).trans hgot.disk)

/-- **`write`** -/
theorem Shows.write [DecidableEq φ] (stray : ℤ → UInt32) (junk : Mem) (h : Shows F d k A)
    (hi : F.Open (F.desc p fd)) (hw : F.writes (F.desc p fd))
    (hroom : A.cursor (F.desc p fd) + s.length < (A.content (F.file (F.desc p fd))).length)
    (hz : 0 ∉ s) (hbuf : Holds buf s) :
    (writeFile stray junk (k.runs p) fd buf s.length).kernel.result = s.length ∧
      Shows F d (writeFile stray junk (k.runs p) fd buf s.length).kernel
        (A.wrote F.file (F.desc p fd) s) := by
  have hinode : ((k.runs p).fcbOf fd).inode = F.inode (F.file (F.desc p fd)) := by
    rw [h.fcbOf]
    exact h.inode _ hi
  have hcontent := h.content (F.file (F.desc p fd))
  rw [hcontent, length_fileContent] at hroom
  have hoffset : ((k.runs p).fcbOf fd).offset = A.cursor (F.desc p fd) := by
    rw [h.fcbOf]
    exact h.offset _ hi
  have hwritable : Writable (k.runs p) fd (F.blocks (F.file (F.desc p fd))) := by
    refine ⟨?_, ?_, ?_, ?_⟩
    · rw [h.index]
      exact hi.1
    · rw [h.fcbOf, h.mode]
      exact of_decide_eq_true hw
    · rw [hinode]
      exact F.allocated _
    · rw [hinode]
      exact F.distinct _
  have hspliced : Spliced _ _ _ _ _ (writeFile stray junk (k.runs p) fd buf s.length).kernel :=
    hwritable.spliced hoffset hbuf hz hroom
  obtain ⟨x, -, heq⟩ := @writeFile_put stray _ buf _ junk (k.runs p) fd s.length hwritable.index
    hwritable.mode hoffset hwritable.allocated hwritable.distinct hroom
  have hframe := hspliced.frame
  have hfile := hspliced.content
  rw [hinode] at hframe hfile
  have hother : ∀ b, ¬F.HasBlock (F.file (F.desc p fd)) b →
      (writeFile stray junk (k.runs p) fd buf s.length).kernel.disk b = k.disk b := fun b hb =>
    hframe b fun j hj hbj => hb ⟨j, hj, hbj⟩
  refine ⟨hspliced.result, h.came (by rw [heq, h.index]; exact cameTo_finish x k p) (fun y => ?_)
    fun b hb => hother b (hb _)⟩
  rcases eq_or_ne y (F.file (F.desc p fd)) with rfl | hne
  · rw [Function.update_self, hfile, hcontent]
    rfl
  · rw [Function.update_of_ne hne, h.content y]
    refine congrArg stream (List.map_congr_left fun j hj => ?_)
    refine (hother _ fun hb => hne ?_).symm
    exact F.eq_of_hasBlock ⟨j, List.mem_range.mp hj, rfl⟩ hb

/-- **One call.** What the specification answers the kernel answers. -/
theorem Shows.step [DecidableEq φ] (h : Shows F d k A) (hspec : F.spec A c = some (b, A')) :
    ∃ k', c.exec stray k = some (b, k') ∧ Shows F d k' A' := by
  rw [FileTable.spec] at hspec
  split at hspec
  · next hfits =>
    obtain ⟨proc, fd, op, buf, junk⟩ := c
    obtain ⟨hi, hop⟩ := hfits
    dsimp only at hi hop hspec
    obtain ⟨⟨reply, A''⟩, hexec, heq⟩ := Option.map_eq_some_iff.mp hspec
    obtain ⟨rfl, rfl⟩ := Prod.mk.inj heq
    dsimp only
    cases op with
    | seekSet t =>
      obtain ⟨rfl, rfl⟩ := Prod.mk.inj (Option.some.inj hexec)
      obtain ⟨hres, hshows⟩ := h.seek stray junk _ hi (.inl ⟨rfl, rfl⟩)
      refine ⟨_, ?_, hshows⟩
      simp only [FileCall.exec, hres]
      rfl
    | seekCur t =>
      obtain ⟨hpos, hexec⟩ := Option.ite_none_right_eq_some.mp hexec
      obtain ⟨rfl, rfl⟩ := Prod.mk.inj (Option.some.inj hexec)
      dsimp only at hop
      obtain ⟨hres, hshows⟩ := h.seek stray junk t hi
        (.inr ⟨rfl, (Int.toNat_of_nonneg hpos).symm, by omega⟩)
      refine ⟨_, ?_, hshows⟩
      simp only [FileCall.exec, hres]
      rfl
    | read n =>
      dsimp only at hop
      rw [OpenFiles.exec] at hexec
      split at hexec
      · next hr =>
        obtain ⟨-, hexec⟩ := Option.ite_none_right_eq_some.mp hexec
        obtain ⟨rfl, rfl⟩ := Prod.mk.inj (Option.some.inj hexec)
        obtain ⟨hroom, hz⟩ := hop hr
        obtain ⟨hres, hbytes, hshows⟩ := h.read stray junk buf hi hr hroom hz
        refine ⟨_, ?_, hshows⟩
        simp only [FileCall.exec, hres, hbytes, if_neg (by omega : ¬(n : ℤ) = -1)]
        rfl
      · next hr =>
        obtain ⟨rfl, rfl⟩ := Prod.mk.inj (Option.some.inj hexec)
        have hmode : ¬((k.fcb_table (F.desc proc fd)).f_state = s_r ∨
            (k.fcb_table (F.desc proc fd)).f_state = s_rw) := by
          rw [h.mode]
          exact of_decide_eq_false (Bool.eq_false_of_not_eq_true hr)
        have hrefuse : readFile stray junk (k.runs proc) fd buf n = (k.runs proc).refuse buf := by
          rw [readFile]
          dsimp only
          rw [h.index]
          exact if_pos (.inl hmode)
        refine ⟨_, ?_, h.refused proc⟩
        simp only [FileCall.exec, hrefuse, Kernel.refuse, Kernel.result_setEax]
        rfl
    | write s =>
      dsimp only at hop
      rw [OpenFiles.exec] at hexec
      split at hexec
      · next hw =>
        obtain ⟨-, hexec⟩ := Option.ite_none_right_eq_some.mp hexec
        obtain ⟨rfl, rfl⟩ := Prod.mk.inj (Option.some.inj hexec)
        obtain ⟨hroom, hz, hbuf⟩ := hop hw
        obtain ⟨hres, hshows⟩ := h.write stray junk hi hw hroom hz hbuf
        refine ⟨_, ?_, hshows⟩
        simp only [FileCall.exec, hres, if_neg (by omega : ¬(s.length : ℤ) = -1)]
        rfl
      · next hw =>
        obtain ⟨rfl, rfl⟩ := Prod.mk.inj (Option.some.inj hexec)
        have hmode : ¬((k.fcb_table (F.desc proc fd)).f_state = s_w ∨
            (k.fcb_table (F.desc proc fd)).f_state = s_rw) := by
          rw [h.mode]
          exact of_decide_eq_false (Bool.eq_false_of_not_eq_true hw)
        have hrefuse : writeFile stray junk (k.runs proc) fd buf s.length =
            (k.runs proc).refuse buf := by
          rw [writeFile]
          dsimp only
          rw [h.index]
          exact if_pos (.inl hmode)
        refine ⟨_, ?_, h.refused proc⟩
        simp only [FileCall.exec, hrefuse, Kernel.refuse, Kernel.result_setEax]
        rfl
  · exact absurd hspec.symm (Option.some_ne_none _)

/-- The files as the kernel's state has them. -/
def FileTable.files (F : FileTable φ) (k : Kernel) : OpenFiles ℤ φ UInt8 where
  content x := fileContent (F.inode x) (F.blocks x) k.disk
  cursor i := (k.fcb_table i).offset.toNat

/-- The table is that of the kernel's state. -/
structure FileTable.Describes (F : FileTable φ) (k : Kernel) : Prop where
  desc : ∀ p fd, (k.procs.pcb_table p).fcbAt fd = F.desc p fd
  mode : ∀ i, (k.fcb_table i).f_state = F.mode i
  inode : ∀ i, F.Open i → (k.fcb_table i).inode = F.inode (F.file i)
  offset : ∀ i, F.Open i → 0 ≤ (k.fcb_table i).offset

theorem FileTable.Describes.shows (h : F.Describes k) : Shows F k.disk k (F.files k) :=
  ⟨h.desc, h.mode, h.inode, fun i hi => (Int.toNat_of_nonneg (h.offset i hi)).symm, fun _ => rfl,
    fun _ _ => rfl⟩

/-- **The kernel's files are files.** Whatever calls of `lseek`, `read` and `write` any processes
make, one after the other: as long as they respect `Fits`, every one of them gets the answer that
the files give, and the state shows the files afterwards. -/
theorem files_refine [DecidableEq φ] (F : FileTable φ) (stray : ℤ → UInt32) (k : Kernel)
    (h : F.Describes k) (calls : List FileCall) (answers : List Answer)
    (A' : OpenFiles ℤ φ UInt8)
    (hrun : Results.run F.spec calls (F.files k) = some (answers, A')) :
    ∃ k', Results.run (FileCall.exec stray) calls k = some (answers, k') ∧
      Shows F k.disk k' A' :=
  Results.run_simulates (fun _ _ _ _ _ h hspec => h.step hspec) h.shows hrun

/-- **What one process writes another reads**, through one FCB. -/
theorem FileTable.run_pass [DecidableEq φ] (F : FileTable φ) (A : OpenFiles ℤ φ UInt8) {q fd' : ℤ}
    (hi : F.Open i) (hr : F.reads i) (hw : F.writes i) (hp : F.desc p fd = i)
    (hq : F.desc q fd' = i) (hbuf : Holds buf s) (hs : 0 ∉ s)
    (hroom : A.cursor i + s.length < (A.content (F.file i)).length) (hlt : A.cursor i < 2 ^ 31)
    (buf' junk' : Mem) :
    ∃ A', Results.run F.spec [⟨p, fd, .write s, buf, junk⟩,
        ⟨q, fd', .seekCur (-s.length), buf', junk'⟩, ⟨q, fd', .read s.length, buf', junk'⟩] A =
        some ([⟨s.length, []⟩, ⟨1, []⟩, ⟨s.length, s⟩], A') := by
  obtain ⟨B, hB⟩ : ∃ B, B = A.wrote F.file i s := ⟨_, rfl⟩
  have hcontent : B.content (F.file i) = splice (A.content (F.file i)) (A.cursor i) s := by
    rw [hB]
    exact Function.update_self ..
  have hcursor : B.cursor i = A.cursor i + s.length := by
    rw [hB]
    exact Function.update_self ..
  have hback : (B.cursor i : ℤ) + -s.length = A.cursor i := by rw [hcursor]; omega
  obtain ⟨C, hC⟩ : ∃ C, C = B.moved i (A.cursor i) := ⟨_, rfl⟩
  have hcursor' : C.cursor i = A.cursor i := by
    rw [hC]
    exact Function.update_self ..
  have hroom' : C.Room F.file i s.length := by
    have hlen : C.content (F.file i) = B.content (F.file i) := by rw [hC]; rfl
    rw [OpenFiles.Room, hcursor', hlen, hcontent, length_splice hroom.le]
    exact hroom.le
  have hslice : C.slice F.file i s.length = s := by
    have hlen : C.content (F.file i) = B.content (F.file i) := by rw [hC]; rfl
    refine ext_getD (d := 0) (OpenFiles.length_slice hroom') fun j hj => ?_
    rw [OpenFiles.length_slice hroom'] at hj
    rw [OpenFiles.getD_slice hj, hcursor', hlen, hcontent, getD_splice hroom.le, if_pos (by omega),
      Nat.add_sub_cancel_left]
  have hwrite : F.spec A ⟨p, fd, .write s, buf, junk⟩ = some (⟨s.length, []⟩, B) := by
    have hfits : F.Fits A ⟨p, fd, .write s, buf, junk⟩ := by
      subst hp
      exact ⟨hi, fun _ => ⟨hroom, hs, hbuf⟩⟩
    rw [FileTable.spec, if_pos hfits]
    dsimp only
    rw [hp, OpenFiles.exec, if_pos hw, if_pos (show A.Room F.file i s.length from hroom.le), hB]
    rfl
  have hseek : F.spec B ⟨q, fd', .seekCur (-s.length), buf', junk'⟩ = some (⟨1, []⟩, C) := by
    have hfits : F.Fits B ⟨q, fd', .seekCur (-s.length), buf', junk'⟩ := by
      subst hq
      exact ⟨hi, by dsimp only; omega⟩
    rw [FileTable.spec, if_pos hfits]
    dsimp only
    rw [hq, OpenFiles.exec, hback, if_pos (by omega), Int.toNat_natCast, hC]
    rfl
  have hread : F.spec C ⟨q, fd', .read s.length, buf', junk'⟩ =
      some (⟨s.length, s⟩, C.moved i (C.cursor i + s.length)) := by
    have hroom'' : C.cursor i + s.length < (C.content (F.file i)).length := by
      have hlen : C.content (F.file i) = B.content (F.file i) := by rw [hC]; rfl
      rw [hcursor', hlen, hcontent, length_splice hroom.le]
      exact hroom
    have hfits : F.Fits C ⟨q, fd', .read s.length, buf', junk'⟩ := by
      subst hq
      exact ⟨hi, fun _ => ⟨hroom'', hslice.symm ▸ hs⟩⟩
    rw [FileTable.spec, if_pos hfits]
    dsimp only
    rw [hq, OpenFiles.exec, if_pos hr, if_pos hroom', hslice]
    rfl
  refine ⟨C.moved i (C.cursor i + s.length), ?_⟩
  rw [Results.run, hwrite, Option.bind_some, Results.run, hseek, Option.bind_some, Results.run,
    hread]
  rfl

end Step

/-! ### A file of one block -/

/-- The file, open for reading and writing in every process. -/
def oneBlockTable : FileTable Unit where
  inode := fun _ => setDataBlockOffset emptyInode 0 288
  blocks := fun _ => 1
  file := fun _ => ()
  mode := fun _ => s_rw
  desc := fun p fd => (oneBlockKernel.procs.pcb_table p).fcbAt fd
  allocated := fun _ => oneBlockKernel_open.allocated
  apart := fun _ _ i hi j hj _ => ⟨rfl, by omega⟩

/-- Process 1 reads what process 0 has written. -/
theorem files_refine_pass : ∃ k', Results.run (FileCall.exec fun _ => 0)
    [⟨0, 0, .write [7, 8], fun a => if a = 0 then 7 else 8, fun _ => 0⟩,
      ⟨1, 0, .seekCur (-2), fun _ => 0, fun _ => 0⟩, ⟨1, 0, .read 2, fun _ => 0, fun _ => 0⟩]
    oneBlockKernel = some ([⟨2, []⟩, ⟨1, []⟩, ⟨2, [7, 8]⟩], k') := by
  have hbuf : Holds (fun a => if a = 0 then 7 else 8) [7, 8] := fun i hi => by
    have hi : i < 2 := hi
    rcases (by omega : i = 0 ∨ i = 1) with rfl | rfl <;> rfl
  have hroom : (oneBlockTable.files oneBlockKernel).cursor 0 + ([7, 8] : List UInt8).length <
      ((oneBlockTable.files oneBlockKernel).content (oneBlockTable.file 0)).length := by
    rw [FileTable.files, length_fileContent]
    decide
  have hdesc : ∀ p, oneBlockTable.desc p 0 = 0 := fun _ => rfl
  obtain ⟨A', hspec⟩ := oneBlockTable.run_pass (oneBlockTable.files oneBlockKernel)
    ⟨by decide, .inr (.inr rfl)⟩ rfl rfl (hdesc 0) (hdesc 1) hbuf (by decide) hroom (by decide)
    (fun _ => 0) fun _ => 0
  obtain ⟨k', hrun, -⟩ := files_refine oneBlockTable (fun _ => 0) oneBlockKernel
    ⟨fun _ _ => rfl, fun _ => rfl, fun _ _ => rfl, fun _ _ => Int.le_refl 0⟩ _ _ A' hspec
  exact ⟨k', hrun⟩

end OsLab
