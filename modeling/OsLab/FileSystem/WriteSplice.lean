import OsLab.Disk.ReadMyfs
import OsLab.FileSystem.Splice
import OsLab.Lib.ListSplice

/-!
# `write` as a splice

Seen from outside a file is the list of the bytes of its blocks, and `write` of a string without
zeros replaces the bytes from the offset on. How the call cuts the request into blocks does not
show, and neither does it show in how many calls a string is written.

## Main definitions

* `fileContent` — the bytes of the file's `m` blocks, one block after the other
* `Holds` — the buffer starts with the string
* `Spliced` — the state after a `write` of `s` at offset `o`
* `Writable` — the FCB is one that can be written, and its `m` blocks are different blocks of the
  disk

## Main results

* `writeFile_splice` — `write` refines `splice`, and two writes are one
-/

namespace OsLab

/-- The bytes of the file's `m` blocks, one block after the other. -/
def fileContent (inode : Sector) (m : ℕ) (d : Disk) : List UInt8 :=
  stream ((List.range m).map fun i => d ((dataBlockOffset inode i).toNat + 1))

/-- The buffer starts with the string. -/
def Holds (buf : Mem) (s : List UInt8) : Prop := ∀ i < s.length, buf i = s.getD i 0

/-- The value that the last call has returned to the running process. -/
def Kernel.result (k : Kernel) : ℤ := k.procs.cur.eax

@[simp] theorem Transfer.result_finish (x : Transfer) (k : Kernel) (i offset eax : ℤ) :
    (x.finish k i offset eax).kernel.result = eax := by
  simp [Transfer.finish, Kernel.result, Kernel.setEax, Kernel.modifyCur, Procs.modify, Procs.cur]

section Content

variable {inode : Sector} {m : ℕ} {d d' : Disk}

@[simp] theorem length_fileContent : (fileContent inode m d).length = 512 * m := by
  rw [fileContent, length_stream, List.length_map, List.length_range]

theorem getD_fileContent {p : ℕ} (hp : p < 512 * m) :
    (fileContent inode m d).getD p 0 = fileByte inode d p := by
  have hblock : p / 512 < m := by omega
  rw [fileContent, getD_stream (by simpa using hp), fileByte, List.getD_eq_getElem _ _ (by simpa),
    List.getElem_map, List.getElem_range]

/-- A disk is known by the file and by the sectors that are not the file's. -/
theorem disk_eq (hfile : fileContent inode m d = fileContent inode m d')
    (hrest : ∀ b, (∀ j < m, b ≠ (dataBlockOffset inode j).toNat + 1) → d b = d' b) : d = d' := by
  funext b
  by_cases hb : ∀ j < m, b ≠ (dataBlockOffset inode j).toNat + 1
  · exact hrest b hb
  · obtain ⟨j, hj⟩ := not_forall.mp hb
    obtain ⟨hjm, hbj⟩ := Classical.not_imp.mp hj
    refine ByteBlock.ext_get fun r hr => ?_
    have hdiv : (512 * j + r) / 512 = j := by omega
    have hmod : (512 * j + r) % 512 = r := by omega
    have hbyte : ∀ d : Disk, fileByte inode d (512 * j + r) = (d b).get r := fun d => by
      rw [fileByte, hdiv, hmod, not_not.mp hbj]
    rw [← hbyte, ← hbyte, ← getD_fileContent (m := m) (by omega), hfile,
      getD_fileContent (by omega)]

end Content

/-- What `write` puts into the file is the string, if it has no zeros. -/
theorem putByte_of_holds {buf : Mem} {s : List UInt8} (hbuf : Holds buf s) (hs : 0 ∉ s) {o p : ℕ}
    (hp : o ≤ p) (hlt : p < o + s.length) : putByte buf o p = s.getD (p - o) 0 := by
  have hcs : o ≤ chunkStart o p ∧ chunkStart o p ≤ p := by simp only [chunkStart]; omega
  have hpos : ∀ j : ℕ, (chunkStart o p : ℤ) - o + j = (chunkStart o p - o + j : ℕ) := fun j => by
    omega
  have hend : chunkStart o p - o + (p - chunkStart o p) = p - o := by omega
  have hbyte : ∀ j ≤ p - chunkStart o p, buf ((chunkStart o p : ℤ) - o + (j : ℕ)) =
      s.getD (chunkStart o p - o + j) 0 := fun j hj => by rw [hpos, hbuf _ (by omega)]
  rw [putByte, stringByte, if_neg, hbyte _ (Nat.le_refl _), hend]
  rintro ⟨j, hj, hz⟩
  rw [hbyte j hj, List.getD_eq_getElem _ _ (by omega)] at hz
  exact hs (hz ▸ List.getElem_mem _)

/-- The state after a `write` of `s` at offset `o`. -/
structure Spliced (k : Kernel) (fd : ℤ) (m o : ℕ) (s : List UInt8) (k' : Kernel) : Prop where
  content : fileContent (k.fcbOf fd).inode m k'.disk =
    splice (fileContent (k.fcbOf fd).inode m k.disk) o s
  frame : ∀ b, (∀ j < m, b ≠ (dataBlockOffset (k.fcbOf fd).inode j).toNat + 1) →
    k'.disk b = k.disk b
  index : k'.fcbIndex fd = k.fcbIndex fd
  fcb : k'.fcbOf fd = { k.fcbOf fd with offset := (o + s.length : ℕ) }
  result : k'.result = s.length

section Write

variable {stray : ℤ → UInt32} {junk buf : Mem} {k k₁ k₂ k' : Kernel} {fd : ℤ} {m o : ℕ}
  {s s₁ s₂ : List UInt8}

/-- The FCB is one that can be written, and its `m` blocks are different blocks of the disk. -/
structure Writable (k : Kernel) (fd : ℤ) (m : ℕ) : Prop where
  index : k.fcbIndex fd ≠ -1
  mode : (k.fcbOf fd).f_state = s_w ∨ (k.fcbOf fd).f_state = s_rw
  allocated : Allocated (k.fcbOf fd).inode m
  distinct : DistinctBlocks (k.fcbOf fd).inode m

/-- **One `write`.** -/
theorem Writable.spliced (h : Writable k fd m) (ho : (k.fcbOf fd).offset = o)
    (hbuf : Holds buf s) (hs : 0 ∉ s) (hroom : o + s.length < 512 * m) :
    Spliced k fd m o s (writeFile stray junk k fd buf s.length).kernel := by
  obtain ⟨x, hput, heq⟩ := @writeFile_put stray m buf o junk k fd s.length h.index h.mode ho
    h.allocated h.distinct hroom
  have hlen : (fileContent (k.fcbOf fd).inode m k.disk).length = 512 * m := length_fileContent
  rw [heq]
  refine ⟨?_, ?_, Transfer.fcbIndex_finish .., Transfer.fcbOf_finish .., Transfer.result_finish ..⟩
  · rw [Transfer.disk_finish]
    refine ext_getD (d := 0) ?_ fun p hp => ?_
    · rw [length_splice (by omega), length_fileContent, length_fileContent]
    · rw [length_fileContent] at hp
      rw [getD_fileContent hp, hput.byte p hp, getD_splice (by omega), getD_fileContent hp]
      split
      · next hin => exact putByte_of_holds hbuf hs hin.1 hin.2
      · rfl
  · rw [Transfer.disk_finish]
    exact hput.frame

/-- A file that has been written can be written again. -/
theorem Spliced.writable (hw : Spliced k fd m o s k₁) (h : Writable k fd m) : Writable k₁ fd m := by
  refine ⟨?_, ?_, ?_, ?_⟩
  · rw [hw.index]
    exact h.index
  all_goals rw [hw.fcb]
  · exact h.mode
  · exact h.allocated
  · exact h.distinct

/-- **Two writes are one.** -/
theorem Spliced.append (h₁ : Spliced k fd m o s₁ k₁) (h₂ : Spliced k₁ fd m (o + s₁.length) s₂ k₂)
    (h : Spliced k fd m o (s₁ ++ s₂) k') (hroom : o + (s₁ ++ s₂).length < 512 * m) :
    k₂.disk = k'.disk ∧ k₂.fcbOf fd = k'.fcbOf fd := by
  have hinode : (k₁.fcbOf fd).inode = (k.fcbOf fd).inode := by rw [h₁.fcb]
  have hcontent := h₂.content
  have hframe := h₂.frame
  rw [hinode] at hcontent hframe
  refine ⟨@disk_eq (k.fcbOf fd).inode m _ _ ?_ fun b hb => ?_, ?_⟩
  · rw [hcontent, h₁.content, h.content, splice_append]
    rw [length_fileContent]
    omega
  · rw [hframe b hb, h₁.frame b hb, h.frame b hb]
  · rw [h₂.fcb, h₁.fcb, h.fcb, List.length_append, Nat.add_assoc]

end Write

/-- **`write` is a splice.** For every FCB that can be written with `m` different blocks and every
string without zeros that fits behind offset `o`, `write` replaces the bytes of the file from `o`
on, leaves the other sectors alone, moves the offset behind the string and returns the length.
Spliced in two pieces the string leaves the same disk and the same offset. -/
theorem writeFile_splice (stray : ℤ → UInt32) (junk : Mem) (k : Kernel) (fd : ℤ) (m o : ℕ)
    (buf : Mem) (s : List UInt8) (h : Writable k fd m) (ho : (k.fcbOf fd).offset = o)
    (hbuf : Holds buf s) (hs : 0 ∉ s) (hroom : o + s.length < 512 * m) :
    Spliced k fd m o s (writeFile stray junk k fd buf s.length).kernel ∧
      ∀ s₁ s₂, s = s₁ ++ s₂ → ∀ (junk₁ junk₂ buf₁ buf₂ : Mem), Holds buf₁ s₁ → Holds buf₂ s₂ →
        ∀ k₁, (writeFile stray junk₁ k fd buf₁ s₁.length).kernel = k₁ →
          (writeFile stray junk₂ k₁ fd buf₂ s₂.length).kernel.disk =
              (writeFile stray junk k fd buf s.length).kernel.disk ∧
            (writeFile stray junk₂ k₁ fd buf₂ s₂.length).kernel.fcbOf fd =
              (writeFile stray junk k fd buf s.length).kernel.fcbOf fd := by
  have hwhole : Spliced k fd m o s (writeFile stray junk k fd buf s.length).kernel :=
    h.spliced ho hbuf hs hroom
  refine ⟨hwhole, ?_⟩
  rintro s₁ s₂ rfl junk₁ junk₂ buf₁ buf₂ hbuf₁ hbuf₂ k₁ rfl
  rw [List.length_append] at hroom
  have hs₁ : 0 ∉ s₁ := fun h0 => hs (List.mem_append_left _ h0)
  have hs₂ : 0 ∉ s₂ := fun h0 => hs (List.mem_append_right _ h0)
  have hfirst : Spliced k fd m o s₁ (writeFile stray junk₁ k fd buf₁ s₁.length).kernel :=
    h.spliced ho hbuf₁ hs₁ (by omega)
  have hoffset : ((writeFile stray junk₁ k fd buf₁ s₁.length).kernel.fcbOf fd).offset =
      (o + s₁.length : ℕ) := by rw [hfirst.fcb]
  have hsecond : Spliced _ fd m (o + s₁.length) s₂ (writeFile stray junk₂
      (writeFile stray junk₁ k fd buf₁ s₁.length).kernel fd buf₂ s₂.length).kernel :=
    (hfirst.writable h).spliced hoffset hbuf₂ hs₂ (by omega)
  exact hfirst.append hsecond hwhole (by rw [List.length_append]; omega)

theorem oneBlockKernel_writable : Writable oneBlockKernel 0 1 :=
  ⟨by decide, .inr rfl, oneBlockKernel_open.allocated, fun i hi j hj _ => by omega⟩

/-- Two bytes at the start of a file of one block. -/
theorem writeFile_splice_two :
    Spliced oneBlockKernel 0 1 0 [7, 8]
      (writeFile (fun _ => 0) (fun _ => 0) oneBlockKernel 0 (fun a => if a = 0 then 7 else 8)
        ([7, 8] : List UInt8).length).kernel := by
  have hbuf : Holds (fun a => if a = 0 then 7 else 8) [7, 8] := fun i hi => by
    have hi : i < 2 := hi
    rcases (by omega : i = 0 ∨ i = 1) with rfl | rfl <;> rfl
  exact (writeFile_splice (fun _ => 0) (fun _ => 0) oneBlockKernel 0 1 0 _ [7, 8]
    oneBlockKernel_writable rfl hbuf (by decide) (by decide)).1

end OsLab
