import OsLab.FileSystem.ReadBack
import OsLab.Game.Play

/-!
# The file of the game

`main_loop` loads the board with nine calls of `read`, one byte each, and saves it with `lseek` and
nine calls of `write`. Each `write` changes one byte of the file and moves one sector. What the file
holds is at every time a board again (`fileBoard`): characters other than `O` and `X` are loaded as
empty boxes.

## Main definitions

* `GameFile` — the game's file has this inode and `m` blocks, and `open` finds it whatever is
  written to them
* `Booted` — the machine has started from the disk, and no file is open
* `SaveFd` — the game has its file open
* `fileBoard` — the board that is in the file

## Main results

* `SaveFd.write` — a `write` puts one box into the file
* `playStart_loads` — when the machine has started, the game has the board of the file
-/

namespace OsLab

/-- The disks agree but for the blocks of the file. -/
def SameOutside (inode : Sector) (m : ℕ) (d d' : Disk) : Prop :=
  ∀ b, (∀ j < m, b ≠ (dataBlockOffset inode j).toNat + 1) → d' b = d b

/-- The game's file has this inode and `m` blocks, and `open` finds it whatever is written to
them. -/
structure GameFile (inode : Sector) (m : ℕ) (d : Disk) : Prop where
  pos : 0 < m
  allocated : Allocated inode m
  distinct : DistinctBlocks inode m
  found : ∀ d', SameOutside inode m d d' → ∀ k, Mounted k d' → fileInode k gameLoad = some inode

/-- The machine has started from the disk, and no file is open. -/
structure Booted (d : Disk) (k : Kernel) : Prop where
  mounted : Mounted k d
  closed : ∀ i, 0 ≤ i → i < NR_FILE → (k.fcb_table i).f_state = s_close
  free : ∃ fd, freeFd k.procs.cur = some fd

/-- The game has its file open. -/
structure SaveFd (k : Kernel) (fd : ℤ) (inode : Sector) : Prop where
  index : k.fcbIndex fd ≠ -1
  mode : (k.fcbOf fd).f_state = s_rw
  inode : (k.fcbOf fd).inode = inode

/-- The board that is in the file. -/
def fileBoard (inode : Sector) (d : Disk) : Board := fun i => loadedText (fileByte inode d i)

section File

variable {stray : ℤ → UInt32} {junk buf : Mem} {k : Kernel} {fd : ℤ} {inode : Sector} {m o : ℕ}
  {d d' : Disk}

theorem GameFile.congr (h : GameFile inode m d) (hd : SameOutside inode m d d') :
    GameFile inode m d' :=
  ⟨h.pos, h.allocated, h.distinct, fun d'' hd'' => h.found d'' fun b hb =>
    (hd'' b hb).trans (hd b hb)⟩

/-! ### One byte -/

/-- **`read(fd, &charac, 1)`** -/
theorem SaveFd.read (h : SaveFd k fd inode) (ha : Allocated inode m)
    (ho : (k.fcbOf fd).offset = o) (hroom : o + 1 < 512 * m) :
    SaveFd (readFile stray junk k fd buf 1).kernel fd inode ∧
      ((readFile stray junk k fd buf 1).kernel.fcbOf fd).offset = (o + 1 : ℕ) ∧
      (readFile stray junk k fd buf 1).kernel.disk = k.disk ∧
      (readFile stray junk k fd buf 1).buf 0 = fileByte inode k.disk o := by
  have ha' : Allocated (k.fcbOf fd).inode m := by rw [h.inode]; exact ha
  obtain ⟨x, hgot, heq⟩ :=
    @readFile_got stray junk k fd m buf o 1 h.index (.inr h.mode) ho ha' hroom
  have hread : readFile stray junk k fd buf 1 = x.finish k (k.fcbIndex fd) (o + 1 : ℕ) 1 := heq
  have hfcb := Transfer.fcbOf_finish k fd x (o + 1 : ℕ) 1
  have hbyte := hgot.done o (Nat.le_refl o) (Nat.lt_succ_self o)
  have hstart : chunkStart o o = o := Nat.max_eq_left (Nat.mul_div_le o 512)
  rw [hread]
  refine ⟨⟨?_, ?_, ?_⟩, ?_, ?_, ?_⟩
  · rw [Transfer.fcbIndex_finish]
    exact h.index
  · rw [hfcb]
    exact h.mode
  · rw [hfcb]
    exact h.inode
  · rw [hfcb]
  · rw [Transfer.disk_finish, hgot.disk]
  · rw [Int.sub_self] at hbyte
    rw [Transfer.buf_finish, hbyte, takeByte, if_pos (.inl rfl), hstart, Nat.sub_self,
      stringByte_zero, fileMem, h.inode, Int.toNat_natCast]

/-- **`write(fd, &charac, 1)`** -/
theorem SaveFd.write (h : SaveFd k fd inode) (ha : Allocated inode m) (hd : DistinctBlocks inode m)
    (ho : (k.fcbOf fd).offset = o) (hroom : o + 1 < 512 * m) :
    SaveFd (writeFile stray junk k fd buf 1).kernel fd inode ∧
      ((writeFile stray junk k fd buf 1).kernel.fcbOf fd).offset = (o + 1 : ℕ) ∧
      SameOutside inode m k.disk (writeFile stray junk k fd buf 1).kernel.disk ∧
      ∀ p < 512 * m, fileByte inode (writeFile stray junk k fd buf 1).kernel.disk p =
        if p = o then buf 0 else fileByte inode k.disk p := by
  have ha' : Allocated (k.fcbOf fd).inode m := by rw [h.inode]; exact ha
  have hd' : DistinctBlocks (k.fcbOf fd).inode m := by rw [h.inode]; exact hd
  obtain ⟨x, hput, heq⟩ :=
    @writeFile_put stray m buf o junk k fd 1 h.index (.inr h.mode) ho ha' hd' hroom
  have hwrite : writeFile stray junk k fd buf 1 = x.finish k (k.fcbIndex fd) (o + 1 : ℕ) 1 := heq
  have hfcb := Transfer.fcbOf_finish k fd x (o + 1 : ℕ) 1
  have hstart : chunkStart o o = o := Nat.max_eq_left (Nat.mul_div_le o 512)
  have hbyte : putByte buf o o = buf 0 := by
    rw [putByte, hstart, Int.sub_self, Nat.sub_self, stringByte_zero]
  obtain ⟨-, hbytes, hframe⟩ := hput
  rw [h.inode] at hbytes hframe
  rw [hwrite]
  refine ⟨⟨?_, ?_, ?_⟩, ?_, ?_, fun p hp => ?_⟩
  · rw [Transfer.fcbIndex_finish]
    exact h.index
  · rw [hfcb]
    exact h.mode
  · rw [hfcb]
    exact h.inode
  · rw [hfcb]
  · rw [Transfer.disk_finish]
    exact hframe
  · rw [Transfer.disk_finish, hbytes p hp]
    by_cases hp : p = o
    · rw [if_pos (by omega), if_pos hp, hp, hbyte]
    · rw [if_neg (by omega), if_neg hp]

/-- **`lseek(fd, 0, SEEK_SET)`** -/
theorem SaveFd.seek (h : SaveFd k fd inode) :
    SaveFd (lseek stray junk k fd 0 SEEK_SET) fd inode ∧
      ((lseek stray junk k fd 0 SEEK_SET).fcbOf fd).offset = 0 := by
  have hfcb := @fcbOf_lseek_set stray junk k fd 0 h.index
  refine ⟨⟨?_, ?_, ?_⟩, ?_⟩
  · rw [fcbIndex_lseek]
    exact h.index
  all_goals rw [hfcb]
  · exact h.mode
  · exact h.inode

/-! ### Loading -/

/-- The loop loads the boxes from `o` on. -/
theorem loadBoxes_spec (h : SaveFd k fd inode) (ha : Allocated inode m) (hm : 0 < m)
    {is : List (Fin 9)} (his : ∀ t (ht : t < is.length), (is[t] : ℕ) = o + t)
    (hlen : o + is.length = 9) (ho : (k.fcbOf fd).offset = o) (text : Board) :
    SaveFd (loadBoxes stray junk fd is k buf text).1 fd inode ∧
      (loadBoxes stray junk fd is k buf text).1.disk = k.disk ∧
      ∀ j : Fin 9, (loadBoxes stray junk fd is k buf text).2 j =
        if o ≤ j then fileBoard inode k.disk j else text j := by
  induction is generalizing k buf text o with
  | nil =>
    refine ⟨h, rfl, fun j => (if_neg ?_).symm⟩
    have hj := j.isLt
    rw [List.length_nil] at hlen
    omega
  | cons i is ih =>
    rw [List.length_cons] at hlen
    obtain ⟨hfd, hoff, hdisk, hbyte⟩ :=
      @SaveFd.read stray junk buf k fd inode m o h ha ho (by omega)
    have hi : (i : ℕ) = o := his 0 (Nat.succ_pos _)
    have his' : ∀ t (ht : t < is.length), (is[t] : ℕ) = o + 1 + t := fun t ht => by
      rw [Nat.add_assoc, Nat.add_comm 1 t]
      exact his (t + 1) (Nat.succ_lt_succ ht)
    obtain ⟨hfd', hdisk', hboxes⟩ := @ih (readFile stray junk k fd buf 1).buf _ (o + 1) hfd his'
      (by omega) hoff
      (Function.update text i (loadedText ((readFile stray junk k fd buf 1).buf 0)))
    refine ⟨hfd', hdisk'.trans hdisk, fun j => ?_⟩
    rw [loadBoxes, hboxes j, hdisk]
    rcases Nat.lt_trichotomy j o with hlt | heq | hgt
    · have hne : j ≠ i := fun h => Nat.ne_of_lt hlt (by rw [h, hi])
      rw [if_neg (by omega), if_neg (by omega), Function.update_of_ne hne]
    · obtain rfl : j = i := Fin.ext (heq.trans hi.symm)
      rw [if_neg (by omega), if_pos (by omega), Function.update_self, hbyte, fileBoard, heq]
    · rw [if_pos (by omega), if_pos (by omega)]

/-- **The game has the board of the file** when the machine has started. -/
theorem playStart_loads (hb : Booted d k) (hf : GameFile inode m d) (key_state : ℤ → KeyState)
    (now : ℤ) :
    SaveFd (playStart stray junk key_state k now).kernel (playStart stray junk key_state k now).fd
        inode ∧
      (playStart stray junk key_state k now).kernel.disk = d ∧
      (playStart stray junk key_state k now).game.text = fileBoard inode d := by
  have hfile := hf.found d (fun b _ => rfl) k hb.mounted
  have habsent : fcbWith k.fcb_table s_rw inode = none :=
    findSlot_eq_none.mpr fun i hi hlt => decide_eq_false fun h =>
      absurd (h.1.symm.trans (hb.closed i hi hlt)) (by decide)
  obtain ⟨i, hi⟩ : ∃ i, closedFcb k.fcb_table = some i :=
    exists_findSlot_eq_some (Int.le_refl 0) (by decide)
      (decide_eq_true (hb.closed 0 (Int.le_refl 0) (by decide)))
  obtain ⟨hi0, -⟩ := closedFcb_eq_some hi
  obtain ⟨fd, hfd⟩ := hb.free
  obtain ⟨hresult, hindex, hfcb⟩ := openFile_opened hfile habsent hi hfd
  have hopen : SaveFd (openFile gameLoad s_rw k) fd inode := by
    refine ⟨?_, ?_, ?_⟩
    · rw [hindex]
      omega
    all_goals rw [hfcb]
  have hoff : ((openFile gameLoad s_rw k).fcbOf fd).offset = (0 : ℕ) := by rw [hfcb]; rfl
  have hboxes : ∀ t (ht : t < (List.finRange 9).length), ((List.finRange 9)[t] : ℕ) = 0 + t :=
    fun t ht => by rw [List.getElem_finRange, Nat.zero_add]; rfl
  obtain ⟨hfd', hdisk, hload⟩ := @loadBoxes_spec stray junk junk (openFile gameLoad s_rw k) fd
    inode m 0 hopen hf.allocated hf.pos _ hboxes (by decide) hoff
    (initialGame gameStatics).text
  rw [disk_openFile, hb.mounted.disk] at hdisk hload
  simp only [playStart, hresult]
  exact ⟨hfd', hdisk, funext fun j => (hload j).trans (if_pos (Nat.zero_le _))⟩

end File

end OsLab
