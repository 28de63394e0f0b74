import OsLab.Lib.CInt
import OsLab.Lib.Refs

/-!
# The bounded buffer

The statements of `producer` and `consumer` in `producer_consumer.c`, one step each, and
`items[out] -= 1` in two, for it reads and writes the slot. The calls of `print` and `printf` change
nothing that the threads share and are left out.

The invariant `BufferInv` is an account of tokens for each of the three semaphores: what the
semaphore has to give, and what the two threads have taken and not given back. A thread that waits
for a semaphore (`pw`, `cw`) has not got its token yet. The slots are followed by counting the items
that were stored and taken out; the next ten stores, starting with the oldest item that is still
there, go to ten different slots.

## Main definitions

* `Buffer` — the variables the threads share, and where each thread is
* `Buffer.producerStep` — the producer's next statement; of a call, only that it is over
* `Buffer.consumerStep` — the consumer's next statement
* `Buffer.tokens` — all the tokens there are
* `Window` — the slots from the one of the oldest item on: first those with an item, then the others
* `BufferInv` — the state of the threads and the buffer, with the tokens the semaphores have to give
* `BufferOk` — what the buffer is meant to be

## Main results

* `BufferInv.producerStep`, `BufferInv.consumerStep` — the statements keep the invariant, given what
  the semaphores do
* `BufferInv.safe` — what the invariant says of the buffer
-/

namespace OsLab

/-- The number of slots of the buffer. -/
def item_num : ℤ := 10

/-- The semaphores of the program. -/
inductive PcSem
  | mutex
  | empty
  | full
  deriving DecidableEq

/-- Where the producer is: in front of the named statement. -/
inductive ProducerPoint
  | waitEmpty
  | waitMutex
  /-- `in = in % item_num` -/
  | wrap
  /-- `items[in] = 1` -/
  | store
  /-- `in++` -/
  | next
  | postMutex
  | postFull
  deriving DecidableEq

/-- Where the consumer is. -/
inductive ConsumerPoint
  | waitFull
  | waitMutex
  /-- `out = out % item_num` -/
  | wrap
  /-- `items[out] -= 1`, reading -/
  | load
  /-- `items[out] -= 1`, writing -/
  | store
  /-- `out++` -/
  | next
  | postMutex
  | postEmpty
  deriving DecidableEq

/-- The variables the threads share, and where each thread is. `load` is what the consumer has read,
and `produced` and `consumed` count the items. -/
structure Buffer where
  producer : ProducerPoint
  consumer : ConsumerPoint
  inPos : ℤ
  outPos : ℤ
  items : ℤ → ℤ
  load : ℤ
  produced : ℕ
  consumed : ℕ

/-- The producer's next statement; of a call, only that it is over. -/
def Buffer.producerStep (b : Buffer) : Buffer :=
  match b.producer with
  | .waitEmpty => { b with producer := .waitMutex }
  | .waitMutex => { b with producer := .wrap }
  | .wrap => { b with producer := .store, inPos := b.inPos.tmod item_num }
  | .store =>
    { b with
      producer := .next
      items := Function.update b.items b.inPos 1
      produced := b.produced + 1 }
  | .next => { b with producer := .postMutex, inPos := int32 (b.inPos + 1) }
  | .postMutex => { b with producer := .postFull }
  | .postFull => { b with producer := .waitEmpty }

/-- The consumer's next statement. -/
def Buffer.consumerStep (b : Buffer) : Buffer :=
  match b.consumer with
  | .waitFull => { b with consumer := .waitMutex }
  | .waitMutex => { b with consumer := .wrap }
  | .wrap => { b with consumer := .load, outPos := b.outPos.tmod item_num }
  | .load => { b with consumer := .store, load := b.items b.outPos }
  | .store =>
    { b with
      consumer := .next
      items := Function.update b.items b.outPos (int32 (b.load - 1))
      consumed := b.consumed + 1 }
  | .next => { b with consumer := .postMutex, outPos := int32 (b.outPos + 1) }
  | .postMutex => { b with consumer := .postEmpty }
  | .postEmpty => { b with consumer := .waitFull }

/-- The calls of the threads. -/
inductive PcCall
  | wait (k : PcSem)
  | post (k : PcSem)
  | local

/-- What the producer asks the kernel for with its next statement. -/
def ProducerPoint.call : ProducerPoint → PcCall
  | .waitEmpty => .wait .empty
  | .waitMutex => .wait .mutex
  | .postMutex => .post .mutex
  | .postFull => .post .full
  | _ => .local

/-- What the consumer asks the kernel for with its next statement. -/
def ConsumerPoint.call : ConsumerPoint → PcCall
  | .waitFull => .wait .full
  | .waitMutex => .wait .mutex
  | .postMutex => .post .mutex
  | .postEmpty => .post .empty
  | _ => .local

/-! ## Tokens -/

/-- The semaphore a thread waits for whose last statement was `sem_wait`. -/
def ProducerPoint.waitsFor : ProducerPoint → Option PcSem
  | .waitMutex => some .empty
  | .wrap => some .mutex
  | _ => none

/-- The semaphore the consumer waits for when its last statement was `sem_wait`. -/
def ConsumerPoint.waitsFor : ConsumerPoint → Option PcSem
  | .waitMutex => some .full
  | .wrap => some .mutex
  | _ => none

/-- The tokens of each semaphore that the producer has: it takes one of `empty` and turns it into an
item, and has one of `full` from then on. `w` says that it still waits. -/
def ProducerPoint.holds (w : Bool) : ProducerPoint → PcSem → ℤ
  | .waitMutex, .empty => if w then 0 else 1
  | .wrap, .mutex => if w then 0 else 1
  | .wrap, .empty | .store, .empty | .store, .mutex => 1
  | .next, .mutex | .next, .full | .postMutex, .mutex | .postMutex, .full | .postFull, .full => 1
  | _, _ => 0

/-- The tokens of each semaphore that the consumer has. -/
def ConsumerPoint.holds (w : Bool) : ConsumerPoint → PcSem → ℤ
  | .waitMutex, .full => if w then 0 else 1
  | .wrap, .mutex => if w then 0 else 1
  | .wrap, .full | .load, .full | .load, .mutex | .store, .full | .store, .mutex => 1
  | .next, .mutex | .next, .empty | .postMutex, .mutex | .postMutex, .empty
  | .postEmpty, .empty => 1
  | _, _ => 0

/-- All the tokens there are. -/
def Buffer.tokens (b : Buffer) : PcSem → ℤ
  | .mutex => 1
  | .empty => item_num - (b.produced - b.consumed)
  | .full => b.produced - b.consumed

/-- The thread has returned from `sem_wait(&mutex)`, and has not called `sem_post(&mutex)`. -/
def ProducerPoint.Inside (w : Bool) (a : ProducerPoint) : Prop := a.holds w .mutex = 1

/-- The consumer has `mutex`. -/
def ConsumerPoint.Inside (w : Bool) (a : ConsumerPoint) : Prop := a.holds w .mutex = 1

/-! ## Cursors -/

/-- What a thread has done with its cursor. -/
inductive Stage
  | unused
  | wrapped
  | used

/-- What the producer has done with its cursor. -/
def ProducerPoint.stage : ProducerPoint → Stage
  | .store => .wrapped
  | .next => .used
  | _ => .unused

/-- What the consumer has done with its cursor. -/
def ConsumerPoint.stage : ConsumerPoint → Stage
  | .load | .store => .wrapped
  | .next => .used
  | _ => .unused

/-- The cursor is where item `n` is, or, when `n` has been counted already, one behind. -/
def Cursor (pos : ℤ) (n : ℕ) : Stage → Prop
  | .unused => 0 ≤ pos ∧ pos ≤ item_num ∧ pos % item_num = n % item_num
  | .wrapped => 0 ≤ pos ∧ pos < item_num ∧ pos = n % item_num
  | .used => 0 ≤ pos ∧ pos < item_num ∧ (pos + 1) % item_num = n % item_num

section Cursor

variable {pos : ℤ} {n : ℕ}

theorem Cursor.wrap (h : Cursor pos n .unused) : Cursor (pos.tmod item_num) n .wrapped := by
  obtain ⟨hlo, hhi, heq⟩ := h
  rw [Int.tmod_eq_emod_of_nonneg hlo]
  simp only [Cursor, item_num] at *
  omega

theorem Cursor.use (h : Cursor pos n .wrapped) : Cursor pos (n + 1) .used := by
  simp only [Cursor, item_num] at *
  omega

theorem Cursor.next (h : Cursor pos n .used) : Cursor (int32 (pos + 1)) n .unused := by
  simp only [Cursor, item_num] at *
  rw [int32_eq (by omega) (by omega)]
  omega

end Cursor

/-! ## The invariant -/

/-- The slot of item `n`. -/
def slotOf (n : ℕ) : ℤ := n % item_num

/-- The slots from the one of the oldest item on: first those with an item, then the others. -/
def Window (items : ℤ → ℤ) (produced consumed : ℕ) : Prop :=
  ∀ n, consumed ≤ n → n < consumed + 10 → items (slotOf n) = if n < produced then 1 else 0

/-- The number of slots with an item. -/
def ones (items : ℤ → ℤ) : ℕ := refs (Finset.range 10) (fun n : ℕ => items n) 1

/-- The state of the threads and the buffer, with the tokens the semaphores have to give. -/
structure BufferInv (free : PcSem → ℤ) (pw cw : Bool) (b : Buffer) : Prop where
  free_nonneg : ∀ k, 0 ≤ free k
  tokens : ∀ k, free k + b.producer.holds pw k + b.consumer.holds cw k = b.tokens k
  inPos : Cursor b.inPos b.produced b.producer.stage
  outPos : Cursor b.outPos b.consumed b.consumer.stage
  load : b.consumer = .store → b.load = 1
  window : Window b.items b.produced b.consumed
  ones : (OsLab.ones b.items : ℤ) = b.produced - b.consumed

/-- **What the buffer is meant to be.** -/
structure BufferOk (pw cw : Bool) (b : Buffer) : Prop where
  exclusive : ¬(b.producer.Inside pw ∧ b.consumer.Inside cw)
  outside : ¬b.producer.Inside pw → ¬b.consumer.Inside cw →
    (∀ j, 0 ≤ j → j < item_num → b.items j = 0 ∨ b.items j = 1) ∧
      (OsLab.ones b.items : ℤ) = b.produced - b.consumed ∧
      0 ≤ (b.produced : ℤ) - b.consumed ∧ (b.produced : ℤ) - b.consumed ≤ item_num
  stores : b.producer = .store → 0 ≤ b.inPos ∧ b.inPos < item_num ∧ b.items b.inPos = 0
  decrements : b.consumer = .load ∨ b.consumer = .store →
    0 ≤ b.outPos ∧ b.outPos < item_num ∧ b.items b.outPos = 1 ∧
      (b.consumer = .store → b.load = 1)

section Inv

variable {free : PcSem → ℤ} {pw cw : Bool} {b : Buffer}

theorem ProducerPoint.holds_nonneg (w : Bool) (a : ProducerPoint) (k : PcSem) :
    0 ≤ a.holds w k := by
  cases a <;> cases k <;> cases w <;> decide

theorem ConsumerPoint.holds_nonneg (w : Bool) (a : ConsumerPoint) (k : PcSem) :
    0 ≤ a.holds w k := by
  cases a <;> cases k <;> cases w <;> decide

/-- How many items there are. -/
theorem BufferInv.count (h : BufferInv free pw cw b) :
    free .full + b.producer.holds pw .full + b.consumer.holds cw .full = b.produced - b.consumed ∧
      free .empty + b.producer.holds pw .empty + b.consumer.holds cw .empty =
        10 - (b.produced - b.consumed) :=
  ⟨h.tokens .full, h.tokens .empty⟩

theorem BufferInv.between (h : BufferInv free pw cw b) :
    b.consumed ≤ b.produced ∧ b.produced ≤ b.consumed + 10 := by
  obtain ⟨hfull, hempty⟩ := h.count
  have h₁ := h.free_nonneg .full
  have h₂ := h.free_nonneg .empty
  have h₃ := b.producer.holds_nonneg pw .full
  have h₄ := b.producer.holds_nonneg pw .empty
  have h₅ := b.consumer.holds_nonneg cw .full
  have h₆ := b.consumer.holds_nonneg cw .empty
  omega

/-- There is room when the producer stores. -/
theorem BufferInv.room (h : BufferInv free pw cw b) (hstore : b.producer = .store) :
    b.produced < b.consumed + 10 := by
  obtain ⟨-, hempty⟩ := h.count
  have h₂ := h.free_nonneg .empty
  have h₆ := b.consumer.holds_nonneg cw .empty
  rw [hstore] at hempty
  have hone : ProducerPoint.holds pw .store .empty = 1 := rfl
  omega

/-- There is an item when the consumer takes one. -/
theorem BufferInv.present (h : BufferInv free pw cw b)
    (htake : b.consumer = .load ∨ b.consumer = .store) : b.consumed < b.produced := by
  obtain ⟨hfull, -⟩ := h.count
  have h₁ := h.free_nonneg .full
  have h₃ := b.producer.holds_nonneg pw .full
  have hone : b.consumer.holds cw .full = 1 := by rcases htake with h | h <;> rw [h] <;> rfl
  omega

/-- The slot the producer stores into is free. -/
theorem BufferInv.slot_free (h : BufferInv free pw cw b) (hstore : b.producer = .store) :
    b.inPos = slotOf b.produced ∧ b.items b.inPos = 0 := by
  have hpos := h.inPos
  rw [hstore] at hpos
  have hroom := h.room hstore
  have hw := h.window b.produced h.between.1 hroom
  rw [if_neg (Nat.lt_irrefl _)] at hw
  obtain ⟨-, -, heq⟩ := hpos
  exact ⟨heq, by rw [heq]; exact hw⟩

/-- The slot the consumer takes an item from has one. -/
theorem BufferInv.slot_full (h : BufferInv free pw cw b)
    (htake : b.consumer = .load ∨ b.consumer = .store) :
    b.outPos = slotOf b.consumed ∧ b.items b.outPos = 1 := by
  have hpos := h.outPos
  have hstage : b.consumer.stage = .wrapped := by rcases htake with h | h <;> rw [h] <;> rfl
  rw [hstage] at hpos
  have hw := h.window b.consumed (Nat.le_refl _) (by omega)
  rw [if_pos (h.present htake)] at hw
  obtain ⟨-, -, heq⟩ := hpos
  exact ⟨heq, by rw [heq]; exact hw⟩

/-- **The invariant says what the buffer is meant to be.** -/
theorem BufferInv.safe (h : BufferInv free pw cw b) : BufferOk pw cw b := by
  refine ⟨fun ⟨hp, hc⟩ => ?_, fun _ _ => ⟨fun j hj hlt => ?_, h.ones, ?_⟩, fun hstore => ?_,
    fun htake => ?_⟩
  · have hmutex := h.tokens .mutex
    have hfree := h.free_nonneg .mutex
    rw [hp, hc] at hmutex
    simp only [Buffer.tokens] at hmutex
    omega
  · -- one of the ten slots from the oldest item on is slot `j`
    simp only [item_num] at hlt
    have hslot : slotOf (b.consumed + ((j - b.consumed) % 10).toNat) = j := by
      simp only [slotOf, item_num]
      omega
    have hw := h.window (b.consumed + ((j - b.consumed) % 10).toNat) (by omega) (by omega)
    rw [hslot] at hw
    rw [hw]
    split
    · exact .inr rfl
    · exact .inl rfl
  · have := h.between
    simp only [item_num]
    omega
  · have hpos := h.inPos
    rw [hstore] at hpos
    exact ⟨hpos.1, hpos.2.1, (h.slot_free hstore).2⟩
  · have hpos := h.outPos
    have hstage : b.consumer.stage = .wrapped := by rcases htake with h | h <;> rw [h] <;> rfl
    rw [hstage] at hpos
    exact ⟨hpos.1, hpos.2.1, (h.slot_full htake).2, h.load⟩

/-! ### Storing and taking out -/

theorem slotOf_bounds (n : ℕ) : 0 ≤ slotOf n ∧ slotOf n < 10 := by
  simp only [slotOf, item_num]
  omega

/-- Ten items in a row have different slots. -/
theorem slotOf_ne {m n : ℕ} (hne : m ≠ n) (h : m < n + 10) (h' : n < m + 10) :
    slotOf m ≠ slotOf n := by
  simp only [slotOf, item_num]
  omega

/-- Counting the items after an assignment. -/
theorem ones_update {items : ℤ → ℤ} (n : ℕ) (v : ℤ) :
    ones (Function.update items (slotOf n) v) + (if items (slotOf n) = 1 then 1 else 0) =
      ones items + (if v = 1 then 1 else 0) := by
  obtain ⟨hlo, hhi⟩ := slotOf_bounds n
  obtain ⟨m, hm⟩ := Int.eq_ofNat_of_zero_le hlo
  have hmem : m ∈ Finset.range 10 := by
    rw [Finset.mem_range]
    omega
  have hupdate : (fun i : ℕ => Function.update items (m : ℤ) v i) =
      Function.update (fun i : ℕ => items i) m v := by
    funext i
    simp [Function.update_apply]
  have hcount := refs_update (t := fun i : ℕ => items i) (a := v) (b := (1 : ℤ)) hmem
  rw [hm, ones, hupdate]
  exact hcount

theorem Window.store {items : ℤ → ℤ} {p c : ℕ} (h : Window items p c) (hlt : p < c + 10)
    (hle : c ≤ p) : Window (Function.update items (slotOf p) 1) (p + 1) c := by
  intro n hn hlt'
  rcases eq_or_ne n p with rfl | hne
  · rw [Function.update_self, if_pos (Nat.lt_succ_self n)]
  · rw [Function.update_of_ne (slotOf_ne hne (by omega) (by omega)), h n hn hlt']
    split <;> split <;> omega

theorem Window.take {items : ℤ → ℤ} {p c : ℕ} (h : Window items p c) (hle : p ≤ c + 10) :
    Window (Function.update items (slotOf c) 0) p (c + 1) := by
  intro n hn hlt'
  rcases eq_or_ne n (c + 10) with rfl | hne
  · -- the slot comes round again
    have hslot : slotOf (c + 10) = slotOf c := by
      simp only [slotOf, item_num]
      omega
    rw [hslot, Function.update_self, if_neg (by omega)]
  · rw [Function.update_of_ne (slotOf_ne (by omega) (by omega) (by omega)),
      h n (by omega) (by omega)]

end Inv

/-! ## The statements keep the invariant -/

/-- One token of a semaphore. -/
def one (k k' : PcSem) : ℤ := if k' = k then 1 else 0

section Calls

variable {free free' : PcSem → ℤ} {pw pw' cw cw' : Bool} {b : Buffer} {k : PcSem}

theorem update_one_apply (free : PcSem → ℤ) (k k' : PcSem) (v : ℤ) :
    Function.update free k (free k + v) k' = free k' + v * one k k' := by
  rw [Function.update_apply, one]
  split
  · next h => rw [h, mul_one]
  · rw [mul_zero, add_zero]

/-- The threads call the semaphores, and the buffer stays as it is. -/
theorem BufferInv.move (h : BufferInv free pw cw b) {a : ProducerPoint} {c : ConsumerPoint}
    (hfree : ∀ k, 0 ≤ free' k) (ha : a.stage = b.producer.stage) (hc : c.stage = b.consumer.stage)
    (hload : c = .store → b.consumer = .store)
    (htokens : ∀ k, free' k + a.holds pw' k + c.holds cw' k =
      free k + b.producer.holds pw k + b.consumer.holds cw k) :
    BufferInv free' pw' cw' { b with producer := a, consumer := c } := by
  refine ⟨hfree, fun k => ?_, ?_, ?_, fun hstore => h.load (hload hstore), h.window, h.ones⟩
  · have htok := h.tokens k
    rw [← htokens k] at htok
    exact htok
  · show Cursor b.inPos b.produced a.stage
    rw [ha]
    exact h.inPos
  · show Cursor b.outPos b.consumed c.stage
    rw [hc]
    exact h.outPos

/-- A thread that waits has what it waits for as soon as it is released. -/
theorem ProducerPoint.holds_release {a : ProducerPoint} (h : a.waitsFor = some k) (k' : PcSem) :
    a.holds false k' = a.holds true k' + one k k' := by
  cases a <;> simp only [ProducerPoint.waitsFor, Option.some.injEq, reduceCtorEq] at h <;>
    subst h <;>
    cases k' <;> rfl

theorem ConsumerPoint.holds_release {a : ConsumerPoint} (h : a.waitsFor = some k) (k' : PcSem) :
    a.holds false k' = a.holds true k' + one k k' := by
  cases a <;> simp only [ConsumerPoint.waitsFor, Option.some.injEq, reduceCtorEq] at h <;>
    subst h <;>
    cases k' <;> rfl

/-- **The producer calls `sem_wait`.** -/
theorem Buffer.producerStep_wait (h : b.producer.call = .wait k) :
    ∃ a, b.producerStep = { b with producer := a } ∧ a.stage = b.producer.stage ∧
      a.waitsFor = some k ∧ (∀ k', a.holds true k' = b.producer.holds false k') := by
  rw [Buffer.producerStep]
  cases hp : b.producer <;> rw [hp] at h <;>
    simp only [ProducerPoint.call, PcCall.wait.injEq, reduceCtorEq] at h <;> subst h
  all_goals exact ⟨_, rfl, rfl, rfl, fun k' => by cases k' <;> rfl⟩

/-- **The producer calls `sem_post`.** -/
theorem Buffer.producerStep_post (h : b.producer.call = .post k) :
    ∃ a, b.producerStep = { b with producer := a } ∧ a.stage = b.producer.stage ∧
      a.waitsFor = none ∧ (∀ k', a.holds false k' + one k k' = b.producer.holds false k') := by
  rw [Buffer.producerStep]
  cases hp : b.producer <;> rw [hp] at h <;>
    simp only [ProducerPoint.call, PcCall.post.injEq, reduceCtorEq] at h <;> subst h
  all_goals exact ⟨_, rfl, rfl, rfl, fun k' => by cases k' <;> rfl⟩

/-- **The consumer calls `sem_wait`.** -/
theorem Buffer.consumerStep_wait (h : b.consumer.call = .wait k) :
    ∃ a, b.consumerStep = { b with consumer := a } ∧ a.stage = b.consumer.stage ∧ a ≠ .store ∧
      a.waitsFor = some k ∧ (∀ k', a.holds true k' = b.consumer.holds false k') := by
  rw [Buffer.consumerStep]
  cases hp : b.consumer <;> rw [hp] at h <;>
    simp only [ConsumerPoint.call, PcCall.wait.injEq, reduceCtorEq] at h <;> subst h
  all_goals exact ⟨_, rfl, rfl, nofun, rfl, fun k' => by cases k' <;> rfl⟩

/-- **The consumer calls `sem_post`.** -/
theorem Buffer.consumerStep_post (h : b.consumer.call = .post k) :
    ∃ a, b.consumerStep = { b with consumer := a } ∧ a.stage = b.consumer.stage ∧ a ≠ .store ∧
      a.waitsFor = none ∧ (∀ k', a.holds false k' + one k k' = b.consumer.holds false k') := by
  rw [Buffer.consumerStep]
  cases hp : b.consumer <;> rw [hp] at h <;>
    simp only [ConsumerPoint.call, PcCall.post.injEq, reduceCtorEq] at h <;> subst h
  all_goals exact ⟨_, rfl, rfl, nofun, rfl, fun k' => by cases k' <;> rfl⟩

/-- What `sem_wait` takes it has. -/
theorem free_take (hfree : ∀ k, 0 ≤ free k) (hpos : 0 < free k) (k' : PcSem) :
    0 ≤ Function.update free k (free k - 1) k' := by
  rw [Function.update_apply]
  split
  · omega
  · exact hfree k'

theorem free_give (hfree : ∀ k, 0 ≤ free k) (k' : PcSem) :
    0 ≤ Function.update free k (free k + 1) k' := by
  rw [Function.update_apply]
  split
  · have := hfree k
    omega
  · exact hfree k'

/-- **A call of the producer.** It takes a token, waits, gives a token back, or passes it to the
consumer. -/
theorem BufferInv.producerCall (h : BufferInv free false cw b) :
    (∀ k, b.producer.call = .wait k →
      (0 < free k → BufferInv (Function.update free k (free k - 1)) false cw b.producerStep) ∧
        BufferInv free true cw b.producerStep) ∧
    ∀ k, b.producer.call = .post k →
      BufferInv (Function.update free k (free k + 1)) false cw b.producerStep ∧
        (cw = true → b.consumer.waitsFor = some k → BufferInv free false false b.producerStep) := by
  refine ⟨fun k hcall => ?_, fun k hcall => ?_⟩
  · obtain ⟨a, heq, hstage, hwaits, hholds⟩ := Buffer.producerStep_wait hcall
    rw [heq]
    refine ⟨fun hpos => h.move (free_take h.free_nonneg hpos) hstage rfl id fun k' => ?_,
      h.move h.free_nonneg hstage rfl id fun k' => ?_⟩
    · rw [sub_eq_add_neg, update_one_apply, ProducerPoint.holds_release hwaits, hholds]
      omega
    · rw [hholds]
  · obtain ⟨a, heq, hstage, -, hholds⟩ := Buffer.producerStep_post hcall
    rw [heq]
    refine ⟨h.move (free_give h.free_nonneg) hstage rfl id fun k' => ?_, fun hcw hwaits =>
      h.move h.free_nonneg hstage rfl id fun k' => ?_⟩
    · rw [update_one_apply, ← hholds k']
      omega
    · rw [hcw, ← hholds k', ConsumerPoint.holds_release hwaits]
      omega

/-- **A call of the consumer.** -/
theorem BufferInv.consumerCall (h : BufferInv free pw false b) :
    (∀ k, b.consumer.call = .wait k →
      (0 < free k → BufferInv (Function.update free k (free k - 1)) pw false b.consumerStep) ∧
        BufferInv free pw true b.consumerStep) ∧
    ∀ k, b.consumer.call = .post k →
      BufferInv (Function.update free k (free k + 1)) pw false b.consumerStep ∧
        (pw = true → b.producer.waitsFor = some k → BufferInv free false false b.consumerStep) := by
  refine ⟨fun k hcall => ?_, fun k hcall => ?_⟩
  · obtain ⟨a, heq, hstage, hload, hwaits, hholds⟩ := Buffer.consumerStep_wait hcall
    rw [heq]
    refine ⟨fun hpos => h.move (free_take h.free_nonneg hpos) rfl hstage (absurd · hload)
      fun k' => ?_, h.move h.free_nonneg rfl hstage (absurd · hload) fun k' => ?_⟩
    · rw [sub_eq_add_neg, update_one_apply, ConsumerPoint.holds_release hwaits, hholds]
      omega
    · rw [hholds]
  · obtain ⟨a, heq, hstage, hload, -, hholds⟩ := Buffer.consumerStep_post hcall
    rw [heq]
    refine ⟨h.move (free_give h.free_nonneg) rfl hstage (absurd · hload) fun k' => ?_,
      fun hpw hwaits => h.move h.free_nonneg rfl hstage (absurd · hload) fun k' => ?_⟩
    · rw [update_one_apply, ← hholds k']
      omega
    · rw [hpw, ← hholds k', ProducerPoint.holds_release hwaits]
      omega

/-- **A statement of the producer** that calls no semaphore. -/
theorem BufferInv.producerLocal (h : BufferInv free false cw b) (hcall : b.producer.call = .local) :
    BufferInv free false cw b.producerStep := by
  have hin := h.inPos
  rw [Buffer.producerStep]
  cases hp : b.producer <;> rw [hp] at hcall hin <;>
    simp only [ProducerPoint.call, reduceCtorEq] at hcall
  case wrap =>
    refine ⟨h.free_nonneg, fun k => ?_, hin.wrap, h.outPos, h.load, h.window, h.ones⟩
    have htok := h.tokens k
    rw [hp] at htok
    cases k <;> exact htok
  case store =>
    obtain ⟨hslot, hzero⟩ := h.slot_free hp
    have hcount := @ones_update b.items b.produced 1
    rw [← hslot, hzero] at hcount
    simp only [zero_ne_one, if_false, if_true, Nat.add_zero] at hcount
    refine ⟨h.free_nonneg, fun k => ?_, hin.use, h.outPos, h.load, ?_, ?_⟩
    · -- a token of `empty` has become one of `full`
      have htok := h.tokens k
      rw [hp] at htok
      cases k <;> simp only [ProducerPoint.holds, Buffer.tokens, item_num, Nat.cast_add,
        Nat.cast_one] at htok ⊢ <;> omega
    · simp only [hslot]
      exact h.window.store (h.room hp) h.between.1
    · have hones := h.ones
      simp only [hcount]
      push_cast
      omega
  case next =>
    refine ⟨h.free_nonneg, fun k => ?_, hin.next, h.outPos, h.load, h.window, h.ones⟩
    have htok := h.tokens k
    rw [hp] at htok
    cases k <;> exact htok

/-- **A statement of the consumer** that calls no semaphore. -/
theorem BufferInv.consumerLocal (h : BufferInv free pw false b) (hcall : b.consumer.call = .local) :
    BufferInv free pw false b.consumerStep := by
  have hout := h.outPos
  rw [Buffer.consumerStep]
  cases hp : b.consumer <;> rw [hp] at hcall hout <;>
    simp only [ConsumerPoint.call, reduceCtorEq] at hcall
  case wrap =>
    refine ⟨h.free_nonneg, fun k => ?_, h.inPos, hout.wrap, nofun, h.window, h.ones⟩
    have htok := h.tokens k
    rw [hp] at htok
    cases k <;> exact htok
  case load =>
    refine ⟨h.free_nonneg, fun k => ?_, h.inPos, hout, fun _ => (h.slot_full (.inl hp)).2, h.window,
      h.ones⟩
    have htok := h.tokens k
    rw [hp] at htok
    cases k <;> exact htok
  case store =>
    obtain ⟨hslot, hone⟩ := h.slot_full (.inr hp)
    have hsome := h.present (.inr hp)
    have hvalue : int32 (b.load - 1) = 0 := by rw [h.load hp]; decide
    have hcount := @ones_update b.items b.consumed 0
    rw [← hslot, hone] at hcount
    simp only [zero_ne_one, if_false, if_true, Nat.add_zero] at hcount
    refine ⟨h.free_nonneg, fun k => ?_, h.inPos, hout.use, nofun, ?_, ?_⟩
    · have htok := h.tokens k
      rw [hp] at htok
      cases k <;> simp only [ConsumerPoint.holds, Buffer.tokens, item_num, Nat.cast_add,
        Nat.cast_one] at htok ⊢ <;> omega
    · simp only [hslot, hvalue]
      exact h.window.take h.between.2
    · have hones := h.ones
      simp only [hvalue]
      push_cast
      omega
  case next =>
    refine ⟨h.free_nonneg, fun k => ?_, h.inPos, hout.next, nofun, h.window, h.ones⟩
    have htok := h.tokens k
    rw [hp] at htok
    cases k <;> exact htok

end Calls

end OsLab
