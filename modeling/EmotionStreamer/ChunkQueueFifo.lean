import EmotionStreamer.ChunkQueue
import EmotionStreamer.Fifo
import Mathlib.Tactic.Ring

/-! The chunk queue against the bounded list of chunks it stands for. Over every
sequence of operations the queue behaves as the list exactly when the product of
its two sizes fits in 64 bits. -/
namespace EmotionStreamer.ChunkQueue
open Slices Fifo

/-- One operation on the list: the list, the caller's buffer and the result. -/
def fifoOp (cfg : CachePct) (cap : ℕ) (items : List (List UInt8)) (buff : List UInt8) :
    QueueOp → List (List UInt8) × List UInt8 × ℤ
  | .readFrom =>
    let items := enqueue cap items buff
    (items, buff, flag (items.length = cap))
  | .readTo =>
    let (items, buff) := dequeue items buff
    (items, buff, flag items.isEmpty)
  | .look .isFull => (items, buff, flag (items.length = cap))
  | .look .isEmpty => (items, buff, flag items.isEmpty)
  | .look .isAlmostFull => (items, buff, flag
      (cfg.almostFull ≤ pctFracOfNums (items.length % uint32Size) (cap % uint32Size)))
  | .look .isAlmostEmpty => (items, buff, flag
      (pctFracOfNums (items.length % uint32Size) (cap % uint32Size) ≤ cfg.almostEmpty))
  | .look .getPct => (items, buff, roundPct items.length cap)
  | .look .na => (items, buff, -1)
  | .na => (items, buff, 0)

def fifoAll (cfg : CachePct) (cap : ℕ) : List (List UInt8) →
    List (List UInt8 × QueueOp) → List (List UInt8) × List (List UInt8 × ℤ)
  | items, [] => (items, [])
  | items, (buff, op) :: calls =>
    let (items, buff, result) := fifoOp cfg cap items buff op
    let (items, results) := fifoAll cfg cap items calls
    (items, (buff, result) :: results)

/-- The counters are those of the list, and the list fits. -/
structure Counts (que : Queue) (cap : ℕ) (items : List (List UInt8)) : Prop where
  maxOccupied : que.maxOccupied = cap
  nOccupied : que.nOccupied = items.length
  recvCursor : que.recvCursor = (que.playCursor + que.nOccupied) % cap
  bounded : items.length ≤ cap

/-- Besides, a full queue ignores insertions, an empty one ignores removals, and
looks change nothing. -/
structure Behaves (cfg : CachePct) (que : Queue) (cap : ℕ) (items : List (List UInt8)) : Prop
    extends Counts que cap items where
  full : items.length = cap → ∀ buff, performQueueOp cfg que buff .readFrom = .ok (que, buff, 1)
  empty : items = [] → ∀ buff, performQueueOp cfg que buff .readTo = .ok (que, buff, 1)
  look : ∀ buff op, performQueueOp cfg que buff (.look op) = .ok (que, buff, lookOp cfg que op)

def Queue.slot (que : Queue) (k : ℕ) : List UInt8 :=
  slice que.chunkBuff (k * que.chunkSize) que.chunkSize

/-- The queue's representation of the list, for a capacity in bytes that does not
wrap. -/
structure Represents (que : Queue) (cap size : ℕ) (items : List (List UInt8)) : Prop
    extends Counts que cap items where
  fits : cap * size < uint64Size
  pos : 0 < cap ∧ 0 < size
  chunkSize : que.chunkSize = size
  buffLength : que.chunkBuff.length = cap * size
  playCursor : que.playCursor < cap
  holds : Holds cap que.slot que.playCursor items

variable {cfg : CachePct} {que : Queue} {cap size : ℕ} {items : List (List UInt8)}
  {buff : List UInt8}

theorem slot_end_le {k cap : ℕ} (size : ℕ) (hk : k < cap) : k * size + size ≤ cap * size :=
  (Nat.succ_mul k size).symm ▸ Nat.mul_le_mul_right size hk

theorem Represents.offset_eq (h : Represents que cap size items) {k : ℕ} (hk : k < cap) :
    que.offset k = k * size := by
  have := slot_end_le size hk
  have := h.fits
  rw [Queue.offset, h.chunkSize, Nat.mod_eq_of_lt (by omega)]

theorem Represents.cap_lt (h : Represents que cap size items) : cap < uint64Size :=
  (Nat.le_mul_of_pos_right cap h.pos.2).trans_lt h.fits

theorem Represents.next_eq (h : Represents que cap size items) {k : ℕ} (hk : k < cap) :
    que.next k = (k + 1) % cap := by
  have := h.cap_lt
  rw [Queue.next, h.maxOccupied, Nat.mod_eq_of_lt (show k + 1 < uint64Size by omega)]

theorem Represents.recv_lt (h : Represents que cap size items) : que.recvCursor < cap := by
  rw [h.recvCursor]
  exact Nat.mod_lt _ h.pos.1

theorem Represents.isEmpty_eq (h : Represents que cap size items) :
    que.isEmpty = items.isEmpty := by
  rw [Queue.isEmpty, h.nOccupied]
  cases items <;> simp

theorem Represents.isFull_eq (h : Represents que cap size items) :
    que.isFull = decide (items.length = cap) := by
  rw [Queue.isFull, h.nOccupied, h.maxOccupied]

theorem initQueue_represents (hcap : 0 < cap) (hsize : 0 < size)
    (hfits : cap * size < uint64Size) : Represents (initQueue size cap) cap size [] where
  maxOccupied := rfl
  nOccupied := rfl
  recvCursor := (Nat.zero_mod cap).symm
  bounded := Nat.zero_le cap
  fits := hfits
  pos := ⟨hcap, hsize⟩
  chunkSize := rfl
  buffLength := by simp [initQueue, Nat.mod_eq_of_lt hfits]
  playCursor := hcap
  holds := holds_nil cap _ _

/-- The queue without its oldest chunk. -/
theorem Represents.removed {x : List UInt8} (h : Represents que cap size (x :: items)) :
    Represents { que with
      playCursor := que.next que.playCursor
      nOccupied := que.nOccupied - 1 } cap size items := by
  have hn := h.nOccupied
  have hle := h.bounded
  rw [List.length_cons] at hn hle
  exact {
    maxOccupied := h.maxOccupied
    nOccupied := by simp [hn]
    recvCursor := by
      simp only [h.recvCursor, h.next_eq h.playCursor, hn, Nat.add_sub_cancel,
        Nat.mod_add_mod]
      congr 1
      omega
    bounded := by omega
    fits := h.fits
    pos := h.pos
    chunkSize := h.chunkSize
    buffLength := h.buffLength
    playCursor := by
      simp only [h.next_eq h.playCursor]
      exact Nat.mod_lt _ h.pos.1
    holds := by
      simp only [h.next_eq h.playCursor]
      exact h.holds.dequeue.2 }

theorem dequeueChunk_spec (h : Represents que cap size items) (hb : buff.length = size) :
    ∃ que', dequeueChunk que buff =
        .ok (que', (dequeue items buff).2, (dequeue items buff).1.isEmpty) ∧
      Represents que' cap size (dequeue items buff).1 := by
  unfold dequeueChunk
  rw [h.isEmpty_eq]
  cases items with
  | nil => exact ⟨que, rfl, h⟩
  | cons x items =>
    have hslot : slice que.chunkBuff (que.playCursor * size) size = x := by
      have hx := h.holds.dequeue.1
      rw [Nat.mod_eq_of_lt h.playCursor, Queue.slot, h.chunkSize] at hx
      exact hx
    have hend := slot_end_le size h.playCursor
    have hlen : x.length = size := by
      rw [← hslot]
      exact slice_length (h.buffLength ▸ hend)
    refine ⟨_, ?_, h.removed⟩
    have hnocc : ¬que.chunkBuff.length < que.offset que.playCursor + que.chunkSize := by
      rw [h.buffLength, h.offset_eq h.playCursor, h.chunkSize]
      omega
    have hnbuf : ¬buff.length < que.chunkSize := by rw [hb, h.chunkSize]; omega
    rw [if_neg (by simp), if_neg hnocc, if_neg hnbuf]
    have hchunk : slice que.chunkBuff (que.offset que.playCursor) que.chunkSize = x := by
      rw [h.offset_eq h.playCursor, h.chunkSize, hslot]
    have hcopy : splice buff 0 x = x := by
      rw [splice_zero, hlen, ← hb, List.drop_length, List.append_nil]
    simp only [hchunk, hcopy, h.removed.isEmpty_eq]
    rfl

/-- The queue with one more chunk, which the slot behind the others holds. -/
theorem Represents.inserted (h : Represents que cap size items) (hb : buff.length = size)
    (hlt : items.length < cap) :
    Represents { que with
      chunkBuff := splice que.chunkBuff (que.recvCursor * size) buff
      recvCursor := que.next que.recvCursor
      nOccupied := (que.nOccupied + 1) % uint64Size } cap size (items ++ [buff]) := by
  have hcaplt := h.cap_lt
  have hwrite : que.recvCursor * size + buff.length ≤ que.chunkBuff.length := by
    rw [h.buffLength, hb]
    exact slot_end_le size h.recv_lt
  exact {
    maxOccupied := h.maxOccupied
    nOccupied := by
      simp only [h.nOccupied, List.length_append, List.length_singleton]
      exact Nat.mod_eq_of_lt (by omega)
    recvCursor := by
      simp only [h.next_eq h.recv_lt, h.nOccupied]
      rw [Nat.mod_eq_of_lt (show items.length + 1 < uint64Size by omega), h.recvCursor,
        h.nOccupied, Nat.mod_add_mod, Nat.add_assoc]
    bounded := by simp only [List.length_append, List.length_singleton]; omega
    fits := h.fits
    pos := h.pos
    chunkSize := h.chunkSize
    buffLength := by simp only [splice_length hwrite, h.buffLength]
    playCursor := h.playCursor
    holds := by
      have hr : (que.playCursor + items.length) % cap = que.recvCursor := by
        rw [h.recvCursor, h.nOccupied]
      refine h.holds.enqueue hlt ?_ fun k hk hne => ?_
      · simp only [Queue.slot, h.chunkSize, hr]
        rw [← hb] at hwrite ⊢
        exact slice_splice hwrite
      · rw [hr] at hne
        simp only [Queue.slot, h.chunkSize]
        refine slice_splice_of_disjoint _ _ hwrite ?_
        rw [hb]
        rcases Nat.lt_or_gt_of_ne hne with hlo | hhi
        · exact Or.inl (slot_end_le _ hlo)
        · exact Or.inr (slot_end_le _ hhi) }

theorem enqueueChunk_spec (h : Represents que cap size items) (hb : buff.length = size) :
    ∃ que', enqueueChunk que buff =
        .ok (que', decide ((enqueue cap items buff).length = cap)) ∧
      Represents que' cap size (enqueue cap items buff) := by
  unfold enqueueChunk
  rw [h.isFull_eq]
  by_cases hfull : items.length = cap
  · refine ⟨que, ?_, ?_⟩
    · simp [enqueue, hfull]
    · simpa [enqueue, hfull] using h
  · have hlt : items.length < cap := lt_of_le_of_ne h.bounded hfull
    have hend := slot_end_le size h.recv_lt
    have hrep := h.inserted hb hlt
    refine ⟨_, ?_, by rw [enqueue_of_lt hlt]; exact hrep⟩
    have hnocc : ¬que.chunkBuff.length < que.offset que.recvCursor + que.chunkSize := by
      rw [h.buffLength, h.offset_eq h.recv_lt, h.chunkSize]
      omega
    have hnbuf : ¬buff.length < que.chunkSize := by rw [hb, h.chunkSize]; omega
    have hchunk : slice buff 0 que.chunkSize = buff := by
      simp [slice, h.chunkSize, ← hb]
    rw [if_neg (by simp [hfull]), if_neg hnbuf, if_neg hnocc]
    simp only [h.offset_eq h.recv_lt, hchunk, hrep.isFull_eq, enqueue_of_lt hlt]

theorem Counts.behaves (cfg : CachePct) (h : Counts que cap items) :
    Behaves cfg que cap items where
  toCounts := h
  full hfull buff := by
    have hq : que.isFull = true := by simp [Queue.isFull, h.nOccupied, h.maxOccupied, hfull]
    simp only [performQueueOp, enqueueChunk, hq]
    rfl
  empty hnil buff := by
    have hq : que.isEmpty = true := by simp [Queue.isEmpty, h.nOccupied, hnil]
    simp only [performQueueOp, dequeueChunk, hq]
    rfl
  look _ _ := rfl

theorem performQueueOp_spec (cfg : CachePct) (h : Represents que cap size items) (hb : buff.length = size)
    (op : QueueOp) : ∃ que', performQueueOp cfg que buff op =
        .ok (que', (fifoOp cfg cap items buff op).2) ∧
      Represents que' cap size (fifoOp cfg cap items buff op).1 := by
  cases op with
  | readFrom =>
    obtain ⟨que', hrun, hrep⟩ := enqueueChunk_spec h hb
    exact ⟨que', by simp only [performQueueOp, hrun]; rfl, hrep⟩
  | readTo =>
    obtain ⟨que', hrun, hrep⟩ := dequeueChunk_spec h hb
    exact ⟨que', by simp only [performQueueOp, hrun]; rfl, hrep⟩
  | look op =>
    refine ⟨que, ?_, by cases op <;> exact h⟩
    cases op <;> simp [performQueueOp, lookOp, fifoOp, h.isFull_eq, h.isEmpty_eq,
      Queue.isAlmostFull, Queue.isAlmostEmpty, almostFull, almostEmpty, Queue.pctFull, h.nOccupied, h.maxOccupied]
  | na => exact ⟨que, rfl, h⟩

/-- Run lemma: the queue and the list stay related and give the same results. -/
theorem performAll_spec (cfg : CachePct) (calls : List (List UInt8 × QueueOp))
    (hcalls : ∀ c ∈ calls, c.1.length = size) (h : Represents que cap size items) :
    ∃ que', performAll cfg que calls = .ok (que', (fifoAll cfg cap items calls).2) ∧
      Represents que' cap size (fifoAll cfg cap items calls).1 := by
  induction calls generalizing que items with
  | nil => exact ⟨que, rfl, h⟩
  | cons c calls ih =>
    obtain ⟨que₁, hrun, hrep⟩ := performQueueOp_spec cfg h (hcalls c (by simp)) c.2
    obtain ⟨que₂, hrun', hrep'⟩ := ih (fun d hd => hcalls d (by simp [hd])) hrep
    refine ⟨que₂, ?_, hrep'⟩
    simp only [performAll, hrun]
    change (performAll cfg que₁ calls).bind _ = _
    rw [hrun']
    rfl

/-- A queue that has only been filled, with `n` chunks so far, and whose buffer
has the size that `init_queue` computed. -/
structure Filling (que : Queue) (cap size n : ℕ) : Prop where
  maxOccupied : que.maxOccupied = cap
  chunkSize : que.chunkSize = size
  nOccupied : que.nOccupied = n
  recvCursor : que.recvCursor = n
  buffLength : que.chunkBuff.length = cap * size % uint64Size

theorem Filling.fault {n : ℕ} (h : Filling que cap size n) (hb : buff.length = size)
    (hcap : n < cap) (hlast : n * size ≤ cap * size % uint64Size)
    (hout : cap * size % uint64Size < n * size + size) :
    enqueueChunk que buff = .error (.chunkBuff (n * size) size) := by
  have hlt : cap * size % uint64Size < uint64Size := Nat.mod_lt _ (by decide)
  have hoff : que.offset que.recvCursor = n * size := by
    rw [Queue.offset, h.recvCursor, h.chunkSize, Nat.mod_eq_of_lt (by omega)]
  have hfull : que.isFull = false := by
    simp [Queue.isFull, h.nOccupied, h.maxOccupied, hcap.ne]
  unfold enqueueChunk
  rw [hfull, hoff, h.buffLength, h.chunkSize, hb]
  simp [hout]

theorem Filling.next {n : ℕ} (h : Filling que cap size n) (hb : buff.length = size)
    (hcap : n + 1 < cap) (hwrap : cap < uint64Size)
    (hin : n * size + size ≤ cap * size % uint64Size) :
    ∃ que', enqueueChunk que buff = .ok (que', que'.isFull) ∧
      Filling que' cap size (n + 1) := by
  have hlt : cap * size % uint64Size < uint64Size := Nat.mod_lt _ (by decide)
  have hoff : que.offset que.recvCursor = n * size := by
    rw [Queue.offset, h.recvCursor, h.chunkSize]
    exact Nat.mod_eq_of_lt (by omega)
  have hfull : que.isFull = false := by
    simp only [Queue.isFull, h.nOccupied, h.maxOccupied, decide_eq_false_iff_not]
    omega
  have hchunk : slice buff 0 que.chunkSize = buff := by simp [slice, h.chunkSize, ← hb]
  have hwrite : n * size + buff.length ≤ que.chunkBuff.length := by rw [h.buffLength, hb]; exact hin
  have hnext : (n + 1) % uint64Size = n + 1 := Nat.mod_eq_of_lt (by omega)
  unfold enqueueChunk
  rw [if_neg (by simp [hfull]), if_neg (by rw [hb, h.chunkSize]; omega),
    if_neg (by rw [h.buffLength, hoff, h.chunkSize]; omega)]
  refine ⟨_, rfl, ?_⟩
  exact {
    maxOccupied := h.maxOccupied
    chunkSize := h.chunkSize
    nOccupied := by simp only [h.nOccupied, hnext]
    recvCursor := by
      simp only [Queue.next, h.recvCursor, h.maxOccupied, hnext]
      exact Nat.mod_eq_of_lt hcap
    buffLength := by simp only [hoff, hchunk, splice_length hwrite, h.buffLength] }

theorem Filling.run_fault (cfg : CachePct) (hb : buff.length = size) (hwrap : cap < uint64Size) (j : ℕ) :
    ∀ {que : Queue} {n : ℕ}, Filling que cap size n → n + j < cap →
      (n + j) * size ≤ cap * size % uint64Size →
      cap * size % uint64Size < (n + j) * size + size →
      ∃ f, performAll cfg que (List.replicate (j + 1) (buff, .readFrom)) = .error f := by
  induction j with
  | zero =>
    intro que n h hcap hlast hout
    refine ⟨.chunkBuff (n * size) size, ?_⟩
    simp only [List.replicate, performAll, performQueueOp, h.fault hb hcap hlast hout]
    rfl
  | succ j ih =>
    intro que n h hcap hlast hout
    have hin : n * size + size ≤ cap * size % uint64Size := by
      refine le_trans ?_ hlast
      rw [← Nat.succ_mul]
      exact Nat.mul_le_mul_right size (by omega)
    obtain ⟨que', hrun, h'⟩ := h.next hb (by omega) hwrap hin
    have hn : n + 1 + j = n + (j + 1) := by omega
    obtain ⟨f, hf⟩ := ih h' (by omega) (hn ▸ hlast) (hn ▸ hout)
    refine ⟨f, ?_⟩
    rw [List.replicate_succ]
    simp only [performAll, performQueueOp, hrun]
    change (performAll cfg que' _).bind _ = _
    rw [hf]
    rfl

theorem initQueue_filling (size cap : ℕ) : Filling (initQueue size cap) cap size 0 :=
  ⟨rfl, rfl, rfl, rfl, List.length_replicate⟩

theorem initQueue_fault (cfg : CachePct) (hcap : cap < uint64Size) (hsize : 0 < size)
    (hover : uint64Size ≤ cap * size) :
    ∃ n f, performAll cfg (initQueue size cap)
      (List.replicate n (List.replicate size 0, .readFrom)) = .error f := by
  set total := cap * size % uint64Size with htotal
  have hlt : total < cap * size := (Nat.mod_lt _ (by decide)).trans_le hover
  have hlast : total / size * size ≤ total := Nat.div_mul_le_self total size
  have hout : total < total / size * size + size := by
    have := Nat.lt_div_mul_add (a := total) hsize
    omega
  have hk : total / size < cap := Nat.lt_of_mul_lt_mul_right (hlast.trans_lt hlt)
  have hbuff : (List.replicate size (0 : UInt8)).length = size := List.length_replicate
  have h := (initQueue_filling size cap).run_fault cfg hbuff hcap (total / size)
  simp only [Nat.zero_add] at h
  exact ⟨_, h hk hlast hout⟩

/-- The queue behaves as the bounded list over all sequences of operations if and
only if its size in bytes does not wrap. -/
theorem queue_refines_fifo_iff (cfg : CachePct) (size cap : ℕ) (hsize : 0 < size)
    (hcap : 0 < cap) (hwidth : cap < uint64Size) :
    (∀ calls : List (List UInt8 × QueueOp), (∀ c ∈ calls, c.1.length = size) →
      ∃ que, performAll cfg (initQueue size cap) calls = .ok (que, (fifoAll cfg cap [] calls).2) ∧
        Behaves cfg que cap (fifoAll cfg cap [] calls).1) ↔ cap * size < uint64Size := by
  constructor
  · intro h
    by_contra hover
    obtain ⟨n, f, hf⟩ := initQueue_fault cfg hwidth hsize (Nat.not_lt.mp hover)
    obtain ⟨que, hrun, _⟩ := h (List.replicate n (List.replicate size 0, .readFrom)) fun c hc => by
      rw [List.eq_of_mem_replicate hc]
      exact List.length_replicate
    rw [hf] at hrun
    cases hrun
  · intro hfits calls hcalls
    obtain ⟨que, hrun, hrep⟩ := performAll_spec cfg calls hcalls
      (initQueue_represents hcap hsize hfits)
    exact ⟨que, hrun, hrep.toCounts.behaves cfg⟩

theorem queue_refines_fifo_iff_three : (∀ calls : List (List UInt8 × QueueOp),
    (∀ c ∈ calls, c.1.length = 2) → ∃ que, performAll ⟨80, 20⟩ (initQueue 2 3) calls =
        .ok (que, (fifoAll ⟨80, 20⟩ 3 [] calls).2) ∧
      Behaves ⟨80, 20⟩ que 3 (fifoAll ⟨80, 20⟩ 3 [] calls).1) ↔ 3 * 2 < uint64Size :=
  queue_refines_fifo_iff ⟨80, 20⟩ 2 3 (by decide) (by decide) (by decide)

/-- 2^49 chunks of 2^15 bytes: the product wraps to zero, and the first insertion
writes past an empty buffer. -/
theorem wrapped_queue_overruns : ¬ ∀ (cfg : CachePct) (size cap : ℕ), 0 < size → 0 < cap →
    size < uint64Size → cap < uint64Size → ∀ calls : List (List UInt8 × QueueOp),
    (∀ c ∈ calls, c.1.length = size) → ∃ que,
      performAll cfg (initQueue size cap) calls = .ok (que, (fifoAll cfg cap [] calls).2) ∧
        Behaves cfg que cap (fifoAll cfg cap [] calls).1 := by
  intro h
  obtain ⟨que, hrun, _⟩ := h ⟨80, 20⟩ 32768 562949953421312 (by decide) (by decide) (by decide)
    (by decide) [(List.replicate 32768 0, .readFrom)] fun c hc => by
      rw [List.mem_singleton.mp hc]
      exact List.length_replicate
  have hbuff : (List.replicate 32768 (0 : UInt8)).length = 32768 := List.length_replicate
  have hfault := (initQueue_filling 32768 562949953421312).fault hbuff (by decide) (by decide)
    (by decide)
  simp only [performAll, performQueueOp, hfault] at hrun
  cases hrun

end EmotionStreamer.ChunkQueue
