import EmotionStreamer.Preprocessor
import EmotionStreamer.Slices
import Mathlib.Data.Int.Basic

/-! The client's chunk queue: `init_queue`, the arithmetic on its counters and
`perform_queue_op`. Counters and byte offsets are 64-bit values, so products
wrap; a `memcpy` outside its buffer is a fault. The queue's mutex makes each
operation one step. -/
namespace EmotionStreamer.ChunkQueue
open Slices

structure Queue where
  playCursor : ℕ
  recvCursor : ℕ
  nOccupied : ℕ
  maxOccupied : ℕ
  chunkSize : ℕ
  totalSize : ℕ
  chunkBuff : List UInt8
  deriving DecidableEq, Repr

/-- `cfg_cache_almost_full_pct` and `cfg_cache_almost_empty_pct` -/
structure CachePct where
  almostFull : ℕ
  almostEmpty : ℕ

inductive Fault
  | chunkBuff (off len : ℕ)
  | buff (len : ℕ)
  deriving DecidableEq, Repr

/-- The buffer `malloc` returns has `total_size` bytes, which `memset` clears. -/
def initQueue (chunkSize maxOccupied : ℕ) : Queue :=
  let totalSize := maxOccupied * chunkSize % uint64Size
  ⟨0, 0, 0, maxOccupied, chunkSize, totalSize, List.replicate totalSize 0⟩

/-- `round((dnum1/dnum2)*100.0)`, as the exactly rounded percentage; of no capacity it is no number. -/
def roundPct (num1 num2 : ℕ) : ℕ := (200 * num1 + num2) / (2 * num2)

/-- The percentage is returned as a `uint32_t`. C leaves the conversion of no number, or of one
without room, undefined; on x86-64 it gives 0, or the low 32 bits. -/
def pctFracOfNums (num1 num2 : ℕ) : ℕ := roundPct num1 num2 % uint32Size

def Queue.isEmpty (que : Queue) : Bool := que.nOccupied = 0
def Queue.isFull (que : Queue) : Bool := que.nOccupied = que.maxOccupied

/-- The two comparisons convert the counters to 32 bits first. -/
def almostEmpty (cfg : CachePct) (nOccupied maxOccupied : ℕ) : Bool :=
  pctFracOfNums (nOccupied % uint32Size) (maxOccupied % uint32Size) ≤ cfg.almostEmpty
def almostFull (cfg : CachePct) (nOccupied maxOccupied : ℕ) : Bool :=
  cfg.almostFull ≤ pctFracOfNums (nOccupied % uint32Size) (maxOccupied % uint32Size)

def Queue.isAlmostEmpty (cfg : CachePct) (que : Queue) : Bool :=
  almostEmpty cfg que.nOccupied que.maxOccupied
def Queue.isAlmostFull (cfg : CachePct) (que : Queue) : Bool :=
  almostFull cfg que.nOccupied que.maxOccupied
def Queue.pctFull (que : Queue) : ℕ := roundPct que.nOccupied que.maxOccupied

def Queue.offset (que : Queue) (cursor : ℕ) : ℕ := cursor * que.chunkSize % uint64Size

def Queue.next (que : Queue) (cursor : ℕ) : ℕ := (cursor + 1) % uint64Size % que.maxOccupied

def dequeueChunk (que : Queue) (buff : List UInt8) :
    Except Fault (Queue × List UInt8 × Bool) :=
  if que.isEmpty then .ok (que, buff, que.isEmpty)
  else if que.chunkBuff.length < que.offset que.playCursor + que.chunkSize then
    .error (.chunkBuff (que.offset que.playCursor) que.chunkSize)
  else if buff.length < que.chunkSize then .error (.buff que.chunkSize)
  else
    let chunk := slice que.chunkBuff (que.offset que.playCursor) que.chunkSize
    let que := { que with
      playCursor := que.next que.playCursor
      nOccupied := que.nOccupied - 1 }
    .ok (que, splice buff 0 chunk, que.isEmpty)

def enqueueChunk (que : Queue) (buff : List UInt8) : Except Fault (Queue × Bool) :=
  if que.isFull then .ok (que, que.isFull)
  else if buff.length < que.chunkSize then .error (.buff que.chunkSize)
  else if que.chunkBuff.length < que.offset que.recvCursor + que.chunkSize then
    .error (.chunkBuff (que.offset que.recvCursor) que.chunkSize)
  else
    let chunk := slice buff 0 que.chunkSize
    let que := { que with
      chunkBuff := splice que.chunkBuff (que.offset que.recvCursor) chunk
      recvCursor := que.next que.recvCursor
      nOccupied := (que.nOccupied + 1) % uint64Size }
    .ok (que, que.isFull)

inductive QueueLookOp
  | isFull | isEmpty | isAlmostFull | isAlmostEmpty | getPct | na
  deriving DecidableEq, Repr

inductive QueueOp
  | readFrom | readTo | look (op : QueueLookOp) | na
  deriving DecidableEq, Repr

def flag (b : Bool) : ℤ := if b then 1 else 0

def lookOp (cfg : CachePct) (que : Queue) : QueueLookOp → ℤ
  | .isFull => flag que.isFull
  | .isEmpty => flag que.isEmpty
  | .isAlmostEmpty => flag (que.isAlmostEmpty cfg)
  | .isAlmostFull => flag (que.isAlmostFull cfg)
  | .getPct => que.pctFull
  | .na => -1

def performQueueOp (cfg : CachePct) (que : Queue) (buff : List UInt8) :
    QueueOp → Except Fault (Queue × List UInt8 × ℤ)
  | .look op => .ok (que, buff, lookOp cfg que op)
  | .readTo => do
    let (que, buff, empty) ← dequeueChunk que buff
    return (que, buff, flag empty)
  | .readFrom => do
    let (que, full) ← enqueueChunk que buff
    return (que, buff, flag full)
  | .na => .ok (que, buff, 0)

/-- Operations one after the other, each with the buffer it is called with. -/
def performAll (cfg : CachePct) :
    Queue → List (List UInt8 × QueueOp) → Except Fault (Queue × List (List UInt8 × ℤ))
  | que, [] => .ok (que, [])
  | que, (buff, op) :: calls => do
    let (que, buff, result) ← performQueueOp cfg que buff op
    let (que, results) ← performAll cfg que calls
    return (que, (buff, result) :: results)

end EmotionStreamer.ChunkQueue
