import EmotionStreamer.ChunkQueue
import EmotionStreamer.Loops
import EmotionStreamer.Circles

/-! The bar that `circular_q_visual_print` draws of a queue: a cell for the play
cursor, one for the receive cursor, and `=` signs between them. The positions are
64-bit values; a write outside the array is a fault. -/
namespace EmotionStreamer.QueueBar
open ChunkQueue Loops Circles Slices

inductive Fault
  | bar (off len : ℕ)
  deriving DecidableEq, Repr

/-- The array `bar`, and the indices written since it was cleared. -/
structure Bar where
  cells : List Char
  writes : List ℕ
  deriving DecidableEq, Repr

def Bar.put (bar : Bar) (i : ℕ) (c : Char) : Except Fault Bar :=
  if i < bar.cells.length then .ok ⟨bar.cells.set i c, bar.writes ++ [i]⟩
  else .error (.bar i 1)

/-- `memset(bar+off,c,len)` -/
def Bar.fill (bar : Bar) (off : ℕ) (c : Char) (len : ℕ) : Except Fault Bar :=
  if off + len ≤ bar.cells.length then
    .ok ⟨splice bar.cells off (List.replicate len c), bar.writes ++ List.range' off len⟩
  else .error (.bar off len)

def circularIntInc (size a : ℕ) : ℕ := (a + 1) % uint64Size % size

/-- The queue as it is drawn; `chunk_buff` is null where there was no memory for it. -/
structure ShownQueue extends Queue where
  displaySize : ℕ
  chunkBuffNull : Bool

/-- The cell that a number of chunks scales to, counted from 0. -/
def ShownQueue.scale (que : ShownQueue) (chunks : ℕ) : ℕ :=
  chunks * que.displaySize % uint64Size / que.maxOccupied

def ShownQueue.barPos (que : ShownQueue) (cursor : ℕ) : ℕ := (1 + que.scale cursor) % uint64Size

def ShownQueue.areTheyEqual (que : ShownQueue) : Bool :=
  que.barPos que.playCursor = que.barPos que.recvCursor

def ShownQueue.recvPos (que : ShownQueue) : ℕ := que.barPos que.recvCursor

def ShownQueue.playPos (que : ShownQueue) : ℕ :=
  if que.areTheyEqual then circularIntInc ((que.displaySize + 1) % uint64Size) que.recvPos
  else que.barPos que.playCursor

/-- The two arguments of `max` become an `int` each. -/
def ShownQueue.numToRender (que : ShownQueue) : ℕ :=
  let first := (que.scale que.nOccupied + (uint64Size - 1)) % uint64Size
  (max ((first : ℤ).bmod uint32Size) 0).toNat

/-- The variables of the rendering loop. -/
structure Render where
  bar : Bar
  i : ℕ
  numRendered : ℕ
  deriving DecidableEq, Repr

def ShownQueue.startRender (que : ShownQueue) : Except Fault Render := do
  let size := (que.displaySize + 1) % uint64Size
  let bar : Bar := ⟨List.replicate ((que.displaySize + 3) % uint64Size) '\x00', []⟩
  let bar ← bar.put 0 '['
  let bar ← bar.fill 1 ' ' que.displaySize
  let bar ← bar.put size ']'
  let bar ← bar.put que.playPos 'P'
  let bar ← bar.put que.recvPos 'R'
  return ⟨bar, circularIntInc size que.playPos, que.areTheyEqual.toNat⟩

/-- Position 0 is skipped: the counter goes down before it goes up again. -/
def Render.pass (size : ℕ) (s : Render) : Except Fault Render := do
  let s ←
    if s.i = 0 then .ok { s with numRendered := (s.numRendered + (uint64Size - 1)) % uint64Size }
    else do
      let bar ← s.bar.put s.i '='
      .ok { s with bar := bar }
  return { s with
    i := circularIntInc size s.i
    numRendered := (s.numRendered + 1) % uint64Size }

def renderBody (size numToRender : ℕ) : Except Fault Render → Option (Except Fault Render)
  | .error _ => none
  | .ok s => if s.numRendered < numToRender then some (s.pass size) else none

/-- What is printed: a message, or the bar below the name of the queue. -/
inductive Shown
  | message (text : String)
  | bar (bar : Bar)
  deriving DecidableEq, Repr

def ShownQueue.sizesNull (que : ShownQueue) : String :=
  "Queue com sizes null!\nSize total da queue: " ++ toString que.totalSize ++
    " bytes\nSize de chunk da queue: " ++ toString que.chunkSize ++
    " bytes\nNumero de chunks totais da queue: " ++ toString que.maxOccupied ++ " bytes\n"

/-- Nothing, if `fuel` passes of the loop are not enough. -/
def circularQVisualPrint (fuel : ℕ) : Option ShownQueue → Option (Except Fault Shown)
  | none => some (.ok (.message "Queue NULL\n"))
  | some que =>
    if que.chunkBuffNull then some (.ok (.message "Queue buff NULL na queue\n"))
    else if que.totalSize = 0 then some (.ok (.message que.sizesNull))
    else
      let size := (que.displaySize + 1) % uint64Size
      (loop (renderBody size que.numToRender) fuel que.startRender).map
        fun result => result.map fun s => .bar s.bar

/-- The states a queue can be in, with the cursors as far apart as the fill level says. -/
structure QueueState extends ShownQueue where
  maxOccupied_pos : 1 ≤ maxOccupied
  playCursor_lt : playCursor < maxOccupied
  recvCursor_lt : recvCursor < maxOccupied
  recvCursor_eq : recvCursor = (playCursor + nOccupied) % maxOccupied
  displaySize_pos : 1 ≤ displaySize
  maxOccupied_lt : maxOccupied < uint64Size
  nOccupied_lt : nOccupied < uint64Size
  displaySize_lt : displaySize < uint64Size

/-- Both brackets and both marks are in place; a single cell holds no `P`. -/
structure Legible (displaySize : ℕ) (bar : Bar) : Prop where
  writes : ∀ i ∈ bar.writes, i ≤ displaySize + 1
  left : bar.cells[0]? = some '['
  right : bar.cells[displaySize + 1]? = some ']'
  play : 2 ≤ displaySize → ∃! i : ℕ, bar.cells[i]? = some 'P'
  recv : ∃! i : ℕ, bar.cells[i]? = some 'R'

variable {d i q k m n : ℕ} {bar : Bar}

theorem bmod_le (v : ℕ) : ((v : ℤ) - 1).bmod uint32Size ≤ (v - 1 : ℕ) := by
  rw [Int.bmod_def]
  split <;> simp only [uint32Size] at * <;> omega

/-- The bar after `=` is written to several cells. -/
def Bar.drawn (bar : Bar) (places : List ℕ) : Bar :=
  ⟨places.foldl (fun cells j => cells.set j '=') bar.cells, bar.writes ++ places⟩

theorem Bar.drawn_cons (j : ℕ) (places : List ℕ) :
    bar.drawn (j :: places) = (bar.drawn [j]).drawn places := by
  simp [Bar.drawn]

theorem Bar.drawn_length (places : List ℕ) :
    (bar.drawn places).cells.length = bar.cells.length := by
  induction places generalizing bar with
  | nil => rfl
  | cons j places ih => rw [Bar.drawn_cons, ih]; simp [Bar.drawn]

theorem circularIntInc_eq (hlt : d + 3 < uint64Size) (hq : q ≤ d) :
    circularIntInc (d + 1) q = if q = d then 0 else q + 1 := by
  rw [circularIntInc, Nat.mod_eq_of_lt (show q + 1 < uint64Size by omega)]
  split
  · rename_i he
    rw [he, Nat.mod_self]
  · exact Nat.mod_eq_of_lt (by omega)

theorem pass_zero (hd : 0 < d) (hlt : d + 3 < uint64Size) (hm : m < uint64Size) :
    Render.pass (d + 1) ⟨bar, 0, m⟩ = .ok ⟨bar, 1, m⟩ := by
  have hback : ((m + (uint64Size - 1)) % uint64Size + 1) % uint64Size = m := by
    simp only [uint64Size] at hm ⊢
    omega
  have hinc : circularIntInc (d + 1) 0 = 1 := by
    rw [circularIntInc_eq hlt (Nat.zero_le d), if_neg (by omega)]
  simp [Render.pass, hback, hinc, bind, pure, Except.bind, Except.pure]

theorem pass_cell (hi : 1 ≤ i) (hlen : i < bar.cells.length) (hm : m + 1 < uint64Size) :
    Render.pass (d + 1) ⟨bar, i, m⟩ = .ok ⟨bar.drawn [i], circularIntInc (d + 1) i, m + 1⟩ := by
  simp [Render.pass, Bar.put, Bar.drawn, hlen, Nat.mod_eq_of_lt hm, show i ≠ 0 by omega, bind, pure,
    Except.bind, Except.pure]

theorem renderBody_pass {s : Render} (h : s.numRendered < n) :
    renderBody (d + 1) n (.ok s) = some (s.pass (d + 1)) := if_pos h

theorem renderBody_end {s : Render} (h : n ≤ s.numRendered) :
    renderBody (d + 1) n (.ok s) = none := if_neg (Nat.not_lt.mpr h)

/-- From a cell on, the loop draws the cells after it until the count is reached. -/
theorem render_reaches (bar : Bar) (m : ℕ) (hd : 0 < d) (hlt : d + 3 < uint64Size)
    (hn : n < uint64Size) (hq : q ≤ d) (hlen : bar.cells.length = d + 3) :
    ∃ i m', n ≤ m' ∧ Reaches (renderBody (d + 1) n) (.ok ⟨bar, circularIntInc (d + 1) q, m⟩)
      (.ok ⟨bar.drawn (walk d q (n - m)), i, m'⟩) := by
  induction hk : n - m generalizing q m bar with
  | zero => exact ⟨_, m, by omega, by simpa [walk, Bar.drawn] using .refl⟩
  | succ k ih =>
    have hnext := next_le (q := q) hd
    have hdraw : Reaches (renderBody (d + 1) n) (.ok ⟨bar, next d q, m⟩)
        (.ok ⟨bar.drawn [next d q], circularIntInc (d + 1) (next d q), m + 1⟩) := by
      refine .single ?_
      rw [renderBody_pass (show m < n by omega), pass_cell next_pos (by omega) (by omega)]
    have hreach : Reaches (renderBody (d + 1) n) (.ok ⟨bar, circularIntInc (d + 1) q, m⟩)
        (.ok ⟨bar, next d q, m⟩) := by
      rw [circularIntInc_eq hlt hq]
      split
      · rename_i he
        -- position 0 takes a pass of its own
        refine .single ?_
        rw [he, next_self, renderBody_pass (show m < n by omega), pass_zero hd hlt (by omega)]
      · rw [next_of_lt (by omega)]
        exact .refl
    obtain ⟨i, m', hm', hrest⟩ := ih (bar.drawn [next d q]) (m + 1) hnext
      (by rw [Bar.drawn_length, hlen]) (by omega)
    refine ⟨i, m', hm', (hreach.trans hdraw).trans ?_⟩
    rw [walk, Bar.drawn_cons (next d q) (walk d (next d q) k)]
    exact hrest

/-- The bar before any `=`, without its marks. -/
def blank (d : ℕ) : List Char :=
  (splice ((List.replicate (d + 3) '\x00').set 0 '[') 1 (List.replicate d ' ')).set (d + 1) ']'

def marked (d play recv : ℕ) : List Char := ((blank d).set play 'P').set recv 'R'

theorem spaces_fit (d : ℕ) : 1 + (List.replicate d ' ').length ≤
    ((List.replicate (d + 3) '\x00').set 0 '[').length := by
  simp only [List.length_replicate, List.length_set]
  omega

theorem blank_getElem? (d i : ℕ) :
    (blank d)[i]? =
      if i = 0 then some '[' else if i ≤ d then some ' ' else if i = d + 1 then some ']'
      else if i = d + 2 then some '\x00' else none := by
  rw [blank, List.getElem?_set, splice_length (spaces_fit d), splice_getElem? (spaces_fit d)]
  simp only [List.length_set, List.length_replicate, List.getElem?_set, List.getElem?_replicate]
  grind

theorem blank_length (d : ℕ) : (blank d).length = d + 3 := by
  rw [blank, List.length_set, splice_length (spaces_fit d), List.length_set, List.length_replicate]

variable {play recv : ℕ}

theorem marked_length (d play recv : ℕ) : (marked d play recv).length = d + 3 := by
  rw [marked, List.length_set, List.length_set, blank_length]

theorem drawn_getElem? (hd : 0 < d) (hplay : play ≤ d) (hrecv : recv ≤ d) (writes : List ℕ)
    (i : ℕ) :
    (Bar.drawn ⟨marked d play recv, writes⟩ (walk d play n)).cells[i]? =
      if i ∈ walk d play n then some '='
      else if i = recv then some 'R' else if i = play then some 'P' else (blank d)[i]? := by
  rw [Bar.drawn, foldl_set_getElem?]
  · refine if_congr Iff.rfl rfl ?_
    rw [marked, List.getElem?_set, List.length_set, blank_length, List.getElem?_set, blank_length]
    grind
  · intro j hj
    rw [marked_length]
    have := walk_range hd hj
    omega

/-- The marks stay when the signs end before the receive mark and none is on a bracket. -/
theorem legible_iff (hd : 1 ≤ d) (hplay : play ≤ d) (hrecv : 1 ≤ recv ∧ recv ≤ d)
    (hne : play ≠ recv) {writes : List ℕ} (hwrites : ∀ i ∈ writes, i ≤ d + 1) :
    Legible d (Bar.drawn ⟨marked d play recv, writes⟩ (walk d play n)) ↔
      play ≠ 0 ∧ n < way d play recv := by
  have hcells := drawn_getElem? (n := n) hd hplay hrecv.2 writes
  have hrange : ∀ i ∈ walk d play n, 1 ≤ i ∧ i ≤ d := fun i hi => walk_range hd hi
  have hmem : recv ∈ walk d play n ↔ way d play recv ≤ n := mem_walk hrecv hplay
  constructor
  · intro h
    constructor
    · rintro rfl
      have hleft := h.left
      rw [hcells, if_neg (fun hi => by have := hrange 0 hi; omega), if_neg hne, if_pos rfl] at hleft
      simp at hleft
    · obtain ⟨i, hi, -⟩ := h.recv
      simp only [hcells, blank_getElem?] at hi
      have hout : recv ∉ walk d play n := by grind
      rwa [hmem, Nat.not_le] at hout
  · rintro ⟨hplay0, hn⟩
    have hway : way d play recv < d := by grind [way]
    have hself : play ∉ walk d play n := by
      rw [mem_walk ⟨by omega, hplay⟩ hplay, way_self]
      omega
    have hout : recv ∉ walk d play n := by rwa [hmem, Nat.not_le]
    refine {
      writes := ?_
      left := ?_
      right := ?_
      play := fun _ => ⟨play, ?_, ?_⟩
      recv := ⟨recv, ?_, ?_⟩ }
    · intro i hi
      obtain hi | hi := List.mem_append.mp hi
      · exact hwrites i hi
      · have := hrange i hi
        omega
    · rw [hcells, blank_getElem?]
      grind
    · rw [hcells, blank_getElem?]
      grind
    · change _ = _
      rw [hcells, if_neg hself, if_neg hne, if_pos rfl]
    · intro i hi
      simp only [hcells, blank_getElem?] at hi
      grind
    · change _ = _
      rw [hcells, if_neg hout, if_pos rfl]
    · intro i hi
      simp only [hcells, blank_getElem?] at hi
      grind

/-- When the marks get cells of their own, and the cells that the chunks scale to fit between the
cursors, as they do for products below 2^64 and at most `max_occupied` chunks. -/
structure Drawable (que : ShownQueue) : Prop where
  display : que.displaySize + 3 < uint64Size
  apart : ¬(que.scale que.playCursor = que.displaySize - 1 ∧
    que.scale que.recvCursor = que.displaySize - 1)
  signs : uint64Size ≤ que.maxOccupied * que.displaySize ∨ que.maxOccupied < que.nOccupied →
    ((que.scale que.nOccupied : ℤ) - 1).bmod uint32Size <
      way que.displaySize (que.scale que.playCursor) (que.scale que.recvCursor)

variable {que : QueueState}

namespace QueueState

theorem scale_lt {chunks : ℕ} (h : chunks < que.maxOccupied) :
    que.scale chunks < que.displaySize := by
  have hd := que.displaySize_pos
  rw [ShownQueue.scale, Nat.div_lt_iff_lt_mul que.maxOccupied_pos, Nat.mul_comm que.displaySize]
  exact Nat.lt_of_le_of_lt (Nat.mod_le _ _) (Nat.mul_lt_mul_of_pos_right h hd)

theorem scale_eq (hprod : que.maxOccupied * que.displaySize < uint64Size) {chunks : ℕ}
    (h : chunks ≤ que.maxOccupied) :
    que.scale chunks = chunks * que.displaySize / que.maxOccupied := by
  rw [ShownQueue.scale, Nat.mod_eq_of_lt (Nat.lt_of_le_of_lt (Nat.mul_le_mul_right _ h) hprod)]

theorem barPos_eq {cursor : ℕ} (h : cursor < que.maxOccupied) :
    que.barPos cursor = 1 + que.scale cursor := by
  have hscale := scale_lt h
  have hlt := que.displaySize_lt
  rw [ShownQueue.barPos, Nat.mod_eq_of_lt (by omega)]

theorem recvPos_range (que : QueueState) : 1 ≤ que.recvPos ∧ que.recvPos ≤ que.displaySize := by
  have hscale := scale_lt que.recvCursor_lt
  rw [ShownQueue.recvPos, barPos_eq que.recvCursor_lt]
  omega

theorem areTheyEqual_iff :
    que.areTheyEqual = true ↔ que.scale que.playCursor = que.scale que.recvCursor := by
  rw [ShownQueue.areTheyEqual, decide_eq_true_iff, barPos_eq que.playCursor_lt,
    barPos_eq que.recvCursor_lt, Nat.add_left_cancel_iff]

theorem playPos_eq (hlt : que.displaySize + 3 < uint64Size) :
    que.playPos =
      if que.scale que.playCursor = que.scale que.recvCursor then
        if que.scale que.recvCursor = que.displaySize - 1 then 0 else que.scale que.recvCursor + 2
      else que.scale que.playCursor + 1 := by
  have hrecv := recvPos_range que
  have hscale := scale_lt que.recvCursor_lt
  rw [ShownQueue.playPos, barPos_eq que.playCursor_lt, Nat.mod_eq_of_lt (by omega),
    circularIntInc_eq hlt hrecv.2, ShownQueue.recvPos, barPos_eq que.recvCursor_lt]
  simp only [areTheyEqual_iff]
  grind

theorem playPos_le (hlt : que.displaySize + 3 < uint64Size) : que.playPos ≤ que.displaySize := by
  have hplay := scale_lt que.playCursor_lt
  have hrecv := scale_lt que.recvCursor_lt
  rw [playPos_eq hlt]
  grind

theorem playPos_ne_recvPos (hlt : que.displaySize + 3 < uint64Size) :
    que.playPos ≠ que.recvPos := by
  rw [playPos_eq hlt, ShownQueue.recvPos, barPos_eq que.recvCursor_lt]
  grind

theorem playPos_eq_zero_iff (hlt : que.displaySize + 3 < uint64Size) :
    que.playPos = 0 ↔ que.scale que.playCursor = que.displaySize - 1 ∧
      que.scale que.recvCursor = que.displaySize - 1 := by
  rw [playPos_eq hlt]
  grind

theorem scale_lt_uint64Size (que : QueueState) (chunks : ℕ) : que.scale chunks < uint64Size :=
  Nat.lt_of_le_of_lt (Nat.div_le_self _ _) (Nat.mod_lt _ (by decide))

theorem numToRender_eq (que : QueueState) : que.numToRender =
    (max (((que.scale que.nOccupied : ℤ) - 1).bmod uint32Size) 0).toNat := by
  have hscale := scale_lt_uint64Size que que.nOccupied
  obtain hzero | hpos := Nat.eq_zero_or_pos (que.scale que.nOccupied)
  · rw [ShownQueue.numToRender, hzero]
    decide
  · have hfirst : (que.scale que.nOccupied + (uint64Size - 1)) % uint64Size =
        que.scale que.nOccupied - 1 := by
      simp only [uint64Size] at hscale ⊢
      omega
    rw [ShownQueue.numToRender, hfirst, Int.natCast_sub hpos]
    rfl

theorem numToRender_le (que : QueueState) : que.numToRender ≤ que.scale que.nOccupied - 1 := by
  have hbmod := bmod_le (que.scale que.nOccupied)
  rw [numToRender_eq]
  omega

theorem numToRender_lt (que : QueueState) : que.numToRender < uint64Size := by
  have hscale := scale_lt_uint64Size que que.nOccupied
  have hle := numToRender_le que
  omega

/-- A cursor's cell is as far behind the other's as the chunks between them scale to, or
one more. -/
theorem scale_recvCursor (hprod : que.maxOccupied * que.displaySize < uint64Size)
    (hn : que.nOccupied ≤ que.maxOccupied) :
    ∃ lap more, (lap = 0 ∧ que.scale que.playCursor ≤ que.scale que.recvCursor ∨
        lap = que.displaySize ∧ que.scale que.recvCursor ≤ que.scale que.playCursor) ∧
      more ≤ 1 ∧ que.scale que.recvCursor + lap =
        que.scale que.playCursor + que.scale que.nOccupied + more := by
  have hplay := que.playCursor_lt
  have hM := que.maxOccupied_pos
  rw [scale_eq hprod (Nat.le_of_lt hplay), scale_eq hprod (Nat.le_of_lt que.recvCursor_lt),
    scale_eq hprod hn]
  have hsum : ∃ more, more ≤ 1 ∧ (que.playCursor + que.nOccupied) * que.displaySize /
      que.maxOccupied = que.playCursor * que.displaySize / que.maxOccupied +
        que.nOccupied * que.displaySize / que.maxOccupied + more := by
    rw [Nat.add_mul, Nat.add_div hM]
    split
    · exact ⟨1, Nat.le_refl 1, rfl⟩
    · exact ⟨0, Nat.zero_le 1, rfl⟩
  obtain ⟨more, hmore, hsum⟩ := hsum
  have hmono : ∀ {x y : ℕ}, x ≤ y →
      x * que.displaySize / que.maxOccupied ≤ y * que.displaySize / que.maxOccupied :=
    fun h => Nat.div_le_div_right (Nat.mul_le_mul_right _ h)
  by_cases hwrap : que.playCursor + que.nOccupied < que.maxOccupied
  · have hrecv : que.recvCursor = que.playCursor + que.nOccupied := by
      rw [que.recvCursor_eq, Nat.mod_eq_of_lt hwrap]
    refine ⟨0, more, .inl ⟨rfl, hmono (by omega)⟩, hmore, ?_⟩
    rw [hrecv, hsum, Nat.add_zero]
  · have hrecv : que.recvCursor + que.maxOccupied = que.playCursor + que.nOccupied := by
      rw [que.recvCursor_eq, Nat.mod_eq_sub_mod (by omega), Nat.mod_eq_of_lt (by omega)]
      omega
    refine ⟨que.displaySize, more, .inr ⟨rfl, hmono (by omega)⟩, hmore, ?_⟩
    rw [← hrecv, Nat.add_mul, Nat.add_mul_div_left _ _ hM] at hsum
    exact hsum

/-- The signs end before the receive mark when the scaled cells do. -/
theorem signs_lt_iff (hlt : que.displaySize + 3 < uint64Size) (hplay : que.playPos ≠ 0) :
    que.numToRender - que.areTheyEqual.toNat < way que.displaySize que.playPos que.recvPos ↔
      ((que.scale que.nOccupied : ℤ) - 1).bmod uint32Size <
        way que.displaySize (que.scale que.playCursor) (que.scale que.recvCursor) := by
  have ha := scale_lt que.playCursor_lt
  have hb := scale_lt que.recvCursor_lt
  have hrecv : que.recvPos = que.scale que.recvCursor + 1 := by
    rw [ShownQueue.recvPos, barPos_eq que.recvCursor_lt, Nat.add_comm]
  rw [Ne, playPos_eq_zero_iff hlt] at hplay
  by_cases heq : que.scale que.playCursor = que.scale que.recvCursor
  · -- the play mark stands one cell ahead, and one sign less is drawn
    have hpos : que.playPos = que.scale que.recvCursor + 2 := by
      rw [playPos_eq hlt, if_pos heq, if_neg (by omega)]
    rw [areTheyEqual_iff.mpr heq, heq, way_self, hpos, hrecv, way, if_neg (by omega),
      Bool.toNat_true, numToRender_eq]
    omega
  · have hpos : que.playPos = que.scale que.playCursor + 1 := by
      rw [playPos_eq hlt, if_neg heq]
    have hne : que.areTheyEqual = false := by rwa [← Bool.not_eq_true, areTheyEqual_iff]
    rw [hne, hpos, hrecv, way, way, Bool.toNat_false, numToRender_eq]
    split_ifs <;> omega

/-- Where no product wraps, the cells that the chunks scale to fit between the cursors. -/
theorem scaled_lt (hprod : que.maxOccupied * que.displaySize < uint64Size)
    (hn : que.nOccupied ≤ que.maxOccupied) :
    ((que.scale que.nOccupied : ℤ) - 1).bmod uint32Size <
      way que.displaySize (que.scale que.playCursor) (que.scale que.recvCursor) := by
  obtain ⟨lap, more, hlap, hmore, hscale⟩ := scale_recvCursor hprod hn
  have hbmod := bmod_le (que.scale que.nOccupied)
  have ha := scale_lt que.playCursor_lt
  have hb := scale_lt que.recvCursor_lt
  rw [way]
  split <;> omega

/-- The brackets, the spaces and the marks are put where the array has room for them. -/
theorem startRender_eq (hlt : que.displaySize + 3 < uint64Size) :
    ∃ writes : List ℕ, (∀ i ∈ writes, i ≤ que.displaySize + 1) ∧
      que.startRender = .ok ⟨⟨marked que.displaySize que.playPos que.recvPos, writes⟩,
        circularIntInc (que.displaySize + 1) que.playPos, que.areTheyEqual.toNat⟩ := by
  have hplay := playPos_le hlt
  have hrecv := recvPos_range que
  refine ⟨[0] ++ List.range' 1 que.displaySize ++ [que.displaySize + 1] ++ [que.playPos] ++
    [que.recvPos], ?_, ?_⟩
  · intro i hi
    simp only [List.mem_append, List.mem_singleton, List.mem_range'_1] at hi
    omega
  · simp only [ShownQueue.startRender, Bar.put, Bar.fill, Nat.mod_eq_of_lt hlt,
      Nat.mod_eq_of_lt (show que.displaySize + 1 < uint64Size by omega), bind, pure, Except.bind,
      Except.pure, List.length_replicate, List.length_set, splice_length (spaces_fit que.displaySize),
      show 0 < que.displaySize + 3 by omega, show 1 + que.displaySize ≤ que.displaySize + 3 by omega,
      show que.displaySize + 1 < que.displaySize + 3 by omega,
      show que.playPos < que.displaySize + 3 by omega,
      show que.recvPos < que.displaySize + 3 by omega, if_true, List.nil_append]
    rfl

/-- Without room for the terminator the size of the array wraps. -/
theorem startRender_error (hge : uint64Size ≤ que.displaySize + 3) :
    ∃ e, que.startRender = .error e := by
  have hlt := que.displaySize_lt
  have hlen : (que.displaySize + 3) % uint64Size = que.displaySize + 3 - uint64Size := by
    rw [Nat.mod_eq_sub_mod hge, Nat.mod_eq_of_lt (by simp only [uint64Size] at hlt ⊢; omega)]
  by_cases hfirst : 0 < que.displaySize + 3 - uint64Size
  · refine ⟨.bar 1 que.displaySize, ?_⟩
    have hfill : ¬1 + que.displaySize ≤ que.displaySize + 3 - uint64Size := by
      simp only [uint64Size] at hge ⊢
      omega
    simp [ShownQueue.startRender, Bar.put, Bar.fill, hlen, hfirst, hfill, bind, Except.bind]
  · exact ⟨.bar 0 1, by
      simp [ShownQueue.startRender, Bar.put, hlen, hfirst, bind, Except.bind]⟩

theorem print_eq (hnull : que.chunkBuffNull = false) (htotal : que.totalSize ≠ 0) (fuel : ℕ) :
    circularQVisualPrint fuel (some que.toShownQueue) =
      (loop (renderBody ((que.displaySize + 1) % uint64Size) que.numToRender) fuel
        que.startRender).map fun result => result.map fun s => .bar s.bar := by
  simp [circularQVisualPrint, hnull, htotal]

/-- The bar that is printed, where the size of the array does not wrap. -/
theorem print_bar (hnull : que.chunkBuffNull = false) (htotal : que.totalSize ≠ 0)
    (hlt : que.displaySize + 3 < uint64Size) :
    ∃ writes : List ℕ, (∀ i ∈ writes, i ≤ que.displaySize + 1) ∧ ∀ shown,
      (∃ fuel, circularQVisualPrint fuel (some que.toShownQueue) = some (.ok shown)) ↔
        shown = .bar (Bar.drawn ⟨marked que.displaySize que.playPos que.recvPos, writes⟩
          (walk que.displaySize que.playPos (que.numToRender - que.areTheyEqual.toNat))) := by
  obtain ⟨writes, hwrites, hstart⟩ := startRender_eq hlt
  obtain ⟨i, m, hm, hreach⟩ := render_reaches
    ⟨marked que.displaySize que.playPos que.recvPos, writes⟩ que.areTheyEqual.toNat
    que.displaySize_pos hlt (numToRender_lt que) (playPos_le hlt) (marked_length _ _ _)
  refine ⟨writes, hwrites, fun shown => ?_⟩
  have hsize := Nat.mod_eq_of_lt (show que.displaySize + 1 < uint64Size by omega)
  simp only [print_eq hnull htotal, hstart, hsize]
  constructor
  · rintro ⟨fuel, hprint⟩
    obtain ⟨result, hloop, hresult⟩ := Option.map_eq_some_iff.mp hprint
    obtain ⟨hreach', hend'⟩ := loop_eq_some_iff.mp ⟨fuel, hloop⟩
    rw [← hreach.unique (renderBody_end hm) hreach' hend'] at hresult
    exact (Except.ok.inj hresult).symm
  · rintro rfl
    obtain ⟨fuel, hloop⟩ := loop_eq_some_iff.mpr ⟨hreach, renderBody_end hm⟩
    exact ⟨fuel, by rw [hloop]; rfl⟩

theorem print_not_ok (hnull : que.chunkBuffNull = false) (htotal : que.totalSize ≠ 0)
    (hge : uint64Size ≤ que.displaySize + 3) (fuel : ℕ) (shown : Shown) :
    circularQVisualPrint fuel (some que.toShownQueue) ≠ some (.ok shown) := by
  obtain ⟨e, hstart⟩ := startRender_error hge
  rw [print_eq hnull htotal, hstart]
  cases fuel <;> simp [loop, renderBody, Except.map]

end QueueState

/-- The bar is drawn legibly exactly when its marks fit: with both cursors in the last cell
the `P` takes the place of the opening bracket. -/
theorem circularQVisualPrint_legible_iff (que : QueueState) :
    (∃ fuel shown, circularQVisualPrint fuel (some que.toShownQueue) = some (.ok shown) ∧
      ∀ bar, shown = .bar bar → Legible que.displaySize bar) ↔
      que.chunkBuffNull = true ∨ que.totalSize = 0 ∨ Drawable que.toShownQueue := by
  by_cases hnull : que.chunkBuffNull = true
  · simp [circularQVisualPrint, hnull]
  by_cases htotal : que.totalSize = 0
  · simp [circularQVisualPrint, hnull, htotal]
  rw [Bool.not_eq_true] at hnull
  simp only [hnull, htotal, Bool.false_eq_true, false_or]
  by_cases hlt : que.displaySize + 3 < uint64Size
  · obtain ⟨writes, hwrites, hprint⟩ := QueueState.print_bar hnull htotal hlt
    have hlegible := legible_iff (n := que.numToRender - que.areTheyEqual.toNat)
      que.displaySize_pos (QueueState.playPos_le hlt) (QueueState.recvPos_range que)
      (QueueState.playPos_ne_recvPos hlt) hwrites
    constructor
    · rintro ⟨fuel, shown, hrun, hall⟩
      obtain ⟨hplay, hsigns⟩ := hlegible.mp (hall _ ((hprint shown).mp ⟨fuel, hrun⟩))
      exact ⟨hlt, mt (QueueState.playPos_eq_zero_iff hlt).mpr hplay,
        fun _ => (QueueState.signs_lt_iff hlt hplay).mp hsigns⟩
    · intro h
      obtain ⟨fuel, hrun⟩ := (hprint _).mpr rfl
      refine ⟨fuel, _, hrun, ?_⟩
      rintro bar hbar
      rw [← Shown.bar.inj hbar]
      have hplay := mt (QueueState.playPos_eq_zero_iff hlt).mp h.apart
      refine hlegible.mpr ⟨hplay, (QueueState.signs_lt_iff hlt hplay).mpr ?_⟩
      by_cases hodd : uint64Size ≤ que.maxOccupied * que.displaySize ∨
          que.maxOccupied < que.nOccupied
      · exact h.signs hodd
      · exact QueueState.scaled_lt (by omega) (by omega)
  · constructor
    · rintro ⟨fuel, shown, hrun, -⟩
      exact absurd hrun (QueueState.print_not_ok hnull htotal (by omega) fuel shown)
    · intro h
      exact absurd h.display hlt

/-- An empty queue of two chunks with both cursors at the second, drawn in two cells. -/
def secondOfTwo : QueueState where
  playCursor := 1
  recvCursor := 1
  nOccupied := 0
  maxOccupied := 2
  chunkSize := 1
  totalSize := 2
  chunkBuff := [0, 0]
  displaySize := 2
  chunkBuffNull := false
  maxOccupied_pos := by decide
  playCursor_lt := by decide
  recvCursor_lt := by decide
  recvCursor_eq := by decide
  displaySize_pos := by decide
  maxOccupied_lt := by decide
  nOccupied_lt := by decide
  displaySize_lt := by decide

theorem secondOfTwo_bracket_lost :
    ¬∀ que : QueueState, ∃ fuel shown,
      circularQVisualPrint fuel (some que.toShownQueue) = some (.ok shown) ∧
        ∀ bar, shown = .bar bar → Legible que.displaySize bar := by
  intro h
  obtain ⟨fuel, shown, hrun, hall⟩ := h secondOfTwo
  cases fuel with
  | zero => cases hrun
  | succ fuel =>
    have hbar : circularQVisualPrint (fuel + 1) (some secondOfTwo.toShownQueue) =
        some (.ok (.bar ⟨['P', ' ', 'R', ']', '\x00'], [0, 1, 2, 3, 0, 2]⟩)) := rfl
    have hshown := Except.ok.inj (Option.some.inj (hrun.symm.trans hbar))
    have hleft := (hall _ hshown).left
    simp at hleft

end EmotionStreamer.QueueBar
