import EmotionStreamer.SockIo
import Mathlib.Data.List.Infix
import Mathlib.Order.Basic

/-! `readalltofd` and `downloadtofd`: the client copies what it receives to a
descriptor, until as many bytes are written as were announced. Every read asks for a
whole block, so a block may end behind the announced size. -/
namespace EmotionStreamer.Download
open SockIo

/-- The loop is running, is inside the calls of `write` for a block, or returned −1. -/
inductive Status
  | copying | storing | failed
  deriving DecidableEq, Repr

/-- One call of `readsome` and the results of the calls of `write` for its block. -/
structure Arrival where
  attempt : Attempt
  writes : List Outcome
  deriving DecidableEq, Repr

/-- `stream` is what was not received yet, `out` what was written, and `asked` the
numbers of bytes that were written when a read was made. -/
structure Progress where
  stream : List UInt8
  out : List UInt8
  total : ℕ
  len : ℤ
  errno : Errno
  status : Status
  asked : List ℕ
  deriving DecidableEq, Repr

def Progress.start (errno : Errno) (stream : List UInt8) : Progress :=
  ⟨stream, [], 0, 1, errno, .copying, []⟩

/-- The condition of the loop. -/
def Progress.Continues (size : ℤ) (s : Progress) : Prop :=
  s.status = .copying ∧ (s.len = -2 ∨ 0 < s.len) ∧ (s.total : ℤ) ≠ size

instance (size : ℤ) (s : Progress) : Decidable (s.Continues size) :=
  inferInstanceAs (Decidable (_ ∧ _ ∧ _))

/-- The calls of `write` in `readalltofd`, on what is left of the block. -/
def writeRest : List UInt8 → List Outcome → Progress → Progress
  | [], _, s => s
  | _ :: _, [], s => { s with status := .storing }
  | b :: rest, w :: ws, s =>
    let errno := w.errno.getD s.errno
    if 0 < w.ret then
      writeRest ((b :: rest).drop w.ret.toNat) ws { s with
        out := s.out ++ (b :: rest).take w.ret.toNat, total := s.total + w.ret.toNat, errno }
    else if errno = .again then writeRest (b :: rest) ws { s with errno }
    else { s with errno, status := .failed }

/-- The one call of `write` in `downloadtofd`; a negative result counts as 0. -/
def writeOnce : List UInt8 → List Outcome → Progress → Progress
  | _, [], s => { s with status := .storing }
  | buff, w :: _, s => { s with
      out := s.out ++ buff.take w.ret.toNat
      total := s.total + w.ret.toNat
      errno := w.errno.getD s.errno }

/-- A call of `readsome` or `readsome_ssl`, and what is done with a block it gave. -/
def receive (store : List UInt8 → List Outcome → Progress → Progress) (sock : Socket)
    (a : Arrival) (s : Progress) : Progress :=
  let o := sock.read a.attempt
  let s := { s with len := o.ret, errno := o.errno.getD s.errno, asked := s.asked ++ [s.out.length] }
  if 0 < o.ret then
    store (s.stream.take o.ret.toNat) a.writes { s with stream := s.stream.drop o.ret.toNat }
  else s

/-- The loop shared by the two functions. -/
def copyLoop (store : List UInt8 → List Outcome → Progress → Progress) (sock : Socket)
    (size : ℤ) : List Arrival → Progress → Progress
  | [], s => s
  | a :: as, s => if s.Continues size then copyLoop store sock size as (receive store sock a s) else s

/-- What a function returns, the state its loop ended in, and the block it sends back. -/
structure Report where
  ret : ℤ
  last : Progress
  reply : List UInt8
  deriving DecidableEq, Repr

/-- The treatment of a negative `len` behind both loops. -/
def endCode (s : Progress) : ℤ :=
  if s.len < 0 then
    if s.errno = .again then 0
    else if s.errno = .pipe then -2
    else if s.errno = .notConn then -2
    else 0
  else 0

/-- `none` while the function has not returned. -/
def readalltofd (sock : Socket) (size : ℤ) (errno : Errno) (arrivals : List Arrival)
    (stream : List UInt8) : Option Report :=
  let s := copyLoop writeRest sock size arrivals (.start errno stream)
  if s.Continues size ∨ s.status = .storing then none
  else if s.status = .failed then some ⟨-1, s, []⟩
  else some ⟨endCode s, s, []⟩

/-- It ends by sending a block of zeros, unless it returned −2 before. -/
def downloadtofd (sock : Socket) (size : ℤ) (errno : Errno) (arrivals : List Arrival)
    (stream : List UInt8) : Option Report :=
  let s := copyLoop writeOnce sock size arrivals (.start errno stream)
  if s.Continues size ∨ s.status = .storing then none
  else if endCode s = -2 then some ⟨-2, s, []⟩
  else some ⟨0, s, List.replicate defDatasize 0⟩

/-- The function returns, has written the first `size` bytes of the stream, and read
only while fewer were written. -/
def Exact (size : ℕ) (stream : List UInt8) (r : Option Report) : Prop :=
  ∃ report, r = some report ∧ report.last.out = stream.take size ∧
    ∀ n ∈ report.last.asked, n < size

/-- Calls of `write` that succeed, until a block of `n` bytes is written. -/
inductive Written : ℕ → List Outcome → Prop
  | done : Written 0 []
  | part {n : ℕ} {w : Outcome} {ws : List Outcome} (pos : 0 < w.ret) (le : w.ret ≤ n)
      (rest : Written (n - w.ret.toNat) ws) : Written n (w :: ws)

/-- Reads that time out or give a block, and local writes that succeed. -/
def Delivered (sock : Socket) (as : List Arrival) : Prop :=
  ∀ a ∈ as, (sock.read a.attempt).ret = -2 ∨
    0 < (sock.read a.attempt).ret ∧ (sock.read a.attempt).ret ≤ defDatasize ∧
      Written (sock.read a.attempt).ret.toNat a.writes

/-- The number of bytes that the reads give. -/
def received (sock : Socket) : List Arrival → ℕ
  | [] => 0
  | a :: as => (sock.read a.attempt).ret.toNat + received sock as

/-- How a stream of some length arrives; the last read finds its end. -/
structure Segmentation (sock : Socket) where
  arrivals : List Arrival
  last : Attempt
  delivered : Delivered sock arrivals
  ends : (sock.read last).ret ≤ 0 ∧ (sock.read last).ret ≠ -2

def Segmentation.all {sock : Socket} (g : Segmentation sock) : List Arrival :=
  g.arrivals ++ [⟨g.last, []⟩]

/-- The blocks of `readalltofd` and of `downloadtofd`: their lengths, and how many of
their bytes are written. -/
def blocks (took : ℕ → List Outcome → ℕ) (sock : Socket) : List Arrival → List (ℕ × ℕ)
  | [] => []
  | a :: as =>
    let n := (sock.read a.attempt).ret.toNat
    if 0 < n then (n, took n a.writes) :: blocks took sock as else blocks took sock as

def allOf (n : ℕ) (_ : List Outcome) : ℕ := n
def firstOf (_ : ℕ) : List Outcome → ℕ
  | [] => 0
  | w :: _ => w.ret.toNat

/-- Blocks are written whole until `size` bytes are written, and the write that
reaches `size` does not go beyond it. -/
def Meets : ℕ → List (ℕ × ℕ) → Prop
  | _, [] => True
  | size, (len, w) :: rest => size = 0 ∨ w = size ∨ w = len ∧ len ≤ size ∧ Meets (size - len) rest

variable {store : List UInt8 → List Outcome → Progress → Progress}
  {took : ℕ → List Outcome → ℕ} {sock : Socket} {size r : ℕ} {as : List Arrival} {s : Progress}
  {a : Arrival} {last : Attempt}

/-- On writes that succeed, `store` writes the first `took` bytes of the block. -/
def Stores (store : List UInt8 → List Outcome → Progress → Progress)
    (took : ℕ → List Outcome → ℕ) : Prop :=
  ∀ buff ws s, buff ≠ [] → Written buff.length ws →
    0 < took buff.length ws ∧ took buff.length ws ≤ buff.length ∧
      ∃ errno, store buff ws s = { s with
        out := s.out ++ buff.take (took buff.length ws)
        total := s.total + took buff.length ws
        errno }

theorem writeRest_eq {n : ℕ} {ws : List Outcome} (h : Written n ws) :
    ∀ (buff : List UInt8) (s : Progress), buff.length = n → ∃ errno, writeRest buff ws s =
      { s with out := s.out ++ buff, total := s.total + n, errno } := by
  induction h with
  | done =>
    intro buff s hlen
    obtain rfl := List.eq_nil_of_length_eq_zero hlen
    exact ⟨s.errno, by simp [writeRest]⟩
  | @part n w ws pos le rest ih =>
    intro buff s hlen
    cases buff with
    | nil =>
      simp only [List.length_nil] at hlen
      omega
    | cons b buff =>
      obtain ⟨e, he⟩ := ih ((b :: buff).drop w.ret.toNat) { s with
        out := s.out ++ (b :: buff).take w.ret.toNat, total := s.total + w.ret.toNat
        errno := w.errno.getD s.errno } (by rw [List.length_drop, hlen])
      refine ⟨e, ?_⟩
      rw [writeRest]
      simp only [pos, ↓reduceIte, he, List.append_assoc, List.take_append_drop]
      congr 1
      omega

theorem writeRest_stores : Stores writeRest allOf := by
  intro buff ws s hne h
  obtain ⟨e, he⟩ := writeRest_eq h buff s rfl
  refine ⟨List.length_pos_iff.mpr hne, le_rfl, e, ?_⟩
  rw [he, allOf, List.take_length]

theorem writeOnce_stores : Stores writeOnce firstOf := by
  intro buff ws s hne h
  have hpos := List.length_pos_iff.mpr hne
  generalize hn : buff.length = n at h
  cases h with
  | done => omega
  | @part _ w ws pos le rest =>
    refine ⟨?_, ?_, w.errno.getD s.errno, rfl⟩
    · simp only [firstOf]
      omega
    · simp only [firstOf]
      omega

/-- A state from which the loop may go on. -/
structure Ready (sock : Socket) (as : List Arrival) (s : Progress) : Prop where
  copying : s.status = .copying
  len : s.len = -2 ∨ 0 < s.len
  total : s.total = s.out.length
  stream : s.stream.length = received sock as

/-- The loop has ended, with `x` written since `s`, and with no read at `size` bytes. -/
structure Copied (size : ℕ) (s : Progress) (x : List UInt8) (t : Progress) : Prop where
  out : t.out = s.out ++ x
  copying : t.status = .copying
  ended : ¬t.Continues size
  asked : ∀ n ∈ t.asked, n ∈ s.asked ∨ n < size

theorem Ready.continues (h : Ready sock as s) (hne : s.out.length ≠ size) : s.Continues size :=
  ⟨h.copying, h.len, by rw [h.total]; exact_mod_cast hne⟩

variable (store) in
theorem copyLoop_stop (h : Ready sock as s) (heq : s.out.length = size) (bs : List Arrival) :
    copyLoop store sock size bs s = s ∧ Copied size s [] s := by
  have hstop : ¬s.Continues size := fun hc => hc.2.2 (by rw [h.total, heq])
  refine ⟨?_, by rw [List.append_nil], h.copying, hstop, fun n hn => Or.inl hn⟩
  cases bs with
  | nil => rfl
  | cons b bs => rw [copyLoop, if_neg hstop]

theorem copyLoop_last (hlast : (sock.read last).ret ≤ 0 ∧ (sock.read last).ret ≠ -2)
    (h : Ready sock [] s) (hlt : s.out.length < size) :
    Copied size s [] (copyLoop store sock size [⟨last, []⟩] s) := by
  rw [copyLoop, if_pos (h.continues hlt.ne), copyLoop, receive]
  simp only [Int.not_lt.mpr hlast.1, ↓reduceIte]
  refine ⟨by rw [List.append_nil], h.copying, ?_, ?_⟩
  · rintro ⟨-, hlen, -⟩
    have := hlast.2
    dsimp only at hlen
    omega
  · intro n hn
    rcases List.mem_append.mp hn with hn | hn
    · exact Or.inl hn
    · rw [List.mem_singleton.mp hn]
      exact Or.inr hlt

theorem receive_end (h : (sock.read a.attempt).ret ≤ 0) : (receive store sock a s).out = s.out := by
  simp only [receive, Int.not_lt.mpr h, ↓reduceIte]

variable (store) in
/-- A read that times out leaves the loop ready for the arrivals behind it. -/
theorem receive_timeout (hto : (sock.read a.attempt).ret = -2) (h : Ready sock (a :: as) s) :
    Ready sock as (receive store sock a s) ∧ (receive store sock a s).out = s.out ∧
      (receive store sock a s).stream = s.stream ∧
      (receive store sock a s).asked = s.asked ++ [s.out.length] := by
  rw [receive]
  simp only [hto, show ¬(0 : ℤ) < -2 by decide, ↓reduceIte, and_self, and_true]
  refine ⟨h.copying, Or.inl rfl, h.total, ?_⟩
  rw [h.stream, received, hto]
  exact Nat.zero_add _

/-- A read that gives a block of `n` bytes. -/
theorem receive_block {n : ℕ} (hst : Stores store took) (hn : (sock.read a.attempt).ret = n)
    (hpos : 0 < n) (hw : Written n a.writes) (h : Ready sock (a :: as) s) :
    0 < took n a.writes ∧ took n a.writes ≤ n ∧
      Ready sock as (receive store sock a s) ∧
      (receive store sock a s).out = s.out ++ s.stream.take (took n a.writes) ∧
      (receive store sock a s).stream = s.stream.drop n ∧
      (receive store sock a s).asked = s.asked ++ [s.out.length] := by
  have hlen : s.stream.length = n + received sock as := by
    rw [h.stream, received, hn, Int.toNat_natCast]
  have htake : (s.stream.take n).length = n := by
    rw [List.length_take]
    omega
  have hne : s.stream.take n ≠ [] := by
    rw [← List.length_pos_iff, htake]
    exact hpos
  obtain ⟨hpos', hle, e, he⟩ := hst (s.stream.take n) a.writes
    { s with len := n, errno := (sock.read a.attempt).errno.getD s.errno,
             asked := s.asked ++ [s.out.length], stream := s.stream.drop n }
    hne (by rwa [htake])
  rw [htake] at hpos' hle he
  rw [List.take_take, Nat.min_eq_left hle] at he
  have hrec : receive store sock a s = ⟨s.stream.drop n, s.out ++ s.stream.take (took n a.writes),
      s.total + took n a.writes, n, e, s.status, s.asked ++ [s.out.length]⟩ := by
    rw [receive]
    simp only [hn, Int.natCast_pos.mpr hpos, ↓reduceIte, Int.toNat_natCast]
    exact he
  rw [hrec]
  refine ⟨hpos', hle, ⟨h.copying, ?_, ?_, ?_⟩, rfl, rfl, rfl⟩
  · exact Or.inr (Int.natCast_pos.mpr hpos)
  · simp only [h.total, List.length_append, List.length_take]
    omega
  · simp only [List.length_drop]
    omega

/-- The read of a block when fewer than `size` bytes are written. -/
theorem Copied.cons {t : Progress} {x y : List UInt8} (h : Copied size (receive store sock a s) y t)
    (hout : (receive store sock a s).out = s.out ++ x)
    (hasked : (receive store sock a s).asked = s.asked ++ [s.out.length])
    (hlt : s.out.length < size) : Copied size s (x ++ y) t := by
  refine ⟨by rw [h.out, hout, List.append_assoc], h.copying, h.ended, fun n hn => ?_⟩
  rcases h.asked n hn with hn | hn
  · rw [hasked] at hn
    rcases List.mem_append.mp hn with hn | hn
    · exact Or.inl hn
    · rw [List.mem_singleton.mp hn]
      exact Or.inr hlt
  · exact Or.inr hn

theorem Delivered.tail (h : Delivered sock (a :: as)) : Delivered sock as :=
  fun b hb => h b (List.mem_cons_of_mem a hb)

/-- The first arrival times out, or gives a block that is written. -/
theorem Delivered.head (h : Delivered sock (a :: as)) : (sock.read a.attempt).ret = -2 ∨
    ∃ n : ℕ, (sock.read a.attempt).ret = n ∧ 0 < n ∧ Written n a.writes := by
  rcases h a List.mem_cons_self with hto | ⟨hpos, -, hw⟩
  · exact Or.inl hto
  · exact Or.inr ⟨(sock.read a.attempt).ret.toNat, by omega, by omega, hw⟩

theorem blocks_timeout (hto : (sock.read a.attempt).ret = -2) :
    blocks took sock (a :: as) = blocks took sock as := by
  rw [blocks, hto]
  rfl

theorem blocks_cons {n : ℕ} (hn : (sock.read a.attempt).ret = n) (hpos : 0 < n) :
    blocks took sock (a :: as) = (n, took n a.writes) :: blocks took sock as := by
  simp only [blocks, hn, Int.toNat_natCast, hpos, ↓reduceIte]

theorem copyLoop_cons {bs : List Arrival} (h : Ready sock (a :: as) s) (hne : s.out.length ≠ size) :
    copyLoop store sock size (a :: bs) s = copyLoop store sock size bs (receive store sock a s) := by
  rw [copyLoop, if_pos (h.continues hne)]

/-- Blocks that meet `size` are copied up to it. -/
theorem copyLoop_copied (hst : Stores store took)
    (hlast : (sock.read last).ret ≤ 0 ∧ (sock.read last).ret ≠ -2) (hd : Delivered sock as)
    (h : Ready sock as s) (hr : s.out.length + r = size) (hm : Meets r (blocks took sock as)) :
    Copied size s (s.stream.take r) (copyLoop store sock size (as ++ [⟨last, []⟩]) s) := by
  induction as generalizing s r with
  | nil =>
    by_cases heq : s.out.length = size
    · obtain ⟨hstop, hc⟩ := copyLoop_stop store h heq ([] ++ [⟨last, []⟩])
      rw [hstop, show r = 0 by omega]
      exact hc
    · rw [List.eq_nil_of_length_eq_zero h.stream, List.take_nil]
      exact copyLoop_last hlast h (by omega)
  | cons a as ih =>
    by_cases heq : s.out.length = size
    · obtain ⟨hstop, hc⟩ := copyLoop_stop store h heq (a :: as ++ [⟨last, []⟩])
      rw [hstop, show r = 0 by omega]
      exact hc
    · rw [List.cons_append, copyLoop_cons h heq]
      rcases hd.head with hto | ⟨n, hn, hpos, hw⟩
      · obtain ⟨hready, hout, hstream, hasked⟩ := receive_timeout store hto h
        rw [blocks_timeout hto] at hm
        have hc := ih hd.tail hready (by rw [hout]; exact hr) hm
        rw [hstream] at hc
        exact hc.cons (x := []) (by rw [hout, List.append_nil]) hasked (by omega)
      · obtain ⟨hpos', hle, hready, hout, hstream, hasked⟩ := receive_block hst hn hpos hw h
        have hlen : s.stream.length = n + received sock as := by
          rw [h.stream, received, hn, Int.toNat_natCast]
        have hlen' : (receive store sock a s).out.length = s.out.length + took n a.writes := by
          rw [hout, List.length_append, List.length_take]
          omega
        rw [blocks_cons hn hpos] at hm
        rcases hm with hzero | hw' | ⟨hw', hle', hrest⟩
        · omega
        · -- the write that reaches the size
          obtain ⟨hstop, hc⟩ := copyLoop_stop store hready (show _ = size by omega)
            (as ++ [⟨last, []⟩])
          rw [hstop, ← hw', ← List.append_nil (s.stream.take _)]
          exact hc.cons hout hasked (by omega)
        · have hc := ih hd.tail hready (r := r - n) (by omega) hrest
          rw [hstream] at hc
          have htake : s.stream.take r = s.stream.take n ++ (s.stream.drop n).take (r - n) := by
            rw [← List.take_add, Nat.add_sub_cancel' hle']
          rw [htake]
          exact hc.cons (by rw [hout, hw']) hasked (by omega)

variable (size) in
/-- Whatever the blocks are, only bytes of the stream are written. -/
theorem copyLoop_mem (hst : Stores store took)
    (hlast : (sock.read last).ret ≤ 0 ∧ (sock.read last).ret ≠ -2) (hd : Delivered sock as)
    (h : Ready sock as s) : ∃ x, (∀ b ∈ x, b ∈ s.stream) ∧
      (copyLoop store sock size (as ++ [⟨last, []⟩]) s).out = s.out ++ x := by
  induction as generalizing s with
  | nil =>
    refine ⟨[], by simp, ?_⟩
    rw [List.nil_append, copyLoop, List.append_nil]
    split_ifs
    · rw [copyLoop, receive_end hlast.1]
    · rfl
  | cons a as ih =>
    by_cases heq : s.out.length = size
    · exact ⟨[], by simp, by rw [(copyLoop_stop store h heq _).1, List.append_nil]⟩
    · rw [List.cons_append, copyLoop_cons h heq]
      rcases hd.head with hto | ⟨n, hn, hpos, hw⟩
      · obtain ⟨hready, hout, hstream, -⟩ := receive_timeout store hto h
        obtain ⟨x, hx, heq⟩ := ih hd.tail hready
        exact ⟨x, by rwa [hstream] at hx, by rw [heq, hout]⟩
      · obtain ⟨-, -, hready, hout, hstream, -⟩ := receive_block hst hn hpos hw h
        obtain ⟨x, hx, heq⟩ := ih hd.tail hready
        refine ⟨s.stream.take (took n a.writes) ++ x, fun b hb => ?_, ?_⟩
        · rcases List.mem_append.mp hb with hb | hb
          · exact List.mem_of_mem_take hb
          · exact List.mem_of_mem_drop (hstream ▸ hx b hb)
        · rw [heq, hout, List.append_assoc]

theorem meets_zero (bs : List (ℕ × ℕ)) : Meets 0 bs := by
  cases bs with
  | nil => exact trivial
  | cons b bs => exact Or.inl rfl

variable (size) in
/-- A block that is not written whole, or is written beyond `size`, spoils some stream. -/
theorem copyLoop_missed (hst : Stores store took)
    (hlast : (sock.read last).ret ≤ 0 ∧ (sock.read last).ret ≠ -2) (hd : Delivered sock as)
    (hm : ¬Meets r (blocks took sock as)) : ∃ stream : List UInt8,
      stream.length = received sock as ∧ ∀ s, Ready sock as s → s.stream = stream →
        s.out.length + r = size →
          (copyLoop store sock size (as ++ [⟨last, []⟩]) s).out ≠ s.out ++ stream.take r := by
  induction as generalizing r with
  | nil => exact absurd trivial hm
  | cons a as ih =>
    rcases hd.head with hto | ⟨n, hn, hpos, hw⟩
    · rw [blocks_timeout hto] at hm
      obtain ⟨stream, hlen, hmiss⟩ := ih hd.tail hm
      refine ⟨stream, by rw [received, hto, hlen]; exact (Nat.zero_add _).symm, ?_⟩
      intro s h hs hr
      have hne : s.out.length ≠ size := fun heq => hm ((show r = 0 by omega) ▸ meets_zero _)
      obtain ⟨hready, hout, hstream, -⟩ := receive_timeout store hto h
      rw [List.cons_append, copyLoop_cons h hne, ← hout]
      exact hmiss _ hready (hstream.trans hs) (by rw [hout]; exact hr)
    · rw [blocks_cons hn hpos] at hm
      simp only [Meets, not_or, not_and] at hm
      obtain ⟨hr0, hw', hrest⟩ := hm
      have hlen : ∀ rest : List UInt8, rest.length = received sock as →
          (List.replicate n 0 ++ rest).length = received sock (a :: as) := by
        intro rest hrest
        rw [List.length_append, List.length_replicate, hrest, received, hn, Int.toNat_natCast]
      by_cases hall : took n a.writes = n ∧ n ≤ r
      · obtain ⟨rest, hrlen, hmiss⟩ := ih hd.tail (hrest hall.1 hall.2)
        refine ⟨List.replicate n 0 ++ rest, hlen rest hrlen, fun s h hs hr => ?_⟩
        obtain ⟨-, -, hready, hout, hstream, -⟩ := receive_block hst hn hpos hw h
        have htake : (List.replicate n (0 : UInt8) ++ rest).take r =
            List.replicate n 0 ++ rest.take (r - n) := by
          rw [List.take_append, List.length_replicate, List.take_of_length_le (by simpa using hall.2)]
        rw [hs, hall.1, List.take_left' List.length_replicate] at hout
        rw [hs, List.drop_left' List.length_replicate] at hstream
        rw [List.cons_append, copyLoop_cons h (by omega), htake, ← List.append_assoc, ← hout]
        refine hmiss _ hready hstream ?_
        rw [hout, List.length_append, List.length_replicate]
        omega
      · -- the stream changes where the write of this block stopped
        refine ⟨List.replicate n 0 ++ List.replicate (received sock as) 1,
          hlen _ List.length_replicate, fun s h hs hr heq => ?_⟩
        obtain ⟨hpos', hle, hready, hout, hstream, -⟩ := receive_block hst hn hpos hw h
        rw [hs, List.drop_left' List.length_replicate] at hstream
        rw [hs, List.take_append_of_le_length (by simpa using hle), List.take_replicate,
          Nat.min_eq_left hle] at hout
        obtain ⟨x, hx, hfin⟩ := copyLoop_mem size hst hlast hd.tail hready
        rw [List.cons_append, copyLoop_cons h (by omega), hfin, hout, List.append_assoc,
          List.append_cancel_left_eq] at heq
        have hle' : took n a.writes ≤ r := by
          have hl := congrArg List.length heq
          simp only [List.length_append, List.length_replicate, List.length_take] at hl
          omega
        have hlt : took n a.writes < r ∧ took n a.writes < n := by omega
        have hget := congrArg (·[took n a.writes]?) heq
        simp only [List.getElem?_append_right (List.length_replicate).le, List.length_replicate,
          Nat.sub_self, List.getElem?_take_of_lt hlt.1, List.getElem?_append_left
            (show took n a.writes < (List.replicate n (0 : UInt8)).length by simpa using hlt.2),
          List.getElem?_replicate_of_lt hlt.2] at hget
        have hone := hx 0 (List.mem_of_getElem? hget)
        rw [hstream] at hone
        exact absurd (List.eq_of_mem_replicate hone) (by decide)

theorem start_ready {stream : List UInt8} (errno : Errno) (h : stream.length = received sock as) :
    Ready sock as (.start errno stream) := ⟨rfl, Or.inr (by simp [Progress.start]), rfl, h⟩

theorem readalltofd_last {size : ℤ} {errno : Errno} {stream : List UInt8} {report : Report}
    (h : readalltofd sock size errno as stream = some report) :
    report.last = copyLoop writeRest sock size as (.start errno stream) := by
  simp only [readalltofd] at h
  split_ifs at h <;> cases h <;> rfl

theorem downloadtofd_last {size : ℤ} {errno : Errno} {stream : List UInt8} {report : Report}
    (h : downloadtofd sock size errno as stream = some report) :
    report.last = copyLoop writeOnce sock size as (.start errno stream) := by
  simp only [downloadtofd] at h
  split_ifs at h <;> cases h <;> rfl

theorem readalltofd_copied {errno : Errno} {stream x : List UInt8}
    (h : Copied size (.start errno stream) x
      (copyLoop writeRest sock size as (.start errno stream))) :
    ∃ report, readalltofd sock size errno as stream = some report := by
  simp only [readalltofd]
  rw [if_neg, if_neg]
  · exact ⟨_, rfl⟩
  · rw [h.copying]
    exact Status.noConfusion
  · rintro (hc | hs)
    · exact h.ended hc
    · rw [h.copying] at hs
      exact Status.noConfusion hs

theorem downloadtofd_copied {errno : Errno} {stream x : List UInt8}
    (h : Copied size (.start errno stream) x
      (copyLoop writeOnce sock size as (.start errno stream))) :
    ∃ report, downloadtofd sock size errno as stream = some report := by
  simp only [downloadtofd]
  rw [if_neg]
  · split_ifs
    · exact ⟨_, rfl⟩
    · exact ⟨_, rfl⟩
  · rintro (hc | hs)
    · exact h.ended hc
    · rw [h.copying] at hs
      exact Status.noConfusion hs

/-- Blocks that are written whole reach beyond a size at which none of them ends. -/
theorem copyLoop_overruns (hst : Stores store allOf)
    (hlast : (sock.read last).ret ≤ 0 ∧ (sock.read last).ret ≠ -2) (hd : Delivered sock as)
    (h : Ready sock as s) (hr : s.out.length + r = size) (hm : ¬Meets r (blocks allOf sock as)) :
    size < (copyLoop store sock size (as ++ [⟨last, []⟩]) s).out.length := by
  induction as generalizing s r with
  | nil => exact absurd trivial hm
  | cons a as ih =>
    have hne : s.out.length ≠ size := fun heq => hm ((show r = 0 by omega) ▸ meets_zero _)
    rw [List.cons_append, copyLoop_cons h hne]
    rcases hd.head with hto | ⟨n, hn, hpos, hw⟩
    · obtain ⟨hready, hout, -, -⟩ := receive_timeout store hto h
      rw [blocks_timeout hto] at hm
      exact ih hd.tail hready (by rw [hout]; exact hr) hm
    · obtain ⟨-, -, hready, hout, -, -⟩ := receive_block hst hn hpos hw h
      have hlen : (receive store sock a s).out.length = s.out.length + n := by
        have hs := h.stream
        rw [received, hn, Int.toNat_natCast] at hs
        rw [hout, List.length_append, List.length_take, allOf]
        omega
      simp only [blocks_cons hn hpos, Meets, allOf, not_or, not_and] at hm
      by_cases hle : n ≤ r
      · exact ih hd.tail hready (r := r - n) (by omega) (hm.2.2 trivial hle)
      · obtain ⟨x, -, hfin⟩ := copyLoop_mem size hst hlast hd.tail hready
        rw [hfin, List.length_append, hlen]
        omega

theorem Copied.exact {errno : Errno} {stream : List UInt8} {t : Progress} {report : Report}
    {f : Option Report} (h : Copied size (.start errno stream) (stream.take size) t)
    (hf : f = some report) (hlast : report.last = t) : Exact size stream f := by
  refine ⟨report, hf, ?_, fun n hn => ?_⟩
  · rw [hlast, h.out]
    rfl
  · rw [hlast] at hn
    exact (h.asked n hn).resolve_left List.not_mem_nil

/-- A stream is copied exactly by `readalltofd`, and every stream of a segmentation by
`downloadtofd`, if and only if the blocks and the first writes of them meet the
announced size. -/
theorem download_exact_iff (sock : Socket) (size : ℕ) (errno : Errno) (g : Segmentation sock) :
    (∀ stream, stream.length = received sock g.arrivals →
      (Exact size stream (readalltofd sock size errno g.all stream) ↔
        Meets size (blocks allOf sock g.arrivals))) ∧
    ((∀ stream, stream.length = received sock g.arrivals →
        Exact size stream (downloadtofd sock size errno g.all stream)) ↔
      Meets size (blocks firstOf sock g.arrivals)) := by
  refine ⟨fun stream hlen => ⟨fun hex => ?_, fun hm => ?_⟩, fun hall => ?_, fun hm stream hlen => ?_⟩
  · by_contra hm
    have hover := copyLoop_overruns writeRest_stores g.ends g.delivered (start_ready errno hlen)
      (Nat.zero_add size) hm
    obtain ⟨report, hrep, hout, -⟩ := hex
    rw [← Segmentation.all, ← readalltofd_last hrep, hout] at hover
    exact absurd hover (Nat.not_lt.mpr (List.length_take_le size stream))
  · have hc := copyLoop_copied writeRest_stores g.ends g.delivered (start_ready errno hlen)
      (Nat.zero_add size) hm
    rw [← Segmentation.all] at hc
    obtain ⟨report, hrep⟩ := readalltofd_copied hc
    exact hc.exact hrep (readalltofd_last hrep)
  · by_contra hm
    obtain ⟨stream, hlen, hmiss⟩ :=
      copyLoop_missed size writeOnce_stores g.ends g.delivered hm
    obtain ⟨report, hrep, hout, -⟩ := hall stream hlen
    refine hmiss _ (start_ready errno hlen) rfl (Nat.zero_add _) ?_
    rw [← Segmentation.all, ← downloadtofd_last hrep, hout]
    rfl
  · have hc := copyLoop_copied writeOnce_stores g.ends g.delivered (start_ready errno hlen)
      (Nat.zero_add size) hm
    rw [← Segmentation.all] at hc
    obtain ⟨report, hrep⟩ := downloadtofd_copied hc
    exact hc.exact hrep (downloadtofd_last hrep)

/-- One byte is announced, and arrives with a byte of the message behind it. -/
theorem block_beyond_size : ¬ ∀ (sock : Socket) (size : ℕ) (errno : Errno) (g : Segmentation sock)
    (stream : List UInt8), stream.length = received sock g.arrivals →
      Exact size stream (readalltofd sock size errno g.all stream) ∧
        Exact size stream (downloadtofd sock size errno g.all stream) := by
  intro h
  have hg : Delivered ⟨3, false, none⟩ [⟨⟨.ready, .done 2, false⟩, [⟨2, none⟩]⟩] := by
    intro a ha
    rw [List.mem_singleton.mp ha]
    exact Or.inr ⟨by decide, by decide, .part (by decide) (by decide) .done⟩
  obtain ⟨⟨report, hrep, hout, -⟩, -⟩ :=
    h ⟨3, false, none⟩ 1 .none ⟨_, ⟨.ready, .done 0, false⟩, hg, by decide⟩ [7, 10] rfl
  rw [readalltofd_last hrep] at hout
  have hlen : [7, 10].length = 1 := congrArg List.length hout
  exact absurd hlen (by decide)

end EmotionStreamer.Download
