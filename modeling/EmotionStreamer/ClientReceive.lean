import EmotionStreamer.StreamerConst
import EmotionStreamer.Slices
import Mathlib.Data.Int.Basic
import Mathlib.Algebra.BigOperators.Group.List.Basic
import Mathlib.Data.List.Infix
import Mathlib.Tactic.Ring

/-! `read_chunk` and the reads of `rx_thread_func`: which bytes the client enqueues
for the bytes the network delivers, with the buffers that are reused from one read
to the next. -/
namespace EmotionStreamer.Client
open Slices

/-- `is_wav_compat_mode` or not. -/
inductive Mode
  | wav | mp3
  deriving DecidableEq, Repr

/-- The chunk size of a session, within what the server accepts for its own. -/
structure ChunkSize where
  val : ℕ
  val_le : val ≤ maxMp3StreamChunkBuffSize

/-- `decoder->d_chunk_size` -/
def ChunkSize.decoder (c : ChunkSize) : ℕ := chunkHeaderSize + c.val

def ChunkSize.queue (c : ChunkSize) : Mode → ℕ
  | .wav => c.val
  | .mp3 => c.decoder

/-- What one call of `readsome` or `readsome_ssl` returns and stores. -/
structure Delivery where
  ret : ℤ
  bytes : List UInt8
  length_bytes : bytes.length = ret.toNat

/-- `READ_RESULT_INVALID` -/
def readResultInvalid (a : ℤ) : Bool := a ≤ 0 ∧ a ≠ -2

theorem readResultInvalid_iff {a : ℤ} : readResultInvalid a = true ↔ a ≤ 0 ∧ a ≠ -2 := by
  simp [readResultInvalid]

/-- `is_first_player_chunk` and the buffers that reads go to: `h_chunk`, the
`r_chunk` that player and decoder share, and `read_tcp_chk`. -/
structure Buffers where
  first : Bool
  hChunk : List UInt8
  rChunk : List UInt8
  readTcpChk : List UInt8

def Buffers.init (mode : Mode) (c : ChunkSize) : Buffers where
  first := mode = .wav
  hChunk := List.replicate (match mode with | .wav => c.val | .mp3 => 1) 0
  rChunk := List.replicate c.decoder 0
  readTcpChk := List.replicate mp3StreamChunkSize 0

def Buffers.asked (mode : Mode) (c : ChunkSize) (b : Buffers) : ℕ :=
  if b.first then c.val else c.queue mode

/-- The read itself and the copy out of `read_tcp_chk` after it. -/
def Buffers.fill (mode : Mode) (c : ChunkSize) (b : Buffers) (d : Delivery) : Buffers :=
  if b.first then { b with hChunk := splice b.hChunk 0 d.bytes }
  else match mode with
    | .wav => { b with rChunk := splice b.rChunk 0 d.bytes }
    | .mp3 =>
      let readTcpChk := splice b.readTcpChk 0 d.bytes
      { b with
        readTcpChk
        rChunk := splice b.rChunk 0 (readTcpChk.take c.decoder) }

def Buffers.chunk (mode : Mode) (c : ChunkSize) (b : Buffers) : List UInt8 :=
  b.rChunk.take (c.queue mode)

/-- The buffers and the chunk enqueued, if any. The first chunk of a WAV stream
only initialises the player's library. -/
def readChunk (mode : Mode) (c : ChunkSize) (b : Buffers) (d : Delivery) :
    Buffers × Option (List UInt8) :=
  let b' := b.fill mode c d
  if d.ret < 0 then (b', none)
  else if b.first then ({ b' with first := false }, none)
  else (b', some (b'.chunk mode c))

/-- The chunks enqueued by the reads of `rx_thread_func`, which stop at an invalid
result, and the bytes these reads delivered. -/
def receive (mode : Mode) (c : ChunkSize) : Buffers → List Delivery → List UInt8 × List UInt8
  | _, [] => ([], [])
  | b, d :: ds =>
    let (b', chunk) := readChunk mode c b d
    if readResultInvalid d.ret then (chunk.getD [], d.bytes)
    else
      let (enqueued, delivered) := receive mode c b' ds
      (chunk.getD [] ++ enqueued, d.bytes ++ delivered)

def wavHeaderSize : ℕ := 44

def wanted (mode : Mode) (delivered : List UInt8) : List UInt8 :=
  match mode with
  | .wav => delivered.drop wavHeaderSize
  | .mp3 => delivered

def counts : List ℤ → List ℤ
  | [] => []
  | r :: rs =>
    let here := if 0 ≤ r then [r] else []
    if readResultInvalid r then here else here ++ counts rs

/-- Results that the reads can give: at most the size asked, −1 or −2. -/
def Possible (mode : Mode) (c : ChunkSize) : (first : Bool) → List ℤ → Prop
  | _, [] => True
  | first, r :: rs => -2 ≤ r ∧ r ≤ (if first then c.val else c.queue mode) ∧
      Possible mode c (first && decide (r < 0)) rs

/-- The counts for which nothing is lost, made up or repeated: full chunks, after a
WAV header that is read alone. -/
def FullReads (mode : Mode) (c : ChunkSize) (ns : List ℤ) : Prop :=
  match mode, ns with
  | .mp3, ns => ∀ n ∈ ns, n = c.decoder
  | .wav, [] => True
  | .wav, [n] => n ≤ wavHeaderSize
  | .wav, n :: ns => n = wavHeaderSize ∧ ∀ k ∈ ns, k = c.val

variable {mode : Mode} {c : ChunkSize} {b : Buffers} {d : Delivery} {ds : List Delivery}

structure Sized (c : ChunkSize) (b : Buffers) : Prop where
  rChunk : b.rChunk.length = c.decoder
  readTcpChk : b.readTcpChk.length = mp3StreamChunkSize

/-- The bytes that the next chunk keeps where the read does not reach. -/
def Buffers.stale (mode : Mode) (c : ChunkSize) (b : Buffers) : List UInt8 :=
  match mode with
  | .wav => b.rChunk.take c.val
  | .mp3 => b.readTcpChk.take c.decoder

theorem init_sized (mode : Mode) (c : ChunkSize) : Sized c (.init mode c) :=
  ⟨List.length_replicate, List.length_replicate⟩

theorem decoder_le (c : ChunkSize) : c.decoder ≤ mp3StreamChunkSize := by
  have := c.val_le
  simp only [ChunkSize.decoder, mp3StreamChunkSize]
  omega

theorem Sized.stale_length (h : Sized c b) : (b.stale mode c).length = c.queue mode := by
  cases mode with
  | wav =>
    simp only [Buffers.stale, ChunkSize.queue, List.length_take, h.rChunk, ChunkSize.decoder]
    omega
  | mp3 =>
    simp only [Buffers.stale, ChunkSize.queue, List.length_take, h.readTcpChk]
    exact Nat.min_eq_left (decoder_le c)

theorem take_splice_zero {buf xs : List UInt8} {n : ℕ} (h : xs.length ≤ n) :
    (splice buf 0 xs).take n = xs ++ (buf.take n).drop xs.length := by
  rw [splice_zero, List.take_append, List.take_of_length_le h, List.drop_take]

/-- A later read leaves a chunk of its bytes and the stale ones after them. -/
theorem fill_later (hs : Sized c b) (hb : b.first = false)
    (hn : d.bytes.length ≤ c.queue mode) :
    (b.fill mode c d).first = false ∧ Sized c (b.fill mode c d) ∧
      (b.fill mode c d).chunk mode c = d.bytes ++ (b.stale mode c).drop d.bytes.length ∧
      (b.fill mode c d).stale mode c = d.bytes ++ (b.stale mode c).drop d.bytes.length := by
  have hle := decoder_le c
  cases mode with
  | wav =>
    simp only [ChunkSize.queue] at hn
    have hlen : 0 + d.bytes.length ≤ b.rChunk.length := by
      rw [hs.rChunk, ChunkSize.decoder]
      omega
    simp only [Buffers.fill, hb, Bool.false_eq_true, ↓reduceIte]
    exact ⟨trivial, ⟨(splice_length hlen).trans hs.rChunk, hs.readTcpChk⟩,
      take_splice_zero hn, take_splice_zero hn⟩
  | mp3 =>
    simp only [ChunkSize.queue] at hn
    have hlen : 0 + d.bytes.length ≤ b.readTcpChk.length := by rw [hs.readTcpChk]; omega
    have htcp := splice_length hlen
    have hcopy : ((splice b.readTcpChk 0 d.bytes).take c.decoder).length = c.decoder := by
      rw [List.length_take, htcp, hs.readTcpChk, Nat.min_eq_left hle]
    have hlen' : 0 + ((splice b.readTcpChk 0 d.bytes).take c.decoder).length ≤
        b.rChunk.length := by
      rw [hcopy, hs.rChunk]
      omega
    simp only [Buffers.fill, hb, Bool.false_eq_true, ↓reduceIte]
    refine ⟨trivial, ⟨(splice_length hlen').trans hs.rChunk, htcp.trans hs.readTcpChk⟩, ?_,
      take_splice_zero hn⟩
    simp only [Buffers.chunk, ChunkSize.queue, Buffers.stale]
    rw [take_splice_zero hcopy.le, hcopy, List.drop_of_length_le (by simp), List.append_nil,
      take_splice_zero hn]

theorem fill_first_nil (hb : b.first = true) (hd : d.bytes = []) : b.fill mode c d = b := by
  obtain ⟨first, hChunk, rChunk, readTcpChk⟩ := b
  simp only at hb
  simp only [Buffers.fill, hb, ↓reduceIte, hd, splice_zero, List.nil_append, List.length_nil,
    List.drop_zero]

theorem bytes_of_neg (h : d.ret < 0) : d.bytes = [] :=
  List.length_eq_zero_iff.mp (d.length_bytes.trans (by omega))

theorem receive_none (h : counts (ds.map Delivery.ret) = []) :
    receive mode c b ds = ([], []) := by
  induction ds generalizing b with
  | nil => rfl
  | cons d ds ih =>
    have hneg : d.ret < 0 := by
      by_contra hnn
      simp only [List.map_cons, counts, Int.not_lt.mp hnn, ↓reduceIte] at h
      split_ifs at h
      simp at h
    simp only [List.map_cons, counts, Int.not_le.mpr hneg, ↓reduceIte, List.nil_append] at h
    simp only [receive, readChunk, hneg, ↓reduceIte, bytes_of_neg hneg, Option.getD_none,
      List.nil_append]
    split_ifs with hinv
    · rfl
    · simp only [hinv, Bool.false_eq_true, ↓reduceIte] at h
      rw [ih h]

/-- What the reads after the first chunk enqueue: whole chunks, which are the
delivered bytes when every read fills its chunk. -/
structure Later (c : ChunkSize) (mode : Mode) (ns : List ℤ) (enqueued delivered : List UInt8) :
    Prop where
  enqueued_length : enqueued.length = c.queue mode * ns.length
  delivered_length : (delivered.length : ℤ) = ns.sum
  bounded : ∀ n ∈ ns, 0 ≤ n ∧ n ≤ c.queue mode
  exact : (∀ n ∈ ns, n = c.queue mode) → enqueued = delivered

theorem receive_later (hs : Sized c b) (hb : b.first = false)
    (hp : Possible mode c false (ds.map Delivery.ret)) :
    Later c mode (counts (ds.map Delivery.ret)) (receive mode c b ds).1
      (receive mode c b ds).2 := by
  induction ds generalizing b with
  | nil => exact ⟨rfl, rfl, by simp [counts], fun _ => rfl⟩
  | cons d ds ih =>
    obtain ⟨-, hle, hp⟩ := hp
    simp only [Bool.false_and, Bool.false_eq_true, ↓reduceIte] at hle hp
    have hlen := d.length_bytes
    have hn : d.bytes.length ≤ c.queue mode := by omega
    obtain ⟨hb', hs', hchunk, -⟩ := fill_later hs hb hn
    have hstale : (b.stale mode c).length = c.queue mode := hs.stale_length
    have hrest := ih hs' hb' hp
    simp only [List.map_cons, counts, receive, readChunk, hb, Bool.false_eq_true, ↓reduceIte]
    by_cases hneg : d.ret < 0
    · simp only [hneg, ↓reduceIte, Int.not_le.mpr hneg, bytes_of_neg hneg, Option.getD_none,
        List.nil_append]
      split_ifs with hinv
      · exact ⟨rfl, rfl, by simp, fun _ => rfl⟩
      · exact hrest
    · have hnn := Int.not_lt.mp hneg
      have hchunklen : ((b.fill mode c d).chunk mode c).length = c.queue mode := by
        rw [hchunk, List.length_append, List.length_drop, hstale]
        omega
      have hfull : d.ret = c.queue mode → (b.fill mode c d).chunk mode c = d.bytes := fun he => by
        rw [hchunk, List.drop_of_length_le (by omega), List.append_nil]
      simp only [hneg, ↓reduceIte, hnn, Option.getD_some]
      split_ifs with hinv
      · refine ⟨by simp [hchunklen], by simp; omega, by simpa using ⟨hnn, hle⟩, fun hall => ?_⟩
        exact hfull (hall _ (by simp))
      · refine ⟨?_, ?_, ?_, fun hall => ?_⟩
        · simp only [List.length_append, hchunklen, hrest.enqueued_length,
            List.singleton_append, List.length_cons]
          ring
        · have := hrest.delivered_length
          simp only [List.length_append, List.singleton_append, List.sum_cons]
          omega
        · intro n hn
          rcases List.mem_cons.mp hn with rfl | hn
          · exact ⟨hnn, hle⟩
          · exact hrest.bounded n hn
        · rw [hfull (hall _ (by simp)), hrest.exact fun n hn => hall n (by simp [hn])]

theorem receive_later_zero (hs : Sized c b) (hb : b.first = false)
    (hp : Possible mode c false (ds.map Delivery.ret)) (hz : ∀ x ∈ b.stale mode c, x = 0)
    (hd : ∀ d ∈ ds, ∀ x ∈ d.bytes, x = 0) : ∀ x ∈ (receive mode c b ds).1, x = 0 := by
  induction ds generalizing b with
  | nil => simp [receive]
  | cons d ds ih =>
    obtain ⟨-, hle, hp⟩ := hp
    simp only [Bool.false_and, Bool.false_eq_true, ↓reduceIte] at hle hp
    have hlen := d.length_bytes
    have hn : d.bytes.length ≤ c.queue mode := by omega
    obtain ⟨hb', hs', hchunk, hstale⟩ := fill_later hs hb hn
    have hnew : ∀ x ∈ d.bytes ++ (b.stale mode c).drop d.bytes.length, x = 0 := by
      intro x hx
      rcases List.mem_append.mp hx with hx | hx
      · exact hd d (by simp) x hx
      · exact hz x (List.mem_of_mem_drop hx)
    have hrest := ih hs' hb' hp (hstale ▸ hnew) fun e he => hd e (by simp [he])
    have hmine : ∀ x ∈ (readChunk mode c b d).2.getD [], x = 0 := by
      simp only [readChunk, hb, Bool.false_eq_true, ↓reduceIte]
      split_ifs
      · simp
      · simpa only [Option.getD_some, hchunk] using hnew
    have hb₁ : (readChunk mode c b d).1 = b.fill mode c d := by
      simp only [readChunk, hb, Bool.false_eq_true, ↓reduceIte]
      split_ifs <;> rfl
    simp only [receive, hb₁]
    split_ifs with hinv
    · exact hmine
    · intro x hx
      rcases List.mem_append.mp hx with hx | hx
      · exact hmine x hx
      · exact hrest x hx

theorem receive_timeouts {pre : List Delivery} (hb : b.first = true)
    (hpre : ∀ d ∈ pre, d.ret = -2) : receive mode c b (pre ++ ds) = receive mode c b ds := by
  induction pre with
  | nil => rfl
  | cons d pre ih =>
    have hret := hpre d (by simp)
    have hbytes := bytes_of_neg (d := d) (by omega)
    have hrest := ih fun e he => hpre e (by simp [he])
    have hinv : readResultInvalid d.ret = false := by rw [hret]; rfl
    simp only [List.cons_append, receive, readChunk, fill_first_nil hb hbytes, hret,
      show (-2 : ℤ) < 0 by decide, ↓reduceIte, hbytes, Option.getD_none, List.nil_append, hrest]
    rw [hret] at hinv
    simp [hinv]

theorem counts_cons {rets ns : List ℤ} {n : ℤ} (h : counts rets = n :: ns)
    (hlow : ∀ r ∈ rets, -2 ≤ r) : ∃ pre rest, rets = pre ++ n :: rest ∧ (∀ r ∈ pre, r = -2) ∧
      0 ≤ n ∧ ns = if readResultInvalid n then [] else counts rest := by
  induction rets with
  | nil => simp [counts] at h
  | cons r rets ih =>
    simp only [counts] at h
    by_cases hnn : 0 ≤ r
    · simp only [hnn, ↓reduceIte] at h
      refine ⟨[], rets, ?_, by simp, ?_, ?_⟩
      · split_ifs at h <;> simp_all
      · split_ifs at h <;> simp_all
      · split_ifs at h with hinv
        · simp_all
        · simp only [List.singleton_append, List.cons.injEq] at h
          rw [← h.1, if_neg hinv, h.2]
    · simp only [hnn, ↓reduceIte, List.nil_append] at h
      split_ifs at h with hinv
      obtain ⟨pre, rest, rfl, hpre, hn, hns⟩ := ih h fun k hk => hlow k (by simp [hk])
      refine ⟨r :: pre, rest, rfl, ?_, hn, hns⟩
      intro k hk
      rcases List.mem_cons.mp hk with rfl | hk
      · rw [readResultInvalid_iff] at hinv
        omega
      · exact hpre k hk

theorem Possible.low {first : Bool} {rets : List ℤ} (h : Possible mode c first rets) :
    ∀ r ∈ rets, -2 ≤ r := by
  induction rets generalizing first with
  | nil => simp
  | cons r rets ih =>
    obtain ⟨hlow, -, hp⟩ := h
    intro k hk
    rcases List.mem_cons.mp hk with rfl | hk
    · exact hlow
    · exact ih hp k hk

theorem Possible.from_first {pre rest : List ℤ} {n : ℤ}
    (h : Possible mode c true (pre ++ n :: rest)) (hpre : ∀ r ∈ pre, r = -2) (hn : 0 ≤ n) :
    n ≤ c.val ∧ Possible mode c false rest := by
  induction pre with
  | nil =>
    obtain ⟨-, hle, hp⟩ := h
    rw [Bool.true_and, decide_eq_false (Int.not_lt.mpr hn)] at hp
    exact ⟨by simpa using hle, hp⟩
  | cons r pre ih =>
    obtain ⟨-, -, hp⟩ := h
    rw [hpre r (by simp)] at hp
    exact ih hp fun k hk => hpre k (by simp [hk])

def Buffers.afterFirst (mode : Mode) (c : ChunkSize) (b : Buffers) (d : Delivery) : Buffers :=
  { b.fill mode c d with first := false }

theorem receive_first (hb : b.first = true) (hn : 0 ≤ d.ret) : receive mode c b (d :: ds) =
    if readResultInvalid d.ret then ([], d.bytes)
    else ((receive mode c (b.afterFirst mode c d) ds).1,
      d.bytes ++ (receive mode c (b.afterFirst mode c d) ds).2) := by
  simp only [receive, readChunk, Int.not_lt.mpr hn, hb, ↓reduceIte, Option.getD_none,
    List.nil_append]
  rfl

theorem afterFirst_sized (hs : Sized c b) (hb : b.first = true) :
    Sized c (b.afterFirst mode c d) := by
  simp only [Buffers.afterFirst, Buffers.fill, hb, ↓reduceIte]
  exact ⟨hs.rChunk, hs.readTcpChk⟩

theorem afterFirst_stale (hb : b.first = true) :
    (b.afterFirst mode c d).stale mode c = b.stale mode c := by
  simp only [Buffers.afterFirst, Buffers.fill, hb, ↓reduceIte]
  rfl

theorem init_stale_zero (mode : Mode) (c : ChunkSize) :
    ∀ x ∈ (Buffers.init mode c).stale mode c, x = 0 := by
  intro x hx
  cases mode <;> exact List.eq_of_mem_replicate (List.mem_of_mem_take hx)

theorem sum_le_of_bounded {ns : List ℤ} {k : ℕ} (h : ∀ n ∈ ns, n ≤ k) :
    ns.sum ≤ (k * ns.length : ℕ) := by
  induction ns with
  | nil => simp
  | cons n ns ih =>
    have hn := h n (by simp)
    have hns := ih fun m hm => h m (by simp [hm])
    simp only [List.sum_cons, List.length_cons, Nat.mul_succ]
    omega

theorem eq_of_sum_eq {ns : List ℤ} {k : ℕ} (h : ∀ n ∈ ns, n ≤ k)
    (hsum : ns.sum = (k * ns.length : ℕ)) : ∀ n ∈ ns, n = k := by
  induction ns with
  | nil => simp
  | cons n ns ih =>
    have hn := h n (by simp)
    have hrest : ∀ m ∈ ns, m ≤ (k : ℤ) := fun m hm => h m (by simp [hm])
    have hns := sum_le_of_bounded hrest
    simp only [List.sum_cons, List.length_cons, Nat.mul_succ] at hsum
    intro m hm
    rcases List.mem_cons.mp hm with rfl | hm
    · omega
    · exact ih hrest (by omega) m hm

def Delivery.const (x : UInt8) (r : ℤ) : Delivery :=
  ⟨r, List.replicate r.toNat x, List.length_replicate⟩

theorem map_const (x : UInt8) (rets : List ℤ) :
    (rets.map (Delivery.const x)).map Delivery.ret = rets := by
  rw [List.map_map]
  exact List.map_id rets

theorem zero_of_mem_const {rets : List ℤ} {d : Delivery} (hd : d ∈ rets.map (Delivery.const 0)) :
    ∀ x ∈ d.bytes, x = 0 := by
  obtain ⟨r, -, rfl⟩ := List.mem_map.mp hd
  intro x hx
  exact List.eq_of_mem_replicate hx

theorem receive_mp3_iff {rets : List ℤ} (hp : Possible .mp3 c false rets) :
    (∀ ds, ds.map Delivery.ret = rets → (receive .mp3 c (.init .mp3 c) ds).1 =
      wanted .mp3 (receive .mp3 c (.init .mp3 c) ds).2) ↔ FullReads .mp3 c (counts rets) := by
  have hlater : ∀ ds : List Delivery, ds.map Delivery.ret = rets →
      Later c .mp3 (counts rets) (receive .mp3 c (.init .mp3 c) ds).1
        (receive .mp3 c (.init .mp3 c) ds).2 := by
    rintro ds rfl
    exact receive_later (init_sized .mp3 c) rfl hp
  constructor
  · intro h
    have hds := map_const 0 rets
    have heq := congrArg List.length (h _ hds)
    have hl := hlater _ hds
    rw [hl.enqueued_length] at heq
    refine eq_of_sum_eq (fun n hn => (hl.bounded n hn).2) ?_
    rw [← hl.delivered_length]
    exact (congrArg (Nat.cast (R := ℤ)) heq).symm
  · intro hfull ds hds
    exact (hlater ds hds).exact hfull

theorem wav_second_chunk {n k : ℤ} {ns rest : List ℤ} (hpos : 0 < n) (hc : n ≤ c.val)
    (hp : Possible .wav c false rest) (hns : counts rest = k :: ns)
    (h : ∀ d : Delivery, d.ret = n → ∀ ds, ds.map Delivery.ret = rest →
      (receive .wav c ((Buffers.init .wav c).afterFirst .wav c d) ds).1 = (d.bytes ++
        (receive .wav c ((Buffers.init .wav c).afterFirst .wav c d) ds).2).drop wavHeaderSize) :
    n = wavHeaderSize ∧ ∀ m ∈ k :: ns, m = c.val := by
  set d := Delivery.const 1 n with hd
  set b := (Buffers.init .wav c).afterFirst .wav c d with hb
  have hs : Sized c b := afterFirst_sized (init_sized .wav c) rfl
  have hds := map_const 0 rest
  have hp' : Possible .wav c false ((rest.map (Delivery.const 0)).map Delivery.ret) := by
    rwa [hds]
  have hl := receive_later hs rfl hp'
  have hz := receive_later_zero hs rfl hp'
    (by rw [hb, afterFirst_stale rfl]; exact init_stale_zero .wav c)
    fun e he => zero_of_mem_const he
  have heq := h d rfl _ hds
  rw [hds, hns] at hl
  set e := (receive .wav c b (rest.map (Delivery.const 0))).1
  set v := (receive .wav c b (rest.map (Delivery.const 0))).2
  have hbytes : d.bytes.length = n.toNat := d.length_bytes
  have hle : n ≤ wavHeaderSize := by
    by_contra hgt
    have hone : (d.bytes ++ v).drop wavHeaderSize =
        List.replicate (n.toNat - wavHeaderSize) 1 ++ v := by
      rw [List.drop_append_of_le_length (by rw [hbytes]; omega)]
      simp [hd, Delivery.const]
    have hmem : (1 : UInt8) ∈ e := by
      rw [heq, hone]
      refine List.mem_append_left _ (List.mem_replicate.mpr ⟨?_, rfl⟩)
      omega
    exact absurd (hz 1 hmem) (by decide)
  have hlen := congrArg List.length heq
  rw [hl.enqueued_length, List.length_drop, List.length_append, hbytes] at hlen
  have hsum := hl.delivered_length
  have hmax : ∀ m ∈ k :: ns, m ≤ (c.val : ℤ) := fun m hm => (hl.bounded m hm).2
  have hbound := sum_le_of_bounded hmax
  have hlast : 0 < c.val * (k :: ns).length := Nat.mul_pos (by omega) (by simp)
  simp only [ChunkSize.queue] at hlen
  have hn : n = wavHeaderSize := by omega
  exact ⟨hn, eq_of_sum_eq hmax (by omega)⟩

/-- The first count, the deliveries around it, and what is received of them. -/
theorem receive_wav_split {rets ns : List ℤ} {n : ℤ} (hp : Possible .wav c true rets)
    (h : counts rets = n :: ns) : ∃ pre rest, rets = pre ++ n :: rest ∧ 0 ≤ n ∧ n ≤ c.val ∧
      Possible .wav c false rest ∧ (ns = if readResultInvalid n then [] else counts rest) ∧
      ∀ pre' d ds, pre'.map Delivery.ret = pre → d.ret = n →
        receive .wav c (.init .wav c) (pre' ++ d :: ds) =
          if readResultInvalid n then ([], d.bytes)
          else ((receive .wav c ((Buffers.init .wav c).afterFirst .wav c d) ds).1,
            d.bytes ++ (receive .wav c ((Buffers.init .wav c).afterFirst .wav c d) ds).2) := by
  obtain ⟨pre, rest, rfl, hpre, hn, hns⟩ := counts_cons h hp.low
  obtain ⟨hc, hrest⟩ := hp.from_first hpre hn
  refine ⟨pre, rest, rfl, hn, hc, hrest, hns, ?_⟩
  rintro pre' d ds hmap rfl
  rw [receive_timeouts rfl, receive_first rfl hn]
  exact fun e he => hpre _ (hmap ▸ List.mem_map_of_mem he)

theorem drop_header (h : d.ret ≤ wavHeaderSize) : d.bytes.drop wavHeaderSize = [] := by
  have := d.length_bytes
  exact List.drop_of_length_le (by omega)

/-- What follows the first read of a WAV stream is faithful if and only if the header
was read alone and the reads after it are full. -/
theorem after_first_iff {n : ℤ} {rest : List ℤ} (hpos : 0 < n) (hc : n ≤ c.val)
    (hp : Possible .wav c false rest) :
    (∀ d : Delivery, d.ret = n → ∀ ds, ds.map Delivery.ret = rest →
      (receive .wav c ((Buffers.init .wav c).afterFirst .wav c d) ds).1 = (d.bytes ++
        (receive .wav c ((Buffers.init .wav c).afterFirst .wav c d) ds).2).drop wavHeaderSize) ↔
      FullReads .wav c (n :: counts rest) := by
  cases hcounts : counts rest with
  | nil =>
    constructor
    · intro h
      have heq := h (.const 0 n) rfl _ (map_const 0 rest)
      rw [receive_none (by rwa [map_const]), List.append_nil] at heq
      have hlen := congrArg List.length heq
      simp only [List.length_nil, List.length_drop, Delivery.const, List.length_replicate] at hlen
      change n ≤ wavHeaderSize
      omega
    · rintro (hle : n ≤ wavHeaderSize) d rfl ds rfl
      rw [receive_none hcounts, List.append_nil, drop_header hle]
  | cons k ns =>
    constructor
    · exact wav_second_chunk hpos hc hp hcounts
    · rintro ⟨hhead, hfull⟩ d rfl ds rfl
      have hl := receive_later (b := (Buffers.init .wav c).afterFirst .wav c d)
        (afterFirst_sized (init_sized .wav c) rfl) rfl hp
      rw [hcounts] at hl
      have hbytes : d.bytes.length = wavHeaderSize := by
        rw [d.length_bytes]
        omega
      rw [← hbytes, List.drop_left]
      exact hl.exact hfull

theorem receive_wav_iff {rets : List ℤ} (hp : Possible .wav c true rets) :
    (∀ ds, ds.map Delivery.ret = rets → (receive .wav c (.init .wav c) ds).1 =
      wanted .wav (receive .wav c (.init .wav c) ds).2) ↔ FullReads .wav c (counts rets) := by
  cases hcounts : counts rets with
  | nil =>
    refine ⟨fun _ => trivial, ?_⟩
    rintro - ds rfl
    rw [receive_none hcounts]
    rfl
  | cons n ns =>
    obtain ⟨pre, rest, rfl, hn, hc, hrest, hns, hsplit⟩ := receive_wav_split hp hcounts
    have hparts : ∀ ds : List Delivery, ds.map Delivery.ret = pre ++ n :: rest → ∃ pre' d ds',
        ds = pre' ++ d :: ds' ∧ pre'.map Delivery.ret = pre ∧ d.ret = n ∧
          ds'.map Delivery.ret = rest := by
      intro ds hds
      obtain ⟨pre', ds', rfl, hpre', hds'⟩ := List.map_eq_append_iff.mp hds
      obtain ⟨d, ds'', rfl, hd, hds''⟩ := List.map_eq_cons_iff.mp hds'
      exact ⟨pre', d, ds'', rfl, hpre', hd, hds''⟩
    by_cases hinv : readResultInvalid n
    · simp only [hinv, ↓reduceIte] at hns hsplit
      subst hns
      have hz : n ≤ wavHeaderSize := by
        have := readResultInvalid_iff.mp hinv
        omega
      refine ⟨fun _ => hz, ?_⟩
      intro _ ds hds
      obtain ⟨pre', d, ds', rfl, hpre', hd, -⟩ := hparts ds hds
      rw [hsplit pre' d ds' hpre' hd]
      exact (drop_header (hd ▸ hz)).symm
    · simp only [hinv, Bool.false_eq_true, ↓reduceIte] at hns hsplit
      subst hns
      have hpos : 0 < n := by
        by_contra hle
        exact hinv (readResultInvalid_iff.mpr (by omega))
      rw [← after_first_iff hpos hc hrest]
      constructor
      · intro h d hd ds hds
        have heq := h (pre.map (Delivery.const 0) ++ d :: ds)
          (by rw [List.map_append, map_const, List.map_cons, hd, hds])
        rwa [hsplit _ d ds (map_const 0 pre) hd] at heq
      · intro h ds hds
        obtain ⟨pre', d, ds', rfl, hpre', hd, hds'⟩ := hparts ds hds
        rw [hsplit pre' d ds' hpre' hd]
        exact h d hd ds' hds'

/-- For reads with given results, and over all bytes they may deliver: the client
enqueues what it receives, less a WAV header, if and only if the reads are full. -/
theorem receive_faithful_iff (mode : Mode) (c : ChunkSize) (rets : List ℤ)
    (hp : Possible mode c (decide (mode = .wav)) rets) :
    (∀ ds, ds.map Delivery.ret = rets → (receive mode c (.init mode c) ds).1 =
      wanted mode (receive mode c (.init mode c) ds).2) ↔ FullReads mode c (counts rets) := by
  cases mode with
  | wav => exact receive_wav_iff hp
  | mp3 => exact receive_mp3_iff hp

theorem receive_faithful_iff_full : (∀ ds, ds.map Delivery.ret = [45, -2, -1] →
      (receive .mp3 ⟨1, by decide⟩ (.init .mp3 ⟨1, by decide⟩) ds).1 =
        wanted .mp3 (receive .mp3 ⟨1, by decide⟩ (.init .mp3 ⟨1, by decide⟩) ds).2) ↔
    FullReads .mp3 ⟨1, by decide⟩ (counts [45, -2, -1]) :=
  receive_faithful_iff .mp3 ⟨1, by decide⟩ [45, -2, -1] (by simp [Possible, ChunkSize.queue,
    ChunkSize.decoder, chunkHeaderSize, frameInfoSize])

/-- A single short read: one byte is delivered and a whole chunk is enqueued. -/
theorem short_read_pads : ¬ ∀ (mode : Mode) (c : ChunkSize) (ds : List Delivery),
    Possible mode c (decide (mode = .wav)) (ds.map Delivery.ret) →
    (receive mode c (.init mode c) ds).1 = wanted mode (receive mode c (.init mode c) ds).2 := by
  intro h
  have hp : Possible .mp3 ⟨8192, by decide⟩ false ([⟨1, [7], rfl⟩].map Delivery.ret) := by
    simp [Possible, ChunkSize.queue, ChunkSize.decoder, chunkHeaderSize, frameInfoSize]
  have hl := receive_later (init_sized .mp3 ⟨8192, by decide⟩) rfl hp
  have heq := congrArg List.length (h .mp3 ⟨8192, by decide⟩ [⟨1, [7], rfl⟩] hp)
  rw [hl.enqueued_length] at heq
  have hlen := hl.delivered_length
  have h1 : counts ([(⟨1, [7], rfl⟩ : Delivery)].map Delivery.ret) = [1] := by decide
  rw [h1] at heq hlen
  simp only [ChunkSize.queue, ChunkSize.decoder, chunkHeaderSize, frameInfoSize, wanted,
    List.length_singleton, List.sum_singleton] at heq hlen
  omega

end EmotionStreamer.Client
