import EmotionStreamer.ClientBackPressure

/-! In every other configuration a thread inserts into a full queue: a schedule fills the
queue chunk by chunk, up to the capacity of which the look for an almost full queue tells
nothing. -/
namespace EmotionStreamer.Client
open Fifo ChunkQueue Runs

/-- Where the rx and the decoder thread are, and how much is in the two queues, in a
stream that is neither paused nor stopped. -/
structure At (rx : RxPc) (dec : DecPc) (n m : ℕ) (s : State) : Prop where
  rx : s.rx = rx
  dec : s.dec = dec
  decoder : s.decoderQue.length = n
  player : s.playerQue.length = m
  innited : s.innited = true
  paused : s.paused = false
  first : s.bufs.first = false

/-- A schedule leads to such a state. -/
def Reached (cfg : Config) (P : State → Prop) : Prop := ∃ is, P (exec cfg is)

variable {cfg : Config} {s : State} {rx : RxPc} {dec : DecPc} {n m : ℕ}

theorem Reached.more {P Q : State → Prop} (h : Reached cfg P) (is : List Label)
    (hstep : ∀ s, P s → Q (is.foldl (step cfg) s)) : Reached cfg Q := by
  obtain ⟨js, hs⟩ := h
  refine ⟨js ++ is, ?_⟩
  rw [exec, List.foldl_append]
  exact hstep _ hs

/-- A read of one byte, and a decoding that makes a chunk. -/
def readOne : Label := .rx (.const 0 1)
def decodeOne : Label := .dec ⟨.ok, 1, 2, 44100, []⟩

theorem At.rxChunk (hm : cfg.mode = .mp3) (h : At .inner dec n m s) (hn : n < cfg.decoderCap) :
    At .lookFull dec (n + 1) m ((List.replicate 5 readOne).foldl (step cfg) s) := by
  have hlen : s.decoderQue.length < cfg.decoderCap := h.decoder ▸ hn
  constructor <;>
    simp [List.replicate, readOne, step, rxStep, Delivery.const, h.rx, h.innited, h.paused, h.first,
      rxInsert, hm, enqueue_of_lt hlen, h.decoder, h.player, h.dec, readResultInvalid, Buffers.fill]

theorem At.rxGoesOn (hm : cfg.mode = .mp3) (h : At .lookFull dec n m s) (hn : n < cfg.decoderCap) :
    At .inner dec n m (step cfg s readOne) := by
  constructor <;>
    simp [readOne, step, rxStep, h.rx, rxQueueFull, hm, h.decoder, hn.ne, h.dec, h.player,
      h.innited, h.paused, h.first]

/-- In front of a full queue that does not look almost full, the thread comes to read the
next chunk. -/
theorem At.rxThrough (hm : cfg.mode = .mp3) (h : At .lookFull dec cfg.decoderCap m s)
    (hlook : almostFull cfg.pct cfg.decoderCap cfg.decoderCap = false) :
    At (.insert 1) dec cfg.decoderCap m ((List.replicate 10 readOne).foldl (step cfg) s) := by
  constructor <;>
    simp [List.replicate, readOne, step, rxStep, Delivery.const, h.rx, h.innited, h.paused, h.first,
      rxQueueFull, rxMustWait, hm, hlook, h.decoder, h.player, h.dec, Buffers.fill]

theorem At.decTakes (h : At rx .inner (n + 1) m s) :
    At rx .decode n m ((List.replicate 2 decodeOne).foldl (step cfg) s) := by
  constructor <;>
    simp [List.replicate, decodeOne, step, decStep, decDequeue, h.rx, h.dec, h.innited, h.paused,
      h.first, h.decoder, h.player, dequeue_length]

theorem At.decComesToInsert (h : At rx .decode n m s) :
    At rx (.insert .ok) n m (step cfg s decodeOne) := by
  constructor <;>
    simp [decodeOne, step, decStep, decDecode, decodeChunk, Processed.decoderState, h.rx, h.dec, h.innited,
      h.paused, h.first, h.decoder, h.player]

theorem At.decInserts (h : At rx (.insert .ok) n m s) (hm : m < cfg.playerCap) :
    At rx (.lookFull .ok) n (m + 1) (step cfg s decodeOne) := by
  have hlen : s.playerQue.length < cfg.playerCap := h.player ▸ hm
  constructor <;>
    simp [decodeOne, step, decStep, insertPlayer, enqueue_of_lt hlen, h.rx, h.dec, h.innited,
      h.paused, h.first, h.decoder, h.player]

theorem At.decGoesOn (h : At rx (.lookFull .ok) (n + 1) m s) (hm : m ≠ cfg.playerCap) :
    At rx .inner (n + 1) m ((List.replicate 4 decodeOne).foldl (step cfg) s) := by
  have hne : s.decoderQue ≠ [] := by
    rintro hnil
    simpa [hnil] using h.decoder
  constructor <;>
    simp [List.replicate, decodeOne, step, decStep, h.rx, h.dec, h.innited, h.paused, h.first,
      h.decoder, h.player, hm, hne]

/-- Behind a full `player_que` that does not look almost full, with enough in
`decoder_que`, the thread comes to take the next chunk. -/
theorem At.decThrough (h : At rx (.lookFull .ok) n cfg.playerCap s)
    (hlook : almostFull cfg.pct cfg.playerCap cfg.playerCap = false)
    (hwakes : almostEmpty cfg.pct n cfg.decoderCap = false) :
    At rx .inner n cfg.playerCap ((List.replicate 7 decodeOne).foldl (step cfg) s) := by
  constructor <;>
    simp [List.replicate, decodeOne, step, decStep, h.rx, h.dec, h.innited, h.paused, h.first,
      h.decoder, h.player, hlook, hwakes]

theorem At.begin (hm : cfg.mode = .mp3) :
    At .inner .inner 0 0
      ((List.replicate 3 readOne ++ List.replicate 3 decodeOne).foldl (step cfg) (.start cfg)) := by
  constructor <;>
    simp [List.replicate, readOne, decodeOne, step, rxStep, decStep, State.start, hm, Buffers.init]

/-- The rx thread fills `decoder_que` up to any length. -/
theorem Reached.fill (hm : cfg.mode = .mp3) (h : Reached cfg (At .lookFull dec 1 m)) {k : ℕ}
    (hpos : 0 < k) (hk : k ≤ cfg.decoderCap) : Reached cfg (At .lookFull dec k m) := by
  induction k with
  | zero => exact absurd hpos (lt_irrefl 0)
  | succ k ih =>
    rcases Nat.eq_zero_or_pos k with rfl | hk0
    · exact h
    · have hprev := ih hk0 (Nat.le_of_succ_le hk)
      exact (hprev.more [readOne] fun _ hs => hs.rxGoesOn hm hk).more _ fun _ hs => hs.rxChunk hm hk

/-- The decoder thread makes a chunk of one that is replaced behind it. -/
theorem Reached.makeChunk (hm : cfg.mode = .mp3) (h : Reached cfg (At .lookFull .inner 1 m))
    (hm' : m < cfg.playerCap) : Reached cfg (At .lookFull (.lookFull .ok) 1 (m + 1)) := by
  have htaken : Reached cfg (At .lookFull .decode 0 m) := h.more _ fun _ hs => hs.decTakes
  have hrefilled : Reached cfg (At .lookFull .decode 1 m) :=
    (htaken.more [readOne] fun _ hs => hs.rxGoesOn hm cfg.decoderCap_pos).more _ fun _ hs =>
      hs.rxChunk hm cfg.decoderCap_pos
  exact (hrefilled.more [decodeOne] fun _ hs => hs.decComesToInsert).more [decodeOne] fun _ hs =>
    hs.decInserts hm'

/-- The decoder thread fills `player_que`. -/
theorem Reached.fillPlayer (hm : cfg.mode = .mp3) {k : ℕ} (hk : k < cfg.playerCap) :
    Reached cfg (At .lookFull (.lookFull .ok) 1 (k + 1)) := by
  induction k with
  | zero =>
    have hbegin : Reached cfg (At .inner .inner 0 0) := ⟨_, At.begin hm⟩
    exact (hbegin.more _ fun _ hs => hs.rxChunk hm cfg.decoderCap_pos).makeChunk hm hk
  | succ k ih =>
    have hprev := ih (Nat.lt_of_succ_lt hk)
    exact (hprev.more _ fun _ hs => hs.decGoesOn hk.ne).makeChunk hm hk

/-- Of a capacity that is a multiple of 2^32 no percentage is left. -/
theorem almostFull_wrapped {cap n : ℕ} (hpct : cfg.pct.almostFull ≠ 0) (hcap : cap % uint32Size = 0) :
    almostFull cfg.pct n cap = false := by
  simp only [almostFull, hcap, pctFracOfNums, roundPct, Nat.mul_zero, Nat.div_zero, Nat.zero_mod,
    decide_eq_false_iff_not, Nat.le_zero]
  exact hpct

theorem rx_overfills (hm : cfg.mode = .mp3) (hpct : cfg.pct.almostFull ≠ 0)
    (hcap : cfg.decoderCap % uint32Size = 0) :
    Reached cfg fun s => ∃ r, s.rx = .insert r ∧ rxQueueFull cfg s = true := by
  have hbegin : Reached cfg (At .inner .inner 0 0) := ⟨_, At.begin hm⟩
  have hfull := (hbegin.more _ fun _ hs => hs.rxChunk hm cfg.decoderCap_pos).fill hm
    cfg.decoderCap_pos le_rfl
  obtain ⟨is, hs⟩ := hfull.more _ fun _ hs => hs.rxThrough hm (almostFull_wrapped hpct hcap)
  exact ⟨is, 1, hs.rx, by simpa [rxQueueFull, hm] using hs.decoder⟩

theorem dec_overfills (hm : cfg.mode = .mp3) (hpct : cfg.pct.almostFull ≠ 0)
    (hwakes : cfg.DecoderWakes) (hcap : cfg.playerCap % uint32Size = 0) :
    Reached cfg fun s => ∃ ret, s.dec = .insert ret ∧ s.playerQue.length = cfg.playerCap := by
  obtain ⟨k, hk, havail⟩ := hwakes
  obtain ⟨m, hm'⟩ : ∃ m, cfg.playerCap = m + 1 := Nat.exists_eq_add_one.mpr cfg.playerCap_pos
  have hfull : Reached cfg (At .lookFull (.lookFull .ok) 1 cfg.playerCap) := by
    rw [hm']
    exact Reached.fillPlayer hm (by omega)
  have hpos := Nat.pos_of_ne_zero (pos_of_not_almostEmpty havail)
  obtain ⟨n, rfl⟩ : ∃ n, k = n + 1 := Nat.exists_eq_add_one.mpr hpos
  have hback := (hfull.fill hm hpos hk).more _ fun _ hs =>
    hs.decThrough (almostFull_wrapped hpct hcap) havail
  obtain ⟨is, hs⟩ := (hback.more _ fun _ hs => hs.decTakes).more [decodeOne] fun _ hs =>
    hs.decComesToInsert
  exact ⟨is, .ok, hs.dec, hs.player⟩

/-- No thread inserts into a full queue, over every schedule, if and only if the
configuration throttles its threads. -/
theorem no_drop_iff (cfg : Config) : (∀ is, NoDrop cfg (exec cfg is)) ↔ cfg.Throttles := by
  refine ⟨fun h => ?_, fun ht is => (exec_inv ht is).noDrop⟩
  by_contra hnot
  simp only [Config.Throttles, not_or, not_and_or, not_forall, not_not] at hnot
  obtain ⟨hwav, hpct, hcap⟩ := hnot
  have hm : cfg.mode = .mp3 := by
    cases hmode : cfg.mode with
    | wav => exact absurd hmode hwav
    | mp3 => rfl
  rcases hcap with hcap | ⟨hwakes, hcap⟩
  · obtain ⟨is, r, hr, hfull⟩ := rx_overfills hm hpct hcap
    rw [(h is).rxRoom r hr] at hfull
    cases hfull
  · obtain ⟨is, ret, hret, hfull⟩ := dec_overfills hm hpct hwakes hcap
    exact (h is).decRoom ret hret hfull

/-- The queues of `Config.small`, with 2^32 chunks in `decoder_que`. -/
def Config.wide : Config := { Config.small .mp3 with
  decoderCap := uint32Size
  decoderCap_pos := by decide }

/-- A queue of 2^32 chunks does not look almost full when it is full. -/
theorem full_looks_empty : ¬ ∀ (cfg : Config) (is : List Label), NoDrop cfg (exec cfg is) := by
  intro h
  obtain ⟨is, r, hr, hfull⟩ := @rx_overfills .wide rfl (by decide) (by decide)
  rw [(h .wide is).rxRoom r hr] at hfull
  cases hfull

end EmotionStreamer.Client
