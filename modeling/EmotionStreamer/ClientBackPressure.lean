import EmotionStreamer.ClientThreads
import EmotionStreamer.Runs
import Mathlib.Tactic.Ring

/-! Back-pressure between the client's threads: which configurations keep every thread,
over every schedule, from inserting into a full queue. In them the decoder thread decodes
only chunks it has just dequeued once its first pass is over, and the queues lose
nothing. -/
namespace EmotionStreamer.Client
open Fifo ChunkQueue Runs

/-- The chunks decoded that had just been dequeued. -/
def History.fed (h : History) : List (List UInt8) := marked h.decodes

/-- The chunks that found room in `decoder_que`, and in `player_que`. -/
def History.queued (h : History) : List (List UInt8) := marked h.offered
def History.queuedPlayer (h : History) : List Processed := marked h.put

/-- The dequeued chunk that the decoder is about to decode. -/
def State.inHand (s : State) : List (List UInt8) :=
  if s.dec = .decode ∧ s.hist.fresh then [s.dChunk] else []

/-- No insertion meets a full queue, no buffer is decoded twice, nothing is lost. -/
structure NoDrop (cfg : Config) (s : State) : Prop where
  rxRoom : ∀ r, s.rx = .insert r → rxQueueFull cfg s = false
  decRoom : ∀ ret, s.dec = .insert ret → s.playerQue.length ≠ cfg.playerCap
  fresh : ∀ e ∈ s.hist.decodes.tail, e.2 = true
  decoderKept : s.hist.offered.map (·.1) = s.hist.fed ++ s.inHand ++ s.decoderQue
  playerKept : s.hist.put.map (·.1) = s.hist.served.map (·.1) ++ s.playerQue

/-- A decoder thread that waits can find enough in `decoder_que` to go on. -/
def Config.DecoderWakes (cfg : Config) : Prop :=
  ∃ n ≤ cfg.decoderCap, almostEmpty cfg.pct n cfg.decoderCap = false

/-- The look for an almost full queue, whose percentage is of 32-bit counters, tells of a
full one wherever a thread goes on by it. -/
def Config.Throttles (cfg : Config) : Prop :=
  cfg.mode = .wav ∨ cfg.pct.almostFull = 0 ∨
    (cfg.decoderCap % uint32Size ≠ 0 ∧ (cfg.DecoderWakes → cfg.playerCap % uint32Size ≠ 0))

/-- The queues hold what found room in them and has not left them, whatever the
configuration. -/
structure Kept (cfg : Config) (s : State) : Prop where
  decoderLen : s.decoderQue.length ≤ cfg.decoderCap
  playerLen : s.playerQue.length ≤ cfg.playerCap
  decoderKept : s.hist.queued = s.hist.fed ++ s.inHand ++ s.decoderQue
  playerKept : s.hist.queuedPlayer = s.hist.served.map (·.1) ++ s.playerQue

def RxOk (innited : Bool) (room : Prop) : RxPc → Prop
  | .outer => innited = true → room
  | .go | .reading | .inner | .pausedTest | .read | .init _ | .insert _ => room
  | _ => True

/-- What the decoder thread knows: there is room in `player_que` (behind its wait, if it
leaves it), it is in its first pass, there is something in `decoder_que`, or it has just
dequeued. -/
def DecOk (innited : Bool) (wakes room first avail fresh : Prop) : DecPc → Prop
  | .startGo | .startInnited | .startAsleep => room ∧ first
  | .outer => innited = true → room ∧ (first ∨ avail)
  | .setDecoding | .inner | .dequeue => room ∧ (first ∨ avail)
  | .decode => room ∧ (first ∨ fresh)
  | .insert _ | .test _ | .pausedTest | .lookEmpty => room
  | .waitEmpty => wakes → room
  | _ => True

theorem RxOk.mono {innited innited' : Bool} {room room' : Prop} {pc : RxPc}
    (h : RxOk innited room pc) (hi : innited' = true → innited = true) (hr : room → room') :
    RxOk innited' room' pc := by
  cases pc <;> first | trivial | exact hr h | exact fun hlive => hr (h (hi hlive))

theorem DecOk.mono {innited innited' : Bool} {wakes room room' first avail avail' fresh : Prop}
    {pc : DecPc} (h : DecOk innited wakes room first avail fresh pc)
    (hi : innited' = true → innited = true) (hr : room → room') (ha : avail → avail') :
    DecOk innited' wakes room' first avail' fresh pc := by
  cases pc <;> first
    | trivial
    | exact hr h
    | exact fun hwakes => hr (h hwakes)
    | exact ⟨hr h.1, h.2⟩
    | exact ⟨hr h.1, h.2.imp_right ha⟩
    | exact fun hlive => ⟨hr (h (hi hlive)).1, (h (hi hlive)).2.imp_right ha⟩

def State.decRoom (cfg : Config) (s : State) : Prop := s.playerQue.length ≠ cfg.playerCap

structure Inv (cfg : Config) (s : State) : Prop where
  kept : Kept cfg s
  rxOk : RxOk s.innited (rxQueueFull cfg s = false) s.rx
  decOk : DecOk s.innited cfg.DecoderWakes (s.decRoom cfg) (s.hist.decodes = [])
    (s.decoderQue ≠ []) (s.hist.fresh = true) s.dec
  wavDec : cfg.mode = .wav → s.dec = .returned
  fresh : ∀ e ∈ s.hist.decodes.tail, e.2 = true
  offeredRoom : ∀ e ∈ s.hist.offered, e.2 = true
  putRoom : ∀ e ∈ s.hist.put, e.2 = true

variable {cfg : Config} {s : State}

theorem Inv.noDrop (h : Inv cfg s) : NoDrop cfg s where
  rxRoom r hr := by have := h.rxOk; rwa [hr] at this
  decRoom ret hr := by have := h.decOk; rwa [hr] at this
  fresh := h.fresh
  decoderKept := by
    rw [← h.kept.decoderKept]
    exact (marked_of_all h.offeredRoom).symm
  playerKept := by
    rw [← h.kept.playerKept]
    exact (marked_of_all h.putRoom).symm

theorem pct_full {cap : ℕ} (h : 0 < cap) : pctFracOfNums cap cap = 100 := by
  have h2 : 200 * cap + cap = 201 * cap := by ring
  rw [pctFracOfNums, roundPct, h2, Nat.mul_div_mul_right _ _ h]
  rfl

theorem length_ne_of_not_almostFull {n cap : ℕ}
    (hcap : cfg.pct.almostFull = 0 ∨ cap % uint32Size ≠ 0)
    (h : almostFull cfg.pct n cap = false) : n ≠ cap := by
  rintro rfl
  rcases hcap with hzero | hcap
  · simp [almostFull, hzero] at h
  · simp only [almostFull, pct_full (Nat.pos_of_ne_zero hcap), decide_eq_false_iff_not] at h
    exact h cfg.almostFull_le

theorem pos_of_not_almostEmpty {pct : CachePct} {n cap : ℕ} (h : almostEmpty pct n cap = false) :
    n ≠ 0 := by
  rintro rfl
  have hz : roundPct 0 (cap % uint32Size) = 0 := by
    unfold roundPct
    rcases Nat.eq_zero_or_pos (cap % uint32Size) with hcap | hpos
    · rw [hcap]
    · exact Nat.div_eq_of_lt (by omega)
  simp [almostEmpty, pctFracOfNums, hz] at h

theorem Config.Throttles.rx (h : cfg.Throttles) (hm : cfg.mode = .mp3) :
    cfg.pct.almostFull = 0 ∨ cfg.decoderCap % uint32Size ≠ 0 := by
  rcases h with hw | hzero | ⟨hcap, -⟩
  · rw [hm] at hw
    cases hw
  · exact .inl hzero
  · exact .inr hcap

theorem Config.Throttles.dec (h : cfg.Throttles) (hm : cfg.mode = .mp3) (hw : cfg.DecoderWakes) :
    cfg.pct.almostFull = 0 ∨ cfg.playerCap % uint32Size ≠ 0 := by
  rcases h with hmode | hzero | ⟨-, hcap⟩
  · rw [hm] at hmode
    cases hmode
  · exact .inl hzero
  · exact .inr (hcap hw)

theorem rxQueueFull_of_mustWait (ht : cfg.Throttles) (h : rxMustWait cfg s = false) :
    rxQueueFull cfg s = false := by
  unfold rxMustWait at h
  unfold rxQueueFull
  cases hm : cfg.mode with
  | wav => simpa [hm] using h
  | mp3 =>
    rw [hm] at h
    simpa using length_ne_of_not_almostFull (ht.rx hm) h

theorem start_kept (cfg : Config) : Kept cfg (.start cfg) where
  decoderLen := Nat.zero_le _
  playerLen := Nat.zero_le _
  decoderKept := by
    cases h : cfg.mode <;>
      simp [State.start, History.queued, History.fed, marked, State.inHand, h]
  playerKept := rfl

theorem start_inv (cfg : Config) : Inv cfg (.start cfg) where
  kept := start_kept cfg
  rxOk _ := by
    have h1 := cfg.decoderCap_pos
    have h2 := cfg.playerCap_pos
    unfold rxQueueFull
    cases cfg.mode with
    | wav => exact decide_eq_false h2.ne
    | mp3 => exact decide_eq_false h1.ne
  decOk := by
    have h2 := cfg.playerCap_pos
    simp only [State.start]
    cases cfg.mode with
    | wav => trivial
    | mp3 => exact ⟨h2.ne, trivial⟩
  wavDec h := by simp [State.start, h]
  fresh := by simp [State.start]
  offeredRoom := by simp [State.start]
  putRoom := by simp [State.start]

/-- A step that leaves the queues and what the decoder has in its hands. -/
theorem Kept.congr {t : State} (h : Kept cfg s) (hdec : t.decoderQue = s.decoderQue)
    (hplayer : t.playerQue = s.playerQue) (hoffered : t.hist.offered = s.hist.offered)
    (hput : t.hist.put = s.hist.put) (hserved : t.hist.served.map (·.1) = s.hist.served.map (·.1))
    (hfed : t.hist.fed ++ t.inHand = s.hist.fed ++ s.inHand) : Kept cfg t where
  decoderLen := hdec ▸ h.decoderLen
  playerLen := hplayer ▸ h.playerLen
  decoderKept := by
    rw [History.queued, hoffered, hfed, hdec]
    exact h.decoderKept
  playerKept := by
    rw [History.queuedPlayer, hput, hserved, hplayer]
    exact h.playerKept

theorem Kept.insertPlayer (h : Kept cfg s) (p : Processed) : Kept cfg (insertPlayer cfg s p) where
  decoderLen := h.decoderLen
  playerLen := enqueue_length_le h.playerLen p
  decoderKept := h.decoderKept
  playerKept := marked_enqueue h.playerKept p

theorem Kept.rxInsert (h : Kept cfg s) : Kept cfg (rxInsert cfg s) := by
  unfold Client.rxInsert
  cases cfg.mode with
  | wav => exact h.insertPlayer _
  | mp3 => exact ⟨enqueue_length_le h.decoderLen _, h.playerLen, marked_enqueue h.decoderKept _, h.playerKept⟩

theorem Kept.rxStep (h : Kept cfg s) (d : Delivery) : Kept cfg (rxStep cfg s d) := by
  cases hpc : s.rx with
  | insert r =>
    simp only [Client.rxStep, hpc]
    exact h.rxInsert.congr rfl rfl rfl rfl rfl rfl
  | _ =>
    simp only [Client.rxStep, hpc]
    exact h.congr rfl rfl rfl rfl rfl rfl

theorem inHand_of_ne (h : s.dec ≠ .decode) : s.inHand = [] := if_neg fun hd => h hd.1

theorem Kept.decMove (h : Kept cfg s) (b : Bool) {pc : DecPc} (hs : s.dec ≠ .decode)
    (hpc : pc ≠ .decode) : Kept cfg { s with decoding := b, dec := pc } := by
  refine h.congr rfl rfl rfl rfl rfl ?_
  rw [inHand_of_ne hs, inHand_of_ne (s := { s with decoding := b, dec := pc }) hpc]

theorem Kept.decDequeue (h : Kept cfg s) (hpc : s.dec = .dequeue) :
    Kept cfg { decDequeue s with dec := .decode } := by
  have hkept := h.decoderKept
  rw [inHand_of_ne (by simp [hpc]), List.append_nil] at hkept
  refine ⟨dequeue_length_le h.decoderLen s.dChunk, h.playerLen, ?_, h.playerKept⟩
  cases hq : s.decoderQue with
  | nil => simpa [Client.decDequeue, State.inHand, History.queued, History.fed, hq, dequeue] using hkept
  | cons x xs =>
    simpa [Client.decDequeue, State.inHand, History.queued, History.fed, hq, dequeue] using hkept

theorem Kept.decDecode (h : Kept cfg s) (hpc : s.dec = .decode) (out : DecodeOut) {pc : DecPc}
    (hpc' : pc ≠ .decode) : Kept cfg { decDecode s out with dec := pc } := by
  refine h.congr rfl rfl rfl rfl rfl ?_
  rw [inHand_of_ne (s := { Client.decDecode s out with dec := pc }) hpc', List.append_nil]
  simp only [Client.decDecode, History.fed, marked_append, State.inHand, hpc, true_and]
  cases s.hist.fresh <;> simp [marked]

theorem Kept.decStep (h : Kept cfg s) (out : DecodeOut) : Kept cfg (decStep cfg s out) := by
  cases hpc : s.dec with
  | dequeue =>
    simp only [Client.decStep, hpc]
    exact h.decDequeue hpc
  | decode =>
    simp only [Client.decStep, hpc]
    exact h.decDecode hpc out (by split_ifs <;> simp)
  | insert ret =>
    simp only [Client.decStep, hpc]
    exact (h.insertPlayer s.pChunk).decMove s.decoding (by simp [Client.insertPlayer, hpc]) (by simp)
  | setDecoding =>
    simp only [Client.decStep, hpc]
    exact h.decMove true (by simp [hpc]) (by simp)
  | park =>
    simp only [Client.decStep, hpc]
    exact h.decMove false (by simp [hpc]) (by simp)
  | startAsleep | asleep =>
    simp only [Client.decStep, hpc]
    exact h.decMove s.decoding (by simp [hpc]) (by simp)
  | returned =>
    simp only [Client.decStep, hpc]
    exact h
  | _ =>
    simp only [Client.decStep, hpc]
    exact h.decMove s.decoding (by simp [hpc]) (by split_ifs <;> simp)

theorem countPlay_map_fst (es : List (Processed × ℕ)) :
    (countPlay es).map (·.1) = es.map (·.1) := by
  induction es with
  | nil => rfl
  | cons e es ih =>
    cases es with
    | nil => rfl
    | cons e' es => simpa [countPlay] using ih

theorem safePlayWrapper_served_fst (cfg : Config) (s : State) :
    (safePlayWrapper cfg s).hist.served.map (·.1) = s.hist.served.map (·.1) := by
  unfold safePlayWrapper
  dsimp only
  split_ifs
  · rfl
  · exact countPlay_map_fst s.hist.served
  · exact countPlay_map_fst s.hist.served
  · rfl

theorem safePlayWrapper_queues (cfg : Config) (s : State) :
    (safePlayWrapper cfg s).decoderQue = s.decoderQue ∧
      (safePlayWrapper cfg s).playerQue = s.playerQue ∧
      (safePlayWrapper cfg s).hist.offered = s.hist.offered ∧
      (safePlayWrapper cfg s).hist.put = s.hist.put ∧
      (safePlayWrapper cfg s).hist.fed ++ (safePlayWrapper cfg s).inHand =
        s.hist.fed ++ s.inHand := by
  unfold safePlayWrapper
  dsimp only
  split_ifs <;> exact ⟨rfl, rfl, rfl, rfl, rfl⟩

theorem Kept.playerStep (h : Kept cfg s) : Kept cfg (playerStep cfg s) := by
  have hmove : ∀ pc, Kept cfg { s with player := pc } := fun _ => h.congr rfl rfl rfl rfl rfl rfl
  cases hpc : s.player with
  | dequeue =>
    simp only [Client.playerStep, hpc]
    refine ⟨h.decoderLen, dequeue_length_le h.playerLen s.playChunk, h.decoderKept, ?_⟩
    have hkept := h.playerKept
    cases hq : s.playerQue with
    | nil => simpa [Client.playerDequeue, History.queuedPlayer, hq, dequeue] using hkept
    | cons x xs => simpa [Client.playerDequeue, History.queuedPlayer, hq, dequeue] using hkept
  | play =>
    simp only [Client.playerStep, hpc]
    obtain ⟨hdec, hplayer, hoffered, hput, hfed⟩ := safePlayWrapper_queues cfg s
    exact h.congr hdec hplayer hoffered hput (safePlayWrapper_served_fst cfg s) hfed
  | startTest =>
    simp only [Client.playerStep, hpc]
    cases cfg.mode <;> exact hmove _
  | ended =>
    simp only [Client.playerStep, hpc]
    exact h
  | _ =>
    simp only [Client.playerStep, hpc]
    exact hmove _

theorem Kept.inputStep (h : Kept cfg s) (i : Input) : Kept cfg (inputStep s i) := by
  cases i <;> exact h.congr rfl rfl rfl rfl rfl rfl

theorem Kept.step (h : Kept cfg s) (i : Label) : Kept cfg (step cfg s i) := by
  cases i with
  | rx d => exact h.rxStep d
  | dec out => exact h.decStep out
  | player => exact h.playerStep
  | input i => exact h.inputStep i

theorem exec_kept (cfg : Config) (is : List Label) : Kept cfg (exec cfg is) :=
  fold_invariant is (start_kept cfg) fun _ i h => h.step i

theorem Inv.rxInsert (h : Inv cfg s) (hroom : rxQueueFull cfg s = false) {pc : RxPc}
    (hpc : RxOk s.innited False pc) : Inv cfg { rxInsert cfg s with rx := pc } := by
  have hkept : Kept cfg { Client.rxInsert cfg s with rx := pc } :=
    h.kept.rxInsert.congr rfl rfl rfl rfl rfl rfl
  cases hm : cfg.mode with
  | wav =>
    have hdec := h.wavDec hm
    have hne : s.playerQue.length ≠ cfg.playerCap := by simpa [rxQueueFull, hm] using hroom
    simp only [Client.rxInsert, hm, insertPlayer] at hkept ⊢
    exact {
      kept := hkept
      rxOk := hpc.mono id False.elim
      decOk := by simp only [hdec]; trivial
      wavDec := h.wavDec
      fresh := h.fresh
      offeredRoom := h.offeredRoom
      putRoom := List.forall_mem_append.mpr ⟨h.putRoom, by simpa using hne⟩ }
  | mp3 =>
    have hne : s.decoderQue.length ≠ cfg.decoderCap := by simpa [rxQueueFull, hm] using hroom
    simp only [Client.rxInsert, hm] at hkept ⊢
    exact {
      kept := hkept
      rxOk := hpc.mono id False.elim
      decOk := h.decOk.mono id id fun havail => enqueue_ne_nil havail _
      wavDec := h.wavDec
      fresh := h.fresh
      offeredRoom := List.forall_mem_append.mpr ⟨h.offeredRoom, by simpa using hne⟩
      putRoom := h.putRoom }

theorem Inv.rxMove (h : Inv cfg s) {pc : RxPc} (bufs : Buffers) (go reading : Bool) (r : ℤ)
    (hpc : RxOk s.innited (rxQueueFull cfg s = false) pc) :
    Inv cfg { s with bufs := bufs, ready2Go := go, reading := reading, rxResult := r, rx := pc } where
  kept := h.kept.congr rfl rfl rfl rfl rfl rfl
  rxOk := hpc
  decOk := h.decOk
  wavDec := h.wavDec
  fresh := h.fresh
  offeredRoom := h.offeredRoom
  putRoom := h.putRoom

theorem Inv.rxStep (h : Inv cfg s) (ht : cfg.Throttles) (d : Delivery) :
    Inv cfg (rxStep cfg s d) := by
  have hrx := h.rxOk
  cases hpc : s.rx with
  | insert r =>
    simp only [Client.rxStep, hpc]
    rw [hpc] at hrx
    exact h.rxInsert hrx trivial
  | waitLook =>
    simp only [Client.rxStep, hpc]
    refine h.rxMove _ _ _ _ ?_
    split_ifs with hwait
    · trivial
    · intro _
      exact rxQueueFull_of_mustWait (s := s) ht (by simpa using hwait)
  | lookFull =>
    simp only [Client.rxStep, hpc]
    refine h.rxMove _ _ _ _ ?_
    split_ifs with hfull
    · trivial
    · change rxQueueFull cfg s = false
      simpa using hfull
  | outer =>
    simp only [Client.rxStep, hpc]
    rw [hpc] at hrx
    refine h.rxMove _ _ _ _ ?_
    split_ifs with hlive
    · exact hrx hlive
    · trivial
  | waitInnited =>
    simp only [Client.rxStep, hpc]
    refine h.rxMove _ _ _ _ ?_
    split_ifs with hlive
    · trivial
    · exact fun hl => absurd hl hlive
  | inner | pausedTest | read =>
    simp only [Client.rxStep, hpc]
    rw [hpc] at hrx
    refine h.rxMove _ _ _ _ ?_
    split_ifs <;> trivial
  | setResult r =>
    simp only [Client.rxStep, hpc]
    refine h.rxMove _ _ _ _ ?_
    split_ifs <;> trivial
  | go | reading =>
    simp only [Client.rxStep, hpc]
    rw [hpc] at hrx
    exact h.rxMove _ _ _ _ hrx
  | waitPaused =>
    simp only [Client.rxStep, hpc]
    refine h.rxMove _ _ _ _ ?_
    split_ifs <;> trivial
  | init r | park | asleep =>
    simp only [Client.rxStep, hpc]
    exact h.rxMove _ _ _ _ trivial
  | returned =>
    simp only [Client.rxStep, hpc]
    exact h

theorem Inv.mode_mp3 (h : Inv cfg s) (hpc : s.dec ≠ .returned) : cfg.mode = .mp3 := by
  cases hm : cfg.mode with
  | wav => exact absurd (h.wavDec hm) hpc
  | mp3 => rfl

theorem Inv.decMove (h : Inv cfg s) {pc pc' : DecPc} (hpc : s.dec = pc) (b : Bool)
    (hok : DecOk s.innited cfg.DecoderWakes (s.decRoom cfg) (s.hist.decodes = [])
      (s.decoderQue ≠ []) (s.hist.fresh = true) pc')
    (hne : pc ≠ .returned ∧ pc ≠ .decode ∧ pc' ≠ .decode := by simp) :
    Inv cfg { s with decoding := b, dec := pc' } where
  kept := h.kept.decMove b (hpc ▸ hne.2.1) hne.2.2
  rxOk := h.rxOk
  decOk := hok
  wavDec hm := absurd (h.wavDec hm) (hpc ▸ hne.1)
  fresh := h.fresh
  offeredRoom := h.offeredRoom
  putRoom := h.putRoom

theorem rxQueueFull_decDequeue (h : Kept cfg s) (hroom : rxQueueFull cfg s = false) :
    rxQueueFull cfg { decDequeue s with dec := .decode } = false := by
  unfold rxQueueFull at hroom ⊢
  cases hm : cfg.mode with
  | wav =>
    simp only [hm] at hroom
    exact hroom
  | mp3 =>
    have hle := h.decoderLen
    have hpos := cfg.decoderCap_pos
    simp only [hm, decide_eq_false_iff_not, Client.decDequeue, dequeue_length] at hroom ⊢
    omega

theorem Inv.decDequeue (h : Inv cfg s) (hpc : s.dec = .dequeue) :
    Inv cfg { decDequeue s with dec := .decode } := by
  have hok := h.decOk
  rw [hpc] at hok
  exact {
    kept := h.kept.decDequeue hpc
    rxOk := h.rxOk.mono id (rxQueueFull_decDequeue h.kept)
    decOk := by
      refine ⟨hok.1, hok.2.imp_right fun havail => ?_⟩
      cases hq : s.decoderQue with
      | nil => exact absurd hq havail
      | cons x xs => simp [Client.decDequeue, hq]
    wavDec := fun hm => absurd (h.wavDec hm) (by simp [hpc])
    fresh := h.fresh
    offeredRoom := h.offeredRoom
    putRoom := h.putRoom }

theorem Inv.decDecode (h : Inv cfg s) (hpc : s.dec = .decode) (out : DecodeOut) {pc : DecPc}
    (hpc' : pc ≠ .decode)
    (hok' : s.decRoom cfg → ∀ wakes first avail fresh,
      DecOk s.innited wakes (s.decRoom cfg) first avail fresh pc) :
    Inv cfg { decDecode s out with dec := pc } := by
  have hok := h.decOk
  rw [hpc] at hok
  exact {
    kept := h.kept.decDecode hpc out hpc'
    rxOk := h.rxOk
    decOk := hok' hok.1 _ _ _ _
    wavDec := fun hm => absurd (h.wavDec hm) (by simp [hpc])
    fresh := by
      intro e he
      simp only [Client.decDecode] at he
      cases hd : s.hist.decodes with
      | nil => simp [hd] at he
      | cons d ds =>
        rw [hd, List.cons_append, List.tail_cons, List.mem_append, List.mem_singleton] at he
        rcases he with he | rfl
        · exact h.fresh e (by rw [hd]; exact he)
        · exact hok.2.resolve_left (by simp [hd])
    offeredRoom := h.offeredRoom
    putRoom := h.putRoom }

theorem Inv.decInsert (h : Inv cfg s) {ret : DecodeRet} (hpc : s.dec = .insert ret) :
    Inv cfg { insertPlayer cfg s s.pChunk with dec := .lookFull ret } := by
  have hroom : s.playerQue.length ≠ cfg.playerCap := by
    have hok := h.decOk
    rwa [hpc] at hok
  have hm := h.mode_mp3 (by simp [hpc])
  exact {
    kept := (h.kept.insertPlayer s.pChunk).decMove s.decoding (by simp [insertPlayer, hpc]) (by simp)
    rxOk := h.rxOk.mono id fun hr => by
      unfold rxQueueFull at hr ⊢
      simpa [hm, insertPlayer] using hr
    decOk := trivial
    wavDec := fun hw => absurd hw (by simp [hm])
    fresh := h.fresh
    offeredRoom := h.offeredRoom
    putRoom := List.forall_mem_append.mpr ⟨h.putRoom, by simpa using hroom⟩ }

theorem Inv.decStep (h : Inv cfg s) (ht : cfg.Throttles) (out : DecodeOut) :
    Inv cfg (decStep cfg s out) := by
  have hok := h.decOk
  cases hpc : s.dec with
  | dequeue =>
    simp only [Client.decStep, hpc]
    exact h.decDequeue hpc
  | decode =>
    simp only [Client.decStep, hpc]
    split_ifs
    · exact h.decDecode hpc out (by simp) fun hroom _ _ _ _ => hroom
    · exact h.decDecode hpc out (by simp) fun hroom _ _ _ _ => hroom
  | insert ret =>
    simp only [Client.decStep, hpc]
    exact h.decInsert hpc
  | startGo =>
    simp only [Client.decStep, hpc]
    rw [hpc] at hok
    split_ifs
    · exact h.decMove hpc s.decoding fun _ => ⟨hok.1, Or.inl hok.2⟩
    · exact h.decMove hpc s.decoding hok
  | startInnited =>
    simp only [Client.decStep, hpc]
    rw [hpc] at hok
    split_ifs
    · exact h.decMove hpc s.decoding hok
    · exact h.decMove hpc s.decoding fun _ => ⟨hok.1, Or.inl hok.2⟩
  | startAsleep =>
    simp only [Client.decStep, hpc]
    rw [hpc] at hok
    exact h.decMove hpc s.decoding hok
  | outer =>
    simp only [Client.decStep, hpc]
    rw [hpc] at hok
    split_ifs with hlive
    · exact h.decMove hpc s.decoding (hok hlive)
    · exact h.decMove hpc s.decoding trivial
  | setDecoding =>
    simp only [Client.decStep, hpc]
    rw [hpc] at hok
    exact h.decMove hpc true hok
  | inner =>
    simp only [Client.decStep, hpc]
    rw [hpc] at hok
    split_ifs
    · exact h.decMove hpc s.decoding hok
    · exact h.decMove hpc s.decoding trivial
  | lookFull ret =>
    simp only [Client.decStep, hpc]
    split_ifs with hfull
    · exact h.decMove hpc s.decoding trivial
    · exact h.decMove hpc s.decoding hfull
  | test ret =>
    simp only [Client.decStep, hpc]
    rw [hpc] at hok
    split_ifs
    · exact h.decMove hpc s.decoding trivial
    · exact h.decMove hpc s.decoding hok
  | pausedTest =>
    simp only [Client.decStep, hpc]
    rw [hpc] at hok
    split_ifs
    · exact h.decMove hpc s.decoding trivial
    · exact h.decMove hpc s.decoding hok
  | lookEmpty =>
    simp only [Client.decStep, hpc]
    rw [hpc] at hok
    split_ifs with hempty
    · exact h.decMove hpc s.decoding trivial
    · exact h.decMove hpc s.decoding ⟨hok, Or.inr (by simpa using hempty)⟩
  | waitFull =>
    simp only [Client.decStep, hpc]
    split_ifs with hfull
    · exact h.decMove hpc s.decoding trivial
    · exact h.decMove hpc s.decoding fun hwakes =>
        length_ne_of_not_almostFull (ht.dec (h.mode_mp3 (by simp [hpc])) hwakes)
          (by simpa using hfull)
  | waitEmpty =>
    simp only [Client.decStep, hpc]
    rw [hpc] at hok
    split_ifs with hempty
    · exact h.decMove hpc s.decoding trivial
    · have havail := Bool.eq_false_of_not_eq_true hempty
      have hwakes : cfg.DecoderWakes := ⟨_, h.kept.decoderLen, havail⟩
      refine h.decMove hpc s.decoding fun _ => ⟨hok hwakes, Or.inr fun hnil => ?_⟩
      exact pos_of_not_almostEmpty havail (by simp [hnil])
  | invalidTest | waitPaused =>
    simp only [Client.decStep, hpc]
    split_ifs <;> exact h.decMove hpc s.decoding trivial
  | waitInnited =>
    simp only [Client.decStep, hpc]
    split_ifs with hlive
    · exact h.decMove hpc s.decoding trivial
    · exact h.decMove hpc s.decoding fun hl => absurd hl hlive
  | park =>
    simp only [Client.decStep, hpc]
    exact h.decMove hpc false trivial
  | asleep =>
    simp only [Client.decStep, hpc]
    exact h.decMove hpc s.decoding trivial
  | returned =>
    simp only [Client.decStep, hpc]
    exact h

theorem rxQueueFull_playerDequeue (h : Kept cfg s) (hroom : rxQueueFull cfg s = false) :
    rxQueueFull cfg { playerDequeue s with player := .lookEmpty } = false := by
  unfold rxQueueFull at hroom ⊢
  cases hm : cfg.mode with
  | mp3 =>
    simp only [hm] at hroom
    exact hroom
  | wav =>
    have hle := h.playerLen
    have hpos := cfg.playerCap_pos
    simp only [hm, decide_eq_false_iff_not, Client.playerDequeue, dequeue_length] at hroom ⊢
    omega

/-- The player thread adds nothing to a queue and leaves the other threads where they are. -/
theorem Inv.playerStep (h : Inv cfg s) : Inv cfg (playerStep cfg s) := by
  have hkept := h.kept.playerStep
  cases hpc : s.player with
  | dequeue =>
    simp only [Client.playerStep, hpc] at hkept ⊢
    exact {
      kept := hkept
      rxOk := h.rxOk.mono id (rxQueueFull_playerDequeue h.kept)
      decOk := by
        refine h.decOk.mono id (fun hroom => ?_) id
        have hle := h.kept.playerLen
        have hpos := cfg.playerCap_pos
        simp only [State.decRoom, Client.playerDequeue, dequeue_length] at hroom ⊢
        omega
      wavDec := h.wavDec
      fresh := h.fresh
      offeredRoom := h.offeredRoom
      putRoom := h.putRoom }
  | play =>
    simp only [Client.playerStep, hpc, safePlayWrapper, Client.playChunk] at hkept ⊢
    split_ifs at hkept ⊢ <;>
      exact ⟨hkept, h.rxOk, h.decOk, h.wavDec, h.fresh, h.offeredRoom, h.putRoom⟩
  | startTest =>
    simp only [Client.playerStep, hpc] at hkept ⊢
    cases hm : cfg.mode <;> simp only [hm] at hkept ⊢ <;>
      exact ⟨hkept, h.rxOk, h.decOk, h.wavDec, h.fresh, h.offeredRoom, h.putRoom⟩
  | ended =>
    simp only [Client.playerStep, hpc]
    exact h
  | _ =>
    simp only [Client.playerStep, hpc] at hkept ⊢
    exact ⟨hkept, h.rxOk, h.decOk, h.wavDec, h.fresh, h.offeredRoom, h.putRoom⟩

theorem Inv.inputStep (h : Inv cfg s) (i : Input) : Inv cfg (inputStep s i) := by
  have hkept := h.kept.inputStep i
  cases i with
  | stop =>
    exact { h with
      kept := hkept
      rxOk := h.rxOk.mono (by simp [Client.inputStep]) id
      decOk := h.decOk.mono (by simp [Client.inputStep]) id id }
  | pause | clearReading | setDecoding => exact { h with kept := hkept }

theorem Inv.step (h : Inv cfg s) (ht : cfg.Throttles) (i : Label) : Inv cfg (step cfg s i) := by
  cases i with
  | rx d => exact h.rxStep ht d
  | dec out => exact h.decStep ht out
  | player => exact h.playerStep
  | input i => exact h.inputStep i

theorem exec_inv (ht : cfg.Throttles) (is : List Label) : Inv cfg (exec cfg is) :=
  fold_invariant is (start_inv cfg) fun _ i h => h.step ht i

end EmotionStreamer.Client
