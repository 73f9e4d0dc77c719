import EmotionStreamer.Pipes
import EmotionStreamer.ClientArrival
import EmotionStreamer.ClientPlayer
import EmotionStreamer.ClientDrain
import Mathlib.Data.List.Range

/-! A WAV stream from the song on the server to the output of the player: the server, the
network and the threads of the client side by side. -/
namespace EmotionStreamer.WavPlayback
open Runs Pipes Slices
open Client (Config State Label Delivery Processed Sized playerStep playerDequeue countPlay)

/-- The cache of the server behind `n` passes of its loop: every pass reads a chunk, or what
is left of the song, into its front. The first chunk is the cache behind the first pass. -/
def cacheAt (song : List UInt8) (c : ℕ) : ℕ → List UInt8
  | 0 => List.replicate c 0
  | n + 1 => splice (cacheAt song c n) 0 (slice song (n * c) c)

inductive ServerPc
  | reading | sending | stopped
  deriving DecidableEq, Repr

/-- `server_stream` in WAV mode, with the bytes that it has put on the socket. -/
structure Server where
  pc : ServerPc
  rest : List UInt8
  cache : List UInt8
  wire : List UInt8

def Server.start (song : List UInt8) (c : ℕ) : Server := ⟨.reading, song, List.replicate c 0, []⟩

inductive ServerEvent
  | read | readEnds | timeout | send (sent : ℕ) | sendFails

/-- `readEnds` is the end of the song, an error of `read` or a signal; a send may accept a part
of the chunk, and the loop goes on with the next one. -/
inductive ServerSteps (c : ℕ) : Server → ServerEvent → Server → Prop
  | read {s : Server} (pc : s.pc = .reading) (more : s.rest.take c ≠ []) :
      ServerSteps c s .read { s with
        pc := .sending
        rest := s.rest.drop c
        cache := splice s.cache 0 (s.rest.take c) }
  | readEnds {s : Server} (pc : s.pc = .reading) : ServerSteps c s .readEnds { s with pc := .stopped }
  | timeout {s : Server} (pc : s.pc = .sending) : ServerSteps c s .timeout s
  | send {s : Server} {sent : ℕ} (pc : s.pc = .sending) (pos : 0 < sent) (le : sent ≤ c) :
      ServerSteps c s (.send sent) { s with
        pc := .reading
        wire := s.wire ++ s.cache.take sent }
  | sendFails {s : Server} (pc : s.pc = .sending) :
      ServerSteps c s .sendFails { s with pc := .stopped }

def server (c : ℕ) : Writer UInt8 Server ServerEvent where
  step := ServerSteps c
  written := Server.wire
  closed s := s.pc = .stopped
  appends step := by
    cases step with
    | send => exact List.prefix_append _ _
    | _ => exact List.prefix_rfl
  final hstop step := by
    cases step <;> simp_all

/-- A step of a thread of the client. What `readsome` gives are the next bytes in the pipe, and
it gives none at the end of the stream only. -/
inductive ClientSteps (cfg : Config) (inside : List UInt8) (ended : Prop) :
    State × List UInt8 → Label → State × List UInt8 → Prop
  | intro {s : State} {taken : List UInt8} {i : Label}
      (front : ∀ d ∈ s.reads i, d.bytes <+: inside)
      (asked : ∀ d ∈ s.reads i, d.ret ≤ s.bufs.asked cfg.mode cfg.chunkSize)
      (eof : ∀ d ∈ s.reads i, d.ret = 0 → 0 < s.bufs.asked cfg.mode cfg.chunkSize →
        inside = [] ∧ ended) :
      ClientSteps cfg inside ended (s, taken) i
        (Client.step cfg s i, taken ++ (s.reads i).flatMap Delivery.bytes)

theorem reads_flatMap (s : State) (i : Label) {inside : List UInt8}
    (h : ∀ d ∈ s.reads i, d.bytes <+: inside) : (s.reads i).flatMap Delivery.bytes <+: inside := by
  cases i with
  | rx d =>
    simp only [State.reads] at h ⊢
    split_ifs at h ⊢
    · rw [List.flatMap_singleton]
      exact h d (List.mem_singleton_self d)
    · exact List.nil_prefix
  | _ => exact List.nil_prefix

def client (cfg : Config) : Reader UInt8 (State × List UInt8) Label where
  step := ClientSteps cfg
  taken := Prod.snd
  takes step := by
    cases step with
    | intro front => exact ⟨_, reads_flatMap _ _ front, rfl⟩

/-- The chunks of its queue that the player has passed to the output. -/
def output (s : State) : List (List UInt8) :=
  s.hist.served.flatMap fun e => List.replicate e.2 e.1.data

/-- The chunk that the player has dequeued and not dealt with yet. -/
def held (s : State) : List (List UInt8) := if s.playPending then [s.playChunk.data] else []

/-- Sends are of whole chunks, and reads bring whole chunks. -/
def Whole (cfg : Config) (p : Server × (State × List UInt8)) : ServerEvent ⊕ Label → Prop
  | .inl (.send sent) => sent = cfg.chunkSize.val
  | .inl _ => True
  | .inr i => ∀ d ∈ p.2.1.reads i, 0 < d.ret → d.ret = cfg.chunkSize.val

/-- What the client makes of the end of the stream: the chunk before it once more. -/
def again (song : List UInt8) (c k : ℕ) : List UInt8 :=
  if k ≤ 1 then List.replicate c 0 else cacheAt song c k

/-- The chunks behind the first one, up to chunk `k`. -/
def chunksTo (song : List UInt8) (c k : ℕ) : List (List UInt8) :=
  (List.range' 2 (k - 1)).map (cacheAt song c)

/-- No dequeued chunk was played twice, and the one in the hands of the player was not played
at all. -/
structure AtMostOnce (s : State) : Prop where
  served : ∀ e ∈ s.hist.served, e.2 ≤ 1
  pending : s.playPending = true → ∃ es, s.hist.served = es ++ [(s.playChunk, 0)]

/-- What only the player thread changes. -/
structure PlayerPart (s t : State) : Prop where
  player : t.player = s.player
  playChunk : t.playChunk = s.playChunk
  holding : t.hist.holding = s.hist.holding
  served : t.hist.served = s.hist.served

section
variable {cfg : Config} {s t : State} {i : Label}

theorem step_playerPart (hi : i ≠ .player) : PlayerPart s (Client.step cfg s i) := by
  cases i with
  | rx d =>
    cases hpc : s.rx with
    | insert r =>
      simp only [Client.step, Client.rxStep, hpc, Client.rxInsert]
      cases cfg.mode <;> exact ⟨rfl, rfl, rfl, rfl⟩
    | _ =>
      simp only [Client.step, Client.rxStep, hpc]
      exact ⟨rfl, rfl, rfl, rfl⟩
  | dec out =>
    cases hpc : s.dec <;> simp only [Client.step, Client.decStep, hpc] <;> exact ⟨rfl, rfl, rfl, rfl⟩
  | player => exact absurd rfl hi
  | input i => cases i <;> exact ⟨rfl, rfl, rfl, rfl⟩

theorem PlayerPart.pending (h : PlayerPart s t) : t.playPending = s.playPending := by
  rw [State.playPending, State.playPending, h.holding, h.player]

theorem AtMostOnce.congr (h : AtMostOnce s) (hp : PlayerPart s t) : AtMostOnce t := by
  refine ⟨hp.served ▸ h.served, fun hpending => ?_⟩
  rw [hp.served, hp.playChunk]
  exact h.pending (hp.pending ▸ hpending)

/-- A step of the player that leaves nothing in its hands. -/
theorem AtMostOnce.move (h : AtMostOnce s) {pc : Client.PlayerPc} (hpc : pc ≠ .lookEmpty ∧ pc ≠ .play) :
    AtMostOnce { s with player := pc } := by
  refine ⟨h.served, fun hpending => ?_⟩
  have hnone := (Client.settled_eq (s := { s with player := pc }) hpc.1 hpc.2).1
  rw [hnone] at hpending
  cases hpending

theorem AtMostOnce.dequeue (h : AtMostOnce s) :
    AtMostOnce { playerDequeue s with player := .lookEmpty } := by
  cases hq : s.playerQue with
  | nil =>
    refine ⟨by simpa [playerDequeue, hq] using h.served, fun hpending => ?_⟩
    simp [State.playPending, playerDequeue, hq] at hpending
  | cons x xs =>
    refine ⟨?_, fun _ => ⟨s.hist.served, by simp [playerDequeue, hq, Fifo.dequeue]⟩⟩
    intro e he
    have hmem : e ∈ s.hist.served ++ [(x, 0)] := by simpa [playerDequeue, hq] using he
    rcases List.mem_append.mp hmem with hmem | hmem
    · exact h.served e hmem
    · rw [List.mem_singleton.mp hmem]
      exact Nat.zero_le 1

theorem AtMostOnce.play (h : AtMostOnce s) (hok : s.PlayerOk) (hpc : s.player = .play) :
    ∀ e ∈ countPlay s.hist.served, e.2 ≤ 1 := by
  unfold State.PlayerOk at hok
  rw [hpc] at hok
  rcases hok.2 with hold | hnone
  · have hpending : s.playPending = true := by simp [State.playPending, hpc, hold]
    obtain ⟨es, hes⟩ := h.pending hpending
    rw [hes, Client.countPlay_concat]
    intro e he
    rcases List.mem_append.mp he with he | he
    · exact h.served e (hes ▸ List.mem_append_left _ he)
    · rw [List.mem_singleton.mp he]
  · rw [hnone]
    intro e he
    cases he

theorem AtMostOnce.playerStep (h : AtMostOnce s) (hok : s.PlayerOk) :
    AtMostOnce (playerStep cfg s) := by
  cases hpc : s.player with
  | dequeue =>
    simp only [Client.playerStep, hpc]
    exact h.dequeue
  | lookEmpty =>
    simp only [Client.playerStep, hpc]
    split_ifs
    · exact h.move (by simp)
    · refine ⟨h.served, fun hpending => h.pending ?_⟩
      simpa [State.playPending, hpc] using hpending
  | play =>
    simp only [Client.playerStep, hpc]
    refine ⟨?_, fun hpending => by simp [State.playPending] at hpending⟩
    change ∀ e ∈ (Client.safePlayWrapper cfg s).hist.served, e.2 ≤ 1
    rw [Client.safePlayWrapper_served]
    split_ifs
    · exact h.play hok hpc
    · exact h.served
  | startTest =>
    simp only [Client.playerStep, hpc]
    cases cfg.mode <;> exact h.move (by split_ifs <;> simp)
  | ended =>
    simp only [Client.playerStep, hpc]
    exact h
  | startAsleep | park | asleep =>
    simp only [Client.playerStep, hpc]
    exact h.move (by simp)
  | _ =>
    simp only [Client.playerStep, hpc]
    exact h.move (by split_ifs <;> simp)

theorem playedData_sublist {served : List (Processed × ℕ)} (h : ∀ e ∈ served, e.2 ≤ 1) :
    (served.flatMap fun e => List.replicate e.2 e.1.data).Sublist (served.map (·.1.data)) := by
  induction served with
  | nil => exact List.Sublist.refl _
  | cons e es ih =>
    rw [List.flatMap_cons, List.map_cons]
    have hrest := ih fun e he => h e (List.mem_cons_of_mem _ he)
    have hcount := h e List.mem_cons_self
    rcases Nat.le_one_iff_eq_zero_or_eq_one.mp hcount with hzero | hone
    · rw [hzero]
      exact hrest.cons _
    · rw [hone]
      exact hrest.cons_cons _

/-- Only the player takes from its queue. -/
theorem playerQue_nil (hi : i ≠ .player) (h : (Client.step cfg s i).playerQue = []) :
    s.playerQue = [] := by
  by_contra hne
  refine absurd h ?_
  cases i with
  | rx d =>
    cases hpc : s.rx with
    | insert r =>
      simp only [Client.step, Client.rxStep, hpc, Client.rxInsert]
      cases cfg.mode with
      | wav => exact Fifo.enqueue_ne_nil hne _
      | mp3 => exact hne
    | _ =>
      simp only [Client.step, Client.rxStep, hpc]
      exact hne
  | dec out =>
    cases hpc : s.dec with
    | insert ret =>
      simp only [Client.step, Client.decStep, hpc]
      exact Fifo.enqueue_ne_nil hne _
    | _ =>
      simp only [Client.step, Client.decStep, hpc]
      exact hne
  | player => exact absurd rfl hi
  | input i => cases i <;> exact hne

/-- The chunk dequeued last is not played while there is nothing behind it. -/
def LastUnplayed (s : State) : Prop :=
  s.playerQue = [] → ∀ e ∈ s.hist.served.getLast?, e.2 = 0

theorem LastUnplayed.playerStep (h : LastUnplayed s) (hok : s.PlayerOk) :
    LastUnplayed (playerStep cfg s) := by
  cases hpc : s.player with
  | dequeue =>
    simp only [Client.playerStep, hpc]
    cases hq : s.playerQue with
    | nil => simpa [LastUnplayed, playerDequeue, hq, Fifo.dequeue] using h hq
    | cons x xs => simp [LastUnplayed, playerDequeue, hq]
  | play =>
    simp only [Client.playerStep, hpc]
    intro hnil
    unfold State.PlayerOk at hok
    rw [hpc] at hok
    exact absurd ((Client.safePlayWrapper_queues cfg s).2.1.symm.trans hnil) hok.1
  | startTest =>
    simp only [Client.playerStep, hpc]
    cases cfg.mode <;> exact h
  | _ =>
    simp only [Client.playerStep, hpc]
    exact h

/-- Step lemma of the player's last chunk. -/
theorem LastUnplayed.step (h : LastUnplayed s) (hok : s.PlayerOk) (i : Label) :
    LastUnplayed (Client.step cfg s i) := by
  by_cases hi : i = .player
  · subst hi
    exact h.playerStep hok
  · intro hnil
    rw [(step_playerPart hi).served]
    exact h (playerQue_nil hi hnil)

/-- What is output has something behind it in what was dequeued or is queued. -/
theorem output_sublist (h : AtMostOnce s) (hlast : LastUnplayed s) : (output s).Sublist
    (s.hist.served.map (·.1.data) ++ s.playerQue.map (·.data)).dropLast := by
  cases hq : s.playerQue with
  | nil =>
    rw [List.map_nil, List.append_nil, output]
    rcases List.eq_nil_or_concat s.hist.served with hnone | ⟨es, e, hes⟩
    · rw [hnone]
      exact List.Sublist.refl _
    · have hzero : e.2 = 0 := hlast hq e (by simp [hes])
      have honce : ∀ e ∈ es, e.2 ≤ 1 := fun e he => h.served e (by simp [hes, he])
      rw [List.concat_eq_append] at hes
      rw [hes, List.flatMap_append, List.flatMap_singleton, hzero, List.replicate_zero,
        List.append_nil, List.map_append, List.map_singleton, List.dropLast_concat]
      exact playedData_sublist honce
  | cons x xs =>
    rw [List.dropLast_append_of_ne_nil (by simp)]
    exact (playedData_sublist h.served).trans (List.sublist_append_left _ _)

end

section
variable {song : List UInt8} {c m n k : ℕ}

theorem cacheAt_length (song : List UInt8) (c n : ℕ) : (cacheAt song c n).length = c := by
  induction n with
  | zero => exact List.length_replicate
  | succ n ih =>
    rw [cacheAt, splice_length, ih]
    rw [ih, slice, List.length_take]
    omega

/-- A chunk that the song fills. -/
theorem cacheAt_full (h : (n + 1) * c ≤ song.length) :
    cacheAt song c (n + 1) = slice song (n * c) c := by
  rw [Nat.succ_mul] at h
  rw [cacheAt, splice_zero, slice_length h, List.drop_eq_nil_of_le (cacheAt_length song c n).le,
    List.append_nil]

/-- The bytes of the first `m` chunks. -/
def stream (song : List UInt8) (c m : ℕ) : List UInt8 :=
  (List.range m).flatMap fun n => cacheAt song c (n + 1)

theorem stream_succ (song : List UInt8) (c m : ℕ) :
    stream song c (m + 1) = stream song c m ++ cacheAt song c (m + 1) := by
  rw [stream, List.range_succ, List.flatMap_append, List.flatMap_singleton]
  rfl

theorem stream_length (song : List UInt8) (c m : ℕ) : (stream song c m).length = m * c := by
  induction m with
  | zero => rw [Nat.zero_mul]; rfl
  | succ m ih => rw [stream_succ, List.length_append, ih, cacheAt_length, Nat.succ_mul]

/-- A whole chunk that comes behind `k` others is chunk `k + 1`. -/
theorem eq_cacheAt_of_prefix (hc : 0 < c) {x : List UInt8} (hx : x.length = c)
    (h : stream song c k ++ x <+: stream song c m) : x = cacheAt song c (k + 1) := by
  have hle := h.length_le
  rw [List.length_append, stream_length, stream_length, hx, ← Nat.succ_mul] at hle
  have hlt : k < m := Nat.lt_of_succ_le (Nat.le_of_mul_le_mul_right hle hc)
  have hx' : slice (stream song c m) (c * k) c = x := by
    obtain ⟨rest, hrest⟩ := h
    rw [← hrest, List.append_assoc, Nat.mul_comm, ← stream_length song c k]
    conv_lhs => rw [← Nat.add_zero (stream song c k).length]
    rw [slice_append_right, ← hx, slice_append_left]
  rw [← hx', stream, slice_flatMap (fun n => cacheAt_length song c (n + 1)),
    List.getElem?_range hlt]
  rfl

/-- What the server has sent behind `m` sends, and what it has in its hands. -/
structure Streamed (song : List UInt8) (c : ℕ) (s : Server) (m : ℕ) : Prop where
  wire : s.wire = stream song c m
  reading : s.pc = .reading → s.rest = song.drop (m * c) ∧ s.cache = cacheAt song c m
  sending : s.pc = .sending → s.rest = song.drop ((m + 1) * c) ∧ s.cache = cacheAt song c (m + 1)

theorem start_streamed (song : List UInt8) (c : ℕ) : Streamed song c (.start song c) 0 := by
  refine ⟨rfl, fun _ => ⟨?_, rfl⟩, (nomatch ·)⟩
  rw [Nat.zero_mul]
  rfl

/-- Step lemma of the server. -/
theorem Streamed.step {s t : Server} {e : ServerEvent} (h : Streamed song c s m)
    (hstep : ServerSteps c s e t) (hwhole : ∀ sent, e = .send sent → sent = c) :
    ∃ m, Streamed song c t m := by
  cases hstep with
  | read pc more =>
    obtain ⟨hrest, hcache⟩ := h.reading pc
    refine ⟨m, h.wire, (nomatch ·), fun _ => ⟨?_, ?_⟩⟩
    · rw [hrest, List.drop_drop, Nat.succ_mul]
    · rw [hcache, hrest]
      rfl
  | readEnds pc => exact ⟨m, h.wire, (nomatch ·), (nomatch ·)⟩
  | timeout pc => exact ⟨m, h⟩
  | send pc pos le =>
    obtain ⟨hrest, hcache⟩ := h.sending pc
    refine ⟨m + 1, ?_, fun _ => ⟨hrest, hcache⟩, (nomatch ·)⟩
    rw [hwhole _ rfl, hcache, List.take_of_length_le (cacheAt_length song c (m + 1)).le, h.wire,
      stream_succ]
  | sendFails pc => exact ⟨m, h.wire, (nomatch ·), (nomatch ·)⟩

end

/-- The rx thread has seen the end of the stream or an error, and reads no more. -/
def Over : Client.RxPc → Prop
  | .init r => Client.readResultInvalid r = true
  | .insert r => Client.readResultInvalid r = true
  | .setResult r => Client.readResultInvalid r = true
  | .returned => True
  | _ => False

/-- What the rx thread has made of `k` whole chunks, and of the end of the stream. -/
structure Fetched (song : List UInt8) (cfg : Config) (k : ℕ) (extra : List (List UInt8)) (s : State) :
    Prop where
  sized : Sized cfg.chunkSize s.bufs
  first : s.bufs.first = true → k = 0 ∨ ∃ r, s.rx = .init r
  begun : (s.bufs.first = false ∨ ∃ r, s.rx = .init r) → Over s.rx ∨ 1 ≤ k
  stale : s.bufs.rChunk.take cfg.chunkSize.val = again song cfg.chunkSize.val k
  made : s.hist.put.map (·.1.data) ++ s.pending cfg = chunksTo song cfg.chunkSize.val k ++ extra
  readOver : extra ≠ [] → Over s.rx

section
variable {song : List UInt8} {cfg : Config} {s t : State} {k : ℕ} {extra : List (List UInt8)}
  {d : Delivery}

theorem start_fetched (hmode : cfg.mode = .wav) (song : List UInt8) :
    Fetched song cfg 0 [] (.start cfg) where
  sized := Client.init_sized _ _
  first _ := Or.inl rfl
  begun h := by
    rcases h with h | ⟨r, h⟩
    · simp [State.start, Client.Buffers.init, hmode] at h
    · cases h
  stale := by
    simp [State.start, Client.Buffers.init, again, Client.ChunkSize.decoder]
  made := rfl
  readOver h := absurd rfl h

theorem Fetched.congr (h : Fetched song cfg k extra s) (hbufs : t.bufs = s.bufs)
    (hput : t.hist.put = s.hist.put) (hrx : t.rx = s.rx) : Fetched song cfg k extra t := by
  have hpending : t.pending cfg = s.pending cfg := by rw [State.pending, State.pending, hrx, hbufs]
  exact {
    sized := hbufs ▸ h.sized
    first := by rw [hbufs, hrx]; exact h.first
    begun := by rw [hbufs, hrx]; exact h.begun
    stale := hbufs ▸ h.stale
    made := by rw [hput, hpending]; exact h.made
    readOver := by rw [hrx]; exact h.readOver }

/-- A step of the rx thread between two reads. -/
theorem Fetched.move (h : Fetched song cfg k extra s) {pc : Client.RxPc}
    (hs : s.pending cfg = []) (ht : ({ s with rx := pc } : State).pending cfg = [])
    (hinit : (∀ r, s.rx ≠ .init r) ∧ ∀ r, pc ≠ .init r) (hover : Over s.rx → Over pc) :
    Fetched song cfg k extra { s with rx := pc } where
  sized := h.sized
  first hfirst := Or.inl ((h.first hfirst).resolve_right fun ⟨r, hr⟩ => hinit.1 r hr)
  begun hbegun := by
    rcases hbegun with hfirst | ⟨r, hr⟩
    · exact (h.begun (Or.inl hfirst)).imp_left hover
    · exact absurd hr (hinit.2 r)
  stale := h.stale
  made := by
    have hmade := h.made
    rw [hs] at hmade
    rw [ht]
    exact hmade
  readOver hextra := hover (h.readOver hextra)

/-- A read that brings nothing, because of a timeout or of an error. -/
theorem Fetched.readNone (h : Fetched song cfg k extra s) (hmode : cfg.mode = .wav)
    (hpc : s.rx = .read) (hneg : d.ret < 0) :
    Fetched song cfg k extra (Client.rxStep cfg s d) := by
  have hfill : s.bufs.fill cfg.mode cfg.chunkSize d = s.bufs := by
    simp [Client.Buffers.fill, Client.bytes_of_neg hneg, splice_zero, hmode]
  have hstep : Client.rxStep cfg s d = { s with rx := .setResult d.ret } := by
    simp only [Client.rxStep, hpc, hfill, hneg, ↓reduceIte]
  rw [hstep]
  exact h.move (Client.pending_eq_nil (by simp [hpc])) (Client.pending_eq_nil (by simp))
    ⟨by simp [hpc], by simp⟩ (by simp [hpc, Over])

theorem Fetched.extra_nil (h : Fetched song cfg k extra s) (hpc : s.rx = .read) : extra = [] := by
  by_contra hextra
  have hover := h.readOver hextra
  rw [hpc] at hover
  exact hover

theorem Fetched.zero (h : Fetched song cfg k extra s) (hpc : s.rx = .read)
    (hfirst : s.bufs.first = true) : k = 0 :=
  (h.first hfirst).resolve_right fun ⟨_, hr⟩ => nomatch hpc.symm.trans hr

theorem Fetched.pos (h : Fetched song cfg k extra s) (hpc : s.rx = .read)
    (hfirst : s.bufs.first = false) : 1 ≤ k := by
  rcases h.begun (Or.inl hfirst) with hover | hk
  · rw [hpc] at hover
    exact hover.elim
  · exact hk

theorem rxStep_first (hpc : s.rx = .read) (hfirst : s.bufs.first = true) (hret : 0 ≤ d.ret) :
    Client.rxStep cfg s d =
      { s with bufs := s.bufs.fill cfg.mode cfg.chunkSize d, rx := .init d.ret } := by
  simp only [Client.rxStep, hpc, hfirst, Int.not_lt.mpr hret, ↓reduceIte]

theorem rxStep_later (hpc : s.rx = .read) (hfirst : s.bufs.first = false) (hret : 0 ≤ d.ret) :
    Client.rxStep cfg s d =
      { s with bufs := s.bufs.fill cfg.mode cfg.chunkSize d, rx := .insert d.ret } := by
  simp only [Client.rxStep, hpc, hfirst, Int.not_lt.mpr hret, ↓reduceIte, Bool.false_eq_true]

/-- The first read only initialises the player, and the chunk is not played. -/
theorem Fetched.readFirst (h : Fetched song cfg k extra s) (hpc : s.rx = .read)
    (hfirst : s.bufs.first = true) (hret : 0 ≤ d.ret) {k' : ℕ} (hk : k' ≤ 1)
    (hover : Client.readResultInvalid d.ret = true ∨ 1 ≤ k') :
    Fetched song cfg k' [] (Client.rxStep cfg s d) := by
  have hzero := h.zero hpc hfirst
  have hextra := h.extra_nil hpc
  have hmade := h.made
  have hstale := h.stale
  subst hzero hextra
  rw [Client.pending_eq_nil (by simp [hpc]), List.append_nil, List.append_nil] at hmade
  rw [rxStep_first hpc hfirst hret]
  simp only [Client.Buffers.fill, hfirst, ↓reduceIte]
  refine ⟨⟨h.sized.rChunk, h.sized.readTcpChk⟩, fun _ => Or.inr ⟨_, rfl⟩, fun _ => hover, ?_, ?_,
    fun hne => absurd rfl hne⟩
  · rw [hstale, again, again, if_pos hk, if_pos (Nat.zero_le 1)]
  · have hnone : chunksTo song cfg.chunkSize.val k' = chunksTo song cfg.chunkSize.val 0 := by
      rw [chunksTo, chunksTo, Nat.sub_eq_zero_of_le hk]
    rw [hnone, ← hmade]
    simp [State.pending]

/-- A later read leaves in the buffer what it brings, in front of what was there. -/
theorem Fetched.readLater (h : Fetched song cfg k extra s) (hmode : cfg.mode = .wav)
    (hpc : s.rx = .read) (hfirst : s.bufs.first = false) (hret : 0 ≤ d.ret)
    (hle : d.bytes.length ≤ cfg.chunkSize.val) {k' : ℕ} {extra' : List (List UInt8)} (hk : 1 ≤ k')
    (hstale : d.bytes ++ (again song cfg.chunkSize.val k).drop d.bytes.length =
      again song cfg.chunkSize.val k')
    (hmade : chunksTo song cfg.chunkSize.val k ++ [again song cfg.chunkSize.val k'] =
      chunksTo song cfg.chunkSize.val k' ++ extra')
    (hover : extra' ≠ [] → Client.readResultInvalid d.ret = true) :
    Fetched song cfg k' extra' (Client.rxStep cfg s d) := by
  have hqueue : d.bytes.length ≤ cfg.chunkSize.queue cfg.mode := by rwa [hmode]
  obtain ⟨hfirst', hsized, hchunk, -⟩ := Client.fill_later h.sized hfirst hqueue
  have hbefore : s.bufs.stale cfg.mode cfg.chunkSize = again song cfg.chunkSize.val k := by
    rw [hmode]
    exact h.stale
  rw [hbefore, hstale] at hchunk
  have hput := h.made
  rw [h.extra_nil hpc, Client.pending_eq_nil (by simp [hpc]), List.append_nil, List.append_nil] at hput
  rw [rxStep_later hpc hfirst hret]
  refine ⟨hsized, fun hf => ?_, fun _ => Or.inr hk, ?_, ?_, hover⟩
  · exact absurd (hfirst'.symm.trans hf) Bool.false_ne_true
  · rw [hmode] at hchunk ⊢
    exact hchunk
  · simp only [State.pending, hput, hchunk]
    exact hmade

/-- At the end of the stream, the chunk before it is there once more. -/
theorem Fetched.readEnd (h : Fetched song cfg k extra s) (hmode : cfg.mode = .wav)
    (hpc : s.rx = .read) (hret : d.ret = 0) : ∃ extra',
      (extra' = [] ∨ extra' = [again song cfg.chunkSize.val k]) ∧
        Fetched song cfg k extra' (Client.rxStep cfg s d) := by
  have hbytes : d.bytes = [] := by
    apply List.length_eq_zero_iff.mp
    rw [d.length_bytes, hret]
    rfl
  have hinvalid : Client.readResultInvalid d.ret = true := by
    rw [hret]
    rfl
  cases hfirst : s.bufs.first with
  | true =>
    have hzero := h.zero hpc hfirst
    exact ⟨[], Or.inl rfl, h.readFirst hpc hfirst hret.ge (by omega) (Or.inl hinvalid)⟩
  | false =>
    have hk := h.pos hpc hfirst
    refine ⟨_, Or.inr rfl, h.readLater hmode hpc hfirst hret.ge ?_ hk ?_ rfl fun _ => hinvalid⟩
    · rw [hbytes]
      exact Nat.zero_le _
    · rw [hbytes]
      rfl

theorem chunksTo_succ (hk : 1 ≤ k) (c : ℕ) :
    chunksTo song c (k + 1) = chunksTo song c k ++ [cacheAt song c (k + 1)] := by
  obtain ⟨j, rfl⟩ := Nat.exists_eq_add_of_le' hk
  rw [chunksTo, chunksTo, Nat.add_sub_cancel, Nat.add_sub_cancel, List.range'_1_concat,
    List.map_append, Nat.add_comm 2 j]
  rfl

/-- A whole chunk behind `k` others. -/
theorem Fetched.readWhole (h : Fetched song cfg k extra s) (hmode : cfg.mode = .wav)
    (hpc : s.rx = .read) (hpos : 0 < d.ret)
    (hbytes : d.bytes = cacheAt song cfg.chunkSize.val (k + 1)) :
    Fetched song cfg (k + 1) [] (Client.rxStep cfg s d) := by
  have hlen := cacheAt_length song cfg.chunkSize.val (k + 1)
  cases hfirst : s.bufs.first with
  | true =>
    have hzero := h.zero hpc hfirst
    exact h.readFirst hpc hfirst hpos.le (by omega) (Or.inr (Nat.le_add_left 1 k))
  | false =>
    have hk := h.pos hpc hfirst
    have hagain : again song cfg.chunkSize.val (k + 1) = cacheAt song cfg.chunkSize.val (k + 1) := by
      rw [again, if_neg (by omega)]
    refine h.readLater hmode hpc hfirst hpos.le (hbytes ▸ hlen.le) (Nat.le_add_left 1 k) ?_ ?_
      fun hne => absurd rfl hne
    · have hstale : (again song cfg.chunkSize.val k).length = cfg.chunkSize.val := by
        rw [again]
        split_ifs
        · exact List.length_replicate
        · exact cacheAt_length _ _ _
      rw [hagain, hbytes, List.drop_eq_nil_of_le (hstale.trans hlen.symm).le, List.append_nil]
    · rw [hagain, List.append_nil, chunksTo_succ hk]

theorem Fetched.init (h : Fetched song cfg k extra s) {r : ℤ} (hpc : s.rx = .init r) :
    Fetched song cfg k extra (Client.rxStep cfg s d) := by
  have hmade := h.made
  have hover := h.readOver
  have hbegun := h.begun (Or.inr ⟨r, hpc⟩)
  rw [Client.pending_eq_nil (by simp [hpc])] at hmade
  rw [hpc] at hover hbegun
  simp only [Client.rxStep, hpc]
  refine ⟨⟨h.sized.rChunk, h.sized.readTcpChk⟩, fun hf => ?_, fun _ => hbegun, h.stale, ?_, hover⟩
  · cases hf
  · rw [← hmade]
    simp [State.pending]

/-- The chunk that has been read is put into the queue of the player. -/
theorem Fetched.insert (h : Fetched song cfg k extra s) (hmode : cfg.mode = .wav) {r : ℤ}
    (hpc : s.rx = .insert r) : Fetched song cfg k extra (Client.rxStep cfg s d) := by
  have hmade := h.made
  have hover := h.readOver
  have hbegun := h.begun
  have hfirst := h.first
  simp only [State.pending, hpc] at hmade
  rw [hpc] at hover hbegun hfirst
  simp only [Client.rxStep, hpc, Client.rxInsert, hmode, Client.insertPlayer]
  refine ⟨h.sized, fun hf => ?_, fun hb => ?_, h.stale, ?_, hover⟩
  · refine (hfirst hf).imp_right fun hread => ?_
    obtain ⟨_, hr⟩ := hread
    cases hr
  · refine hbegun (hb.imp_right fun hinit => ?_)
    obtain ⟨_, hr⟩ := hinit
    cases hr
  · rw [← hmade]
    simp [State.pending, hmode]

/-- The other steps of the rx thread. -/
theorem Fetched.rxStep (h : Fetched song cfg k extra s) (hmode : cfg.mode = .wav)
    (hpc : s.rx ≠ .read) : Fetched song cfg k extra (Client.rxStep cfg s d) := by
  cases hrx : s.rx with
  | read => exact absurd hrx hpc
  | init r => exact h.init hrx
  | insert r => exact h.insert hmode hrx
  | setResult r =>
    have hstep : Fetched song cfg k extra
        { s with rx := if Client.readResultInvalid r then .returned else .lookFull } := by
      refine h.move (Client.pending_eq_nil (by simp [hrx])) (Client.pending_eq_nil ?_)
        ⟨by simp [hrx], ?_⟩ ?_
      · intro r'
        dsimp only
        split_ifs <;> simp
      · intro r'
        split_ifs <;> simp
      · rw [hrx]
        intro hover
        rw [Over] at hover
        rw [if_pos hover]
        trivial
    simp only [Client.rxStep, hrx]
    exact hstep.congr rfl rfl rfl
  | returned =>
    simp only [Client.rxStep, hrx]
    exact h
  | go | reading | park | asleep =>
    simp only [Client.rxStep, hrx]
    exact (h.move (Client.pending_eq_nil (by simp [hrx])) (Client.pending_eq_nil (by simp))
      ⟨by simp [hrx], by simp⟩ (by simp [hrx, Over])).congr rfl rfl rfl
  | _ =>
    simp only [Client.rxStep, hrx]
    refine h.move (Client.pending_eq_nil (by simp [hrx])) (Client.pending_eq_nil ?_)
      ⟨by simp [hrx], ?_⟩ (by simp [hrx, Over])
    · intro r
      dsimp only
      split_ifs <;> simp
    · intro r
      split_ifs <;> simp

/-- A step without a read. -/
theorem Fetched.step (h : Fetched song cfg k extra s) (hmode : cfg.mode = .wav)
    (hinv : Client.Inv cfg s) {i : Label} (hi : s.reads i = []) :
    Fetched song cfg k extra (Client.step cfg s i) := by
  cases i with
  | rx d =>
    refine h.rxStep hmode fun hpc => ?_
    simp [State.reads, hpc] at hi
  | dec out =>
    have hstays : Client.decStep cfg s out = s := by
      simp only [Client.decStep, hinv.wavDec hmode]
    rw [Client.step, hstays]
    exact h
  | player =>
    have hframe := Client.playerStep_frame cfg s
    exact h.congr (Client.playerStep_rxView cfg s).1 hframe.put hframe.rx
  | input i => cases i <;> exact h.congr rfl rfl rfl

end

/-- The client has taken `k` chunks, and `extra` stands for the end of the stream once it has
seen it. -/
structure Arrived (song : List UInt8) (cfg : Config) (p : Server × (State × List UInt8)) (k : ℕ)
    (extra : List (List UInt8)) : Prop where
  taken : p.2.2 = stream song cfg.chunkSize.val k
  ended : extra = [] ∨ p.1.pc = .stopped ∧
    inside (server cfg.chunkSize.val) (client cfg) p.1 p.2 = [] ∧
      extra = [again song cfg.chunkSize.val k]

structure Playing (song : List UInt8) (cfg : Config) (p : Server × (State × List UInt8)) (k : ℕ)
    (extra : List (List UInt8)) : Prop where
  arrived : Arrived song cfg p k extra
  sent : ∃ m, Streamed song cfg.chunkSize.val p.1 m
  fetched : Fetched song cfg k extra p.2.1
  inOrder : InOrder (server cfg.chunkSize.val) (client cfg) p
  inv : Client.Inv cfg p.2.1

section
variable {song : List UInt8} {cfg : Config} {p q : Server × (State × List UInt8)} {k : ℕ}
  {extra : List (List UInt8)} {l : ServerEvent ⊕ Label} {s : State} {i : Label}

theorem start_playing (hmode : cfg.mode = .wav) (song : List UInt8) :
    Playing song cfg (.start song cfg.chunkSize.val, (.start cfg, [])) 0 [] where
  arrived := ⟨rfl, Or.inl rfl⟩
  sent := ⟨0, start_streamed _ _⟩
  fetched := start_fetched hmode song
  inOrder := List.prefix_rfl
  inv := Client.start_inv cfg

/-- A read of the rx thread. -/
theorem Playing.read {srv : Server} {taken : List UInt8} {d : Delivery}
    (h : Playing song cfg (srv, (s, taken)) k extra) (hmode : cfg.mode = .wav)
    (hc : 0 < cfg.chunkSize.val) (hpc : s.rx = .read)
    (hfront : d.bytes <+: inside (server cfg.chunkSize.val) (client cfg) srv (s, taken))
    (heof : d.ret = 0 → 0 < s.bufs.asked cfg.mode cfg.chunkSize →
      inside (server cfg.chunkSize.val) (client cfg) srv (s, taken) = [] ∧ srv.pc = .stopped)
    (hwhole : 0 < d.ret → d.ret = cfg.chunkSize.val)
    (hinOrder : InOrder (server cfg.chunkSize.val) (client cfg)
      (srv, (Client.rxStep cfg s d, taken ++ d.bytes))) :
    ∃ k extra, Playing song cfg (srv, (Client.rxStep cfg s d, taken ++ d.bytes)) k extra := by
  have hinv := h.inv.step (.inl hmode) (.rx d)
  have htaken : taken = stream song cfg.chunkSize.val k := h.arrived.taken
  obtain ⟨m, hm⟩ := h.sent
  rcases lt_trichotomy d.ret 0 with hneg | hzero | hpos
  · have hnone : taken ++ d.bytes = taken := by
      rw [Client.bytes_of_neg hneg, List.append_nil]
    rw [hnone] at hinOrder ⊢
    exact ⟨k, extra, ⟨htaken, h.arrived.ended⟩, h.sent, h.fetched.readNone hmode hpc hneg,
      hinOrder, hinv⟩
  · have hasked : s.bufs.asked cfg.mode cfg.chunkSize = cfg.chunkSize.val := by
      simp [Client.Buffers.asked, hmode, Client.ChunkSize.queue]
    obtain ⟨hempty, hstopped⟩ := heof hzero (hasked ▸ hc)
    have hnone : taken ++ d.bytes = taken := by
      rw [hempty] at hfront
      rw [List.prefix_nil.mp hfront, List.append_nil]
    obtain ⟨extra', hextra, hfetched⟩ := h.fetched.readEnd hmode hpc hzero
    rw [hnone] at hinOrder ⊢
    exact ⟨k, extra', ⟨htaken, hextra.imp_right fun he => ⟨hstopped, hempty, he⟩⟩, h.sent,
      hfetched, hinOrder, hinv⟩
  · have hlen : d.bytes.length = cfg.chunkSize.val := by
      rw [d.length_bytes, hwhole hpos, Int.toNat_natCast]
    have hprefix := h.inOrder.take hfront
    have hbytes : d.bytes = cacheAt song cfg.chunkSize.val (k + 1) := by
      refine eq_cacheAt_of_prefix (m := m) hc hlen ?_
      rw [← htaken, ← hm.wire]
      exact hprefix
    refine ⟨k + 1, [], ⟨?_, Or.inl rfl⟩, h.sent, h.fetched.readWhole hmode hpc hpos hbytes,
      hinOrder, hinv⟩
    rw [stream_succ, ← htaken, ← hbytes]

/-- Step lemma of the stream. -/
theorem Playing.step (h : Playing song cfg p k extra) (hmode : cfg.mode = .wav)
    (hc : 0 < cfg.chunkSize.val) (hwhole : Whole cfg p l)
    (hstep : Steps (server cfg.chunkSize.val) (client cfg) p l q) :
    ∃ k extra, Playing song cfg q k extra := by
  have hinOrder := hstep.inOrder h.inOrder
  cases hstep with
  | @write srv srv' t e step =>
    obtain ⟨m, hm⟩ := h.sent
    refine ⟨k, extra, ⟨h.arrived.taken, ?_⟩, hm.step step ?_, h.fetched, hinOrder, h.inv⟩
    · refine h.arrived.ended.imp_right fun hended => ?_
      exact absurd step ((server cfg.chunkSize.val).final hended.1)
    · rintro sent rfl
      exact hwhole
  | @read srv t t' i step =>
    cases step with
    | @intro s taken _ front asked eof =>
      by_cases hi : s.reads i = []
      · have hnone : taken ++ (s.reads i).flatMap Delivery.bytes = taken := by
          rw [hi, List.flatMap_nil, List.append_nil]
        rw [hnone] at hinOrder ⊢
        exact ⟨k, extra, ⟨h.arrived.taken, h.arrived.ended⟩, h.sent,
          h.fetched.step hmode h.inv hi, hinOrder, h.inv.step (.inl hmode) i⟩
      · obtain ⟨d, rfl, hpc⟩ : ∃ d, i = .rx d ∧ s.rx = .read := by
          cases i with
          | rx d =>
            refine ⟨d, rfl, ?_⟩
            by_contra hpc
            exact hi (by simp [State.reads, hpc])
          | _ => exact absurd rfl hi
        have hreads : s.reads (.rx d) = [d] := by simp [State.reads, hpc]
        simp only [Whole, hreads, List.mem_singleton, forall_eq] at hwhole
        simp only [hreads, List.mem_singleton, forall_eq] at front eof
        rw [hreads, List.flatMap_singleton] at hinOrder ⊢
        exact h.read hmode hc hpc front eof hwhole hinOrder

theorem playerOk_step (h : s.PlayerOk) (i : Label) : (Client.step cfg s i).PlayerOk := by
  cases i with
  | rx d => exact Client.PlayerOk.rxStep h d
  | dec out => exact Client.PlayerOk.decStep h out
  | player => exact Client.PlayerOk.playerStep h
  | input i => exact Client.PlayerOk.inputStep h i

theorem AtMostOnce.step (h : AtMostOnce s) (hok : s.PlayerOk) (i : Label) :
    AtMostOnce (Client.step cfg s i) := by
  by_cases hi : i = .player
  · subst hi
    exact h.playerStep hok
  · exact h.congr (step_playerPart hi)

theorem start_atMostOnce (cfg : Config) : AtMostOnce (.start cfg) :=
  ⟨by simp [State.start], fun h => by simp [State.playPending, State.start] at h⟩

theorem start_lastUnplayed (cfg : Config) : LastUnplayed (.start cfg) :=
  fun _ _ he => nomatch he

/-- Step lemma of the player. -/
theorem player_step (h : p.2.1.PlayerOk ∧ AtMostOnce p.2.1 ∧ LastUnplayed p.2.1)
    (hstep : Steps (server cfg.chunkSize.val) (client cfg) p l q) :
    q.2.1.PlayerOk ∧ AtMostOnce q.2.1 ∧ LastUnplayed q.2.1 := by
  cases hstep with
  | write => exact h
  | @read _ _ _ i step =>
    cases step with
    | intro => exact ⟨playerOk_step h.1 i, h.2.1.step h.1 i, h.2.2.step h.1 i⟩

/-- What was dequeued is the front of what the rx thread has made. -/
theorem Playing.served (h : Playing song cfg p k extra) :
    p.2.1.hist.served.map (·.1.data) ++
        (p.2.1.playerQue.map (·.data) ++ p.2.1.pending cfg) =
      chunksTo song cfg.chunkSize.val k ++ extra := by
  have hkept := congrArg (List.map Processed.data) h.inv.noDrop.playerKept
  rw [List.map_map, List.map_append, List.map_map] at hkept
  rw [← h.fetched.made, ← List.append_assoc]
  exact congrArg (· ++ p.2.1.pending cfg) hkept.symm

/-- The chunk that is queued again at the end of the stream is never output. -/
theorem Playing.output_sublist (h : Playing song cfg p k extra) (honce : AtMostOnce p.2.1)
    (hlast : LastUnplayed p.2.1) : (output p.2.1).Sublist (chunksTo song cfg.chunkSize.val k) := by
  refine (WavPlayback.output_sublist honce hlast).trans (List.IsPrefix.sublist ?_)
  have hserved := h.served
  rw [← List.append_assoc] at hserved
  have hfront : p.2.1.hist.served.map (·.1.data) ++ p.2.1.playerQue.map (·.data) <+:
      chunksTo song cfg.chunkSize.val k ++ extra := hserved ▸ List.prefix_append _ _
  rcases h.arrived.ended with hnone | ⟨-, -, hagain⟩
  · rw [hnone, List.append_nil] at hfront
    exact (List.dropLast_prefix _).trans hfront
  · rw [hagain, List.prefix_concat_iff] at hfront
    rcases hfront with heq | hfront
    · rw [heq, List.dropLast_concat]
    · exact (List.dropLast_prefix _).trans hfront

theorem output_eq_of_once {served : List (Processed × ℕ)} (h : ∀ e ∈ served, e.2 = 1) :
    (served.flatMap fun e => List.replicate e.2 e.1.data) = served.map (·.1.data) := by
  induction served with
  | nil => rfl
  | cons e es ih =>
    rw [List.flatMap_cons, List.map_cons, h e List.mem_cons_self,
      ih fun e he => h e (List.mem_cons_of_mem _ he)]
    rfl

/-- Without an underrun, all that was dequeued has been output, up to the chunk in the hands of
the player. -/
theorem output_held (hmode : cfg.mode = .wav) (h : Client.PlayInv cfg s) :
    output s ++ held s = s.hist.served.map (·.1.data) := by
  have honce : ∀ e ∈ s.settled, e.2 = 1 := fun e he =>
    h.playedOnce e he (by simp [Client.audible, hmode])
  cases hpending : s.playPending with
  | true =>
    obtain ⟨es, hes⟩ := h.pending hpending
    rw [State.settled, hpending, if_pos rfl, hes, List.dropLast_concat] at honce
    rw [output, held, hes, hpending, if_pos rfl, List.flatMap_append, List.map_append,
      output_eq_of_once honce]
    simp
  | false =>
    rw [State.settled, hpending, if_neg Bool.false_ne_true] at honce
    rw [output, held, hpending, if_neg Bool.false_ne_true, output_eq_of_once honce, List.append_nil]

/-- The chunks that the song fills are its bytes behind the first chunk. -/
theorem chunksTo_flatten {c : ℕ} (h : k * c ≤ song.length) :
    (chunksTo song c k).flatten = slice song c ((k - 1) * c) := by
  induction k with
  | zero => simp [chunksTo, slice]
  | succ k ih =>
    cases k with
    | zero => simp [chunksTo, slice]
    | succ j =>
      have hj : (j + 1) * c ≤ song.length := by
        rw [Nat.succ_mul] at h
        omega
      have hoff : (j + 1) * c = c + j * c := by rw [Nat.succ_mul, Nat.add_comm]
      rw [chunksTo_succ (Nat.le_add_left 1 j), List.flatten_append, ih hj, cacheAt_full h,
        List.flatten_singleton, Nat.add_sub_cancel, Nat.add_sub_cancel, hoff, slice_append_slice,
        Nat.add_comm]

/-- Sends and reads are of whole chunks, and the player always finds a chunk behind the one
that it has dequeued. -/
def Uninterrupted (cfg : Config) (p : Server × (State × List UInt8)) (l : ServerEvent ⊕ Label) :
    Prop := Whole cfg p l ∧ ∀ i, l = .inr i → Client.KeepsPlaying cfg p.2.1 i

/-- A step of a thread that reads nothing. -/
theorem quiet_step {srv : Server} {taken : List UInt8} (hi : s.reads i = []) :
    Steps (server cfg.chunkSize.val) (client cfg) (srv, (s, taken)) (.inr i)
      (srv, (Client.step cfg s i, taken)) := by
  have hstep : ClientSteps cfg (inside (server cfg.chunkSize.val) (client cfg) srv (s, taken))
      ((server cfg.chunkSize.val).closed srv) (s, taken) i
      (Client.step cfg s i, taken ++ (s.reads i).flatMap Delivery.bytes) :=
    .intro (by simp [hi]) (by simp [hi]) (by simp [hi])
  rw [hi, List.flatMap_nil, List.append_nil] at hstep
  exact .read hstep

/-- Steps of the threads that read nothing. -/
theorem quiet_run {srv : Server} {taken : List UInt8} (is : List Label)
    (his : Client.readsOf cfg s is = []) (hkeeps : Along (Client.step cfg) (Client.KeepsPlaying cfg) s is) :
    Run (Guarded (Uninterrupted cfg) (Steps (server cfg.chunkSize.val) (client cfg)))
      (srv, (s, taken)) (is.map .inr) (srv, (is.foldl (Client.step cfg) s, taken)) := by
  induction is generalizing s with
  | nil => exact .nil _
  | cons i is ih =>
    obtain ⟨hi, hrest⟩ := List.append_eq_nil_iff.mp his
    obtain ⟨hkeep, hkeeps⟩ := hkeeps
    have hok : Uninterrupted cfg (srv, (s, taken)) (.inr i) := by
      refine ⟨?_, ?_⟩
      · simp only [Whole, hi]
        exact fun d hd => nomatch hd
      · rintro i ⟨⟩
        exact hkeep
    exact (Run.one (guarded (quiet_step hi) hok)).trans (ih hrest hkeeps)

/-- A read of what is in the pipe. -/
theorem read_run {srv : Server} {taken : List UInt8} {d : Delivery} (hreads : s.reads (.rx d) = [d])
    (hfront : d.bytes <+: inside (server cfg.chunkSize.val) (client cfg) srv (s, taken))
    (hasked : d.ret ≤ s.bufs.asked cfg.mode cfg.chunkSize)
    (heof : d.ret = 0 → inside (server cfg.chunkSize.val) (client cfg) srv (s, taken) = [] ∧
      srv.pc = .stopped)
    (hwhole : 0 < d.ret → d.ret = cfg.chunkSize.val) :
    Run (Guarded (Uninterrupted cfg) (Steps (server cfg.chunkSize.val) (client cfg)))
      (srv, (s, taken)) [.inr (.rx d)]
      (srv, (Client.step cfg s (.rx d), taken ++ (s.reads (.rx d)).flatMap Delivery.bytes)) := by
  refine Run.one (guarded (.read (.intro ?_ ?_ ?_)) ⟨?_, ?_⟩)
  · rw [hreads]
    simpa using hfront
  · rw [hreads]
    simpa using hasked
  · rw [hreads]
    rintro d hd hzero -
    rw [List.mem_singleton.mp hd] at hzero
    exact heof hzero
  · simp only [Whole, hreads]
    simpa using hwhole
  · rintro i ⟨⟩
    trivial

end

def oneByte (b : UInt8) : Delivery := ⟨1, [b], rfl⟩

def noByte : Delivery := ⟨0, [], List.length_nil⟩

def rxMoves (n : ℕ) : List Label := List.replicate n (.rx noByte)

/-- The client in front of its first read, behind it, and behind the second one. -/
def beforeRead : State := (rxMoves 5).foldl (Client.step (.small .wav)) (.start (.small .wav))
def headerRead : State :=
  (rxMoves 5).foldl (Client.step (.small .wav)) (Client.step (.small .wav) beforeRead (.rx (oneByte 7)))
def chunkQueued : State :=
  (rxMoves 5).foldl (Client.step (.small .wav)) (Client.step (.small .wav) headerRead (.rx (oneByte 8)))

/-- The queue is full, and the player plays the first chunk of two. -/
def chunkPlayed : State :=
  (rxMoves 3 ++ List.replicate 8 Label.player ++ rxMoves 8).foldl (Client.step (.small .wav))
    (Client.step (.small .wav) chunkQueued (.rx (oneByte 9)))

/-- The server reads and sends one byte. -/
theorem sendOne_run (b c : UInt8) (rest wire : List UInt8) (t : State × List UInt8) :
    Run (Guarded (Uninterrupted (.small .wav)) (Steps (server 1) (client (.small .wav))))
      (⟨.reading, b :: rest, [c], wire⟩, t) [.inl .read, .inl (.send 1)]
      (⟨.reading, rest, [b], wire ++ [b]⟩, t) :=
  (Run.one (guarded (.write (.read rfl (List.cons_ne_nil _ _))) ⟨trivial, (nomatch ·, ·)⟩)).snoc
    (guarded (.write (.send (s := ⟨.sending, rest, [b], wire⟩) rfl Nat.one_pos Nat.le.refl)) ⟨rfl, (nomatch ·, ·)⟩)

/-- Three chunks of one byte are sent, and the end of the stream is seen. -/
theorem threeBytes_run : ∃ ls p, output p.2.1 = [[8]] ∧ p.2.1.playerQue.map (·.data) = [[9], [9]] ∧
    Run (Guarded (Uninterrupted (.small .wav)) (Steps (server 1) (client (.small .wav))))
      (.start [7, 8, 9] 1, (.start (.small .wav), [])) ls p := by
  have hfirst := (sendOne_run 7 0 [8, 9] [] (.start (.small .wav), [])).trans
    (quiet_run (rxMoves 5) rfl (by decide))
  have hheader := hfirst.trans (read_run (s := beforeRead) (d := oneByte 7) rfl (by decide) (by decide)
    (nomatch ·) fun _ => rfl)
  have hsent := (hheader.trans (quiet_run (rxMoves 5) rfl (by decide))).trans
    ((sendOne_run 8 7 [9] [7] _).trans (sendOne_run 9 8 [] [7, 8] _))
  have hstopped := hsent.snoc (guarded (.write (.readEnds rfl)) ⟨trivial, (nomatch ·, ·)⟩)
  have hqueued := (hstopped.trans (read_run (s := headerRead) (d := oneByte 8) rfl (by decide) (by decide)
    (nomatch ·) fun _ => rfl)).trans (quiet_run (rxMoves 5) rfl (by decide))
  have hfull := (hqueued.trans (read_run (s := chunkQueued) (d := oneByte 9) rfl (by decide) (by decide)
    (nomatch ·) fun _ => rfl)).trans
      (quiet_run (rxMoves 3 ++ List.replicate 8 Label.player ++ rxMoves 8) rfl (by decide))
  have hend := (hfull.trans (read_run (s := chunkPlayed) (d := noByte) rfl (by decide) (by decide)
    (fun _ => ⟨rfl, rfl⟩) (nomatch ·))).trans (quiet_run (rxMoves 1) rfl (by decide))
  exact ⟨_, _, rfl, rfl, hend⟩

section
variable {song : List UInt8} {cfg : Config} {p : Server × (State × List UInt8)}

/-- In every order of the steps of the server, the network and the threads of the client, what
is output are chunks of the song behind its first one, in order and each at most once. -/
theorem played_in_order (hmode : cfg.mode = .wav) (hc : 0 < cfg.chunkSize.val)
    {ls : List (ServerEvent ⊕ Label)}
    (run : Run (Guarded (Whole cfg) (Steps (server cfg.chunkSize.val) (client cfg)))
      (.start song cfg.chunkSize.val, (.start cfg, [])) ls p) :
    ∃ k extra, Arrived song cfg p k extra ∧
      (output p.2.1).Sublist (chunksTo song cfg.chunkSize.val k) := by
  obtain ⟨⟨k, extra, hplaying⟩, -, honce, hlast⟩ := run.invariant
    (fun p => (∃ k extra, Playing song cfg p k extra) ∧
      p.2.1.PlayerOk ∧ AtMostOnce p.2.1 ∧ LastUnplayed p.2.1)
    ⟨⟨0, [], start_playing hmode song⟩, (Client.start_playInv cfg).2, start_atMostOnce cfg,
      start_lastUnplayed cfg⟩ (by
      rintro p l q ⟨⟨k, extra, hplaying⟩, hplayer⟩ ⟨hwhole, hstep⟩
      exact ⟨hplaying.step hmode hc hwhole hstep, player_step hplayer hstep⟩)
  exact ⟨k, extra, hplaying.arrived, hplaying.output_sublist honce hlast⟩

theorem played_in_order_threeBytes : ∃ p : Server × (State × List UInt8), output p.2.1 = [[8]] ∧
    p.2.1.playerQue.map (·.data) = [[9], [9]] ∧ ∃ k extra,
      Arrived [7, 8, 9] (.small .wav) p k extra ∧
        (output p.2.1).Sublist (chunksTo [7, 8, 9] 1 k) := by
  obtain ⟨ls, p, houtput, hqueue, run⟩ := threeBytes_run
  exact ⟨p, houtput, hqueue,
    played_in_order rfl (by decide) (run.mono fun _ _ _ h => guarded h.2 h.1.1)⟩

/-- Without an underrun nothing is left out: what has been output, what the player has in its
hands, its queue and what the rx thread has just read are the chunks behind the first one, with
the one that is queued again at the end of the stream; and where the song fills them, they are
the bytes of the song. -/
theorem played_whole (hmode : cfg.mode = .wav) (hc : 0 < cfg.chunkSize.val)
    {ls : List (ServerEvent ⊕ Label)}
    (run : Run (Guarded (Uninterrupted cfg) (Steps (server cfg.chunkSize.val) (client cfg)))
      (.start song cfg.chunkSize.val, (.start cfg, [])) ls p) :
    ∃ k extra, Arrived song cfg p k extra ∧
      output p.2.1 ++ held p.2.1 ++ (p.2.1.playerQue.map (·.data) ++ p.2.1.pending cfg) =
        chunksTo song cfg.chunkSize.val k ++ extra ∧
      output p.2.1 <+: chunksTo song cfg.chunkSize.val k ∧
      (k * cfg.chunkSize.val ≤ song.length →
        (output p.2.1 ++ held p.2.1 ++
            (p.2.1.playerQue.map (·.data) ++ p.2.1.pending cfg)).flatten =
          slice song cfg.chunkSize.val ((k - 1) * cfg.chunkSize.val) ++ extra.flatten ∧
        (output p.2.1).flatten <+:
          slice song cfg.chunkSize.val ((k - 1) * cfg.chunkSize.val)) := by
  obtain ⟨⟨k, extra, hplaying⟩, hplay, -, honce, hlast⟩ := run.invariant
    (fun p => (∃ k extra, Playing song cfg p k extra) ∧ Client.PlayInv cfg p.2.1 ∧
      p.2.1.PlayerOk ∧ AtMostOnce p.2.1 ∧ LastUnplayed p.2.1)
    ⟨⟨0, [], start_playing hmode song⟩, (Client.start_playInv cfg).1, (Client.start_playInv cfg).2,
      start_atMostOnce cfg, start_lastUnplayed cfg⟩ (by
      rintro p l q ⟨⟨k, extra, hplaying⟩, hplay, hplayer⟩ ⟨⟨hwhole, hkeeps⟩, hstep⟩
      refine ⟨hplaying.step hmode hc hwhole hstep, ?_, player_step hplayer hstep⟩
      cases hstep with
      | write => exact hplay
      | @read _ _ _ i step =>
        cases step with
        | intro => exact ((Client.playGuard cfg).keeps _ i ⟨hplay, hplayer.1⟩ (hkeeps i rfl)).1)
  have hserved := hplaying.served
  rw [← output_held hmode hplay] at hserved
  have hfront : output p.2.1 <+: chunksTo song cfg.chunkSize.val k := by
    refine List.prefix_of_prefix_length_le ?_ (List.prefix_append _ extra)
      (hplaying.output_sublist honce hlast).length_le
    rw [← hserved, List.append_assoc]
    exact List.prefix_append _ _
  refine ⟨k, extra, hplaying.arrived, hserved, hfront, fun hfull => ⟨?_, ?_⟩⟩
  · rw [hserved, List.flatten_append, chunksTo_flatten hfull]
  · obtain ⟨rest, hrest⟩ := hfront
    rw [← chunksTo_flatten hfull, ← hrest, List.flatten_append]
    exact List.prefix_append _ _

theorem played_whole_threeBytes : ∃ p : Server × (State × List UInt8), output p.2.1 = [[8]] ∧
    p.2.1.playerQue.map (·.data) = [[9], [9]] ∧ ∃ k extra,
      Arrived [7, 8, 9] (.small .wav) p k extra ∧
      output p.2.1 ++ held p.2.1 ++ (p.2.1.playerQue.map (·.data) ++ p.2.1.pending (.small .wav)) =
        chunksTo [7, 8, 9] 1 k ++ extra ∧
      output p.2.1 <+: chunksTo [7, 8, 9] 1 k ∧
      (k * 1 ≤ 3 → (output p.2.1 ++ held p.2.1 ++
          (p.2.1.playerQue.map (·.data) ++ p.2.1.pending (.small .wav))).flatten =
        slice [7, 8, 9] 1 ((k - 1) * 1) ++ extra.flatten ∧
        (output p.2.1).flatten <+: slice [7, 8, 9] 1 ((k - 1) * 1)) := by
  obtain ⟨ls, p, houtput, hqueue, run⟩ := threeBytes_run
  exact ⟨p, houtput, hqueue, played_whole rfl (by decide) run⟩

end

end EmotionStreamer.WavPlayback
