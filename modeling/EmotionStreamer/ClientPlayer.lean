import EmotionStreamer.ClientBackPressure

/-! Whether the player plays what it dequeues. A chunk is lost at an underrun, at
the end of the stream and at a change of the format, and a run in which no step of
the player meets one of these with audio in its hands loses nothing. -/
namespace EmotionStreamer.Client
open Fifo Runs

/-- Chunks with decoded audio; in WAV mode all chunks. -/
def audible (cfg : Config) (p : Processed) : Bool := cfg.mode = .wav ∨ p.decoderState

def State.playPending (s : State) : Bool :=
  s.hist.holding ∧ (s.player = .lookEmpty ∨ s.player = .play)

/-- The dequeued chunks that the player is done with. -/
def State.settled (s : State) : List (Processed × ℕ) :=
  if s.playPending then s.hist.served.dropLast else s.hist.served

/-- Every chunk that was dequeued, up to one the player still handles, was passed to
the output once if it is audible. -/
def PlayedOnce (cfg : Config) (s : State) : Prop :=
  ∀ e ∈ s.settled, audible cfg e.1 = true → e.2 = 1

/-- With an audible chunk dequeued, the player finds more chunks behind it and, when
it plays it in MP3 mode, the format it plays already. -/
def KeepsPlaying (cfg : Config) (s : State) : Label → Prop
  | .player => s.hist.holding = true → audible cfg s.playChunk = true →
      (s.player = .lookEmpty → s.playerQue ≠ []) ∧ (s.player = .play → cfg.mode = .mp3 →
        shouldSwitch s.playChunk.result s.currentResult = false)
  | _ => True

instance decidableKeepsPlaying (cfg : Config) (s : State) : ∀ i, Decidable (KeepsPlaying cfg s i)
  | .player => inferInstanceAs (Decidable (_ → _ → _ ∧ _))
  | .rx _ => inferInstanceAs (Decidable True)
  | .dec _ => inferInstanceAs (Decidable True)
  | .input _ => inferInstanceAs (Decidable True)

/-- A pending chunk is the last one dequeued and was not played yet. -/
structure PlayInv (cfg : Config) (s : State) : Prop where
  playedOnce : PlayedOnce cfg s
  pending : s.playPending = true → ∃ es, s.hist.served = es ++ [(s.playChunk, 0)]

/-- What the player knows: there is something in `player_que` or nothing was dequeued
yet; and with the look still ahead, whether it has just dequeued. -/
def PlayerOk (innited : Bool) (avail none held : Prop) : PlayerPc → Prop
  | .startTest | .startInnited | .startAsleep => none
  | .outer => innited = true → avail ∨ none
  | .inner | .firstTest | .pausedTest | .dequeue => avail ∨ none
  | .lookEmpty => held ∨ none
  | .play => avail ∧ (held ∨ none)
  | _ => True

/-- After its first chunk the player dequeues from no empty queue. -/
def State.PlayerOk (s : State) : Prop :=
  Client.PlayerOk s.innited (s.playerQue ≠ []) (s.hist.served = []) (s.hist.holding = true) s.player

variable {cfg : Config} {s t : State}

theorem PlayerOk.mono {innited innited' : Bool} {avail avail' none held : Prop} {pc : PlayerPc}
    (h : Client.PlayerOk innited avail none held pc) (hi : innited' = true → innited = true)
    (ha : avail → avail') : Client.PlayerOk innited' avail' none held pc := by
  cases pc <;> first
    | trivial
    | exact h
    | exact h.imp_left ha
    | exact ⟨ha h.1, h.2⟩
    | exact fun hlive => (h (hi hlive)).imp_left ha

theorem PlayerOk.insertPlayer (h : s.PlayerOk) (p : Processed) : (insertPlayer cfg s p).PlayerOk :=
  PlayerOk.mono h id fun hne => enqueue_ne_nil hne p

theorem PlayerOk.rxStep (h : s.PlayerOk) (d : Delivery) : (rxStep cfg s d).PlayerOk := by
  cases hpc : s.rx with
  | insert r =>
    simp only [Client.rxStep, hpc, rxInsert]
    cases cfg.mode with
    | wav => exact PlayerOk.insertPlayer h _
    | mp3 => exact h
  | _ =>
    simp only [Client.rxStep, hpc]
    exact h

theorem PlayerOk.decStep (h : s.PlayerOk) (out : DecodeOut) : (decStep cfg s out).PlayerOk := by
  cases hpc : s.dec with
  | insert ret =>
    simp only [Client.decStep, hpc]
    exact PlayerOk.insertPlayer h _
  | _ =>
    simp only [Client.decStep, hpc]
    exact h

theorem PlayerOk.inputStep (h : s.PlayerOk) (i : Input) : (inputStep s i).PlayerOk := by
  cases i with
  | stop => exact PlayerOk.mono h (fun hlive => absurd hlive Bool.false_ne_true) id
  | _ => exact h

theorem PlayerOk.playerStep (h : s.PlayerOk) : (playerStep cfg s).PlayerOk := by
  unfold State.PlayerOk at h
  cases hpc : s.player with
  | startTest =>
    simp only [hpc, Client.PlayerOk] at h
    cases hmode : cfg.mode <;> simp only [Client.playerStep, hpc, hmode, State.PlayerOk] <;>
      split_ifs <;> simp [Client.PlayerOk, h]
  | dequeue =>
    simp only [hpc, Client.PlayerOk] at h
    simp only [Client.playerStep, hpc, State.PlayerOk, Client.PlayerOk, playerDequeue]
    cases hq : s.playerQue with
    | nil => simpa [hq] using h
    | cons x xs => simp
  | lookEmpty =>
    simp only [hpc, Client.PlayerOk] at h
    cases hq : s.playerQue <;>
      simp [Client.playerStep, hpc, State.PlayerOk, Client.PlayerOk, hq, h]
  | play =>
    simp only [hpc, Client.PlayerOk] at h
    have hque : (safePlayWrapper cfg s).playerQue = s.playerQue := by
      simp only [safePlayWrapper, playChunk]
      split_ifs <;> rfl
    simp only [Client.playerStep, hpc, State.PlayerOk, Client.PlayerOk, hque]
    exact .inl h.1
  | waitLook =>
    simp only [Client.playerStep, hpc, State.PlayerOk]
    cases hlook : ChunkQueue.almostEmpty cfg.pct s.playerQue.length cfg.playerCap with
    | true => exact trivial
    | false =>
      exact fun _ => .inl fun hnil => pos_of_not_almostEmpty hlook (by rw [hnil]; rfl)
  | waitInnited =>
    cases hi : s.innited <;>
      simp [Client.playerStep, hpc, State.PlayerOk, Client.PlayerOk, hi]
  | outer =>
    cases hi : s.innited <;>
      simp_all [Client.playerStep, State.PlayerOk, Client.PlayerOk]
  | _ =>
    simp only [hpc, Client.PlayerOk] at h
    simp only [Client.playerStep, hpc, State.PlayerOk]
    first
      | (split_ifs <;> first | trivial | exact h | exact fun _ => .inr h)
      | exact h

theorem PlayInv.congr (h : PlayInv cfg s) (hp : t.player = s.player)
    (hc : t.playChunk = s.playChunk) (hh : t.hist.holding = s.hist.holding)
    (hs : t.hist.served = s.hist.served) : PlayInv cfg t := by
  have hpend : t.playPending = s.playPending := by rw [State.playPending, hh, hp]; rfl
  have hset : t.settled = s.settled := by rw [State.settled, hpend, hs]; rfl
  refine ⟨?_, ?_⟩
  · rw [PlayedOnce, hset]
    exact h.playedOnce
  · rw [hpend, hs, hc]
    exact h.pending

theorem PlayInv.rxStep (h : PlayInv cfg s) (d : Delivery) : PlayInv cfg (rxStep cfg s d) := by
  cases hpc : s.rx with
  | insert r =>
    simp only [Client.rxStep, hpc, rxInsert]
    cases cfg.mode <;> exact h.congr rfl rfl rfl rfl
  | _ =>
    simp only [Client.rxStep, hpc]
    exact h.congr rfl rfl rfl rfl

theorem PlayInv.decStep (h : PlayInv cfg s) (out : DecodeOut) :
    PlayInv cfg (decStep cfg s out) := by
  cases hpc : s.dec <;> simp only [Client.decStep, hpc] <;> exact h.congr rfl rfl rfl rfl

theorem PlayInv.inputStep (h : PlayInv cfg s) (i : Input) : PlayInv cfg (inputStep s i) := by
  cases i <;> exact h.congr rfl rfl rfl rfl

theorem countPlay_concat (es : List (Processed × ℕ)) (p : Processed) (n : ℕ) :
    countPlay (es ++ [(p, n)]) = es ++ [(p, n + 1)] := by
  induction es with
  | nil => rfl
  | cons e es ih =>
    cases es with
    | nil => rfl
    | cons e' es => simpa [countPlay] using ih

theorem settled_eq (hpc : s.player ≠ .lookEmpty) (hpc' : s.player ≠ .play) :
    s.playPending = false ∧ s.settled = s.hist.served := by
  have h : s.playPending = false := by simp [State.playPending, hpc, hpc']
  exact ⟨h, by rw [State.settled, h]; rfl⟩

theorem PlayInv.move (h : PlayInv cfg s) (hpc : s.player ≠ .lookEmpty) (hpc' : s.player ≠ .play)
    {pc : PlayerPc} (hne : pc ≠ .lookEmpty ∧ pc ≠ .play) : PlayInv cfg { s with player := pc } := by
  obtain ⟨-, hset⟩ := settled_eq hpc hpc'
  obtain ⟨hpend, hset'⟩ := settled_eq (s := { s with player := pc }) hne.1 hne.2
  refine ⟨?_, by simp [hpend]⟩
  rw [PlayedOnce, hset']
  have := h.playedOnce
  rwa [PlayedOnce, hset] at this

theorem PlayInv.dequeue (h : PlayInv cfg s) (hpc : s.player = .dequeue) :
    PlayInv cfg { playerDequeue s with player := .lookEmpty } := by
  have hset := (settled_eq (s := s) (by simp [hpc]) (by simp [hpc])).2
  have hplayed := h.playedOnce
  rw [PlayedOnce, hset] at hplayed
  cases hq : s.playerQue with
  | nil =>
    have hserved : (playerDequeue s).hist.served = s.hist.served := by
      simp [playerDequeue, hq]
    have hpend : ({ playerDequeue s with player := .lookEmpty } : State).playPending = false := by
      simp [State.playPending, playerDequeue, hq]
    refine ⟨?_, by simp [hpend]⟩
    rw [PlayedOnce, State.settled, hpend]
    simpa only [Bool.false_eq_true, ↓reduceIte, hserved] using hplayed
  | cons x xs =>
    have hserved : (playerDequeue s).hist.served = s.hist.served ++ [(x, 0)] := by
      simp [playerDequeue, hq]
    have hpend : ({ playerDequeue s with player := .lookEmpty } : State).playPending = true := by
      simp [State.playPending, playerDequeue, hq]
    refine ⟨?_, fun _ => ⟨s.hist.served, ?_⟩⟩
    · rw [PlayedOnce, State.settled, hpend]
      simpa only [↓reduceIte, hserved, List.dropLast_concat] using hplayed
    · simpa only [playerDequeue, hq, Fifo.dequeue] using hserved

theorem PlayInv.finish (h : PlayInv cfg s) (hpc : s.player = .lookEmpty ∨ s.player = .play)
    {n : ℕ} (hpend : t.playPending = false)
    (hlast : ∀ es, s.hist.holding = true → s.hist.served = es ++ [(s.playChunk, 0)] →
      t.hist.served = es ++ [(s.playChunk, n)])
    (hkeep : s.hist.holding = false → t.hist.served = s.hist.served) :
    PlayedOnce cfg t ↔ (s.hist.holding = true → audible cfg s.playChunk = true → n = 1) := by
  have hpending : s.playPending = s.hist.holding := by simp [State.playPending, hpc]
  have hplayed := h.playedOnce
  rw [PlayedOnce, State.settled, hpending] at hplayed
  rw [PlayedOnce, State.settled, hpend]
  simp only [Bool.false_eq_true, ↓reduceIte]
  cases hold : s.hist.holding with
  | false =>
    rw [hold] at hplayed
    rw [hkeep hold]
    simpa using hplayed
  | true =>
    obtain ⟨es, hes⟩ := h.pending (hpending.trans hold)
    rw [hold] at hplayed
    simp only [↓reduceIte, hes, List.dropLast_concat] at hplayed
    rw [hlast es hold hes]
    refine ⟨fun hall _ haud => ?_, fun hn e he haud => ?_⟩
    · exact hall (s.playChunk, n) (by simp) haud
    · rcases List.mem_append.mp he with he | he
      · exact hplayed e he haud
      · obtain rfl := List.mem_singleton.mp he
        exact hn rfl haud

theorem PlayInv.lookMore (h : PlayInv cfg s) (hpc : s.player = .lookEmpty) :
    PlayInv cfg { s with player := .play } := by
  have hpend : ({ s with player := .play } : State).playPending = s.playPending := by
    simp [State.playPending, hpc]
  refine ⟨?_, ?_⟩
  · rw [PlayedOnce, State.settled, hpend]
    exact h.playedOnce
  · rw [hpend]
    exact h.pending

def plays (cfg : Config) (s : State) : Bool :=
  cfg.mode = .wav ∨
    s.playChunk.decoderState ∧ ¬shouldSwitch s.playChunk.result s.currentResult

theorem safePlayWrapper_served (cfg : Config) (s : State) : (safePlayWrapper cfg s).hist.served =
    if plays cfg s then countPlay s.hist.served else s.hist.served := by
  unfold safePlayWrapper plays Processed.decoderState
  dsimp only
  cases hm : cfg.mode with
  | wav => split_ifs <;> simp_all [playChunk]
  | mp3 =>
    by_cases hz : s.playChunk.result.totalBytesInChunk = 0
    · simp [hz]
    · cases hsw : shouldSwitch s.playChunk.result s.currentResult <;>
        simp [hz, playChunk, Nat.pos_of_ne_zero hz]

theorem audible_plays (haud : audible cfg s.playChunk = true) : plays cfg s = true ↔
    (cfg.mode = .mp3 → shouldSwitch s.playChunk.result s.currentResult = false) := by
  cases hm : cfg.mode with
  | wav => simp [plays, hm]
  | mp3 =>
    have hd : s.playChunk.decoderState = true := by simpa [audible, hm] using haud
    simp [plays, hm, hd]

theorem PlayInv.play (h : PlayInv cfg s) (hok : s.PlayerOk) (hpc : s.player = .play) :
    PlayedOnce cfg { safePlayWrapper cfg s with player := .inner } ↔
      (s.hist.holding = true → audible cfg s.playChunk = true → plays cfg s = true) := by
  have hserved := safePlayWrapper_served cfg s
  refine (h.finish (t := { safePlayWrapper cfg s with player := .inner }) (Or.inr hpc)
    (n := if plays cfg s then 1 else 0) (by simp [State.playPending]) ?_ ?_).trans ?_
  · intro es hold hes
    simp only [hserved, hes, countPlay_concat]
    split_ifs <;> rfl
  · intro hold
    unfold State.PlayerOk at hok
    rw [hpc] at hok
    have hnone : s.hist.served = [] := hok.2.resolve_left (by simp [hold])
    simp only [hserved, hnone, countPlay, ite_self]
  · cases plays cfg s <;> simp

theorem PlayInv.playerStep (h : PlayInv cfg s) (hok : s.PlayerOk) :
    (PlayedOnce cfg (playerStep cfg s) ↔ KeepsPlaying cfg s .player) ∧
      (PlayedOnce cfg (playerStep cfg s) → PlayInv cfg (playerStep cfg s)) := by
  have hmove : ∀ {pc : PlayerPc}, s.player ≠ .lookEmpty → s.player ≠ .play →
      pc ≠ .lookEmpty ∧ pc ≠ .play →
      (PlayedOnce cfg { s with player := pc } ↔ KeepsPlaying cfg s .player) ∧
        (PlayedOnce cfg { s with player := pc } → PlayInv cfg { s with player := pc }) := by
    intro pc hpc hpc' hne
    have hinv := h.move hpc hpc' hne
    refine ⟨⟨fun _ => ?_, fun _ => hinv.playedOnce⟩, fun _ => hinv⟩
    exact fun _ _ => ⟨fun hl => absurd hl hpc, fun hp => absurd hp hpc'⟩
  cases hpc : s.player with
  | lookEmpty =>
    simp only [Client.playerStep, hpc]
    cases hq : s.playerQue with
    | nil =>
      have hpend : ({ s with player := .invalidTest } : State).playPending = false := by
        simp [State.playPending]
      have hiff := h.finish (t := { s with player := .invalidTest }) (n := 0) (Or.inl hpc) hpend
        (fun es _ hes => hes) fun _ => rfl
      simp only [hq] at hiff
      refine ⟨hiff.trans ?_, fun hp => ⟨hp, by simp [State.playPending]⟩⟩
      simp [KeepsPlaying, hpc, hq]
    | cons x xs =>
      have hinv := h.lookMore hpc
      simp only [hq] at hinv
      refine ⟨⟨fun _ => ?_, fun _ => hinv.playedOnce⟩, fun _ => hinv⟩
      simp [KeepsPlaying, hpc, hq]
  | play =>
    simp only [Client.playerStep, hpc]
    refine ⟨(h.play hok hpc).trans ?_, fun hp => ⟨hp, by simp [State.playPending]⟩⟩
    simp only [KeepsPlaying, hpc, reduceCtorEq, false_implies, true_and, forall_const]
    exact forall_congr' fun _ => forall_congr' fun haud => audible_plays haud
  | dequeue =>
    simp only [Client.playerStep, hpc]
    have hinv := h.dequeue hpc
    refine ⟨⟨fun _ => ?_, fun _ => hinv.playedOnce⟩, fun _ => hinv⟩
    simp [KeepsPlaying, hpc]
  | startTest =>
    simp only [Client.playerStep, hpc]
    cases cfg.mode with
    | wav => exact hmove (by simp [hpc]) (by simp [hpc]) (by split_ifs <;> simp)
    | mp3 => exact hmove (by simp [hpc]) (by simp [hpc]) (by split_ifs <;> simp)
  | startInnited | startAsleep | outer | inner | firstTest | pausedTest | invalidTest
  | waitInnited | waitPaused | waitLook | park | asleep =>
    simp only [Client.playerStep, hpc]
    exact hmove (by simp [hpc]) (by simp [hpc]) (by first | (split_ifs <;> simp) | simp)
  | ended =>
    simp only [Client.playerStep, hpc]
    have := @hmove .ended (by simp [hpc]) (by simp [hpc]) (by simp)
    rwa [← hpc] at this

theorem playGuard (cfg : Config) : ExactGuard (step cfg) (KeepsPlaying cfg)
    (fun s => PlayInv cfg s ∧ s.PlayerOk) (PlayedOnce cfg) where
  holds _ h := h.1.playedOnce
  keeps s i h hok := by
    cases i with
    | rx d => exact ⟨h.1.rxStep d, PlayerOk.rxStep h.2 d⟩
    | dec out => exact ⟨h.1.decStep out, PlayerOk.decStep h.2 out⟩
    | input i => exact ⟨h.1.inputStep i, PlayerOk.inputStep h.2 i⟩
    | player =>
      have hplay := h.1.playerStep h.2
      exact ⟨hplay.2 (hplay.1.mpr hok), PlayerOk.playerStep h.2⟩
  breaks s i h hbad := by
    cases i with
    | player => exact fun hp => hbad ((h.1.playerStep h.2).1.mp hp)
    | _ => exact absurd trivial hbad

theorem start_playInv (cfg : Config) : PlayInv cfg (.start cfg) ∧ (State.start cfg).PlayerOk :=
  ⟨⟨by simp [PlayedOnce, State.settled, State.playPending, State.start],
    by simp [State.playPending, State.start]⟩, rfl⟩

/-- A run plays every dequeued chunk once, at each of its states, if and only if none
of its steps drops one. -/
theorem played_once_iff (cfg : Config) (is : List Label) :
    (∀ pre, pre <+: is → PlayedOnce cfg (exec cfg pre)) ↔
      ∀ pre i, pre ++ [i] <+: is → KeepsPlaying cfg (exec cfg pre) i :=
  (playGuard cfg).iff (start_playInv cfg) is

/-- The header and one chunk arrive, and the player dequeues the chunk before more
come: it finds the queue empty and never plays the chunk. -/
theorem underrun_skips : ¬ ∀ (cfg : Config) (is : List Label), PlayedOnce cfg (exec cfg is) := by
  intro h
  have hplayed := h (.small .wav) (List.replicate 14 (.rx ⟨1, [7], rfl⟩) ++ List.replicate 7 .player)
  have hcounts : (exec (.small .wav) (List.replicate 14 (.rx ⟨1, [7], rfl⟩) ++
      List.replicate 7 .player)).settled.map (·.2) = [0] := by decide +kernel
  obtain ⟨e, es, hset, he, -⟩ := List.map_eq_cons_iff.mp hcounts
  have hone := hplayed e (by rw [hset]; simp) (by simp [audible, Config.small])
  omega

end EmotionStreamer.Client
