import EmotionStreamer.ClientBackPressure

/-! Whether the player ends only once the stream is drained. The player decides it
from `rx_result` and its own queue, the decoder thread from `rx_result` and its own; what
is left behind depends on the order in which the threads look at their queues. -/
namespace EmotionStreamer.Client
open Fifo ChunkQueue Runs

/-- The user neither stops nor pauses, and decoding gives no error. The input thread
stops the stream once the player has ended. -/
def Undisturbed (s : State) : Label → Prop
  | .input _ => s.player = .ended
  | .dec out => s.dec = .decode → out.ret ≠ .err
  | _ => True

/-- The rx thread has returned, every chunk it enqueued was dequeued and decoded, and
the player has dequeued every chunk that was made. -/
structure Drained (s : State) : Prop where
  rx : s.rx = .returned
  decoded : s.hist.fed = s.hist.queued
  dequeued : s.hist.served.map (·.1) = s.hist.made

def EndsDrained (s t : State) : Prop :=
  s.player ≠ .ended → t.player = .ended → Drained t

/-- Which looks at an empty queue the schedule has behind it: the decoder thread's at
`decoder_que` since the last insertion there, and the player's at `player_que` since that
look of the decoder thread. -/
structure Looks where
  decoder : Bool
  player : Bool

def Looks.next (l : Looks) (s : State) : Label → Looks
  | .rx _ =>
    match s.rx with
    | .insert _ => ⟨false, false⟩
    | _ => l
  | .dec _ =>
    if (s.dec = .lookEmpty ∨ s.dec = .waitEmpty) ∧ s.decoderQue = [] then ⟨true, l.player⟩ else l
  | .player => if s.player = .lookEmpty ∧ s.playerQue = [] then ⟨l.decoder, l.decoder⟩ else l
  | .input _ => l

/-- A schedule with the looks that it has behind it. -/
def watch (cfg : Config) (p : State × Looks) (i : Label) : State × Looks :=
  (step cfg p.1 i, p.2.next p.1 i)

def watched (cfg : Config) (is : List Label) : State × Looks :=
  is.foldl (watch cfg) (.start cfg, ⟨false, false⟩)

def DecPc.inserts : DecPc → Bool
  | .insert _ => true
  | _ => false

/-- The looks come in the order of the stages: when the player tests an invalid
`rx_result` it has looked at `player_que` since the decoder thread has looked at
`decoder_que`, which was after the last insertion there. And the decoder thread inserts
into no full queue. -/
def LooksInOrder (cfg : Config) (p : State × Looks) : Label → Prop
  | .player =>
    p.1.player = .invalidTest → readResultInvalid p.1.rxResult = true → p.2.player = true
  | .dec _ => p.1.dec.inserts = true → p.1.playerQue.length ≠ cfg.playerCap
  | _ => True

/-- The chunk that the decoder thread has made and not inserted yet. -/
def State.making (s : State) : List Processed :=
  match s.dec with
  | .insert _ => [s.pChunk]
  | _ => []

structure DrainInv (cfg : Config) (s : State) : Prop where
  kept : Kept cfg s
  made : s.hist.made = s.hist.put.map (·.1) ++ s.making
  putRoom : ∀ e ∈ s.hist.put, e.2 = true
  rxEnded : readResultInvalid s.rxResult = true → s.rx = .returned
  live : s.player ≠ .ended → s.innited = true

/-- The decoder thread is behind a look that ends its pass, and takes no chunk before it
has looked again. -/
def Idle : DecPc → Prop
  | .invalidTest | .waitInnited | .waitPaused | .waitFull | .waitEmpty | .park | .asleep
  | .returned => True
  | _ => False

/-- What the looks have found is still so. -/
structure Looked (p : State × Looks) : Prop where
  decoder : p.2.decoder = true → p.1.decoderQue = [] ∧ Idle p.1.dec
  player : p.2.player = true → p.2.decoder = true ∧ p.1.playerQue = []

variable {cfg : Config} {s : State} {l : Looks}

theorem start_drainInv (cfg : Config) : DrainInv cfg (.start cfg) where
  kept := start_kept cfg
  made := by cases h : cfg.mode <;> simp [State.start, State.making, h]
  putRoom := by simp [State.start]
  rxEnded h := by simp [State.start, readResultInvalid] at h
  live _ := rfl

theorem DrainInv.rxStep (h : DrainInv cfg s) (hmode : cfg.mode = .mp3) (d : Delivery) :
    DrainInv cfg (rxStep cfg s d) := by
  have hkept := h.kept.rxStep d
  have hend := h.rxEnded
  cases hpc : s.rx with
  | insert r =>
    simp only [Client.rxStep, hpc, Client.rxInsert, hmode] at hkept ⊢
    exact ⟨hkept, h.made, h.putRoom, fun hr => absurd (hend hr) (by simp [hpc]), h.live⟩
  | setResult r =>
    simp only [Client.rxStep, hpc] at hkept ⊢
    exact ⟨hkept, h.made, h.putRoom, fun hr => by simp [hr], h.live⟩
  | returned =>
    simp only [Client.rxStep, hpc]
    exact h
  | _ =>
    simp only [Client.rxStep, hpc] at hkept ⊢
    exact ⟨hkept, h.made, h.putRoom, fun hr => absurd (hend hr) (by simp [hpc]), h.live⟩

theorem DrainInv.decStep (h : DrainInv cfg s) (out : DecodeOut)
    (hroom : ∀ ret, s.dec = .insert ret → s.playerQue.length ≠ cfg.playerCap) :
    DrainInv cfg (decStep cfg s out) := by
  have hkept := h.kept.decStep out
  have hmade := h.made
  cases hpc : s.dec with
  | decode =>
    simp only [Client.decStep, hpc] at hkept ⊢
    refine ⟨hkept, ?_, h.putRoom, h.rxEnded, h.live⟩
    simp only [State.making, hpc, List.append_nil] at hmade
    by_cases hd : (decodeChunk s.pChunk out).decoderState
    · simp [State.making, Client.decDecode, hd, hmade]
    · simp [State.making, Client.decDecode, hd, hmade]
  | insert ret =>
    simp only [Client.decStep, hpc] at hkept ⊢
    refine ⟨hkept, ?_, ?_, h.rxEnded, h.live⟩
    · simpa [State.making, insertPlayer, hpc] using hmade
    · exact List.forall_mem_append.mpr ⟨h.putRoom, by simpa using hroom ret hpc⟩
  | dequeue =>
    simp only [Client.decStep, hpc] at hkept ⊢
    refine ⟨hkept, ?_, h.putRoom, h.rxEnded, h.live⟩
    simpa [State.making, Client.decDequeue, hpc] using hmade
  | returned =>
    simp only [Client.decStep, hpc]
    exact h
  | _ =>
    simp only [Client.decStep, hpc] at hkept ⊢
    refine ⟨hkept, ?_, h.putRoom, h.rxEnded, h.live⟩
    simp only [State.making, hpc] at hmade ⊢
    first
      | exact hmade
      | (split_ifs <;> exact hmade)

/-- The player thread touches nothing that the other two threads decide by. -/
structure PlayerFrame (s t : State) : Prop where
  innited : t.innited = s.innited
  rxResult : t.rxResult = s.rxResult
  rx : t.rx = s.rx
  dec : t.dec = s.dec
  pChunk : t.pChunk = s.pChunk
  decoderQue : t.decoderQue = s.decoderQue
  made : t.hist.made = s.hist.made
  put : t.hist.put = s.hist.put

theorem safePlayWrapper_frame (cfg : Config) (s : State) (pc : PlayerPc) :
    PlayerFrame s { safePlayWrapper cfg s with player := pc } := by
  have hplay : PlayerFrame s { Client.playChunk s with player := pc } :=
    ⟨rfl, rfl, rfl, rfl, rfl, rfl, rfl, rfl⟩
  unfold safePlayWrapper
  dsimp only
  split_ifs
  · exact ⟨rfl, rfl, rfl, rfl, rfl, rfl, rfl, rfl⟩
  · exact hplay
  · exact hplay
  · exact ⟨rfl, rfl, rfl, rfl, rfl, rfl, rfl, rfl⟩

theorem playerStep_frame (cfg : Config) (s : State) : PlayerFrame s (playerStep cfg s) := by
  cases hpc : s.player with
  | play =>
    simp only [Client.playerStep, hpc]
    exact safePlayWrapper_frame cfg s .inner
  | startTest =>
    simp only [Client.playerStep, hpc]
    cases cfg.mode <;> exact ⟨rfl, rfl, rfl, rfl, rfl, rfl, rfl, rfl⟩
  | _ =>
    simp only [Client.playerStep, hpc]
    exact ⟨rfl, rfl, rfl, rfl, rfl, rfl, rfl, rfl⟩

theorem DrainInv.playerStep (h : DrainInv cfg s) : DrainInv cfg (playerStep cfg s) := by
  have hf := playerStep_frame cfg s
  refine ⟨h.kept.playerStep, ?_, ?_, ?_, fun hne => ?_⟩
  · rw [hf.made, hf.put, h.made, State.making, State.making, hf.dec, hf.pChunk]
  · rw [hf.put]
    exact h.putRoom
  · rw [hf.rxResult, hf.rx]
    exact h.rxEnded
  · rw [hf.innited]
    refine h.live fun hend => hne ?_
    simp only [Client.playerStep, hend]

theorem DrainInv.inputStep (h : DrainInv cfg s) (hend : s.player = .ended) (i : Input) :
    DrainInv cfg (inputStep s i) := by
  have hkept := h.kept.inputStep i
  cases i <;> exact ⟨hkept, h.made, h.putRoom, h.rxEnded, fun hne => absurd hend hne⟩

theorem DrainInv.step (h : DrainInv cfg s) (hmode : cfg.mode = .mp3) {i : Label}
    (hi : Undisturbed s i) (horder : LooksInOrder cfg (s, l) i) : DrainInv cfg (step cfg s i) := by
  cases i with
  | rx d => exact h.rxStep hmode d
  | dec out => exact h.decStep out fun _ hpc => horder (by rw [hpc]; rfl)
  | player => exact h.playerStep
  | input i => exact h.inputStep hi i

theorem Looked.rxStep (h : Looked (s, l)) (d : Delivery) :
    Looked (watch cfg (s, l) (.rx d)) := by
  cases hpc : s.rx with
  | insert r =>
    simp only [watch, Looks.next, hpc]
    exact ⟨fun hd => absurd hd Bool.false_ne_true, fun hp => absurd hp Bool.false_ne_true⟩
  | _ =>
    simp only [watch, Looks.next, Client.step, Client.rxStep, hpc]
    exact ⟨h.decoder, h.player⟩

/-- A decoder thread that has found its queue empty stays in its wait, or has returned. -/
theorem idle_decStep (hlive : s.innited = true) (hq : s.decoderQue = []) (hidle : Idle s.dec)
    (out : DecodeOut) : Idle (decStep cfg s out).dec ∧ (decStep cfg s out).decoderQue = [] ∧
      (decStep cfg s out).playerQue = s.playerQue := by
  have hempty : almostEmpty cfg.pct s.decoderQue.length cfg.decoderCap = true := by
    by_contra hne
    exact pos_of_not_almostEmpty (Bool.eq_false_of_not_eq_true hne) (by rw [hq]; rfl)
  cases hpc : s.dec with
  | invalidTest | waitInnited | waitPaused | waitFull =>
    simp only [Client.decStep, hpc, hlive]
    exact ⟨by split_ifs <;> trivial, hq, trivial⟩
  | waitEmpty =>
    simp only [Client.decStep, hpc, hempty]
    exact ⟨trivial, hq, trivial⟩
  | park | asleep | returned =>
    simp only [Client.decStep, hpc, Idle]
    exact ⟨trivial, hq, trivial⟩
  | _ =>
    rw [hpc] at hidle
    exact hidle.elim

theorem Looked.decStep (h : Looked (s, l)) (hlive : s.innited = true) (out : DecodeOut) :
    Looked (watch cfg (s, l) (.dec out)) := by
  by_cases hlook : (s.dec = .lookEmpty ∨ s.dec = .waitEmpty) ∧ s.decoderQue = []
  · have hidle : Idle (Client.decStep cfg s out).dec ∧
        (Client.decStep cfg s out).decoderQue = [] ∧
        (Client.decStep cfg s out).playerQue = s.playerQue := by
      obtain ⟨hpc | hpc, hq⟩ := hlook
      · simp [Client.decStep, hpc, hq, Idle]
      · exact idle_decStep hlive hq (hpc ▸ trivial) out
    simp only [watch, Looks.next, if_pos hlook]
    exact ⟨fun _ => ⟨hidle.2.1, hidle.1⟩, fun hp => ⟨rfl, hidle.2.2.trans (h.player hp).2⟩⟩
  · simp only [watch, Looks.next, if_neg hlook]
    refine ⟨fun hd => ?_, fun hp => ?_⟩
    · obtain ⟨hq, hidle⟩ := h.decoder hd
      exact ((idle_decStep hlive hq hidle out).imp_right And.left).symm
    · obtain ⟨hd, hnone⟩ := h.player hp
      obtain ⟨hq, hidle⟩ := h.decoder hd
      exact ⟨hd, (idle_decStep hlive hq hidle out).2.2.trans hnone⟩

theorem playerStep_playerQue (hq : s.playerQue = []) : (playerStep cfg s).playerQue = [] := by
  cases hpc : s.player with
  | dequeue => simp [Client.playerStep, hpc, Client.playerDequeue, hq, dequeue]
  | play =>
    simp only [Client.playerStep, hpc]
    exact (safePlayWrapper_queues cfg s).2.1.trans hq
  | startTest =>
    simp only [Client.playerStep, hpc]
    cases cfg.mode <;> exact hq
  | _ =>
    simp only [Client.playerStep, hpc]
    exact hq

theorem Looked.playerStep (h : Looked (s, l)) : Looked (watch cfg (s, l) .player) := by
  have hf := playerStep_frame cfg s
  have hdec : l.decoder = true → (Client.playerStep cfg s).decoderQue = [] ∧
      Idle (Client.playerStep cfg s).dec := by
    rw [hf.decoderQue, hf.dec]
    exact h.decoder
  by_cases hlook : s.player = .lookEmpty ∧ s.playerQue = []
  · simp only [watch, Looks.next, if_pos hlook]
    exact ⟨hdec, fun hd => ⟨hd, playerStep_playerQue hlook.2⟩⟩
  · simp only [watch, Looks.next, if_neg hlook]
    exact ⟨hdec, fun hp => ⟨(h.player hp).1, playerStep_playerQue (h.player hp).2⟩⟩

theorem Looked.step (h : Looked (s, l)) (hlive : s.innited = true) {i : Label}
    (hi : ∀ j, i ≠ .input j) : Looked (watch cfg (s, l) i) := by
  cases i with
  | rx d => exact h.rxStep d
  | dec out => exact h.decStep hlive out
  | player => exact h.playerStep
  | input j => exact absurd rfl (hi j)

theorem step_player_of_ne {i : Label} (hi : i ≠ .player) :
    (step cfg s i).player = s.player := by
  cases i with
  | rx d =>
    cases hpc : s.rx <;> simp only [Client.step, Client.rxStep, hpc, Client.rxInsert]
    cases cfg.mode <;> rfl
  | dec out => cases hpc : s.dec <;> simp only [Client.step, Client.decStep, hpc] <;> rfl
  | player => exact absurd rfl hi
  | input i => cases i <;> rfl

theorem step_ended (h : s.player = .ended) (i : Label) : (step cfg s i).player = .ended := by
  by_cases hi : i = .player
  · rw [hi]
    simp only [Client.step, Client.playerStep, h]
  · rw [step_player_of_ne hi, h]

/-- An undisturbed step that keeps the order of the looks. -/
structure InTurn (cfg : Config) (p : State × Looks) (i : Label) : Prop where
  undisturbed : Undisturbed p.1 i
  order : LooksInOrder cfg p i

/-- The streams in which the player has ended, or the looks still hold. -/
structure Ordered (cfg : Config) (p : State × Looks) : Prop where
  drain : DrainInv cfg p.1
  looked : p.1.player ≠ .ended → Looked p

theorem start_ordered (cfg : Config) : Ordered cfg (.start cfg, ⟨false, false⟩) where
  drain := start_drainInv cfg
  looked _ := ⟨fun hd => absurd hd Bool.false_ne_true, fun hp => absurd hp Bool.false_ne_true⟩

/-- Step lemma. -/
theorem Ordered.step {p : State × Looks} (h : Ordered cfg p) (hmode : cfg.mode = .mp3) {i : Label}
    (hi : InTurn cfg p i) : Ordered cfg (watch cfg p i) where
  drain := h.drain.step hmode hi.undisturbed hi.order
  looked hne := by
    have hrun : p.1.player ≠ .ended := fun hend => hne (step_ended hend i)
    refine (h.looked hrun).step (h.drain.live hrun) ?_
    rintro j rfl
    exact hrun hi.undisturbed

theorem playerStep_ends (h : DrainInv cfg s) (hne : s.player ≠ .ended)
    (hend : (playerStep cfg s).player = .ended) :
    s.player = .invalidTest ∧ readResultInvalid s.rxResult = true := by
  have hlive := h.live hne
  cases hpc : s.player with
  | startTest =>
    simp only [Client.playerStep, hpc] at hend
    cases hm : cfg.mode <;> simp only [hm] at hend <;> split_ifs at hend
  | invalidTest =>
    simp only [Client.playerStep, hpc] at hend
    split_ifs at hend with hr
    exact ⟨rfl, hr⟩
  | ended => exact absurd hpc hne
  | startAsleep | dequeue | play | park | asleep => simp [Client.playerStep, hpc] at hend
  | _ =>
    simp only [Client.playerStep, hpc, hlive] at hend
    split_ifs at hend

/-- Behind the player's look nothing is left in the queues or with the decoder thread. -/
theorem Ordered.ends {p : State × Looks} (h : Ordered cfg p) {i : Label}
    (horder : LooksInOrder cfg p i) : EndsDrained p.1 (Client.step cfg p.1 i) := by
  intro hne hend
  obtain rfl : i = .player := by
    by_contra hi
    exact hne (step_player_of_ne hi ▸ hend)
  obtain ⟨hpc, hr⟩ := playerStep_ends h.drain hne hend
  obtain ⟨hd, hplayer⟩ := (h.looked hne).player (horder hpc hr)
  obtain ⟨hdecoder, hidle⟩ := (h.looked hne).decoder hd
  have hhand : p.1.inHand = [] := inHand_of_ne fun hdec => by simp [hdec, Idle] at hidle
  have hmaking : p.1.making = [] := by
    unfold State.making
    split
    · next ret hdec => simp [hdec, Idle] at hidle
    · rfl
  have hfed := h.drain.kept.decoderKept
  have hserved := h.drain.kept.playerKept
  have hmade := h.drain.made
  rw [hdecoder, hhand, List.append_nil, List.append_nil] at hfed
  rw [hplayer, List.append_nil, History.queuedPlayer, marked_of_all h.drain.putRoom] at hserved
  rw [hmaking, List.append_nil] at hmade
  simp only [Client.step, Client.playerStep, hpc]
  exact ⟨h.drain.rxEnded hr, hfed.symm, hserved.symm.trans hmade.symm⟩

theorem watched_fst (cfg : Config) (is : List Label) : (watched cfg is).1 = exec cfg is := by
  induction is using List.reverseRecOn with
  | nil => rfl
  | append_singleton is i ih =>
    rw [watched, List.foldl_append, exec, List.foldl_append]
    exact congrArg (step cfg · i) ih

/-- In an undisturbed run in MP3 mode whose looks come in the order of the stages, the
player ends only once the stream is drained. -/
theorem drained_at_end (cfg : Config) (hmode : cfg.mode = .mp3) (is : List Label)
    (hdom : ∀ pre i, pre ++ [i] <+: is → Undisturbed (exec cfg pre) i)
    (horder : ∀ pre i, pre ++ [i] <+: is → LooksInOrder cfg (watched cfg pre) i) :
    ∀ pre i, pre ++ [i] <+: is → EndsDrained (exec cfg pre) (step cfg (exec cfg pre) i) := by
  have hok : ∀ pre i, pre ++ [i] <+: is →
      InTurn cfg (pre.foldl (watch cfg) (.start cfg, ⟨false, false⟩)) i := by
    intro pre i hpre
    refine ⟨?_, horder pre i hpre⟩
    rw [← watched, watched_fst]
    exact hdom pre i hpre
  have hinv : ∀ pre, pre <+: is → Ordered cfg (watched cfg pre) :=
    prefix_invariant hok (start_ordered cfg) fun _ _ h hi => h.step hmode hi
  intro pre i hpre
  have hends := (hinv pre ((List.prefix_append pre [i]).trans hpre)).ends (horder pre i hpre)
  rw [watched_fst] at hends
  exact hends

/-- A schedule in which the looks come in order: a chunk is read and decoded and the
player takes it; at the end of the stream the chunk is queued once more, decoded and taken,
and every thread looks for another one behind it. -/
def inTurn : List Label :=
  List.replicate 9 (.rx (.const 0 45)) ++
    List.replicate 8 (.dec ⟨.ok, 4, 2, 44100, [1, 2, 3, 4]⟩) ++ List.replicate 6 .player ++
    List.replicate 5 (.rx (.const 0 0)) ++
    List.replicate 12 (.dec ⟨.ok, 4, 2, 44100, [1, 2, 3, 4]⟩) ++ List.replicate 8 .player

instance (s : State) (i : Label) : Decidable (Undisturbed s i) :=
  match i with
  | .input _ => inferInstanceAs (Decidable (s.player = .ended))
  | .dec out => inferInstanceAs (Decidable (s.dec = .decode → out.ret ≠ .err))
  | .rx _ | .player => isTrue trivial

instance (cfg : Config) (p : State × Looks) (i : Label) : Decidable (LooksInOrder cfg p i) :=
  match i with
  | .player => inferInstanceAs (Decidable (_ → _ → _))
  | .dec _ => inferInstanceAs (Decidable (_ → _))
  | .rx _ | .input _ => isTrue trivial

theorem drained_at_end_inTurn : (exec (.small .mp3) inTurn).player = .ended ∧
    ∀ pre i, pre ++ [i] <+: inTurn →
      EndsDrained (exec (.small .mp3) pre) (step (.small .mp3) (exec (.small .mp3) pre) i) :=
  have hdom : Along (step (.small .mp3)) Undisturbed (.start (.small .mp3)) inTurn := by
    decide +kernel
  have horder : Along (watch (.small .mp3)) (LooksInOrder (.small .mp3))
      (.start (.small .mp3), ⟨false, false⟩) inTurn := by decide +kernel
  ⟨by decide +kernel,
    drained_at_end (.small .mp3) rfl inTurn (along_iff.mp hdom) (along_iff.mp horder)⟩

/-- A chunk and a read error, the decoder thread up to its first dequeue, and the
player. -/
def playerFirst : List Label :=
  List.replicate 11 (.rx (.const 0 45)) ++ List.replicate 2 (.rx (.const 0 (-1))) ++
    List.replicate 3 (.dec ⟨.needMore, 0, 0, 0, []⟩) ++ List.replicate 8 .player

/-- The player finds its queue empty and the rx thread gone, and ends with a chunk
still in `decoder_que`. -/
theorem ends_before_decoder : ¬ ∀ (cfg : Config), cfg.mode = .mp3 → ∀ is : List Label,
    (∀ pre i, pre ++ [i] <+: is → Undisturbed (exec cfg pre) i) →
    ∀ pre i, pre ++ [i] <+: is → EndsDrained (exec cfg pre) (step cfg (exec cfg pre) i) := by
  intro h
  have hdom : ∀ pre i, pre ++ [i] <+: playerFirst → Undisturbed (exec (.small .mp3) pre) i := by
    intro pre i hpre
    have hmem := hpre.subset (by simp : i ∈ pre ++ [i])
    simp only [playerFirst, List.mem_append, List.mem_replicate] at hmem
    rcases hmem with ((⟨-, rfl⟩ | ⟨-, rfl⟩) | ⟨-, rfl⟩) | ⟨-, rfl⟩
    · trivial
    · trivial
    · exact fun _ => by simp
    · trivial
  have hlast : playerFirst.dropLast ++ [.player] = playerFirst := rfl
  have hd := h (.small .mp3) rfl playerFirst hdom playerFirst.dropLast .player
    (hlast ▸ List.prefix_refl _)
    (by decide +kernel) (by decide +kernel)
  have hlen := congrArg List.length hd.decoded
  exact absurd hlen (by decide +kernel)

end EmotionStreamer.Client
