import EmotionStreamer.ClientBackPressure
import Mathlib.Data.List.Forall2

/-! From the rx thread's reads to the decoder: over every schedule in MP3 mode, a read
of a whole chunk is the chunk that the decoder is fed in its turn. -/
namespace EmotionStreamer.Client
open Slices Fifo Runs

def State.reads (s : State) : Label → List Delivery
  | .rx d => if s.rx = .read then [d] else []
  | _ => []

def readsOf (cfg : Config) (s : State) : List Label → List Delivery
  | [] => []
  | i :: is => s.reads i ++ readsOf cfg (step cfg s i) is

def arrived (ds : List Delivery) : List (List UInt8) :=
  (ds.filter (0 ≤ ·.ret)).map (·.bytes)

/-- The chunk that has been read and not inserted yet. -/
def State.pending (cfg : Config) (s : State) : List (List UInt8) :=
  match s.rx with
  | .insert _ => [s.bufs.chunk cfg.mode cfg.chunkSize]
  | _ => []

def TakenOver (c : ChunkSize) (read chunk : List UInt8) : Prop :=
  read.length = c.decoder → chunk = read

/-- The rx thread's part of the state after the reads `bs`. -/
structure Received (cfg : Config) (bs : List (List UInt8)) (s : State) : Prop where
  first : s.bufs.first = false
  sized : Sized cfg.chunkSize s.bufs
  chunks : List.Forall₂ (TakenOver cfg.chunkSize) bs (s.hist.offered.map (·.1) ++ s.pending cfg)

/-- What the decoder was fed of the `i`-th chunk given to `decoder_que`, if that chunk
found room there. -/
def History.fedAt (h : History) (i : ℕ) : Option (List UInt8) :=
  match h.offered[i]? with
  | some (_, true) => h.fed[(h.offered.take i).countP (·.2)]?
  | _ => none

variable {cfg : Config} {s : State} {bs : List (List UInt8)}

theorem readsOf_append (s : State) (is js : List Label) :
    readsOf cfg s (is ++ js) = readsOf cfg s is ++ readsOf cfg (is.foldl (step cfg) s) js := by
  induction is generalizing s with
  | nil => rfl
  | cons i is ih => simp only [List.cons_append, readsOf, List.foldl_cons, ih, List.append_assoc]

theorem arrived_append (ds es : List Delivery) :
    arrived (ds ++ es) = arrived ds ++ arrived es := by
  simp [arrived]

theorem start_received (hmode : cfg.mode = .mp3) : Received cfg [] (.start cfg) where
  first := by simp [State.start, Buffers.init, hmode]
  sized := init_sized _ _
  chunks := .nil

theorem Received.congr (h : Received cfg bs s) {t : State} (hbufs : t.bufs = s.bufs)
    (hoffered : t.hist.offered = s.hist.offered) (hrx : t.rx = s.rx) : Received cfg bs t where
  first := hbufs ▸ h.first
  sized := hbufs ▸ h.sized
  chunks := by
    simp only [State.pending, hbufs, hoffered, hrx]
    exact h.chunks

theorem decStep_rxView (cfg : Config) (s : State) (out : DecodeOut) :
    (decStep cfg s out).bufs = s.bufs ∧
      (decStep cfg s out).hist.offered = s.hist.offered ∧ (decStep cfg s out).rx = s.rx := by
  cases hpc : s.dec <;> simp [decStep, hpc, decDequeue, decDecode, insertPlayer]

theorem playerStep_rxView (cfg : Config) (s : State) :
    (playerStep cfg s).bufs = s.bufs ∧
      (playerStep cfg s).hist.offered = s.hist.offered ∧ (playerStep cfg s).rx = s.rx := by
  cases hpc : s.player with
  | startTest => cases hmode : cfg.mode <;> simp [playerStep, hpc, hmode]
  | dequeue => simp [playerStep, hpc, playerDequeue]
  | play =>
    simp only [playerStep, hpc, safePlayWrapper, playChunk]
    split_ifs <;> exact ⟨rfl, rfl, rfl⟩
  | _ => simp [playerStep, hpc]

theorem pending_eq_nil (h : ∀ r, s.rx ≠ .insert r) : s.pending cfg = [] := by
  unfold State.pending
  split
  · next r hr => exact absurd hr (h r)
  · rfl

/-- The read and the step after it are one call of `read_chunk`. -/
theorem rxStep_readChunk (hpc : s.rx = .read) (d d' : Delivery) :
    let t := Client.rxStep cfg (Client.rxStep cfg s d) d'
    t.bufs = (readChunk cfg.mode cfg.chunkSize s.bufs d).1 ∧
      (cfg.mode = .mp3 → t.hist.offered.map (·.1) = s.hist.offered.map (·.1) ++
        (readChunk cfg.mode cfg.chunkSize s.bufs d).2.toList) := by
  by_cases hneg : d.ret < 0
  · simp [Client.rxStep, hpc, hneg, readChunk]
  · cases hb : s.bufs.first with
    | true => simp [Client.rxStep, hpc, hneg, readChunk, hb]
    | false =>
      cases hmode : cfg.mode <;>
        simp [Client.rxStep, hpc, hneg, readChunk, hb, rxInsert, insertPlayer, hmode]

theorem Received.rxMove (h : Received cfg bs s) {t : State} (hbufs : t.bufs = s.bufs)
    (hoffered : t.hist.offered = s.hist.offered) (hs : s.pending cfg = [])
    (ht : t.pending cfg = []) : Received cfg bs t where
  first := hbufs ▸ h.first
  sized := hbufs ▸ h.sized
  chunks := by
    have := h.chunks
    rw [hs] at this
    rwa [ht, hoffered]

theorem Received.read (h : Received cfg bs s) (hmode : cfg.mode = .mp3) (hpc : s.rx = .read)
    (d : Delivery) (hd : d.bytes.length ≤ cfg.chunkSize.decoder) :
    Received cfg (bs ++ arrived [d]) (rxStep cfg s d) := by
  have hn : d.bytes.length ≤ cfg.chunkSize.queue cfg.mode := by rwa [hmode]
  obtain ⟨hfirst, hsized, hchunk, -⟩ := fill_later h.sized h.first hn
  have hchunks := h.chunks
  simp only [State.pending, hpc, List.append_nil] at hchunks
  by_cases hneg : d.ret < 0
  · have harr : arrived [d] = [] := by simp [arrived, hneg]
    rw [harr, List.append_nil]
    refine ⟨?_, ?_, ?_⟩
    · simpa only [rxStep, hpc] using hfirst
    · simpa only [rxStep, hpc] using hsized
    · simpa only [rxStep, hpc, hneg, ↓reduceIte, State.pending, List.append_nil] using hchunks
  · have harr : arrived [d] = [d.bytes] := by simp [arrived, Int.not_lt.mp hneg]
    rw [harr]
    refine ⟨?_, ?_, ?_⟩
    · simpa only [rxStep, hpc] using hfirst
    · simpa only [rxStep, hpc] using hsized
    · simp only [rxStep, hpc, hneg, h.first, ↓reduceIte, Bool.false_eq_true, State.pending, hchunk]
      refine List.rel_append hchunks (.cons (fun hwhole => ?_) .nil)
      have hstale : (s.bufs.stale cfg.mode cfg.chunkSize).length = d.bytes.length := by
        rw [h.sized.stale_length, hmode, hwhole]
        rfl
      rw [List.drop_of_length_le hstale.le, List.append_nil]

theorem Received.rxStep (h : Received cfg bs s) (hmode : cfg.mode = .mp3) (d : Delivery)
    (hd : s.rx = .read → d.bytes.length ≤ cfg.chunkSize.decoder) :
    Received cfg (bs ++ arrived (s.reads (.rx d))) (rxStep cfg s d) := by
  cases hpc : s.rx with
  | read =>
    simp only [State.reads, hpc, ↓reduceIte]
    exact h.read hmode hpc d (hd hpc)
  | insert r =>
    have hchunks := h.chunks
    simp only [State.pending, hpc] at hchunks
    simp only [State.reads, hpc, reduceCtorEq, ↓reduceIte, Client.rxStep, rxInsert, hmode]
    refine ⟨h.first, h.sized, ?_⟩
    simpa [State.pending, arrived, hmode] using hchunks
  | init r =>
    have hchunks := h.chunks
    simp only [State.pending, hpc] at hchunks
    simp only [State.reads, hpc, reduceCtorEq, ↓reduceIte, Client.rxStep]
    refine ⟨rfl, ⟨h.sized.rChunk, h.sized.readTcpChk⟩, ?_⟩
    simpa [State.pending, arrived] using hchunks
  | _ =>
    have hreads : arrived (s.reads (.rx d)) = [] := by simp [State.reads, hpc, arrived]
    rw [hreads, List.append_nil]
    refine h.rxMove ?_ ?_ (pending_eq_nil (by simp [hpc])) (pending_eq_nil fun r => ?_)
    · simp [Client.rxStep, hpc]
    · simp [Client.rxStep, hpc]
    · simp [Client.rxStep, hpc, ite_eq_iff]

theorem Received.step (h : Received cfg bs s) (hmode : cfg.mode = .mp3) (i : Label)
    (hi : ∀ d ∈ s.reads i, d.bytes.length ≤ cfg.chunkSize.decoder) :
    Received cfg (bs ++ arrived (s.reads i)) (step cfg s i) := by
  cases i with
  | rx d => exact h.rxStep hmode d fun hpc => hi d (by simp [State.reads, hpc])
  | dec out =>
    obtain ⟨hbufs, hoffered, hrx⟩ := decStep_rxView cfg s out
    simpa [State.reads, arrived, Client.step] using h.congr hbufs hoffered hrx
  | player =>
    obtain ⟨hbufs, hoffered, hrx⟩ := playerStep_rxView cfg s
    simpa [State.reads, arrived, Client.step] using h.congr hbufs hoffered hrx
  | input i =>
    have hview : (inputStep s i).bufs = s.bufs ∧ (inputStep s i).hist.offered = s.hist.offered ∧
        (inputStep s i).rx = s.rx := by cases i <;> exact ⟨rfl, rfl, rfl⟩
    simpa [State.reads, arrived, Client.step] using h.congr hview.1 hview.2.1 hview.2.2

theorem exec_received (hmode : cfg.mode = .mp3) (is : List Label)
    (hreads : ∀ d ∈ readsOf cfg (.start cfg) is, d.bytes.length ≤ cfg.chunkSize.decoder) :
    Received cfg (arrived (readsOf cfg (.start cfg) is)) (exec cfg is) := by
  induction is using List.reverseRecOn with
  | nil => exact start_received hmode
  | append_singleton is i ih =>
    rw [readsOf_append] at hreads ⊢
    rw [arrived_append, exec, List.foldl_append]
    have hpre := ih fun d hd => hreads d (List.mem_append_left _ hd)
    simp only [readsOf, List.append_nil, List.foldl_cons, List.foldl_nil] at hreads ⊢
    exact hpre.step hmode i fun d hd => hreads d (List.mem_append_right _ hd)

/-- The reads bring these chunks whole and in order, and then at most the end of the
stream. -/
def ArriveWhole (chunks : List (List UInt8)) (ds : List Delivery) : Prop :=
  arrived ds <+: chunks ++ [[]]

/-- What the decoder is fed of a chunk is that chunk. -/
theorem offered_of_fedAt (hkept : Kept cfg s) {i : ℕ} {chunk : List UInt8}
    (hfed : s.hist.fedAt i = some chunk) : s.hist.offered[i]? = some (chunk, true) := by
  unfold History.fedAt at hfed
  split at hfed
  · next x hx =>
    have hqueued := getElem?_marked hx
    change s.hist.queued[_]? = some x at hqueued
    rw [hkept.decoderKept, List.append_assoc,
      List.getElem?_append_left (List.getElem?_eq_some_iff.mp hfed).1, hfed] at hqueued
    rw [hx, Option.some.inj hqueued]
  · cases hfed

/-- The chunk that the decoder is fed in its turn is the one that arrived. -/
theorem fedAt_eq (hmode : cfg.mode = .mp3) (is : List Label) {chunks : List (List UInt8)}
    (hwhole : ∀ chunk ∈ chunks, chunk.length = cfg.chunkSize.decoder)
    (harrive : ArriveWhole chunks (readsOf cfg (.start cfg) is)) {i : ℕ} {chunk : List UInt8}
    (hfed : (exec cfg is).hist.fedAt i = some chunk) (hi : i < chunks.length) :
    chunks[i]? = some chunk := by
  have hlen : ∀ d ∈ readsOf cfg (.start cfg) is, d.bytes.length ≤ cfg.chunkSize.decoder := by
    intro d hd
    by_cases hneg : d.ret < 0
    · rw [d.length_bytes]
      omega
    · have hmem : d.bytes ∈ chunks ++ [[]] := harrive.subset
        (List.mem_map_of_mem (List.mem_filter.mpr ⟨hd, by simpa using Int.not_lt.mp hneg⟩))
      rcases List.mem_append.mp hmem with hchunk | hend
      · exact (hwhole _ hchunk).le
      · rw [List.mem_singleton.mp hend]
        exact Nat.zero_le _
  have hrec := (exec_received hmode is hlen).chunks
  have hgiven : ((exec cfg is).hist.offered.map (·.1))[i]? = some chunk := by
    rw [List.getElem?_map, offered_of_fedAt (exec_kept cfg is) hfed]
    rfl
  have hoffered : ((exec cfg is).hist.offered.map (·.1) ++ (exec cfg is).pending cfg)[i]? =
      some chunk := by
    rw [List.getElem?_append_left (List.getElem?_eq_some_iff.mp hgiven).1, hgiven]
  obtain ⟨hlt, hget⟩ := List.getElem?_eq_some_iff.mp hoffered
  have hlt' : i < (arrived (readsOf cfg (.start cfg) is)).length := hrec.length_eq ▸ hlt
  have htaken := hrec.get hlt' hlt
  obtain ⟨rest, hrest⟩ := harrive
  have hsplit : (chunks ++ [[]])[i]? = chunks[i]? := List.getElem?_append_left hi
  have hread : chunks[i]? = some (arrived (readsOf cfg (.start cfg) is))[i] := by
    rw [← hsplit, ← hrest, List.getElem?_append_left hlt',
      List.getElem?_eq_getElem hlt']
  rw [hread, ← hget]
  exact congrArg some (htaken (hwhole _ (List.mem_of_getElem? hread))).symm

end EmotionStreamer.Client
