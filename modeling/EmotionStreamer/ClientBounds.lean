import EmotionStreamer.ClientReceive
import EmotionStreamer.StreamChunk
import EmotionStreamer.Fifo
import EmotionStreamer.Runs

/-! Where the threads of the client read and write in the buffers of
`init_client_stream`. The chunk size that the server announces is any 32-bit value, and
what the server sends is any bytes; each access is recorded as the range that `memcpy`, a
read or `mpg123_decode` is given. -/
namespace EmotionStreamer.ClientBounds
open Client Converter Fifo Runs Slices

/-- The buffers; the `p_chunk` of the decoder is `pdChunk`, that of the player `ppChunk`. -/
inductive Buffer
  | readTcpChk | hChunk | rChunk | dChunk | pdChunk | ppChunk | prChunk
  deriving DecidableEq, Repr

/-- What the buffers of a session are made from: `is_wav_mode`, the size that the server
announces, and `cfg_client_chunk_size`; and the capacities of the queues. -/
structure Session where
  mode : Mode
  announced : UInt32
  clientChunkSize : UInt16
  decoderCap : ℕ
  playerCap : ℕ

/-- `sizeof(decoder_result_struct)`, and the place of `total_bytes_in_chunk` in it. -/
def decoderResultSize : ℕ := 128
def totalBytesOffset : ℕ := 96

/-- The place of `size` in a `frame_info_t`. -/
def frameSizeOffset : ℕ := 16

/-- The argument of `init_client_stream` has 16 bits. -/
def Session.chunkSize (ses : Session) : ℕ := ses.announced.toUInt16.toNat

/-- `sizeof(pd_chunk_buff)`, which is also the element size of `player_que`. -/
def Session.pdSize (ses : Session) : ℕ :=
  match ses.mode with
  | .wav => ses.chunkSize
  | .mp3 => decoderResultSize + 4 + ses.clientChunkSize.toNat

/-- `sizeof(d_chunk_buff)`, which is also the element size of `decoder_que`. -/
def Session.dSize (ses : Session) : ℕ :=
  match ses.mode with
  | .wav => 1
  | .mp3 => chunkHeaderSize + ses.chunkSize

def Session.size (ses : Session) : Buffer → ℕ
  | .readTcpChk => mp3StreamChunkSize
  | .hChunk => match ses.mode with | .wav => ses.chunkSize | .mp3 => 1
  | .rChunk => chunkHeaderSize + ses.chunkSize
  | .dChunk => ses.dSize
  | .pdChunk => ses.pdSize
  | .ppChunk => ses.pdSize
  | .prChunk => match ses.mode with | .wav => ses.chunkSize | .mp3 => ses.clientChunkSize.toNat

structure Access where
  buffer : Buffer
  off : ℕ
  len : ℕ
  deriving DecidableEq, Repr

def Access.Inside (ses : Session) (a : Access) : Prop := a.off + a.len ≤ ses.size a.buffer

instance (ses : Session) (a : Access) : Decidable (a.Inside ses) :=
  inferInstanceAs (Decidable (_ ≤ _))

inductive DecPc
  | dequeue | decode | insert
  deriving DecidableEq, Repr

inductive PlayerPc
  | dequeue | load
  deriving DecidableEq, Repr

/-- Of a processed chunk only `total_bytes_in_chunk` is kept, which is all that decides
about a length; `pdTotal` and `ppTotal` are those of the two `p_chunk`s. -/
structure State where
  first : Bool
  readTcpChk : List UInt8
  rChunk : List UInt8
  dChunk : List UInt8
  pdTotal : ℕ
  pBufferPosCursor : ℕ
  ppTotal : ℕ
  decoderQue : List (List UInt8)
  playerQue : List ℕ
  dec : DecPc
  player : PlayerPc
  accesses : List Access

def State.start (ses : Session) : State where
  first := ses.mode = .wav
  readTcpChk := List.replicate mp3StreamChunkSize 0
  rChunk := List.replicate (chunkHeaderSize + ses.chunkSize) 0
  dChunk := List.replicate ses.dSize 0
  pdTotal := 0
  pBufferPosCursor := 0
  ppTotal := 0
  decoderQue := []
  playerQue := []
  dec := .dequeue
  player := .dequeue
  accesses := []

def State.log (s : State) (as : List Access) : State := { s with accesses := s.accesses ++ as }

/-- The fields that `WAV_ParseFileData` reads, by their widths. -/
def wavHeaderWidths : List ℕ := [4, 4, 4, 4, 4, 2, 2, 4, 4, 2, 2, 4, 4]

def fieldsFrom : ℕ → List ℕ → List Access
  | _, [] => []
  | off, w :: ws => ⟨.hChunk, off, w⟩ :: fieldsFrom (off + w) ws

def parseWavHeaderIntoPlayerResult : List Access := fieldsFrom 0 wavHeaderWidths

/-- The read, of at most the bytes asked for, and the copy out of `read_tcp_chk`. -/
def readInto (ses : Session) (s : State) (d : Delivery) : State :=
  if s.first then s.log [⟨.hChunk, 0, min d.bytes.length ses.pdSize⟩]
  else match ses.mode with
    | .wav => s.log [⟨.rChunk, 0, min d.bytes.length ses.pdSize⟩]
    | .mp3 =>
      let readTcpChk := splice s.readTcpChk 0 (d.bytes.take ses.dSize)
      { s.log [⟨.readTcpChk, 0, min d.bytes.length ses.dSize⟩, ⟨.readTcpChk, 0, ses.dSize⟩,
          ⟨.rChunk, 0, ses.dSize⟩] with
        readTcpChk
        rChunk := splice s.rChunk 0 (readTcpChk.take ses.dSize) }

/-- `perform_queue_op` with `Q_READ_FROM` and the `r_chunk`. -/
def insertRead (ses : Session) (s : State) : State :=
  match ses.mode with
  | .wav =>
    { s.log (if s.playerQue.length = ses.playerCap then [] else [⟨.rChunk, 0, ses.pdSize⟩]) with
      playerQue := enqueue ses.playerCap s.playerQue 0 }
  | .mp3 =>
    { s.log (if s.decoderQue.length = ses.decoderCap then [] else [⟨.rChunk, 0, ses.dSize⟩]) with
      decoderQue := enqueue ses.decoderCap s.decoderQue (s.rChunk.take ses.dSize) }

def readChunk (ses : Session) (s : State) (d : Delivery) : State :=
  let read := readInto ses s d
  if d.ret < 0 then read
  else if s.first then
    { read.log (match ses.mode with | .wav => parseWavHeaderIntoPlayerResult | .mp3 => []) with
      first := false }
  else insertRead ses read

/-- `decode_chunk`: the frame's size, the frame, the room for what is decoded, and the
result. `mpg123_decode` writes `done` bytes. -/
def decodeChunk (ses : Session) (s : State) (done : ℕ) : State :=
  { s.log [⟨.dChunk, frameSizeOffset, 2⟩,
      ⟨.dChunk, chunkHeaderSize, (theFrameInfo s.dChunk).size.toNat⟩,
      ⟨.pdChunk, decoderResultSize + 4 + s.pBufferPosCursor, ses.pdSize - 4 - decoderResultSize⟩,
      ⟨.pdChunk, 0, decoderResultSize⟩] with
    pdTotal := done }

/-- `D_RESET_BOTH`, of which only the cursor of the `p_chunk` is read elsewhere. -/
def resetDecoderState (ses : Session) (s : State) : State :=
  { s with pBufferPosCursor := if ses.pdSize ≤ s.pBufferPosCursor then 0 else s.pBufferPosCursor }

/-- The next step of `dec_thread_func`, which only runs in MP3 mode. -/
def decStep (ses : Session) (s : State) (done : ℕ) : State :=
  match s.dec with
  | .dequeue =>
    { s.log (if s.decoderQue = [] then [] else [⟨.dChunk, 0, ses.dSize⟩]) with
      decoderQue := (dequeue s.decoderQue s.dChunk).1
      dChunk := (dequeue s.decoderQue s.dChunk).2
      dec := .decode }
  | .decode => { decodeChunk ses s done with dec := if 0 < done then .insert else .dequeue }
  | .insert =>
    let s := resetDecoderState ses s
    { s.log (if s.playerQue.length = ses.playerCap then [] else [⟨.pdChunk, 0, ses.pdSize⟩]) with
      playerQue := enqueue ses.playerCap s.playerQue s.pdTotal
      dec := .dequeue }

def safeDecoderBuffLoad (s : State) : State :=
  s.log [⟨.ppChunk, totalBytesOffset, 8⟩, ⟨.ppChunk, decoderResultSize + 4, s.ppTotal⟩,
    ⟨.prChunk, 0, s.ppTotal⟩]

/-- The next step of `play_thread_func`. -/
def playerStep (ses : Session) (s : State) : State :=
  match s.player with
  | .dequeue =>
    { s.log (if s.playerQue = [] then []
        else [⟨match ses.mode with | .wav => .prChunk | .mp3 => .ppChunk, 0, ses.pdSize⟩]) with
      playerQue := (dequeue s.playerQue s.ppTotal).1
      ppTotal := (dequeue s.playerQue s.ppTotal).2
      player := match ses.mode with | .wav => .dequeue | .mp3 => .load }
  | .load => { safeDecoderBuffLoad s with player := .dequeue }

/-- `mpg123_decode` writes at most as many bytes as there is room for. -/
inductive Label (ses : Session)
  | rx (d : Delivery)
  | dec (done : Fin (ses.clientChunkSize.toNat + 1))
  | player

def step (ses : Session) (s : State) : Label ses → State
  | .rx d => readChunk ses s d
  | .dec done => match ses.mode with | .wav => s | .mp3 => decStep ses s done
  | .player => playerStep ses s

def exec (ses : Session) (is : List (Label ses)) : State := is.foldl (step ses) (.start ses)

/-- All accesses made so far lie in their buffers. -/
def Safe (ses : Session) (s : State) : Prop := ∀ a ∈ s.accesses, a.Inside ses

/-- A chunk fits in `read_tcp_chk`, or holds the WAV header that is parsed; and the frame
that is decoded fits in the chunk. -/
def Fits (ses : Session) (s : State) : Label ses → Prop
  | .rx d =>
    match ses.mode with
    | .wav => s.first = true → 0 ≤ d.ret → wavHeaderSize ≤ ses.chunkSize
    | .mp3 => ses.chunkSize ≤ maxMp3StreamChunkBuffSize + 4
  | .dec _ => ses.mode = .mp3 → s.dec = .decode →
    (theFrameInfo s.dChunk).size.toNat ≤ ses.chunkSize
  | .player => True

/-- What the lengths used later rely on: a session decodes or has a header, the cursor
never moves, and no more was decoded into a chunk than there is room for. -/
structure Consistent (ses : Session) (s : State) : Prop where
  first : ses.mode = .mp3 → s.first = false
  player : ses.mode = .wav → s.player = .dequeue
  cursor : s.pBufferPosCursor = 0
  pdTotal : s.pdTotal ≤ ses.clientChunkSize.toNat
  ppTotal : s.ppTotal ≤ ses.clientChunkSize.toNat
  playerQue : ∀ n ∈ s.playerQue, n ≤ ses.clientChunkSize.toNat

variable {ses : Session} {s : State}

theorem Consistent.start (ses : Session) : Consistent ses (.start ses) where
  first h := by simp [State.start, h]
  player _ := rfl
  cursor := rfl
  pdTotal := Nat.zero_le _
  ppTotal := Nat.zero_le _
  playerQue n hn := by cases hn

theorem Consistent.readInto (h : Consistent ses s) (d : Delivery) :
    Consistent ses (readInto ses s d) := by
  unfold ClientBounds.readInto
  split_ifs
  · exact ⟨h.first, h.player, h.cursor, h.pdTotal, h.ppTotal, h.playerQue⟩
  · split <;> exact ⟨h.first, h.player, h.cursor, h.pdTotal, h.ppTotal, h.playerQue⟩

theorem Consistent.readChunk (h : Consistent ses s) (d : Delivery) :
    Consistent ses (readChunk ses s d) := by
  have hread := h.readInto d
  unfold ClientBounds.readChunk
  split_ifs
  · exact hread
  · exact ⟨fun _ => rfl, hread.player, hread.cursor, hread.pdTotal, hread.ppTotal, hread.playerQue⟩
  · unfold insertRead
    split
    · exact ⟨hread.first, hread.player, hread.cursor, hread.pdTotal, hread.ppTotal,
        forall_mem_enqueue hread.playerQue (Nat.zero_le _)⟩
    · exact ⟨hread.first, hread.player, hread.cursor, hread.pdTotal, hread.ppTotal, hread.playerQue⟩

theorem Consistent.decStep (h : Consistent ses s) {done : ℕ}
    (hdone : done ≤ ses.clientChunkSize.toNat) : Consistent ses (decStep ses s done) := by
  unfold ClientBounds.decStep
  split
  · exact ⟨h.first, h.player, h.cursor, h.pdTotal, h.ppTotal, h.playerQue⟩
  · exact ⟨h.first, h.player, h.cursor, hdone, h.ppTotal, h.playerQue⟩
  · refine ⟨h.first, h.player, ?_, h.pdTotal, h.ppTotal, forall_mem_enqueue h.playerQue h.pdTotal⟩
    simp [resetDecoderState, State.log, h.cursor]

theorem Consistent.playerStep (h : Consistent ses s) : Consistent ses (playerStep ses s) := by
  unfold ClientBounds.playerStep
  split
  · obtain ⟨hque, htotal⟩ := forall_mem_dequeue h.playerQue h.ppTotal
    exact ⟨h.first, fun hmode => by simp [hmode], h.cursor, h.pdTotal, htotal, hque⟩
  · exact ⟨h.first, fun _ => rfl, h.cursor, h.pdTotal, h.ppTotal, h.playerQue⟩

theorem Consistent.step (h : Consistent ses s) (l : Label ses) : Consistent ses (step ses s l) := by
  cases l with
  | rx d => exact h.readChunk d
  | dec done =>
    simp only [ClientBounds.step]
    split
    · exact h
    · exact h.decStep (Nat.lt_succ_iff.mp done.isLt)
  | player => exact h.playerStep

theorem safe_append {as : List Access} (h : Safe ses s) :
    (∀ a ∈ s.accesses ++ as, a.Inside ses) ↔ ∀ a ∈ as, a.Inside ses := by
  rw [List.forall_mem_append]
  exact and_iff_right h

/-- The copy into or out of a queue, which a full or an empty queue does not make. -/
theorem inside_unless {c : Prop} [Decidable c] {a : Access} (h : a.Inside ses) :
    ∀ b ∈ if c then [] else [a], b.Inside ses := by
  split_ifs
  · exact fun b hb => by cases hb
  · exact List.forall_mem_singleton.mpr h

/-- The sizes of a session in its two modes. -/
theorem size_wav (hmode : ses.mode = .wav) : ses.pdSize = ses.chunkSize ∧
    ses.size .hChunk = ses.chunkSize ∧ ses.size .prChunk = ses.chunkSize := by
  simp only [Session.pdSize, Session.size, hmode, and_self]

theorem size_mp3 (hmode : ses.mode = .mp3) : ses.dSize = chunkHeaderSize + ses.chunkSize ∧
    ses.pdSize = decoderResultSize + 4 + ses.clientChunkSize.toNat ∧
    ses.size .prChunk = ses.clientChunkSize.toNat := by
  simp only [Session.dSize, Session.pdSize, Session.size, hmode, and_self]

theorem readInto_safe_iff (h : Consistent ses s) (hsafe : Safe ses s) (d : Delivery) :
    Safe ses (readInto ses s d) ↔
      (ses.mode = .mp3 → ses.chunkSize ≤ maxMp3StreamChunkBuffSize + 4) := by
  cases hmode : ses.mode with
  | wav =>
    obtain ⟨hpd, hh, -⟩ := size_wav hmode
    simp only [reduceCtorEq, false_implies, iff_true]
    unfold readInto
    split_ifs
    · apply (safe_append hsafe).mpr
      simp [Access.Inside, hpd, hh]
    · simp only [hmode]
      apply (safe_append hsafe).mpr
      simp only [List.mem_singleton, forall_eq, Access.Inside, hpd, Session.size]
      omega
  | mp3 =>
    obtain ⟨hd, -, -⟩ := size_mp3 hmode
    simp only [readInto, h.first hmode, Bool.false_eq_true, ↓reduceIte, hmode, forall_const]
    refine (safe_append hsafe).trans ?_
    simp only [List.mem_cons, List.not_mem_nil, or_false, forall_eq_or_imp, forall_eq, Access.Inside,
      hd, Session.size, mp3StreamChunkSize]
    omega

/-- The fields of the header, one behind the other, end where their widths add up to. -/
theorem fieldsFrom_inside_iff (off : ℕ) (ws : List ℕ) (hws : ws ≠ []) :
    (∀ a ∈ fieldsFrom off ws, a.Inside ses) ↔ off + ws.sum ≤ ses.size .hChunk := by
  induction ws generalizing off with
  | nil => exact absurd rfl hws
  | cons w ws ih =>
    cases ws with
    | nil => simp [fieldsFrom, Access.Inside]
    | cons v ws =>
      rw [fieldsFrom, List.forall_mem_cons, ih _ (List.cons_ne_nil v ws)]
      simp only [Access.Inside, List.sum_cons]
      omega

theorem parseWavHeader_inside_iff (hmode : ses.mode = .wav) :
    (∀ a ∈ parseWavHeaderIntoPlayerResult, a.Inside ses) ↔ wavHeaderSize ≤ ses.chunkSize := by
  have hsum : 0 + wavHeaderWidths.sum = wavHeaderSize := rfl
  have hne : wavHeaderWidths ≠ [] := List.cons_ne_nil _ _
  rw [parseWavHeaderIntoPlayerResult, fieldsFrom_inside_iff 0 _ hne, hsum, (size_wav hmode).2.1]

theorem insertRead_safe (hsafe : Safe ses s) : Safe ses (insertRead ses s) := by
  unfold insertRead
  split <;> rename_i hmode
  · apply (safe_append hsafe).mpr
    apply inside_unless
    simp only [Access.Inside, (size_wav hmode).1, Session.size]
    omega
  · apply (safe_append hsafe).mpr
    apply inside_unless
    simp only [Access.Inside, (size_mp3 hmode).1, Session.size]
    omega

theorem insertRead_accesses (s : State) : s.accesses ⊆ (insertRead ses s).accesses := by
  unfold insertRead
  split <;> exact List.subset_append_left _ _

theorem readChunk_safe_iff (h : Consistent ses s) (hsafe : Safe ses s) (d : Delivery) :
    Safe ses (readChunk ses s d) ↔ Fits ses s (.rx d) := by
  have hread := readInto_safe_iff h hsafe d
  cases hmode : ses.mode with
  | wav =>
    have hsafe' : Safe ses (readInto ses s d) := hread.mpr fun h => by simp [hmode] at h
    simp only [readChunk, Fits, hmode]
    split_ifs with hneg hfirst
    · exact iff_of_true hsafe' fun _ hret => absurd hneg (Int.not_lt.mpr hret)
    · refine ((safe_append hsafe').trans (parseWavHeader_inside_iff hmode)).trans ?_
      simp [hfirst, Int.not_lt.mp hneg]
    · exact iff_of_true (insertRead_safe hsafe') fun hf => absurd hf hfirst
  | mp3 =>
    simp only [hmode, forall_const] at hread
    simp only [readChunk, Fits, hmode, h.first hmode, Bool.false_eq_true, ↓reduceIte, ← hread]
    split_ifs
    · rfl
    · exact ⟨fun hall a ha => hall a (insertRead_accesses _ ha), insertRead_safe⟩

theorem decStep_safe_iff (h : Consistent ses s) (hsafe : Safe ses s) (hmode : ses.mode = .mp3)
    (done : ℕ) : Safe ses (decStep ses s done) ↔
      (s.dec = .decode → (theFrameInfo s.dChunk).size.toNat ≤ ses.chunkSize) := by
  obtain ⟨hd, hpd, -⟩ := size_mp3 hmode
  cases hpc : s.dec with
  | dequeue =>
    simp only [decStep, hpc, reduceCtorEq, false_implies, iff_true]
    apply (safe_append hsafe).mpr
    apply inside_unless
    simp [Access.Inside, Session.size]
  | decode =>
    simp only [decStep, hpc, forall_const]
    refine (safe_append hsafe).trans ?_
    simp only [List.mem_cons, List.not_mem_nil, or_false, forall_eq_or_imp, forall_eq, Access.Inside,
      Session.size, hd, hpd, h.cursor, frameSizeOffset, chunkHeaderSize, frameInfoSize]
    omega
  | insert =>
    simp only [decStep, hpc, reduceCtorEq, false_implies, iff_true]
    apply (safe_append (s := resetDecoderState ses s) hsafe).mpr
    apply inside_unless
    simp [Access.Inside, Session.size]

theorem playerStep_safe (h : Consistent ses s) (hsafe : Safe ses s) : Safe ses (playerStep ses s) := by
  cases hpc : s.player with
  | dequeue =>
    simp only [playerStep, hpc]
    apply (safe_append hsafe).mpr
    apply inside_unless
    cases hmode : ses.mode with
    | wav => simp [Access.Inside, size_wav hmode]
    | mp3 => simp [Access.Inside, Session.size]
  | load =>
    have hmode : ses.mode = .mp3 := by
      cases hmode : ses.mode with
      | wav => simp [h.player hmode] at hpc
      | mp3 => rfl
    obtain ⟨-, hpd, hpr⟩ := size_mp3 hmode
    have hpp : ses.size .ppChunk = ses.pdSize := rfl
    have htotal := h.ppTotal
    simp only [playerStep, hpc]
    apply (safe_append hsafe).mpr
    simp only [List.mem_cons, List.not_mem_nil, or_false, forall_eq_or_imp, forall_eq, Access.Inside,
      hpr, hpp, hpd, totalBytesOffset, decoderResultSize]
    omega

/-- Step lemma. -/
theorem step_safe_iff (h : Consistent ses s) (hsafe : Safe ses s) (l : Label ses) :
    Safe ses (step ses s l) ↔ Fits ses s l := by
  cases l with
  | rx d => exact readChunk_safe_iff h hsafe d
  | dec done =>
    cases hmode : ses.mode with
    | wav =>
      simp only [step, hmode, Fits, reduceCtorEq, false_implies, iff_true]
      exact hsafe
    | mp3 =>
      simp only [step, hmode, Fits, forall_const]
      exact decStep_safe_iff h hsafe hmode done
  | player => exact iff_of_true (playerStep_safe h hsafe) trivial

theorem exactGuard (ses : Session) :
    ExactGuard (step ses) (Fits ses) (fun s => Consistent ses s ∧ Safe ses s) (Safe ses) where
  holds _ h := h.2
  keeps _ l h hl := ⟨h.1.step l, (step_safe_iff h.1 h.2 l).mpr hl⟩
  breaks _ l h hl := fun hsafe => hl ((step_safe_iff h.1 h.2 l).mp hsafe)

/-- The receive path stays in its buffers as long as, and no longer than, chunks and
frames fit. -/
theorem receive_path_safe_iff (ses : Session) (is : List (Label ses)) :
    (∀ pre, pre <+: is → Safe ses (exec ses pre)) ↔
      ∀ pre l, pre ++ [l] <+: is → Fits ses (exec ses pre) l :=
  (exactGuard ses).iff ⟨.start ses, fun a ha => by cases ha⟩ is

/-- An MP3 session for which the server announces 40000 bytes. -/
def announced40000 : Session := ⟨.mp3, 40000, 8192, 37, 37⟩

/-- Its first read goes beyond `read_tcp_chk`, also when nothing arrives. -/
theorem read_beyond_read_tcp_chk :
    ¬Safe announced40000 (exec announced40000 [.rx ⟨-2, [], rfl⟩]) := by
  intro h
  have hmem : ⟨.readTcpChk, 0, 40044⟩ ∈ (exec announced40000 [.rx ⟨-2, [], rfl⟩]).accesses :=
    List.mem_cons_of_mem _ List.mem_cons_self
  exact absurd (h _ hmem) (by decide)

end EmotionStreamer.ClientBounds
