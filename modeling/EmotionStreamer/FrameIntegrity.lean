import EmotionStreamer.ClientArrival
import EmotionStreamer.ServerStream

/-! The MP3 pipeline from the converter to `mpg123_decode`: which boundary entries
reach the decoder as the bytes of the song they stand for. -/
namespace EmotionStreamer.Pipeline
open Slices Client Converter ContentServer

/-- The input that `decode_chunk` hands to `mpg123_decode`; none when its length runs
past `d_chunk`. -/
def decodeInput (dChunk : List UInt8) : Option (List UInt8) :=
  let size := (theFrameInfo dChunk).size.toNat
  if dChunk.length < chunkHeaderSize + size then none
  else some (slice dChunk chunkHeaderSize size)

/-- The chunk size as the client gets it: four bytes on the wire, two in
`init_client_stream`. -/
def announced (serverChunkSize : ℕ) : ℕ := serverChunkSize % uint32Size % uint16Size

/-- A song, a boundary file that the converter writes for it, the configured chunk
size, the results of the server's sends and a schedule of the client's threads. -/
structure Session where
  song : List UInt8
  song_fits : song.length < 2 ^ 63
  boundary : List BoundaryEntry
  boundary_written : ∃ t, startFrameInfoMachine song = some t ∧ boundary.map (·.info) = t.written
  configured : ℕ
  client : Config
  client_mp3 : client.mode = .mp3
  client_chunkSize : client.chunkSize.val = announced (readServerChunkSize configured)
  sends : List ℤ
  schedule : List Label

namespace Session

def chunkSize (s : Session) : ℕ := readServerChunkSize s.configured

def sent (s : Session) : Except Fault (List (List UInt8)) :=
  serverStream s.song (boundaryBytes s.boundary) s.chunkSize s.sends

/-- Every chunk the server sends arrives whole and in order. -/
def Delivered (s : Session) (sent : List (List UInt8)) : Prop :=
  s.sent = .ok sent ∧ ArriveWhole sent (readsOf s.client (.start s.client) s.schedule)

/-- What the decoder is fed of the `i`-th chunk. -/
def decoded (s : Session) (i : ℕ) : Option (List UInt8) :=
  (exec s.client s.schedule).hist.fedAt i

end Session

/-- The decoder gets exactly the bytes of the song that the entry stands for. -/
def Intact (song : List UInt8) (info : FrameInfo) (dChunk : List UInt8) : Prop :=
  ∃ bytes, decodeInput dChunk = some bytes ∧ bytes.length = info.size.toNat ∧
    bytes = slice song info.start.toNat info.size.toNat

variable {song : List UInt8} {e : BoundaryEntry} {c : ℕ}

theorem announced_eq (h : c ≤ maxMp3StreamChunkBuffSize) : announced c = c := by
  simp only [maxMp3StreamChunkBuffSize] at h
  simp only [announced, uint32Size, uint16Size]
  omega

theorem Session.chunkSize_eq (s : Session) : s.client.chunkSize.val = s.chunkSize := by
  rw [s.client_chunkSize, announced_eq (readServerChunkSize_le _), chunkSize]

theorem Session.streamable (s : Session) : ∀ e ∈ s.boundary, Streamable s.song e.info := by
  obtain ⟨t, hrun, hwritten⟩ := s.boundary_written
  intro e he
  refine written_streamable s.song_fits hrun e.info ?_
  rw [← hwritten]
  exact List.mem_map_of_mem he

theorem entry_room (hs : Streamable song e.info) :
    chunkHeaderSize + (slice song e.info.start.toNat e.info.size.toNat).length ≤
      (splice (List.replicate mp3StreamChunkSize 0) 0 e.bytes).length := by
  have hle := hs.size_le
  rw [entry_splice_length, slice, List.length_take, List.length_drop]
  simp only [mp3StreamChunkSize, maxMp3StreamChunkBuffSize, maxTableSize] at hle ⊢
  omega

theorem entryCache_length (hs : Streamable song e.info) :
    (entryCache song e).length = mp3StreamChunkSize := by
  rw [entryCache, splice_length (entry_room hs), entry_splice_length]

theorem sentBytes_length (hs : Streamable song e.info) (hc : c ≤ maxMp3StreamChunkBuffSize) :
    (sentBytes c (entryCache song e)).length = chunkHeaderSize + c := by
  rw [sentBytes, List.length_take, entryCache_length hs]
  simp only [mp3StreamChunkSize] at hc ⊢
  omega

theorem theFrameInfo_sentBytes (hs : Streamable song e.info) :
    theFrameInfo (sentBytes c (entryCache song e)) = e.info := by
  have htake : (sentBytes c (entryCache song e)).take frameInfoSize = e.bytes := by
    have hhead : (entryCache song e).take frameInfoSize =
        (splice (List.replicate mp3StreamChunkSize 0) 0 e.bytes).take frameInfoSize :=
      slice_splice_of_disjoint 0 frameInfoSize (entry_room hs)
        (.inl (by simp only [chunkHeaderSize]; omega))
    have hle : frameInfoSize ≤ chunkHeaderSize + c := by
      simp only [chunkHeaderSize]
      omega
    rw [sentBytes, List.take_take, Nat.min_eq_left hle]
    rw [hhead, splice_zero, ← e.bytes_length, List.take_left]
  have hinfo := theFrameInfo_bytes e []
  rw [theFrameInfo, htake]
  rw [List.append_nil, theFrameInfo, ← e.bytes_length, List.take_length] at hinfo
  exact hinfo

theorem intact_iff (hs : Streamable song e.info) (hc : c ≤ maxMp3StreamChunkBuffSize) :
    Intact song e.info (sentBytes c (entryCache song e)) ↔
      e.info.size.toNat ≤ c ∧ e.info.start.toNat + e.info.size.toNat ≤ song.length := by
  have hstart := hs.start_lt
  have hlen : (slice song e.info.start.toNat e.info.size.toNat).length =
      min e.info.size.toNat (song.length - e.info.start.toNat) := by
    rw [slice, List.length_take, List.length_drop]
  simp only [Intact, decodeInput, theFrameInfo_sentBytes hs, sentBytes_length hs hc]
  constructor
  · rintro ⟨bytes, hin, hbytes, hslice⟩
    split_ifs at hin with hroom
    rw [hslice, hlen] at hbytes
    omega
  · rintro ⟨hsize, hend⟩
    rw [if_neg (by omega)]
    have hsize' : (slice song e.info.start.toNat e.info.size.toNat).length = e.info.size.toNat := by
      rw [hlen]
      omega
    have hframe := slice_splice (entry_room hs)
    rw [hsize'] at hframe
    have hinput : slice (sentBytes c (entryCache song e)) chunkHeaderSize e.info.size.toNat =
        slice song e.info.start.toNat e.info.size.toNat := by
      rw [sentBytes, slice_take (by omega), entryCache, hframe]
    exact ⟨_, rfl, by rw [hinput, hsize'], hinput⟩

theorem Session.sent_eq (s : Session) {sent : List (List UInt8)} (h : s.sent = .ok sent) :
    sent = (s.boundary.map fun e => sentBytes s.chunkSize (entryCache s.song e)).take
      (passed s.sends) := by
  rw [Session.sent, serverStream_eq s.song_fits s.streamable] at h
  cases h
  rfl

/-- In every session, the i-th entry whose chunk is sent and decoded reaches the decoder
intact exactly when its frame fits into the chunk and ends inside the song. -/
theorem frame_intact_iff (s : Session) {sent : List (List UInt8)} (hdelivered : s.Delivered sent)
    {i : ℕ} {e : BoundaryEntry} {dChunk : List UInt8} (he : s.boundary[i]? = some e)
    (hsent : i < sent.length) (hdecoded : s.decoded i = some dChunk) :
    Intact s.song e.info dChunk ↔
      e.info.size.toNat ≤ s.chunkSize ∧
        e.info.start.toNat + e.info.size.toNat ≤ s.song.length := by
  obtain ⟨hok, harrive⟩ := hdelivered
  have heq := s.sent_eq hok
  have hbound : s.chunkSize ≤ maxMp3StreamChunkBuffSize := readServerChunkSize_le _
  have hwhole : ∀ chunk ∈ sent, chunk.length = s.client.chunkSize.decoder := by
    intro chunk hchunk
    rw [heq] at hchunk
    obtain ⟨e', he', rfl⟩ := List.mem_map.mp (List.mem_of_mem_take hchunk)
    rw [sentBytes_length (s.streamable e' he') hbound, ChunkSize.decoder, s.chunkSize_eq]
  have hchunk := fedAt_eq s.client_mp3 s.schedule hwhole harrive hdecoded hsent
  have hentry : sent[i]? = some (sentBytes s.chunkSize (entryCache s.song e)) := by
    rw [heq, List.length_take] at hsent
    rw [heq, List.getElem?_take_of_lt (by omega), List.getElem?_map, he, Option.map_some]
  rw [hchunk] at hentry
  cases hentry
  exact intact_iff (s.streamable e (List.mem_of_getElem? he)) hbound

theorem readServerChunkSize_of_le (h : c ≤ maxMp3StreamChunkBuffSize) :
    readServerChunkSize c = c := by
  simp only [maxMp3StreamChunkBuffSize] at h
  have hint : (BitVec.ofNat 32 c).toInt = c := by
    rw [BitVec.toInt_ofNat', Int.bmod_eq_of_le] <;> omega
  simp only [readServerChunkSize, asInt, hint, maxMp3StreamChunkBuffSize]
  omega

def frameSong : List UInt8 := [0xFF, 0xF3, 0x14, 0x00] ++ List.replicate 20 7

def frameEntry : BoundaryEntry :=
  ⟨Header.frameInfo ⟨0xFF, 0xF3, 0x14, 0x00⟩ 0 0 24, fun _ => 0⟩

def frameSchedule (d : Delivery) : List Label :=
  List.replicate 7 (.rx d) ++ List.replicate 6 (.dec ⟨.needMore, 0, 0, 0, []⟩)

def frameDelivery (c : ℕ) : Delivery where
  ret := (sentBytes c (entryCache frameSong frameEntry)).length
  bytes := sentBytes c (entryCache frameSong frameEntry)
  length_bytes := (Int.toNat_natCast _).symm

def frameSession (c : ChunkSize) : Session where
  song := frameSong
  song_fits := by decide
  boundary := [frameEntry]
  boundary_written := ⟨⟨21, 1, [frameEntry.info]⟩, by decide +kernel, rfl⟩
  configured := c.val
  client := { Config.small .mp3 with chunkSize := c }
  client_mp3 := rfl
  client_chunkSize := by
    rw [readServerChunkSize_of_le c.val_le]
    exact (announced_eq c.val_le).symm
  sends := [1]
  schedule := frameSchedule (frameDelivery c.val)

theorem frameSession_delivered (c : ChunkSize) :
    (frameSession c).Delivered [sentBytes c.val (entryCache frameSong frameEntry)] := by
  refine ⟨?_, ?_⟩
  · rw [Session.sent, serverStream_eq (frameSession c).song_fits (frameSession c).streamable,
      Session.chunkSize]
    simp only [frameSession, readServerChunkSize_of_le c.val_le]
    rfl
  · have hret : ¬(frameDelivery c.val).ret < 0 := by simp [frameDelivery]
    have hreads : readsOf (frameSession c).client (.start (frameSession c).client)
        (frameSession c).schedule = [frameDelivery c.val] := by
      simp [frameSession, Config.small, frameSchedule, readsOf, State.reads, step, rxStep, State.start,
        Buffers.init, hret]
    have harr : arrived [frameDelivery c.val] = [(frameDelivery c.val).bytes] := by
      simp [arrived, Int.not_lt.mp hret]
    rw [ArriveWhole, hreads, harr]
    exact List.prefix_append _ _

def narrow : ChunkSize := ⟨8, by decide⟩
def wide : ChunkSize := ⟨32, by decide⟩

def twoSong : List UInt8 := frameSong ++ [0xFF, 0xF3, 0x14, 0x00] ++ List.replicate 20 9

def secondEntry : BoundaryEntry :=
  ⟨Header.frameInfo ⟨0xFF, 0xF3, 0x14, 0x00⟩ 1 24 24, fun _ => 0⟩

def chunkDelivery (e : BoundaryEntry) : Delivery where
  ret := (sentBytes 32 (entryCache twoSong e)).length
  bytes := sentBytes 32 (entryCache twoSong e)
  length_bytes := (Int.toNat_natCast _).symm

/-- The chunks of two frames arrive before the decoder begins. -/
def twoFrames : Session where
  song := twoSong
  song_fits := by decide
  boundary := [frameEntry, secondEntry]
  boundary_written := ⟨⟨45, 2, [frameEntry.info, secondEntry.info]⟩, by decide +kernel, rfl⟩
  configured := 32
  client := { Config.small .mp3 with chunkSize := wide }
  client_mp3 := rfl
  client_chunkSize := by decide
  sends := [1, 1]
  schedule := List.replicate 7 (.rx (chunkDelivery frameEntry)) ++
    List.replicate 6 (.rx (chunkDelivery secondEntry)) ++
      List.replicate 12 (.dec ⟨.needMore, 0, 0, 0, []⟩)

theorem twoFrames_delivered : twoFrames.Delivered [sentBytes 32 (entryCache twoSong frameEntry),
    sentBytes 32 (entryCache twoSong secondEntry)] := by
  refine ⟨?_, ?_⟩
  · rw [Session.sent, serverStream_eq twoFrames.song_fits twoFrames.streamable]
    rfl
  · rw [ArriveWhole]
    decide +kernel

theorem frame_intact_iff_twoFrames :
    Intact twoSong frameEntry.info (sentBytes 32 (entryCache twoSong frameEntry)) ∧
      Intact twoSong secondEntry.info (sentBytes 32 (entryCache twoSong secondEntry)) := by
  constructor
  · apply (frame_intact_iff twoFrames twoFrames_delivered (i := 0) rfl (by decide)
      (by decide +kernel)).mpr
    exact ⟨by decide, by decide⟩
  · apply (frame_intact_iff twoFrames twoFrames_delivered (i := 1) rfl (by decide)
      (by decide +kernel)).mpr
    exact ⟨by decide, by decide⟩

/-- The decoder is told 24 bytes of a chunk that has eight. -/
theorem frame_over_chunk : ¬ ∀ (s : Session) (sent : List (List UInt8)), s.Delivered sent →
    ∀ (i : ℕ) (e : BoundaryEntry) (dChunk : List UInt8), s.boundary[i]? = some e →
    i < sent.length → s.decoded i = some dChunk → Intact s.song e.info dChunk := by
  intro h
  obtain ⟨bytes, hin, -⟩ := h (frameSession narrow) _ (frameSession_delivered narrow) 0 frameEntry
    (sentBytes 8 (entryCache frameSong frameEntry)) rfl (by decide) (by decide +kernel)
  have hnone : decodeInput (sentBytes 8 (entryCache frameSong frameEntry)) = none := by
    decide +kernel
  rw [hnone] at hin
  cases hin

end EmotionStreamer.Pipeline
