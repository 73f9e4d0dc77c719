import EmotionStreamer.FrameScan
import EmotionStreamer.StreamChunk
import Mathlib.Data.Int.Basic

/-! `server_stream` in MP3 mode: one boundary entry at a time is read into the cache,
its frame after it, and a chunk of fixed size is sent from there. The results of the
calls of `send_chunk` are given; a chunk with a positive one has been sent whole. -/
namespace EmotionStreamer.ContentServer
open Slices Converter

/-- `read_values_cfg_server`: `min` and `max` are functions on `int`. -/
def readServerChunkSize (value : ℕ) : ℕ :=
  (max 0 (min (maxMp3StreamChunkBuffSize : ℤ) (asInt value))).toNat

structure Fault where
  len : ℕ
  deriving DecidableEq, Repr

structure Stream where
  boundaryPos : ℕ
  songPos : ℕ
  deriving DecidableEq, Repr

/-- The `chunk_data_cache` that the next pass makes; none when a read gives nothing.
An `lseek` to an offset that is no `off_t` fails and leaves the file where it is. -/
def Stream.fillCache (song boundary : List UInt8) (s : Stream) :
    Except Fault (Option (Stream × List UInt8)) :=
  let cache := List.replicate mp3StreamChunkSize 0
  let entry := slice boundary s.boundaryPos frameInfoSize
  if entry = [] then .ok none
  else
    let cache := splice cache 0 entry
    let info := theFrameInfo cache
    let start := if info.start.toNat < 2 ^ 63 then info.start.toNat else s.songPos
    let frame := slice song start info.size.toNat
    if frame = [] then .ok none
    else if cache.length < chunkHeaderSize + frame.length then .error ⟨frame.length⟩
    else .ok (some (⟨s.boundaryPos + entry.length, start + frame.length⟩,
      splice cache chunkHeaderSize frame))

def sentBytes (chunkSize : ℕ) (cache : List UInt8) : List UInt8 :=
  cache.take (chunkHeaderSize + chunkSize)

/-- The chunks sent from the cache on. A timeout is tried again. -/
def sendChunks (song boundary : List UInt8) (chunkSize : ℕ) :
    Stream → List UInt8 → List ℤ → Except Fault (List (List UInt8))
  | _, _, [] => .ok []
  | s, cache, r :: rs =>
    if r = -2 then sendChunks song boundary chunkSize s cache rs
    else if r ≤ 0 then .ok []
    else
      match s.fillCache song boundary with
      | .error f => .error f
      | .ok none => .ok [sentBytes chunkSize cache]
      | .ok (some (s', cache')) =>
        (sendChunks song boundary chunkSize s' cache' rs).map (sentBytes chunkSize cache :: ·)

def serverStream (song boundary : List UInt8) (chunkSize : ℕ) (rs : List ℤ) :
    Except Fault (List (List UInt8)) :=
  match Stream.fillCache song boundary ⟨0, 0⟩ with
  | .error f => .error f
  | .ok none => .ok []
  | .ok (some (s, cache)) => sendChunks song boundary chunkSize s cache rs

/-- The cache for an entry, as the protocol means it. -/
def entryCache (song : List UInt8) (e : BoundaryEntry) : List UInt8 :=
  splice (splice (List.replicate mp3StreamChunkSize 0) 0 e.bytes) chunkHeaderSize
    (slice song e.info.start.toNat e.info.size.toNat)

/-- How many chunks the results of `send_chunk` let through. -/
def passed : List ℤ → ℕ
  | [] => 0
  | r :: rs => if r = -2 then passed rs else if r ≤ 0 then 0 else passed rs + 1

/-- An entry with bytes in the song, and no more than any header gives. -/
structure Streamable (song : List UInt8) (info : FrameInfo) : Prop where
  start_lt : info.start.toNat < song.length
  size_pos : 0 < info.size.toNat
  size_le : info.size.toNat ≤ maxTableSize + 2

variable {song : List UInt8} {entries : List BoundaryEntry} {e : BoundaryEntry} {c k : ℕ}
  {s : Stream}

theorem readServerChunkSize_le (value : ℕ) :
    readServerChunkSize value ≤ maxMp3StreamChunkBuffSize := by
  unfold readServerChunkSize
  omega

theorem entry_splice_length (e : BoundaryEntry) :
    (splice (List.replicate mp3StreamChunkSize 0) 0 e.bytes).length = mp3StreamChunkSize := by
  rw [splice_length, List.length_replicate]
  rw [List.length_replicate, e.bytes_length]
  decide

theorem fillCache_entry (hfit : song.length < 2 ^ 63) (he : entries[k]? = some e)
    (hs : Streamable song e.info) (hpos : s.boundaryPos = frameInfoSize * k) :
    ∃ s', s.fillCache song (boundaryBytes entries) = .ok (some (s', entryCache song e)) ∧
      s'.boundaryPos = frameInfoSize * (k + 1) := by
  have hentry : slice (boundaryBytes entries) s.boundaryPos frameInfoSize = e.bytes := by
    rw [hpos, boundaryBytes, slice_flatMap BoundaryEntry.bytes_length, he, Option.elim_some]
  have hne : e.bytes ≠ [] := by
    intro h
    have := e.bytes_length
    rw [h] at this
    exact absurd this (by decide)
  have hinfo : theFrameInfo (splice (List.replicate mp3StreamChunkSize 0) 0 e.bytes) = e.info := by
    rw [splice_zero, theFrameInfo_bytes]
  have hstart : e.info.start.toNat < 2 ^ 63 := hs.start_lt.trans hfit
  have hframe : (slice song e.info.start.toNat e.info.size.toNat).length =
      min e.info.size.toNat (song.length - e.info.start.toNat) := by
    rw [slice, List.length_take, List.length_drop]
  have hlt := hs.start_lt
  have hpos' := hs.size_pos
  have hle := hs.size_le
  have hframe_ne : slice song e.info.start.toNat e.info.size.toNat ≠ [] := by
    rw [← List.length_pos_iff, hframe]
    omega
  have hroom : ¬(splice (List.replicate mp3StreamChunkSize 0) 0 e.bytes).length <
      chunkHeaderSize + (slice song e.info.start.toNat e.info.size.toNat).length := by
    rw [entry_splice_length, hframe]
    simp only [mp3StreamChunkSize, maxMp3StreamChunkBuffSize, maxTableSize] at hle ⊢
    omega
  refine ⟨⟨s.boundaryPos + e.bytes.length, e.info.start.toNat +
    (slice song e.info.start.toNat e.info.size.toNat).length⟩, ?_, ?_⟩
  · simp only [Stream.fillCache, hentry, hne, hinfo, if_pos hstart, hframe_ne, hroom, ↓reduceIte]
    rfl
  · simp only [e.bytes_length, hpos, Nat.mul_succ]

theorem fillCache_end (hk : entries.length ≤ k) (hpos : s.boundaryPos = frameInfoSize * k) :
    s.fillCache song (boundaryBytes entries) = .ok none := by
  have hentry : slice (boundaryBytes entries) s.boundaryPos frameInfoSize = [] := by
    rw [hpos, boundaryBytes, slice_flatMap BoundaryEntry.bytes_length,
      List.getElem?_eq_none hk, Option.elim_none]
  simp only [Stream.fillCache, hentry, ↓reduceIte]

theorem sendChunks_eq (hfit : song.length < 2 ^ 63)
    (hs : ∀ e ∈ entries, Streamable song e.info) (rs : List ℤ) (he : entries[k]? = some e)
    (hpos : s.boundaryPos = frameInfoSize * (k + 1)) :
    sendChunks song (boundaryBytes entries) c s (entryCache song e) rs =
      .ok (((entries.drop k).map fun e => sentBytes c (entryCache song e)).take (passed rs)) := by
  induction rs generalizing s e k with
  | nil => simp [sendChunks, passed]
  | cons r rs ih =>
    have hdrop : entries.drop k = e :: entries.drop (k + 1) := by
      obtain ⟨hk, rfl⟩ := List.getElem?_eq_some_iff.mp he
      exact (List.cons_getElem_drop_succ).symm
    by_cases htimeout : r = -2
    · simp only [sendChunks, passed, htimeout, ↓reduceIte]
      exact ih he hpos
    by_cases hfail : r ≤ 0
    · simp [sendChunks, passed, htimeout, hfail]
    simp only [sendChunks, passed, htimeout, hfail, ↓reduceIte, hdrop, List.map_cons,
      List.take_succ_cons]
    cases he' : entries[k + 1]? with
    | none =>
      have hlen := List.getElem?_eq_none_iff.mp he'
      rw [fillCache_end hlen hpos]
      simp [List.drop_of_length_le hlen]
    | some e' =>
      obtain ⟨s', hfill, hpos'⟩ := fillCache_entry hfit he' (hs e' (List.mem_of_getElem? he')) hpos
      rw [hfill]
      simp only [ih he' hpos']
      rfl

/-- The server sends the chunks of the entries in order, as far as the sends go. -/
theorem serverStream_eq (hfit : song.length < 2 ^ 63)
    (hs : ∀ e ∈ entries, Streamable song e.info) (c : ℕ) (rs : List ℤ) :
    serverStream song (boundaryBytes entries) c rs =
      .ok ((entries.map fun e => sentBytes c (entryCache song e)).take (passed rs)) := by
  cases he : entries[0]? with
  | none =>
    obtain rfl : entries = [] := by simpa using he
    have hend : Stream.fillCache song (boundaryBytes []) ⟨0, 0⟩ = .ok none :=
      fillCache_end (k := 0) (Nat.le_refl _) rfl
    simp only [serverStream, hend, List.map_nil, List.take_nil]
  | some e =>
    obtain ⟨s, hfill, hpos⟩ := fillCache_entry (s := ⟨0, 0⟩) hfit he
      (hs e (List.mem_of_getElem? he)) rfl
    simp only [serverStream, hfill]
    exact sendChunks_eq hfit hs rs he hpos

theorem written_streamable (hfit : song.length < 2 ^ 63) {t : Machine}
    (hrun : startFrameInfoMachine song = some t) : ∀ info ∈ t.written, Streamable song info := by
  obtain ⟨t', hrun', hreach, -⟩ := startFrameInfoMachine_ends song
  rw [hrun] at hrun'
  cases hrun'
  refine hreach.invariant (fun m => ∀ info ∈ m.written, Streamable song info)
    (fun info h => absurd h (List.not_mem_nil)) fun m m' hinv hscan => ?_
  obtain ⟨hdr, hread, ⟨-, rfl⟩ | ⟨size, hsize, rfl⟩⟩ := scan_cases hscan
  · exact hinv
  · intro info hinfo
    rcases List.mem_append.mp hinfo with hold | hnew
    · exact hinv info hold
    · obtain rfl := List.mem_singleton.mp hnew
      have hlen := readHeader_lt hread
      have hpos : m.pos < 2 ^ 64 := by omega
      obtain ⟨-, -, h4, -⟩ := Header.frameSize_eq_some hsize
      have htable := hdr.tableSize_le
      have hle : size ≤ maxTableSize + 2 := by
        rw [Header.frameSize_eq hsize]
        split_ifs <;> omega
      have hnum : (UInt16.ofNat size).toNat = size := by
        rw [UInt16.toNat_ofNat', Nat.mod_eq_of_lt (Header.frameSize_lt hsize)]
      refine ⟨?_, ?_, ?_⟩
      · simp only [Header.frameInfo, UInt64.toNat_ofNat', Nat.mod_eq_of_lt hpos]
        omega
      · simp only [Header.frameInfo, hnum]
        omega
      · simp only [Header.frameInfo, hnum]
        exact hle

end EmotionStreamer.ContentServer
