import EmotionStreamer.FrameScan
import Mathlib.Data.List.Basic
import Mathlib.Tactic.Ring

/-! Frame index correctness: for files of an optional ID3v2 tag and MPEG audio frames
back to back, when the entries that the scanner writes are the frames. -/
namespace EmotionStreamer.Converter
open Slices Loops

/-- The length of a frame by the MPEG audio standard, with the CRC in it. -/
def Header.standardLength (hdr : Header) : ℕ :=
  if hdr.lyr = 3 then 4 * (12 * hdr.bitrate / hdr.sampleRate + hdr.pad)
  else hdr.samples / 8 * hdr.bitrate / hdr.sampleRate + hdr.pad

def Header.bytes (hdr : Header) : List UInt8 := [hdr.b0, hdr.b1, hdr.b2, hdr.b3]

/-- A frame: a header that the scanner accepts and as many bytes as the standard has. -/
structure Frame where
  header : Header
  payload : List UInt8
  accepted : header.frameSize.isSome
  length_payload : 4 + payload.length = header.standardLength

def Frame.bytes (fr : Frame) : List UInt8 := fr.header.bytes ++ fr.payload
def Frame.length (fr : Frame) : ℕ := 4 + fr.payload.length

/-- An ID3v2 tag: its header with a synchsafe size, the body, and the footer that the
header announces. -/
structure Id3Tag where
  version : UInt8
  revision : UInt8
  flags : UInt8
  s3 : UInt8
  s2 : UInt8
  s1 : UInt8
  s0 : UInt8
  body : List UInt8
  footer : List UInt8
  synchsafe : s3.toNat < 2 ^ 7 ∧ s2.toNat < 2 ^ 7 ∧ s1.toNat < 2 ^ 7 ∧ s0.toNat < 2 ^ 7
  length_body : body.length =
    s3.toNat * 2 ^ 21 + s2.toNat * 2 ^ 14 + s1.toNat * 2 ^ 7 + s0.toNat
  length_footer : footer.length = if flags &&& 0x10 ≠ 0 then 10 else 0

def Id3Tag.bytes (tag : Id3Tag) : List UInt8 :=
  [0x49, 0x44, 0x33, tag.version, tag.revision, tag.flags, tag.s3, tag.s2, tag.s1, tag.s0] ++
    (tag.body ++ tag.footer)

def tagBytes : Option Id3Tag → List UInt8
  | none => []
  | some tag => tag.bytes

def framesBytes (frames : List Frame) : List UInt8 := frames.flatMap Frame.bytes

/-- An optional tag and one or more frames, no longer than a file offset can say. -/
structure Mp3File where
  tag : Option Id3Tag
  first : Frame
  rest : List Frame
  fits : (tagBytes tag ++ framesBytes (first :: rest)).length < 2 ^ 63

def Mp3File.bytes (f : Mp3File) : List UInt8 := tagBytes f.tag ++ framesBytes (f.first :: f.rest)

/-- Index, offset and length of each frame. -/
def trueIndex : ℕ → ℕ → List Frame → List (ℕ × ℕ × ℕ)
  | _, _, [] => []
  | k, off, fr :: frs => (k, off, fr.length) :: trueIndex (k + 1) (off + fr.length) frs

def FrameInfo.entry (info : FrameInfo) : ℕ × ℕ × ℕ :=
  (info.frameId.toNat, info.start.toNat, info.size.toNat)

/-- The scanner ends, with one entry per frame, in order, that says where it is. -/
def Mp3File.Indexed (f : Mp3File) : Prop :=
  ∃ t, startFrameInfoMachine f.bytes = some t ∧
    t.written.map FrameInfo.entry = trueIndex 0 (tagBytes f.tag).length (f.first :: f.rest)

/-- A frame without a CRC, and of Layer I only with a length that the rounding to slots
does not change. -/
def Frame.Plain (fr : Frame) : Prop :=
  fr.header.prot = 1 ∧ (fr.header.lyr = 3 →
    48 * fr.header.bitrate / fr.header.sampleRate =
      4 * (12 * fr.header.bitrate / fr.header.sampleRate))

/-- No four bytes after the frame's first one are a header that the scanner accepts. -/
def Frame.Quiet (fr : Frame) : Prop :=
  ∀ q hdr, 0 < q → readHeader fr.bytes q = some hdr → hdr.frameSize = none

variable {file pre : List UInt8} {hdr : Header} {fr : Frame} {frs : List Frame} {size k : ℕ}
  {m t : Machine}

theorem Frame.length_bytes (fr : Frame) : fr.bytes.length = fr.length := by
  simp only [Frame.bytes, Frame.length, Header.bytes, List.length_append, List.length_cons,
    List.length_nil]

theorem Header.prot_lt (hdr : Header) : hdr.prot < 2 := by
  rw [prot, UInt8.toNat_and]
  exact Nat.lt_succ_of_le Nat.and_le_right

theorem Frame.size_eq_length_iff (h : fr.header.frameSize = some size) :
    size = fr.length ↔ fr.Plain := by
  obtain ⟨-, hpos, -, -⟩ := Header.frameSize_eq_some h
  have htable := Header.tableSize_eq hpos
  have hprot := fr.header.prot_lt
  have hround : 4 * (12 * fr.header.bitrate / fr.header.sampleRate) ≤
      48 * fr.header.bitrate / fr.header.sampleRate := by
    calc 4 * (12 * fr.header.bitrate / fr.header.sampleRate)
        ≤ 4 * (12 * fr.header.bitrate) / fr.header.sampleRate := Nat.mul_div_le_mul_div_assoc _ _ _
      _ = 48 * fr.header.bitrate / fr.header.sampleRate := by ring_nf
  rw [Frame.length, fr.length_payload, Header.frameSize_eq h, htable, Header.standardLength,
    Frame.Plain]
  by_cases hlyr : fr.header.lyr = 3
  · simp only [hlyr, ↓reduceIte, true_imp_iff]
    split_ifs with hcrc <;> omega
  · simp only [hlyr, ↓reduceIte, false_imp_iff, and_true]
    split_ifs with hcrc <;> omega

theorem readHeader_append (pre bytes : List UInt8) (q : ℕ) :
    readHeader (pre ++ bytes) (pre.length + q) = readHeader bytes q := by
  have hslice : slice (pre ++ bytes) (pre.length + q) 4 = slice bytes q 4 := by
    rw [slice, slice, List.drop_append, List.drop_of_length_le (Nat.le_add_right _ _),
      List.nil_append, Nat.add_sub_cancel_left]
  simp only [readHeader, hslice]

theorem readHeader_frame (pre : List UInt8) (fr : Frame) (frs : List Frame) :
    readHeader (pre ++ framesBytes (fr :: frs)) pre.length = some fr.header := by
  have h := readHeader_append pre (framesBytes (fr :: frs)) 0
  rw [Nat.add_zero] at h
  rw [h]
  simp [readHeader, slice, framesBytes, Frame.bytes, Header.bytes]

theorem Frame.exists_size (fr : Frame) : ∃ size, fr.header.frameSize = some size :=
  Option.isSome_iff_exists.mp fr.accepted

theorem Frame.locked (fr : Frame) : fr.header.locked = true := by
  obtain ⟨size, h⟩ := fr.exists_size
  exact (Header.frameSize_eq_some h).1

theorem frameInfo_entry (hdr : Header) {k start size : ℕ} (hk : k < 2 ^ 64) (hstart : start < 2 ^ 64)
    (hsize : size < 2 ^ 16) : (hdr.frameInfo (.ofNat k) start size).entry = (k, start, size) := by
  simp only [FrameInfo.entry, Header.frameInfo, UInt64.toNat_ofNat', UInt16.toNat_ofNat',
    Nat.mod_eq_of_lt hk, Nat.mod_eq_of_lt hstart, Nat.mod_eq_of_lt hsize]

theorem nextPos_last (pre : List UInt8) (fr : Frame) :
    nextPos (pre ++ framesBytes [fr]) pre.length fr.length = pre.length + 1 := by
  have hend : readHeader (pre ++ framesBytes [fr]) (pre.length + fr.length) = none := by
    rw [readHeader_eq_none_iff]
    simp only [framesBytes, List.flatMap_cons, List.flatMap_nil, List.append_nil,
      List.length_append, fr.length_bytes]
    omega
  simp only [nextPos, hend]

theorem framesBytes_cons_append (pre : List UInt8) (fr : Frame) (frs : List Frame) :
    pre ++ framesBytes (fr :: frs) = (pre ++ fr.bytes) ++ framesBytes frs := by
  simp [framesBytes]

theorem nextPos_next (pre : List UInt8) (fr g : Frame) (frs : List Frame) :
    nextPos (pre ++ framesBytes (fr :: g :: frs)) pre.length fr.length =
      (pre ++ fr.bytes).length := by
  have hread := readHeader_frame (pre ++ fr.bytes) g frs
  rw [← framesBytes_cons_append] at hread
  rw [List.length_append, fr.length_bytes] at hread ⊢
  simp only [nextPos, hread, g.locked, ↓reduceIte]

theorem written_last_iff (hpos : m.pos = pre.length + 1)
    (hreach : Reaches (scan (pre ++ framesBytes [fr])) m t)
    (hend : scan (pre ++ framesBytes [fr]) t = none) :
    t.written.map FrameInfo.entry = m.written.map FrameInfo.entry ↔ fr.Quiet := by
  have hbytes : framesBytes [fr] = fr.bytes := by simp [framesBytes]
  have hwritten : t.written.map FrameInfo.entry = m.written.map FrameInfo.entry ↔
      t.written = m.written := by
    refine ⟨fun h => ?_, fun h => by rw [h]⟩
    have hlen := congrArg List.length h
    rw [List.length_map, List.length_map] at hlen
    exact ((written_prefix_of_reaches hreach).eq_of_length hlen.symm).symm
  rw [hwritten, written_eq_iff hreach hend, hpos, hbytes]
  refine ⟨fun hall q hdr hq hread => ?_, fun hquiet p hdr hp hread => ?_⟩
  · exact hall (pre.length + q) hdr (by omega) (by rw [readHeader_append, hread])
  · obtain ⟨q, rfl⟩ := Nat.exists_eq_add_of_le (Nat.le_of_succ_le hp)
    rw [readHeader_append] at hread
    exact hquiet q hdr (by omega) hread

/-- A scan at a frame writes its entry, and is the true index if the entry is right and
the rest of the scan is. -/
theorem index_step (hfit : (pre ++ framesBytes (fr :: frs)).length < 2 ^ 63)
    (hpos : m.pos = pre.length) (hid : m.frameId = .ofNat k) (hk : k ≤ pre.length)
    (hreach : Reaches (scan (pre ++ framesBytes (fr :: frs))) m t)
    (hend : scan (pre ++ framesBytes (fr :: frs)) t = none) :
    ∃ m', Reaches (scan (pre ++ framesBytes (fr :: frs))) m' t ∧
      m'.frameId = .ofNat (k + 1) ∧
      (fr.Plain → m'.pos = nextPos (pre ++ framesBytes (fr :: frs)) pre.length fr.length) ∧
      (t.written.map FrameInfo.entry =
          m.written.map FrameInfo.entry ++ trueIndex k pre.length (fr :: frs) ↔
        fr.Plain ∧ t.written.map FrameInfo.entry =
          m'.written.map FrameInfo.entry ++ trueIndex (k + 1) (pre.length + fr.length) frs) := by
  obtain ⟨size, hsize⟩ := fr.exists_size
  have hread := readHeader_frame pre fr frs
  rw [← hpos] at hread
  have hreach' := hreach.after hend (scan_accept hread hsize)
  refine ⟨_, hreach', ?_, fun hplain => ?_, ?_⟩
  · simp only [hid, UInt64.ofNat_add]
    rfl
  · simp only [(Frame.size_eq_length_iff hsize).mpr hplain, hpos]
  · have hlen : pre.length < 2 ^ 63 := by
      rw [List.length_append] at hfit
      omega
    have hentry := frameInfo_entry fr.header (k := k) (by omega) (by omega : pre.length < 2 ^ 64)
      (Header.frameSize_lt hsize)
    obtain ⟨tail, htail⟩ := written_prefix_of_reaches hreach'
    rw [← htail]
    simp only [hid, hpos, List.map_append, List.map_cons, List.map_nil, hentry, trueIndex,
      List.append_assoc, List.append_cancel_left_eq, List.cons_append, List.nil_append,
      List.cons.injEq, Prod.mk.injEq, true_and, Frame.size_eq_length_iff hsize]

/-- The scan of the frames from one of them on, by induction on the frames after it. -/
theorem index_iff (hfit : (pre ++ framesBytes (fr :: frs)).length < 2 ^ 63)
    (hpos : m.pos = pre.length) (hid : m.frameId = .ofNat k) (hk : k ≤ pre.length)
    (hreach : Reaches (scan (pre ++ framesBytes (fr :: frs))) m t)
    (hend : scan (pre ++ framesBytes (fr :: frs)) t = none) :
    t.written.map FrameInfo.entry =
        m.written.map FrameInfo.entry ++ trueIndex k pre.length (fr :: frs) ↔
      (∀ g ∈ fr :: frs, g.Plain) ∧ ((fr :: frs).getLast (List.cons_ne_nil _ _)).Quiet := by
  induction frs generalizing pre fr m k with
  | nil =>
    obtain ⟨m', hreach', -, hpos', hiff⟩ := index_step hfit hpos hid hk hreach hend
    rw [hiff]
    simp only [trueIndex, List.append_nil, List.mem_singleton, forall_eq, List.getLast_singleton]
    refine and_congr_right fun hplain => ?_
    have hlast := hpos' hplain
    rw [nextPos_last] at hlast
    exact written_last_iff hlast hreach' hend
  | cons g frs ih =>
    obtain ⟨m', hreach', hid', hpos', hiff⟩ := index_step hfit hpos hid hk hreach hend
    rw [hiff, List.forall_mem_cons, List.getLast_cons_cons, and_assoc]
    refine and_congr_right fun hplain => ?_
    have hnext := hpos' hplain
    rw [nextPos_next] at hnext
    have hlen : (pre ++ fr.bytes).length = pre.length + fr.length := by
      rw [List.length_append, fr.length_bytes]
    have hk' : k + 1 ≤ (pre ++ fr.bytes).length := by
      rw [hlen, Frame.length]
      omega
    rw [framesBytes_cons_append] at hfit hreach' hend
    have hrest := ih hfit hnext hid' hk' hreach' hend
    rwa [hlen] at hrest

theorem mul_or (a : ℕ) {b i : ℕ} (h : b < 2 ^ i) : a * 2 ^ i ||| b = a * 2 ^ i + b := by
  rw [← Nat.shiftLeft_eq, Nat.shiftLeft_add_eq_or_of_lt h]

theorem id3Size_eq {s3 s2 s1 s0 : UInt8} (h3 : s3.toNat < 2 ^ 7) (h2 : s2.toNat < 2 ^ 7)
    (h1 : s1.toNat < 2 ^ 7) (h0 : s0.toNat < 2 ^ 7) :
    id3Size s3 s2 s1 s0 =
      s3.toNat * 2 ^ 21 + s2.toNat * 2 ^ 14 + s1.toNat * 2 ^ 7 + s0.toNat := by
  have hmask : ∀ s : UInt8, s.toNat < 2 ^ 7 → (s &&& 0x7F).toNat = s.toNat := fun s hs => by
    rw [UInt8.toNat_and]
    exact (Nat.and_two_pow_sub_one_eq_mod s.toNat 7).trans (Nat.mod_eq_of_lt hs)
  rw [id3Size, hmask s3 h3, hmask s2 h2, hmask s1 h1, hmask s0 h0, Nat.shiftLeft_eq,
    Nat.shiftLeft_eq, Nat.shiftLeft_eq, mul_or _ (by omega),
    show s3.toNat * 2 ^ 21 + s2.toNat * 2 ^ 14 = (s3.toNat * 2 ^ 7 + s2.toNat) * 2 ^ 14 by ring,
    mul_or _ (by omega),
    show (s3.toNat * 2 ^ 7 + s2.toNat) * 2 ^ 14 + s1.toNat * 2 ^ 7 =
      ((s3.toNat * 2 ^ 7 + s2.toNat) * 2 ^ 7 + s1.toNat) * 2 ^ 7 by ring, mul_or _ h0]

theorem skipId3_bytes (f : Mp3File) : skipId3 f.bytes = (tagBytes f.tag).length := by
  obtain ⟨tag, first, rest, fits⟩ := f
  cases tag with
  | none =>
    have hlock := first.locked
    simp only [Header.locked, decide_eq_true_eq] at hlock
    simp only [Mp3File.bytes, tagBytes, List.nil_append, List.length_nil, skipId3]
    split
    · next i d v _ _ _ _ _ _ _ heq =>
      have hhead : (slice (framesBytes (first :: rest)) 0 10).head? = some 0xFF := by
        simp [slice, framesBytes, Frame.bytes, Header.bytes, hlock.1]
      rw [heq] at hhead
      obtain rfl : i = 0xFF := by simpa using hhead
      exact if_neg (by simp)
    · rfl
  | some tag =>
    obtain ⟨h3, h2, h1, h0⟩ := tag.synchsafe
    simp only [Mp3File.bytes, tagBytes, Id3Tag.bytes, skipId3, slice, List.drop_zero,
      List.cons_append, List.nil_append, List.take_succ_cons, List.take_zero, and_self, ↓reduceIte,
      id3Size_eq h3 h2 h1 h0, List.length_cons, List.length_append, tag.length_body,
      tag.length_footer]
    omega

/-- Exactly the files of plain frames, with a quiet one at the end, are indexed. -/
theorem frame_index_iff (f : Mp3File) :
    f.Indexed ↔ (∀ fr ∈ f.first :: f.rest, fr.Plain) ∧
      ((f.first :: f.rest).getLast (List.cons_ne_nil _ _)).Quiet := by
  obtain ⟨t, hrun, hreach, hend⟩ := startFrameInfoMachine_ends f.bytes
  rw [← index_iff (m := ⟨skipId3 f.bytes, 0, []⟩) (k := 0) f.fits (skipId3_bytes f) rfl
    (Nat.zero_le _) hreach hend]
  refine ⟨fun ⟨t', hrun', hindex⟩ => ?_, fun hindex => ⟨t, hrun, hindex⟩⟩
  rw [hrun] at hrun'
  cases hrun'
  exact hindex

/-- A single MPEG-2 Layer III frame at 8 kbit/s and 24 kHz, with a CRC. -/
def crcFrame : Frame where
  header := ⟨0xFF, 0xF2, 0x14, 0x00⟩
  payload := List.replicate 20 0
  accepted := by decide
  length_payload := by decide

def crcFile : Mp3File := ⟨none, crcFrame, [], by decide⟩

/-- The frame has 24 bytes, and its entry 26. -/
theorem crc_counted_twice : ¬ ∀ f : Mp3File, f.Indexed := by
  intro h
  obtain ⟨t, hrun, hindex⟩ := h crcFile
  have hentry : (startFrameInfoMachine crcFile.bytes).map (·.written.map FrameInfo.entry) =
      some [(0, 0, 26)] := by decide +kernel
  rw [hrun, Option.map_some, hindex] at hentry
  exact absurd hentry (by decide)

end EmotionStreamer.Converter
