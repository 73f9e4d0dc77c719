import EmotionStreamer.Loops
import EmotionStreamer.Preprocessor
import EmotionStreamer.Slices
import Mathlib.Tactic.Ring

/-! `converter.h` and the scanner of `converter.c`: the tables of the MPEG audio
header, the size of a frame, and the loop that writes one `frame_info_t` for every
header it accepts. -/
namespace EmotionStreamer.Converter
open Slices Loops

/-- By version, layer and bitrate index, in kbit/s. -/
def bitrateTable : List (List (List ℕ)) := [
  [[0, 0, 0, 0, 0, 0, 0, 0, 0, 0, 0, 0, 0, 0, 0, 0],
   [0, 8, 16, 24, 32, 40, 48, 56, 64, 80, 96, 112, 128, 144, 160, 0],
   [0, 8, 16, 24, 32, 40, 48, 56, 64, 80, 96, 112, 128, 144, 160, 0],
   [0, 32, 48, 56, 64, 80, 96, 112, 128, 144, 160, 176, 192, 224, 256, 0]],
  [[0, 0, 0, 0, 0, 0, 0, 0, 0, 0, 0, 0, 0, 0, 0, 0],
   [0, 0, 0, 0, 0, 0, 0, 0, 0, 0, 0, 0, 0, 0, 0, 0],
   [0, 0, 0, 0, 0, 0, 0, 0, 0, 0, 0, 0, 0, 0, 0, 0],
   [0, 0, 0, 0, 0, 0, 0, 0, 0, 0, 0, 0, 0, 0, 0, 0]],
  [[0, 0, 0, 0, 0, 0, 0, 0, 0, 0, 0, 0, 0, 0, 0, 0],
   [0, 8, 16, 24, 32, 40, 48, 56, 64, 80, 96, 112, 128, 144, 160, 0],
   [0, 8, 16, 24, 32, 40, 48, 56, 64, 80, 96, 112, 128, 144, 160, 0],
   [0, 32, 48, 56, 64, 80, 96, 112, 128, 144, 160, 176, 192, 224, 256, 0]],
  [[0, 0, 0, 0, 0, 0, 0, 0, 0, 0, 0, 0, 0, 0, 0, 0],
   [0, 32, 40, 48, 56, 64, 80, 96, 112, 128, 160, 192, 224, 256, 320, 0],
   [0, 32, 48, 56, 64, 80, 96, 112, 128, 160, 192, 224, 256, 320, 384, 0],
   [0, 32, 64, 96, 128, 160, 192, 224, 256, 288, 320, 352, 384, 416, 448, 0]]]

def frameSamplesTable : List (List ℕ) :=
  [[0, 576, 1152, 384], [0, 0, 0, 0], [0, 576, 1152, 384], [0, 1152, 1152, 384]]

def mpegSlotSize : List ℕ := [0, 1, 1, 4]

def samplerateTable : List (List ℕ) :=
  [[11025, 12000, 8000, 0], [0, 0, 0, 0], [22050, 24000, 16000, 0], [44100, 48000, 32000, 0]]

structure Header where
  b0 : UInt8
  b1 : UInt8
  b2 : UInt8
  b3 : UInt8
  deriving DecidableEq, Repr

namespace Header

def ver (hdr : Header) : ℕ := ((hdr.b1 &&& 0x18) >>> 3).toNat
def lyr (hdr : Header) : ℕ := ((hdr.b1 &&& 0x06) >>> 1).toNat
def pad (hdr : Header) : ℕ := ((hdr.b2 &&& 0x02) >>> 1).toNat
def brx (hdr : Header) : ℕ := ((hdr.b2 &&& 0xf0) >>> 4).toNat
def srx (hdr : Header) : ℕ := ((hdr.b2 &&& 0x0c) >>> 2).toNat
/-- One without a CRC. -/
def prot (hdr : Header) : ℕ := (hdr.b1 &&& 0x01).toNat

def sampleRate (hdr : Header) : ℕ := (samplerateTable.getD hdr.ver []).getD hdr.srx 0
def bitrate (hdr : Header) : ℕ :=
  ((bitrateTable.getD hdr.ver []).getD hdr.lyr []).getD hdr.brx 0 * 1000
def samples (hdr : Header) : ℕ := (frameSamplesTable.getD hdr.ver []).getD hdr.lyr 0
def slotsize (hdr : Header) : ℕ := mpegSlotSize.getD hdr.lyr 0

/-- The four tests that confirm a lock on the next header. -/
def locked (hdr : Header) : Bool :=
  hdr.b0 = 0xFF ∧ hdr.b1 &&& 0xE0 = 0xE0 ∧ hdr.b1 &&& 0x18 ≠ 0x08 ∧ hdr.b1 &&& 0x06 ≠ 0x00

def sane (hdr : Header) : Bool := hdr.locked ∧ hdr.b2 &&& 0xF0 ≠ 0xF0

end Header

def getMp3FrameSize (samples bitrate samplerate pad slotSize : ℕ) : ℕ :=
  if bitrate = 0 ∨ samplerate = 0 then 0
  else
    let base := samples * bitrate / (8 * samplerate)
    let total := base + if pad ≠ 0 then slotSize else 0
    if total ≤ 0xFFFF then total else 0

/-- The size that is written for a header, none when the header is passed over. -/
def Header.frameSize (hdr : Header) : Option ℕ :=
  if ¬hdr.sane then none
  else if hdr.ver = 1 ∨ hdr.brx = 0 ∨ hdr.brx = 15 ∨ 2 < hdr.srx then none
  else
    let size := getMp3FrameSize hdr.samples hdr.bitrate hdr.sampleRate hdr.pad hdr.slotsize
    if size = 0 then none
    else
      let size := if hdr.prot = 0 then (size + 2) % 2 ^ 16 else size
      if size < 4 then none else some size

structure FrameInfo where
  frameId : UInt64
  start : UInt64
  size : UInt16
  mpegLayer : UInt8
  mpegVersion : UInt8
  mpegBitrateIdx : UInt8
  mpegSampleRateIdx : UInt8
  mpegPadding : UInt8
  mpegSamples : UInt16
  mpegSlotsize : UInt8
  sampleRate : UInt32
  bitrate : UInt32
  deriving DecidableEq, Repr

def Header.frameInfo (hdr : Header) (frameId : UInt64) (start size : ℕ) : FrameInfo where
  frameId
  start := .ofNat start
  size := .ofNat size
  mpegLayer := .ofNat hdr.lyr
  mpegVersion := .ofNat hdr.ver
  mpegBitrateIdx := .ofNat hdr.brx
  mpegSampleRateIdx := .ofNat hdr.srx
  mpegPadding := .ofNat hdr.pad
  mpegSamples := .ofNat hdr.samples
  mpegSlotsize := .ofNat hdr.slotsize
  sampleRate := .ofNat hdr.sampleRate
  bitrate := .ofNat hdr.bitrate

def readHeader (file : List UInt8) (pos : ℕ) : Option Header :=
  match slice file pos 4 with
  | [b0, b1, b2, b3] => some ⟨b0, b1, b2, b3⟩
  | _ => none

/-- The offset of `fd_in`, the next `frame_id`, and what was written to `fd_out`. -/
structure Machine where
  pos : ℕ
  frameId : UInt64
  written : List FrameInfo
  deriving DecidableEq, Repr

/-- One pass of the scanning loop, which ends when no four bytes are left. -/
def scan (file : List UInt8) (m : Machine) : Option Machine :=
  match readHeader file m.pos with
  | none => none
  | some hdr =>
    let start := m.pos
    match hdr.frameSize with
    | none => some { m with pos := start + 1 }
    | some size =>
      let next := start + size
      let locked := match readHeader file next with
        | none => false
        | some peek => peek.locked
      some ⟨if locked then next else start + 1, m.frameId + 1,
        m.written ++ [hdr.frameInfo m.frameId start size]⟩

/-- The size field of an ID3v2 tag: seven bits of each byte. -/
def id3Size (s3 s2 s1 s0 : UInt8) : ℕ :=
  (s3 &&& 0x7F).toNat <<< 21 ||| (s2 &&& 0x7F).toNat <<< 14 ||| (s1 &&& 0x7F).toNat <<< 7 |||
    (s0 &&& 0x7F).toNat

/-- Where the scan starts: after an ID3v2 tag and its footer, if there is one. -/
def skipId3 (file : List UInt8) : ℕ :=
  match slice file 0 10 with
  | [i, d, v, _, _, flags, s3, s2, s1, s0] =>
    if i = 0x49 ∧ d = 0x44 ∧ v = 0x33 then
      10 + id3Size s3 s2 s1 s0 + if flags &&& 0x10 ≠ 0 then 10 else 0
    else 0
  | _ => 0

/-- The state in which the scanning loop ends; a file has one more byte of fuel than
the loop can use. -/
def startFrameInfoMachine (file : List UInt8) : Option Machine :=
  loop (scan file) (file.length + 1) ⟨skipId3 file, 0, []⟩

end EmotionStreamer.Converter
