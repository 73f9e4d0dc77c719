import EmotionStreamer.Converter
import EmotionStreamer.LittleEndian
import EmotionStreamer.StreamerConst

/-! The bytes of a `frame_info_t`, as the converter writes them, and as server and
client read them back at the start of an `mp3_stream_chunk`. -/
namespace EmotionStreamer.Converter
open Slices LittleEndian

/-- An entry of a boundary file: the struct and whatever is in its padding. -/
structure BoundaryEntry where
  info : FrameInfo
  padding : Fin 6 → UInt8

namespace BoundaryEntry

/-- The bytes that `write(fd_out, &info, sizeof(info))` writes. -/
def bytes (e : BoundaryEntry) : List UInt8 :=
  toBytes 8 e.info.frameId.toNat ++ (toBytes 8 e.info.start.toNat ++
    (toBytes 2 e.info.size.toNat ++ ([e.info.mpegLayer, e.info.mpegVersion, e.info.mpegBitrateIdx,
      e.info.mpegSampleRateIdx, e.info.mpegPadding, e.padding 0] ++
    (toBytes 2 e.info.mpegSamples.toNat ++ ([e.info.mpegSlotsize, e.padding 1] ++
    (toBytes 4 e.info.sampleRate.toNat ++ (toBytes 4 e.info.bitrate.toNat ++
      [e.padding 2, e.padding 3, e.padding 4, e.padding 5])))))))

end BoundaryEntry

def boundaryBytes (entries : List BoundaryEntry) : List UInt8 := entries.flatMap BoundaryEntry.bytes

/-- `the_frame_info` of the chunk at `buf` -/
def theFrameInfo (buf : List UInt8) : FrameInfo :=
  let info := buf.take frameInfoSize
  let number (off width : ℕ) : ℕ := ofBytes (slice info off width)
  { frameId := .ofNat (number 0 8)
    start := .ofNat (number 8 8)
    size := .ofNat (number 16 2)
    mpegLayer := .ofNat (number 18 1)
    mpegVersion := .ofNat (number 19 1)
    mpegBitrateIdx := .ofNat (number 20 1)
    mpegSampleRateIdx := .ofNat (number 21 1)
    mpegPadding := .ofNat (number 22 1)
    mpegSamples := .ofNat (number 24 2)
    mpegSlotsize := .ofNat (number 26 1)
    sampleRate := .ofNat (number 28 4)
    bitrate := .ofNat (number 32 4) }

variable {e : BoundaryEntry}

theorem BoundaryEntry.bytes_length (e : BoundaryEntry) : e.bytes.length = frameInfoSize := by
  simp only [bytes, List.length_append, toBytes_length, List.length_cons, List.length_nil,
    frameInfoSize]

theorem theFrameInfo_bytes (e : BoundaryEntry) (rest : List UInt8) :
    theFrameInfo (e.bytes ++ rest) = e.info := by
  have htake : (e.bytes ++ rest).take frameInfoSize = e.bytes := by
    rw [← e.bytes_length, List.take_left]
  rw [theFrameInfo, htake]
  simp [BoundaryEntry.bytes, slice, List.drop_append, List.drop_of_length_le,
    ofBytes_toBytes, ofBytes]

end EmotionStreamer.Converter
