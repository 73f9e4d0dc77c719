import Mathlib.Data.Nat.Notation

/-! `streamer_const.h`: the sizes of a stream chunk on a 64-bit machine. -/
namespace EmotionStreamer

/-- `MAX_MP3_STREAM_CHUNK_BUFF_SIZE` -/
def maxMp3StreamChunkBuffSize : ℕ := 32768

/-- `sizeof(frame_info_t)`, and with the four bytes of padding after it. -/
def frameInfoSize : ℕ := 40
def chunkHeaderSize : ℕ := 4 + frameInfoSize

/-- `sizeof(mp3_stream_chunk)`: the header, the frame bytes, and the alignment. -/
def mp3StreamChunkSize : ℕ := chunkHeaderSize + (maxMp3StreamChunkBuffSize + 1) + 3

end EmotionStreamer
