import Mathlib.Data.Nat.Notation
import Mathlib.Data.Int.Notation

/-! The sizes that several programs of the system share, and the widths of C's integers. -/
namespace EmotionStreamer

/-- `DEF_DATASIZE`: the size of every fixed message and of the file blocks. -/
def defDatasize : ℕ := 256

/-- The number of values of a `uint16_t`. -/
def uint16Size : ℕ := 65536

/-- The number of values of a `uint32_t`, and of a `uint64_t`. -/
def uint32Size : ℕ := 4294967296
def uint64Size : ℕ := 18446744073709551616

/-- `PATHSIZE` -/
def pathsize : ℕ := 256

/-- The size of the arrays for an extension. -/
def extensionSize : ℕ := 20

/-- A number as an argument of `min` and `max`, which take and return an `int`. -/
def asInt (value : ℕ) : ℤ := (BitVec.ofNat 32 value).toInt

end EmotionStreamer
