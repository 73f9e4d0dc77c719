import Mathlib.Data.Nat.Basic
import Mathlib.Data.Int.Basic
import Mathlib.Tactic.Ring

/-! Numbers as bytes in memory, least significant byte first, and arrays of them. -/
namespace EmotionStreamer.LittleEndian

/-- `n` in `width` bytes; what does not fit is dropped. -/
def toBytes : ℕ → ℕ → List UInt8
  | 0, _ => []
  | width + 1, n => .ofNat n :: toBytes width (n / 256)

def ofBytes : List UInt8 → ℕ
  | [] => 0
  | b :: bs => b.toNat + 256 * ofBytes bs

@[simp] theorem toBytes_length (width n : ℕ) : (toBytes width n).length = width := by
  induction width generalizing n with
  | zero => rfl
  | succ width ih => simp only [toBytes, List.length_cons, ih]

theorem ofBytes_toBytes (width n : ℕ) : ofBytes (toBytes width n) = n % 256 ^ width := by
  induction width generalizing n with
  | zero => simp [toBytes, ofBytes, Nat.mod_one]
  | succ width ih =>
    have hbyte : (UInt8.ofNat n).toNat = n % 256 := UInt8.toNat_ofNat'
    rw [toBytes, ofBytes, ih, hbyte, pow_succ', Nat.mod_mul]

theorem ofBytes_lt (bs : List UInt8) : ofBytes bs < 256 ^ bs.length := by
  induction bs with
  | nil => simp [ofBytes]
  | cons b bs ih =>
    have hbyte : b.toNat < 256 := b.toNat_lt
    rw [ofBytes, List.length_cons, pow_succ']
    omega

theorem toBytes_ofBytes (bs : List UInt8) : toBytes bs.length (ofBytes bs) = bs := by
  induction bs with
  | nil => rfl
  | cons b bs ih =>
    have hbyte : b.toNat < 256 := b.toNat_lt
    have hlow : UInt8.ofNat (b.toNat + 256 * ofBytes bs) = b := by
      apply UInt8.toNat_inj.mp
      rw [UInt8.toNat_ofNat']
      omega
    have hhigh : (b.toNat + 256 * ofBytes bs) / 256 = ofBytes bs := by omega
    rw [List.length_cons, ofBytes, toBytes, hlow, hhigh, ih]

/-- A signed number, in two's complement. -/
def intToBytes (width : ℕ) (v : ℤ) : List UInt8 := toBytes width (v % (256 ^ width : ℕ)).toNat

def intOfBytes (bs : List UInt8) : ℤ := (ofBytes bs : ℤ).bmod (256 ^ bs.length)

@[simp] theorem intToBytes_length (width : ℕ) (v : ℤ) : (intToBytes width v).length = width :=
  toBytes_length width _

theorem intOfBytes_intToBytes {width : ℕ} {v : ℤ} (hle : -(256 ^ width : ℕ) ≤ v * 2)
    (hlt : v * 2 < (256 ^ width : ℕ)) : intOfBytes (intToBytes width v) = v := by
  have hpos : (0 : ℤ) < (256 ^ width : ℕ) := Int.natCast_pos.mpr (Nat.pow_pos (by decide))
  have hcast : ((v % (256 ^ width : ℕ)).toNat : ℤ) = v % (256 ^ width : ℕ) :=
    Int.toNat_of_nonneg (Int.emod_nonneg v hpos.ne')
  rw [intOfBytes, intToBytes_length, intToBytes, ofBytes_toBytes, Int.natCast_emod, hcast,
    Int.emod_emod_of_dvd v (Int.dvd_refl _), Int.emod_bmod]
  exact Int.bmod_eq_of_le_mul_two hle hlt

/-- Only the bytes of a number are read as that number. -/
theorem intOfBytes_eq_iff (bs : List UInt8) {v : ℤ} (hle : -(256 ^ bs.length : ℕ) ≤ v * 2)
    (hlt : v * 2 < (256 ^ bs.length : ℕ)) : intOfBytes bs = v ↔ bs = intToBytes bs.length v := by
  constructor
  · intro hv
    have hmod : v % (256 ^ bs.length : ℕ) = ofBytes bs := by
      rw [← hv, intOfBytes, Int.bmod_emod]
      exact Int.emod_eq_of_lt (Int.natCast_nonneg _) (Int.ofNat_lt.mpr (ofBytes_lt bs))
    rw [intToBytes, hmod, Int.toNat_natCast, toBytes_ofBytes]
  · intro hbs
    rw [hbs]
    exact intOfBytes_intToBytes hle hlt

/-- `n` entries of `width` bytes each. -/
def readAll {α : Type*} (width : ℕ) (read : List UInt8 → α) : ℕ → List UInt8 → List α
  | 0, _ => []
  | n + 1, bs => read (bs.take width) :: readAll width read n (bs.drop width)

theorem readAll_eq_map {α : Type*} (width : ℕ) (read : List UInt8 → α) (n : ℕ)
    (bs : List UInt8) : readAll width read n bs =
      (List.range n).map fun k => read ((bs.drop (width * k)).take width) := by
  induction n generalizing bs with
  | zero => rfl
  | succ n ih =>
    simp only [readAll, ih, List.drop_drop, List.range_succ_eq_map, List.map_cons, List.map_map,
      Nat.mul_zero, List.drop_zero, Function.comp_def, Nat.mul_succ, Nat.add_comm]

theorem readAll_flatMap {α : Type*} {width : ℕ} {read : List UInt8 → α} {write : α → List UInt8}
    (hwidth : ∀ a, (write a).length = width) (l : List α) (hread : ∀ a ∈ l, read (write a) = a)
    (rest : List UInt8) : readAll width read l.length (l.flatMap write ++ rest) = l := by
  induction l with
  | nil => rfl
  | cons a l ih =>
    have hsplit : (a :: l).flatMap write ++ rest = write a ++ (l.flatMap write ++ rest) := by
      rw [List.flatMap_cons, List.append_assoc]
    rw [List.length_cons, readAll, hsplit, ← hwidth a, List.take_left, List.drop_left, hwidth a,
      hread a List.mem_cons_self, ih fun b hb => hread b (List.mem_cons_of_mem a hb)]

end EmotionStreamer.LittleEndian
