import EmotionStreamer.Converter
import Mathlib.Data.List.Infix

/-! What one pass of the scanning loop does, that the loop ends on every file, and
when it ends without writing anything more. -/
namespace EmotionStreamer.Converter
open Slices Loops

variable {file : List UInt8} {hdr : Header} {size p : ℕ} {m m' t : Machine}

theorem masked_toNat_le (b mask k : UInt8) :
    ((b &&& mask) >>> k).toNat ≤ mask.toNat >>> (k.toNat % 8) := by
  rw [UInt8.toNat_shiftRight, UInt8.toNat_and, Nat.shiftRight_eq_div_pow,
    Nat.shiftRight_eq_div_pow]
  exact Nat.div_le_div_right Nat.and_le_right

namespace Header

theorem ver_lt (hdr : Header) : hdr.ver < 4 := Nat.lt_succ_of_le (masked_toNat_le _ _ _)
theorem lyr_lt (hdr : Header) : hdr.lyr < 4 := Nat.lt_succ_of_le (masked_toNat_le _ _ _)
theorem pad_lt (hdr : Header) : hdr.pad < 2 := Nat.lt_succ_of_le (masked_toNat_le _ _ _)
theorem brx_lt (hdr : Header) : hdr.brx < 16 := Nat.lt_succ_of_le (masked_toNat_le _ _ _)
theorem srx_lt (hdr : Header) : hdr.srx < 4 := Nat.lt_succ_of_le (masked_toNat_le _ _ _)

def tableSize (hdr : Header) : ℕ :=
  getMp3FrameSize hdr.samples hdr.bitrate hdr.sampleRate hdr.pad hdr.slotsize

theorem sane_of_frameSize (h : hdr.frameSize = some size) : hdr.sane = true := by
  by_contra hsane
  simp [frameSize, hsane] at h

theorem frameSize_eq_some (h : hdr.frameSize = some size) :
    hdr.locked = true ∧ hdr.tableSize ≠ 0 ∧ 4 ≤ size ∧
      size = if hdr.prot = 0 then (hdr.tableSize + 2) % 2 ^ 16 else hdr.tableSize := by
  have hsane := sane_of_frameSize h
  have hlock : hdr.locked = true := by
    simp only [sane, decide_eq_true_eq] at hsane
    exact hsane.1
  rw [frameSize, if_neg (not_not.mpr hsane)] at h
  split at h
  · cases h
  · change (if hdr.tableSize = 0 then none
      else if (if hdr.prot = 0 then (hdr.tableSize + 2) % 2 ^ 16 else hdr.tableSize) < 4 then none
      else some (if hdr.prot = 0 then (hdr.tableSize + 2) % 2 ^ 16 else hdr.tableSize)) =
        some size at h
    generalize (if hdr.prot = 0 then (hdr.tableSize + 2) % 2 ^ 16 else hdr.tableSize) = crcSize
      at h ⊢
    split_ifs at h with hzero hsmall
    cases h
    exact ⟨hlock, hzero, Nat.le_of_not_lt hsmall, rfl⟩

end Header

/-- The size for a version, a layer, a bitrate and a sample rate index, and a padding. -/
def sizeAt (v l b s p : ℕ) : ℕ :=
  getMp3FrameSize ((frameSamplesTable.getD v []).getD l 0)
    (((bitrateTable.getD v []).getD l []).getD b 0 * 1000) ((samplerateTable.getD v []).getD s 0) p
    (mpegSlotSize.getD l 0)

/-- The same with a quotient in bytes instead of slots for Layer I. -/
def byteSizeAt (v l b s p : ℕ) : ℕ :=
  if l = 3 then
    48 * (((bitrateTable.getD v []).getD l []).getD b 0 * 1000) / (samplerateTable.getD v []).getD s 0 +
      4 * p
  else
    (frameSamplesTable.getD v []).getD l 0 / 8 *
      (((bitrateTable.getD v []).getD l []).getD b 0 * 1000) / (samplerateTable.getD v []).getD s 0 + p

def maxTableSize : ℕ := 2881

theorem sizeAt_le : ∀ v < 4, ∀ l < 4, ∀ b < 16, ∀ s < 4, ∀ p < 2,
    sizeAt v l b s p ≤ maxTableSize := by
  decide +kernel

theorem sizeAt_eq : ∀ v < 4, ∀ l < 4, ∀ b < 16, ∀ s < 4, ∀ p < 2,
    sizeAt v l b s p = 0 ∨ sizeAt v l b s p = byteSizeAt v l b s p := by
  decide +kernel

theorem Header.tableSize_le (hdr : Header) : hdr.tableSize ≤ maxTableSize :=
  sizeAt_le _ hdr.ver_lt _ hdr.lyr_lt _ hdr.brx_lt _ hdr.srx_lt _ hdr.pad_lt

theorem Header.tableSize_eq (h : hdr.tableSize ≠ 0) : hdr.tableSize =
    if hdr.lyr = 3 then 48 * hdr.bitrate / hdr.sampleRate + 4 * hdr.pad
    else hdr.samples / 8 * hdr.bitrate / hdr.sampleRate + hdr.pad :=
  (sizeAt_eq _ hdr.ver_lt _ hdr.lyr_lt _ hdr.brx_lt _ hdr.srx_lt _ hdr.pad_lt).resolve_left h

theorem Header.frameSize_eq (h : hdr.frameSize = some size) :
    size = hdr.tableSize + if hdr.prot = 0 then 2 else 0 := by
  obtain ⟨-, -, -, rfl⟩ := frameSize_eq_some h
  have hle := hdr.tableSize_le
  have hmod : (hdr.tableSize + 2) % 2 ^ 16 = hdr.tableSize + 2 :=
    Nat.mod_eq_of_lt (by simp only [maxTableSize] at hle; omega)
  split_ifs
  · exact hmod
  · rfl

theorem Header.frameSize_lt (h : hdr.frameSize = some size) : size < 2 ^ 16 := by
  have hle := hdr.tableSize_le
  simp only [maxTableSize] at hle
  rw [frameSize_eq h]
  split_ifs <;> omega

theorem readHeader_eq_none_iff : readHeader file p = none ↔ file.length < p + 4 := by
  have hlen : (slice file p 4).length = min 4 (file.length - p) := by
    simp [slice, List.length_take, List.length_drop]
  unfold readHeader
  split
  · next heq =>
    rw [heq] at hlen
    simp only [List.length_cons, List.length_nil] at hlen
    simp only [reduceCtorEq, false_iff]
    omega
  · next hne =>
    refine ⟨fun _ => ?_, fun _ => rfl⟩
    by_contra hlt
    have h4 : (slice file p 4).length = 4 := by omega
    rcases hs : slice file p 4 with _ | ⟨b0, _ | ⟨b1, _ | ⟨b2, _ | ⟨b3, _ | ⟨b4, bs⟩⟩⟩⟩⟩
    case cons.cons.cons.cons.nil => exact hne b0 b1 b2 b3 hs
    all_goals
      rw [hs] at h4
      simp at h4

theorem readHeader_lt (h : readHeader file p = some hdr) : p + 4 ≤ file.length := by
  by_contra hlt
  rw [readHeader_eq_none_iff.mpr (by omega)] at h
  cases h

def nextPos (file : List UInt8) (p size : ℕ) : ℕ :=
  match readHeader file (p + size) with
  | none => p + 1
  | some peek => if peek.locked then p + size else p + 1

theorem scan_none (h : readHeader file m.pos = none) : scan file m = none := by
  simp [scan, h]

theorem scan_reject (h : readHeader file m.pos = some hdr) (hsize : hdr.frameSize = none) :
    scan file m = some { m with pos := m.pos + 1 } := by
  simp [scan, h, hsize]

theorem scan_accept (h : readHeader file m.pos = some hdr) (hsize : hdr.frameSize = some size) :
    scan file m = some ⟨nextPos file m.pos size, m.frameId + 1,
      m.written ++ [hdr.frameInfo m.frameId m.pos size]⟩ := by
  simp only [scan, h, hsize, nextPos]
  cases readHeader file (m.pos + size) with
  | none => rfl
  | some peek => rfl

theorem scan_cases (h : scan file m = some m') :
    ∃ hdr, readHeader file m.pos = some hdr ∧
      ((hdr.frameSize = none ∧ m' = { m with pos := m.pos + 1 }) ∨
        ∃ size, hdr.frameSize = some size ∧ m' = ⟨nextPos file m.pos size, m.frameId + 1,
          m.written ++ [hdr.frameInfo m.frameId m.pos size]⟩) := by
  cases hread : readHeader file m.pos with
  | none =>
    rw [scan_none hread] at h
    cases h
  | some hdr =>
    refine ⟨hdr, rfl, ?_⟩
    cases hsize : hdr.frameSize with
    | none =>
      rw [scan_reject hread hsize] at h
      cases h
      exact .inl ⟨rfl, rfl⟩
    | some size =>
      rw [scan_accept hread hsize] at h
      cases h
      exact .inr ⟨size, rfl, rfl⟩

theorem scan_end (h : scan file m = none) : readHeader file m.pos = none := by
  cases hread : readHeader file m.pos with
  | none => rfl
  | some hdr =>
    cases hsize : hdr.frameSize with
    | none =>
      rw [scan_reject hread hsize] at h
      cases h
    | some size =>
      rw [scan_accept hread hsize] at h
      cases h

theorem lt_nextPos (hsize : 4 ≤ size) : p < nextPos file p size := by
  unfold nextPos
  split
  · omega
  · split_ifs <;> omega

theorem scan_pos_lt (h : scan file m = some m') : m.pos < m'.pos ∧ m.pos < file.length := by
  obtain ⟨hdr, hread, ⟨-, rfl⟩ | ⟨size, hsize, rfl⟩⟩ := scan_cases h
  · have := readHeader_lt hread
    exact ⟨Nat.lt_succ_self _, by omega⟩
  · have := readHeader_lt hread
    obtain ⟨-, -, h4, -⟩ := Header.frameSize_eq_some hsize
    exact ⟨lt_nextPos h4, by omega⟩

/-- The scanning loop ends on every file. -/
theorem startFrameInfoMachine_ends (file : List UInt8) :
    ∃ t, startFrameInfoMachine file = some t ∧
      Reaches (scan file) ⟨skipId3 file, 0, []⟩ t ∧ scan file t = none := by
  refine loop_ends (fun m => file.length - m.pos) (fun s t h => ?_) ?_
  · have := scan_pos_lt h
    omega
  · exact Nat.lt_succ_of_le (Nat.sub_le _ _)

theorem written_prefix_of_scan (h : scan file m = some m') : m.written <+: m'.written := by
  obtain ⟨hdr, -, ⟨-, rfl⟩ | ⟨size, -, rfl⟩⟩ := scan_cases h
  · exact List.prefix_refl _
  · exact List.prefix_append _ _

theorem written_prefix_of_reaches (h : Reaches (scan file) m t) : m.written <+: t.written :=
  h.le (fun s t => s.written <+: t.written) (fun _ => List.prefix_refl _)
    (fun _ _ _ => List.IsPrefix.trans) fun _ _ => written_prefix_of_scan

/-- The rest of a scan writes nothing exactly when no header from its offset on is
accepted. -/
theorem written_eq_iff (h : Reaches (scan file) m t) (hend : scan file t = none) :
    t.written = m.written ↔
      ∀ p hdr, m.pos ≤ p → readHeader file p = some hdr → hdr.frameSize = none := by
  induction h using Relation.ReflTransGen.head_induction_on with
  | refl =>
    have hlen := readHeader_eq_none_iff.mp (scan_end hend)
    refine iff_of_true rfl fun p hdr hp hread => ?_
    have := readHeader_lt hread
    omega
  | @head a b hstep hreach ih =>
    have hpre := written_prefix_of_reaches hreach
    obtain ⟨hdr, hread, ⟨hsize, rfl⟩ | ⟨size, hsize, rfl⟩⟩ := scan_cases hstep
    · rw [ih]
      refine ⟨fun hall p hdr' hp hread' => ?_, fun hall p hdr' hp hread' =>
        hall p hdr' (Nat.le_of_succ_le hp) hread'⟩
      rcases Nat.eq_or_lt_of_le hp with rfl | hlt
      · rw [hread] at hread'
        cases hread'
        exact hsize
      · exact hall p hdr' hlt hread'
    · refine iff_of_false (fun heq => ?_) fun hall => ?_
      · have := hpre.length_le
        simp only [heq, List.length_append, List.length_singleton] at this
        omega
      · rw [hall _ hdr le_rfl hread] at hsize
        cases hsize

end EmotionStreamer.Converter
