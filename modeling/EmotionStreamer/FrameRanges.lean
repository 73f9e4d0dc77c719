import EmotionStreamer.FrameScan
import Mathlib.Data.List.Chain

/-! The entries of the scanner as byte ranges: on which files they lie inside the file
and do not overlap. -/
namespace EmotionStreamer.Converter
open Slices Loops

/-- A file whose offsets fit a file offset. -/
structure InputFile where
  bytes : List UInt8
  fits : bytes.length < 2 ^ 63

def FrameInfo.endPos (info : FrameInfo) : ℕ := info.start.toNat + info.size.toNat

/-- The entries are ranges of the file, and none starts before the end of the last. -/
structure Partition (file : List UInt8) (written : List FrameInfo) : Prop where
  inside : ∀ info ∈ written, info.endPos ≤ file.length
  apart : written.IsChain fun info next => info.endPos ≤ next.start.toNat

/-- No header that starts in the range is accepted. -/
def Passed (file : List UInt8) (a b : ℕ) : Prop :=
  ∀ q hdr, a ≤ q → q < b → readHeader file q = some hdr → hdr.frameSize = none

/-- The four bytes at an offset confirm a lock. -/
def lockedAt (file : List UInt8) (p : ℕ) : Prop :=
  ∃ peek, readHeader file p = some peek ∧ peek.locked = true

/-- From an offset on, a header that is accepted begins a frame that ends inside the
file, and is followed by a lock or holds no other header that is accepted; the walk
goes on behind the frame. -/
inductive Tiled (file : List UInt8) : ℕ → Prop
  | stop {p : ℕ} (short : readHeader file p = none) : Tiled file p
  | gap {p : ℕ} {hdr : Header} (read : readHeader file p = some hdr)
      (rejected : hdr.frameSize = none) (rest : Tiled file (p + 1)) : Tiled file p
  | frame {p size : ℕ} {hdr : Header} (read : readHeader file p = some hdr)
      (accepted : hdr.frameSize = some size) (inside : p + size ≤ file.length)
      (sync : lockedAt file (p + size) ∨ Passed file (p + 1) (p + size))
      (rest : Tiled file (p + size)) : Tiled file p

variable {file : List UInt8} {hdr : Header} {size p q : ℕ} {m t : Machine}

theorem readHeader_none_mono (h : readHeader file p = none) (hle : p ≤ q) :
    readHeader file q = none := by
  rw [readHeader_eq_none_iff] at h ⊢
  omega

theorem tiled_reject (read : readHeader file p = some hdr) (rejected : hdr.frameSize = none) :
    Tiled file p ↔ Tiled file (p + 1) := by
  refine ⟨fun h => ?_, .gap read rejected⟩
  cases h with
  | stop short =>
    rw [short] at read
    cases read
  | gap _ _ rest => exact rest
  | frame read' accepted _ _ _ =>
    rw [read] at read'
    cases read'
    rw [rejected] at accepted
    cases accepted

theorem tiled_accept (read : readHeader file p = some hdr) (accepted : hdr.frameSize = some size) :
    Tiled file p ↔ p + size ≤ file.length ∧
      (lockedAt file (p + size) ∨ Passed file (p + 1) (p + size)) ∧ Tiled file (p + size) := by
  refine ⟨fun h => ?_, fun ⟨inside, sync, rest⟩ => .frame read accepted inside sync rest⟩
  cases h with
  | stop short =>
    rw [short] at read
    cases read
  | gap read' rejected _ =>
    rw [read] at read'
    cases read'
    rw [accepted] at rejected
    cases rejected
  | frame read' accepted' inside sync rest =>
    rw [read] at read'
    cases read'
    rw [accepted] at accepted'
    cases accepted'
    exact ⟨inside, sync, rest⟩

/-- The walk goes over a range without an accepted header. -/
theorem tiled_passed (h : Passed file p q) (hle : p ≤ q) : Tiled file p ↔ Tiled file q := by
  induction q, hle using Nat.le_induction with
  | base => exact Iff.rfl
  | succ q hle ih =>
    rw [ih fun r hdr hp hq => h r hdr hp (Nat.lt_succ_of_lt hq)]
    cases hread : readHeader file q with
    | none => exact iff_of_true (.stop hread) (.stop (readHeader_none_mono hread (Nat.le_succ q)))
    | some hdr => exact tiled_reject hread (h q hdr hle (Nat.lt_succ_self q) hread)

theorem nextPos_cases (file : List UInt8) (p size : ℕ) :
    lockedAt file (p + size) ∧ nextPos file p size = p + size ∨
      ¬lockedAt file (p + size) ∧ nextPos file p size = p + 1 := by
  unfold nextPos lockedAt
  cases readHeader file (p + size) with
  | none => simp
  | some peek => cases hlock : peek.locked <;> simp [hlock]

theorem frameInfo_start (k : UInt64) (hp : p < 2 ^ 63) :
    (hdr.frameInfo k p size).start.toNat = p := by
  rw [Header.frameInfo, UInt64.toNat_ofNat']
  exact Nat.mod_eq_of_lt (by omega)

theorem frameInfo_endPos (k : UInt64) (hp : p < 2 ^ 63) (hsize : hdr.frameSize = some size) :
    (hdr.frameInfo k p size).endPos = p + size := by
  rw [FrameInfo.endPos, frameInfo_start k hp, Header.frameInfo, UInt16.toNat_ofNat',
    Nat.mod_eq_of_lt (Header.frameSize_lt hsize)]

theorem partition_cons {info : FrameInfo} {written : List FrameInfo} :
    Partition file (info :: written) ↔ info.endPos ≤ file.length ∧
      (∀ next ∈ written.head?, info.endPos ≤ next.start.toNat) ∧ Partition file written := by
  refine ⟨fun ⟨hin, hap⟩ => ?_, fun ⟨hend, hhead, hin, hap⟩ => ⟨?_, ?_⟩⟩
  · rw [List.isChain_cons] at hap
    exact ⟨hin info List.mem_cons_self, hap.1,
      fun next hn => hin next (List.mem_cons_of_mem info hn), hap.2⟩
  · intro next hn
    rcases List.mem_cons.mp hn with rfl | hn
    · exact hend
    · exact hin next hn
  · exact List.isChain_cons.mpr ⟨hhead, hap⟩

/-- What the rest of a scan writes: it starts at the first header that is accepted, and
is a partition exactly when the walk from here on is tiled. -/
structure Rest (file : List UInt8) (p : ℕ) (written : List FrameInfo) : Prop where
  head : ∀ q, (∀ info ∈ written.head?, q ≤ info.start.toNat) ↔ Passed file p q
  partition_iff : Partition file written ↔ Tiled file p

theorem Rest.stop (h : readHeader file p = none) : Rest file p [] := by
  refine ⟨fun q => iff_of_true (fun _ hi => by cases hi) fun r hdr hp _ hread => ?_, ?_⟩
  · rw [readHeader_none_mono h hp] at hread
    cases hread
  · exact iff_of_true ⟨fun _ hi => absurd hi List.not_mem_nil, .nil⟩ (.stop h)

theorem Rest.reject {written : List FrameInfo} (h : Rest file (p + 1) written)
    (read : readHeader file p = some hdr) (rejected : hdr.frameSize = none) :
    Rest file p written := by
  refine ⟨fun q => ?_, h.partition_iff.trans (tiled_reject read rejected).symm⟩
  rw [h.head q]
  refine ⟨fun hpass r hdr' hp hq hread => ?_, fun hpass r hdr' hp => hpass r hdr' (by omega)⟩
  rcases Nat.eq_or_lt_of_le hp with rfl | hlt
  · rw [read] at hread
    cases hread
    exact rejected
  · exact hpass r hdr' hlt hq hread

theorem Rest.accept {written : List FrameInfo} (hp : p < 2 ^ 63)
    (h : Rest file (nextPos file p size) written) (read : readHeader file p = some hdr)
    (accepted : hdr.frameSize = some size) (k : UInt64) :
    Rest file p (hdr.frameInfo k p size :: written) := by
  have h4 := (Header.frameSize_eq_some accepted).2.2.1
  refine ⟨fun q => ?_, ?_⟩
  · simp only [List.head?_cons, Option.mem_some_iff, forall_eq', frameInfo_start k hp]
    refine ⟨fun hq r hdr' hpr hrq => by omega, fun hpass => ?_⟩
    by_contra hlt
    have hnone := hpass p hdr le_rfl (Nat.lt_of_not_le hlt) read
    rw [accepted] at hnone
    cases hnone
  · rw [partition_cons, tiled_accept read accepted, frameInfo_endPos k hp accepted,
      h.head, h.partition_iff]
    rcases nextPos_cases file p size with ⟨hlock, hnext⟩ | ⟨hlock, hnext⟩
    · have hpass : Passed file (p + size) (p + size) := fun r hdr' hpr hrq => by omega
      simp only [hnext, hlock, hpass, true_or, true_and]
    · simp only [hnext, hlock, false_or]
      refine and_congr_right fun _ => and_congr_right fun hpass => tiled_passed hpass (by omega)

/-- Run lemma: the entries that a scan adds until it ends. -/
theorem reaches_rest (hfits : file.length < 2 ^ 63) (h : Reaches (scan file) m t)
    (hend : scan file t = none) :
    ∃ added, t.written = m.written ++ added ∧ Rest file m.pos added := by
  induction h using Relation.ReflTransGen.head_induction_on with
  | refl => exact ⟨[], by rw [List.append_nil], .stop (scan_end hend)⟩
  | @head a b hstep _ ih =>
    obtain ⟨added, hadded, hrest⟩ := ih
    obtain ⟨hdr, read, ⟨rejected, rfl⟩ | ⟨size, accepted, rfl⟩⟩ := scan_cases hstep
    · exact ⟨added, hadded, hrest.reject read rejected⟩
    · have hlt := (scan_pos_lt hstep).2
      refine ⟨hdr.frameInfo a.frameId a.pos size :: added, ?_, ?_⟩
      · rw [hadded, List.append_assoc, List.singleton_append]
      · exact hrest.accept (by omega) read accepted a.frameId

/-- The scanner ends on every file, and its entries partition the file if and only if
the walk from its start on is tiled. -/
theorem entries_partition_iff (f : InputFile) :
    (∃ t, startFrameInfoMachine f.bytes = some t ∧ Partition f.bytes t.written) ↔
      Tiled f.bytes (skipId3 f.bytes) := by
  obtain ⟨t, hrun, hreach, hend⟩ := startFrameInfoMachine_ends f.bytes
  obtain ⟨added, hadded, hrest⟩ := reaches_rest f.fits hreach hend
  rw [List.nil_append] at hadded
  rw [← hrest.partition_iff, ← hadded, hrun]
  simp only [Option.some.injEq, exists_eq_left']

/-- A frame of 417 bytes that is cut off after its header. -/
theorem truncated_frame_outside : ¬ ∀ f : InputFile, ∀ t,
    startFrameInfoMachine f.bytes = some t → Partition f.bytes t.written := by
  intro h
  have hp := h ⟨[0xFF, 0xFB, 0x90, 0x00], by decide⟩ _ rfl
  exact absurd (hp.inside _ List.mem_cons_self) (by decide)

end EmotionStreamer.Converter
