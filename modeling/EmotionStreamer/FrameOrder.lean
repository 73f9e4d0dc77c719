import EmotionStreamer.FrameRanges

/-! The order of the entries of the scanner, and what the file holds where they say. -/
namespace EmotionStreamer.Converter
open Slices Loops

/-- At the start of an entry is a header that passes the tests and gives the size. -/
structure Sound (file : List UInt8) (info : FrameInfo) : Prop where
  header : ∃ hdr, readHeader file info.start.toNat = some hdr ∧ hdr.sane = true ∧
    hdr.frameSize = some info.size.toNat
  size_ge : 4 ≤ info.size.toNat
  size_le : info.size.toNat ≤ 65535

/-- The entries are numbered without a gap, and each starts behind the start of the last. -/
structure Ordered (file : List UInt8) (written : List FrameInfo) : Prop where
  ids : written.map (·.frameId.toNat) = List.range written.length
  starts : (written.map (·.start.toNat)).Pairwise (· < ·)
  sound : ∀ info ∈ written, Sound file info

/-- The offset is behind all starts, and has been moved on for each of them. -/
structure Advanced (file : List UInt8) (m : Machine) : Prop where
  ordered : Ordered file m.written
  frameId : m.frameId.toNat = m.written.length
  count : m.written.length ≤ m.pos
  behind : ∀ info ∈ m.written, info.start.toNat < m.pos

variable {file : List UInt8} {hdr : Header} {size p : ℕ} {m m' : Machine}

theorem Advanced.start (file : List UInt8) : Advanced file ⟨skipId3 file, 0, []⟩ where
  ordered := ⟨rfl, .nil, fun _ hinfo => absurd hinfo List.not_mem_nil⟩
  frameId := rfl
  count := Nat.zero_le _
  behind _ hinfo := absurd hinfo List.not_mem_nil

theorem frameInfo_sound (k : UInt64) (hp : p < 2 ^ 63) (hread : readHeader file p = some hdr)
    (hsize : hdr.frameSize = some size) : Sound file (hdr.frameInfo k p size) := by
  obtain ⟨-, -, hge, -⟩ := Header.frameSize_eq_some hsize
  have hlt := Header.frameSize_lt hsize
  have hfield : (hdr.frameInfo k p size).size.toNat = size := by
    rw [Header.frameInfo, UInt16.toNat_ofNat', Nat.mod_eq_of_lt hlt]
  refine ⟨⟨hdr, ?_, Header.sane_of_frameSize hsize, ?_⟩, ?_, ?_⟩
  · rw [frameInfo_start k hp, hread]
  · rw [hfield, hsize]
  · rw [hfield]
    exact hge
  · rw [hfield]
    omega

/-- A new entry is the next one in number and in place. -/
theorem Ordered.snoc {written : List FrameInfo} {info : FrameInfo} (h : Ordered file written)
    (hid : info.frameId.toNat = written.length)
    (hstart : ∀ old ∈ written, old.start.toNat < info.start.toNat) (hsound : Sound file info) :
    Ordered file (written ++ [info]) := by
  refine ⟨?_, ?_, ?_⟩
  · rw [List.map_append, h.ids, List.map_singleton, hid, List.length_append, List.length_singleton,
      List.range_succ]
  · rw [List.map_append, List.pairwise_append]
    refine ⟨h.starts, List.pairwise_singleton _ _, ?_⟩
    intro a ha b hb
    obtain ⟨old, hold, rfl⟩ := List.mem_map.mp ha
    obtain rfl := List.mem_singleton.mp hb
    exact hstart old hold
  · intro new hnew
    rcases List.mem_append.mp hnew with hold | hlast
    · exact h.sound new hold
    · rw [List.mem_singleton.mp hlast]
      exact hsound

theorem Advanced.scan (hfits : file.length < 2 ^ 63) (h : Advanced file m)
    (hstep : scan file m = some m') : Advanced file m' := by
  have hcount := h.count
  have hpos := scan_pos_lt hstep
  obtain ⟨hdr, hread, ⟨-, rfl⟩ | ⟨size, hsize, rfl⟩⟩ := scan_cases hstep
  · exact ⟨h.ordered, h.frameId, hcount.trans (Nat.le_succ _),
      fun info hinfo => (h.behind info hinfo).trans (Nat.lt_succ_self _)⟩
  · have hp : m.pos < 2 ^ 63 := hpos.2.trans hfits
    have hstart : (hdr.frameInfo m.frameId m.pos size).start.toNat = m.pos :=
      frameInfo_start m.frameId hp
    refine ⟨h.ordered.snoc h.frameId ?_ (frameInfo_sound m.frameId hp hread hsize), ?_, ?_, ?_⟩
    · rw [hstart]
      exact h.behind
    · have hlast : m.written.length + 1 < 2 ^ 64 := by omega
      rw [UInt64.toNat_add, h.frameId, List.length_append, List.length_singleton]
      exact Nat.mod_eq_of_lt hlast
    · rw [List.length_append, List.length_singleton]
      exact Nat.succ_le_of_lt (hcount.trans_lt hpos.1)
    · intro info hinfo
      rcases List.mem_append.mp hinfo with hold | hlast
      · exact (h.behind info hold).trans hpos.1
      · rw [List.mem_singleton.mp hlast, hstart]
        exact hpos.1

/-- The scanner ends on every file, and its entries are in order. -/
theorem startFrameInfoMachine_ordered (f : InputFile) :
    ∃ t, startFrameInfoMachine f.bytes = some t ∧ Ordered f.bytes t.written := by
  obtain ⟨t, hrun, hreach, -⟩ := startFrameInfoMachine_ends f.bytes
  have hadvanced := hreach.invariant (Advanced f.bytes) (.start f.bytes)
    fun _ _ h hstep => h.scan f.fits hstep
  exact ⟨t, hrun, hadvanced.ordered⟩

end EmotionStreamer.Converter
