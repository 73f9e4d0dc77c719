import EmotionStreamer.Slices
import Mathlib.Algebra.Order.BigOperators.Group.List
import Mathlib.Algebra.Order.Ring.Nat
import Mathlib.Algebra.Group.Action.Defs
import Mathlib.Data.Int.Basic
import Mathlib.Order.Basic

/-! `server_stream` in WAV mode: every pass reads into the front of the same cache and sends
the whole of it, however much has been read. -/
namespace EmotionStreamer.WavStream
open Slices

/-- The passes of the loop, each with the result of `read` and of `send_chunk_to_client`, from
the rest of the file and the cache on. A chunk with a positive result has been sent whole. -/
def streamLoop : (rest cache : List UInt8) → List (ℤ × ℤ) → List (List UInt8)
  | _, _, [] => []
  | rest, cache, (got, sent) :: passes =>
    if got ≤ 0 then []
    else
      let cache := splice cache 0 (rest.take got.toNat)
      if sent ≤ 0 then [] else cache :: streamLoop (rest.drop got.toNat) cache passes

/-- `init_server_stream` clears the cache. -/
def serverStream (content : List UInt8) (c : ℕ) (passes : List (ℤ × ℤ)) : List (List UInt8) :=
  streamLoop content (List.replicate c 0) passes

/-- How much each `read` gives until the file is exhausted. -/
structure Reads (content : List UInt8) (c : ℕ) where
  counts : List ℕ
  bounds : ∀ n ∈ counts, 0 < n ∧ n ≤ c
  exhausted : counts.sum = content.length

/-- Every chunk is accepted whole, and the last `read` finds the end of the file. -/
def passesOf (c : ℕ) (counts : List ℕ) : List (ℤ × ℤ) :=
  counts.map (fun n : ℕ => ((n : ℤ), (c : ℤ))) ++ [(0, 0)]

variable {content : List UInt8} {c : ℕ}

/-- The file is sent, and behind it at most zeros. -/
def Faithful (r : Reads content c) : Prop :=
  ∃ k, (serverStream content c (passesOf c r.counts)).flatten = content ++ List.replicate k 0

/-- The file with zeros behind it, as many bytes as `m` chunks have. -/
def padded (content : List UInt8) (c m : ℕ) : List UInt8 :=
  content ++ List.replicate (m * c - content.length) 0

/-- The chunk in front of chunk `k`; it is clear in front of the first one. -/
def chunkBefore (content : List UInt8) (c m k : ℕ) : List UInt8 :=
  slice (List.replicate c 0 ++ padded content c m) (k * c) c

/-- Each read finds the bytes that belong at the front of its chunk, and where it is short the
chunk has to go on as the chunk before it does. -/
def Unrepeated (r : Reads content c) : Prop :=
  let m := r.counts.length
  ∀ k n, r.counts[k]? = some n →
    slice content (r.counts.take k).sum n = slice (padded content c m) (k * c) n ∧
      (chunkBefore content c m k).drop n = (slice (padded content c m) (k * c) c).drop n

theorem streamLoop_cons {n : ℕ} (hn : 0 < n ∧ n ≤ c) (rest cache : List UInt8)
    (counts : List ℕ) : streamLoop rest cache (passesOf c (n :: counts)) =
      splice cache 0 (rest.take n) ::
        streamLoop (rest.drop n) (splice cache 0 (rest.take n)) (passesOf c counts) := by
  have hgot : ¬(n : ℤ) ≤ 0 := by omega
  have hsent : ¬(c : ℤ) ≤ 0 := by omega
  simp only [passesOf, List.map_cons, List.cons_append, streamLoop, hgot, hsent, ↓reduceIte,
    Int.toNat_natCast]

theorem streamLoop_end (rest cache : List UInt8) : streamLoop rest cache (passesOf c []) = [] := by
  simp [passesOf, streamLoop]

theorem chunk_length (rest : List UInt8) {cache : List UInt8} {n : ℕ} (hn : n ≤ c) (hcache : cache.length = c) :
    (splice cache 0 (rest.take n)).length = c := by
  rw [splice_length, hcache]
  rw [List.length_take]
  omega

/-- What the chunk of a pass has to be, for the cache and the rest of the file in front of it. -/
theorem chunk_eq_take_iff {rest cache target : List UInt8} {n : ℕ} (hn : n ≤ rest.length)
    (hnc : n ≤ c) (htarget : c ≤ target.length) :
    splice cache 0 (rest.take n) = target.take c ↔
      slice rest 0 n = slice target 0 n ∧ cache.drop n = (slice target 0 c).drop n := by
  have hlen : (rest.take n).length = n := List.length_take_of_le hn
  have htake : (target.take c).length = c := List.length_take_of_le htarget
  rw [splice_zero, append_eq_iff, hlen, List.take_take, Nat.min_eq_left hnc]
  rfl

/-- Pass `k` reads what the target has there, and the chunk in front of it ends as the target
does. -/
def Finds (rest cache target : List UInt8) (c : ℕ) (counts : List ℕ) (k : ℕ) : Prop :=
  ∀ n, counts[k]? = some n →
    slice rest (counts.take k).sum n = slice target (k * c) n ∧
      (slice (cache ++ target) (k * c) c).drop n = (slice target (k * c) c).drop n

theorem finds_zero {rest cache target : List UInt8} {n : ℕ} {counts : List ℕ}
    (hn : n ≤ rest.length) (hnc : n ≤ c) (hcache : cache.length = c) (htarget : c ≤ target.length) :
    Finds rest cache target c (n :: counts) 0 ↔ splice cache 0 (rest.take n) = target.take c := by
  have hbefore : slice (cache ++ target) 0 c = cache := by
    rw [← hcache, slice_append_left]
  rw [chunk_eq_take_iff hn hnc htarget]
  simp [Finds, hbefore]

/-- The passes behind the first one are those of the rest of the file and of the target. -/
theorem finds_succ {rest cache target : List UInt8} {n : ℕ} {counts : List ℕ}
    (hcache : cache.length = c) (k : ℕ) :
    Finds rest cache target c (n :: counts) (k + 1) ↔
      Finds (rest.drop n) (target.take c) (target.drop c) c counts k := by
  have hindex : (k + 1) * c = c + k * c := by rw [Nat.succ_mul, Nat.add_comm]
  have hbefore : slice (cache ++ target) (c + k * c) c = slice target (k * c) c := by
    rw [← hcache, slice_append_right]
  rw [Finds, Finds, List.take_append_drop]
  simp only [List.getElem?_cons_succ, List.take_succ_cons, List.sum_cons, hindex, hbefore,
    slice_drop]

/-- The stream is the target if and only if every pass finds what the target has there, in the
file and in the cache behind it. -/
theorem streamLoop_flatten_eq_iff {counts : List ℕ} (hcounts : ∀ n ∈ counts, 0 < n ∧ n ≤ c)
    {rest cache target : List UInt8} (hrest : counts.sum ≤ rest.length)
    (hcache : cache.length = c) (htarget : target.length = counts.length * c) :
    (streamLoop rest cache (passesOf c counts)).flatten = target ↔
      ∀ k, Finds rest cache target c counts k := by
  induction counts generalizing rest cache target with
  | nil =>
    rw [List.length_nil, Nat.zero_mul, List.length_eq_zero_iff] at htarget
    rw [streamLoop_end, htarget]
    simp [Finds]
  | cons n counts ih =>
    have hn := hcounts n List.mem_cons_self
    rw [List.length_cons, Nat.succ_mul] at htarget
    rw [List.sum_cons] at hrest
    have hchunk := chunk_length rest hn.2 hcache
    have hothers : (streamLoop (rest.drop n) (splice cache 0 (rest.take n))
        (passesOf c counts)).flatten = target.drop c ↔
          ∀ k, Finds (rest.drop n) (splice cache 0 (rest.take n)) (target.drop c) c counts k :=
      ih (fun n hn => hcounts n (List.mem_cons_of_mem _ hn)) (by rw [List.length_drop]; omega)
        hchunk (by rw [List.length_drop]; omega)
    rw [streamLoop_cons hn, List.flatten_cons, append_eq_iff, hchunk, ← Nat.and_forall_add_one,
      finds_zero (by omega) hn.2 hcache (by omega)]
    refine and_congr_right fun hblock => ?_
    rw [hothers, hblock]
    exact forall_congr' fun k => (finds_succ hcache k).symm

theorem streamLoop_flatten_length {counts : List ℕ} (hcounts : ∀ n ∈ counts, 0 < n ∧ n ≤ c)
    (rest : List UInt8) {cache : List UInt8} (hcache : cache.length = c) :
    (streamLoop rest cache (passesOf c counts)).flatten.length = counts.length * c := by
  induction counts generalizing rest cache with
  | nil => simp [streamLoop_end]
  | cons n counts ih =>
    have hn := hcounts n List.mem_cons_self
    have hchunk := chunk_length rest hn.2 hcache
    rw [streamLoop_cons hn, List.flatten_cons, List.length_append, hchunk, List.length_cons,
      Nat.succ_mul, ih (fun n hn => hcounts n (List.mem_cons_of_mem _ hn)) _ hchunk, Nat.add_comm]

theorem padded_length (r : Reads content c) :
    (padded content c r.counts.length).length = r.counts.length * c := by
  have hsum := List.sum_le_card_nsmul r.counts c fun n hn => (r.bounds n hn).2
  rw [r.exhausted, smul_eq_mul] at hsum
  rw [padded, List.length_append, List.length_replicate]
  omega

theorem faithful_iff_flatten (r : Reads content c) :
    Faithful r ↔ (serverStream content c (passesOf c r.counts)).flatten =
      padded content c r.counts.length := by
  have hzeros : (List.replicate c (0 : UInt8)).length = c := List.length_replicate
  constructor
  · rintro ⟨k, hk⟩
    have hlength := streamLoop_flatten_length r.bounds content hzeros
    rw [serverStream] at hk
    rw [hk, List.length_append, List.length_replicate] at hlength
    rw [serverStream, hk, padded, ← hlength, Nat.add_sub_cancel_left]
  · intro hsent
    exact ⟨_, hsent⟩

theorem flatten_eq_iff_unrepeated (r : Reads content c) :
    (serverStream content c (passesOf c r.counts)).flatten = padded content c r.counts.length ↔
      Unrepeated r :=
  streamLoop_flatten_eq_iff r.bounds r.exhausted.le List.length_replicate (padded_length r)

/-- The stream is faithful if and only if no chunk shows what an earlier one has left. -/
theorem faithful_iff (r : Reads content c) : Faithful r ↔ Unrepeated r :=
  (faithful_iff_flatten r).trans (flatten_eq_iff_unrepeated r)

/-- So it is when every read fills its chunk. -/
theorem faithful_of_full (r : Reads content c) (hfull : ∀ n ∈ r.counts, n = c) : Faithful r := by
  have hcounts : r.counts = List.replicate r.counts.length c := List.eq_replicate_of_mem hfull
  have hlength : content.length = r.counts.length * c := by
    rw [← r.exhausted, hcounts, List.sum_replicate, List.length_replicate, smul_eq_mul]
  have hpadded : padded content c r.counts.length = content := by
    rw [padded, hlength, Nat.sub_self, List.replicate_zero, List.append_nil]
  rw [faithful_iff_flatten, flatten_eq_iff_unrepeated, Unrepeated]
  intro k n hn
  obtain ⟨hk, rfl⟩ := List.getElem?_eq_some_iff.1 hn
  have hoffset : (r.counts.take k).sum = k * c := by
    rw [hcounts, List.take_replicate, List.sum_replicate, smul_eq_mul, min_eq_left hk.le]
  rw [hfull _ (List.getElem_mem hk), hoffset, hpadded]
  refine ⟨rfl, ?_⟩
  rw [chunkBefore, slice, slice, List.drop_eq_nil_of_le (List.length_take_le _ _),
    List.drop_eq_nil_of_le (List.length_take_le _ _)]

/-- Or when a single read gives the file. -/
theorem faithful_of_single {n : ℕ} (r : Reads content c) (hsingle : r.counts = [n]) :
    Faithful r := by
  have hn : content.length = n := by rw [← r.exhausted, hsingle, List.sum_singleton]
  refine ⟨c - n, ?_⟩
  have hbounds := r.bounds n (hsingle ▸ List.mem_singleton_self n)
  rw [hsingle, serverStream, streamLoop_cons hbounds, streamLoop_end, List.flatten_singleton,
    splice_zero, List.take_of_length_le hn.le, List.drop_replicate, hn]

/-- A short read at the end sends a byte of the chunk before it again. -/
theorem short_read_repeats :
    ¬ ∀ (content : List UInt8) (c : ℕ) (r : Reads content c), Faithful r := by
  intro hclaim
  obtain ⟨k, hk⟩ := hclaim [1, 2, 3] 2 ⟨[2, 1], by decide, rfl⟩
  have hsent : (serverStream [1, 2, 3] 2 (passesOf 2 [2, 1])).flatten = [1, 2, 3, 2] := by decide
  rw [hsent] at hk
  cases k <;> simp [List.replicate_succ] at hk

end EmotionStreamer.WavStream
