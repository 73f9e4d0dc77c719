import EmotionStreamer.DirListing
import Mathlib.Data.List.Nodup

/-! The two temporary files of a `PEEK` worker, named after the number of its request. The
directory comes from the environment and may be of any length. -/
namespace EmotionStreamer.ListingFiles
open CStrings
open Rotation (CString)

/-- `%lx` -/
def hex (id : UInt64) : CString := Nat.toDigits 16 id.toNat

def tmpOne (dir : CString) (id : UInt64) : CString :=
  dir ++ ("/.emotionstreamer_dir_find_results.tmp".toList ++ (hex id ++ ".html".toList))

def tmpTwo (dir : CString) (id : UInt64) : CString :=
  dir ++ ("/.emotionstreamer_dir_find_results.tmp1".toList ++ (hex id ++ ".html".toList))

/-- What `generateDirListing` keeps in `tmpDir` and in `tmpDir2`. -/
def tmpDir (dir : CString) (id : UInt64) : CString := snprintf (pathsize * 2 - 1) (tmpOne dir id)
def tmpDir2 (dir : CString) (id : UInt64) : CString := snprintf (pathsize * 2 - 1) (tmpTwo dir id)

inductive FileCall
  | truncate (path : CString)
  | read (path : CString)
  | remove (path : CString)
  deriving DecidableEq

def FileCall.path : FileCall → CString
  | truncate path => path
  | read path => path
  | remove path => path

/-- The calls of a worker on its temporary files: the listing is made, sent and deleted. -/
def calls (dir : CString) (id : UInt64) : List FileCall :=
  [.truncate (tmpDir2 dir id), .truncate (tmpDir dir id), .read (tmpDir dir id),
    .remove (tmpDir dir id), .read (tmpDir2 dir id), .remove (tmpDir2 dir id)]

/-- The four paths are distinct, and no call of one worker is on a file of the other. -/
def NeverMeet (dir : CString) (i j : UInt64) : Prop :=
  [tmpDir dir i, tmpDir2 dir i, tmpDir dir j, tmpDir2 dir j].Nodup ∧
    ∀ c ∈ calls dir i, ∀ c' ∈ calls dir j, c.path ≠ c'.path

def stem (dir : CString) : CString := dir ++ "/.emotionstreamer_dir_find_results.tmp".toList

/-- The ends of the two paths, behind the stem. -/
def ends (id : UInt64) : List CString := [hex id ++ ".html".toList, '1' :: hex id ++ ".html".toList]

/-- How many characters the buffer holds behind the stem. -/
def room (dir : CString) : ℕ := pathsize * 2 - 2 - (stem dir).length

/-- Neither number is the other with a one in front, and any two ends differ within the room. -/
structure Apart (dir : CString) (i j : UInt64) : Prop where
  not_behind_one : hex i ≠ '1' :: hex j ∧ hex j ≠ '1' :: hex i
  within : (ends i ++ ends j).Pairwise fun s t => commonLength s t < room dir

variable {dir : CString} {i j : UInt64}

theorem paths_eq (dir : CString) (i j : UInt64) :
    [tmpDir dir i, tmpDir2 dir i, tmpDir dir j, tmpDir2 dir j] =
      (ends i ++ ends j).map fun s => snprintf (pathsize * 2 - 1) (stem dir ++ s) := by
  simp [tmpDir, tmpDir2, tmpOne, tmpTwo, ends, stem]

theorem hex_inj (h : hex i = hex j) : i = j := UInt64.toNat_inj.mp (toDigits_injective h)

theorem hex_length_le (id : UInt64) : (hex id).length ≤ 16 :=
  (Nat.length_toDigits_le_iff (by decide) (by decide)).mpr id.toNat_lt

theorem ends_nodup_iff (h : i ≠ j) :
    (ends i ++ ends j).Nodup ↔ hex i ≠ '1' :: hex j ∧ hex j ≠ '1' :: hex i := by
  have hij : hex i ≠ hex j := fun he => h (hex_inj he)
  have hmap : ends i ++ ends j = [hex i, '1' :: hex i, hex j, '1' :: hex j].map
      (· ++ ".html".toList) := rfl
  rw [hmap, List.nodup_map_iff (List.append_left_injective _)]
  simp [hij, eq_comm]

theorem paths_nodup_iff (h : i ≠ j) :
    [tmpDir dir i, tmpDir2 dir i, tmpDir dir j, tmpDir2 dir j].Nodup ↔ Apart dir i j := by
  have hcut : ∀ s t, snprintf (pathsize * 2 - 1) (stem dir ++ s) ≠
      snprintf (pathsize * 2 - 1) (stem dir ++ t) ↔ s ≠ t ∧ commonLength s t < room dir := by
    intro s t
    rw [Ne, snprintf_append_inj, not_or, Nat.not_le]
    rfl
  rw [paths_eq, List.Nodup, List.pairwise_map, List.Pairwise.iff fun {s t} => hcut s t,
    List.pairwise_and_iff]
  exact (and_congr_left' (ends_nodup_iff h)).trans ⟨fun ha => ⟨ha.1, ha.2⟩, fun ha => ⟨ha.1, ha.2⟩⟩

theorem calls_path_mem {c : FileCall} {id : UInt64} (h : c ∈ calls dir id) :
    c.path ∈ [tmpDir dir id, tmpDir2 dir id] := by
  simp only [calls, List.mem_cons, List.not_mem_nil, or_false] at h
  rcases h with rfl | rfl | rfl | rfl | rfl | rfl <;> simp [FileCall.path]

/-- The workers of two requests never meet if and only if the ends of their paths are apart. -/
theorem neverMeet_iff (dir : CString) {i j : UInt64} (h : i ≠ j) :
    NeverMeet dir i j ↔ Apart dir i j := by
  rw [NeverMeet, paths_nodup_iff h, and_iff_left_iff_imp]
  intro hapart c hc c' hc' hpath
  have hnodup : ([tmpDir dir i, tmpDir2 dir i] ++ [tmpDir dir j, tmpDir2 dir j]).Nodup :=
    (paths_nodup_iff h).mpr hapart
  exact (List.nodup_append.mp hnodup).2.2 _ (calls_path_mem hc) _ (calls_path_mem hc') hpath

theorem neverMeet_tmp : NeverMeet "/tmp".toList 0 1 := by
  apply (neverMeet_iff "/tmp".toList (by decide)).mpr
  exact ⟨by decide, by decide⟩

/-- The first file of request sixteen is the second file of request zero. -/
theorem tmpDir_sixteen_eq_tmpDir2_zero :
    ¬ ∀ (dir : CString) (i j : UInt64), i ≠ j → NeverMeet dir i j := by
  intro hclaim
  have hmeet := (hclaim "/tmp".toList 16 0 (by decide)).1
  exact absurd hmeet (by decide)

theorem ends_length_le (i : UInt64) {s : CString} (h : s ∈ ends i) : s.length ≤ 22 := by
  have hi := hex_length_le i
  have hext : ".html".toList.length = 5 := by decide
  simp only [ends, List.mem_cons, List.not_mem_nil, or_false] at h
  rcases h with rfl | rfl
  · rw [List.length_append, hext]
    omega
  · rw [List.length_append, List.length_cons, hext]
    omega

theorem room_ge (hdir : dir.length ≤ 450) : 22 ≤ room dir := by
  have hstem : "/.emotionstreamer_dir_find_results.tmp".toList.length = 38 := by decide
  simp only [room, stem, pathsize, List.length_append, hstem]
  omega

/-- In a directory whose path has at most 450 characters the room is never too small. -/
theorem apart_iff_of_short (hdir : dir.length ≤ 450) (h : i ≠ j) :
    Apart dir i j ↔ hex i ≠ '1' :: hex j ∧ hex j ≠ '1' :: hex i := by
  refine ⟨Apart.not_behind_one, fun hends => ⟨hends, ?_⟩⟩
  have hlength : ∀ s ∈ ends i ++ ends j, s.length ≤ 22 := fun s hs =>
    (List.mem_append.mp hs).elim (ends_length_le i) (ends_length_le j)
  refine List.Pairwise.imp_of_mem ?_ ((ends_nodup_iff h).mpr hends)
  intro s t hs ht hne
  exact (commonLength_lt hne (hlength s hs) (hlength t ht)).trans_le (room_ge hdir)

/-- The two files of a worker are different ones. -/
theorem tmpDir_ne_tmpDir2 (hdir : dir.length ≤ 450) (id : UInt64) :
    tmpDir dir id ≠ tmpDir2 dir id := by
  have hone : tmpOne dir id = stem dir ++ (hex id ++ ".html".toList) := by simp [tmpOne, stem]
  have htwo : tmpTwo dir id = stem dir ++ ('1' :: hex id ++ ".html".toList) := by
    simp [tmpTwo, stem]
  have hne : hex id ++ ".html".toList ≠ '1' :: hex id ++ ".html".toList := fun he =>
    absurd (congrArg List.length he) (by simp)
  rw [tmpDir, tmpDir2, hone, htwo, Ne, snprintf_append_inj, not_or, Nat.not_le]
  exact ⟨hne, (commonLength_lt hne (ends_length_le id List.mem_cons_self)
    (ends_length_le id (List.mem_cons_of_mem _ List.mem_cons_self))).trans_le (room_ge hdir)⟩

end EmotionStreamer.ListingFiles
