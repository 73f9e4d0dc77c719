import Mathlib.Data.List.Infix
import Mathlib.Data.List.Nodup
import Mathlib.Tactic.SplitIfs

/-! Lists of a bounded length that take what is new behind what they have. -/
namespace EmotionStreamer.FirstSeen

variable {α : Type*} [DecidableEq α]

def addNew (max : ℕ) (l : List α) (a : α) : List α :=
  if l.length < max ∧ a ∉ l then l ++ [a] else l

variable {max : ℕ} {l : List α} {a : α}

theorem addNew_nodup (h : l.Nodup) (a : α) : (addNew max l a).Nodup := by
  rw [addNew]
  split_ifs with hnew
  · rw [← List.concat_eq_append]
    exact h.concat hnew.2
  · exact h

theorem addNew_length_le (h : l.length ≤ max) (a : α) : (addNew max l a).length ≤ max := by
  rw [addNew]
  split_ifs with hnew
  · rw [List.length_append, List.length_singleton]
    omega
  · exact h

theorem prefix_addNew (l : List α) (a : α) : l <+: addNew max l a := by
  rw [addNew]
  split_ifs
  · exact List.prefix_append l [a]
  · exact List.prefix_refl l

theorem mem_addNew {b : α} (h : b ∈ addNew max l a) : b ∈ l ∨ b = a := by
  rw [addNew] at h
  split_ifs at h
  · rcases List.mem_append.mp h with h | h
    · exact Or.inl h
    · exact Or.inr (List.mem_singleton.mp h)
  · exact Or.inl h

theorem prefix_foldl_addNew (l as : List α) : l <+: as.foldl (addNew max) l := by
  induction as generalizing l with
  | nil => exact List.prefix_refl l
  | cons a as ih => exact (prefix_addNew l a).trans (ih _)

/-- What is kept is the first occurrence of each value, as far as there is room. -/
theorem foldl_addNew (as : List α) : as.foldl (addNew max) [] = as.eraseDups.take max := by
  induction as using List.reverseRecOn with
  | nil => simp
  | append_singleton as a ih =>
    rw [List.foldl_append, ih, List.eraseDups_append, List.foldl_cons, List.foldl_nil]
    by_cases ha : a ∈ as
    · have hgone : [a].removeAll as = [] := by simp [List.removeAll, ha]
      have hmem : ¬((as.eraseDups.take max).length < max ∧ a ∉ as.eraseDups.take max) := by
        rintro ⟨hroom, hnew⟩
        rw [List.take_of_length_le] at hnew
        · exact hnew (List.mem_eraseDups.mpr ha)
        · rw [List.length_take] at hroom
          omega
      rw [addNew, if_neg hmem, hgone, List.eraseDups_nil, List.append_nil]
    · have hkept : ([a].removeAll as).eraseDups = [a] := by
        simp [List.removeAll, ha, List.eraseDups_cons]
      rw [hkept, addNew]
      by_cases hroom : as.eraseDups.length < max
      · have hall : as.eraseDups.take max = as.eraseDups := List.take_of_length_le (by omega)
        have hnew : a ∉ as.eraseDups := fun h => ha (List.mem_eraseDups.mp h)
        rw [hall, if_pos ⟨hroom, hnew⟩, List.take_of_length_le]
        rw [List.length_append, List.length_singleton]
        omega
      · rw [if_neg, List.take_append_of_le_length (by omega)]
        rintro ⟨hlt, -⟩
        rw [List.length_take] at hlt
        omega

end EmotionStreamer.FirstSeen
