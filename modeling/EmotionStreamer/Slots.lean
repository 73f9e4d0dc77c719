import Mathlib.Data.Vector.Basic
import Mathlib.Order.Basic

/-! Tables of a fixed number of slots in which one value marks a free slot: filling a
free slot, clearing an occupied one, and the search for the first free one. -/
namespace EmotionStreamer.Slots

variable {α : Type*} {n : ℕ}

/-- No value stands in two slots, the free one apart. -/
def Distinct (free : α) (t : Vector α n) : Prop :=
  ∀ i j (hi : i < n) (hj : j < n), t[i] = t[j] → t[i] ≠ free → i = j

variable {free a : α} {t : Vector α n} {i k : ℕ}

theorem Distinct.fill (h : Distinct free t) (i : ℕ) (hnew : a ∉ t) :
    Distinct free (t.setIfInBounds i a) := by
  intro j k hj hk heq hne
  rw [Vector.getElem_setIfInBounds hj] at heq hne
  rw [Vector.getElem_setIfInBounds hk] at heq
  by_cases hij : i = j
  · by_cases hik : i = k
    · exact hij.symm.trans hik
    · rw [if_pos hij, if_neg hik] at heq
      exact absurd (heq ▸ Vector.getElem_mem hk) hnew
  · rw [if_neg hij] at heq hne
    by_cases hik : i = k
    · rw [if_pos hik] at heq
      exact absurd (heq ▸ Vector.getElem_mem hj) hnew
    · rw [if_neg hik] at heq
      exact h j k hj hk heq hne

theorem Distinct.clear (h : Distinct free t) (i : ℕ) : Distinct free (t.setIfInBounds i free) := by
  intro j k hj hk heq hne
  rw [Vector.getElem_setIfInBounds hj] at heq hne
  rw [Vector.getElem_setIfInBounds hk] at heq
  split_ifs at heq hne
  · exact absurd rfl hne
  · exact absurd rfl hne
  · exact absurd heq hne
  · exact h j k hj hk heq hne

variable [DecidableEq α]

def occupied (free : α) (t : Vector α n) : ℕ := t.countP (· ≠ free)

/-- The first free slot from `k` on, or `n` when there is none. -/
def firstFree (free : α) (k : ℕ) (t : Vector α n) : ℕ :=
  (t.toList.drop k).findIdx (· = free) + k

omit [DecidableEq α] in
theorem setIfInBounds_eq_set (hi : i < n) (a : α) : t.setIfInBounds i a = t.set i a :=
  Vector.ext fun j hj => by rw [Vector.getElem_setIfInBounds hj, Vector.getElem_set hi hj]

theorem occupied_fill (hi : i < n) (hfree : t[i] = free) (ha : a ≠ free) :
    occupied free (t.setIfInBounds i a) = occupied free t + 1 := by
  rw [setIfInBounds_eq_set hi, occupied, Vector.countP_set hi, occupied]
  simp [hfree, ha]

theorem occupied_clear (hi : i < n) (hocc : t[i] ≠ free) :
    occupied free (t.setIfInBounds i free) + 1 = occupied free t := by
  have hpos : 0 < occupied free t :=
    Vector.countP_pos_iff.mpr ⟨t[i], Vector.getElem_mem hi, by simpa using hocc⟩
  rw [occupied] at hpos
  rw [setIfInBounds_eq_set hi, occupied, Vector.countP_set hi, occupied]
  simp only [ne_eq, hocc, not_false_eq_true, decide_true, ↓reduceIte, not_true_eq_false,
    decide_false, Bool.false_eq_true, Nat.add_zero]
  exact Nat.sub_add_cancel hpos

theorem firstFree_spec (hk : k ≤ n) (h : firstFree free k t < n) :
    k ≤ firstFree free k t ∧ t[firstFree free k t] = free := by
  refine ⟨Nat.le_add_left k _, ?_⟩
  have hlen : (t.toList.drop k).findIdx (· = free) < (t.toList.drop k).length := by
    rw [firstFree] at h
    rw [List.length_drop, Vector.length_toList]
    omega
  have hget := List.findIdx_getElem (w := hlen)
  rw [List.getElem_drop, decide_eq_true_eq, Vector.getElem_toList] at hget
  simpa only [firstFree, Nat.add_comm] using hget

theorem firstFree_lt_iff (hk : k ≤ n) :
    firstFree free k t < n ↔ ∃ i, k ≤ i ∧ ∃ hi : i < n, t[i] = free := by
  constructor
  · intro h
    obtain ⟨hle, hfree⟩ := firstFree_spec hk h
    exact ⟨_, hle, h, hfree⟩
  · rintro ⟨i, hle, hi, hfree⟩
    have hlen : i - k < (t.toList.drop k).length := by
      rw [List.length_drop, Vector.length_toList]
      omega
    have hat : (t.toList.drop k)[i - k] = free := by
      simp only [List.getElem_drop, Vector.getElem_toList, Nat.add_sub_cancel' hle, hfree]
    have hlt : (t.toList.drop k).findIdx (· = free) < (t.toList.drop k).length :=
      List.findIdx_lt_length.mpr ⟨free, hat ▸ List.getElem_mem hlen, by simp⟩
    rw [List.length_drop, Vector.length_toList] at hlt
    rw [firstFree]
    omega

end EmotionStreamer.Slots
