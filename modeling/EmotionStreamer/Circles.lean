import Mathlib.Data.Nat.Notation
import Mathlib.Data.List.Basic

/-! Cells `1, ..., d` laid in a circle: the cells that a walk steps on, and how
many steps one cell is ahead of another. -/
namespace EmotionStreamer.Circles

/-- The cell after `q`; after the last cell, and from outside, comes the first. -/
def next (d q : ℕ) : ℕ := q % d + 1

/-- The `n` cells after `q`, one by one. -/
def walk (d : ℕ) : ℕ → ℕ → List ℕ
  | _, 0 => []
  | q, n + 1 => next d q :: walk d (next d q) n

/-- The steps from `q` to `r`, at least one. -/
def way (d q r : ℕ) : ℕ := if q < r then r - q else r + d - q

variable {d q r n : ℕ}

theorem next_pos : 1 ≤ next d q := Nat.le_add_left _ _

theorem next_le (hd : 0 < d) : next d q ≤ d := Nat.mod_lt q hd

theorem next_of_lt (hq : q < d) : next d q = q + 1 := by rw [next, Nat.mod_eq_of_lt hq]

theorem next_self : next d d = 1 := by rw [next, Nat.mod_self]

theorem way_pos (hr : 1 ≤ r) (hq : q ≤ d) : 1 ≤ way d q r := by
  rw [way]
  split <;> omega

theorem way_self : way d q q = d := by
  simp [way]

theorem way_next (hr : 1 ≤ r ∧ r ≤ d) (hq : q ≤ d) :
    way d q r = if r = next d q then 1 else way d (next d q) r + 1 := by
  obtain hlt | rfl := Nat.lt_or_eq_of_le hq
  · rw [next_of_lt hlt]
    grind [way]
  · rw [next_self]
    grind [way]

theorem walk_range (hd : 0 < d) (hr : r ∈ walk d q n) : 1 ≤ r ∧ r ≤ d := by
  induction n generalizing q with
  | zero => cases hr
  | succ n ih =>
    obtain rfl | hr := List.mem_cons.mp hr
    · exact ⟨next_pos, next_le hd⟩
    · exact ih hr

/-- A walk steps on a cell when it is long enough. -/
theorem mem_walk (hr : 1 ≤ r ∧ r ≤ d) (hq : q ≤ d) : r ∈ walk d q n ↔ way d q r ≤ n := by
  induction n generalizing q with
  | zero =>
    have hpos := way_pos hr.1 hq
    simp only [walk, List.not_mem_nil, false_iff]
    omega
  | succ n ih =>
    have hnext := next_le (d := d) (q := q) (by omega)
    rw [walk, List.mem_cons, ih hnext, way_next hr hq]
    have hpos := way_pos hr.1 hnext
    split
    · rename_i he
      simp only [he, true_or, true_iff]
      omega
    · rename_i he
      simp only [he, false_or]
      omega

end EmotionStreamer.Circles
