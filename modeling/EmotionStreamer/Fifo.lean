import Mathlib.Data.List.Basic
import Mathlib.Data.Nat.ModEq
import Mathlib.Logic.Function.Basic

/-! Bounded first-in first-out lists, and their representation as a ring of
slots: `items.length` slots from `play` on, counted modulo the capacity. The two
ring lemmas say what the representation has to do when an element is added at
the end or taken from the front. -/
namespace EmotionStreamer.Fifo

variable {α : Type*}

/-- Add an element unless the list holds `cap` of them already. -/
def enqueue (cap : ℕ) (items : List α) (x : α) : List α :=
  if items.length = cap then items else items ++ [x]

/-- Take the oldest element; on an empty list the destination keeps `old`. -/
def dequeue : (items : List α) → (old : α) → List α × α
  | [], old => ([], old)
  | x :: items, _ => (items, x)

theorem enqueue_of_lt {cap : ℕ} {items : List α} (h : items.length < cap) (x : α) :
    enqueue cap items x = items ++ [x] := if_neg h.ne

theorem enqueue_ne_nil {cap : ℕ} {items : List α} (h : items ≠ []) (x : α) :
    enqueue cap items x ≠ [] := by
  unfold enqueue
  split_ifs
  · exact h
  · simp

theorem dequeue_length_le {cap : ℕ} {items : List α} (h : items.length ≤ cap) (old : α) :
    (dequeue items old).1.length ≤ cap := by
  cases items with
  | nil => exact h
  | cons x items => exact (Nat.le_succ _).trans h

theorem dequeue_length (items : List α) (old : α) :
    (dequeue items old).1.length = items.length - 1 := by
  cases items <;> rfl

theorem enqueue_length_le {cap : ℕ} {items : List α} (h : items.length ≤ cap) (x : α) :
    (enqueue cap items x).length ≤ cap := by
  unfold enqueue
  split_ifs with hfull
  · exact h
  · rw [List.length_append, List.length_singleton]
    omega

/-- The elements that are marked, in their order. -/
def marked (es : List (α × Bool)) : List α := (es.filter (·.2)).map (·.1)

theorem marked_append (es fs : List (α × Bool)) : marked (es ++ fs) = marked es ++ marked fs := by
  simp [marked]

theorem marked_of_all {es : List (α × Bool)} (h : ∀ e ∈ es, e.2 = true) :
    marked es = es.map (·.1) := by
  rw [marked, List.filter_eq_self.mpr h]

/-- What was given to a bounded list and found room is what has left it and what it holds. -/
theorem marked_enqueue {cap : ℕ} {es : List (α × Bool)} {gone items : List α}
    (h : marked es = gone ++ items) (x : α) :
    marked (es ++ [(x, decide (items.length ≠ cap))]) = gone ++ enqueue cap items x := by
  rw [marked_append, h, List.append_assoc, enqueue]
  by_cases hfull : items.length = cap
  · simp [marked, hfull]
  · simp [marked, hfull]

/-- The place of an element among the marked ones. -/
theorem getElem?_marked {es : List (α × Bool)} {i : ℕ} {x : α} (h : es[i]? = some (x, true)) :
    (marked es)[(es.take i).countP (·.2)]? = some x := by
  induction es generalizing i with
  | nil => cases h
  | cons e es ih =>
    cases i with
    | zero =>
      obtain rfl : e = (x, true) := by simpa using h
      rfl
    | succ i =>
      have hrest := ih (i := i) (by simpa using h)
      rw [List.take_succ_cons, List.countP_cons]
      cases hmark : e.2 <;> simpa [marked, hmark] using hrest

/-- What holds of the elements and of what is added holds of the elements afterwards. -/
theorem forall_mem_enqueue {P : α → Prop} {cap : ℕ} {items : List α} {x : α}
    (h : ∀ y ∈ items, P y) (hx : P x) : ∀ y ∈ enqueue cap items x, P y := by
  unfold enqueue
  split_ifs
  · exact h
  · have hnew : ∀ y ∈ [x], P y := List.forall_mem_singleton.mpr hx
    exact List.forall_mem_append.mpr ⟨h, hnew⟩

theorem forall_mem_dequeue {P : α → Prop} {items : List α} {old : α} (h : ∀ y ∈ items, P y)
    (hold : P old) : (∀ y ∈ (dequeue items old).1, P y) ∧ P (dequeue items old).2 := by
  cases items with
  | nil => exact ⟨h, hold⟩
  | cons x items => exact ⟨fun y hy => h y (List.mem_cons_of_mem x hy), h x List.mem_cons_self⟩

/-- The slots from `play` on hold `items`, in order. -/
def Holds (cap : ℕ) (slots : ℕ → α) (play : ℕ) (items : List α) : Prop :=
  ∀ i x, items[i]? = some x → slots ((play + i) % cap) = x

theorem holds_nil (cap : ℕ) (slots : ℕ → α) (play : ℕ) : Holds cap slots play [] := by
  intro i x hx
  simp at hx

theorem index_ne {cap play i j : ℕ} (hi : i < cap) (hj : j < cap) (hij : i ≠ j) :
    (play + i) % cap ≠ (play + j) % cap := by
  intro he
  have hm : i ≡ j [MOD cap] := Nat.ModEq.add_left_cancel' play he
  exact hij (hm.eq_of_lt_of_lt hi hj)

theorem Holds.enqueue {cap play : ℕ} {slots slots' : ℕ → α} {items : List α} {x : α}
    (h : Holds cap slots play items) (hlt : items.length < cap)
    (hnew : slots' ((play + items.length) % cap) = x)
    (hkeep : ∀ k, k < cap → k ≠ (play + items.length) % cap → slots' k = slots k) :
    Holds cap slots' play (items ++ [x]) := by
  intro i y hy
  rcases Nat.lt_trichotomy i items.length with hi | rfl | hi
  · rw [List.getElem?_append_left hi] at hy
    rw [hkeep _ (Nat.mod_lt _ (by omega)) (index_ne (by omega) hlt hi.ne)]
    exact h i y hy
  · simp only [List.getElem?_concat_length, Option.some.injEq] at hy
    exact hy ▸ hnew
  · rw [List.getElem?_eq_none (by simp; omega)] at hy
    simp at hy

theorem Holds.dequeue {cap play : ℕ} {slots : ℕ → α} {x : α} {items : List α}
    (h : Holds cap slots play (x :: items)) : slots (play % cap) = x ∧
      Holds cap slots ((play + 1) % cap) items := by
  refine ⟨h 0 x rfl, fun i y hy => ?_⟩
  rw [Nat.mod_add_mod, Nat.add_assoc, Nat.add_comm 1 i]
  exact h (i + 1) y hy

end EmotionStreamer.Fifo
