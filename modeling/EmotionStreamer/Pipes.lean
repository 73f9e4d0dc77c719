import EmotionStreamer.Runs
import Mathlib.Data.List.Infix
import Mathlib.Order.Basic

/-! A pipe between two programs. One of them appends to what it has written and closes the
pipe at some time, the other one takes from the front of what is in it; their steps come in
any order. -/
namespace EmotionStreamer.Pipes
open Runs

variable {α σ τ ι κ : Type*}

structure Writer (α σ ι : Type*) where
  step : σ → ι → σ → Prop
  written : σ → List α
  closed : σ → Prop
  appends : ∀ {s i s'}, step s i s' → written s <+: written s'
  final : ∀ {s i s'}, closed s → ¬step s i s'

/-- A step of a reader depends on what is in the pipe and on whether the pipe is closed. -/
structure Reader (α τ κ : Type*) where
  step : List α → Prop → τ → κ → τ → Prop
  taken : τ → List α
  takes : ∀ {inside ended t k t'}, step inside ended t k t' →
    ∃ x, x <+: inside ∧ taken t' = taken t ++ x

variable {w : Writer α σ ι} {r : Reader α τ κ} {s s' : σ} {t t' : τ} {i : ι} {k : κ}

/-- What has been written and not been taken yet. -/
def inside (w : Writer α σ ι) (r : Reader α τ κ) (s : σ) (t : τ) : List α :=
  (w.written s).drop (r.taken t).length

inductive Steps (w : Writer α σ ι) (r : Reader α τ κ) : σ × τ → ι ⊕ κ → σ × τ → Prop
  | write {s s' : σ} {t : τ} {i : ι} (step : w.step s i s') : Steps w r (s, t) (.inl i) (s', t)
  | read {s : σ} {t t' : τ} {k : κ} (step : r.step (inside w r s t) (w.closed s) t k t') :
      Steps w r (s, t) (.inr k) (s, t')

/-- What has been taken is the front of what has been written. -/
def InOrder (w : Writer α σ ι) (r : Reader α τ κ) (p : σ × τ) : Prop :=
  r.taken p.2 <+: w.written p.1

theorem InOrder.append (h : InOrder w r (s, t)) : r.taken t ++ inside w r s t = w.written s := by
  obtain ⟨rest, hrest⟩ := h
  rw [inside, ← hrest, List.drop_left]

/-- A prefix of what is in the pipe, behind what has been taken, is a prefix of the whole. -/
theorem InOrder.take (h : InOrder w r (s, t)) {x : List α} (hx : x <+: inside w r s t) :
    r.taken t ++ x <+: w.written s := by
  rw [← h.append]
  exact (List.prefix_append_right_inj _).mpr hx

theorem Steps.inOrder {p q : σ × τ} {l : ι ⊕ κ} (h : InOrder w r p) (step : Steps w r p l q) :
    InOrder w r q := by
  cases step with
  | write step => exact h.trans (w.appends step)
  | read step =>
    obtain ⟨x, hx, htaken⟩ := r.takes step
    rw [InOrder, htaken]
    exact h.take hx

/-- The reader is at the end when the pipe is closed and empty. -/
theorem InOrder.eq_of_empty (h : InOrder w r (s, t)) (hempty : inside w r s t = []) :
    r.taken t = w.written s := by
  rw [← h.append, hempty, List.append_nil]

theorem inside_length (w : Writer α σ ι) (r : Reader α τ κ) (s : σ) (t : τ) :
    (inside w r s t).length = (w.written s).length - (r.taken t).length := List.length_drop

end EmotionStreamer.Pipes
