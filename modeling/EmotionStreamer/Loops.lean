import Mathlib.Logic.Relation
import Mathlib.Data.Nat.Notation

/-! Loops over a state whose body either gives the next state or leaves the loop.
A measure that every pass decreases gives enough fuel, and the states that a loop
passes through are those it reaches by single passes. -/
namespace EmotionStreamer.Loops

variable {σ : Type*}

/-- The state in which `body` leaves the loop, if `fuel` passes are enough. -/
def loop (body : σ → Option σ) : ℕ → σ → Option σ
  | 0, _ => none
  | fuel + 1, s =>
    match body s with
    | none => some s
    | some t => loop body fuel t

/-- Finitely many passes lead from one state to the other. -/
def Reaches (body : σ → Option σ) : σ → σ → Prop :=
  Relation.ReflTransGen fun s t => body s = some t

variable {body : σ → Option σ} {s t u : σ}

/-- The loop ends in a state it reaches. -/
theorem loop_ends (measure : σ → ℕ) (hdec : ∀ s t, body s = some t → measure t < measure s)
    {fuel : ℕ} (hfuel : measure s < fuel) :
    ∃ t, loop body fuel s = some t ∧ Reaches body s t ∧ body t = none := by
  induction fuel generalizing s with
  | zero => omega
  | succ fuel ih =>
    cases hb : body s with
    | none => exact ⟨s, by simp [loop, hb], .refl, hb⟩
    | some u =>
      have hu : measure u < fuel := by
        have := hdec s u hb
        omega
      obtain ⟨t, hloop, hreach, hend⟩ := ih hu
      exact ⟨t, by simp [loop, hb, hloop], .head hb hreach, hend⟩

theorem Reaches.invariant (inv : σ → Prop) (h : Reaches body s t) (hinit : inv s)
    (hstep : ∀ s t, inv s → body s = some t → inv t) : inv t := by
  induction h with
  | refl => exact hinit
  | tail _ hb ih => exact hstep _ _ ih hb

theorem Reaches.le (le : σ → σ → Prop) (h : Reaches body s t) (hrefl : ∀ s, le s s)
    (htrans : ∀ s t u, le s t → le t u → le s u) (hstep : ∀ s t, body s = some t → le s t) :
    le s t := by
  induction h with
  | refl => exact hrefl s
  | tail _ hb ih => exact htrans _ _ _ ih (hstep _ _ hb)

theorem Reaches.after (h : Reaches body s t) (hend : body t = none) (hb : body s = some u) :
    Reaches body u t := by
  cases h using Relation.ReflTransGen.head_induction_on with
  | refl => rw [hend] at hb; cases hb
  | head hb' hreach =>
    rw [hb] at hb'
    cases hb'
    exact hreach

/-- A loop that is left at all is left in the same state, whatever the fuel. -/
theorem loop_eq_some_iff :
    (∃ fuel, loop body fuel s = some t) ↔ Reaches body s t ∧ body t = none := by
  constructor
  · rintro ⟨fuel, hloop⟩
    induction fuel generalizing s with
    | zero => cases hloop
    | succ fuel ih =>
      cases hb : body s with
      | none =>
        obtain rfl : s = t := by simpa [loop, hb] using hloop
        exact ⟨.refl, hb⟩
      | some u =>
        obtain ⟨hreach, hend⟩ := ih (s := u) (by simpa [loop, hb] using hloop)
        exact ⟨.head hb hreach, hend⟩
  · rintro ⟨hreach, hend⟩
    induction hreach using Relation.ReflTransGen.head_induction_on with
    | refl => exact ⟨1, by simp [loop, hend]⟩
    | head hb _ ih =>
      obtain ⟨fuel, hloop⟩ := ih
      exact ⟨fuel + 1, by simp only [loop, hb, hloop]⟩

theorem Reaches.unique (ht : Reaches body s t) (htend : body t = none)
    (hu : Reaches body s u) (huend : body u = none) : t = u := by
  induction ht using Relation.ReflTransGen.head_induction_on with
  | refl =>
    cases hu using Relation.ReflTransGen.head_induction_on with
    | refl => rfl
    | head hb _ => rw [htend] at hb; cases hb
  | head hb _ ih => exact ih (hu.after huend hb)

/-- A loop that goes through a sequence of states ends in the first at which it stops. -/
theorem loop_sequence_iff (states : ℕ → σ) (stop : ℕ → Prop) [DecidablePred stop]
    (hbody : ∀ j, body (states j) = if stop j then none else some (states (j + 1))) (i : ℕ) :
    (∃ fuel, loop body fuel (states i) = some t) ↔
      ∃ j, i ≤ j ∧ stop j ∧ (∀ k, i ≤ k → k < j → ¬stop k) ∧ t = states j := by
  constructor
  · rintro ⟨fuel, hloop⟩
    induction fuel generalizing i with
    | zero => cases hloop
    | succ fuel ih =>
      rw [loop, hbody] at hloop
      by_cases hstop : stop i
      · rw [if_pos hstop] at hloop
        exact ⟨i, Nat.le_refl i, hstop, fun k hk hlt => by omega, (Option.some.inj hloop).symm⟩
      · rw [if_neg hstop] at hloop
        obtain ⟨j, hij, hj, hfirst, ht⟩ := ih (i + 1) hloop
        refine ⟨j, by omega, hj, fun k hk hlt => ?_, ht⟩
        obtain rfl | hk := Nat.eq_or_lt_of_le hk
        · exact hstop
        · exact hfirst k hk hlt
  · rintro ⟨j, hij, hj, hfirst, rfl⟩
    refine loop_eq_some_iff.mpr ⟨?_, by rw [hbody, if_pos hj]⟩
    clear hj
    induction hij with
    | refl => exact .refl
    | step hij ih =>
      refine .tail (ih fun k hk hlt => hfirst k hk (Nat.lt_succ_of_lt hlt)) ?_
      rw [hbody, if_neg (hfirst _ hij (Nat.lt_succ_self _))]

end EmotionStreamer.Loops
