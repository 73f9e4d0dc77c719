import EmotionStreamer.Runs
import Mathlib.Data.Set.Lattice
import Mathlib.Logic.Function.Iterate
import Mathlib.Order.CompletePartialOrder

/-! Programs that share a store, each of which reads and changes the values at keys of its own.
While the keys of the programs that are under way are apart, each of them runs as if it were
alone, whatever the order of the steps. -/
namespace EmotionStreamer.Footprints
open Runs

variable {W K V L : Type*}

/-- A program is at its start, under way (`busy`), or at rest. -/
structure Programs (W K V L : Type*) where
  own : W → Set K
  start : W → L
  busy : L → Prop
  op : W → (K → V) → L → (K → V) × L
  frame : ∀ w f l k, k ∉ own w → (op w f l).1 k = f k
  reads : ∀ w f g l, (∀ k ∈ own w, f k = g k) →
    (op w f l).2 = (op w g l).2 ∧ ∀ k ∈ own w, (op w f l).1 k = (op w g l).1 k
  begins : ∀ w f l, (op w f l).2 ≠ start w
  idle : ∀ w, ¬busy (start w)
  rests : ∀ w f l, l ≠ start w → ¬busy l → op w f l = (f, l)

namespace Programs

variable [DecidableEq W] (p : Programs W K V L)

/-- The store, and where the programs are. -/
def step (s : (K → V) × (W → L)) (w : W) : (K → V) × (W → L) :=
  ((p.op w s.1 (s.2 w)).1, Function.update s.2 w (p.op w s.1 (s.2 w)).2)

/-- A program that takes `n` steps alone. -/
def solo (w : W) (f : K → V) (n : ℕ) : (K → V) × L :=
  (fun x : (K → V) × L => p.op w x.1 x.2)^[n] (f, p.start w)

/-- No other program that is under way has a key in common with the one that goes on. -/
def Undisturbed (s : (K → V) × (W → L)) (w : W) : Prop :=
  s.2 w = p.start w ∨ p.busy (s.2 w) → ∀ v, v ≠ w → p.busy (s.2 v) → Disjoint (p.own v) (p.own w)

/-- A program begins only when those under way have no key in common with it. -/
def Free (s : (K → V) × (W → L)) (w : W) : Prop :=
  s.2 w = p.start w → ∀ v, v ≠ w → p.busy (s.2 v) → Disjoint (p.own v) (p.own w)

/-- A program is where it is after `n` steps alone, and while it is under way its keys have
the values that they have then. -/
structure Alone (s : (K → V) × (W → L)) (w : W) (n : ℕ) (f : K → V) : Prop where
  place : s.2 w = (p.solo w f n).2
  values : p.busy (s.2 w) → ∀ k ∈ p.own w, s.1 k = (p.solo w f n).1 k

variable {p} {s : (K → V) × (W → L)} {v w : W} {f : K → V} {n : ℕ}

omit [DecidableEq W] in
theorem solo_succ (w : W) (f : K → V) (n : ℕ) :
    p.solo w f (n + 1) = p.op w (p.solo w f n).1 (p.solo w f n).2 :=
  Function.iterate_succ_apply' _ _ _

omit [DecidableEq W] in
theorem solo_ne_start (w : W) (f : K → V) (n : ℕ) : (p.solo w f (n + 1)).2 ≠ p.start w := by
  rw [solo_succ]
  exact p.begins w _ _

theorem step_self (s : (K → V) × (W → L)) (w : W) :
    (p.step s w).2 w = (p.op w s.1 (s.2 w)).2 := Function.update_self _ _ _

theorem step_other (s : (K → V) × (W → L)) (h : v ≠ w) : (p.step s w).2 v = s.2 v :=
  Function.update_of_ne h _ _

theorem step_rests (h : s.2 w ≠ p.start w) (hbusy : ¬p.busy (s.2 w)) : p.step s w = s := by
  rw [step, p.rests w s.1 (s.2 w) h hbusy, Function.update_eq_self]

/-- A program goes on as it would alone; behind its step its keys have the same values. -/
theorem Alone.step_self (h : p.Alone s w n f) (hbusy : p.busy (s.2 w)) :
    (p.step s w).2 w = (p.solo w f (n + 1)).2 ∧
      ∀ k ∈ p.own w, (p.step s w).1 k = (p.solo w f (n + 1)).1 k := by
  obtain ⟨hplace, hvalues⟩ := p.reads w s.1 (p.solo w f n).1 (s.2 w) (h.values hbusy)
  rw [Programs.step_self, solo_succ, ← h.place]
  exact ⟨hplace, hvalues⟩

/-- The same from the start, for which the store may be any. -/
theorem Alone.exists_goes (h : p.Alone s w n f) (hgoes : s.2 w = p.start w ∨ p.busy (s.2 w)) :
    ∃ f, (p.step s w).2 w = (p.solo w f (n + 1)).2 ∧
      ∀ k ∈ p.own w, (p.step s w).1 k = (p.solo w f (n + 1)).1 k := by
  rcases hgoes with hstart | hbusy
  · have hzero : n = 0 := by
      cases n with
      | zero => rfl
      | succ n => exact absurd (h.place.symm.trans hstart) (solo_ne_start w f n)
    have hfirst : p.solo w s.1 1 = p.op w s.1 (s.2 w) := by
      rw [hstart]
      rfl
    rw [hzero, Nat.zero_add]
    exact ⟨s.1, by rw [hfirst, Programs.step_self], fun k _ => by rw [hfirst]; rfl⟩
  · exact ⟨f, h.step_self hbusy⟩

/-- A step of another program that keeps off the keys. -/
theorem Alone.step_other (h : p.Alone s v n f) (hv : v ≠ w) (hu : p.Undisturbed s w) :
    p.Alone (p.step s w) v n f := by
  refine ⟨(Programs.step_other s hv).trans h.place, fun hbusy k hk => ?_⟩
  rw [Programs.step_other s hv] at hbusy
  rw [← h.values hbusy k hk]
  by_cases hgoes : s.2 w = p.start w ∨ p.busy (s.2 w)
  · exact p.frame w s.1 (s.2 w) k (Set.disjoint_left.mp (hu hgoes v hv hbusy) hk)
  · obtain ⟨hstart, hbusy'⟩ := not_or.mp hgoes
    rw [step_rests hstart hbusy']

/-- Step lemma: every program stays where it would be alone. -/
theorem alone_step {pre : List W} (h : ∀ v, ∃ f, p.Alone s v (pre.count v) f)
    (hu : p.Undisturbed s w) (v : W) : ∃ f, p.Alone (p.step s w) v ((pre ++ [w]).count v) f := by
  rw [List.count_append]
  by_cases hv : v = w
  · subst hv
    rw [List.count_singleton_self]
    obtain ⟨f, hf⟩ := h v
    by_cases hgoes : s.2 v = p.start v ∨ p.busy (s.2 v)
    · obtain ⟨g, hplace, hvalues⟩ := hf.exists_goes hgoes
      exact ⟨g, hplace, fun _ => hvalues⟩
    · obtain ⟨hstart, hbusy⟩ := not_or.mp hgoes
      rw [step_rests hstart hbusy]
      refine ⟨f, ?_, fun h => absurd h hbusy⟩
      have hsolo := solo_succ (p := p) v f (pre.count v)
      rw [← hf.place, p.rests v _ _ hstart hbusy] at hsolo
      rw [hsolo]
  · rw [List.count_singleton, beq_false_of_ne (Ne.symm hv), if_neg Bool.false_ne_true, Nat.add_zero]
    obtain ⟨f, hf⟩ := h v
    exact ⟨f, hf.step_other hv hu⟩

/-- Run lemma: in every order of undisturbed steps, each program is where its own steps have
led it. -/
theorem run_alone {f₀ : K → V} {ws : List W}
    (run : Run (Guarded p.Undisturbed fun s w t => t = p.step s w) (f₀, p.start) ws s) (w : W) :
    ∃ f, p.Alone s w (ws.count w) f := by
  refine run.track (fun pre s => ∀ v, ∃ f, p.Alone s v (pre.count v) f)
    (fun v => ⟨f₀, rfl, fun _ _ _ => rfl⟩) ?_ w
  rintro pre s w t h ⟨hu, rfl⟩
  exact alone_step h hu

/-- To look at the keys at the beginning is enough. -/
theorem run_undisturbed {f₀ : K → V} {ws : List W}
    (run : Run (Guarded p.Free fun s w t => t = p.step s w) (f₀, p.start) ws s) :
    Run (Guarded p.Undisturbed fun s w t => t = p.step s w) (f₀, p.start) ws s := by
  refine (run.track (fun pre s => Run (Guarded p.Undisturbed fun s w t => t = p.step s w)
    (f₀, p.start) pre s ∧ ∀ v w, v ≠ w → p.busy (s.2 v) → p.busy (s.2 w) →
      Disjoint (p.own v) (p.own w)) ⟨.nil _, fun v w _ hv => absurd hv (p.idle v)⟩ ?_).1
  rintro pre s w t ⟨run, hapart⟩ ⟨hfree, rfl⟩
  have hu : p.Undisturbed s w := by
    rintro (hstart | hbusy) v hv hbusy'
    · exact hfree hstart v hv hbusy'
    · exact hapart v w hv hbusy' hbusy
  refine ⟨.snoc run ⟨hu, rfl⟩, ?_⟩
  by_cases hgoes : s.2 w = p.start w ∨ p.busy (s.2 w)
  · intro v v' hne hbusy hbusy'
    by_cases hv : v = w
    · subst hv
      rw [step_other s (Ne.symm hne)] at hbusy'
      exact (hu hgoes v' (Ne.symm hne) hbusy').symm
    · rw [step_other s hv] at hbusy
      by_cases hv' : v' = w
      · subst hv'
        exact hu hgoes v hv hbusy
      · rw [step_other s hv'] at hbusy'
        exact hapart v v' hne hbusy hbusy'
  · obtain ⟨hstart, hbusy⟩ := not_or.mp hgoes
    rw [step_rests hstart hbusy]
    exact hapart

/-- A value is as at the beginning, or its key is one of a program that has begun: one that is
under way, or one that has left the value as it leaves values when it ends alone. -/
theorem run_left {f₀ : K → V} (clean : V → Prop)
    (hclean : ∀ w f n, ¬p.busy (p.solo w f (n + 1)).2 →
      ∀ k ∈ p.own w, clean ((p.solo w f (n + 1)).1 k))
    {ws : List W} (run : Run (Guarded p.Undisturbed fun s w t => t = p.step s w) (f₀, p.start) ws s)
    (k : K) : s.1 k = f₀ k ∨
      ∃ w, s.2 w ≠ p.start w ∧ k ∈ p.own w ∧ (p.busy (s.2 w) ∨ clean (s.1 k)) := by
  refine (run.track (fun pre s => (∀ v, ∃ f, p.Alone s v (pre.count v) f) ∧
    ∀ k, s.1 k = f₀ k ∨
      ∃ w, s.2 w ≠ p.start w ∧ k ∈ p.own w ∧ (p.busy (s.2 w) ∨ clean (s.1 k)))
    ⟨fun v => ⟨f₀, rfl, fun _ _ _ => rfl⟩, fun _ => Or.inl rfl⟩ ?_).2 k
  rintro pre s w t ⟨h, hleft⟩ ⟨hu, rfl⟩
  refine ⟨alone_step h hu, fun k => ?_⟩
  by_cases hgoes : s.2 w = p.start w ∨ p.busy (s.2 w)
  · by_cases hk : k ∈ p.own w
    · obtain ⟨f, hf⟩ := h w
      obtain ⟨g, hplace, hvalues⟩ := hf.exists_goes hgoes
      refine Or.inr ⟨w, by rw [hplace]; exact solo_ne_start w g _, hk, ?_⟩
      by_cases hbusy : p.busy ((p.step s w).2 w)
      · exact Or.inl hbusy
      · rw [hplace] at hbusy
        rw [hvalues k hk]
        exact Or.inr (hclean w g _ hbusy k hk)
    · have hsame : (p.step s w).1 k = s.1 k := p.frame w s.1 (s.2 w) k hk
      rw [hsame]
      refine (hleft k).imp_right ?_
      rintro ⟨v, hbegun, hv, hend⟩
      have hne : v ≠ w := fun he => hk (he ▸ hv)
      rw [← step_other s hne] at hbegun hend
      exact ⟨v, hbegun, hv, hend⟩
  · obtain ⟨hstart, hbusy⟩ := not_or.mp hgoes
    rw [step_rests hstart hbusy]
    exact hleft k

end Programs

end EmotionStreamer.Footprints
