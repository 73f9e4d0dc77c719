import Mathlib.Data.List.Basic
import Mathlib.Data.List.Infix

/-! Finite runs of labelled transition systems. A run records the labels in the
order they were taken; the invariant, guard and simulation rules below are the
only inductions over runs that the later modules need. -/
namespace EmotionStreamer.Runs

variable {σ τ ι κ : Type*}

inductive Run (step : σ → ι → σ → Prop) : σ → List ι → σ → Prop
  | nil (s) : Run step s [] s
  | snoc {s t u is i} : Run step s is t → step t i u → Run step s (is ++ [i]) u

/-- The steps of `step` whose source state and label satisfy `ok`. -/
def Guarded (ok : σ → ι → Prop) (step : σ → ι → σ → Prop) (s : σ) (i : ι) (t : σ) : Prop :=
  ok s i ∧ step s i t

theorem guarded {ok : σ → ι → Prop} {step : σ → ι → σ → Prop} {s t : σ} {i : ι} (h : step s i t)
    (g : ok s i) : Guarded ok step s i t := ⟨g, h⟩

theorem Run.one {step : σ → ι → σ → Prop} {s t : σ} {i : ι} (h : step s i t) :
    Run step s [i] t := .snoc (.nil s) h

theorem Run.trans {step : σ → ι → σ → Prop} {s t u : σ} {is js : List ι}
    (h : Run step s is t) (g : Run step t js u) : Run step s (is ++ js) u := by
  induction g with
  | nil => simpa using h
  | snoc _ hl ih => rw [← List.append_assoc]; exact .snoc ih hl

/-- Run rule: what every step preserves holds at the end of every run. -/
theorem Run.invariant {step : σ → ι → σ → Prop} (inv : σ → Prop) {s t : σ} {is : List ι}
    (run : Run step s is t) (hinit : inv s)
    (hstep : ∀ s i t, inv s → step s i t → inv t) : inv t := by
  induction run with
  | nil => exact hinit
  | snoc _ hl ih => exact hstep _ _ _ ih hl

/-- The same rule for a property that also speaks of the labels taken so far. -/
theorem Run.track {step : σ → ι → σ → Prop} (inv : List ι → σ → Prop) {s t : σ} {is : List ι}
    (run : Run step s is t) (hinit : inv [] s)
    (hstep : ∀ is s i t, inv is s → step s i t → inv (is ++ [i]) t) : inv is t := by
  induction run with
  | nil => exact hinit
  | snoc _ hl ih => exact hstep _ _ _ _ ih hl

/-- A partial step function that takes all the labels gives a run. -/
theorem run_of_foldlM {f : σ → ι → Option σ} {s t : σ} {is : List ι} (h : is.foldlM f s = some t) :
    Run (fun s i t => f s i = some t) s is t := by
  induction is generalizing s with
  | nil =>
    cases h
    exact .nil _
  | cons i is ih =>
    rw [List.foldlM_cons] at h
    obtain ⟨u, hu, hrest⟩ := Option.bind_eq_some_iff.mp h
    exact (Run.one hu).trans (ih hrest)

theorem Run.mono {step step' : σ → ι → σ → Prop} {s t : σ} {is : List ι}
    (run : Run step s is t) (h : ∀ s i t, step s i t → step' s i t) : Run step' s is t := by
  induction run with
  | nil => exact .nil _
  | snoc _ hl ih => exact .snoc ih (h _ _ _ hl)

/-- A run is no longer than a measure allows that every step makes smaller. -/
theorem Run.length_le {step : σ → ι → σ → Prop} (measure : σ → ℕ)
    (hdec : ∀ s i t, step s i t → measure t < measure s) {s t : σ} {is : List ι}
    (run : Run step s is t) : is.length + measure t ≤ measure s := by
  induction run with
  | nil => rw [List.length_nil, Nat.zero_add]
  | snoc _ hl ih =>
    have := hdec _ _ _ hl
    rw [List.length_append, List.length_singleton]
    omega

/-- A run from an invariant takes no more labels of a kind than a measure allows that these labels
make smaller and the others leave as small. -/
theorem Run.countP_le {step : σ → ι → σ → Prop} {inv : σ → Prop} (p : ι → Bool) (measure : σ → ℕ)
    {s t : σ} {is : List ι} (run : Run step s is t) (hinit : inv s)
    (hstep : ∀ s i t, inv s → step s i t → inv t ∧ (p i = true → measure t < measure s) ∧
      (p i ≠ true → measure t ≤ measure s)) :
    inv t ∧ is.countP p + measure t ≤ measure s := by
  induction run with
  | nil => exact ⟨hinit, by rw [List.countP_nil, Nat.zero_add]⟩
  | @snoc _ _ _ i _ hl ih =>
    obtain ⟨hinv, hcount⟩ := ih
    obtain ⟨hinv', hlt, hle⟩ := hstep _ i _ hinv hl
    refine ⟨hinv', ?_⟩
    rw [List.countP_append, List.countP_singleton]
    by_cases hp : p i = true
    · have := hlt hp
      rw [if_pos hp]
      omega
    · have := hle hp
      rw [if_neg hp]
      omega

/-- Simulation rule: `rel` is kept when each step is matched by a run of the
other system, so the final states are related again. -/
theorem Run.simulate {step : σ → ι → σ → Prop} {astep : τ → κ → τ → Prop}
    (rel : σ → τ → Prop) {s t : σ} {a : τ} {is : List ι} (run : Run step s is t)
    (hrel : rel s a)
    (hstep : ∀ s i t a, rel s a → step s i t → ∃ ks b, Run astep a ks b ∧ rel t b) :
    ∃ ks b, Run astep a ks b ∧ rel t b := by
  induction run with
  | nil => exact ⟨[], a, .nil a, hrel⟩
  | snoc _ hl ih =>
    obtain ⟨ks, b, hb, hr⟩ := ih
    obtain ⟨ls, c, hc, hr'⟩ := hstep _ _ _ _ hr hl
    exact ⟨ks ++ ls, c, hb.trans hc, hr'⟩

/-- A step function whose steps all meet the guard gives a run. -/
theorem run_foldl {f : σ → ι → σ} {ok : σ → ι → Prop} (h : ∀ s i, ok s i) (s : σ) (is : List ι) :
    Run (Guarded ok fun s i t => t = f s i) s is (is.foldl f s) := by
  induction is generalizing s with
  | nil => exact .nil s
  | cons i is ih => exact (Run.one (guarded rfl (h s i))).trans (ih (f s i))

theorem fold_invariant {f : σ → ι → σ} {inv : σ → Prop} (is : List ι) {s : σ} (hinit : inv s)
    (hstep : ∀ s i, inv s → inv (f s i)) : inv (is.foldl f s) := by
  induction is generalizing s with
  | nil => exact hinit
  | cons i is ih => exact ih (hstep s i hinit)

/-- Steps that succeed and keep an invariant give a run that succeeds and keeps it. -/
theorem foldlM_invariant {ε : Type*} {f : σ → ι → Except ε σ} {inv : σ → Prop} (is : List ι)
    {s : σ} (hinit : inv s) (hstep : ∀ s i, inv s → ∃ t, f s i = .ok t ∧ inv t) :
    ∃ t, is.foldlM f s = .ok t ∧ inv t := by
  induction is generalizing s with
  | nil => exact ⟨s, rfl, hinit⟩
  | cons i is ih =>
    obtain ⟨t, ht, hinv⟩ := hstep s i hinit
    obtain ⟨u, hu, hinv'⟩ := ih hinv
    refine ⟨u, ?_, hinv'⟩
    rw [List.foldlM_cons, ht]
    exact hu

/-- An invariant of the steps that meet `ok` holds along every run of such steps. -/
theorem prefix_invariant {f : σ → ι → σ} {ok : σ → ι → Prop} {inv : σ → Prop} {s : σ}
    {is : List ι} (hok : ∀ pre i, pre ++ [i] <+: is → ok (pre.foldl f s) i) (hinit : inv s)
    (hstep : ∀ s i, inv s → ok s i → inv (f s i)) (pre : List ι) (hpre : pre <+: is) :
    inv (pre.foldl f s) := by
  induction pre using List.reverseRecOn with
  | nil => exact hinit
  | append_singleton pre i ih =>
    rw [List.foldl_append]
    exact hstep _ i (ih ((List.prefix_append pre [i]).trans hpre)) (hok pre i hpre)

/-- The steps of a run from `s` on all meet `ok`. -/
def Along (f : σ → ι → σ) (ok : σ → ι → Prop) : σ → List ι → Prop
  | _, [] => True
  | s, i :: is => ok s i ∧ Along f ok (f s i) is

instance decidableAlong {f : σ → ι → σ} {ok : σ → ι → Prop} [∀ s i, Decidable (ok s i)] :
    ∀ s is, Decidable (Along f ok s is)
  | _, [] => isTrue trivial
  | s, i :: is => @instDecidableAnd _ _ inferInstance (decidableAlong (f s i) is)

theorem along_iff {f : σ → ι → σ} {ok : σ → ι → Prop} {s : σ} {is : List ι} :
    Along f ok s is ↔ ∀ pre i, pre ++ [i] <+: is → ok (pre.foldl f s) i := by
  induction is generalizing s with
  | nil => simp [Along]
  | cons j is ih =>
    rw [Along, ih]
    refine ⟨fun ⟨hj, hall⟩ pre i hpre => ?_, fun hall => ⟨?_, fun pre i hpre => ?_⟩⟩
    · cases pre with
      | nil =>
        obtain rfl : i = j := by simpa using hpre
        exact hj
      | cons k pre =>
        rw [List.cons_append, List.cons_prefix_cons] at hpre
        obtain ⟨rfl, hpre⟩ := hpre
        exact hall pre i hpre
    · exact hall [] j (by simp)
    · exact hall (j :: pre) i (by simpa using hpre)

/-- A guard is exact when keeping it keeps an invariant that implies `P`, and
breaking it breaks `P` at once. -/
structure ExactGuard (f : σ → ι → σ) (ok : σ → ι → Prop) (inv P : σ → Prop) : Prop where
  holds : ∀ s, inv s → P s
  keeps : ∀ s i, inv s → ok s i → inv (f s i)
  breaks : ∀ s i, inv s → ¬ok s i → ¬P (f s i)

/-- Then `P` holds at every state of a run if and only if all its steps keep the
guard. -/
theorem ExactGuard.iff {f : σ → ι → σ} {ok : σ → ι → Prop} {inv P : σ → Prop}
    (h : ExactGuard f ok inv P) {s : σ} (hinit : inv s) (is : List ι) :
    (∀ pre, pre <+: is → P (pre.foldl f s)) ↔
      ∀ pre i, pre ++ [i] <+: is → ok (pre.foldl f s) i := by
  induction is generalizing s with
  | nil =>
    refine ⟨fun _ pre i hpre => ?_, fun _ pre hpre => ?_⟩
    · simpa using List.prefix_nil.mp hpre
    · rw [List.prefix_nil.mp hpre]
      exact h.holds s hinit
  | cons j is ih =>
    have hsplit : (∀ pre i, pre ++ [i] <+: j :: is → ok (pre.foldl f s) i) ↔
        ok s j ∧ ∀ pre i, pre ++ [i] <+: is → ok (pre.foldl f (f s j)) i := by
      rw [← along_iff, ← along_iff, Along]
    have hsplit' : (∀ pre, pre <+: j :: is → P (pre.foldl f s)) ↔
        ∀ pre, pre <+: is → P (pre.foldl f (f s j)) := by
      refine ⟨fun hall pre hpre => hall (j :: pre) (by simpa using hpre), fun hall pre hpre => ?_⟩
      cases pre with
      | nil => exact h.holds s hinit
      | cons k pre =>
        obtain ⟨rfl, hrest⟩ := List.cons_prefix_cons.mp hpre
        exact hall pre hrest
    rw [hsplit, hsplit']
    by_cases hj : ok s j
    · rw [ih (h.keeps s j hinit hj)]
      simp [hj]
    · refine ⟨fun hall => absurd (hall [] List.nil_prefix) (h.breaks s j hinit hj), ?_⟩
      rintro ⟨hok, -⟩
      exact absurd hok hj

end EmotionStreamer.Runs
