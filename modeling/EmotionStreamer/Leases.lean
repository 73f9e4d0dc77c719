import EmotionStreamer.Runs
import Mathlib.Data.Set.Lattice
import Mathlib.Logic.Function.Basic
import Mathlib.Order.CompletePartialOrder

/-! Leases of exclusive resources. A ledger records which resources are granted
and which of them each client holds. A grant takes fresh resources and announces
some of them to one client; a return frees resources of one client. Exclusivity
is an invariant of every run of grants and returns. -/
namespace EmotionStreamer.Leases
open Runs

variable {R C : Type*} [DecidableEq C]

structure Ledger (R C : Type*) where
  granted : Set R
  holds : C → Set R

inductive Action (R C : Type*)
  | grant (client : C) (taken announced : Set R)
  | release (client : C) (returned : Set R)

inductive Step : Ledger R C → Action R C → Ledger R C → Prop
  | grant (l : Ledger R C) (c : C) (taken announced : Set R)
      (fresh : Disjoint taken l.granted) (sub : announced ⊆ taken) :
      Step l (.grant c taken announced)
        ⟨l.granted ∪ taken, Function.update l.holds c (l.holds c ∪ announced)⟩
  | release (l : Ledger R C) (c : C) (returned : Set R) (held : returned ⊆ l.holds c) :
      Step l (.release c returned)
        ⟨l.granted \ returned, Function.update l.holds c (l.holds c \ returned)⟩

/-- Everything held is granted, and no resource is held twice. -/
structure Sound (l : Ledger R C) : Prop where
  backed : ∀ c, l.holds c ⊆ l.granted
  exclusive : ∀ c d, c ≠ d → Disjoint (l.holds c) (l.holds d)

theorem update_exclusive {holds : C → Set R} {c : C} {S : Set R}
    (h : ∀ a b, a ≠ b → Disjoint (holds a) (holds b))
    (hS : ∀ d, d ≠ c → Disjoint S (holds d)) (a b : C) (hab : a ≠ b) :
    Disjoint (Function.update holds c S a) (Function.update holds c S b) := by
  by_cases ha : a = c
  · subst ha
    rw [Function.update_self, Function.update_of_ne hab.symm]
    exact hS b hab.symm
  · rw [Function.update_of_ne ha]
    by_cases hb : b = c
    · subst hb
      rw [Function.update_self]
      exact (hS a ha).symm
    · rw [Function.update_of_ne hb]
      exact h a b hab

theorem Step.sound {l l' : Ledger R C} {a : Action R C} (h : Sound l) (step : Step l a l') :
    Sound l' := by
  cases step with
  | grant c taken announced fresh sub =>
    refine ⟨fun d => ?_, update_exclusive h.exclusive fun d hd => ?_⟩
    · by_cases hd : d = c
      · subst hd
        simpa only [Function.update_self] using Set.union_subset_union (h.backed d) sub
      · dsimp only
        rw [Function.update_of_ne hd]
        exact (h.backed d).trans Set.subset_union_left
    · refine Set.disjoint_union_left.mpr ⟨h.exclusive c d hd.symm, ?_⟩
      exact (fresh.mono_left sub).mono_right (h.backed d)
  | release c returned held =>
    refine ⟨fun d => ?_, update_exclusive h.exclusive fun d hd => ?_⟩
    · by_cases hd : d = c
      · subst hd
        simpa only [Function.update_self] using Set.sdiff_subset_sdiff_left (h.backed d)
      · dsimp only
        rw [Function.update_of_ne hd]
        intro r hr
        exact ⟨h.backed d hr, fun hret =>
          Set.disjoint_left.mp (h.exclusive d c hd) hr (held hret)⟩
    · exact (h.exclusive c d hd.symm).mono_left Set.sdiff_subset

/-- Exclusivity over whole runs, from any sound ledger. -/
theorem run_sound {l l' : Ledger R C} {as : List (Action R C)} (h : Sound l)
    (run : Run Step l as l') : Sound l' :=
  run.invariant _ h fun _ _ _ hs step => step.sound hs

omit [DecidableEq C] in
/-- A client may forget what it holds; nobody else gets it then. -/
theorem Sound.forget {l : Ledger R C} {holds : C → Set R} (h : Sound l)
    (hsub : ∀ c, holds c ⊆ l.holds c) : Sound ⟨l.granted, holds⟩ :=
  ⟨fun c => (hsub c).trans (h.backed c),
    fun c d hcd => (h.exclusive c d hcd).mono (hsub c) (hsub d)⟩

/-- Nothing is granted but what somebody holds. -/
def Accounted (l : Ledger R C) : Prop := l.granted = ⋃ c, l.holds c

theorem iUnion_update (holds : C → Set R) (c : C) (S : Set R) :
    ⋃ d, Function.update holds c S d = S ∪ ⋃ d ∈ {d | d ≠ c}, holds d := by
  ext r
  simp only [Set.mem_iUnion, Set.mem_union, Set.mem_ofPred_eq, exists_prop]
  constructor
  · rintro ⟨d, hd⟩
    by_cases hdc : d = c
    · subst hdc
      exact Or.inl (by rwa [Function.update_self] at hd)
    · exact Or.inr ⟨d, hdc, by rwa [Function.update_of_ne hdc] at hd⟩
  · rintro (hr | ⟨d, hdc, hd⟩)
    · exact ⟨c, by rwa [Function.update_self]⟩
    · exact ⟨d, by rwa [Function.update_of_ne hdc]⟩

/-- The holdings of one client and those of all the others. -/
theorem Accounted.split {l : Ledger R C} (h : Accounted l) (c : C) :
    l.granted = l.holds c ∪ ⋃ d ∈ {d | d ≠ c}, l.holds d := by
  rw [h, ← iUnion_update l.holds c (l.holds c), Function.update_eq_self]

theorem Accounted.grant {l : Ledger R C} (h : Accounted l) (c : C) (S : Set R) :
    Accounted ⟨l.granted ∪ S, Function.update l.holds c (l.holds c ∪ S)⟩ := by
  simp only [Accounted, iUnion_update, h.split c]
  exact Set.union_right_comm _ _ _

theorem Accounted.release {l : Ledger R C} (h : Accounted l) (hs : Sound l) {c : C} {S : Set R}
    (held : S ⊆ l.holds c) :
    Accounted ⟨l.granted \ S, Function.update l.holds c (l.holds c \ S)⟩ := by
  have hothers : (⋃ d ∈ {d | d ≠ c}, l.holds d) \ S = ⋃ d ∈ {d | d ≠ c}, l.holds d := by
    refine sdiff_eq_left.mpr (Set.disjoint_iUnion₂_left.mpr fun d hd => ?_)
    exact (hs.exclusive d c hd).mono_right held
  simp only [Accounted, iUnion_update, h.split c, Set.union_sdiff_distrib, hothers]

end EmotionStreamer.Leases
