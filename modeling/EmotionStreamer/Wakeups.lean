import Mathlib.Logic.Function.Basic

/-! Condition variables with one thread that waits on each. A signal reaches a thread that waits; it
is lost on a thread that has looked at its flags and does not wait yet. -/
namespace EmotionStreamer.Wakeups

/-- How far a thread is with the wait on its condition. -/
inductive Wait
  | out | waiting | woken
  deriving DecidableEq, Repr

def Wait.signal : Wait → Wait
  | .waiting => .woken
  | w => w

/-- Where a thread is: it has looked at its flags and is going to wait, it is at its wait, or it is
anywhere else. -/
inductive Place
  | free | looked | asleep
  deriving DecidableEq, Repr

/-- A signal is lost. -/
def Deaf (place : Place) (w : Wait) : Prop := place = .looked ∨ place = .asleep ∧ w = .out

/-- A thread that looks at its flags again before it waits. -/
def Roused (place : Place) (w : Wait) : Prop := place ≠ .looked ∧ (place = .asleep → w = .woken)

instance (place : Place) (w : Wait) : Decidable (Deaf place w) :=
  inferInstanceAs (Decidable (_ ∨ _ ∧ _))

variable {κ : Type*} [DecidableEq κ] {place : Place} {w : Wait} {waits : κ → Wait} {c : κ}

def signal (waits : κ → Wait) (c : κ) : κ → Wait := Function.update waits c (waits c).signal

def signals (waits : κ → Wait) (cs : List κ) : κ → Wait := cs.foldl signal waits

theorem Roused.of_free (h : place = .free) (w : Wait) : Roused place w := by
  subst h
  exact ⟨by decide, fun h => absurd h (by decide)⟩

theorem Roused.not_deaf (h : Roused place w) : ¬Deaf place w := by
  rintro (hlooked | ⟨hasleep, hout⟩)
  · exact h.1 hlooked
  · exact absurd ((h.2 hasleep).symm.trans hout) (by decide)

theorem Roused.signal (h : Roused place w) : Roused place w.signal :=
  ⟨h.1, fun hasleep => by rw [h.2 hasleep]; rfl⟩

/-- A signal that is not lost rouses the thread. -/
theorem roused_signal (h : ¬Deaf place w) : Roused place w.signal := by
  obtain ⟨hlooked, hasleep⟩ := not_or.mp h
  refine ⟨hlooked, fun hplace => ?_⟩
  cases w with
  | out => exact absurd ⟨hplace, rfl⟩ hasleep
  | waiting => rfl
  | woken => rfl

theorem signal_self (waits : κ → Wait) (c : κ) : Wakeups.signal waits c c = (waits c).signal :=
  Function.update_self ..

theorem Roused.signal_any (h : Roused place (waits c)) (d : κ) :
    Roused place (Wakeups.signal waits d c) := by
  by_cases hd : c = d
  · subst hd
    rw [signal_self]
    exact h.signal
  · rwa [Wakeups.signal, Function.update_of_ne hd]

theorem Roused.signals (h : Roused place (waits c)) (cs : List κ) :
    Roused place (Wakeups.signals waits cs c) := by
  induction cs generalizing waits with
  | nil => exact h
  | cons d cs ih => exact ih (h.signal_any d)

end EmotionStreamer.Wakeups
