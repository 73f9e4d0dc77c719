import Mathlib.Data.List.TakeWhile
import Mathlib.Data.Nat.Notation

/-! Streams with room for one item that is given back: reading an item, giving it back, and the
loop that reads items as long as they pass a test. -/
namespace EmotionStreamer.PushBack

variable {α : Type*}

/-- An item that has been given back, and those that have not been read yet. -/
structure Stream (α : Type*) where
  back : Option α
  rest : List α
  deriving DecidableEq, Repr

namespace Stream

/-- What is still to be read. -/
def pending (s : Stream α) : List α := s.back.toList ++ s.rest

/-- The next item, which is nothing at the end. -/
def get : Stream α → Option α × Stream α
  | ⟨some a, rest⟩ => (some a, ⟨none, rest⟩)
  | ⟨none, []⟩ => (none, ⟨none, []⟩)
  | ⟨none, a :: rest⟩ => (some a, ⟨none, rest⟩)

/-- The end is not given back, and there is no room for a second item. -/
def unget (s : Stream α) : Option α → Stream α
  | none => s
  | some a => if s.back.isNone then ⟨some a, s.rest⟩ else s

/-- The stream whose next item has been read and given back. -/
def peeked (items : List α) : Stream α := ⟨items.head?, items.tail⟩

@[simp] theorem pending_peeked (items : List α) : (peeked items).pending = items := by
  cases items <;> rfl

theorem get_eq (s : Stream α) : s.get = (s.pending.head?, ⟨none, s.pending.tail⟩) := by
  rcases s with ⟨_ | a, rest⟩
  · cases rest <;> rfl
  · rfl

@[simp] theorem get_peeked (items : List α) : (peeked items).get = (items.head?, ⟨none, items.tail⟩) := by
  rw [get_eq, pending_peeked]

@[simp] theorem unget_head (items : List α) :
    (⟨none, items.tail⟩ : Stream α).unget items.head? = peeked items := by
  cases items <;> rfl

theorem pending_get_lt {s t : Stream α} {a : α} (h : s.get = (some a, t)) :
    t.pending.length < s.pending.length := by
  rw [get_eq] at h
  obtain ⟨hhead, rfl⟩ := Prod.mk.inj h
  obtain ⟨items, hitems⟩ := List.head?_eq_some_iff.mp hhead
  rw [hitems, pending, Option.toList_none, List.nil_append, List.tail_cons, List.length_cons]
  exact Nat.lt_succ_self _

/-- The first item that does not pass the test, or the end. -/
def getWhile (p : α → Bool) (s : Stream α) : Option α × Stream α :=
  match _h : s.get with
  | (some a, t) => if p a then t.getWhile p else (some a, t)
  | (none, t) => (none, t)
termination_by s.pending.length
decreasing_by exact pending_get_lt _h

theorem getWhile_eq (p : α → Bool) (s : Stream α) : s.getWhile p =
    ((s.pending.dropWhile p).head?, ⟨none, (s.pending.dropWhile p).tail⟩) := by
  fun_induction getWhile p s with
  | case1 s a t hget hp ih =>
    rw [get_eq] at hget
    obtain ⟨hhead, rfl⟩ := Prod.mk.inj hget
    obtain ⟨items, hitems⟩ := List.head?_eq_some_iff.mp hhead
    rw [ih, hitems, List.dropWhile_cons, if_pos hp]
    rfl
  | case2 s a t hget hp =>
    rw [get_eq] at hget
    obtain ⟨hhead, rfl⟩ := Prod.mk.inj hget
    obtain ⟨items, hitems⟩ := List.head?_eq_some_iff.mp hhead
    rw [hitems, List.dropWhile_cons, if_neg hp]
    rfl
  | case3 s t hget =>
    rw [get_eq] at hget
    obtain ⟨hhead, rfl⟩ := Prod.mk.inj hget
    rw [List.head?_eq_none_iff.mp hhead]
    rfl

@[simp] theorem getWhile_fst (p : α → Bool) (s : Stream α) :
    (s.getWhile p).1 = (s.pending.dropWhile p).head? := by
  rw [getWhile_eq]

/-- A loop that gives the last item back leaves the stream in front of it. -/
@[simp] theorem unget_getWhile (p : α → Bool) (s : Stream α) :
    (s.getWhile p).2.unget (s.pending.dropWhile p).head? = peeked (s.pending.dropWhile p) := by
  rw [getWhile_eq]
  exact unget_head _

end Stream

end EmotionStreamer.PushBack
