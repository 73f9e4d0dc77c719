import EmotionStreamer.SockIo

/-! `readall` and `sendall` look at `errno` before they look at the result of the inner call,
also when that call has not set it. Two runs on the same outcomes differ only in the `errno`
that an earlier call has left. -/
namespace EmotionStreamer.StaleErrno
open SockIo

/-- The loop of both functions on the outcomes of the inner call: what is returned, and after
how many outcomes; `none` while the loop is still trying. -/
def allLoop (total : ℤ) : Errno → List Outcome → Option (ℤ × ℕ)
  | _, [] => none
  | errno, o :: outcomes =>
    let again errno := (allLoop total errno outcomes).map fun r => (r.1, r.2 + 1)
    let errno := o.errno.getD errno
    if o.ret < 0 then
      if errno = .again then again errno
      else if errno = .pipe then some (-2, 1)
      else if errno = .notConn then some (-1, 1)
      else if o.ret ≠ -2 then some (-1, 1)
      else again errno
    else some (total + o.ret, 1)

def readall : Errno → List Outcome → Option (ℤ × ℕ) := allLoop 0
def sendall : Errno → List Outcome → Option (ℤ × ℕ) := allLoop 0

/-- What an earlier call has left in `errno` changes neither function. -/
def Independent (outcomes : List Outcome) : Prop :=
  ∀ e e', readall e outcomes = readall e' outcomes ∧ sendall e outcomes = sendall e' outcomes

/-- The call has moved bytes, or found the end, or it has failed and set `errno`. -/
def Tells (o : Outcome) : Prop := 0 ≤ o.ret ∨ o.errno.isSome

variable {total : ℤ} {e e' : Errno} {o : Outcome} {outcomes : List Outcome}

/-- The loop is that of the socket layer, with the attempts it makes counted. -/
theorem allLoop_ret_eq (once : Attempt → Outcome) (total : ℤ) (e : Errno)
    (attempts : List Attempt) : (SockIo.allLoop once total e attempts).map Reported.ret =
      (allLoop total e (attempts.map once)).map Prod.fst := by
  induction attempts generalizing e with
  | nil => rfl
  | cons a attempts ih =>
    simp only [SockIo.allLoop, List.map_cons, allLoop]
    split_ifs
    · rw [ih, Option.map_map]
      rfl
    · rfl
    · rfl
    · rfl
    · rw [ih, Option.map_map]
      rfl
    · rfl

/-- After a call that tells, both runs go on alike. -/
theorem allLoop_of_tells (h : Tells o) :
    allLoop total e (o :: outcomes) = allLoop total e' (o :: outcomes) := by
  rcases h with hret | herrno
  · simp only [allLoop, Int.not_lt.mpr hret, ↓reduceIte]
  · obtain ⟨set, hset⟩ := Option.isSome_iff_exists.mp herrno
    simp only [allLoop, hset, Option.getD_some]

/-- Any failure that does not set `errno` is taken for a broken pipe after a broken pipe, and
for a missing connection after a missing connection. -/
theorem allLoop_of_silent (h : ¬Tells o) (total : ℤ) (outcomes : List Outcome) :
    allLoop total .pipe (o :: outcomes) = some (-2, 1) ∧
      allLoop total .notConn (o :: outcomes) = some (-1, 1) := by
  simp only [Tells, not_or, Int.not_le, Option.not_isSome_iff_eq_none] at h
  obtain ⟨hneg, hnone⟩ := h
  simp [allLoop, hneg, hnone]

/-- The functions do not depend on a stale `errno` if and only if the first inner call tells
how it went. -/
theorem independent_iff (outcomes : List Outcome) :
    Independent outcomes ↔ ∀ o ∈ outcomes.head?, Tells o := by
  cases outcomes with
  | nil =>
    refine iff_of_true (fun e e' => ⟨rfl, rfl⟩) fun o ho => ?_
    cases ho
  | cons o outcomes =>
    simp only [List.head?_cons, Option.mem_some_iff, forall_eq']
    constructor
    · intro hindep
      by_contra hsilent
      obtain ⟨hpipe, hconn⟩ := allLoop_of_silent hsilent 0 outcomes
      have hsame := (hindep .pipe .notConn).1
      rw [readall, hpipe, hconn] at hsame
      cases hsame
    · intro htells e e'
      exact ⟨allLoop_of_tells htells, allLoop_of_tells htells⟩

/-- After a broken pipe on another socket, a timeout of `select` ends `readall`. -/
theorem timeout_taken_for_pipe : ¬ ∀ outcomes, Independent outcomes := by
  intro hclaim
  have hsame := (hclaim [⟨-2, none⟩, ⟨5, none⟩] .none .pipe).1
  exact absurd hsame (by decide)

end EmotionStreamer.StaleErrno
