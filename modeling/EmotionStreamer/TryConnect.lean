import EmotionStreamer.PortCircuit

/-! What `tryConnect` reports: the number of tries that are left when it has connected. -/
namespace EmotionStreamer.TryConnect
open PortMapper PortCircuit

/-- The result of `tryConnect` with `limit` in place of `MAX_TRIES`. -/
def tryConnect (limit : ℕ) (a : Attempt) : ℤ :=
  let numOfTries := (tryLoop a.connects limit none).1
  numOfTries - if a.inProgress ∧ numOfTries = 0 then 1 else 0

/-- `connect` succeeds at once, or the socket becomes writable without an error. -/
def Established (t : ConnectTry) : Prop := t = .connected ∨ t = .ready false

/-- The socket has an error, or is bound again after a timeout. -/
def Retried (t : ConnectTry) : Prop := t = .ready true ∨ t = .timedOut true

instance (t : ConnectTry) : Decidable (Established t) := inferInstanceAs (Decidable (_ ∨ _))
instance (t : ConnectTry) : Decidable (Retried t) := inferInstanceAs (Decidable (_ ∨ _))

/-- The attempts that are made with `left` tries left. -/
def attemptsMade (connects : ℕ → ConnectTry) : (left : ℕ) → List ConnectTry
  | 0 => []
  | left + 1 =>
    connects left :: if Retried (connects left) then attemptsMade connects left else []

def LastEstablished (connects : ℕ → ConnectTry) (limit : ℕ) : Prop :=
  ∃ t ∈ (attemptsMade connects limit).getLast?, Established t

/-- Whether `connection_attempt_circuit` returns with the socket instead of closing it. -/
def circuitKeeps (resultCon : ℤ) : Bool :=
  if resultCon = 0 then false else if 0 < resultCon then true else false

/-- The loop of `try_cache_connect` from address `i` on: the result, and the address whose
socket is not closed. -/
def tryCacheConnect (limit : ℕ) : (i : ℕ) → (result : ℤ) → List Attempt → ℤ × Option ℕ
  | _, result, [] => (result, none)
  | i, _, a :: attempts =>
    let result := tryConnect limit a
    if 0 < result then (result, some i) else tryCacheConnect limit (i + 1) result attempts

/-- A positive result is a connection, and both callers keep the sockets that have one. -/
structure Truthful (limit : ℕ) (a : Attempt) : Prop where
  positive : 0 < tryConnect limit a ↔ LastEstablished a.connects limit
  circuit : circuitKeeps (tryConnect limit a) = true ↔ LastEstablished a.connects limit
  cache : ∀ i result attempts,
    (tryCacheConnect limit i result (a :: attempts)).2 = some i ↔ LastEstablished a.connects limit

/-- The connection is there only when no try is left behind it. -/
structure LateSuccess (limit : ℕ) (connects : ℕ → ConnectTry) : Prop where
  pos : 0 < limit
  retried : ∀ left, 0 < left → left < limit → Retried (connects left)
  established : Established (connects 0)

variable {connects : ℕ → ConnectTry} {limit left : ℕ} {bound : Option ℕ} {a : Attempt}

theorem not_retried (h : Established (connects left)) : ¬Retried (connects left) := by
  rcases h with h | h <;> simp [h, Retried]

theorem tryLoop_established (h : Established (connects left)) :
    (tryLoop connects (left + 1) bound).1 = left := by
  rcases h with h | h <;> simp [h, tryLoop]

theorem tryLoop_retried (h : Retried (connects left)) :
    tryLoop connects (left + 1) bound = tryLoop connects left bound := by
  rcases h with h | h <;> simp [h, tryLoop]

theorem tryLoop_failed (hest : ¬Established (connects left)) (hret : ¬Retried (connects left)) :
    (tryLoop connects (left + 1) bound).1 = 0 := by
  rw [tryLoop]
  split <;> simp_all [Established, Retried]

/-- The port that the socket is bound to does not matter. -/
theorem tryLoop_fst (bound bound' : Option ℕ) :
    (tryLoop connects left bound).1 = (tryLoop connects left bound').1 := by
  induction left with
  | zero => rfl
  | succ left ih =>
    rw [tryLoop, tryLoop]
    split <;> first | rfl | exact ih

/-- The circuit calls `tryConnect` with the limit of the program. -/
theorem tryConnect_maxTries (a : Attempt) (port : ℕ) :
    (PortCircuit.tryConnect a port).1 = tryConnect maxTries a := by
  rw [PortCircuit.tryConnect, tryConnect, tryLoop_fst none (some port)]

theorem lastEstablished_stop (h : ¬Retried (connects left)) :
    LastEstablished connects (left + 1) ↔ Established (connects left) := by
  simp [LastEstablished, attemptsMade, h]

theorem lastEstablished_retried (h : Retried (connects left)) (hpos : 0 < left) :
    LastEstablished connects (left + 1) ↔ LastEstablished connects left := by
  obtain ⟨left, rfl⟩ := Nat.exists_eq_add_one.mpr hpos
  rw [LastEstablished, LastEstablished, attemptsMade, if_pos h, attemptsMade,
    List.getLast?_cons_cons]

theorem lateSuccess_retried (h : Retried (connects left)) (hpos : 0 < left) :
    LateSuccess (left + 1) connects ↔ LateSuccess left connects := by
  constructor
  · intro hlate
    exact ⟨hpos, fun k hk hlt => hlate.retried k hk (hlt.trans (Nat.lt_succ_self _)),
      hlate.established⟩
  · intro hlate
    refine ⟨Nat.succ_pos _, fun k hk hlt => ?_, hlate.established⟩
    rcases Nat.lt_succ_iff_lt_or_eq.mp hlt with hlt | rfl
    · exact hlate.retried k hk hlt
    · exact h

/-- The number of tries that are left tells a connection, unless it is the last one. -/
theorem tries_left_iff (connects : ℕ → ConnectTry) (left : ℕ) (bound : Option ℕ) :
    (0 < (tryLoop connects left bound).1 ↔ LastEstablished connects left) ↔
      ¬LateSuccess left connects := by
  induction left with
  | zero =>
    refine iff_of_true ?_ fun hlate => absurd hlate.pos (Nat.lt_irrefl 0)
    simp [tryLoop, LastEstablished, attemptsMade]
  | succ left ih =>
    by_cases hest : Established (connects left)
    · have hret := not_retried hest
      rw [tryLoop_established hest, lastEstablished_stop hret, iff_true_right hest]
      rcases Nat.eq_zero_or_pos left with rfl | hpos
      · have hlate : LateSuccess 1 connects := ⟨Nat.one_pos, fun k hk hlt => by omega, hest⟩
        exact iff_of_false (Nat.lt_irrefl 0) (not_not_intro hlate)
      · refine iff_of_true hpos fun hlate => hret ?_
        exact hlate.retried left hpos (Nat.lt_succ_self left)
    by_cases hret : Retried (connects left)
    · rw [tryLoop_retried hret]
      rcases Nat.eq_zero_or_pos left with rfl | hpos
      · refine iff_of_true ?_ fun hlate => hest hlate.established
        simp [tryLoop, LastEstablished, attemptsMade, hret, hest]
      · rw [lastEstablished_retried hret hpos, lateSuccess_retried hret hpos]
        exact ih
    · rw [tryLoop_failed hest hret, lastEstablished_stop hret]
      refine iff_of_true (by simp [hest]) fun hlate => ?_
      rcases Nat.eq_zero_or_pos left with rfl | hpos
      · exact hest hlate.established
      · exact hret (hlate.retried left hpos (Nat.lt_succ_self left))

theorem tryConnect_pos_iff (limit : ℕ) (a : Attempt) :
    0 < tryConnect limit a ↔ 0 < (tryLoop a.connects limit none).1 := by
  rw [tryConnect]
  split_ifs <;> omega

theorem circuitKeeps_iff (resultCon : ℤ) : circuitKeeps resultCon = true ↔ 0 < resultCon := by
  rw [circuitKeeps]
  split_ifs <;> simp <;> omega

theorem ite_circuitKeeps {α : Type*} (resultCon : ℤ) (kept closed : α) :
    (if resultCon = 0 then closed else if 0 < resultCon then kept else closed) =
      if circuitKeeps resultCon then kept else closed := by
  by_cases hzero : resultCon = 0
  · simp [circuitKeeps, hzero]
  · simp [circuitKeeps, hzero]

/-- An address from `i` on is not the address in front of it. -/
theorem tryCacheConnect_le {i k : ℕ} {result : ℤ} {attempts : List Attempt}
    (h : (tryCacheConnect limit i result attempts).2 = some k) : i ≤ k := by
  induction attempts generalizing i result with
  | nil => cases h
  | cons a attempts ih =>
    rw [tryCacheConnect] at h
    split_ifs at h
    · cases h
      exact Nat.le_refl _
    · exact (Nat.le_succ _).trans (ih h)

theorem tryCacheConnect_keeps_iff (i : ℕ) (result : ℤ) (attempts : List Attempt) :
    (tryCacheConnect limit i result (a :: attempts)).2 = some i ↔ 0 < tryConnect limit a := by
  rw [tryCacheConnect]
  split_ifs with hpos
  · exact iff_of_true rfl hpos
  · refine iff_of_false (fun hkept => ?_) hpos
    have hle := tryCacheConnect_le hkept
    omega

/-- What follows the sign of the result is the circuit's only decision on the socket. -/
theorem attemptLoop_tryConnect {env : Environment} {iface : Interface} {n curr port : ℕ}
    {c : Circuit} (hsocket : (iface.attempts curr).socketFails = false)
    (hport : c.attempted.port curr = .ok port) (hzero : port ≠ 0)
    (haddr : (iface.attempts curr).addrFails = false) (hdst : (iface.host, port) ≠ env.dst)
    (hbind : (iface.attempts curr).bindFails = false) :
    attemptLoop env iface (n + 1) curr c =
      if circuitKeeps (tryConnect maxTries (iface.attempts curr)) then do
        let (attempted, sent) ← sendPortsBack env.call (curr + 1) c.attempted
        return (⟨attempted, (PortCircuit.tryConnect (iface.attempts curr) port).2, c.sent ++ sent⟩,
          some (.connected (curr + 1)))
      else attemptLoop env iface n (curr + 1) { c with bound := none } := by
  rw [← tryConnect_maxTries _ port, ← ite_circuitKeeps]
  have hskip : ¬(port = 0 ∨ (iface.attempts curr).addrFails = true) := by simp [hzero, haddr]
  simp only [attemptLoop, hsocket, hport, hbind, Bool.false_eq_true, ↓reduceIte]
  change (if _ then _ else if _ then _ else if _ then _ else if _ then _ else _) = _
  rw [if_neg hskip, if_neg hdst]

/-- `tryConnect` tells the truth if and only if it does not connect with its last try. -/
theorem truthful_iff (limit : ℕ) (a : Attempt) :
    Truthful limit a ↔ ¬LateSuccess limit a.connects := by
  rw [← tries_left_iff a.connects limit none, ← tryConnect_pos_iff]
  constructor
  · exact Truthful.positive
  · intro hpositive
    exact ⟨hpositive, (circuitKeeps_iff _).trans hpositive,
      fun i result attempts => (tryCacheConnect_keeps_iff i result attempts).trans hpositive⟩

/-- Two timeouts, and then a connection that is closed again. -/
theorem third_try_is_closed : ¬ ∀ limit a, 0 < limit → Truthful limit a := by
  intro hclaim
  have htrue := hclaim maxTries
    ⟨false, false, false, fun left => if left = 0 then .connected else .timedOut true, false⟩
    (by decide)
  refine absurd (htrue.positive.mpr ⟨.connected, ?_, Or.inl rfl⟩) ?_
  · decide
  · decide

end EmotionStreamer.TryConnect
