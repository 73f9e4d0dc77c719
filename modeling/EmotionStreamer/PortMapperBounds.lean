import EmotionStreamer.PortMapperOps
import EmotionStreamer.PortMapperService
import EmotionStreamer.LittleEndian

/-! Which payloads of return messages and which console commands make the port mapper
use an index outside its arrays. -/
namespace EmotionStreamer.PortMapper
open LittleEndian

/-- The 16-bit number at cell `i` of what `readsome` stored over zeros. -/
def cellAt (payload : List UInt8) (i : ℕ) : ℕ :=
  ofBytes [payload.getD (2 * i) 0, payload.getD (2 * i + 1) 0]

def PortArray.ofPayload (payload : List UInt8) : PortArray :=
  ⟨cellAt payload 0, (List.range defDatasize).map fun i => cellAt payload (i + 1), by simp⟩

/-- A table with one cell for each port, whatever the cells and the counter are. -/
structure Table (cfg : Config) where
  mapper : Mapper
  length_eq : mapper.portArr.length = cfg.numPorts

def rangeText (cfg : Config) : String :=
  "Port out of range!\nRange is between " ++ toString cfg.initPort ++ " and " ++
    toString (cfg.initPort + cfg.numPorts) ++ "\n"

def stateText (state : ℤ) : String :=
  (if state ≠ 0 then if 0 < state then "Taken" else "Reserved" else "Free") ++ "\n"

def checkPortFunc (cfg : Config) (m : Mapper) (port : ℕ) : Except Fault String :=
  if port < cfg.initPort ∨ cfg.initPort + cfg.numPorts < port then .ok (rangeText cfg)
  else do
    let state ← m.look ((port : ℤ) - cfg.initPort)
    return stateText state

/-- A return message, with the result of the `sendsome` that asks for its payload, or a
console command. -/
inductive Input
  | leave (sendResult : ℤ) (payload : List UInt8)
  | awkwardLeave (sendResult : ℤ) (payload : List UInt8)
  | check (port : UInt16)
  | kill (port : UInt16)

def leaveExchange (sendResult : ℤ) (payload : List UInt8) : Exchange :=
  ⟨portMapperLeaveString, sendResult, payload.length, .ofPayload payload, 0⟩

def awkwardLeaveExchange (sendResult : ℤ) (payload : List UInt8) : Exchange :=
  ⟨portMapperAwkwardLeaveString, sendResult, payload.length, .zero, cellAt payload 0⟩

/-- The table after an input, unless an index is outside its array. -/
def Input.handle (cfg : Config) (m : Mapper) : Input → Except Fault Mapper
  | .leave sendResult payload =>
    (acceptedConnectionThread cfg m (leaveExchange sendResult payload)).map (·.mapper)
  | .awkwardLeave sendResult payload =>
    (acceptedConnectionThread cfg m (awkwardLeaveExchange sendResult payload)).map (·.mapper)
  | .check port => (checkPortFunc cfg m port.toNat).map fun _ => m
  | .kill port => (closeSinglePort cfg m port.toNat).map (·.2)

/-- Where the notification stands before the line of entry `i`. -/
def notificationOffset (arr : PortArray) : ℕ → ℕ
  | 0 => 0
  | i + 1 => notificationOffset arr i + (notificationLine i (arr.ports.getD i 0)).length

/-- The lines before the last one fill at most the buffer, and the ports are in range
unless the table is empty. -/
def Input.Safe (cfg : Config) (m : Mapper) : Input → Prop
  | .leave sendResult payload => 0 < sendResult → payload ≠ [] →
      notificationOffset (.ofPayload payload) (cellAt payload 0 - 1) ≤ defDatasize ∧
        (isEmpty m = true ∨ ∀ p ∈ (PortArray.ofPayload payload).announced, InRange cfg p)
  | .awkwardLeave sendResult payload => 0 < sendResult → payload ≠ [] →
      isEmpty m = true ∨ InRange cfg (cellAt payload 0)
  | .check port => port.toNat ≠ cfg.initPort + cfg.numPorts
  | .kill port => isEmpty m = true ∨ InRange cfg port.toNat

variable {cfg : Config} {m : Mapper} {arr : PortArray} {n i p : ℕ}

theorem line_length (i port : ℕ) : 6 ≤ (notificationLine i port).length := by
  simp only [notificationLine, String.length_append]
  have : "Porta ".length = 6 := rfl
  omega

theorem le_notificationOffset (arr : PortArray) (i : ℕ) : 6 * i ≤ notificationOffset arr i := by
  induction i with
  | zero => exact Nat.le_refl 0
  | succ i ih =>
    have := line_length i (arr.ports.getD i 0)
    rw [notificationOffset]
    omega

theorem notificationOffset_mono (arr : PortArray) {i j : ℕ} (h : i ≤ j) :
    notificationOffset arr i ≤ notificationOffset arr j := by
  induction j, h using Nat.le_induction with
  | base => exact Nat.le_refl _
  | succ j _ ih => exact ih.trans (Nat.le_add_right _ _)

theorem port_ok (h : i < defDatasize) : arr.port i = .ok (arr.ports.getD i 0) := by
  have hi : i < arr.ports.length := arr.length_ports ▸ h
  simp only [PortArray.port, List.getElem?_eq_getElem hi, List.getD_eq_getElem?_getD,
    Option.getD_some]

/-- The lines are written inside the buffer when the last of them starts inside it. -/
theorem notificationLoop_iff (arr : PortArray) (n i : ℕ) :
    (∃ off, notificationLoop arr n i (notificationOffset arr i) = .ok off) ↔
      n = 0 ∨ notificationOffset arr (i + n - 1) ≤ defDatasize := by
  induction n generalizing i with
  | zero => exact iff_of_true ⟨_, rfl⟩ (Or.inl rfl)
  | succ n ih =>
    have hmono := notificationOffset_mono arr (show i ≤ i + (n + 1) - 1 by omega)
    have hlow := le_notificationOffset arr i
    by_cases hin : notificationOffset arr i ≤ defDatasize
    · have hport : arr.port i = .ok (arr.ports.getD i 0) := port_ok (by
        simp only [defDatasize] at hin ⊢
        omega)
      have hstep : notificationLoop arr (n + 1) i (notificationOffset arr i) =
          notificationLoop arr n (i + 1) (notificationOffset arr (i + 1)) := by
        simp only [notificationLoop, hport, hin, ↓reduceIte, bind, Except.bind, notificationOffset]
      rw [hstep, ih (i + 1), show i + 1 + n - 1 = i + (n + 1) - 1 by omega]
      refine ⟨fun h => Or.inr ?_, fun h => Or.inr (h.resolve_left (Nat.succ_ne_zero n))⟩
      rcases h with rfl | h
      · exact hin
      · exact h
    · refine iff_of_false ?_ ?_
      · rintro ⟨off, hrun⟩
        simp only [notificationLoop, hin, ↓reduceIte, bind, Except.bind] at hrun
        split at hrun <;> cases hrun
      · rintro (h | h)
        · exact Nat.succ_ne_zero n h
        · exact hin (hmono.trans h)

theorem look_iff (m : Mapper) (j : ℤ) :
    (∃ v, m.look j = .ok v) ↔ 0 ≤ j ∧ j.toNat < m.portArr.length := by
  unfold Mapper.look
  by_cases hj : 0 ≤ j
  · cases hc : m.portArr[j.toNat]? with
    | none =>
      have := List.getElem?_eq_none_iff.mp hc
      simp only [hj, ↓reduceIte, reduceCtorEq, exists_false, true_and, false_iff]
      omega
    | some v =>
      have := (List.getElem?_eq_some_iff.mp hc).1
      simp only [hj, ↓reduceIte, Except.ok.injEq, exists_eq', true_and, true_iff]
      exact this
  · simp only [hj, ↓reduceIte, reduceCtorEq, exists_false, false_and]

/-- The one cell that an operation looks at first is inside the table. -/
theorem look_port_iff (h : m.portArr.length = cfg.numPorts) (p : ℕ) :
    (∃ v, m.look ((p : ℤ) - cfg.initPort) = .ok v) ↔ InRange cfg p := by
  rw [look_iff, h, InRange]
  omega

theorem closeCell_iff (h : m.portArr.length = cfg.numPorts) (p : ℕ) :
    (∃ r, closeCell cfg m p = .ok r) ↔ InRange cfg p := by
  refine ⟨fun ⟨r, hr⟩ => ?_, fun hin => ?_⟩
  · rw [← look_port_iff h]
    simp only [closeCell] at hr
    cases hl : m.look ((p : ℤ) - cfg.initPort) with
    | ok v => exact ⟨v, rfl⟩
    | error f =>
      rw [hl] at hr
      cases hr
  · obtain ⟨k, hk, rfl⟩ := inRange_cell hin
    exact ⟨_, closeCell_eq (h ▸ hk)⟩

theorem closeSinglePort_iff (h : m.portArr.length = cfg.numPorts) (p : ℕ) :
    (∃ r, closeSinglePort cfg m p = .ok r) ↔ isEmpty m = true ∨ InRange cfg p := by
  unfold closeSinglePort
  cases isEmpty m with
  | true => exact iff_of_true ⟨_, rfl⟩ (Or.inl rfl)
  | false =>
    rw [if_neg Bool.false_ne_true, closeCell_iff h]
    simp

/-- Entries of the array, closed one after another. -/
theorem closeLoop_iff (h : m.portArr.length = cfg.numPorts) (hi : i + n ≤ defDatasize) :
    (∃ m', closeLoop cfg arr n i m = .ok m') ↔ ∀ p ∈ (arr.ports.drop i).take n, InRange cfg p := by
  induction n generalizing i m with
  | zero => simp [closeLoop]
  | succ n ih =>
    have hlt : i < arr.ports.length := arr.length_ports.symm ▸ (by omega)
    have hport : arr.port i = .ok arr.ports[i] := by
      simp only [PortArray.port, List.getElem?_eq_getElem hlt]
    rw [List.drop_eq_getElem_cons hlt, List.take_succ_cons, List.forall_mem_cons]
    by_cases hin : InRange cfg arr.ports[i]
    · obtain ⟨k, hk, hp⟩ := inRange_cell hin
      have hstep : closeLoop cfg arr (n + 1) i m = closeLoop cfg arr n (i + 1) (m.close k) := by
        have hcell : closeCell cfg m (cfg.initPort + k) = _ := closeCell_eq (h ▸ hk)
        simp only [closeLoop, hport, hp, bind, Except.bind, hcell]
      rw [hstep, ih ((close_length m k).trans h) (by omega)]
      simp only [hin, true_and]
    · refine iff_of_false ?_ fun hall => hin hall.1
      rintro ⟨m', hrun⟩
      simp only [closeLoop, hport, bind, Except.bind] at hrun
      cases hc : closeCell cfg m arr.ports[i] with
      | ok r => exact hin ((closeCell_iff h _).mp ⟨r, hc⟩)
      | error f =>
        rw [hc] at hrun
        cases hrun

theorem closePorts_iff (h : m.portArr.length = cfg.numPorts) (hcount : arr.count ≤ defDatasize) :
    (∃ m', closePorts cfg m arr = .ok m') ↔
      isEmpty m = true ∨ ∀ p ∈ arr.announced, InRange cfg p := by
  unfold closePorts
  cases isEmpty m with
  | true => exact iff_of_true ⟨_, rfl⟩ (Or.inl rfl)
  | false =>
    rw [if_neg Bool.false_ne_true, closeLoop_iff h (by omega), List.drop_zero, PortArray.announced]
    simp

theorem map_ok_iff {α β : Type*} (f : α → β) (e : Except Fault α) :
    (∃ b, e.map f = .ok b) ↔ ∃ a, e = .ok a := by
  cases e with
  | error err => simp [Except.map]
  | ok a => exact iff_of_true ⟨f a, rfl⟩ ⟨a, rfl⟩

theorem bind_ok_iff {α β : Type*} (f : α → β) (e : Except Fault α) :
    (∃ b, (e.bind fun a => .ok (f a)) = .ok b) ↔ ∃ a, e = .ok a := by
  cases e with
  | error err => simp [Except.bind]
  | ok a => exact iff_of_true ⟨f a, rfl⟩ ⟨a, rfl⟩

theorem payload_pos {payload : List UInt8} : ¬(payload.length : ℤ) ≤ 0 ↔ payload ≠ [] := by
  rw [← List.length_pos_iff]
  omega

theorem closePortsFromClient_iff (h : m.portArr.length = cfg.numPorts) {x : Exchange}
    (hs : 0 < x.sendResult) (hr : ¬x.readResult ≤ 0) :
    (∃ m', closePortsFromClient cfg m x = .ok m') ↔
      notificationOffset x.portArr (x.portArr.count - 1) ≤ defDatasize ∧
        (isEmpty m = true ∨ ∀ p ∈ x.portArr.announced, InRange cfg p) := by
  have hloop := notificationLoop_iff x.portArr x.portArr.count 0
  simp only [notificationOffset, Nat.zero_add] at hloop
  simp only [closePortsFromClient, Int.not_le.mpr hs, hr, ↓reduceIte]
  by_cases hfit : notificationOffset x.portArr (x.portArr.count - 1) ≤ defDatasize
  · have hlow := le_notificationOffset x.portArr (x.portArr.count - 1)
    have hcount : x.portArr.count ≤ defDatasize := by
      simp only [defDatasize] at hfit ⊢
      omega
    obtain ⟨off, hoff⟩ := hloop.mpr (Or.inr hfit)
    rw [← closePorts_iff h hcount]
    simp only [hoff, hfit, bind, Except.bind, true_and]
  · have hpos : x.portArr.count ≠ 0 := by
      intro hzero
      rw [hzero] at hfit
      exact hfit (Nat.zero_le _)
    refine iff_of_false ?_ fun hall => hfit hall.1
    rintro ⟨m', hrun⟩
    cases hl : notificationLoop x.portArr x.portArr.count 0 0 with
    | ok off => exact (hloop.mp ⟨off, hl⟩).elim hpos hfit
    | error f =>
      rw [hl] at hrun
      cases hrun

theorem closeSinglePortFromClient_iff (h : m.portArr.length = cfg.numPorts) {x : Exchange}
    (hs : 0 < x.sendResult) (hr : ¬x.readResult ≤ 0) :
    (∃ m', closeSinglePortFromClient cfg m x = .ok m') ↔
      isEmpty m = true ∨ InRange cfg x.port := by
  rw [← closeSinglePort_iff h]
  simp only [closeSinglePortFromClient, Int.not_le.mpr hs, hr, ↓reduceIte]
  exact bind_ok_iff (fun r : Bool × Mapper => r.2) _

/-- The port right behind the last one passes the range test. -/
theorem checkPortFunc_iff (h : m.portArr.length = cfg.numPorts) (port : ℕ) :
    (∃ text, checkPortFunc cfg m port = .ok text) ↔ port ≠ cfg.initPort + cfg.numPorts := by
  unfold checkPortFunc
  split_ifs with hout
  · exact iff_of_true ⟨_, rfl⟩ (by omega)
  · have hin : InRange cfg port ↔ port ≠ cfg.initPort + cfg.numPorts := by
      rw [InRange]
      omega
    rw [← hin, ← look_port_iff h]
    exact bind_ok_iff _ _

/-- A message without its payload leaves the table alone. -/
theorem leave_silent {x : Exchange} (h : x.sendResult ≤ 0 ∨ x.readResult ≤ 0) :
    closePortsFromClient cfg m x = .ok m ∧ closeSinglePortFromClient cfg m x = .ok m := by
  unfold closePortsFromClient closeSinglePortFromClient
  by_cases hs : x.sendResult ≤ 0
  · simp only [hs, ↓reduceIte]
    exact ⟨rfl, rfl⟩
  · simp only [hs, h.resolve_left hs, ↓reduceIte]
    exact ⟨rfl, rfl⟩

theorem silent_or_sent (sendResult : ℤ) (payload : List UInt8) :
    (sendResult ≤ 0 ∨ (payload.length : ℤ) ≤ 0) ∧ ¬(0 < sendResult ∧ payload ≠ []) ∨
      0 < sendResult ∧ payload ≠ [] := by
  by_cases hs : 0 < sendResult ∧ payload ≠ []
  · exact Or.inr hs
  · refine Or.inl ⟨?_, hs⟩
    rw [← payload_pos] at hs
    omega

/-- An input keeps every index inside its array if and only if it is safe. -/
theorem handle_ok_iff (t : Table cfg) (input : Input) :
    (∃ m', input.handle cfg t.mapper = .ok m') ↔ input.Safe cfg t.mapper := by
  cases input with
  | leave sendResult payload =>
    have hkind : requestKind portMapperLeaveString = .leave := by decide
    simp only [Input.handle, map_ok_iff, acceptedConnectionThread, leaveExchange, hkind]
    refine (bind_ok_iff (fun m => (⟨m, .none, false⟩ : Handled)) _).trans ?_
    rcases silent_or_sent sendResult payload with ⟨hsilent, hnot⟩ | ⟨hs, hp⟩
    · exact iff_of_true ⟨t.mapper, (leave_silent hsilent).1⟩ fun hs hp => absurd ⟨hs, hp⟩ hnot
    · rw [closePortsFromClient_iff t.length_eq hs (payload_pos.mpr hp)]
      exact ⟨fun h _ _ => h, fun h => h hs hp⟩
  | awkwardLeave sendResult payload =>
    have hkind : requestKind portMapperAwkwardLeaveString = .awkwardLeave := by decide
    simp only [Input.handle, map_ok_iff, acceptedConnectionThread, awkwardLeaveExchange, hkind]
    refine (bind_ok_iff (fun m => (⟨m, .none, false⟩ : Handled)) _).trans ?_
    rcases silent_or_sent sendResult payload with ⟨hsilent, hnot⟩ | ⟨hs, hp⟩
    · exact iff_of_true ⟨t.mapper, (leave_silent hsilent).2⟩ fun hs hp => absurd ⟨hs, hp⟩ hnot
    · rw [closeSinglePortFromClient_iff t.length_eq hs (payload_pos.mpr hp)]
      exact ⟨fun h _ _ => h, fun h => h hs hp⟩
  | check port => rw [Input.handle, map_ok_iff, checkPortFunc_iff t.length_eq, Input.Safe]
  | kill port => rw [Input.handle, map_ok_iff, closeSinglePort_iff t.length_eq, Input.Safe]

/-- The console command `c` with the port behind the last one. -/
theorem check_behind_table : ¬ ∀ (cfg : Config) (t : Table cfg) (input : Input),
    ∃ m', input.handle cfg t.mapper = .ok m' := by
  intro h
  obtain ⟨m', hm⟩ := h ninePorts ⟨.start ninePorts, rfl⟩ (.check 11016)
  cases hm

end EmotionStreamer.PortMapper
