import EmotionStreamer.PortMapperState
import Mathlib.Data.List.Nodup

/-! `connection_attempt_circuit`: the ports of a grant are tried on one network interface
after the other, and `send_ports_back` returns all of them but the one that works. The
port that works is known by its place in the array. -/
namespace EmotionStreamer.PortCircuit
open PortMapper

/-- One `connect` of `tryConnect` and what `select` says when it is under way; a socket
that times out is bound again, or cannot be. -/
inductive ConnectTry
  | connected
  | failed
  | ready (sockerr : Bool)
  | selectFailed
  | timedOut (rebound : Bool)
  deriving DecidableEq, Repr

/-- The outcomes for one port: `connects` by the number of tries left, and whether
`errno` is `EINPROGRESS` at the end. -/
structure Attempt where
  socketFails : Bool
  addrFails : Bool
  bindFails : Bool
  connects : ℕ → ConnectTry
  inProgress : Bool

inductive Family
  | null | other | inet
  deriving DecidableEq, Repr

/-- `host` is the numeric address, which `init_addr` combines with a port. -/
structure Interface where
  family : Family
  nameinfoFails : Bool
  host : ℕ
  attempts : ℕ → Attempt

/-- The outcomes of `send_ports_back` up to the sending of the array. -/
structure MapperCall where
  socketFails : Bool
  addrFails : Bool
  connected : ℤ
  requested : ℤ
  replied : ℤ
  returned : ℤ

/-- `asked` is the array that `ask_for_ports` stores, if it arrives. -/
structure Environment where
  getifaddrsFails : Bool
  asked : Option PortArray
  interfaces : List Interface
  dst : ℕ × ℕ
  call : MapperCall

/-- `attempted_port_arr`, the port that `socket_fd` is bound to, and what the port mapper
got back. -/
structure Circuit where
  attempted : PortArray
  bound : Option ℕ
  sent : List PortArray

/-- The circuit returns with a socket, or calls the quit handler. -/
inductive Outcome
  | connected (k : ℕ)
  | quit
  deriving DecidableEq, Repr

def maxTries : ℕ := 3

/-- The loop of `tryConnect` with `left` tries left: `numOfTries` when it ends, and the
port that the socket is bound to then. -/
def tryLoop (connects : ℕ → ConnectTry) : (left : ℕ) → Option ℕ → ℕ × Option ℕ
  | 0, bound => (0, bound)
  | left + 1, bound =>
    match connects left with
    | .connected => (left, bound)
    | .failed => (0, bound)
    | .ready false => (left, bound)
    | .ready true => tryLoop connects left bound
    | .selectFailed => (0, bound)
    | .timedOut true => tryLoop connects left bound
    | .timedOut false => (0, none)

def tryConnect (a : Attempt) (port : ℕ) : ℤ × Option ℕ :=
  let (numOfTries, bound) := tryLoop a.connects maxTries (some port)
  (numOfTries - if a.inProgress ∧ numOfTries = 0 then 1 else 0, bound)

/-- `memmove` of `len` cells of a `port_array`, whose cells behind the count are the
ports. -/
def memmove (arr : PortArray) (dst src : ℕ) (len : ℤ) : Except Fault PortArray :=
  if h : 0 < dst ∧ 0 < src ∧ 0 ≤ len ∧ dst + len ≤ defDatasize + 1 ∧ src + len ≤ defDatasize + 1 then
    .ok { arr with
      ports := arr.ports.take (dst - 1) ++ ((arr.ports.drop (src - 1)).take len.toNat ++
        arr.ports.drop (dst - 1 + len.toNat))
      length_ports := by
        have hlen := arr.length_ports
        simp only [List.length_append, List.length_take, List.length_drop, defDatasize] at h hlen ⊢
        omega }
  else .error (.portArray (src + len.toNat))

/-- The array afterwards, and the array that the port mapper receives, if it does. -/
def sendPortsBack (call : MapperCall) (portThatWorks : ℕ) (arr : PortArray) :
    Except Fault (PortArray × List PortArray) :=
  if arr.count = 0 then .ok (arr, [])
  else if call.socketFails then .ok (arr, [])
  else if call.addrFails then .ok (arr, [])
  else if call.connected ≤ 0 then .ok (arr, [])
  else if call.requested ≤ 0 then .ok (arr, [])
  else if call.replied ≤ 0 then .ok (arr, [])
  else do
    let arr := { arr with count := arr.count - if portThatWorks ≠ 0 then 1 else 0 }
    let arr ← if portThatWorks ≠ 0 then
        memmove arr portThatWorks (portThatWorks + 1) ((arr.count : ℤ) - portThatWorks + 1)
      else .ok arr
    return (.zero, if call.returned ≤ 0 then [] else [arr])

/-- The attempts on one interface, with `n` ports left of which the first is at `curr`;
without an outcome, the next interface is tried. -/
def attemptLoop (env : Environment) (iface : Interface) :
    (n curr : ℕ) → Circuit → Except Fault (Circuit × Option Outcome)
  | 0, _, c => .ok (c, none)
  | n + 1, curr, c =>
    let a := iface.attempts curr
    if a.socketFails then .ok ({ c with bound := none }, some .quit)
    else do
      let port ← c.attempted.port curr
      if port = 0 ∨ a.addrFails then attemptLoop env iface n (curr + 1) { c with bound := none }
      else if (iface.host, port) = env.dst then
        attemptLoop env iface n (curr + 1) { c with bound := none }
      else if a.bindFails then attemptLoop env iface n (curr + 1) { c with bound := none }
      else if (tryConnect a port).1 = 0 then
        attemptLoop env iface n (curr + 1) { c with bound := none }
      else if 0 < (tryConnect a port).1 then do
        let (attempted, sent) ← sendPortsBack env.call (curr + 1) c.attempted
        return (⟨attempted, (tryConnect a port).2, c.sent ++ sent⟩, some (.connected (curr + 1)))
      else attemptLoop env iface n (curr + 1) { c with bound := none }

def interfaceLoop (env : Environment) (limit : ℕ) :
    List Interface → Circuit → Except Fault (Circuit × Outcome)
  | [], c => .ok (c, .quit)
  | iface :: rest, c =>
    if iface.family ≠ .inet then interfaceLoop env limit rest c
    else if iface.nameinfoFails then .ok (c, .quit)
    else do
      let (c, outcome) ← attemptLoop env iface limit 0 c
      match outcome with
      | some o => return (c, o)
      | none => interfaceLoop env limit rest c

def connectionAttemptCircuit (env : Environment) (attempted : PortArray) :
    Except Fault (Circuit × Outcome) :=
  if env.getifaddrsFails then .ok (⟨attempted, none, []⟩, .quit)
  else
    let attempted := env.asked.getD attempted
    interfaceLoop env attempted.count env.interfaces ⟨attempted, none, []⟩

/-- What the port mapper may grant. -/
structure Grant where
  arr : PortArray
  count_le : arr.count ≤ defDatasize
  nodup : arr.announced.Nodup
  nonzero : ∀ p ∈ arr.announced, p ≠ 0

/-- The messages of `send_ports_back` arrive. -/
def MapperCall.Delivers (call : MapperCall) : Prop :=
  call.socketFails = false ∧ call.addrFails = false ∧ 0 < call.connected ∧ 0 < call.requested ∧
    0 < call.replied ∧ 0 < call.returned

variable {env : Environment} {iface : Interface} {call : MapperCall} {arr : PortArray} {g : Grant}
  {c : Circuit} {k : ℕ}

/-- A socket with which `tryConnect` succeeds is bound to the port it had. -/
theorem tryLoop_bound {connects : ℕ → ConnectTry} {left : ℕ} {bound : Option ℕ}
    (h : 0 < (tryLoop connects left bound).1) : (tryLoop connects left bound).2 = bound := by
  induction left with
  | zero => exact absurd h (Nat.lt_irrefl 0)
  | succ left ih =>
    unfold tryLoop at h ⊢
    split at h
    · rfl
    · exact absurd h (Nat.lt_irrefl 0)
    · rfl
    · exact ih h
    · exact absurd h (Nat.lt_irrefl 0)
    · exact ih h
    · exact absurd h (Nat.lt_irrefl 0)

theorem tryConnect_bound {a : Attempt} {port : ℕ} (h : 0 < (tryConnect a port).1) :
    (tryConnect a port).2 = some port := by
  have hpos : 0 < (tryLoop a.connects maxTries (some port)).1 := by
    simp only [tryConnect] at h
    omega
  exact tryLoop_bound hpos

theorem memmove_announced {n : ℕ} (hk : 0 < k) (hle : k ≤ n) (hn : n ≤ defDatasize)
    (hcount : arr.count = n - 1) : ∃ moved,
      memmove arr k (k + 1) ((arr.count : ℤ) - k + 1) = .ok moved ∧
        moved.announced = (arr.ports.take n).eraseIdx (k - 1) := by
  have hlen := arr.length_ports
  have hcells : (((n - 1 : ℕ) : ℤ) - k + 1).toNat = n - k := by omega
  have hfits : 0 < k ∧ 0 < k + 1 ∧ 0 ≤ (arr.count : ℤ) - k + 1 ∧
      (k : ℤ) + ((arr.count : ℤ) - k + 1) ≤ defDatasize + 1 ∧
      ((k + 1 : ℕ) : ℤ) + ((arr.count : ℤ) - k + 1) ≤ defDatasize + 1 := by
    simp only [defDatasize] at hn ⊢
    omega
  refine ⟨_, dif_pos hfits, ?_⟩
  simp only [PortArray.announced, hcount, hcells, Nat.add_sub_cancel]
  rw [List.eraseIdx_eq_take_drop_succ, List.take_take, List.drop_take,
    Nat.sub_add_cancel hk, Nat.min_eq_left (show k - 1 ≤ n by omega), ← List.append_assoc]
  apply List.take_left'
  simp only [List.length_append, List.length_take, List.length_drop]
  omega

theorem MapperCall.Delivers.eq (h : call.Delivers) (k : ℕ) (hpos : arr.count ≠ 0) :
    sendPortsBack call k arr = (do
      let arr := { arr with count := arr.count - if k ≠ 0 then 1 else 0 }
      let arr ← if k ≠ 0 then memmove arr k (k + 1) ((arr.count : ℤ) - k + 1) else .ok arr
      return (.zero, [arr])) := by
  obtain ⟨hsock, haddr, hcon, hreq, hrep, hret⟩ := h
  simp only [sendPortsBack, hpos, hsock, haddr, Int.not_le.mpr hcon, Int.not_le.mpr hreq,
    Int.not_le.mpr hrep, Int.not_le.mpr hret, Bool.false_eq_true, ↓reduceIte]

/-- The array goes back without its `k`-th port. -/
theorem sendPortsBack_works (h : call.Delivers) (hcount : arr.count ≤ defDatasize) (hk : 0 < k)
    (hle : k ≤ arr.count) : ∃ sent, sendPortsBack call k arr = .ok (.zero, [sent]) ∧
      sent.announced = arr.announced.eraseIdx (k - 1) := by
  obtain ⟨moved, hmove, hann⟩ := memmove_announced hk hle hcount
    (show ({ arr with count := arr.count - 1 } : PortArray).count = arr.count - 1 from rfl)
  refine ⟨moved, ?_, hann⟩
  rw [h.eq k (by omega)]
  simp only [hk.ne', ne_eq, not_false_eq_true, ↓reduceIte, hmove, bind, Except.bind, pure, Except.pure]

/-- Without a port that works, all of them go back. -/
theorem sendPortsBack_all (h : call.Delivers) (arr : PortArray) : ∃ after sent,
    sendPortsBack call 0 arr = .ok (after, sent) ∧
      sent.flatMap PortArray.announced = arr.announced := by
  by_cases hzero : arr.count = 0
  · refine ⟨arr, [], by rw [sendPortsBack, if_pos hzero], ?_⟩
    rw [PortArray.announced, hzero, List.take_zero, List.flatMap_nil]
  · refine ⟨.zero, [arr], by rw [h.eq 0 hzero]; rfl, ?_⟩
    rw [List.flatMap_singleton]

/-- What a grant has become when the circuit ends: with a socket on its `k`-th port, all
the others went back; otherwise none did. -/
def Conserved (g : Grant) (c : Circuit) : Outcome → Prop
  | .connected k => 0 < k ∧ k ≤ g.arr.count ∧ c.bound = g.arr.announced[k - 1]? ∧
      c.attempted = .zero ∧ ∃ sent, c.sent = [sent] ∧
        sent.announced = g.arr.announced.eraseIdx (k - 1) ∧
        ∀ p, c.bound = some p → p ∉ sent.announced
  | .quit => c.sent = [] ∧ c.attempted = g.arr

theorem announced_getElem? {i : ℕ} (h : i < g.arr.count) :
    ∃ p, g.arr.port i = .ok p ∧ g.arr.announced[i]? = some p := by
  have hle := g.count_le
  have hi : i < g.arr.ports.length := g.arr.length_ports ▸ (by omega)
  refine ⟨g.arr.ports[i], ?_, ?_⟩
  · simp only [PortArray.port, List.getElem?_eq_getElem hi]
  · rw [PortArray.announced, List.getElem?_take_of_lt h, List.getElem?_eq_getElem hi]

/-- The attempt that succeeds. -/
theorem works_conserved (hd : env.call.Delivers) {curr p : ℕ} {a : Attempt}
    (hlt : curr < g.arr.count) (hann : g.arr.announced[curr]? = some p)
    (hpos : 0 < (tryConnect a p).1) : ∃ sent,
      sendPortsBack env.call (curr + 1) g.arr = .ok (.zero, [sent]) ∧
        Conserved g ⟨.zero, (tryConnect a p).2, [sent]⟩ (.connected (curr + 1)) := by
  obtain ⟨sent, hback, hsent⟩ := sendPortsBack_works (k := curr + 1) hd g.count_le (Nat.succ_pos curr) hlt
  rw [Nat.add_sub_cancel] at hsent
  refine ⟨sent, hback, Nat.succ_pos curr, hlt, ?_, rfl, sent, rfl, hsent, fun q hq hmem => ?_⟩
  · rw [tryConnect_bound hpos, Nat.add_sub_cancel, hann]
  · rw [tryConnect_bound hpos] at hq
    cases hq
    rw [hsent, List.mem_eraseIdx_iff_getElem?] at hmem
    obtain ⟨j, hj, hget⟩ := hmem
    have hjl := (List.getElem?_eq_some_iff.mp hget).1
    exact hj ((List.getElem?_inj hjl g.nodup).mp (hget.trans hann.symm))

variable (iface) in
/-- Step lemma of the attempts: the grant is whole until an attempt succeeds. -/
theorem attemptLoop_conserved (hd : env.call.Delivers) (n curr : ℕ) (hn : curr + n = g.arr.count)
    (bound : Option ℕ) : ∃ c o, attemptLoop env iface n curr ⟨g.arr, bound, []⟩ = .ok (c, o) ∧
      (o = none → c.attempted = g.arr ∧ c.sent = []) ∧ ∀ out, o = some out → Conserved g c out := by
  induction n generalizing curr bound with
  | zero => exact ⟨_, none, rfl, fun _ => ⟨rfl, rfl⟩, fun _ ho => by cases ho⟩
  | succ n ih =>
    obtain ⟨p, hport, hann⟩ := announced_getElem? (g := g) (show curr < g.arr.count by omega)
    have hnext := ih (curr + 1) (by omega) none
    simp only [attemptLoop, hport, bind, Except.bind]
    split_ifs with hsock haddr hsame hbind hzero hpos
    · refine ⟨_, _, rfl, fun ho => (by cases ho), fun out ho => ?_⟩
      cases ho
      exact ⟨rfl, rfl⟩
    · exact hnext
    · exact hnext
    · exact hnext
    · exact hnext
    · obtain ⟨sent, hback, hcons⟩ := works_conserved hd (show curr < g.arr.count by omega) hann hpos
      rw [hback]
      refine ⟨_, _, rfl, fun ho => (by cases ho), fun out ho => ?_⟩
      cases ho
      exact hcons
    · exact hnext

theorem interfaceLoop_conserved (hd : env.call.Delivers) (ifaces : List Interface)
    (hatt : c.attempted = g.arr) (hsent : c.sent = []) : ∃ c' o,
      interfaceLoop env g.arr.count ifaces c = .ok (c', o) ∧ Conserved g c' o := by
  induction ifaces generalizing c with
  | nil => exact ⟨c, .quit, rfl, hsent, hatt⟩
  | cons iface rest ih =>
    rw [interfaceLoop]
    split_ifs with hfam hname
    · exact ih hatt hsent
    · exact ⟨c, .quit, rfl, hsent, hatt⟩
    · obtain ⟨c', o, hloop, hnone, hsome⟩ := attemptLoop_conserved iface hd g.arr.count 0
        (Nat.zero_add _) c.bound
      have hc : c = ⟨g.arr, c.bound, []⟩ := by rw [← hatt, ← hsent]
      rw [hc, hloop]
      cases o with
      | none =>
        obtain ⟨hatt', hsent'⟩ := hnone rfl
        exact ih hatt' hsent'
      | some out => exact ⟨c', out, rfl, hsome out rfl⟩

/-- Whatever the interfaces and the outcomes of the attempts are, the circuit conserves a
grant, and without a port that works the whole grant goes back. -/
theorem circuit_conserves (env : Environment) (g : Grant) (attempted : PortArray)
    (hif : env.getifaddrsFails = false) (hask : env.asked = some g.arr) (hd : env.call.Delivers) :
    (∃ c o, connectionAttemptCircuit env attempted = .ok (c, o) ∧ Conserved g c o) ∧
      ∃ after sent, sendPortsBack env.call 0 g.arr = .ok (after, sent) ∧
        sent.flatMap PortArray.announced = g.arr.announced := by
  refine ⟨?_, sendPortsBack_all hd g.arr⟩
  simp only [connectionAttemptCircuit, hif, hask, Bool.false_eq_true, ↓reduceIte, Option.getD_some]
  exact interfaceLoop_conserved hd env.interfaces rfl rfl

def threePorts : PortArray :=
  ⟨3, [11007, 11008, 11009] ++ List.replicate 253 0, by
    rw [List.length_append, List.length_replicate]
    rfl⟩

/-- The first port cannot be bound, and the second one connects. -/
def secondWorks : Environment where
  getifaddrsFails := false
  asked := some threePorts
  interfaces := [⟨.inet, false, 1, fun i => ⟨false, false, i = 0, fun _ => .connected, false⟩⟩]
  dst := (2, 8080)
  call := ⟨false, false, 3, 256, 256, 514⟩

theorem circuit_conserves_secondWorks : ∃ c sent,
    connectionAttemptCircuit secondWorks .zero = .ok (c, .connected 2) ∧
      c.bound = some 11008 ∧ c.sent = [sent] ∧ sent.announced = [11007, 11009] := by
  have hnodup : threePorts.announced.Nodup := by decide
  have hrun : ∃ c, connectionAttemptCircuit secondWorks .zero = .ok (c, .connected 2) := ⟨_, rfl⟩
  obtain ⟨⟨c, o, hcirc, hcons⟩, -⟩ := circuit_conserves secondWorks
    ⟨threePorts, by decide, hnodup, by decide⟩ .zero rfl rfl
    ⟨rfl, rfl, by decide, by decide, by decide, by decide⟩
  obtain ⟨c', hrun⟩ := hrun
  rw [hcirc] at hrun
  cases hrun
  obtain ⟨-, -, hbound, -, sent, hsent, hann, -⟩ := hcons
  exact ⟨c, sent, hcirc, hbound, hsent, hann⟩

end EmotionStreamer.PortCircuit
