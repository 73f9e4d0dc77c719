import EmotionStreamer.PortCircuit
import EmotionStreamer.PortMapperBounds
import Mathlib.Data.List.Flatten

/-! The programs that use the port mapper, with their own code for asking and returning:
any number of clients and stand-alone content servers, whose conversations with the mapper
come in any order. A program holds the ports of its `attempted_port_arr` and the port of
its socket, as far as it will still use or return them. A client sends the port of its socket
back before it closes the socket. -/
namespace EmotionStreamer.PortClients
open Runs Leases PortMapper PortCircuit

/-- Where a program stands. A client asks for ports, tries them, streams or quits, sends
its port back, frees the attempted ports and closes its connection; a content server asks for
one port, binds its socket to it, listens and sends it back. -/
inductive Place
  | asking | trying | streaming | quitting | freeing | closing
  | starting | binding | listening | gone
  deriving DecidableEq, Repr

/-- `port` is the `sin_port` of the socket that is returned at the end, zero without one. -/
structure Process where
  place : Place
  attempted : PortArray
  port : ℕ

/-- What the network makes of one conversation: whether the request reaches the mapper, the
results of the mapper's `sendsome` and `readsome`, and whether the program gets the reply. -/
structure Talk where
  requested : Bool
  sendResult : ℤ
  readResult : ℤ
  received : Bool

/-- What a program does next. `tryCacheConnect` is a client that was started with `prev_addr`,
and the port that the system gives its socket, zero when it does not connect. `initModule` is
the rest of `init_module_tcp_stuff`. `childReturns` is a child of a content server whose
`execvp` has failed: it comes to the end of the server, too. -/
inductive Event
  | getifaddrsFails
  | tryCacheConnect (port : ℕ)
  | askForPorts (t : Talk)
  | attempt (env : Environment) (t : Talk)
  | sendPortBack (t : Talk)
  | freeAttemptedPorts (call : MapperCall) (t : Talk)
  | closeCon
  | askForPort (t : Talk)
  | initModule (addrFails bindFails : Bool) (t : Talk)
  | childReturns (t : Talk)
  | die

variable {C : Type} [DecidableEq C]

structure System (C : Type) where
  mapper : Mapper
  terminated : Bool
  procs : C → Process

/-- A mapper that has ended, like one that a request does not reach, reads an empty one. -/
def System.exchange (s : System C) (t : Talk) (request : String) (arr : PortArray) (port : ℕ) :
    Exchange :=
  ⟨if t.requested ∧ s.terminated = false then request else "", t.sendResult, t.readResult, arr, port⟩

def System.put (s : System C) (c : C) (p : Process) : System C :=
  { s with procs := Function.update s.procs c p }

/-- The system after a conversation of `c`, which is `p` then. -/
def System.handled (s : System C) (h : Handled) (c : C) (p : Process) : System C :=
  ⟨h.mapper, s.terminated || h.terminated, Function.update s.procs c p⟩

/-- `attempted_port_arr` after `ask_for_ports`. -/
def storedPorts (t : Talk) (attempted : PortArray) : Reply → PortArray
  | .ports arr => if t.received then arr else attempted
  | _ => attempted

/-- The port after `ask_for_port`. -/
def storedPort (t : Talk) : Reply → ℕ
  | .port port => if t.received then port else 0
  | _ => 0

/-- The array of `send_ports_back`, if it is sent, at the mapper. -/
def System.sendArrays (cfg : Config) (s : System C) (c : C) (p : Process) (t : Talk) :
    List PortArray → Except Fault (System C)
  | [] => .ok (s.put c p)
  | arr :: _ => do
    let h ← acceptedConnectionThread cfg s.mapper (s.exchange t portMapperLeaveString arr 0)
    return s.handled h c p

def System.sendPortBack (cfg : Config) (s : System C) (c : C) (p : Process) (t : Talk) (port : ℕ) :
    Except Fault (System C) :=
  if port = 0 then .ok (s.put c p)
  else do
    let h ← acceptedConnectionThread cfg s.mapper
      (s.exchange t portMapperAwkwardLeaveString .zero port)
    return s.handled h c p

/-- One step of program `c`, with its conversation if it has one; an event that is not the
next one of the program does nothing. -/
def System.next (cfg : Config) (s : System C) (i : C × Event) : Except Fault (System C) :=
  let p := s.procs i.1
  match i.2, p.place with
  | .getifaddrsFails, .asking => .ok (s.put i.1 { p with place := .quitting })
  | .tryCacheConnect port, .asking =>
    if port = 0 then .ok (s.put i.1 { p with place := .quitting })
    else .ok (s.put i.1 { p with place := .streaming, port := port })
  | .askForPorts t, .asking => do
    let h ← acceptedConnectionThread cfg s.mapper (s.exchange t portMapperJoinString .zero 0)
    return s.handled h i.1
      { p with place := .trying, attempted := storedPorts t p.attempted h.reply }
  | .attempt env t, .trying => do
    let (circuit, outcome) ←
      interfaceLoop env p.attempted.count env.interfaces ⟨p.attempted, none, []⟩
    match outcome with
    | .quit => return s.put i.1 { p with place := .quitting, attempted := circuit.attempted }
    | .connected _ =>
      s.sendArrays cfg i.1 ⟨.streaming, circuit.attempted, circuit.bound.getD 0⟩ t circuit.sent
  | .sendPortBack t, .streaming => s.sendPortBack cfg i.1 { p with place := .freeing } t p.port
  | .sendPortBack t, .quitting => s.sendPortBack cfg i.1 { p with place := .freeing } t p.port
  | .sendPortBack t, .listening => s.sendPortBack cfg i.1 { p with place := .gone } t p.port
  | .freeAttemptedPorts call t, .freeing => do
    let (attempted, sent) ← sendPortsBack call 0 p.attempted
    s.sendArrays cfg i.1 { p with place := .closing, attempted := attempted } t sent
  | .closeCon, .closing => .ok (s.put i.1 { p with place := .gone })
  | .askForPort t, .starting => do
    let h ← acceptedConnectionThread cfg s.mapper
      (s.exchange t portMapperAwkwardJoinString .zero 0)
    return s.handled h i.1 { p with place := .binding, port := storedPort t h.reply }
  | .initModule addrFails bindFails t, .binding =>
    if p.port = 0 ∨ addrFails then .ok (s.put i.1 { p with place := .gone })
    else if bindFails then s.sendPortBack cfg i.1 { p with place := .gone } t p.port
    else .ok (s.put i.1 { p with place := .listening })
  | .childReturns t, .listening => s.sendPortBack cfg i.1 p t p.port
  | .die, _ => .ok (s.put i.1 { p with place := .gone })
  | _, _ => .ok s

def Steps (cfg : Config) (s : System C) (i : C × Event) (u : System C) : Prop := s.next cfg i = .ok u

/-- At the start no port is allocated; which programs are content servers is arbitrary. -/
def System.start (cfg : Config) (server : C → Bool) : System C :=
  ⟨⟨List.replicate cfg.numPorts portFree, 0⟩, false,
    fun c => ⟨if server c then .starting else .asking, .zero, 0⟩⟩

/-- The port of the socket, if there is one. -/
def Process.own (p : Process) : Finset ℕ := if p.port = 0 then ∅ else {p.port}

/-- The ports that a program will still use or return. -/
def Process.holds (p : Process) : Finset ℕ :=
  match p.place with
  | .trying | .quitting | .freeing => p.attempted.announced.toFinset
  | .streaming => p.attempted.announced.toFinset ∪ p.own
  | .binding | .listening => p.own
  | .asking | .closing | .starting | .gone => ∅

/-- `attempted_port_arr` lists at most nine ports, none twice; it lists none before it is
asked for and behind a circuit that connects, and there is no port before that. -/
structure Process.Shaped (p : Process) : Prop where
  count_le : p.attempted.count ≤ numPortsToGive
  nodup : p.attempted.announced.Nodup
  empty : p.place = .asking ∨ p.place = .streaming → p.attempted.count = 0
  portless : p.place = .asking ∨ p.place = .trying ∨ p.place = .quitting → p.port = 0

def System.ledger (cfg : Config) (s : System C) : Ledger ℕ C :=
  ⟨granted cfg s.mapper, fun c => ↑(s.procs c).holds⟩

/-- No port is held by two programs. -/
def Exclusive (s : System C) : Prop :=
  ∀ c d, c ≠ d → Disjoint (s.procs c).holds (s.procs d).holds

/-- `send_ports_back` gets as far as sending its array. -/
def Reaches (call : MapperCall) : Prop :=
  call.socketFails = false ∧ call.addrFails = false ∧ 0 < call.connected ∧ 0 < call.requested ∧
    0 < call.replied

/-- A JOIN whose reply is sent finds no free port or enough of them, and the circuit's
`send_ports_back` is not stopped before it sends. No client connects through its cache, from a
port that is not the mapper's, and no `execvp` fails, so that nobody returns a port twice. -/
def Regular (cfg : Config) (s : System C) (i : C × Event) : Prop :=
  match i.2 with
  | .askForPorts t => 0 < t.sendResult →
      freePorts cfg s.mapper = [] ∨ numPortsToGive ≤ (freePorts cfg s.mapper).length
  | .attempt env _ => Reaches env.call
  | .tryCacheConnect port => port = 0
  | .childReturns _ => False
  | _ => True

variable {cfg : Config} {m : Mapper} {x : Exchange} {s : System C} {c : C}

/-- What the circuit makes of the attempted ports: with a socket on the `k`-th of them,
the others are sent back; otherwise they are as before. -/
def Settled (call : MapperCall) (arr : PortArray) (c : Circuit) : Outcome → Prop
  | .connected k => ∃ p sent, arr.announced[k - 1]? = some p ∧ p ≠ 0 ∧ c.bound = some p ∧
      c.attempted = .zero ∧ sent.announced = arr.announced.eraseIdx (k - 1) ∧
      sent.count = arr.count - 1 ∧ c.sent = if call.returned ≤ 0 then [] else [sent]
  | .quit => c.sent = [] ∧ c.attempted = arr

def Talk.Delivers (t : Talk) : Prop :=
  t.requested = true ∧ 0 < t.sendResult ∧ 0 < t.readResult ∧ t.received = true

/-- All messages of the step arrive, and the program does not end with ports that it was given:
it is not killed, and a content server can make an address of its port. -/
def Event.Delivered : Event → Prop
  | .getifaddrsFails => True
  | .tryCacheConnect _ => True
  | .askForPorts t => t.Delivers
  | .attempt env t => env.call.Delivers ∧ t.Delivers
  | .sendPortBack t => t.Delivers
  | .freeAttemptedPorts call t => call.Delivers ∧ t.Delivers
  | .closeCon => True
  | .askForPort t => t.Delivers
  | .initModule addrFails bindFails t => addrFails = false ∧ (bindFails = true → t.Delivers)
  | .childReturns t => t.Delivers
  | .die => False

/-- What a step makes of the granted ports and of those of its program: fresh ports are
taken, or ports of the program are given up. Nothing is lost when `exact` holds. -/
inductive Moves (granted granted' holds holds' : Set ℕ) (exact : Prop) : Prop
  | grant (taken : Set ℕ) (fresh : Disjoint taken granted) (table : granted' = granted ∪ taken)
      (kept : holds' ⊆ holds ∪ taken) (all : exact → holds' = holds ∪ taken)
  | release (returned : Set ℕ) (held : returned ⊆ holds) (table : granted' = granted \ returned)
      (kept : holds' ⊆ holds \ returned) (all : exact → holds' = holds \ returned)

theorem Moves.same {granted holds holds' : Set ℕ} {exact : Prop} (kept : holds' ⊆ holds)
    (all : exact → holds' = holds) : Moves granted granted holds holds' exact := by
  refine .release ∅ (Set.empty_subset _) (Set.sdiff_empty).symm ?_ fun h => ?_
  · rwa [Set.sdiff_empty]
  · rw [Set.sdiff_empty, all h]

/-- What one step of `c` does to the system. -/
structure Change (cfg : Config) (s : System C) (c : C) (exact : Prop) (t : System C) : Prop where
  valid : Valid cfg t.mapper
  shaped : (t.procs c).Shaped
  others : ∀ d, d ≠ c → t.procs d = s.procs d
  moves : Moves (granted cfg s.mapper) (granted cfg t.mapper) ↑(s.procs c).holds
    ↑(t.procs c).holds exact
  running : exact → t.terminated = false

variable {t : Talk} {p : Process} {exact : Prop}

theorem Change.handled {h : Handled} (hv : Valid cfg h.mapper) (hp : p.Shaped)
    (hm : Moves (granted cfg s.mapper) (granted cfg h.mapper) ↑(s.procs c).holds ↑p.holds exact)
    (hr : exact → s.terminated = false ∧ h.terminated = false) :
    Change cfg s c exact (s.handled h c p) := by
  have hself : (s.handled h c p).procs c = p := Function.update_self ..
  refine ⟨hv, by rwa [hself], fun d hd => Function.update_of_ne hd .., by rwa [hself], fun he => ?_⟩
  simp only [System.handled, hr he, Bool.or_self]

theorem Change.put (hv : Valid cfg s.mapper) (hp : p.Shaped) (hsub : p.holds ⊆ (s.procs c).holds)
    (hall : exact → s.terminated = false ∧ p.holds = (s.procs c).holds) :
    Change cfg s c exact (s.put c p) := by
  have hself : (s.put c p).procs c = p := Function.update_self ..
  refine ⟨hv, by rwa [hself], fun d hd => Function.update_of_ne hd .., ?_, fun he => (hall he).1⟩
  rw [hself]
  exact .same (Finset.coe_subset.mpr hsub) fun he => by rw [(hall he).2]

omit [DecidableEq C] in
theorem Change.refl (hv : Valid cfg s.mapper) (hp : (s.procs c).Shaped)
    (hr : exact → s.terminated = false) : Change cfg s c exact s :=
  ⟨hv, hp, fun _ _ => rfl, .same (Set.Subset.refl _) fun _ => rfl, hr⟩

omit [DecidableEq C] in
theorem Change.mono {exact' : Prop} {u : System C} (h : Change cfg s c exact u)
    (hex : exact' → exact) : Change cfg s c exact' u := by
  refine ⟨h.valid, h.shaped, h.others, ?_, fun he => h.running (hex he)⟩
  cases h.moves with
  | grant taken fresh table kept all => exact .grant taken fresh table kept fun he => all (hex he)
  | release returned held table kept all =>
    exact .release returned held table kept fun he => all (hex he)

theorem holds_of_asking (h : p.place = .asking ∨ p.place = .starting) : p.holds = ∅ := by
  rcases h with h | h <;> simp only [Process.holds, h]

theorem Process.Shaped.leave (h : p.Shaped) (place : Place)
    (hplace : place = .freeing ∨ place = .listening ∨ place = .gone) :
    Process.Shaped { p with place := place } := by
  refine ⟨h.count_le, h.nodup, fun hearly => ?_, fun hearly => ?_⟩
  · rcases hplace with rfl | rfl | rfl <;> rcases hearly with hearly | hearly <;> cases hearly
  · rcases hplace with rfl | rfl | rfl <;> rcases hearly with hearly | hearly | hearly <;>
      cases hearly

structure Inv (cfg : Config) (s : System C) : Prop where
  valid : Valid cfg s.mapper
  sound : Sound (s.ledger cfg)
  shaped : ∀ c, (s.procs c).Shaped

/-- The ledger that a change leads to, and the holdings in it. -/
theorem Change.ledger {u : System C} (h : Inv cfg s) (hc : Change cfg s c exact u) :
    ∃ l : Ledger ℕ C, Sound l ∧ (Accounted (s.ledger cfg) → Accounted l) ∧
      l.granted = granted cfg u.mapper ∧ (∀ d, (↑(u.procs d).holds : Set ℕ) ⊆ l.holds d) ∧
      (exact → ∀ d, (↑(u.procs d).holds : Set ℕ) = l.holds d) := by
  have hupdate : ∀ S : Set ℕ, (↑(u.procs c).holds : Set ℕ) ⊆ S →
      ∀ d, (↑(u.procs d).holds : Set ℕ) ⊆ Function.update (s.ledger cfg).holds c S d := fun S hS d => by
    by_cases hd : d = c
    · subst hd
      rwa [Function.update_self]
    · rw [Function.update_of_ne hd, hc.others d hd]
      exact Set.Subset.refl _
  have hexact : ∀ S : Set ℕ, (↑(u.procs c).holds : Set ℕ) = S →
      ∀ d, (↑(u.procs d).holds : Set ℕ) = Function.update (s.ledger cfg).holds c S d := fun S hS d => by
    by_cases hd : d = c
    · subst hd
      rwa [Function.update_self]
    · rw [Function.update_of_ne hd, hc.others d hd]
      rfl
  cases hc.moves with
  | grant taken fresh table kept all =>
    exact ⟨_, (Step.grant _ c taken taken fresh (Set.Subset.refl _)).sound h.sound,
      fun ha => ha.grant c taken, table.symm, hupdate _ kept, fun he => hexact _ (all he)⟩
  | release returned held table kept all =>
    exact ⟨_, (Step.release _ c returned held).sound h.sound, fun ha => ha.release h.sound held,
      table.symm, hupdate _ kept, fun he => hexact _ (all he)⟩

theorem Change.inv {u : System C} (h : Inv cfg s) (hc : Change cfg s c exact u) : Inv cfg u := by
  obtain ⟨l, hl, -, hg, hsub, -⟩ := hc.ledger h
  refine ⟨hc.valid, ?_, fun d => ?_⟩
  · have hforget := hl.forget hsub
    rwa [hg] at hforget
  · by_cases hd : d = c
    · exact hd ▸ hc.shaped
    · exact hc.others d hd ▸ h.shaped d

theorem Change.accounted {u : System C} (h : Inv cfg s) (ha : Accounted (s.ledger cfg))
    (hc : Change cfg s c exact u) (he : exact) : Accounted (u.ledger cfg) := by
  obtain ⟨l, -, hacc, hg, -, heq⟩ := hc.ledger h
  have hl : u.ledger cfg = l := by
    rw [System.ledger, ← hg, funext (heq he)]
  exact hl ▸ hacc ha

omit [DecidableEq C] in
theorem start_inv (cfg : Config) (server : C → Bool) :
    Inv cfg (System.start cfg server) ∧ Accounted ((System.start cfg server).ledger cfg) := by
  have hholds : ∀ c, ((System.start cfg server).procs c).holds = ∅ := fun c =>
    holds_of_asking (by
      simp only [System.start]
      split_ifs
      · exact Or.inr rfl
      · exact Or.inl rfl)
  have hnone : granted cfg (System.start cfg server).mapper = ∅ := by
    refine Set.eq_empty_iff_forall_notMem.mpr fun p hp => ?_
    obtain ⟨k, hk, -⟩ := mem_granted hp
    obtain ⟨j, -, ha⟩ := hp
    have := List.eq_of_mem_replicate (List.mem_of_getElem? ha)
    cases this
  refine ⟨⟨⟨by simp [System.start], ?_⟩, ⟨fun c => ?_, fun c d _ => ?_⟩, fun c => ?_⟩, ?_⟩
  · simp [System.start, List.count_replicate, portFree, portAllocated]
  · simp only [System.ledger, hholds, Finset.coe_empty, Set.empty_subset]
  · simp only [System.ledger, hholds, Finset.coe_empty, Set.disjoint_empty]
  · exact ⟨Nat.zero_le _, List.nodup_nil, fun _ => rfl, fun _ => rfl⟩
  · simp only [Accounted, System.ledger, hholds, hnone, Finset.coe_empty, Set.iUnion_empty]

end EmotionStreamer.PortClients
