import EmotionStreamer.Runs
import Mathlib.Data.List.Count
import Mathlib.Algebra.BigOperators.Group.List.Basic
import Mathlib.Algebra.GroupWithZero.Nat

/-! The end of a content server: `serverInit` in the main thread, `slave_thread` in the
heartbeat thread, which can end the process, and the children that are back in the accept
loop because their `execvp` failed. What counts is which ports they send back to the port
mapper. -/
namespace EmotionStreamer.ServerLifetime
open Runs

/-- Calls of `send_port_back`, for the listening port or for that of the heartbeat
connection, and of `free_attempted_ports`. -/
inductive SendBack
  | listening | connection | attempted
  deriving DecidableEq, Repr

/-- `cfg_server_slave_mode`, and whether `init_addr` refuses the address of the upper
server. -/
structure Config where
  slaveMode : Bool
  masterAddrFails : Bool

/-- `serverInit` makes a heartbeat thread. -/
def Config.startsSlave (cfg : Config) : Bool := cfg.slaveMode && !cfg.masterAddrFails

/-- Where a main thread is; when `init_module_tcp_stuff` ends the process, it may have sent
the port back. -/
inductive MainPc
  | initModule | startSlave | waiting | accepting | joining | closing | returned
  | exited (sentBack : Bool)
  deriving DecidableEq, Repr

/-- `childPid` is true when a `fork` succeeded, as far as this process knows. -/
structure Process where
  pc : MainPc
  isOn : Bool
  started : ℕ
  childPid : Bool
  deriving DecidableEq, Repr

inductive InitModule
  | socketFails | addrFails | bindFails | listening
  deriving DecidableEq, Repr

/-- In the child, `execvp` returns only if it fails. -/
inductive Fork
  | worker | execFails | failed
  deriving DecidableEq, Repr

inductive Round
  | accepted (f : Fork) | rejected | selectFails | timedOut
  deriving DecidableEq, Repr

/-- What a step of a main thread meets. -/
inductive Event
  | initModule (r : InitModule)
  | round (r : Round)
  | next
  deriving DecidableEq, Repr

/-- What a step of a main thread does. -/
structure Effect where
  process : Process
  sent : List SendBack := []
  child : List Process := []
  thread : Bool := false

def Process.serverStop (p : Process) : Process := { p with isOn := false, started := 1 }

def callSigint : List SendBack := [.listening]

def initModuleTcpStuff (p : Process) : InitModule → Effect
  | .socketFails => { process := { p.serverStop with pc := .exited false } }
  | .addrFails => { process := { p.serverStop with pc := .exited false } }
  | .bindFails => { process := { p.serverStop with pc := .exited true }, sent := [.listening] }
  | .listening => { process := { p with pc := .startSlave } }

/-- `con_accepting_loop` returns 1 in all cases. -/
def Process.leave (cfg : Config) (p : Process) : Process :=
  { p with pc := if cfg.slaveMode then .joining else .closing }

/-- A round of `con_accepting_loop`. -/
def conAcceptingLoop (cfg : Config) (p : Process) : Round → Effect
  | .accepted .worker => { process := { p with childPid := true } }
  | .accepted .execFails =>
    { process := { p with childPid := true }, child := [{ p with childPid := true }] }
  | .accepted .failed => { process := { p.serverStop with childPid := false }.leave cfg }
  | .rejected => { process := p.leave cfg }
  | .selectFails => { process := if p.childPid then p else p.leave cfg }
  | .timedOut => { process := p }

/-- The next step of a main thread in `serverInit`. The thread that it joins must have
ended, and does not run in a child. -/
def serverInit (cfg : Config) (joinable : Bool) (p : Process) (e : Event) : Option Effect :=
  match p.pc, e with
  | .initModule, .initModule r => some (initModuleTcpStuff p r)
  | .startSlave, .next =>
    if cfg.slaveMode then
      if cfg.masterAddrFails then
        some { process := { p.serverStop with pc := .returned }, sent := callSigint }
      else some { process := { p with pc := .waiting }, thread := true }
    else some { process := { p with pc := .waiting } }
  | .waiting, .next => if p.started = 0 then none else some { process := { p with pc := .accepting } }
  | .accepting, .next => if p.isOn then none else some { process := p.leave cfg }
  | .accepting, .round r => if p.isOn then some (conAcceptingLoop cfg p r) else none
  | .joining, .next => if joinable then some { process := { p with pc := .closing } } else none
  | .closing, .next => some { process := { p with pc := .returned }, sent := callSigint }
  | _, _ => none

/-- The parts of `slave_thread_exit_func`: the one that holds `con_mtx`, the writing of
`start_trigger`, `sig_func`, and `clean_func`. -/
inductive ExitPart
  | locked | trigger | sigFunc | cleanFunc
  deriving DecidableEq, Repr

/-- Called by the circuit, the exit function comes back to `slave_thread`, which goes on to
`greet` with the socket closed. -/
inductive SlavePc
  | notStarted | circuit | greet | send | read | heartbeat
  | exitFunc (part : ExitPart) (inCircuit : Bool)
  | greetClosed | ended | exited
  deriving DecidableEq, Repr

structure Server where
  main : Process
  slave : SlavePc
  children : List Process
  sent : List SendBack
  exitRuns : ℕ
  deriving Repr

def slaveThreadExitFunc (s : Server) (inCircuit : Bool) : ExitPart → Server
  | .locked =>
    { s with
      sent := s.sent ++ .connection :: if s.main.isOn then [.attempted] else []
      exitRuns := s.exitRuns + 1
      slave := .exitFunc .trigger inCircuit }
  | .trigger =>
    { s with main := { s.main with started := 1 }, slave := .exitFunc .sigFunc inCircuit }
  | .sigFunc => { s with main := s.main.serverStop, slave := .exitFunc .cleanFunc inCircuit }
  | .cleanFunc =>
    { s with sent := s.sent ++ callSigint, slave := if inCircuit then .greetClosed else .ended }

/-- The next step of `slave_thread`, whose call succeeds or not. On the closed socket `setsockopt`
fails, and `set_sock_os_keepalive` ends the process. -/
def slaveThread (s : Server) (ok : Bool) : Option Server :=
  match s.slave with
  | .notStarted => none
  | .circuit => some { s with slave := if ok then .greet else .exitFunc .locked true }
  | .greet => some { s with slave := if ok then .send else .exitFunc .locked false }
  | .send => some { s with slave := if ok then .read else .exitFunc .locked false }
  | .read =>
    if ok then some { s with main := { s.main with started := 1 }, slave := .heartbeat }
    else some { s with slave := .exitFunc .locked false }
  | .heartbeat =>
    if s.main.isOn ∧ ok then some s
    else some { s with main := { s.main with started := 2 }, slave := .exitFunc .locked false }
  | .exitFunc part inCircuit => some (slaveThreadExitFunc s inCircuit part)
  | .greetClosed => some { s with slave := .exited }
  | .ended => none
  | .exited => none

/-- A step of a thread, which for the heartbeat thread names where it is, or a signal. -/
inductive Label
  | main (e : Event)
  | slave (pc : SlavePc) (ok : Bool)
  | child (i : ℕ) (e : Event)
  | signal
  | signalChild (i : ℕ)
  deriving DecidableEq, Repr

def Server.start (cfg : Config) : Server where
  main := ⟨.initModule, true, if cfg.slaveMode then 0 else 1, false⟩
  slave := .notStarted
  children := []
  sent := []
  exitRuns := 0

/-- The main thread goes on until the process has exited, and can join the heartbeat thread when
that has ended. -/
def Server.step (cfg : Config) (s : Server) : Label → Option Server
  | .main e =>
    if s.slave = .exited then none
    else do
      let r ← serverInit cfg (s.slave = .ended) s.main e
      return { s with
        main := r.process
        slave := if r.thread then .circuit else s.slave
        children := s.children ++ r.child
        sent := s.sent ++ r.sent }
  | .slave pc ok => if s.slave = pc then slaveThread s ok else none
  | .child i e => do
    let p ← s.children[i]?
    let r ← serverInit cfg true p e
    return { s with children := s.children.set i r.process ++ r.child, sent := s.sent ++ r.sent }
  | .signal => some { s with main := s.main.serverStop }
  | .signalChild i => do
    let p ← s.children[i]?
    return { s with children := s.children.set i p.serverStop }

def Steps (cfg : Config) (s : Server) (l : Label) (t : Server) : Prop := s.step cfg l = some t

/-- All calls of `serverInit` are over: that of the server has returned, or its heartbeat thread
has ended the process, and those of its children have returned. -/
def Server.Over (s : Server) : Prop :=
  (s.main.pc = .returned ∨ s.slave = .exited) ∧ ∀ c ∈ s.children, c.pc = .returned

/-- The listening port goes back once, and `slave_thread_exit_func` runs at most once. -/
def Server.Once (s : Server) : Prop := s.sent.count .listening = 1 ∧ s.exitRuns ≤ 1

/-- A child's `execvp` fails. -/
def Event.execFails (e : Event) : Bool := e = .round (.accepted .execFails)

def Label.execFails : Label → Bool
  | .main e => e.execFails
  | .child _ e => e.execFails
  | _ => false

/-- How often the circuit gave up. -/
def gaveUps (ls : List Label) : ℕ := ls.count (.slave .circuit false)

/-- How often a call of `serverInit` that is here has sent the listening port back. -/
def MainPc.sentBack : MainPc → ℕ
  | .returned => 1
  | .exited back => if back then 1 else 0
  | _ => 0

/-- The heartbeat thread is not made yet. -/
def MainPc.Early (pc : MainPc) : Prop := pc = .initModule ∨ pc = .startSlave ∨ ∃ b, pc = .exited b

def MainPc.Late (pc : MainPc) : Prop := pc = .closing ∨ pc = .returned

/-- The part is behind the locked one. -/
def ExitPart.begun : ExitPart → ℕ
  | .locked => 0
  | _ => 1

/-- The exit function still has the listening port to send. -/
def SlavePc.pending : SlavePc → ℕ
  | .exitFunc part _ => part.begun
  | _ => 0

/-- A thread that is here has run the exit function `n` times, when `g` is how often the
circuit gave up. -/
def SlavePc.Ran (g n : ℕ) : SlavePc → Prop
  | .exitFunc part true => g = 1 ∧ n = part.begun
  | .exitFunc part false => g = 0 ∧ n = part.begun
  | .greetClosed | .exited => g = 1 ∧ n = 1
  | .ended => g = 0 ∧ n = 1
  | _ => g = 0 ∧ n = 0

/-- What the calls of `serverInit` that have returned, and the runs of the exit function,
account for. -/
structure Accounted (cfg : Config) (ls : List Label) (s : Server) : Prop where
  sent : s.sent.count .listening + s.slave.pending =
    s.exitRuns + s.main.pc.sentBack + (s.children.map (·.pc.sentBack)).sum
  children : s.children.length = ls.countP Label.execFails
  ran : s.slave.Ran (gaveUps ls) s.exitRuns
  started : s.slave = .notStarted ↔ cfg.startsSlave = false ∨ s.main.pc.Early
  joined : s.main.pc.Late → s.slave = .notStarted ∨ s.slave = .ended

variable {cfg : Config} {joinable : Bool} {p : Process} {e : Event} {r : Effect} {s t : Server}
  {ls : List Label}

theorem sum_map_set {α : Type} (f : α → ℕ) {l : List α} {i : ℕ} {x : α} (h : l[i]? = some x)
    (y : α) : ((l.set i y).map f).sum + f x = (l.map f).sum + f y := by
  induction l generalizing i with
  | nil => cases h
  | cons a l ih =>
    cases i with
    | zero =>
      obtain rfl : a = x := Option.some.inj h
      simp only [List.set_cons_zero, List.map_cons, List.sum_cons]
      omega
    | succ i =>
      have htail := ih h
      simp only [List.set_cons_succ, List.map_cons, List.sum_cons]
      omega

theorem leave_pc (cfg : Config) (p : Process) :
    (p.leave cfg).pc = .joining ∨ (p.leave cfg).pc = .closing ∧ cfg.slaveMode = false := by
  cases h : cfg.slaveMode with
  | false => exact .inr ⟨by simp only [Process.leave, h, Bool.false_eq_true, ↓reduceIte], rfl⟩
  | true => exact .inl (by simp only [Process.leave, h, ↓reduceIte])

/-- What a step of a main thread keeps to. -/
structure Effect.Kept (cfg : Config) (joinable : Bool) (p : Process) (e : Event) (r : Effect) :
    Prop where
  sent : r.sent.count .listening + p.pc.sentBack = r.process.pc.sentBack
  child : r.child.length = if e.execFails then 1 else 0
  children : ∀ c ∈ r.child, c.pc.sentBack = 0
  thread : r.thread = true →
    cfg.startsSlave = true ∧ p.pc.Early ∧ ¬r.process.pc.Early ∧ ¬r.process.pc.Late
  early : r.thread = false →
    (cfg.startsSlave = false ∨ r.process.pc.Early ↔ cfg.startsSlave = false ∨ p.pc.Early)
  late : r.process.pc.Late → ¬p.pc.Late → cfg.startsSlave = false ∨ joinable = true

/-- Between the start of the heartbeat thread and the end, a step that only changes the
place keeps to it when it does not go behind the join. -/
theorem kept_of_middle {q : Process} {l : List Process} (hp : p.pc.sentBack = 0)
    (hpe : ¬p.pc.Early) (hq : q.pc.sentBack = 0) (hqe : ¬q.pc.Early)
    (hlate : q.pc.Late → cfg.startsSlave = false ∨ joinable = true)
    (hl : l.length = if e.execFails then 1 else 0) (hc : ∀ c ∈ l, c.pc.sentBack = 0) :
    Effect.Kept cfg joinable p e { process := q, child := l } where
  sent := by rw [hp, hq, List.count_nil]
  child := hl
  children := hc
  thread h := by cases h
  early _ := by simp only [hpe, hqe]
  late h _ := hlate h

theorem kept_leave (hp : p.pc.sentBack = 0) (hpe : ¬p.pc.Early) (he : e.execFails = false)
    (q : Process) : Effect.Kept cfg joinable p e { process := q.leave cfg } := by
  have hleave := leave_pc cfg q
  apply kept_of_middle hp hpe
  · rcases hleave with h | ⟨h, -⟩ <;> rw [h] <;> rfl
  · rcases hleave with h | ⟨h, -⟩ <;> simp [h, MainPc.Early]
  · rcases hleave with h | ⟨-, h⟩
    · simp [h, MainPc.Late]
    · exact fun _ => .inl (by rw [Config.startsSlave, h, Bool.false_and])
  · rw [he]
    rfl
  · intro c hc
    cases hc

theorem conAcceptingLoop_kept (hp : p.pc = .accepting) (round : Round) :
    Effect.Kept cfg joinable p (.round round) (conAcceptingLoop cfg p round) := by
  have hback : p.pc.sentBack = 0 := by rw [hp]; rfl
  have hearly : ¬p.pc.Early := by simp [hp, MainPc.Early]
  have hlate : p.pc.Late → cfg.startsSlave = false ∨ joinable = true := by simp [hp, MainPc.Late]
  have hnone : ∀ c ∈ ([] : List Process), c.pc.sentBack = 0 := fun c hc => by cases hc
  cases round with
  | accepted f =>
    cases f with
    | worker => exact kept_of_middle hback hearly hback hearly hlate rfl hnone
    | execFails =>
      refine kept_of_middle hback hearly hback hearly hlate rfl fun c hc => ?_
      obtain rfl := List.mem_singleton.mp hc
      exact hback
    | failed => exact kept_leave hback hearly rfl _
  | rejected => exact kept_leave hback hearly rfl _
  | selectFails =>
    unfold conAcceptingLoop
    split_ifs
    · exact kept_of_middle hback hearly hback hearly hlate rfl hnone
    · exact kept_leave hback hearly rfl _
  | timedOut => exact kept_of_middle hback hearly hback hearly hlate rfl hnone

theorem initModuleTcpStuff_kept (hp : p.pc = .initModule) (i : InitModule) :
    Effect.Kept cfg joinable p (.initModule i) (initModuleTcpStuff p i) := by
  constructor <;> cases i <;>
    simp [initModuleTcpStuff, hp, MainPc.sentBack, MainPc.Early, MainPc.Late, Event.execFails]

/-- The branch on `cfg_server_slave_mode`. -/
theorem startSlave_kept (hp : p.pc = .startSlave)
    (h : serverInit cfg joinable p .next = some r) : r.Kept cfg joinable p .next := by
  simp only [serverInit, hp] at h
  split_ifs at h with hmode hfails <;> cases h <;> constructor <;>
    simp [Config.startsSlave, callSigint, MainPc.sentBack, MainPc.Early, MainPc.Late,
      Event.execFails, *]

theorem serverInit_kept (h : serverInit cfg joinable p e = some r) : r.Kept cfg joinable p e := by
  cases hp : p.pc with
  | initModule =>
    cases e with
    | initModule i =>
      obtain rfl : initModuleTcpStuff p i = r := by simpa only [serverInit, hp, Option.some.injEq] using h
      exact initModuleTcpStuff_kept hp i
    | _ => simp [serverInit, hp] at h
  | startSlave =>
    cases e with
    | next => exact startSlave_kept hp h
    | _ => simp [serverInit, hp] at h
  | waiting =>
    cases e with
    | next =>
      simp only [serverInit, hp] at h
      split_ifs at h
      cases h
      apply kept_of_middle <;> simp [hp, MainPc.sentBack, MainPc.Early, MainPc.Late, Event.execFails]
    | _ => simp [serverInit, hp] at h
  | accepting =>
    cases e with
    | round round =>
      simp only [serverInit, hp] at h
      split_ifs at h
      cases h
      exact conAcceptingLoop_kept hp round
    | next =>
      simp only [serverInit, hp] at h
      split_ifs at h
      cases h
      apply kept_leave <;> simp [hp, MainPc.sentBack, MainPc.Early, Event.execFails]
    | _ => simp [serverInit, hp] at h
  | joining =>
    cases e with
    | next =>
      simp only [serverInit, hp] at h
      split_ifs at h with hjoin
      cases h
      apply kept_of_middle <;> simp [hp, hjoin, MainPc.sentBack, MainPc.Early, Event.execFails]
    | _ => simp [serverInit, hp] at h
  | closing =>
    cases e with
    | next =>
      simp only [serverInit, hp] at h
      cases h
      constructor <;> simp [hp, MainPc.sentBack, MainPc.Early, MainPc.Late, Event.execFails, callSigint]
    | _ => simp [serverInit, hp] at h
  | returned => simp [serverInit, hp] at h
  | exited => simp [serverInit, hp] at h

/-- What a step of the heartbeat thread keeps to. -/
structure SlaveKept (s : Server) (ok : Bool) (t : Server) : Prop where
  main : t.main.pc = s.main.pc
  children : t.children = s.children
  sent : t.sent.count .listening + t.slave.pending + s.exitRuns =
    s.sent.count .listening + s.slave.pending + t.exitRuns
  ran : ∀ g, s.slave.Ran g s.exitRuns →
    t.slave.Ran (g + if s.slave = .circuit ∧ ok = false then 1 else 0) t.exitRuns
  running : s.slave ≠ .notStarted ∧ s.slave ≠ .ended
  started : t.slave ≠ .notStarted

theorem slaveThreadExitFunc_kept {part : ExitPart} {inCircuit : Bool}
    (h : s.slave = .exitFunc part inCircuit) (ok : Bool) :
    SlaveKept s ok (slaveThreadExitFunc s inCircuit part) := by
  have hcount : (SendBack.connection :: if s.main.isOn then [.attempted] else []).count
      .listening = 0 := by split_ifs <;> rfl
  have hcircuit : ¬(s.slave = .circuit ∧ ok = false) := by simp [h]
  refine ⟨?_, ?_, ?_, fun g hran => ?_, by simp [h], ?_⟩
  · cases part <;> rfl
  · cases part <;> rfl
  · rw [h]
    cases part with
    | locked =>
      simp only [slaveThreadExitFunc, List.count_append, hcount, SlavePc.pending, ExitPart.begun]
      omega
    | trigger => rfl
    | sigFunc => rfl
    | cleanFunc =>
      cases inCircuit <;>
        simp [slaveThreadExitFunc, callSigint, SlavePc.pending, ExitPart.begun, Nat.add_assoc]
  · rw [if_neg hcircuit]
    rw [h] at hran
    cases inCircuit <;> cases part <;>
      simp_all [slaveThreadExitFunc, SlavePc.Ran, ExitPart.begun]
  · cases part <;> simp [slaveThreadExitFunc]
    split_ifs <;> simp

/-- A step that sends nothing back, from one place outside of the exit function to another,
or to its beginning. -/
theorem kept_of_quiet {ok : Bool} {started : ℕ} {pc : SlavePc} (hs : s.slave.pending = 0)
    (hpc : pc.pending = 0) (hrun : s.slave ≠ .notStarted ∧ s.slave ≠ .ended)
    (hstart : pc ≠ .notStarted)
    (hran : ∀ g, s.slave.Ran g s.exitRuns →
      pc.Ran (g + if s.slave = .circuit ∧ ok = false then 1 else 0) s.exitRuns) :
    SlaveKept s ok { s with main := { s.main with started := started }, slave := pc } where
  main := rfl
  children := rfl
  sent := by rw [hs, hpc]
  ran := hran
  running := hrun
  started := hstart

theorem slaveThread_kept {ok : Bool} (h : slaveThread s ok = some t) : SlaveKept s ok t := by
  unfold slaveThread at h
  cases hpc : s.slave with
  | notStarted => simp [hpc] at h
  | ended => simp [hpc] at h
  | exitFunc part inCircuit =>
    simp only [hpc, Option.some.injEq] at h
    exact h ▸ slaveThreadExitFunc_kept hpc ok
  | heartbeat =>
    simp only [hpc] at h
    split_ifs at h <;> cases h
    · constructor <;> simp [hpc, SlavePc.Ran]
    · apply kept_of_quiet <;> simp [hpc, SlavePc.pending, SlavePc.Ran, ExitPart.begun]
  | _ =>
    simp only [hpc] at h
    cases ok <;> cases h <;>
      apply kept_of_quiet <;> simp [hpc, SlavePc.pending, SlavePc.Ran, ExitPart.begun]

theorem Accounted.start (cfg : Config) : Accounted cfg [] (.start cfg) where
  sent := rfl
  children := rfl
  ran := ⟨rfl, rfl⟩
  started := ⟨fun _ => .inr (.inl rfl), fun _ => rfl⟩
  joined _ := .inl rfl

theorem gaveUps_append (ls : List Label) (l : Label) :
    gaveUps (ls ++ [l]) = gaveUps ls + if l = .slave .circuit false then 1 else 0 := by
  rw [gaveUps, List.count_append, List.count_singleton, gaveUps]
  simp only [beq_iff_eq]

theorem countP_execFails_append (ls : List Label) (l : Label) :
    (ls ++ [l]).countP Label.execFails =
      ls.countP Label.execFails + if l.execFails then 1 else 0 := by
  rw [List.countP_append, List.countP_singleton]

theorem sum_sentBack_eq_zero {l : List Process} (h : ∀ c ∈ l, c.pc.sentBack = 0) :
    (l.map (·.pc.sentBack)).sum = 0 := by
  apply List.sum_eq_zero
  intro n hn
  obtain ⟨c, hc, rfl⟩ := List.mem_map.mp hn
  exact h c hc

theorem Accounted.main (hacc : Accounted cfg ls s) (h : Steps cfg s (.main e) t) :
    Accounted cfg (ls ++ [.main e]) t := by
  simp only [Steps, Server.step] at h
  split_ifs at h
  obtain ⟨r, hr, ht⟩ := Option.bind_eq_some_iff.mp h
  have hkept := serverInit_kept hr
  cases ht
  have hsent := hacc.sent
  have hback := hkept.sent
  have hsum := sum_sentBack_eq_zero hkept.children
  have hsame : r.thread = true → s.slave = .notStarted := fun hthread =>
    hacc.started.mpr (.inr (hkept.thread hthread).2.1)
  have hpending : (if r.thread then SlavePc.circuit else s.slave).pending = s.slave.pending := by
    split_ifs with hthread
    · rw [hsame hthread]
      rfl
    · rfl
  refine ⟨?_, ?_, ?_, ?_, fun hlate => ?_⟩
  · simp only [List.count_append, List.map_append, List.sum_append, hsum, hpending]
    omega
  · rw [List.length_append, hkept.child, hacc.children, countP_execFails_append]
    rfl
  · rw [gaveUps_append, if_neg (by simp), Nat.add_zero]
    split_ifs with hthread
    · have hran := hacc.ran
      rw [hsame hthread] at hran
      exact hran
    · exact hacc.ran
  · cases hthread : r.thread with
    | true =>
      obtain ⟨hslave, -, hearly, -⟩ := hkept.thread hthread
      simp [hslave, hearly]
    | false =>
      rw [hkept.early hthread]
      exact hacc.started
  · cases hthread : r.thread with
    | true => exact absurd hlate (hkept.thread hthread).2.2.2
    | false =>
      by_cases hbefore : s.main.pc.Late
      · exact hacc.joined hbefore
      · rcases hkept.late hlate hbefore with hslave | hjoin
        · exact .inl (hacc.started.mpr (.inl hslave))
        · exact .inr (of_decide_eq_true hjoin)

theorem Accounted.slave {ok : Bool} (hacc : Accounted cfg ls s)
    (h : Steps cfg s (.slave s.slave ok) t) : Accounted cfg (ls ++ [.slave s.slave ok]) t := by
  have hkept := slaveThread_kept (show slaveThread s ok = some t by simpa [Steps, Server.step] using h)
  have hsent := hkept.sent
  have hbefore := hacc.sent
  refine ⟨?_, ?_, ?_, ?_, fun hlate => ?_⟩
  · rw [hkept.main, hkept.children]
    omega
  · rw [hkept.children, hacc.children, countP_execFails_append]
    rfl
  · have hran := hkept.ran _ hacc.ran
    simpa only [gaveUps_append, Label.slave.injEq] using hran
  · rw [hkept.main, ← hacc.started]
    simp only [hkept.started, hkept.running.1]
  · rw [hkept.main] at hlate
    rcases hacc.joined hlate with h | h
    · exact absurd h hkept.running.1
    · exact absurd h hkept.running.2

theorem Accounted.child {i : ℕ} (hacc : Accounted cfg ls s) (h : Steps cfg s (.child i e) t) :
    Accounted cfg (ls ++ [.child i e]) t := by
  obtain ⟨p, hp, h⟩ := Option.bind_eq_some_iff.mp h
  obtain ⟨r, hr, ht⟩ := Option.bind_eq_some_iff.mp h
  have hkept := serverInit_kept hr
  cases ht
  have hsent := hacc.sent
  have hback := hkept.sent
  have hset := sum_map_set (·.pc.sentBack) hp r.process
  have hsum := sum_sentBack_eq_zero hkept.children
  refine ⟨?_, ?_, ?_, hacc.started, hacc.joined⟩
  · simp only [List.count_append, List.map_append, List.sum_append, hsum]
    omega
  · rw [List.length_append, List.length_set, hkept.child, hacc.children, countP_execFails_append]
    rfl
  · rw [gaveUps_append, if_neg (by simp), Nat.add_zero]
    exact hacc.ran

theorem Accounted.signal (hacc : Accounted cfg ls s) (h : Steps cfg s .signal t) :
    Accounted cfg (ls ++ [.signal]) t := by
  cases h
  refine ⟨hacc.sent, ?_, ?_, hacc.started, hacc.joined⟩
  · rw [countP_execFails_append]
    exact hacc.children
  · rw [gaveUps_append]
    exact hacc.ran

theorem Accounted.signalChild {i : ℕ} (hacc : Accounted cfg ls s)
    (h : Steps cfg s (.signalChild i) t) : Accounted cfg (ls ++ [.signalChild i]) t := by
  obtain ⟨p, hp, ht⟩ := Option.bind_eq_some_iff.mp h
  cases ht
  have hset := sum_map_set (·.pc.sentBack) hp p.serverStop
  refine ⟨?_, ?_, ?_, hacc.started, hacc.joined⟩
  · have hsent := hacc.sent
    have hpc : p.serverStop.pc = p.pc := rfl
    rw [hpc] at hset
    dsimp only
    omega
  · rw [List.length_set, countP_execFails_append]
    exact hacc.children
  · rw [gaveUps_append]
    exact hacc.ran

theorem Accounted.step (hacc : Accounted cfg ls s) (l : Label) (h : Steps cfg s l t) :
    Accounted cfg (ls ++ [l]) t := by
  cases l with
  | main e => exact hacc.main h
  | slave pc ok =>
    obtain rfl : s.slave = pc := by
      by_contra hne
      simp [Steps, Server.step, hne] at h
    exact hacc.slave h
  | child i e => exact hacc.child h
  | signal => exact hacc.signal h
  | signalChild i => exact hacc.signalChild h

/-- Run lemma. -/
theorem accounted (run : Run (Steps cfg) (.start cfg) ls s) : Accounted cfg ls s :=
  run.track (Accounted cfg) (.start cfg) fun _ _ l _ hacc h => hacc.step l h

/-- The exit function runs at most once, in every state of every run. -/
theorem exitRuns_le_one (run : Run (Steps cfg) (.start cfg) ls s) : s.exitRuns ≤ 1 := by
  have hran := (accounted run).ran
  unfold SlavePc.Ran at hran
  split at hran <;> obtain ⟨-, hn⟩ := hran
  · next part _ => cases part <;> simp [hn, ExitPart.begun]
  · next part _ => cases part <;> simp [hn, ExitPart.begun]
  all_goals omega

/-- A main thread that is over has returned, unless the circuit gave up: then the process has
exited around it. -/
theorem Accounted.over (hacc : Accounted cfg ls s) (hover : s.Over) :
    s.main.pc = .returned ∧ (s.slave = .notStarted ∧ cfg.startsSlave = false ∨
        s.slave = .ended ∧ cfg.startsSlave = true) ∨
      s.main.pc.sentBack = 0 ∧ s.slave = .exited ∧ cfg.startsSlave = true := by
  have hstarted := hacc.started
  rcases hover.1 with hret | hexit
  · have hearly : ¬s.main.pc.Early := by simp [hret, MainPc.Early]
    refine .inl ⟨hret, (hacc.joined (.inr hret)).imp (fun h => ⟨h, ?_⟩) fun h => ⟨h, ?_⟩⟩
    · exact (hstarted.mp h).resolve_right hearly
    · by_contra hno
      have := hstarted.mpr (.inl (Bool.eq_false_iff.mpr hno))
      rw [h] at this
      cases this
  · have hrun : ¬(cfg.startsSlave = false ∨ s.main.pc.Early) := by
      rw [← hstarted, hexit]
      exact fun h => nomatch h
    rw [not_or, Bool.not_eq_false] at hrun
    have hlate : ¬s.main.pc.Late := fun h => by
      rcases hacc.joined h with h | h <;> rw [hexit] at h <;> cases h
    refine .inr ⟨?_, hexit, hrun.1⟩
    cases hpc : s.main.pc with
    | returned => exact absurd (Or.inr hpc) hlate
    | exited b => exact absurd (Or.inr (Or.inr ⟨b, hpc⟩)) hrun.2
    | _ => rfl

/-- When all is over, the port has gone back once for every call of `serverInit`, and once more
for the exit function of a heartbeat thread, unless that has ended the process. -/
theorem count_listening_eq (run : Run (Steps cfg) (.start cfg) ls s) (hover : s.Over) :
    s.sent.count .listening = 1 + ls.countP Label.execFails +
      if cfg.startsSlave = true ∧ gaveUps ls = 0 then 1 else 0 := by
  have hacc := accounted run
  have hsent := hacc.sent
  have hran := hacc.ran
  have hchildren : (s.children.map (·.pc.sentBack)).sum = s.children.length := by
    rw [List.map_congr_left (g := fun _ => 1) fun c hc => by rw [hover.2 c hc]; rfl]
    simp
  have hlen := hacc.children
  rcases hacc.over hover with ⟨hret, ⟨hslave, hmode⟩ | ⟨hslave, hmode⟩⟩ | ⟨hmain, hslave, hmode⟩
  · have hmain : s.main.pc.sentBack = 1 := by rw [hret]; rfl
    simp only [hslave, SlavePc.Ran, SlavePc.pending] at hran hsent
    simp only [hmode, Bool.false_eq_true, false_and, ↓reduceIte]
    omega
  · have hmain : s.main.pc.sentBack = 1 := by rw [hret]; rfl
    simp only [hslave, SlavePc.Ran, SlavePc.pending] at hran hsent
    simp only [hmode, hran.1, and_self, ↓reduceIte]
    omega
  · simp only [hslave, SlavePc.Ran, SlavePc.pending] at hran hsent
    simp only [hran.1, Nat.one_ne_zero, and_false, ↓reduceIte]
    omega

/-- The listening port goes back exactly once, and the exit function runs at most once, in
just the runs in which no child's `execvp` fails and a heartbeat thread, if there is one,
does not come through its circuit. -/
theorem returned_once_iff (run : Run (Steps cfg) (.start cfg) ls s) (hover : s.Over) :
    s.Once ↔ (cfg.startsSlave = true → .slave .circuit false ∈ ls) ∧
      ∀ l ∈ ls, l.execFails = false := by
  have hcount := count_listening_eq run hover
  have hfails : ls.countP Label.execFails = 0 ↔ ∀ l ∈ ls, l.execFails = false := by
    simp only [List.countP_eq_zero, Bool.not_eq_true]
  have hgave : gaveUps ls = 0 ↔ .slave .circuit false ∉ ls := List.count_eq_zero
  rw [Server.Once, hcount, ← hfails, ← not_imp_not, ← hgave, and_iff_left (exitRuns_le_one run)]
  cases cfg.startsSlave with
  | true =>
    by_cases hzero : gaveUps ls = 0
    · simp [hzero]
    · simp [hzero]
  | false => simp

def inSlaveMode : Config := ⟨true, false⟩

def exitFunc (inCircuit : Bool) : List Label :=
  [ExitPart.locked, .trigger, .sigFunc, .cleanFunc].map fun part => .slave (.exitFunc part inCircuit) true

/-- A server in slave mode whose circuit gives up, while it serves a connection. -/
def gaveUp : List Label :=
  [.main (.initModule .listening), .main .next, .slave .circuit false] ++ exitFunc true ++
    [.main .next, .main .next, .slave .greetClosed true]

theorem returned_once_gaveUp : ∃ s, Run (Steps inSlaveMode) (.start inSlaveMode) gaveUp s ∧
    s.slave = .exited ∧ s.Once := by
  obtain ⟨s, hs⟩ : ∃ s, gaveUp.foldlM (Server.step inSlaveMode) (.start inSlaveMode) = some s :=
    ⟨_, rfl⟩
  have hover : s.slave = .exited ∧ s.Over := by
    cases hs
    exact ⟨rfl, .inr rfl, fun c hc => by cases hc⟩
  have hrun := run_of_foldlM hs
  exact ⟨s, hrun, hover.1, (returned_once_iff hrun hover.2).mpr ⟨fun _ => by decide, by decide⟩⟩

/-- A server in slave mode that registers, serves a connection and sends a heartbeat; the next
one fails. -/
def heartbeatFails : List Label :=
  [.main (.initModule .listening), .main .next, .slave .circuit true, .slave .greet true,
    .slave .send true, .slave .read true, .main .next, .main (.round (.accepted .worker)),
    .slave .heartbeat true, .slave .heartbeat false] ++ exitFunc false ++
    [.main .next, .main .next, .main .next]

/-- The exit function of the heartbeat thread and the tail of `serverInit` send the port back. -/
theorem returned_twice : ∃ s, Run (Steps inSlaveMode) (.start inSlaveMode) heartbeatFails s ∧
    s.main.pc = .returned ∧ s.Over ∧ s.sent.count .listening = 2 ∧ ¬s.Once := by
  obtain ⟨s, hs⟩ :
      ∃ s, heartbeatFails.foldlM (Server.step inSlaveMode) (.start inSlaveMode) = some s := ⟨_, rfl⟩
  have hrun := run_of_foldlM hs
  cases hs
  exact ⟨_, hrun, rfl, ⟨.inl rfl, fun c hc => by cases hc⟩, rfl, fun h => absurd h.1 (by decide)⟩

end EmotionStreamer.ServerLifetime
