import EmotionStreamer.Accesses
import EmotionStreamer.PortMapperBounds

/-! The functions of `mapper.c` as programs of calls of `acess_var_mtx` and
`acess_var_mtx_uint16`, which two threads of the port mapper run at the same time. With no
other thread in between they are the functions of the table. -/
namespace EmotionStreamer.PortMapper
open Accesses

/-- The place of a look at a cell: the display of a print, the search for free cells, or
the closing of a port. -/
inductive Site
  | display | search | close
  deriving DecidableEq, Repr

/-- A call with `V_LOOK` or `V_SET` on a cell or on the counter. -/
inductive Access
  | lookCell (site : Site) (i : ℤ)
  | setCell (i v : ℤ)
  | lookCount
  | setCount (n : ℤ)
  deriving DecidableEq, Repr

/-- The counter is a `uint16_t`. -/
def perform : Access → Mapper → Except Fault (ℤ × Mapper)
  | .lookCell _ i, m => do
    let v ← m.look i
    return (v, m)
  | .setCell i v, m => do
    let m ← m.set i v
    return (0, m)
  | .lookCount, m => .ok (m.currNumPorts, m)
  | .setCount n, m => .ok (0, { m with currNumPorts := (n % uint16Size).toNat })

abbrev Program := Prog Access ℤ Fault

namespace Threads

def isNoMoreRoom (cfg : Config) : Program Bool := do
  let count ← .access .lookCount
  return cfg.numPorts ≤ count

def isEmpty : Program Bool := do
  let count ← .access .lookCount
  return count = 0

def closeCell (cfg : Config) (port : ℕ) : Program Bool := do
  let index : ℤ := (port : ℤ) - cfg.initPort
  let state ← .access (.lookCell .close index)
  if state = portAllocated then
    let _ ← .access (.setCell index portFree)
    let count ← .access .lookCount
    let _ ← .access (.setCount (count - 1))
    return true
  else return false

def closeLoop (cfg : Config) (arr : PortArray) : (n i : ℕ) → Program Unit
  | 0, _ => return ()
  | n + 1, i => do
    let port ← .lift (arr.port i)
    let _ ← closeCell cfg port
    closeLoop cfg arr n (i + 1)

def closePorts (cfg : Config) (arr : PortArray) : Program Unit := do
  if ← isEmpty then return () else closeLoop cfg arr arr.count 0

def closeSinglePort (cfg : Config) (port : ℕ) : Program Bool := do
  if ← isEmpty then return false else closeCell cfg port

/-- In a dry run the three accesses are looks. -/
def takeCell (change : Bool) (index : ℤ) : Program Unit := do
  if change then
    let _ ← .access (.setCell index portAllocated)
    let count ← .access .lookCount
    let _ ← .access (.setCount (count + 1))
    return ()
  else
    let _ ← .access (.lookCell .search index)
    let _ ← .access .lookCount
    let _ ← .access .lookCount
    return ()

def fetchLoop (cfg : Config) (change : Bool) : (n curr : ℕ) → PortArray → Program PortArray
  | 0, _, arr => return arr
  | n + 1, curr, arr =>
    if arr.count < numPortsToGive then do
      let index : ℤ := (curr : ℤ) - cfg.initPort
      let state ← .access (.lookCell .search index)
      if state = portFree then
        let arr ← .lift (arr.push (curr % uint16Size))
        let _ ← takeCell change index
        fetchLoop cfg change n (curr + 1) arr
      else fetchLoop cfg change n (curr + 1) arr
    else return arr

def fetchFree (cfg : Config) (arr : PortArray) (change : Bool) : Program PortArray := do
  if ← isNoMoreRoom cfg then return arr
  else fetchLoop cfg change cfg.numPorts cfg.initPort arr

def closeIfShort (cfg : Config) (arr : PortArray) : Program Unit :=
  if arr.count ≠ numPortsToGive then closePorts cfg arr else return ()

def fetchPortsToGive (cfg : Config) (arr : PortArray) (change : Bool) :
    Program (Bool × PortArray) := do
  let arr ← fetchFree cfg arr change
  let _ ← closeIfShort cfg arr
  return (arr.count ≠ numPortsToGive, arr)

def fetchSingleLoop (cfg : Config) (change : Bool) : (n curr : ℕ) → Program (Option ℕ)
  | 0, _ => return none
  | n + 1, curr => do
    let index : ℤ := (curr : ℤ) - cfg.initPort
    let state ← .access (.lookCell .search index)
    if state = portFree then
      let _ ← takeCell change index
      return some (curr % uint16Size)
    else fetchSingleLoop cfg change n (curr + 1)

def fetchSinglePortToGive (cfg : Config) (change : Bool) : Program (Option ℕ) := do
  if ← isNoMoreRoom cfg then return none
  else fetchSingleLoop cfg change cfg.numPorts cfg.initPort

def cellChars : (n i : ℕ) → Program (List Char)
  | 0, _ => return []
  | n + 1, i => do
    let state ← .access (.lookCell .display i)
    let rest ← cellChars n (i + 1)
    return cellChar state :: rest

def portMapperPrint (cfg : Config) (running : Bool) : Program String := do
  let cells ← cellChars cfg.numPorts 0
  let (_, arr) ← fetchPortsToGive cfg .zero false
  let full ← isNoMoreRoom cfg
  let empty ← isEmpty
  let count ← .access .lookCount
  return printText cfg cells arr running full empty count.toNat

def checkPortFunc (cfg : Config) (port : ℕ) : Program String :=
  if port < cfg.initPort ∨ cfg.initPort + cfg.numPorts < port then return rangeText cfg
  else do
    let state ← .access (.lookCell .display ((port : ℤ) - cfg.initPort))
    return stateText state

def closePortsFromClient (cfg : Config) (x : Exchange) : Program Unit := do
  if x.sendResult ≤ 0 then return ()
  else if x.readResult ≤ 0 then return ()
  else
    let _ ← .lift (notificationLoop x.portArr x.portArr.count 0 0)
    closePorts cfg x.portArr

def closeSinglePortFromClient (cfg : Config) (x : Exchange) : Program Unit := do
  if x.sendResult ≤ 0 then return ()
  else if x.readResult ≤ 0 then return ()
  else
    let _ ← closeSinglePort cfg x.port
    return ()

/-- The accesses of the main thread for one accepted connection. -/
def acceptedConnectionThread (cfg : Config) (x : Exchange) : Program Unit :=
  match requestKind x.requestBuff with
  | .awkwardJoin => do
    let _ ← fetchSinglePortToGive cfg true
    return ()
  | .join => do
    let _ ← fetchPortsToGive cfg .zero true
    return ()
  | .leave => closePortsFromClient cfg x
  | .awkwardLeave => closeSinglePortFromClient cfg x
  | .unknown => return ()

end Threads

/-- The commands of `port_mapper_input_loop` that touch the table. -/
inductive Command
  | print (running : Bool)
  | kill (port : UInt16)
  | check (port : UInt16)
  deriving DecidableEq

/-- The accesses of the input thread for one command. -/
def Command.program (cfg : Config) : Command → Program Unit
  | .print running => do
    let _ ← Threads.portMapperPrint cfg running
    return ()
  | .kill port => do
    let _ ← Threads.closeSinglePort cfg port.toNat
    return ()
  | .check port => do
    let _ ← Threads.checkPortFunc cfg port.toNat
    return ()

/-! Alone, a thread does to the table what the functions of the table say. -/

section Alone
variable {cfg : Config} {m : Mapper}

@[simp] theorem ok_bind {α β : Type} (a : α) (f : α → Except Fault β) :
    (Except.ok a >>= f) = f a := rfl

@[simp] theorem pure_ok {α : Type} (a : α) : (pure a : Except Fault α) = .ok a := rfl

@[simp] theorem run_isNoMoreRoom :
    (Threads.isNoMoreRoom cfg).run perform m = .ok (isNoMoreRoom cfg m, m) := by
  simp [Threads.isNoMoreRoom, perform, isNoMoreRoom]

@[simp] theorem run_isEmpty : Threads.isEmpty.run perform m = .ok (isEmpty m, m) := by
  simp [Threads.isEmpty, perform, isEmpty]

theorem incr_eq (m : Mapper) :
    { m with currNumPorts := (((m.currNumPorts : ℤ) + 1) % uint16Size).toNat } = m.incr := by
  have h : (((m.currNumPorts : ℤ) + 1) % uint16Size).toNat = (m.currNumPorts + 1) % uint16Size := by
    simp only [uint16Size]
    omega
  rw [Mapper.incr, h]

theorem decr_eq (m : Mapper) :
    { m with currNumPorts := (((m.currNumPorts : ℤ) - 1) % uint16Size).toNat } = m.decr := by
  have h : (((m.currNumPorts : ℤ) - 1) % uint16Size).toNat =
      (m.currNumPorts + (uint16Size - 1)) % uint16Size := by
    simp only [uint16Size]
    omega
  rw [Mapper.decr, h]

theorem run_closeCell (port : ℕ) :
    (Threads.closeCell cfg port).run perform m = closeCell cfg m port := by
  simp only [Threads.closeCell, closeCell, run_bind, run_access, perform]
  cases m.look ((port : ℤ) - cfg.initPort) with
  | error e => rfl
  | ok v =>
    simp only [pure_ok, ok_bind, run_ite, run_bind, run_access, run_pure, perform]
    cases m.set ((port : ℤ) - cfg.initPort) portFree with
    | error e => rfl
    | ok m' => simp only [ok_bind, decr_eq]

theorem run_closeLoop {arr : PortArray} (n i : ℕ) :
    (Threads.closeLoop cfg arr n i).run perform m = (closeLoop cfg arr n i m).map ((), ·) := by
  induction n generalizing i m with
  | zero => rfl
  | succ n ih =>
    simp only [Threads.closeLoop, closeLoop, run_bind, run_lift]
    cases arr.port i with
    | error e => rfl
    | ok port =>
      simp only [Except.map, ok_bind, run_closeCell]
      cases closeCell cfg m port with
      | error e => rfl
      | ok r => exact ih (i + 1)

theorem run_closePorts {arr : PortArray} :
    (Threads.closePorts cfg arr).run perform m = (closePorts cfg m arr).map ((), ·) := by
  simp only [Threads.closePorts, closePorts, run_bind, run_isEmpty, ok_bind, run_ite, run_pure,
    run_closeLoop]
  split_ifs <;> rfl

theorem run_closeSinglePort (port : ℕ) :
    (Threads.closeSinglePort cfg port).run perform m = closeSinglePort cfg m port := by
  simp only [Threads.closeSinglePort, closeSinglePort, run_bind, run_isEmpty, ok_bind, run_ite,
    run_pure, run_closeCell]

theorem run_takeCell (change : Bool) {i v : ℤ} (h : m.look i = .ok v) :
    (Threads.takeCell change i).run perform m = (takeCell change m i).map ((), ·) := by
  cases change with
  | false =>
    simp only [Threads.takeCell, takeCell, Bool.false_eq_true, ↓reduceIte, run_bind, run_access,
      perform, h, ok_bind]
    rfl
  | true =>
    simp only [Threads.takeCell, takeCell, ↓reduceIte, run_bind, run_access, perform]
    cases m.set i portAllocated with
    | error e => rfl
    | ok m' => simp only [ok_bind, pure, Except.pure, Except.map, ← incr_eq m']; rfl

theorem run_fetchLoop (change : Bool) (n curr : ℕ) (arr : PortArray) :
    (Threads.fetchLoop cfg change n curr arr).run perform m =
      fetchLoop cfg change n curr arr m := by
  induction n generalizing curr arr m with
  | zero => rfl
  | succ n ih =>
    simp only [Threads.fetchLoop, fetchLoop, run_ite, run_pure, run_bind, run_access, perform]
    split_ifs with hlt
    · cases hlook : m.look ((curr : ℤ) - cfg.initPort) with
      | error e => rfl
      | ok v =>
        simp only [pure_ok, ok_bind, run_lift, ih]
        split_ifs with hfree
        · cases arr.push (curr % uint16Size) with
          | error e => rfl
          | ok arr' =>
            simp only [Except.map, ok_bind, run_takeCell change hlook]
            cases takeCell change m ((curr : ℤ) - cfg.initPort) with
            | error e => rfl
            | ok m' => rfl
        · rfl
    · rfl

theorem run_fetchPortsToGive (arr : PortArray) (change : Bool) :
    (Threads.fetchPortsToGive cfg arr change).run perform m =
      (fetchPortsToGive cfg m arr change).map fun r => ((r.1, r.2.1), r.2.2) := by
  have hfree : (Threads.fetchFree cfg arr change).run perform m = fetchFree cfg m arr change := by
    simp only [Threads.fetchFree, fetchFree, run_bind, run_isNoMoreRoom, ok_bind, run_ite,
      run_pure, run_fetchLoop]
  simp only [Threads.fetchPortsToGive, fetchPortsToGive, run_bind, hfree]
  cases fetchFree cfg m arr change with
  | error e => rfl
  | ok r =>
    simp only [ok_bind, Threads.closeIfShort, closeIfShort, run_ite, run_closePorts]
    split_ifs
    · cases closePorts cfg r.2 r.1 <;> rfl
    · rfl

theorem run_fetchSingleLoop (change : Bool) (n curr : ℕ) :
    (Threads.fetchSingleLoop cfg change n curr).run perform m =
      fetchSingleLoop cfg change n curr m := by
  induction n generalizing curr m with
  | zero => rfl
  | succ n ih =>
    simp only [Threads.fetchSingleLoop, fetchSingleLoop, run_bind, run_access, perform]
    cases hlook : m.look ((curr : ℤ) - cfg.initPort) with
    | error e => rfl
    | ok v =>
      simp only [pure_ok, ok_bind, run_ite, run_bind, run_pure, ih, run_takeCell change hlook]
      split_ifs with hfree
      · cases takeCell change m ((curr : ℤ) - cfg.initPort) with
        | error e => rfl
        | ok m' => rfl
      · rfl

theorem run_fetchSinglePortToGive (change : Bool) :
    (Threads.fetchSinglePortToGive cfg change).run perform m =
      fetchSinglePortToGive cfg m change := by
  simp only [Threads.fetchSinglePortToGive, fetchSinglePortToGive, run_bind, run_isNoMoreRoom,
    ok_bind, run_ite, run_pure, run_fetchSingleLoop]

theorem run_cellChars (n i : ℕ) :
    (Threads.cellChars n i).run perform m = (cellChars m n i).map (·, m) := by
  induction n generalizing i with
  | zero => rfl
  | succ n ih =>
    simp only [Threads.cellChars, cellChars, run_bind, run_access, perform]
    cases m.look (i : ℤ) with
    | error e => rfl
    | ok v =>
      simp only [pure_ok, ok_bind, ih]
      cases cellChars m n (i + 1) with
      | error e => rfl
      | ok rest => rfl

theorem run_portMapperPrint (running : Bool) :
    (Threads.portMapperPrint cfg running).run perform m = portMapperPrint cfg running m := by
  simp only [Threads.portMapperPrint, portMapperPrint, run_bind, run_cellChars]
  cases cellChars m cfg.numPorts 0 with
  | error e => rfl
  | ok cells =>
    simp only [Except.map, ok_bind, run_fetchPortsToGive]
    cases fetchPortsToGive cfg m .zero false with
    | error e => rfl
    | ok r => simp [perform]

theorem run_checkPortFunc (port : ℕ) :
    (Threads.checkPortFunc cfg port).run perform m = (checkPortFunc cfg m port).map (·, m) := by
  simp only [Threads.checkPortFunc, checkPortFunc, run_ite, run_pure, run_bind, run_access, perform]
  split_ifs
  · rfl
  · cases m.look ((port : ℤ) - cfg.initPort) <;> rfl

theorem run_closePortsFromClient (x : Exchange) :
    (Threads.closePortsFromClient cfg x).run perform m =
      (closePortsFromClient cfg m x).map ((), ·) := by
  simp only [Threads.closePortsFromClient, closePortsFromClient, run_ite, run_pure, run_bind, run_lift]
  split_ifs
  · rfl
  · rfl
  · cases notificationLoop x.portArr x.portArr.count 0 0 with
    | error e => rfl
    | ok off => exact run_closePorts

theorem run_closeSinglePortFromClient (x : Exchange) :
    (Threads.closeSinglePortFromClient cfg x).run perform m =
      (closeSinglePortFromClient cfg m x).map ((), ·) := by
  simp only [Threads.closeSinglePortFromClient, closeSinglePortFromClient, run_ite, run_pure,
    run_bind, run_closeSinglePort]
  split_ifs
  · rfl
  · rfl
  · cases closeSinglePort cfg m x.port <;> rfl

/-- A request, without the other thread. -/
theorem run_acceptedConnectionThread (x : Exchange) :
    (Threads.acceptedConnectionThread cfg x).run perform m =
      (acceptedConnectionThread cfg m x).map fun h => ((), h.mapper) := by
  unfold Threads.acceptedConnectionThread acceptedConnectionThread
  cases requestKind x.requestBuff with
  | awkwardJoin =>
    simp only [run_bind, run_fetchSinglePortToGive, run_pure]
    cases fetchSinglePortToGive cfg m true <;> rfl
  | join =>
    simp only [run_bind, run_fetchPortsToGive, run_pure]
    cases fetchPortsToGive cfg m .zero true <;> rfl
  | leave =>
    simp only [run_closePortsFromClient]
    cases closePortsFromClient cfg m x <;> rfl
  | awkwardLeave =>
    simp only [run_closeSinglePortFromClient]
    cases closeSinglePortFromClient cfg m x <;> rfl
  | unknown => rfl

end Alone

end EmotionStreamer.PortMapper
