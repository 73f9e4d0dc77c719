import EmotionStreamer.Preprocessor
import Mathlib.Data.List.Range
import Mathlib.Data.Int.Basic

/-! The port mapper's table and the functions of `mapper.c` that read or change
it. Every index used on `mapper.port_arr`, on a `port_array` or on the
notification buffer is checked; an access outside its array is a fault. -/
namespace EmotionStreamer.PortMapper

/-- The two 16-bit values of the configuration file. -/
structure Config where
  initPort : ℕ
  numPorts : ℕ
  initPort_lt : initPort < uint16Size
  numPorts_lt : numPorts < uint16Size

/-- `PORT_FREE` and `PORT_ALLOCATED`; the cells themselves are 32-bit integers. -/
def portFree : ℤ := 0
def portAllocated : ℤ := 1

def numPortsToGive : ℕ := 9

structure Mapper where
  portArr : List ℤ
  currNumPorts : ℕ
  deriving DecidableEq, Repr

/-- A `port_array`: cell 0 is the count, cells 1 to `DEF_DATASIZE` are ports. -/
structure PortArray where
  count : ℕ
  ports : List ℕ
  length_ports : ports.length = defDatasize
  deriving DecidableEq

inductive Fault
  | portArr (index : ℤ)
  | portArray (index : ℕ)
  | notification (offset : ℕ)
  deriving DecidableEq, Repr

def PortArray.zero : PortArray := ⟨0, List.replicate defDatasize 0, List.length_replicate⟩

/-- `arr[arr[0]+1]=port; arr[0]++` -/
def PortArray.push (arr : PortArray) (port : ℕ) : Except Fault PortArray :=
  if arr.count < defDatasize then
    .ok ⟨arr.count + 1, arr.ports.set arr.count port, by simp [arr.length_ports]⟩
  else .error (.portArray (arr.count + 1))

def PortArray.port (arr : PortArray) (i : ℕ) : Except Fault ℕ :=
  match arr.ports[i]? with
  | some p => .ok p
  | none => .error (.portArray (i + 1))

/-- The ports a reply or a return message lists: its first `arr[0]` entries. -/
def PortArray.announced (arr : PortArray) : List ℕ := arr.ports.take arr.count

def Mapper.look (m : Mapper) (i : ℤ) : Except Fault ℤ :=
  if 0 ≤ i then
    match m.portArr[i.toNat]? with
    | some v => .ok v
    | none => .error (.portArr i)
  else .error (.portArr i)

def Mapper.set (m : Mapper) (i v : ℤ) : Except Fault Mapper :=
  if 0 ≤ i ∧ i.toNat < m.portArr.length then
    .ok { m with portArr := m.portArr.set i.toNat v }
  else .error (.portArr i)

/-- The 16-bit counter, set to its own value plus or minus one. -/
def Mapper.incr (m : Mapper) : Mapper :=
  { m with currNumPorts := (m.currNumPorts + 1) % uint16Size }
def Mapper.decr (m : Mapper) : Mapper :=
  { m with currNumPorts := (m.currNumPorts + (uint16Size - 1)) % uint16Size }

def isNoMoreRoom (cfg : Config) (m : Mapper) : Bool := cfg.numPorts ≤ m.currNumPorts
def isEmpty (m : Mapper) : Bool := m.currNumPorts = 0

/-- The body shared by `close_ports` and `close_single_port`: whether the cell
was allocated, and the table with it freed. -/
def closeCell (cfg : Config) (m : Mapper) (port : ℕ) : Except Fault (Bool × Mapper) := do
  let index : ℤ := (port : ℤ) - cfg.initPort
  let state ← m.look index
  if state = portAllocated then
    let m ← m.set index portFree
    return (true, m.decr)
  else return (false, m)

/-- The loop of `close_ports` from entry `i` on, with `n` entries left. -/
def closeLoop (cfg : Config) (arr : PortArray) : (n i : ℕ) → Mapper → Except Fault Mapper
  | 0, _, m => .ok m
  | n + 1, i, m => do
    let port ← arr.port i
    let (_, m) ← closeCell cfg m port
    closeLoop cfg arr n (i + 1) m

def closePorts (cfg : Config) (m : Mapper) (arr : PortArray) : Except Fault Mapper :=
  if isEmpty m then .ok m else closeLoop cfg arr arr.count 0 m

def closeSinglePort (cfg : Config) (m : Mapper) (port : ℕ) : Except Fault (Bool × Mapper) :=
  if isEmpty m then .ok (false, m) else closeCell cfg m port

/-- Write `PORT_ALLOCATED` into a cell and count it, unless this is a dry run. -/
def takeCell (change : Bool) (m : Mapper) (index : ℤ) : Except Fault Mapper := do
  if change then
    let m ← m.set index portAllocated
    return m.incr
  else return m

/-- The loop of `fetch_ports_to_give` at port `curr`, with `n` ports left. -/
def fetchLoop (cfg : Config) (change : Bool) :
    (n curr : ℕ) → PortArray → Mapper → Except Fault (PortArray × Mapper)
  | 0, _, arr, m => .ok (arr, m)
  | n + 1, curr, arr, m =>
    if arr.count < numPortsToGive then do
      let index : ℤ := (curr : ℤ) - cfg.initPort
      let state ← m.look index
      if state = portFree then
        let arr ← arr.push (curr % uint16Size)
        let m ← takeCell change m index
        fetchLoop cfg change n (curr + 1) arr m
      else fetchLoop cfg change n (curr + 1) arr m
    else .ok (arr, m)

/-- `fetch_ports_to_give` up to its loop, and the closing it does at the end. -/
def fetchFree (cfg : Config) (m : Mapper) (arr : PortArray) (change : Bool) :
    Except Fault (PortArray × Mapper) :=
  if isNoMoreRoom cfg m then .ok (arr, m)
  else fetchLoop cfg change cfg.numPorts cfg.initPort arr m
def closeIfShort (cfg : Config) (m : Mapper) (arr : PortArray) : Except Fault Mapper :=
  if arr.count ≠ numPortsToGive then closePorts cfg m arr else .ok m

/-- The result is `true` when the array does not hold `NUM_PORTS_TO_GIVE` ports;
in that case the ports are closed again but stay listed in the array. -/
def fetchPortsToGive (cfg : Config) (m : Mapper) (arr : PortArray) (change : Bool) :
    Except Fault (Bool × PortArray × Mapper) := do
  let (arr, m) ← fetchFree cfg m arr change
  let m ← closeIfShort cfg m arr
  return (arr.count ≠ numPortsToGive, arr, m)

/-- The loop of `fetch_single_port_to_give`; `none` when every cell is taken. -/
def fetchSingleLoop (cfg : Config) (change : Bool) :
    (n curr : ℕ) → Mapper → Except Fault (Option ℕ × Mapper)
  | 0, _, m => .ok (none, m)
  | n + 1, curr, m => do
    let index : ℤ := (curr : ℤ) - cfg.initPort
    let state ← m.look index
    if state = portFree then
      let m ← takeCell change m index
      return (some (curr % uint16Size), m)
    else fetchSingleLoop cfg change n (curr + 1) m

def fetchSinglePortToGive (cfg : Config) (m : Mapper) (change : Bool) :
    Except Fault (Option ℕ × Mapper) :=
  if isNoMoreRoom cfg m then .ok (none, m)
  else fetchSingleLoop cfg change cfg.numPorts cfg.initPort m

end EmotionStreamer.PortMapper
