import EmotionStreamer.PortMapperAlloc
import EmotionStreamer.Runs

/-! The allocator's operations one after another: the counter counts the allocated
cells after any number of them, and the two tests of the counter are right. -/
namespace EmotionStreamer.PortMapper
open Runs

/-- `port_mapper_init` without a port mapper file. -/
def Mapper.start (cfg : Config) : Mapper := ⟨List.replicate cfg.numPorts portFree, 0⟩

def InRange (cfg : Config) (port : ℕ) : Prop :=
  cfg.initPort ≤ port ∧ port < cfg.initPort + cfg.numPorts

/-- `port_state?((port_state>0)?'t':'r'):'-'` -/
def cellChar (state : ℤ) : Char := if state ≠ 0 then if 0 < state then 't' else 'r' else '-'

/-- The characters for the `n` cells from `i` on. -/
def cellChars (m : Mapper) : (n i : ℕ) → Except Fault (List Char)
  | 0, _ => .ok []
  | n + 1, i => do
    let state ← m.look i
    let rest ← cellChars m n (i + 1)
    return cellChar state :: rest

/-- The first ports of the array, whether or not they are counted. -/
def portLines (arr : PortArray) : String :=
  String.join ((arr.ports.take numPortsToGive).map fun port => "-" ++ toString port ++ "\n")

def printText (cfg : Config) (cells : List Char) (arr : PortArray) (running full empty : Bool)
    (count : ℕ) : String :=
  "Aqui está o estado atual do port mapper!\nPortas a fornecer: de " ++ toString cfg.initPort ++
    " a " ++ toString (cfg.initPort + cfg.numPorts) ++ "\n\n\n" ++
  "Reservadas: 'r'\nAllocadas: 't'\nLivres: '-'\n[" ++ String.ofList cells ++
  "]\n\nAqui estão as portas que seriam entregues a seguir:\nSeriam entregues " ++
    toString arr.count ++ " portas!\n" ++ portLines arr ++
  "\n\n\nPort mapper está a correr? " ++ (if running then "Yes!" else "No...") ++
  "\nEstamos cheios? " ++ (if full then "Yes!" else "No....") ++
  "\nEstamos vazios? " ++ (if empty then "Yes!" else "No....") ++
  "\nNumero atual de portas:" ++ toString count ++ "\n\n\n"

/-- The text, with the ports that a dry run of `fetch_ports_to_give` finds. -/
def portMapperPrint (cfg : Config) (running : Bool) (m : Mapper) :
    Except Fault (String × Mapper) := do
  let cells ← cellChars m cfg.numPorts 0
  let (_, arr, m) ← fetchPortsToGive cfg m .zero false
  return (printText cfg cells arr running (isNoMoreRoom cfg m) (isEmpty m) m.currNumPorts, m)

/-- A complete operation; the ports to close may repeat and need not be allocated. -/
inductive Op (cfg : Config)
  | fetchSinglePortToGive (change : Bool)
  | fetchPortsToGive (change : Bool)
  | closePorts (arr : PortArray) (count_le : arr.count ≤ defDatasize)
      (inRange : ∀ p ∈ arr.announced, InRange cfg p)
  | closeSinglePort (port : ℕ) (inRange : InRange cfg port)
  | portMapperPrint (running : Bool)

def Op.run {cfg : Config} (m : Mapper) : Op cfg → Except Fault Mapper
  | .fetchSinglePortToGive change => (PortMapper.fetchSinglePortToGive cfg m change).map (·.2)
  | .fetchPortsToGive change => (PortMapper.fetchPortsToGive cfg m .zero change).map (·.2.2)
  | .closePorts arr _ _ => PortMapper.closePorts cfg m arr
  | .closeSinglePort port _ => (PortMapper.closeSinglePort cfg m port).map (·.2)
  | .portMapperPrint running => (PortMapper.portMapperPrint cfg running m).map (·.2)

/-- The counter is right, and no cell is reserved. -/
structure Counted (cfg : Config) (m : Mapper) : Prop where
  valid : Valid cfg m
  cells : ∀ v ∈ m.portArr, v = portFree ∨ v = portAllocated

variable {cfg : Config} {m : Mapper} {ks : List ℕ}

theorem start_counted (cfg : Config) : Counted cfg (.start cfg) := by
  refine ⟨⟨List.length_replicate, ?_⟩, fun v hv => Or.inl (List.eq_of_mem_replicate hv)⟩
  simp [Mapper.start, List.count_replicate, portFree, portAllocated]

theorem Counted.closeAll (h : Counted cfg m) (ks : List ℕ) : Counted cfg (m.closeAll ks) := by
  refine ⟨h.valid.closeAll ks, fun v hv => ?_⟩
  obtain ⟨j, hj⟩ := List.mem_iff_getElem?.mp hv
  rw [closeAll_getElem?] at hj
  split_ifs at hj
  · exact Or.inl (Option.some.inj hj).symm
  · exact h.cells v (List.mem_of_getElem? hj)

theorem Counted.grant (change : Bool) (h : Counted cfg m) (hnd : ks.Nodup)
    (hks : ∀ k ∈ ks, m.portArr[k]? = some portFree) : Counted cfg (m.grant change ks) := by
  refine ⟨(grant_closeAll change h.valid hnd hks).1, ?_⟩
  cases change with
  | false => exact h.cells
  | true =>
    intro v hv
    obtain ⟨j, hj⟩ := List.mem_iff_getElem?.mp hv
    rw [Mapper.grant, if_pos rfl, takeAll_getElem? m ks fun k hk =>
      (List.getElem?_eq_some_iff.mp (hks k hk)).1] at hj
    split_ifs at hj
    · exact Or.inr (Option.some.inj hj).symm
    · exact h.cells v (List.mem_of_getElem? hj)

theorem Counted.isNoMoreRoom_iff (h : Counted cfg m) :
    isNoMoreRoom cfg m = true ↔ portFree ∉ m.portArr := by
  have hcount : isNoMoreRoom cfg m = true ↔ m.portArr.count portAllocated = m.portArr.length := by
    have hle : m.portArr.count portAllocated ≤ m.portArr.length := List.count_le_length
    rw [isNoMoreRoom, decide_eq_true_eq, h.valid.counted, ← h.valid.length_eq]
    omega
  rw [hcount, List.count_eq_length]
  refine ⟨fun hall hmem => absurd (hall _ hmem) (by decide), fun hnot v hv => ?_⟩
  rcases h.cells v hv with rfl | rfl
  · exact absurd hv hnot
  · rfl

theorem Counted.isEmpty_iff (h : Counted cfg m) : isEmpty m = true ↔ portAllocated ∉ m.portArr := by
  rw [isEmpty, decide_eq_true_eq, h.valid.counted, List.count_eq_zero]

theorem look_fits (h : Valid cfg m) {k : ℕ} (hk : k < cfg.numPorts) : ∃ v, m.look k = .ok v := by
  have hl : k < m.portArr.length := h.length_eq ▸ hk
  exact ⟨m.portArr[k], look_cell (List.getElem?_eq_getElem hl)⟩

theorem cellChars_ok (h : Valid cfg m) (n i : ℕ) (hi : i + n = cfg.numPorts) :
    ∃ cells, cellChars m n i = .ok cells := by
  induction n generalizing i with
  | zero => exact ⟨[], rfl⟩
  | succ n ih =>
    obtain ⟨v, hv⟩ := look_fits h (k := i) (by omega)
    obtain ⟨rest, hrest⟩ := ih (i + 1) (by omega)
    refine ⟨cellChar v :: rest, ?_⟩
    rw [cellChars, hv]
    simp only [hrest, bind, Except.bind, pure, Except.pure]

theorem inRange_cell {p : ℕ} (h : InRange cfg p) : ∃ k < cfg.numPorts, p = cfg.initPort + k := by
  obtain ⟨hle, hlt⟩ := h
  exact ⟨p - cfg.initPort, by omega, by omega⟩

theorem inRange_cells {ps : List ℕ} (h : ∀ p ∈ ps, InRange cfg p) :
    ∃ ks : List ℕ, ps = ks.map (cfg.initPort + ·) ∧ ∀ k ∈ ks, k < cfg.numPorts := by
  induction ps with
  | nil => exact ⟨[], rfl, by simp⟩
  | cons p ps ih =>
    obtain ⟨ks, rfl, hks⟩ := ih fun q hq => h q (List.mem_cons_of_mem p hq)
    obtain ⟨k, hk, rfl⟩ := inRange_cell (h p List.mem_cons_self)
    exact ⟨k :: ks, rfl, by simpa using ⟨hk, hks⟩⟩

/-- A dry run leaves the table as it is. -/
theorem portMapperPrint_ok (h : Valid cfg m) (hwrap : cfg.initPort + cfg.numPorts ≤ uint16Size)
    (running : Bool) : ∃ text, portMapperPrint cfg running m = .ok (text, m) := by
  obtain ⟨cells, hcells⟩ := cellChars_ok h cfg.numPorts 0 (Nat.zero_add _)
  obtain ⟨arr, hfetch, -, -⟩ := fetchPortsToGive_grant h hwrap false
  have hgrant : (if arr.count = numPortsToGive then m.grant false (cellsToGive cfg m) else m) = m := by
    split_ifs <;> rfl
  rw [hgrant] at hfetch
  rw [portMapperPrint, hcells]
  simp only [hfetch, bind, Except.bind, pure, Except.pure]
  exact ⟨_, rfl⟩

/-- Step lemma: an operation does not fault, and leaves the counter right. -/
theorem Op.run_counted (hwrap : cfg.initPort + cfg.numPorts ≤ uint16Size) (h : Counted cfg m)
    (op : Op cfg) : ∃ m', op.run m = .ok m' ∧ Counted cfg m' := by
  cases op with
  | fetchSinglePortToGive change =>
    refine ⟨m.grant change (freeCells m 0 cfg.numPorts).head?.toList, ?_, ?_⟩
    · rw [Op.run, fetchSinglePortToGive_spec h.valid hwrap change]
      rfl
    · apply h.grant change
      · cases (freeCells m 0 cfg.numPorts).head? <;> simp
      · intro k hk
        rw [Option.mem_toList] at hk
        exact (mem_freeCells (List.mem_of_mem_head? hk)).1
  | fetchPortsToGive change =>
    obtain ⟨arr, hfetch, -, -⟩ := fetchPortsToGive_grant h.valid hwrap change
    refine ⟨_, by rw [Op.run, hfetch]; rfl, ?_⟩
    split_ifs
    · apply h.grant change (cellsToGive_nodup cfg m)
      intro k hk
      exact (mem_cellsToGive hk).1
    · exact h
  | closePorts arr count_le inRange =>
    obtain ⟨ks, hann, hks⟩ := inRange_cells inRange
    exact ⟨_, closePorts_eq h.valid count_le hann hks, h.closeAll ks⟩
  | closeSinglePort port inRange =>
    obtain ⟨k, hk, rfl⟩ := inRange_cell inRange
    refine ⟨m.close k, ?_, h.closeAll [k]⟩
    rw [Op.run, closeSinglePort_eq h.valid hk]
    rfl
  | portMapperPrint running =>
    obtain ⟨text, hprint⟩ := portMapperPrint_ok h.valid hwrap running
    refine ⟨m, ?_, h⟩
    rw [Op.run, hprint]
    rfl

/-- Any operations from the table where all cells are free do not fault, and end with
a counter, cells and tests that agree. -/
theorem allocator_counted (hwrap : cfg.initPort + cfg.numPorts ≤ uint16Size) (ops : List (Op cfg)) :
    ∃ m, ops.foldlM Op.run (.start cfg) = .ok m ∧
      m.portArr.length = cfg.numPorts ∧ m.currNumPorts = m.portArr.count portAllocated ∧
      (∀ v ∈ m.portArr, v = portFree ∨ v = portAllocated) ∧
      (isNoMoreRoom cfg m = true ↔ portFree ∉ m.portArr) ∧
      (isEmpty m = true ↔ portAllocated ∉ m.portArr) := by
  obtain ⟨m, hrun, h⟩ :=
    foldlM_invariant ops (start_counted cfg) fun m op h => op.run_counted hwrap h
  exact ⟨m, hrun, h.valid.length_eq, h.valid.counted, h.cells, h.isNoMoreRoom_iff, h.isEmpty_iff⟩

def tenPorts : Config := ⟨65526, 10, by decide, by decide⟩

/-- Up to the last port number: nine ports are granted, one of them is closed twice. -/
theorem allocator_counted_tenPorts : ∃ (ops : List (Op tenPorts)) (m : Mapper),
    ops.foldlM Op.run (.start tenPorts) = .ok m ∧ m.currNumPorts = 8 ∧
      m.currNumPorts = m.portArr.count portAllocated := by
  have hin : InRange tenPorts 65526 := ⟨by decide, by decide⟩
  let ops : List (Op tenPorts) :=
    [.fetchPortsToGive true, .portMapperPrint true, .closeSinglePort 65526 hin,
      .closeSinglePort 65526 hin]
  obtain ⟨m, hrun, -, hcount, -⟩ := allocator_counted (by decide) ops
  have height : ops.foldlM Op.run (.start tenPorts) = .ok ⟨[0, 1, 1, 1, 1, 1, 1, 1, 1, 0], 8⟩ := rfl
  obtain rfl := Except.ok.inj (hrun.symm.trans height)
  exact ⟨ops, _, hrun, rfl, hcount⟩

end EmotionStreamer.PortMapper
