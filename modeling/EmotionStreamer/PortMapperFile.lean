import EmotionStreamer.PortMapperGrants

/-! `port_mapper_file.c`: the port mapper's table in the file of the same directory, and
back. The file is absent or its bytes; opening fails only when it has to exist. -/
namespace EmotionStreamer.PortMapper
open LittleEndian

abbrev StateFile := Option (List UInt8)

/-- How many bytes each `write` of `save_port_mapper_file` puts into the file; their
results are not looked at. -/
structure Writes where
  numPorts : ℕ
  initPort : ℕ
  currNumPorts : ℕ
  portArr : ℕ

def Writes.complete (cfg : Config) : Writes := ⟨2, 2, 2, 4 * cfg.numPorts⟩

def savePortMapperFile (cfg : Config) (m : Mapper) (writes : Writes) (file : StateFile) :
    ℤ × StateFile :=
  match file with
  | none => (-1, none)
  | some _ => (0, some ((toBytes 2 cfg.numPorts).take writes.numPorts ++
      ((toBytes 2 cfg.initPort).take writes.initPort ++
      ((toBytes 2 m.currNumPorts).take writes.currNumPorts ++
      ((m.portArr.flatMap (intToBytes 4)).take (4 * cfg.numPorts)).take writes.portArr))))

/-- What `read` stores over the cells, of which it may not fill the last ones. -/
def storeCells (cells : List ℤ) (bytes : List UInt8) : List ℤ :=
  readAll 4 intOfBytes cells.length (bytes ++ (cells.flatMap (intToBytes 4)).drop bytes.length)

/-- The second `open` creates the file. Nothing is stored before the two values of the
configuration have been compared. -/
def fetchPortMapperFile (cfg : Config) (m : Mapper) (file : StateFile) : ℤ × Mapper × StateFile :=
  let bytes := file.getD []
  let numDeclaredPorts := bytes.take 2
  let initPort := (bytes.drop 2).take 2
  let currNumPorts := (bytes.drop 4).take 2
  if numDeclaredPorts = [] ∨ initPort = [] ∨ currNumPorts = [] then (-1, m, some bytes)
  else if cfg.numPorts ≠ ofBytes numDeclaredPorts ∨ cfg.initPort ≠ ofBytes initPort then
    (-1, m, some bytes)
  else (0, ⟨storeCells m.portArr ((bytes.drop 6).take (4 * cfg.numPorts)), ofBytes currNumPorts⟩,
    some bytes)

/-- A mapper with the source's types: a 16-bit counter and one 32-bit cell for each port. -/
structure TypedMapper (cfg : Config) where
  mapper : Mapper
  typed : Typed cfg mapper
  cells : ∀ v ∈ mapper.portArr, -(uint32Size : ℤ) ≤ v * 2 ∧ v * 2 < (uint32Size : ℤ)

variable {cfg : Config} {m : Mapper}

def headerBytes (cfg : Config) (m : Mapper) : List UInt8 :=
  toBytes 2 cfg.numPorts ++ (toBytes 2 cfg.initPort ++ toBytes 2 m.currNumPorts)

theorem flatMap_intToBytes_length (cells : List ℤ) :
    (cells.flatMap (intToBytes 4)).length = 4 * cells.length := by
  induction cells with
  | nil => rfl
  | cons v cells ih =>
    rw [List.flatMap_cons, List.length_append, ih, intToBytes_length, List.length_cons]
    omega

theorem savePortMapperFile_complete (hlen : m.portArr.length = cfg.numPorts)
    (bytes : List UInt8) : savePortMapperFile cfg m (.complete cfg) (some bytes) =
      (0, some (headerBytes cfg m ++ m.portArr.flatMap (intToBytes 4))) := by
  have hcells := flatMap_intToBytes_length m.portArr
  rw [hlen] at hcells
  simp only [savePortMapperFile, Writes.complete, headerBytes, List.append_assoc]
  rw [List.take_of_length_le (toBytes_length 2 _).le, List.take_of_length_le (toBytes_length 2 _).le,
    List.take_of_length_le (toBytes_length 2 _).le, List.take_of_length_le hcells.le,
    List.take_of_length_le hcells.le]

theorem ofBytes_uint16 {n : ℕ} (h : n < uint16Size) : ofBytes (toBytes 2 n) = n := by
  rw [ofBytes_toBytes]
  exact Nat.mod_eq_of_lt h

/-- The three numbers are found where they were put. -/
theorem fetchPortMapperFile_header (cfg' : Config) (m' : Mapper) (h : m.currNumPorts < uint16Size)
    (rest : List UInt8) :
    fetchPortMapperFile cfg' m' (some (headerBytes cfg m ++ rest)) =
      if cfg'.numPorts ≠ cfg.numPorts ∨ cfg'.initPort ≠ cfg.initPort then
        (-1, m', some (headerBytes cfg m ++ rest))
      else (0, ⟨storeCells m'.portArr (rest.take (4 * cfg'.numPorts)), m.currNumPorts⟩,
        some (headerBytes cfg m ++ rest)) := by
  have hdeclared : (headerBytes cfg m ++ rest).take 2 = toBytes 2 cfg.numPorts := rfl
  have hinit : ((headerBytes cfg m ++ rest).drop 2).take 2 = toBytes 2 cfg.initPort := rfl
  have hcurr : ((headerBytes cfg m ++ rest).drop 4).take 2 = toBytes 2 m.currNumPorts := rfl
  have hcells : (headerBytes cfg m ++ rest).drop 6 = rest := rfl
  simp only [fetchPortMapperFile, Option.getD_some, hdeclared, hinit, hcurr, hcells,
    ofBytes_uint16 cfg.numPorts_lt, ofBytes_uint16 cfg.initPort_lt, ofBytes_uint16 h]
  rw [if_neg (by simp [toBytes])]

/-- Cells that fill the whole array replace what it held. -/
theorem storeCells_written {cells cells' : List ℤ} (hlen : cells'.length = cells.length)
    (hcells : ∀ v ∈ cells, -(uint32Size : ℤ) ≤ v * 2 ∧ v * 2 < (uint32Size : ℤ)) :
    storeCells cells' (cells.flatMap (intToBytes 4)) = cells := by
  rw [storeCells, hlen]
  apply readAll_flatMap (intToBytes_length 4)
  intro v hv
  exact intOfBytes_intToBytes (hcells v hv).1 (hcells v hv).2

/-- What was saved in full is fetched again under the same configuration, and left alone
under any other. -/
theorem portMapperFile_round_trip (s : TypedMapper cfg) {file saved : StateFile}
    (hsave : savePortMapperFile cfg s.mapper (.complete cfg) file = (0, saved)) :
    (∀ t : Table cfg, fetchPortMapperFile cfg t.mapper saved = (0, s.mapper, saved)) ∧
      ∀ (cfg' : Config) (m' : Mapper),
        cfg'.numPorts ≠ cfg.numPorts ∨ cfg'.initPort ≠ cfg.initPort →
        fetchPortMapperFile cfg' m' saved = (-1, m', saved) := by
  cases file with
  | none => cases hsave
  | some bytes =>
    rw [savePortMapperFile_complete s.typed.length_eq] at hsave
    cases hsave
    constructor
    · intro t
      have hlen : t.mapper.portArr.length = s.mapper.portArr.length :=
        t.length_eq.trans s.typed.length_eq.symm
      have hall : (s.mapper.portArr.flatMap (intToBytes 4)).length ≤ 4 * cfg.numPorts := by
        rw [flatMap_intToBytes_length, s.typed.length_eq]
      rw [fetchPortMapperFile_header cfg _ s.typed.counter_lt, if_neg (by simp),
        List.take_of_length_le hall, storeCells_written hlen s.cells]
    · intro cfg' m' hother
      rw [fetchPortMapperFile_header cfg' m' s.typed.counter_lt, if_pos hother]

theorem portMapperFile_round_trip_onePort :
    fetchPortMapperFile onePort ⟨[0], 0⟩ (some [1, 0, 255, 42, 1, 0, 1, 0, 0, 0]) =
        (0, ⟨[1], 1⟩, some [1, 0, 255, 42, 1, 0, 1, 0, 0, 0]) ∧
      fetchPortMapperFile ninePorts ⟨[0], 0⟩ (some [1, 0, 255, 42, 1, 0, 1, 0, 0, 0]) =
        (-1, ⟨[0], 0⟩, some [1, 0, 255, 42, 1, 0, 1, 0, 0, 0]) := by
  have hsave : savePortMapperFile onePort ⟨[1], 1⟩ (.complete onePort) (some []) =
      (0, some [1, 0, 255, 42, 1, 0, 1, 0, 0, 0]) := by decide
  have hround := portMapperFile_round_trip
    (⟨⟨[1], 1⟩, ⟨rfl, by decide⟩, by decide⟩ : TypedMapper onePort) hsave
  exact ⟨hround.1 ⟨⟨[0], 0⟩, rfl⟩, hround.2 ninePorts ⟨[0], 0⟩ (Or.inl (by decide))⟩

/-- Loading either changes nothing or ends with a counter that counts the allocated cells. -/
def LoadedSafely (cfg : Config) (m : Mapper) (file : StateFile) : Prop :=
  let loaded := fetchPortMapperFile cfg m file
  loaded.1 = -1 ∧ loaded.2.1 = m ∨
    loaded.1 = 0 ∧ loaded.2.1.currNumPorts = loaded.2.1.portArr.count portAllocated

/-- The file ends before its third number begins, or one of the first two numbers is not the
configuration's. -/
def Rejected (cfg : Config) (bytes : List UInt8) : Prop :=
  bytes.length ≤ 4 ∨ ofBytes (bytes.take 2) ≠ cfg.numPorts ∨
    ofBytes ((bytes.drop 2).take 2) ≠ cfg.initPort

/-- The memory of the cells, with as much of the file's third part over it as there is. -/
def cellBytes (cfg : Config) (m : Mapper) (bytes : List UInt8) : List UInt8 :=
  let body := (bytes.drop 6).take (4 * cfg.numPorts)
  body ++ (m.portArr.flatMap (intToBytes 4)).drop body.length

/-- How many of the first `n` words are a one. -/
def onesAmong (n : ℕ) (bytes : List UInt8) : ℕ :=
  (List.range n).countP fun k => (bytes.drop (4 * k)).take 4 = [1, 0, 0, 0]

theorem fetchPortMapperFile_rejected {file : StateFile} (h : Rejected cfg (file.getD [])) :
    fetchPortMapperFile cfg m file = (-1, m, some (file.getD [])) := by
  rw [fetchPortMapperFile]
  split_ifs with hread hconfig
  · rfl
  · rfl
  · simp only [Rejected] at h
    simp only [List.take_eq_nil_iff, List.drop_eq_nil_iff] at hread
    omega

theorem fetchPortMapperFile_accepted {file : StateFile} (h : ¬Rejected cfg (file.getD [])) :
    fetchPortMapperFile cfg m file =
      (0, ⟨readAll 4 intOfBytes m.portArr.length (cellBytes cfg m (file.getD [])),
        ofBytes (((file.getD []).drop 4).take 2)⟩, some (file.getD [])) := by
  simp only [Rejected, not_or, not_le, not_not] at h
  obtain ⟨hlen, hnum, hinit⟩ := h
  have hread : ¬((file.getD []).take 2 = [] ∨ ((file.getD []).drop 2).take 2 = [] ∨
      ((file.getD []).drop 4).take 2 = []) := by
    simp only [← List.length_eq_zero_iff, List.length_take, List.length_drop]
    omega
  rw [fetchPortMapperFile, if_neg hread, if_neg (by simp [hnum, hinit])]
  rfl

theorem cellBytes_length (hlen : m.portArr.length = cfg.numPorts) (bytes : List UInt8) :
    (cellBytes cfg m bytes).length = 4 * cfg.numPorts := by
  have hcells := flatMap_intToBytes_length m.portArr
  simp only [cellBytes, List.length_append, List.length_drop, List.length_take]
  omega

/-- Cells that were read hold a one where the bytes do. -/
theorem count_readAll {n : ℕ} {bytes : List UInt8} (hlen : bytes.length = 4 * n) :
    (readAll 4 intOfBytes n bytes).count portAllocated = onesAmong n bytes := by
  rw [readAll_eq_map, List.count, List.countP_map, onesAmong]
  apply List.countP_congr
  intro k hk
  have hk := List.mem_range.mp hk
  have hword : ((bytes.drop (4 * k)).take 4).length = 4 := by
    simp only [List.length_take, List.length_drop]
    omega
  have hone := intOfBytes_eq_iff ((bytes.drop (4 * k)).take 4) (v := 1)
    (by rw [hword]; decide) (by rw [hword]; decide)
  rw [hword, show intToBytes 4 1 = [1, 0, 0, 0] from rfl] at hone
  simpa [portAllocated] using hone

theorem loadedSafely_iff (s : TypedMapper cfg) (file : StateFile) :
    LoadedSafely cfg s.mapper file ↔ Rejected cfg (file.getD []) ∨
      onesAmong cfg.numPorts (cellBytes cfg s.mapper (file.getD [])) =
        ofBytes (((file.getD []).drop 4).take 2) := by
  by_cases hrejected : Rejected cfg (file.getD [])
  · rw [LoadedSafely, fetchPortMapperFile_rejected hrejected]
    exact iff_of_true (Or.inl ⟨rfl, rfl⟩) (Or.inl hrejected)
  · have hcount := count_readAll (cellBytes_length s.typed.length_eq (file.getD []))
    rw [LoadedSafely, fetchPortMapperFile_accepted hrejected, s.typed.length_eq]
    simp only [hcount, hrejected, false_or]
    constructor
    · rintro (⟨hfailed, -⟩ | ⟨-, hcounter⟩)
      · cases hfailed
      · exact hcounter.symm
    · intro hcounter
      exact Or.inr ⟨trivial, hcounter.symm⟩

/-- A file that ends behind its three numbers is accepted. -/
theorem header_without_cells :
    ¬ ∀ (cfg : Config) (s : TypedMapper cfg) (file : StateFile), LoadedSafely cfg s.mapper file := by
  intro hclaim
  have hsafe := hclaim onePort ⟨⟨[0], 0⟩, ⟨rfl, by decide⟩, by decide⟩
    (some [1, 0, 255, 42, 1, 0])
  revert hsafe
  rw [LoadedSafely]
  decide

end EmotionStreamer.PortMapper
