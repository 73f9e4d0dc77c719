import EmotionStreamer.PortMapperBounds

/-! Granting and giving back: what `fetch_ports_to_give` leaves behind, when closing
the granted ports restores the table, and what becomes of a grant that does not
reach its client. -/
namespace EmotionStreamer.PortMapper

/-- A grant in full: the array lists the nine lowest free ports in increasing order,
and their cells alone have been allocated and counted. -/
structure GivenInFull (cfg : Config) (m : Mapper) (arr : PortArray) (m' : Mapper) : Prop where
  count : arr.count = numPortsToGive
  length : arr.announced.length = numPortsToGive
  increasing : arr.announced.Pairwise (· < ·)
  free : ∀ p ∈ arr.announced, p ∈ freePorts cfg m
  lowest : ∀ p ∈ arr.announced, ∀ q ∈ freePorts cfg m, q < p → q ∈ arr.announced
  cells : ∀ k, m'.portArr[k]? =
    if cfg.initPort + k ∈ arr.announced then some portAllocated else m.portArr[k]?
  counter : m'.currNumPorts = m.currNumPorts + numPortsToGive

/-- Fetching nine ports and closing the same array does not fault and gives back `m`. -/
def UndoneByClosePorts (cfg : Config) (m : Mapper) : Prop :=
  ∃ short arr m', fetchPortsToGive cfg m .zero true = .ok (short, arr, m') ∧
    closePorts cfg m' arr = .ok m

def UndoneByCloseSinglePort (cfg : Config) (m : Mapper) : Prop :=
  ∃ port m', fetchSinglePortToGive cfg m true = .ok (port, m') ∧
    ∀ p, port = some p → ∃ closed, closeSinglePort cfg m' p = .ok (closed, m)

/-- What the types of the source allow: one cell for each port and a 16-bit counter. -/
structure Typed (cfg : Config) (m : Mapper) : Prop where
  length_eq : m.portArr.length = cfg.numPorts
  counter_lt : m.currNumPorts < uint16Size

variable {cfg : Config} {m : Mapper} {arr : PortArray} {ks : List ℕ} {k : ℕ}

theorem Valid.typed (h : Valid cfg m) : Typed cfg m := ⟨h.length_eq, h.count_lt⟩

theorem freeCells_increasing (m : Mapper) (j n : ℕ) : (freeCells m j n).Pairwise (· < ·) :=
  List.Pairwise.filter _ (List.pairwise_lt_range' 1)

/-- What an increasing list has behind its first entries is larger than they are. -/
theorem lt_of_not_mem_take {l : List ℕ} {n i j : ℕ} (h : l.Pairwise (· < ·)) (hi : i ∈ l.take n)
    (hj : j ∈ l) (hnot : j ∉ l.take n) : i < j := by
  have hsplit := List.take_append_drop n l
  have hdrop : j ∈ l.drop n := (List.mem_append.mp (hsplit.symm ▸ hj)).resolve_left hnot
  exact (List.pairwise_append.mp (hsplit.symm ▸ h)).2.2 i hi j hdrop

theorem mem_announced (hann : arr.announced = ks.map (cfg.initPort + ·)) :
    cfg.initPort + k ∈ arr.announced ↔ k ∈ ks := by
  rw [hann, List.mem_map]
  constructor
  · rintro ⟨i, hi, he⟩
    rwa [← Nat.add_left_cancel he]
  · intro hk
    exact ⟨k, hk, rfl⟩

theorem Valid.counter_lt (h : Valid cfg m) (hk : m.portArr[k]? = some portFree) :
    m.currNumPorts < cfg.numPorts := by
  have hne : m.portArr.count portAllocated ≠ m.portArr.length := fun heq =>
    absurd (List.count_eq_length.mp heq _ (List.mem_of_getElem? hk)) (by decide)
  have hle := h.count_le
  rw [h.counted, ← h.length_eq] at hle ⊢
  omega

theorem Valid.takeAll_counter (h : Valid cfg m) (hnd : ks.Nodup)
    (hks : ∀ k ∈ ks, m.portArr[k]? = some portFree) :
    (m.takeAll ks).currNumPorts = m.currNumPorts + ks.length := by
  induction ks generalizing m with
  | nil => rfl
  | cons k ks ih =>
    obtain ⟨hnot, hnd⟩ := List.nodup_cons.mp hnd
    have hk := hks k List.mem_cons_self
    have hlt := h.counter_lt hk
    have hnum := cfg.numPorts_lt
    have hfits : m.currNumPorts + 1 < uint16Size := by omega
    have hstep : (m.take k).currNumPorts = m.currNumPorts + 1 := Nat.mod_eq_of_lt hfits
    have hvalid := h.take (h.length_eq ▸ (List.getElem?_eq_some_iff.mp hk).1)
      (by simp [hk, portFree, portAllocated])
    change ((m.take k).takeAll ks).currNumPorts = _
    rw [ih hvalid hnd, hstep, List.length_cons]
    · omega
    · intro i hi
      have hne : k ≠ i := fun he => hnot (he ▸ hi)
      rw [take_portArr, List.getElem?_set_ne hne]
      exact hks i (List.mem_cons_of_mem k hi)

theorem cellsToGive_givenInFull (h : Valid cfg m) (hcount : arr.count = (cellsToGive cfg m).length)
    (hann : arr.announced = (cellsToGive cfg m).map (cfg.initPort + ·))
    (hfull : arr.count = numPortsToGive) :
    GivenInFull cfg m arr (m.takeAll (cellsToGive cfg m)) where
  count := hfull
  length := by rw [hann, List.length_map, ← hcount, hfull]
  increasing := by
    rw [hann, List.pairwise_map]
    exact (((freeCells_increasing m 0 cfg.numPorts).sublist (List.take_sublist _ _))).imp
      fun hlt => Nat.add_lt_add_left hlt _
  free p hp := by
    rw [hann, List.mem_map] at hp
    obtain ⟨k, hk, rfl⟩ := hp
    exact List.mem_map.mpr ⟨k, List.mem_of_mem_take hk, rfl⟩
  lowest p hp q hq hlt := by
    obtain ⟨j, hj, rfl⟩ := List.mem_map.mp hq
    rw [hann, List.mem_map] at hp
    obtain ⟨k, hk, rfl⟩ := hp
    rw [mem_announced hann]
    by_contra hnot
    have := lt_of_not_mem_take (freeCells_increasing m 0 cfg.numPorts) hk hj hnot
    omega
  cells k := by
    rw [takeAll_getElem? m _ fun k hk => (mem_cellsToGive hk).2]
    simp only [mem_announced hann]
  counter := by
    rw [h.takeAll_counter (cellsToGive_nodup cfg m) fun k hk => (mem_cellsToGive hk).1, ← hcount,
      hfull]

/-- Nine ports or none, and nothing at all in a dry run. -/
theorem fetchPortsToGive_all_or_nothing (h : Valid cfg m)
    (hwrap : cfg.initPort + cfg.numPorts ≤ uint16Size) :
    (∃ short arr m', fetchPortsToGive cfg m .zero true = .ok (short, arr, m') ∧
      (short = false → GivenInFull cfg m arr m') ∧ (short = true → m' = m)) ∧
    ∃ short arr, fetchPortsToGive cfg m .zero false = .ok (short, arr, m) := by
  constructor
  · obtain ⟨arr, hrun, hcount, hann⟩ := fetchPortsToGive_spec h hwrap
    refine ⟨_, arr, _, hrun, ?_, ?_⟩
    · intro hfull
      have hfull : arr.count = numPortsToGive := by simpa using hfull
      rw [if_pos hfull]
      exact cellsToGive_givenInFull h hcount hann hfull
    · intro hshort
      exact if_neg (of_decide_eq_true hshort)
  · obtain ⟨arr, hrun, -, -⟩ := fetchPortsToGive_grant h hwrap false
    have hdry : (if arr.count = numPortsToGive then m.grant false (cellsToGive cfg m) else m) = m := by
      split_ifs <;> rfl
    rw [hdry] at hrun
    exact ⟨_, arr, hrun⟩

theorem fetchPortsToGive_all_or_nothing_ninePorts :
    (∃ arr m', fetchPortsToGive ninePorts (.start ninePorts) .zero true = .ok (false, arr, m') ∧
      GivenInFull ninePorts (.start ninePorts) arr m') := by
  obtain ⟨⟨short, arr, m', hrun, hfull, -⟩, -⟩ :=
    fetchPortsToGive_all_or_nothing (start_counted ninePorts).valid (by decide)
  cases short with
  | false => exact ⟨arr, m', hrun, hfull rfl⟩
  | true => cases hrun

theorem inRange_sentPort (hk : k < cfg.numPorts) :
    InRange cfg (sentPort cfg k) ↔ cfg.initPort + k < uint16Size := by
  have hinit := cfg.initPort_lt
  have hnum := cfg.numPorts_lt
  simp only [InRange, sentPort, uint16Size] at *
  omega

/-- When the counter has come to zero nothing is closed, which is right only when nothing was
taken. -/
theorem closePorts_takeAll_of_empty (ht : Typed cfg m) (hshort : ks.length ≤ defDatasize)
    (hempty : isEmpty (m.takeAll ks) = true) :
    closePorts cfg (m.takeAll ks) arr = .ok m ↔ ks = [] := by
  have hcounter := takeAll_counter ks ht.counter_lt
  have hbound := ht.counter_lt
  have hzero : (m.takeAll ks).currNumPorts = 0 := of_decide_eq_true hempty
  have hrun : closePorts cfg (m.takeAll ks) arr = .ok (m.takeAll ks) := if_pos hempty
  rw [hrun, Except.ok.injEq]
  constructor
  · intro heq
    rw [heq] at hzero hcounter
    simp only [defDatasize, uint16Size] at hshort hcounter hbound
    exact List.eq_nil_of_length_eq_zero (by omega)
  · rintro rfl
    rfl

/-- Otherwise the loop runs into a port number that did not fit in 16 bits, or undoes the
taking. -/
theorem closePorts_takeAll_of_nonempty (ht : Typed cfg m) (hnd : ks.Nodup)
    (hks : ∀ k ∈ ks, m.portArr[k]? = some portFree) (hcount : arr.count = ks.length)
    (hfits : arr.count ≤ defDatasize) (hann : arr.announced = ks.map (sentPort cfg))
    (hempty : isEmpty (m.takeAll ks) = false) :
    closePorts cfg (m.takeAll ks) arr = .ok m ↔ ∀ k ∈ ks, cfg.initPort + k < uint16Size := by
  have hlt : ∀ k ∈ ks, k < m.portArr.length := fun k hk =>
    (List.getElem?_eq_some_iff.mp (hks k hk)).1
  constructor
  · intro hrun k hk
    have hlen : (m.takeAll ks).portArr.length = cfg.numPorts :=
      (takeAll_length m ks).trans ht.length_eq
    have hin := ((closePorts_iff hlen hfits).mp ⟨m, hrun⟩).resolve_left (by simp [hempty])
    refine (inRange_sentPort (ht.length_eq ▸ hlt k hk)).mp (hin _ ?_)
    rw [hann]
    exact List.mem_map_of_mem hk
  · intro hwrap
    have hports : (arr.ports.drop 0).take ks.length = ks.map (cfg.initPort + ·) := by
      rw [List.drop_zero, ← hcount, ← map_sentPort hwrap]
      exact hann
    have hloop := closeLoop_eq (m := m.takeAll ks) 0 hports fun k hk => by
      rw [takeAll_length]
      exact hlt k hk
    rw [takeAll_closeAll ht.counter_lt hnd hks, ← hcount] at hloop
    rw [closePorts, hempty]
    exact hloop

/-- Closing the ports of cells just taken faults at a port number that did not fit in 16
bits, and does nothing when the counter has come to zero; otherwise it undoes the taking. -/
theorem closePorts_takeAll (ht : Typed cfg m) (hnd : ks.Nodup)
    (hks : ∀ k ∈ ks, m.portArr[k]? = some portFree) (hcount : arr.count = ks.length)
    (hfits : arr.count ≤ defDatasize) (hann : arr.announced = ks.map (sentPort cfg)) :
    closePorts cfg (m.takeAll ks) arr = .ok m ↔
      (∀ k ∈ ks, cfg.initPort + k < uint16Size) ∧
        m.currNumPorts + ks.length ≠ uint16Size := by
  have hshort := hcount ▸ hfits
  have hcounter := takeAll_counter ks ht.counter_lt
  have hbound := ht.counter_lt
  simp only [defDatasize, uint16Size] at hshort hcounter hbound
  cases hempty : isEmpty (m.takeAll ks) with
  | true =>
    have hzero : (m.takeAll ks).currNumPorts = 0 := of_decide_eq_true hempty
    rw [closePorts_takeAll_of_empty ht (hcount ▸ hfits) hempty]
    constructor
    · rintro rfl
      exact ⟨by simp, by simpa using ht.counter_lt.ne⟩
    · rintro ⟨-, hne⟩
      simp only [uint16Size] at hne
      exact List.eq_nil_of_length_eq_zero (by omega)
  | false =>
    rw [closePorts_takeAll_of_nonempty ht hnd hks hcount hfits hann hempty]
    refine (and_iff_left ?_).symm
    intro heq
    have hzero : (m.takeAll ks).currNumPorts = 0 := by
      simp only [uint16Size] at heq
      rw [hcounter, heq]
    simp [isEmpty, hzero] at hempty

theorem cellsFound_length (cfg : Config) (m : Mapper) :
    (cellsFound cfg m).length ≤ numPortsToGive := by
  unfold cellsFound
  split_ifs
  · exact Nat.zero_le _
  · exact List.length_take_le _ _

/-- What the array lists, and the closing that is left to do. -/
theorem fetchPortsToGive_found (ht : Typed cfg m) : ∃ arr,
    arr.count = (cellsFound cfg m).length ∧ arr.count ≤ defDatasize ∧
      arr.announced = (cellsFound cfg m).map (sentPort cfg) ∧
      fetchPortsToGive cfg m .zero true =
        (closeIfShort cfg (m.takeAll (cellsFound cfg m)) arr).map
          fun m' => (decide (arr.count ≠ numPortsToGive), arr, m') := by
  obtain ⟨arr, hrun, hcount, hann⟩ := fetchFree_found ht.length_eq true
  have hle : arr.count ≤ defDatasize :=
    (hcount ▸ cellsFound_length cfg m).trans (by simp [numPortsToGive, defDatasize])
  refine ⟨arr, hcount, hle, hann, ?_⟩
  rw [fetchPortsToGive, hrun]
  rfl

section Valid
variable (h : Valid cfg m) (hnd : ks.Nodup) (hks : ∀ k ∈ ks, m.portArr[k]? = some portFree)
  (hcount : arr.count = ks.length) (hfits : arr.count ≤ defDatasize)
  (hann : arr.announced = ks.map (sentPort cfg))
include h hnd hks hcount hfits hann

theorem closePorts_undoes (hwrap : ∀ k ∈ ks, cfg.initPort + k < uint16Size) :
    closePorts cfg (m.takeAll ks) arr = .ok m := by
  have hlt := (grant_closeAll true h hnd hks).1.count_lt
  have hcounter : (m.grant true ks).currNumPorts = m.currNumPorts + ks.length :=
    h.takeAll_counter hnd hks
  exact (closePorts_takeAll h.typed hnd hks hcount hfits hann).mpr ⟨hwrap, by omega⟩

theorem fits_of_closePorts {m' : Mapper} (hrun : closePorts cfg (m.takeAll ks) arr = .ok m') :
    ∀ k ∈ ks, cfg.initPort + k < uint16Size := by
  intro k hk
  have hcell := (List.getElem?_eq_some_iff.mp (hks k hk)).1
  have hlen : (m.takeAll ks).portArr.length = cfg.numPorts := (takeAll_length m ks).trans h.length_eq
  rcases (closePorts_iff hlen hfits).mp ⟨m', hrun⟩ with hempty | hin
  · have hzero : (m.takeAll ks).currNumPorts = 0 := of_decide_eq_true hempty
    have hcounter := h.takeAll_counter hnd hks
    have := List.length_pos_of_mem hk
    omega
  · refine (inRange_sentPort (h.length_eq ▸ hcell)).mp (hin _ ?_)
    rw [hann]
    exact List.mem_map_of_mem hk

end Valid

theorem undoneByClosePorts_iff (h : Valid cfg m) : UndoneByClosePorts cfg m ↔
    ∀ k ∈ cellsToGive cfg m, cfg.initPort + k < uint16Size := by
  obtain ⟨arr, hcount, hfits, hann, hrun⟩ := fetchPortsToGive_found h.typed
  rw [h.cellsFound_eq] at hcount hann hrun
  have hfree : ∀ k ∈ cellsToGive cfg m, m.portArr[k]? = some portFree := fun k hk =>
    (mem_cellsToGive hk).1
  have hnd := cellsToGive_nodup cfg m
  by_cases hfull : arr.count = numPortsToGive
  · rw [closeIfShort, if_neg (not_not.mpr hfull)] at hrun
    constructor
    · rintro ⟨short, arr', m', hfetch, hclose⟩
      cases hrun.symm.trans hfetch
      exact fits_of_closePorts h hnd hfree hcount hfits hann hclose
    · intro hwrap
      exact ⟨_, arr, _, hrun, closePorts_undoes h hnd hfree hcount hfits hann hwrap⟩
  · rw [closeIfShort, if_pos hfull] at hrun
    constructor
    · rintro ⟨short, arr', m', hfetch, -⟩
      cases hclose : closePorts cfg (m.takeAll (cellsToGive cfg m)) arr with
      | ok m'' => exact fits_of_closePorts h hnd hfree hcount hfits hann hclose
      | error fault =>
        rw [hclose, hfetch] at hrun
        cases hrun
    · intro hwrap
      rw [closePorts_undoes h hnd hfree hcount hfits hann hwrap] at hrun
      refine ⟨_, arr, m, hrun, ?_⟩
      rw [closePorts_eq h hfits (hann.trans (map_sentPort hwrap)) fun k hk =>
        h.length_eq ▸ (mem_cellsToGive hk).2]
      exact congrArg _ (grant_closeAll false h hnd hfree).2

theorem undoneByCloseSinglePort_iff (h : Valid cfg m) : UndoneByCloseSinglePort cfg m ↔
    ∀ k ∈ (freeCells m 0 cfg.numPorts).head?, cfg.initPort + k < uint16Size := by
  have hrun := fetchSinglePortToGive_found h.length_eq true
  rw [h.cellFound_eq] at hrun
  cases hd : (freeCells m 0 cfg.numPorts).head? with
  | none =>
    rw [hd] at hrun
    exact iff_of_true ⟨none, m, hrun, fun p hp => by cases hp⟩ fun k hk => by cases hk
  | some k =>
    obtain ⟨hfree, -, hlt⟩ := mem_freeCells (List.mem_of_mem_head? hd)
    rw [Nat.zero_add] at hlt
    rw [hd] at hrun
    obtain ⟨hvalid, hback⟩ := grant_closeAll true h (List.nodup_singleton k)
      fun i hi => (List.mem_singleton.mp hi) ▸ hfree
    constructor
    · rintro ⟨port, m', hfetch, hclose⟩ i hi
      cases hi
      cases hrun.symm.trans hfetch
      obtain ⟨closed, hclose⟩ := hclose _ rfl
      have hin := (closeSinglePort_iff hvalid.length_eq _).mp ⟨_, hclose⟩
      refine (inRange_sentPort hlt).mp (hin.resolve_left fun hempty => ?_)
      have hzero : (m.takeAll [k]).currNumPorts = 0 := of_decide_eq_true hempty
      have hcounter := h.takeAll_counter (List.nodup_singleton k)
        fun i hi => (List.mem_singleton.mp hi) ▸ hfree
      rw [hzero] at hcounter
      simp at hcounter
    · intro hwrap
      refine ⟨_, _, hrun, ?_⟩
      rintro p hp
      cases hp
      rw [sentPort_eq (hwrap k rfl)]
      exact ⟨_, (closeSinglePort_eq hvalid hlt).trans
        (congrArg (fun t => Except.ok (_, t)) hback)⟩

/-- Closing undoes fetching exactly when the ports to give all fit in 16 bits. -/
theorem returning_undoes_granting_iff (h : Valid cfg m) :
    (UndoneByClosePorts cfg m ↔ ∀ k ∈ cellsToGive cfg m, cfg.initPort + k < uint16Size) ∧
      (UndoneByCloseSinglePort cfg m ↔
        ∀ k ∈ (freeCells m 0 cfg.numPorts).head?, cfg.initPort + k < uint16Size) :=
  ⟨undoneByClosePorts_iff h, undoneByCloseSinglePort_iff h⟩

theorem returning_undoes_granting_tenPorts : UndoneByClosePorts tenPorts (.start tenPorts) ∧
    UndoneByCloseSinglePort tenPorts (.start tenPorts) := by
  obtain ⟨hmany, hsingle⟩ := returning_undoes_granting_iff (start_counted tenPorts).valid
  refine ⟨hmany.mpr ?_, hsingle.mpr ?_⟩
  · decide
  · intro k hk
    cases hk
    decide

/-- Nine ports of which the last three are sent as 0, 1 and 2. -/
def nearTopPorts : Config := { ninePorts with initPort := 65530, initPort_lt := by decide }

theorem not_undone_behind_last_port : ¬ ∀ (cfg : Config) (m : Mapper), Valid cfg m →
    UndoneByClosePorts cfg m ∧ UndoneByCloseSinglePort cfg m := by
  intro hclaim
  obtain ⟨⟨short, arr, m', hfetch, hclose⟩, -⟩ :=
    hclaim nearTopPorts (.start nearTopPorts) (start_counted nearTopPorts).valid
  cases hfetch
  cases hclose

end EmotionStreamer.PortMapper
