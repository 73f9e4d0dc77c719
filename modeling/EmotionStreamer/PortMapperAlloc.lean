import EmotionStreamer.PortMapperState
import Mathlib.Data.List.Nodup
import Mathlib.Data.Set.Lattice
import Mathlib.Tactic.Ring

/-! What the allocator functions do on a table whose counter is right, in terms
of pure updates of the cells: `take` and `close` of one cell, and their iterates. -/
namespace EmotionStreamer.PortMapper

/-- The table has one cell per port and the counter counts the allocated ones. -/
structure Valid (cfg : Config) (m : Mapper) : Prop where
  length_eq : m.portArr.length = cfg.numPorts
  counted : m.currNumPorts = m.portArr.count portAllocated

def Mapper.take (m : Mapper) (k : ℕ) : Mapper :=
  Mapper.incr { m with portArr := m.portArr.set k portAllocated }

def Mapper.free (m : Mapper) (k : ℕ) : Mapper :=
  Mapper.decr { m with portArr := m.portArr.set k portFree }

def Mapper.close (m : Mapper) (k : ℕ) : Mapper :=
  if m.portArr[k]? = some portAllocated then m.free k else m

def Mapper.takeAll (m : Mapper) (ks : List ℕ) : Mapper := ks.foldl Mapper.take m
def Mapper.closeAll (m : Mapper) (ks : List ℕ) : Mapper := ks.foldl Mapper.close m

/-- A dry run (`actually_change` zero) leaves the table alone. -/
def Mapper.grant (change : Bool) (m : Mapper) (ks : List ℕ) : Mapper :=
  if change then m.takeAll ks else m

/-- The free cells among the `n` cells from `j` on, in increasing order. -/
def freeCells (m : Mapper) (j n : ℕ) : List ℕ :=
  (List.range' j n).filter fun k => m.portArr[k]? = some portFree

def freePorts (cfg : Config) (m : Mapper) : List ℕ :=
  (freeCells m 0 cfg.numPorts).map (cfg.initPort + ·)

def granted (cfg : Config) (m : Mapper) : Set ℕ :=
  {p | ∃ k, p = cfg.initPort + k ∧ m.portArr[k]? = some portAllocated}

variable {cfg : Config} {m : Mapper} {k : ℕ}

@[simp] theorem take_portArr (m : Mapper) (k : ℕ) :
    (m.take k).portArr = m.portArr.set k portAllocated := rfl

@[simp] theorem free_portArr (m : Mapper) (k : ℕ) :
    (m.free k).portArr = m.portArr.set k portFree := rfl

theorem close_getElem? (m : Mapper) (k j : ℕ) : (m.close k).portArr[j]? =
    if j = k ∧ m.portArr[j]? = some portAllocated then some portFree else m.portArr[j]? := by
  unfold Mapper.close
  by_cases h : m.portArr[k]? = some portAllocated
  · have hk := (List.getElem?_eq_some_iff.mp h).1
    simp only [h, ↓reduceIte, free_portArr, List.getElem?_set, hk]
    by_cases hj : k = j
    · subst hj; simp [h]
    · simp [hj, Ne.symm hj]
  · simp only [h, ↓reduceIte]
    rw [if_neg]
    rintro ⟨rfl, hj⟩
    exact h hj

theorem take_length (m : Mapper) (k : ℕ) : (m.take k).portArr.length = m.portArr.length := by
  simp

theorem close_length (m : Mapper) (k : ℕ) : (m.close k).portArr.length = m.portArr.length := by
  unfold Mapper.close
  split_ifs <;> simp

theorem takeAll_length (m : Mapper) (ks : List ℕ) :
    (m.takeAll ks).portArr.length = m.portArr.length := by
  induction ks generalizing m with
  | nil => rfl
  | cons k ks ih => exact (ih (m.take k)).trans (take_length m k)

theorem takeAll_getElem? (m : Mapper) (ks : List ℕ) (hks : ∀ k ∈ ks, k < m.portArr.length)
    (j : ℕ) : (m.takeAll ks).portArr[j]? =
      if j ∈ ks then some portAllocated else m.portArr[j]? := by
  induction ks generalizing m with
  | nil => simp [Mapper.takeAll]
  | cons k ks ih =>
    have hk := hks k (by simp)
    have hi := ih (m.take k) fun i hi => by simpa using hks i (by simp [hi])
    change ((m.take k).takeAll ks).portArr[j]? = _
    rw [hi]
    by_cases hj : j ∈ ks
    · simp [hj]
    · by_cases he : k = j
      · subst he; simp [hj, hk]
      · simp [hj, Ne.symm he, he]

theorem closeAll_getElem? (m : Mapper) (ks : List ℕ) (j : ℕ) : (m.closeAll ks).portArr[j]? =
    if j ∈ ks ∧ m.portArr[j]? = some portAllocated then some portFree else m.portArr[j]? := by
  induction ks generalizing m with
  | nil => simp [Mapper.closeAll]
  | cons k ks ih =>
    change ((m.close k).closeAll ks).portArr[j]? = _
    rw [ih, close_getElem?]
    by_cases he : j = k
    · subst he
      by_cases ha : m.portArr[j]? = some portAllocated
      · simp [ha]
      · simp [ha]
    · simp [he]

theorem Valid.count_le (h : Valid cfg m) : m.currNumPorts ≤ cfg.numPorts := by
  rw [h.counted, ← h.length_eq]
  exact List.count_le_length

theorem Valid.count_lt (h : Valid cfg m) : m.currNumPorts < uint16Size :=
  h.count_le.trans_lt cfg.numPorts_lt

theorem Valid.ext {m' : Mapper} (h : Valid cfg m) (h' : Valid cfg m')
    (he : ∀ j : ℕ, m.portArr[j]? = m'.portArr[j]?) : m = m' := by
  have hp : m.portArr = m'.portArr := List.ext_getElem? he
  have hc : m.currNumPorts = m'.currNumPorts := by rw [h.counted, h'.counted, hp]
  cases m
  cases m'
  simp_all

theorem Valid.take (h : Valid cfg m) (hk : k < cfg.numPorts)
    (hn : m.portArr[k]? ≠ some portAllocated) : Valid cfg (m.take k) := by
  have hl : k < m.portArr.length := h.length_eq ▸ hk
  have hv : m.portArr[k] ≠ portAllocated := by simpa [List.getElem?_eq_getElem hl] using hn
  have hc := List.count_set (a := portAllocated) (b := portAllocated) hl
  have hle : (m.portArr.set k portAllocated).count portAllocated ≤ cfg.numPorts := by
    rw [← h.length_eq]
    exact List.count_le_length.trans_eq List.length_set
  have hlt := cfg.numPorts_lt
  refine ⟨by simp [h.length_eq], ?_⟩
  simp only [beq_iff_eq, hv, ↓reduceIte] at hc
  change (m.currNumPorts + 1) % uint16Size = (m.portArr.set k portAllocated).count portAllocated
  rw [hc] at hle ⊢
  rw [h.counted, Nat.mod_eq_of_lt (by omega)]
  omega

theorem Valid.close (h : Valid cfg m) (k : ℕ) : Valid cfg (m.close k) := by
  unfold Mapper.close
  split_ifs with ha
  · obtain ⟨hl, hv⟩ := List.getElem?_eq_some_iff.mp ha
    have hpos : 0 < m.portArr.count portAllocated :=
      List.count_pos_iff.mpr (hv ▸ List.getElem_mem hl)
    have hc := List.count_set (a := portFree) (b := portAllocated) hl
    have hlt := h.count_lt
    rw [h.counted] at hlt
    refine ⟨by simp [h.length_eq], ?_⟩
    simp only [hv, beq_self_eq_true, ↓reduceIte] at hc
    change (m.currNumPorts + (uint16Size - 1)) % uint16Size =
      (m.portArr.set k portFree).count portAllocated
    rw [hc, h.counted]
    simp only [portFree, portAllocated, uint16Size] at hlt hpos ⊢
    simp only [Int.reduceBEq, Bool.false_eq_true, ↓reduceIte]
    omega
  · exact h

theorem Valid.closeAll (h : Valid cfg m) (ks : List ℕ) : Valid cfg (m.closeAll ks) := by
  induction ks generalizing m with
  | nil => exact h
  | cons k ks ih => exact ih (h.close k)

theorem Valid.takeAll {ks : List ℕ} (h : Valid cfg m) (hnd : ks.Nodup)
    (hks : ∀ k ∈ ks, k < cfg.numPorts ∧ m.portArr[k]? ≠ some portAllocated) :
    Valid cfg (m.takeAll ks) := by
  induction ks generalizing m with
  | nil => exact h
  | cons k ks ih =>
    have hk := hks k (by simp)
    obtain ⟨hnot, hnd⟩ := List.nodup_cons.mp hnd
    refine ih (h.take hk.1 hk.2) hnd fun i hi => ?_
    have hne : k ≠ i := fun he => hnot (he ▸ hi)
    rw [take_portArr, List.getElem?_set_ne hne]
    exact hks i (by simp [hi])

theorem takeAll_counter (ks : List ℕ) (h : m.currNumPorts < uint16Size) :
    (m.takeAll ks).currNumPorts = (m.currNumPorts + ks.length) % uint16Size := by
  induction ks generalizing m with
  | nil => exact (Nat.mod_eq_of_lt h).symm
  | cons k ks ih =>
    have hstep : (m.take k).currNumPorts = (m.currNumPorts + 1) % uint16Size := rfl
    change ((m.take k).takeAll ks).currNumPorts = _
    rw [ih (hstep ▸ Nat.mod_lt _ (by decide)), hstep, Nat.mod_add_mod, List.length_cons]
    congr 1
    omega

theorem closeAll_counter {ks : List ℕ} (hnd : ks.Nodup) (h : m.currNumPorts < uint16Size)
    (hks : ∀ k ∈ ks, m.portArr[k]? = some portAllocated) : (m.closeAll ks).currNumPorts =
      (m.currNumPorts + ks.length * (uint16Size - 1)) % uint16Size := by
  induction ks generalizing m with
  | nil => simpa [Mapper.closeAll] using (Nat.mod_eq_of_lt h).symm
  | cons k ks ih =>
    obtain ⟨hnot, hnd⟩ := List.nodup_cons.mp hnd
    have hstep : (m.close k).currNumPorts = (m.currNumPorts + (uint16Size - 1)) % uint16Size := by
      rw [Mapper.close, if_pos (hks k List.mem_cons_self)]
      rfl
    have hrest : ∀ i ∈ ks, (m.close k).portArr[i]? = some portAllocated := fun i hi => by
      rw [close_getElem?, if_neg]
      · exact hks i (List.mem_cons_of_mem k hi)
      · rintro ⟨rfl, -⟩
        exact hnot hi
    change ((m.close k).closeAll ks).currNumPorts = _
    rw [ih hnd (hstep ▸ Nat.mod_lt _ (by decide)) hrest, hstep, Nat.mod_add_mod, List.length_cons]
    congr 1
    ring

/-- Closing what was just taken gives back the table as it was, whatever the counter was. -/
theorem takeAll_closeAll {ks : List ℕ} (h : m.currNumPorts < uint16Size) (hnd : ks.Nodup)
    (hks : ∀ k ∈ ks, m.portArr[k]? = some portFree) : (m.takeAll ks).closeAll ks = m := by
  have hlt : ∀ k ∈ ks, k < m.portArr.length := fun k hk =>
    (List.getElem?_eq_some_iff.mp (hks k hk)).1
  have hcells : ((m.takeAll ks).closeAll ks).portArr = m.portArr := by
    refine List.ext_getElem? fun j => ?_
    rw [closeAll_getElem?, takeAll_getElem? m ks hlt]
    by_cases hj : j ∈ ks
    · simp [hj, hks j hj]
    · simp [hj]
  have hcount : ((m.takeAll ks).closeAll ks).currNumPorts = m.currNumPorts := by
    have htaken := takeAll_counter ks h
    rw [closeAll_counter hnd (htaken ▸ Nat.mod_lt _ (by decide)) fun k hk => by
      rw [takeAll_getElem? m ks hlt, if_pos hk], htaken, Nat.mod_add_mod]
    calc (m.currNumPorts + ks.length + ks.length * (uint16Size - 1)) % uint16Size
        = (m.currNumPorts + uint16Size * ks.length) % uint16Size := by
          congr 1
          simp only [uint16Size]
          omega
      _ = m.currNumPorts := by rw [Nat.add_mul_mod_self_left, Nat.mod_eq_of_lt h]
  exact congrArg₂ Mapper.mk hcells hcount

theorem granted_takeAll {ks : List ℕ} (hks : ∀ k ∈ ks, k < m.portArr.length) :
    granted cfg (m.takeAll ks) = granted cfg m ∪ {p | p ∈ ks.map (cfg.initPort + ·)} := by
  ext p
  simp only [granted, takeAll_getElem? m ks hks, Set.mem_ofPred_eq, Set.mem_union, List.mem_map]
  constructor
  · rintro ⟨k, rfl, hk⟩
    split_ifs at hk with hm
    · exact Or.inr ⟨k, hm, rfl⟩
    · exact Or.inl ⟨k, rfl, hk⟩
  · rintro (⟨k, rfl, hk⟩ | ⟨k, hm, rfl⟩)
    · exact ⟨k, rfl, by simp [hk]⟩
    · exact ⟨k, rfl, by simp [hm]⟩

theorem granted_closeAll (ks : List ℕ) :
    granted cfg (m.closeAll ks) = granted cfg m \ {p | p ∈ ks.map (cfg.initPort + ·)} := by
  ext p
  simp only [granted, closeAll_getElem?, Set.mem_ofPred_eq, Set.mem_sdiff, List.mem_map]
  constructor
  · rintro ⟨k, rfl, hk⟩
    split_ifs at hk with hm
    · simp [portFree, portAllocated] at hk
    · refine ⟨⟨k, rfl, hk⟩, ?_⟩
      rintro ⟨i, hi, he⟩
      have : i = k := by omega
      exact hm ⟨this ▸ hi, hk⟩
  · rintro ⟨⟨k, rfl, hk⟩, hnot⟩
    refine ⟨k, rfl, ?_⟩
    rw [if_neg fun hm => hnot ⟨k, hm.1, rfl⟩]
    exact hk

/-! The functions of the source as these updates. -/

theorem index_port (cfg : Config) (k : ℕ) :
    (((cfg.initPort + k : ℕ) : ℤ) - cfg.initPort) = k := by push_cast; ring

theorem look_cell {v : ℤ} (h : m.portArr[k]? = some v) : m.look (k : ℤ) = .ok v := by
  simp [Mapper.look, h]

theorem set_cell (v : ℤ) (h : k < m.portArr.length) :
    m.set (k : ℤ) v = .ok { m with portArr := m.portArr.set k v } := by
  simp [Mapper.set, h]

theorem closeCell_eq (hk : k < m.portArr.length) : closeCell cfg m (cfg.initPort + k) =
    .ok (decide (m.portArr[k]? = some portAllocated), m.close k) := by
  have he : m.portArr[k]? = some m.portArr[k] := List.getElem?_eq_getElem hk
  unfold closeCell Mapper.close
  simp only [index_port, look_cell he, he, set_cell _ hk, Option.some.injEq]
  change (if m.portArr[k] = portAllocated then _ else _) = _
  by_cases ha : m.portArr[k] = portAllocated
  · simp only [ha, ↓reduceIte, decide_true]; rfl
  · simp only [ha, ↓reduceIte, decide_false]; rfl

theorem closeLoop_eq {arr : PortArray} {ks : List ℕ} (i : ℕ)
    (hports : (arr.ports.drop i).take ks.length = ks.map (cfg.initPort + ·))
    (hks : ∀ k ∈ ks, k < m.portArr.length) :
    closeLoop cfg arr ks.length i m = .ok (m.closeAll ks) := by
  induction ks generalizing i m with
  | nil => rfl
  | cons k ks ih =>
    have hp : arr.ports[i]? = some (cfg.initPort + k) := by
      have := congrArg (·[0]?) hports
      simpa using this
    have hrest : (arr.ports.drop (i + 1)).take ks.length = ks.map (cfg.initPort + ·) := by
      have := congrArg (List.drop 1) hports
      simpa [List.drop_take, List.drop_drop] using this
    have hk := hks k (by simp)
    have hi := ih (m := m.close k) (i + 1) hrest fun j hj => by
      rw [close_length]; exact hks j (by simp [hj])
    simp only [List.length_cons, closeLoop, PortArray.port, hp]
    change (closeCell cfg m (cfg.initPort + k)).bind _ = _
    rw [closeCell_eq hk]
    exact hi

/-- Where the counter is zero, no cell is allocated. -/
theorem Valid.unallocated (h : Valid cfg m) (hzero : m.currNumPorts = 0) (j : ℕ) :
    m.portArr[j]? ≠ some portAllocated := by
  have hcount : m.portArr.count portAllocated = 0 := by
    have hcounted := h.counted
    omega
  exact fun hj => List.count_eq_zero.mp hcount (List.mem_of_getElem? hj)

theorem closePorts_eq {arr : PortArray} {ks : List ℕ} (h : Valid cfg m)
    (hcount : arr.count ≤ defDatasize) (hports : arr.announced = ks.map (cfg.initPort + ·))
    (hks : ∀ k ∈ ks, k < cfg.numPorts) : closePorts cfg m arr = .ok (m.closeAll ks) := by
  have hlen : ks.length = arr.count := by
    have := congrArg List.length hports
    simp only [PortArray.announced, List.length_take, arr.length_ports, List.length_map] at this
    omega
  unfold closePorts isEmpty
  split_ifs with he
  · congr 1
    refine h.ext (h.closeAll ks) fun j => ?_
    rw [closeAll_getElem?, if_neg]
    rintro ⟨_, hj⟩
    exact h.unallocated (of_decide_eq_true he) j hj
  · rw [← hlen]
    refine closeLoop_eq 0 ?_ fun k hk => h.length_eq ▸ hks k hk
    rw [hlen]
    simpa [PortArray.announced] using hports

theorem closeSinglePort_eq (h : Valid cfg m) (hk : k < cfg.numPorts) :
    closeSinglePort cfg m (cfg.initPort + k) =
      .ok (decide (m.portArr[k]? = some portAllocated), m.close k) := by
  unfold closeSinglePort isEmpty
  split_ifs with he
  · have hn := h.unallocated (of_decide_eq_true he) k
    simp [Mapper.close, hn]
  · exact closeCell_eq (h.length_eq ▸ hk)

theorem push_spec (arr : PortArray) (p : ℕ) (h : arr.count < defDatasize) :
    ∃ arr', arr.push p = .ok arr' ∧ arr'.count = arr.count + 1 ∧
      arr'.announced = arr.announced ++ [p] := by
  refine ⟨_, if_pos h, rfl, ?_⟩
  have hl : arr.count < arr.ports.length := arr.length_ports ▸ h
  simp only [PortArray.announced, List.take_add_one, List.getElem?_set_self hl,
    Option.toList_some, List.append_cancel_right_eq]
  rw [List.take_set_of_le le_rfl]

theorem freeCells_succ (m : Mapper) (j n : ℕ) : freeCells m j (n + 1) =
    if m.portArr[j]? = some portFree then j :: freeCells m (j + 1) n
    else freeCells m (j + 1) n := by
  simp only [freeCells, List.range'_succ, List.filter_cons, decide_eq_true_eq]

theorem freeCells_take (m : Mapper) (j n : ℕ) :
    freeCells (m.take j) (j + 1) n = freeCells m (j + 1) n := by
  refine List.filter_congr fun k hk => ?_
  have hne : j ≠ k := by have := (List.mem_range'_1.mp hk).1; omega
  rw [take_portArr, List.getElem?_set_ne hne]

theorem mem_freeCells {j n i : ℕ} (h : i ∈ freeCells m j n) :
    m.portArr[i]? = some portFree ∧ j ≤ i ∧ i < j + n := by
  obtain ⟨hr, hf⟩ := List.mem_filter.mp h
  exact ⟨by simpa using hf, List.mem_range'_1.mp hr⟩

theorem freeCells_nodup (m : Mapper) (j n : ℕ) : (freeCells m j n).Nodup :=
  List.Nodup.filter _ List.nodup_range'

theorem takeCell_eq (change : Bool) (hk : k < m.portArr.length) :
    takeCell change m k = .ok (m.grant change [k]) := by
  cases change with
  | false => rfl
  | true => simp only [takeCell, set_cell _ hk]; rfl

@[simp] theorem grant_nil (change : Bool) (m : Mapper) : m.grant change [] = m := by
  cases change <;> rfl

theorem grant_cons (change : Bool) (m : Mapper) (k : ℕ) (ks : List ℕ) :
    (m.grant change [k]).grant change ks = m.grant change (k :: ks) := by
  cases change <;> rfl

@[simp] theorem grant_length (change : Bool) (m : Mapper) (ks : List ℕ) :
    (m.grant change ks).portArr.length = m.portArr.length := by
  cases change with
  | false => rfl
  | true => exact takeAll_length m ks

theorem freeCells_grant (change : Bool) (m : Mapper) (j n : ℕ) :
    freeCells (m.grant change [j]) (j + 1) n = freeCells m (j + 1) n := by
  cases change with
  | false => rfl
  | true => exact freeCells_take m j n

/-- The 16-bit number under which cell `k` is sent. -/
def sentPort (cfg : Config) (k : ℕ) : ℕ := (cfg.initPort + k) % uint16Size

theorem sentPort_eq (h : cfg.initPort + k < uint16Size) : sentPort cfg k = cfg.initPort + k :=
  Nat.mod_eq_of_lt h

/-- The loop appends the lowest free ports until nine are listed. -/
theorem fetchLoop_spec (change : Bool) (n j : ℕ) (hj : j + n = cfg.numPorts) (arr : PortArray)
    (m : Mapper) (hlen : m.portArr.length = cfg.numPorts) (hc : arr.count ≤ numPortsToGive) :
    ∃ arr', fetchLoop cfg change n (cfg.initPort + j) arr m = .ok (arr',
        m.grant change ((freeCells m j n).take (numPortsToGive - arr.count))) ∧
      arr'.count = arr.count + ((freeCells m j n).take (numPortsToGive - arr.count)).length ∧
      arr'.announced = arr.announced ++
        ((freeCells m j n).take (numPortsToGive - arr.count)).map (sentPort cfg) := by
  induction n generalizing j arr m with
  | zero => exact ⟨arr, by simp [fetchLoop, freeCells], by simp [freeCells], by simp [freeCells]⟩
  | succ n ih =>
    by_cases hlt : arr.count < numPortsToGive
    · have hjl : j < m.portArr.length := by omega
      have he : m.portArr[j]? = some m.portArr[j] := List.getElem?_eq_getElem hjl
      have hsucc : numPortsToGive - arr.count = numPortsToGive - (arr.count + 1) + 1 := by omega
      simp only [fetchLoop, hlt, ↓reduceIte, index_port, look_cell he, freeCells_succ, he,
        Option.some.injEq]
      change ∃ arr', (if m.portArr[j] = portFree then _ else _) = _ ∧ _
      by_cases hf : m.portArr[j] = portFree
      · obtain ⟨arr₁, hpush, hcount, hann⟩ := push_spec arr (sentPort cfg j)
          (by simp only [numPortsToGive, defDatasize] at *; omega)
        obtain ⟨arr₂, hloop, hcount', hann'⟩ := ih (j + 1) (by omega) arr₁
          (m.grant change [j]) (by simp [hlen]) (by omega)
        rw [freeCells_grant, hcount] at hloop hcount' hann'
        rw [grant_cons] at hloop
        rw [sentPort] at hpush
        simp only [hf, ↓reduceIte, hpush, takeCell_eq change hjl, hsucc, List.take_succ_cons,
          List.length_cons, List.map_cons]
        refine ⟨arr₂, hloop, by omega, ?_⟩
        rw [hann', hann, List.append_assoc, List.singleton_append]
      · simp only [hf, ↓reduceIte]
        exact ih (j + 1) (by omega) arr m hlen hc
    · have hz : numPortsToGive - arr.count = 0 := by omega
      refine ⟨arr, ?_, by simp [hz], by simp [hz]⟩
      simp only [fetchLoop, hlt, ↓reduceIte, hz, List.take_zero, grant_nil]

theorem freeCells_of_full (h : Valid cfg m) (hfull : isNoMoreRoom cfg m = true) (j n : ℕ) :
    freeCells m j n = [] := by
  have hle := h.count_le
  have heq : m.portArr.count portAllocated = m.portArr.length := by
    have hc := h.counted
    have hl := h.length_eq
    simp only [isNoMoreRoom, decide_eq_true_eq] at hfull
    omega
  refine List.filter_eq_nil_iff.mpr fun k _ hk => ?_
  have hmem := List.mem_of_getElem? (of_decide_eq_true hk)
  exact absurd (List.count_eq_length.mp heq _ hmem) (by decide)

def cellsToGive (cfg : Config) (m : Mapper) : List ℕ :=
  (freeCells m 0 cfg.numPorts).take numPortsToGive

/-- None are found when the counter says that the table is full. -/
def cellsFound (cfg : Config) (m : Mapper) : List ℕ :=
  if isNoMoreRoom cfg m then [] else cellsToGive cfg m

theorem Valid.cellsFound_eq (h : Valid cfg m) : cellsFound cfg m = cellsToGive cfg m := by
  unfold cellsFound
  split_ifs with hfull
  · simp [cellsToGive, freeCells_of_full h hfull]
  · rfl

theorem mem_cellsToGive (h : k ∈ cellsToGive cfg m) :
    m.portArr[k]? = some portFree ∧ k < m.portArr.length := by
  have hf := (mem_freeCells (List.mem_of_mem_take h)).1
  exact ⟨hf, (List.getElem?_eq_some_iff.mp hf).1⟩

theorem cellsToGive_nodup (cfg : Config) (m : Mapper) : (cellsToGive cfg m).Nodup :=
  (freeCells_nodup m 0 cfg.numPorts).sublist (List.take_sublist _ _)

theorem cellsToGive_length (cfg : Config) (m : Mapper) :
    (cellsToGive cfg m).length = min numPortsToGive (freePorts cfg m).length := by
  simp [cellsToGive, freePorts]

/-- The cells that a fetch marks are free, and are freed by the closing behind it. -/
theorem grant_closeAll {ks : List ℕ} (change : Bool) (h : Valid cfg m) (hnd : ks.Nodup)
    (hks : ∀ k ∈ ks, m.portArr[k]? = some portFree) :
    Valid cfg (m.grant change ks) ∧ (m.grant change ks).closeAll ks = m := by
  cases change with
  | false =>
    refine ⟨h, (h.closeAll ks).ext h fun j => ?_⟩
    rw [closeAll_getElem?, if_neg]
    rintro ⟨hj, ha⟩
    rw [hks j hj] at ha
    exact absurd (Option.some.inj ha) (by decide)
  | true =>
    refine ⟨h.takeAll hnd fun k hk => ⟨?_, ?_⟩, takeAll_closeAll h.count_lt hnd hks⟩
    · exact h.length_eq ▸ (List.getElem?_eq_some_iff.mp (hks k hk)).1
    · simp [hks k hk, portFree, portAllocated]

/-- Whatever the cells and the counter are. -/
theorem fetchFree_found (hlen : m.portArr.length = cfg.numPorts) (change : Bool) :
    ∃ arr, fetchFree cfg m .zero change = .ok (arr, m.grant change (cellsFound cfg m)) ∧
      arr.count = (cellsFound cfg m).length ∧
      arr.announced = (cellsFound cfg m).map (sentPort cfg) := by
  unfold fetchFree cellsFound
  split_ifs with hfull
  · exact ⟨.zero, by simp, by simp [PortArray.zero], by simp [PortArray.zero, PortArray.announced]⟩
  · obtain ⟨arr, hrun, hcount, hann⟩ := fetchLoop_spec change cfg.numPorts 0
      (Nat.zero_add _) .zero m hlen (Nat.zero_le _)
    refine ⟨arr, hrun, ?_, ?_⟩
    · simpa [PortArray.zero, cellsToGive] using hcount
    · simpa [PortArray.zero, PortArray.announced, cellsToGive] using hann

theorem map_sentPort {ks : List ℕ} (hks : ∀ k ∈ ks, cfg.initPort + k < uint16Size) :
    ks.map (sentPort cfg) = ks.map (cfg.initPort + ·) :=
  List.map_congr_left fun k hk => sentPort_eq (hks k hk)

theorem fetchFree_spec (h : Valid cfg m) (hwrap : cfg.initPort + cfg.numPorts ≤ uint16Size)
    (change : Bool) :
    ∃ arr, fetchFree cfg m .zero change = .ok (arr, m.grant change (cellsToGive cfg m)) ∧
      arr.count = (cellsToGive cfg m).length ∧
      arr.announced = (cellsToGive cfg m).map (cfg.initPort + ·) := by
  have hks : ∀ k ∈ cellsToGive cfg m, cfg.initPort + k < uint16Size := fun k hk => by
    have := h.length_eq ▸ (mem_cellsToGive hk).2
    omega
  have hfound := fetchFree_found h.length_eq change
  rwa [h.cellsFound_eq, map_sentPort hks] at hfound

/-- The array lists the lowest free ports, at most nine of them. They are taken
only when there are nine; otherwise the table is back as it was, but the array
still lists them. -/
theorem fetchPortsToGive_grant (h : Valid cfg m)
    (hwrap : cfg.initPort + cfg.numPorts ≤ uint16Size) (change : Bool) :
    ∃ arr, fetchPortsToGive cfg m .zero change =
        .ok (decide (arr.count ≠ numPortsToGive), arr,
          if arr.count = numPortsToGive then m.grant change (cellsToGive cfg m) else m) ∧
      arr.count = (cellsToGive cfg m).length ∧
      arr.announced = (cellsToGive cfg m).map (cfg.initPort + ·) := by
  obtain ⟨arr, hrun, hcount, hann⟩ := fetchFree_spec h hwrap change
  obtain ⟨hvalid, hback⟩ := grant_closeAll change h (cellsToGive_nodup cfg m)
    fun k hk => (mem_cellsToGive hk).1
  have hclose : closePorts cfg (m.grant change (cellsToGive cfg m)) arr = .ok m := by
    rw [closePorts_eq hvalid ?_ hann fun k hk => h.length_eq ▸ (mem_cellsToGive hk).2, hback]
    rw [hcount, cellsToGive_length]
    exact (min_le_left _ _).trans (by decide)
  refine ⟨arr, ?_, hcount, hann⟩
  have hshort : closeIfShort cfg (m.grant change (cellsToGive cfg m)) arr =
      .ok (if arr.count = numPortsToGive then m.grant change (cellsToGive cfg m) else m) := by
    unfold closeIfShort
    by_cases hn : arr.count = numPortsToGive <;> simp [hn, hclose]
  unfold fetchPortsToGive
  rw [hrun]
  change (closeIfShort cfg (m.grant change (cellsToGive cfg m)) arr).bind _ = _
  rw [hshort]
  rfl

theorem fetchPortsToGive_spec (h : Valid cfg m)
    (hwrap : cfg.initPort + cfg.numPorts ≤ uint16Size) :
    ∃ arr, fetchPortsToGive cfg m .zero true =
        .ok (decide (arr.count ≠ numPortsToGive), arr,
          if arr.count = numPortsToGive then m.takeAll (cellsToGive cfg m) else m) ∧
      arr.count = (cellsToGive cfg m).length ∧
      arr.announced = (cellsToGive cfg m).map (cfg.initPort + ·) :=
  fetchPortsToGive_grant h hwrap true

theorem fetchSingleLoop_spec (change : Bool) (n j : ℕ) (hj : j + n = cfg.numPorts) (m : Mapper)
    (hlen : m.portArr.length = cfg.numPorts) :
    fetchSingleLoop cfg change n (cfg.initPort + j) m =
      .ok ((freeCells m j n).head?.map (sentPort cfg),
        m.grant change (freeCells m j n).head?.toList) := by
  induction n generalizing j with
  | zero => simp [fetchSingleLoop, freeCells]
  | succ n ih =>
    have hjl : j < m.portArr.length := by omega
    have he : m.portArr[j]? = some m.portArr[j] := List.getElem?_eq_getElem hjl
    simp only [fetchSingleLoop, index_port, look_cell he, freeCells_succ, he, Option.some.injEq]
    change (if m.portArr[j] = portFree then _ else _) = _
    by_cases hf : m.portArr[j] = portFree
    · simp only [hf, ↓reduceIte, takeCell_eq change hjl]; rfl
    · simp only [hf, ↓reduceIte]
      exact ih (j + 1) (by omega)

/-- The single cell that is found, none when the counter says that the table is full. -/
def cellFound (cfg : Config) (m : Mapper) : Option ℕ :=
  if isNoMoreRoom cfg m then none else (freeCells m 0 cfg.numPorts).head?

theorem fetchSinglePortToGive_found (hlen : m.portArr.length = cfg.numPorts) (change : Bool) :
    fetchSinglePortToGive cfg m change =
      .ok ((cellFound cfg m).map (sentPort cfg), m.grant change (cellFound cfg m).toList) := by
  unfold fetchSinglePortToGive cellFound
  split_ifs with hfull
  · simp
  · exact fetchSingleLoop_spec change cfg.numPorts 0 (Nat.zero_add _) m hlen

theorem Valid.cellFound_eq (h : Valid cfg m) :
    cellFound cfg m = (freeCells m 0 cfg.numPorts).head? := by
  unfold cellFound
  split_ifs with hfull
  · simp [freeCells_of_full h hfull]
  · rfl

theorem fetchSinglePortToGive_spec (h : Valid cfg m)
    (hwrap : cfg.initPort + cfg.numPorts ≤ uint16Size) (change : Bool) :
    fetchSinglePortToGive cfg m change = .ok ((freePorts cfg m).head?,
      m.grant change (freeCells m 0 cfg.numPorts).head?.toList) := by
  rw [fetchSinglePortToGive_found h.length_eq, h.cellFound_eq, freePorts, List.head?_map]
  cases hd : (freeCells m 0 cfg.numPorts).head? with
  | none => rfl
  | some k =>
    have hk := (mem_freeCells (List.mem_of_mem_head? hd)).2.2
    rw [Option.map_some, Option.map_some, sentPort_eq (by omega)]

end EmotionStreamer.PortMapper
