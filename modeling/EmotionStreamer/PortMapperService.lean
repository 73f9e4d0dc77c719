import EmotionStreamer.PortMapperAlloc
import EmotionStreamer.Leases
import Mathlib.Data.Finset.SDiff
import Mathlib.Data.Finset.Lattice.Lemmas
import Mathlib.Data.Finset.Disjoint

/-! `accepted_connection_thread` and the clients it serves. A client holds the
ports announced in the replies sent to it until it returns them. The service
refines the ledger of exclusive leases as long as no reply announces ports that
`fetch_ports_to_give` has rolled back. -/
namespace EmotionStreamer.PortMapper
open Runs Leases

def portMapperAwkwardJoinString : String := "c-can_i_j-...j--_erm--"
def portMapperAwkwardLeaveString : String := "ok--_okay,_bye!"
def portMapperJoinString : String := "hey!_lemme_in!!!!"
def portMapperLeaveString : String := "see_you_lateeer!!!"

inductive RequestKind
  | awkwardJoin | join | leave | awkwardLeave | unknown
  deriving DecidableEq, Repr

/-- The comparisons of `accepted_connection_thread`, in its order. -/
def requestKind (requestBuff : String) : RequestKind :=
  if requestBuff = portMapperAwkwardJoinString then .awkwardJoin
  else if requestBuff = portMapperJoinString then .join
  else if requestBuff = portMapperLeaveString then .leave
  else if requestBuff = portMapperAwkwardLeaveString then .awkwardLeave
  else .unknown

/-- What the network contributes to one accepted connection: the scanned request,
the results of the `sendsome` and `readsome` after it, and what that `readsome`
stored for a return. -/
structure Exchange where
  requestBuff : String
  sendResult : ℤ
  readResult : ℤ
  portArr : PortArray
  port : ℕ

inductive Reply
  | none
  | ports (arr : PortArray)
  | port (p : ℕ)

/-- `terminated` is set by `raise(SIGTERM)`, for which no handler is installed. -/
structure Handled where
  mapper : Mapper
  reply : Reply
  terminated : Bool

def notificationLine (i port : ℕ) : String :=
  "Porta " ++ toString (i + 1) ++ ": " ++ toString port ++ "\n"

/-- The loop that appends to `notification`, at entry `i` and offset `off`, with
`n` entries left. Past the end of the buffer the size given to `snprintf` is
negative, hence huge as a `size_t`. -/
def notificationLoop (arr : PortArray) : (n i off : ℕ) → Except Fault ℕ
  | 0, _, off => .ok off
  | n + 1, i, off => do
    let port ← arr.port i
    if off ≤ defDatasize then
      notificationLoop arr n (i + 1) (off + (notificationLine i port).length)
    else .error (.notification off)

def closePortsFromClient (cfg : Config) (m : Mapper) (x : Exchange) : Except Fault Mapper := do
  if x.sendResult ≤ 0 then return m
  else if x.readResult ≤ 0 then return m
  else
    let _ ← notificationLoop x.portArr x.portArr.count 0 0
    closePorts cfg m x.portArr

def closeSinglePortFromClient (cfg : Config) (m : Mapper) (x : Exchange) :
    Except Fault Mapper := do
  if x.sendResult ≤ 0 then return m
  else if x.readResult ≤ 0 then return m
  else
    let (_, m) ← closeSinglePort cfg m x.port
    return m

/-- `send_client_ports` and `send_single_client_port` after a reply is chosen. -/
def sendReply (m : Mapper) (x : Exchange) (reply : Reply) : Handled :=
  ⟨m, if 0 < x.sendResult then reply else .none, x.readResult ≤ 0⟩

def acceptedConnectionThread (cfg : Config) (m : Mapper) (x : Exchange) :
    Except Fault Handled :=
  match requestKind x.requestBuff with
  | .awkwardJoin => do
    let (port, m) ← fetchSinglePortToGive cfg m true
    return sendReply m x (.port (port.getD 0))
  | .join => do
    let (_, arr, m) ← fetchPortsToGive cfg m .zero true
    return sendReply m x (.ports arr)
  | .leave => do
    let m ← closePortsFromClient cfg m x
    return ⟨m, .none, false⟩
  | .awkwardLeave => do
    let m ← closeSinglePortFromClient cfg m x
    return ⟨m, .none, false⟩
  | .unknown => .ok ⟨m, .none, false⟩

def Reply.announced : Reply → Finset ℕ
  | .none => ∅
  | .ports arr => arr.announced.toFinset
  | .port p => if p = 0 then ∅ else {p}

/-- The ports a received return message gives up. -/
def Exchange.returned (x : Exchange) : Finset ℕ :=
  if 0 < x.sendResult ∧ 0 < x.readResult then
    match requestKind x.requestBuff with
    | .leave => x.portArr.announced.toFinset
    | .awkwardLeave => {x.port}
    | _ => ∅
  else ∅

variable {C : Type*} [DecidableEq C]

structure Service (C : Type*) where
  mapper : Mapper
  terminated : Bool
  holds : C → Finset ℕ

def Service.start (cfg : Config) : Service C :=
  ⟨⟨List.replicate cfg.numPorts portFree, 0⟩, false, fun _ => ∅⟩

/-- A return message that arrives lists only ports its sender holds, all of them
inside its array. -/
def ReturnsHeld (s : Service C) (c : C) (x : Exchange) : Prop :=
  0 < x.sendResult → 0 < x.readResult →
    match requestKind x.requestBuff with
    | .leave => x.portArr.count ≤ defDatasize ∧ ∀ p ∈ x.portArr.announced, p ∈ s.holds c
    | .awkwardLeave => x.port ∈ s.holds c
    | _ => True

/-- One accepted connection of client `c`, handled while the mapper runs. -/
inductive Serves (cfg : Config) : Service C → C × Exchange → Service C → Prop
  | handled {s : Service C} {c : C} {x : Exchange} {h : Handled}
      (running : s.terminated = false) (own : ReturnsHeld s c x)
      (result : acceptedConnectionThread cfg s.mapper x = .ok h) :
      Serves cfg s (c, x) ⟨h.mapper, h.terminated,
        Function.update s.holds c ((s.holds c \ x.returned) ∪ h.reply.announced)⟩

def Exclusive (s : Service C) : Prop := ∀ c d, c ≠ d → Disjoint (s.holds c) (s.holds d)

/-- A JOIN whose reply is sent finds no free port at all, or enough of them. -/
def JoinInFull (cfg : Config) (s : Service C) (i : C × Exchange) : Prop :=
  requestKind i.2.requestBuff = .join → 0 < i.2.sendResult →
    freePorts cfg s.mapper = [] ∨ numPortsToGive ≤ (freePorts cfg s.mapper).length

def ledger (cfg : Config) (s : Service C) : Ledger ℕ C :=
  ⟨granted cfg s.mapper, fun c => ↑(s.holds c)⟩

theorem mem_granted {cfg : Config} {m : Mapper} {p : ℕ} (h : p ∈ granted cfg m) :
    ∃ k < m.portArr.length, p = cfg.initPort + k := by
  obtain ⟨k, rfl, hk⟩ := h
  exact ⟨k, (List.getElem?_eq_some_iff.mp hk).1, rfl⟩

theorem cells_of_ports {cfg : Config} {m : Mapper} {ps : List ℕ}
    (h : ∀ p ∈ ps, p ∈ granted cfg m) : ∃ ks : List ℕ, ps = ks.map (cfg.initPort + ·) ∧
      ∀ k ∈ ks, k < m.portArr.length := by
  induction ps with
  | nil => exact ⟨[], rfl, by simp⟩
  | cons p ps ih =>
    obtain ⟨ks, rfl, hks⟩ := ih fun q hq => h q (by simp [hq])
    obtain ⟨k, hk, rfl⟩ := mem_granted (h p (by simp))
    exact ⟨k :: ks, rfl, by simpa using ⟨hk, hks⟩⟩

theorem coe_update (holds : C → Finset ℕ) (c : C) (S : Finset ℕ) :
    (fun d => (↑(Function.update holds c S d) : Set ℕ)) =
      Function.update (fun d => (↑(holds d) : Set ℕ)) c ↑S := by
  funext d
  by_cases hd : d = c
  · subst hd; simp
  · simp [hd]

/-- What handling one connection does to the table and to the client: it takes
some free cells and announces some of their ports, or it frees what was returned. -/
inductive Effect (cfg : Config) (m : Mapper) (x : Exchange) (h : Handled) : Prop
  | grant (ks : List ℕ) (free : ∀ k ∈ ks, m.portArr[k]? = some portFree)
      (table : granted cfg h.mapper = granted cfg m ∪ {p | p ∈ ks.map (cfg.initPort + ·)})
      (sent : ∀ p ∈ h.reply.announced, p ∈ ks.map (cfg.initPort + ·)) (kept : x.returned = ∅)
  | release (table : granted cfg h.mapper = granted cfg m \ ↑x.returned)
      (silent : h.reply.announced = ∅)

variable {cfg : Config} {m : Mapper} {x : Exchange} {h : Handled}

theorem sendReply_announced {reply : Reply} {p : ℕ}
    (hp : p ∈ (sendReply m x reply).reply.announced) :
    0 < x.sendResult ∧ p ∈ reply.announced := by
  simp only [sendReply] at hp
  split_ifs at hp with hs
  · exact ⟨hs, hp⟩
  · simp [Reply.announced] at hp

theorem returned_of_kind (hl : requestKind x.requestBuff ≠ .leave)
    (ha : requestKind x.requestBuff ≠ .awkwardLeave) : x.returned = ∅ := by
  unfold Exchange.returned
  cases hk : requestKind x.requestBuff <;> simp_all

theorem awkwardJoin_effect (hv : Valid cfg m)
    (hwrap : cfg.initPort + cfg.numPorts ≤ uint16Size)
    (hk : requestKind x.requestBuff = .awkwardJoin)
    (hr : acceptedConnectionThread cfg m x = .ok h) : Valid cfg h.mapper ∧ Effect cfg m x h := by
  set ks := (freeCells m 0 cfg.numPorts).head?.toList with hks
  have hfree : ∀ k ∈ ks, m.portArr[k]? = some portFree := fun k hm => by
    have hh : (freeCells m 0 cfg.numPorts).head? = some k := by simpa [hks] using hm
    exact (mem_freeCells (List.mem_of_mem_head? hh)).1
  have hlt : ∀ k ∈ ks, k < m.portArr.length := fun k hm =>
    (List.getElem?_eq_some_iff.mp (hfree k hm)).1
  have hnd : ks.Nodup := by cases hd : (freeCells m 0 cfg.numPorts).head? <;> simp [hks, hd]
  have hres : h = sendReply (m.takeAll ks) x (.port ((freePorts cfg m).head?.getD 0)) := by
    simp only [acceptedConnectionThread, hk, fetchSinglePortToGive_spec hv hwrap true] at hr
    exact (Except.ok.inj hr).symm
  subst hres
  refine ⟨hv.takeAll hnd fun k hm => ⟨hv.length_eq ▸ hlt k hm, by
    simp [hfree k hm, portFree, portAllocated]⟩, .grant ks hfree (granted_takeAll hlt) ?_
    (returned_of_kind (by simp [hk]) (by simp [hk]))⟩
  intro p hp
  have hp' := (sendReply_announced hp).2
  simp only [Reply.announced] at hp'
  split_ifs at hp' with hz
  · simp at hp'
  · rw [Finset.mem_singleton] at hp'
    cases hd : (freeCells m 0 cfg.numPorts).head? with
    | none => simp [freePorts, List.head?_map, hd] at hz
    | some k => simp [hp', hks, freePorts, List.head?_map, hd]

/-- The only case where the condition on JOIN is used: a short list of ports that
is sent although its cells are free again. -/
theorem join_effect (hv : Valid cfg m) (hwrap : cfg.initPort + cfg.numPorts ≤ uint16Size)
    (hk : requestKind x.requestBuff = .join)
    (hfull : 0 < x.sendResult → freePorts cfg m = [] ∨
      numPortsToGive ≤ (freePorts cfg m).length)
    (hr : acceptedConnectionThread cfg m x = .ok h) : Valid cfg h.mapper ∧ Effect cfg m x h := by
  obtain ⟨arr, hfetch, hcount, hann⟩ := fetchPortsToGive_spec hv hwrap
  have hkept : x.returned = ∅ := returned_of_kind (by simp [hk]) (by simp [hk])
  have hres : h = sendReply (if arr.count = numPortsToGive then m.takeAll (cellsToGive cfg m)
      else m) x (.ports arr) := by
    simp only [acceptedConnectionThread, hk, hfetch] at hr
    exact (Except.ok.inj hr).symm
  subst hres
  by_cases hn : arr.count = numPortsToGive
  · simp only [hn, ↓reduceIte]
    refine ⟨hv.takeAll (cellsToGive_nodup cfg m) fun k hm => ⟨hv.length_eq ▸
      (mem_cellsToGive hm).2, by simp [(mem_cellsToGive hm).1, portFree, portAllocated]⟩,
      .grant (cellsToGive cfg m) (fun k hm => (mem_cellsToGive hm).1)
        (granted_takeAll fun k hm => (mem_cellsToGive hm).2) ?_ hkept⟩
    intro p hp
    simpa [Reply.announced, hann] using (sendReply_announced hp).2
  · simp only [hn, ↓reduceIte]
    refine ⟨hv, .grant [] (by simp) (by simp [sendReply]) ?_ hkept⟩
    intro p hp
    obtain ⟨hs, hp⟩ := sendReply_announced hp
    have hempty : cellsToGive cfg m = [] := by
      rcases hfull hs with he | hge
      · exact List.length_eq_zero_iff.mp (by rw [cellsToGive_length, he]; rfl)
      · rw [hcount, cellsToGive_length, min_eq_left hge] at hn
        exact absurd rfl hn
    simp [Reply.announced, hann, hempty] at hp

/-- A connection that returns nothing and sends nothing leaves the table as it is. -/
theorem unchanged_effect {terminate : Bool} (hv : Valid cfg m) (hkept : x.returned = ∅) :
    Valid cfg m ∧ Effect cfg m x ⟨m, .none, terminate⟩ := by
  refine ⟨hv, .release ?_ rfl⟩
  rw [hkept, Finset.coe_empty, Set.sdiff_empty]

theorem leave_effect (hv : Valid cfg m) (hk : requestKind x.requestBuff = .leave)
    (hheld : 0 < x.sendResult → 0 < x.readResult →
      x.portArr.count ≤ defDatasize ∧ ∀ p ∈ x.portArr.announced, p ∈ granted cfg m)
    (hr : acceptedConnectionThread cfg m x = .ok h) : Valid cfg h.mapper ∧ Effect cfg m x h := by
  simp only [acceptedConnectionThread, hk, closePortsFromClient] at hr
  by_cases hs : x.sendResult ≤ 0
  · simp only [hs, ↓reduceIte] at hr
    obtain rfl := (Except.ok.inj hr).symm
    exact unchanged_effect hv (if_neg fun hboth => not_lt.mpr hs hboth.1)
  by_cases hd : x.readResult ≤ 0
  · simp only [hs, hd, ↓reduceIte] at hr
    obtain rfl := (Except.ok.inj hr).symm
    exact unchanged_effect hv (if_neg fun hboth => not_lt.mpr hd hboth.2)
  obtain ⟨hcount, hback⟩ := hheld (not_le.mp hs) (not_le.mp hd)
  obtain ⟨ks, hann, hlt⟩ := cells_of_ports hback
  have hclose := closePorts_eq hv hcount hann fun k hm => hv.length_eq ▸ hlt k hm
  simp only [hs, hd, ↓reduceIte, hclose] at hr
  cases hnote : notificationLoop x.portArr x.portArr.count 0 0 with
  | error f => rw [hnote] at hr; cases hr
  | ok off =>
    rw [hnote] at hr
    obtain rfl := (Except.ok.inj hr).symm
    refine ⟨hv.closeAll ks, .release ?_ rfl⟩
    rw [granted_closeAll, Exchange.returned, if_pos ⟨not_le.mp hs, not_le.mp hd⟩, hk]
    congr 1
    ext p
    simp [hann]

theorem awkwardLeave_effect (hv : Valid cfg m)
    (hk : requestKind x.requestBuff = .awkwardLeave)
    (hheld : 0 < x.sendResult → 0 < x.readResult → x.port ∈ granted cfg m)
    (hr : acceptedConnectionThread cfg m x = .ok h) : Valid cfg h.mapper ∧ Effect cfg m x h := by
  simp only [acceptedConnectionThread, hk, closeSinglePortFromClient] at hr
  by_cases hs : x.sendResult ≤ 0
  · simp only [hs, ↓reduceIte] at hr
    obtain rfl := (Except.ok.inj hr).symm
    exact unchanged_effect hv (if_neg fun hboth => not_lt.mpr hs hboth.1)
  by_cases hd : x.readResult ≤ 0
  · simp only [hs, hd, ↓reduceIte] at hr
    obtain rfl := (Except.ok.inj hr).symm
    exact unchanged_effect hv (if_neg fun hboth => not_lt.mpr hd hboth.2)
  obtain ⟨k, hlt, hp⟩ := mem_granted (hheld (not_le.mp hs) (not_le.mp hd))
  simp only [hs, hd, ↓reduceIte, hp, closeSinglePort_eq hv (hv.length_eq ▸ hlt)] at hr
  obtain rfl := (Except.ok.inj hr).symm
  refine ⟨hv.close k, .release ?_ rfl⟩
  rw [Exchange.returned, if_pos ⟨not_le.mp hs, not_le.mp hd⟩, hk, hp]
  exact (granted_closeAll [k]).trans (by simp)

/-- One step lemma for all requests. -/
theorem Serves.effect {s t : Service C} {i : C × Exchange} (hv : Valid cfg s.mapper)
    (hwrap : cfg.initPort + cfg.numPorts ≤ uint16Size) (hs : Sound (ledger cfg s))
    (hfull : JoinInFull cfg s i) (step : Serves cfg s i t) :
    Valid cfg t.mapper ∧ ∃ a, Leases.Step (ledger cfg s) a (ledger cfg t) := by
  obtain ⟨running, own, result⟩ := step
  rename_i c x h
  have hback : ∀ p ∈ s.holds c, p ∈ granted cfg s.mapper := fun p hp => hs.backed c hp
  have heff : Valid cfg h.mapper ∧ Effect cfg s.mapper x h := by
    cases hk : requestKind x.requestBuff with
    | awkwardJoin => exact awkwardJoin_effect hv hwrap hk result
    | join => exact join_effect hv hwrap hk (hfull hk) result
    | leave =>
      refine leave_effect hv hk (fun h1 h2 => ?_) result
      have ho := own h1 h2
      rw [hk] at ho
      exact ⟨ho.1, fun p hp => hback p (ho.2 p hp)⟩
    | awkwardLeave =>
      refine awkwardLeave_effect hv hk (fun h1 h2 => ?_) result
      have ho := own h1 h2
      rw [hk] at ho
      exact hback _ ho
    | unknown =>
      simp only [acceptedConnectionThread, hk] at result
      obtain rfl := (Except.ok.inj result).symm
      exact unchanged_effect hv (returned_of_kind (by simp [hk]) (by simp [hk]))
  refine ⟨heff.1, ?_⟩
  cases heff.2 with
  | grant ks free table sent kept =>
    refine ⟨.grant c {p | p ∈ ks.map (cfg.initPort + ·)} ↑h.reply.announced, ?_⟩
    simp only [ledger, coe_update, table, kept, Finset.sdiff_empty, Finset.coe_union]
    refine .grant _ c _ _ ?_ fun p hp => sent p hp
    refine Set.disjoint_left.mpr fun p hp hg => ?_
    obtain ⟨k, hm, rfl⟩ := List.mem_map.mp hp
    obtain ⟨j, he, ha⟩ := hg
    have : k = j := by omega
    rw [this] at hm
    rw [free j hm] at ha
    simp [portFree, portAllocated] at ha
  | release table silent =>
    refine ⟨.release c ↑x.returned, ?_⟩
    simp only [ledger, coe_update, table, silent, Finset.union_empty, Finset.coe_sdiff]
    refine .release _ c _ ?_
    intro p hp
    simp only [Exchange.returned] at hp
    split_ifs at hp with hd
    · have ho := own hd.1 hd.2
      cases hk : requestKind x.requestBuff <;> simp only [hk] at hp ho <;> simp_all
    · simp at hp

omit [DecidableEq C] in
theorem start_valid (cfg : Config) : Valid cfg (Service.start (C := C) cfg).mapper :=
  ⟨by simp [Service.start], by simp [Service.start, List.count_replicate, portFree,
    portAllocated]⟩

omit [DecidableEq C] in
theorem start_sound (cfg : Config) : Sound (ledger cfg (Service.start (C := C) cfg)) :=
  ⟨fun _ => by simp [ledger, Service.start], fun _ _ _ => by simp [ledger, Service.start]⟩

/-- Every run in which each JOIN is answered in full is a run of the ledger. -/
theorem serves_refines {s : Service C} {is : List (C × Exchange)}
    (hwrap : cfg.initPort + cfg.numPorts ≤ uint16Size)
    (run : Run (Guarded (JoinInFull cfg) (Serves cfg)) (Service.start cfg) is s) :
    ∃ as l, Run Leases.Step (ledger cfg (Service.start (C := C) cfg)) as l ∧
      l = ledger cfg s := by
  have hstep : ∀ (s : Service C) i t l, Valid cfg s.mapper ∧ Sound l ∧ l = ledger cfg s →
      Guarded (JoinInFull cfg) (Serves cfg) s i t → ∃ ks b, Run Leases.Step l ks b ∧
        Valid cfg t.mapper ∧ Sound b ∧ b = ledger cfg t := by
    rintro s i t l ⟨hv, hs, rfl⟩ ⟨hok, step⟩
    obtain ⟨hv', a, ha⟩ := step.effect hv hwrap hs hok
    exact ⟨[a], ledger cfg t, .one ha, hv', ha.sound hs, rfl⟩
  obtain ⟨as, l, hrun, -, -, hl⟩ := run.simulate
    (fun s l => Valid cfg s.mapper ∧ Sound l ∧ l = ledger cfg s)
    ⟨start_valid cfg, start_sound cfg, rfl⟩ hstep
  exact ⟨as, l, hrun, hl⟩

/-- No port is held by two clients, in every state reached by requests whose JOINs
are answered in full. -/
theorem port_exclusivity {s : Service C} {is : List (C × Exchange)}
    (hwrap : cfg.initPort + cfg.numPorts ≤ uint16Size)
    (run : Run (Guarded (JoinInFull cfg) (Serves cfg)) (Service.start cfg) is s) :
    Exclusive s := by
  obtain ⟨_, _, hrun, rfl⟩ := serves_refines hwrap run
  have hs := run_sound (start_sound cfg) hrun
  intro c d hcd
  exact Finset.disjoint_coe.mp (hs.exclusive c d hcd)

def onePort : Config := ⟨11007, 1, by decide, by decide⟩

def joinDelivered : Exchange := ⟨portMapperJoinString, 514, 256, .zero, 0⟩

def onePortReply : PortArray :=
  ⟨1, PortArray.zero.ports.set 0 11007, by simp [PortArray.length_ports]⟩

theorem onePort_join : acceptedConnectionThread onePort ⟨[0], 0⟩ joinDelivered =
    .ok ⟨⟨[0], 0⟩, .ports onePortReply, false⟩ := by
  rfl

/-- Two clients that JOIN a mapper with one free port are both told that they
hold it, while its cell is free. -/
theorem rolled_back_port_shared : ¬ ∀ (cfg : Config) (is : List (ℕ × Exchange)) (s : Service ℕ),
    cfg.initPort + cfg.numPorts ≤ uint16Size → Run (Serves cfg) (Service.start cfg) is s →
    Exclusive s := by
  intro hclaim
  have own : ∀ (s : Service ℕ) (c : ℕ), ReturnsHeld s c joinDelivered := by
    intro s c _ _
    trivial
  have first := Serves.handled (s := Service.start onePort) (c := 0) rfl (own _ _) onePort_join
  have second := Serves.handled (c := 1) rfl (own (⟨⟨[0], 0⟩, false,
    Function.update (fun _ => ∅) 0 ((∅ \ joinDelivered.returned) ∪
      (Reply.ports onePortReply).announced)⟩ : Service ℕ) 1) onePort_join
  have hex := hclaim onePort _ _ (by decide) (.snoc (.one first) second) 0 1 (by decide)
  have hann : 11007 ∈ (Reply.ports onePortReply).announced := by decide
  refine Finset.disjoint_left.mp hex (show 11007 ∈ _ from ?_) ?_
  · simpa [Function.update_of_ne] using hann
  · simpa [Function.update_self] using hann

def ninePorts : Config := ⟨11007, 9, by decide, by decide⟩
def eighteenPorts : Config := ⟨11007, 18, by decide, by decide⟩

/-- Two clients of a mapper of eighteen ports hold nine each. -/
theorem port_exclusivity_eighteenPorts : ∃ (is : List (ℕ × Exchange)) (s : Service ℕ),
    Run (Serves eighteenPorts) (Service.start eighteenPorts) is s ∧
      s.holds 0 = (List.range' 11007 9).toFinset ∧ s.holds 1 = (List.range' 11016 9).toFinset ∧
      Exclusive s := by
  have first : Serves eighteenPorts (Service.start eighteenPorts) (0, joinDelivered) _ :=
    .handled rfl (fun _ _ => trivial) rfl
  have hfirst : JoinInFull eighteenPorts (Service.start (C := ℕ) eighteenPorts) (0, joinDelivered) :=
    fun _ _ => Or.inr (by decide)
  have run : Run (Guarded (JoinInFull eighteenPorts) (Serves eighteenPorts)) (Service.start _) _ _ :=
    .snoc (i := (1, joinDelivered)) (.one ⟨hfirst, first⟩)
      ⟨fun _ _ => Or.inr (by decide), .handled rfl (fun _ _ => trivial) rfl⟩
  exact ⟨_, _, run.mono fun _ _ _ h => h.2, by decide, by decide, port_exclusivity (by decide) run⟩

end EmotionStreamer.PortMapper
