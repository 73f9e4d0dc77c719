import EmotionStreamer.Slots
import EmotionStreamer.Runs
import EmotionStreamer.Preprocessor
import Mathlib.Data.Finset.Erase
import Mathlib.Data.Finset.Insert
import Mathlib.Data.Int.Basic
import Mathlib.Logic.Function.Basic

/-! The connection set of an overseer: the acceptor registers connections, the watchdog
reads their heartbeats and kills those that are gone, and `close_all_fds` empties the
set. What is done under `set_mtx` is one step. -/
namespace EmotionStreamer.InterlvlCom
open Runs Slots

/-- A `con_t`; `data` is what no step here reads or changes. -/
structure Con (D : Type*) where
  sockfdTcp : ℤ
  isOn : Bool
  tcpData : List UInt8
  data : D

/-- A `con_set` of `n` slots, of which 0 is not used. An entry of `con_arr` is `none` when
its bytes are zero. `slotsWritten` lists the indices at which `fd_arr` has been set. -/
structure ConSet (D : Type*) (n : ℕ) where
  currSize : ℤ
  fdArr : Vector ℤ n
  conArr : Vector (Option (Con D)) n
  rdfds : Finset ℤ
  slotsWritten : List ℕ

variable {D : Type*} {n : ℕ}

/-- `close_con(con_obj,0,1)` -/
def closeCon (con : Con D) : Con D := if con.isOn then { con with sockfdTcp := -1 } else con

def clearConData (con : Con D) : Con D := { con with tcpData := List.replicate (defDatasize + 1) 0 }

namespace ConSet

def fd (set : ConSet D n) (i : ℕ) : ℤ := set.fdArr[i]?.getD 0

/-- `for(;set->fd_arr[i];i++);` from 1 on. Without a free slot the loop reads on behind the
array; `n` then stands for the index at which it stops there. -/
def slot (set : ConSet D n) : ℕ := firstFree 0 1 set.fdArr

def addCon (set : ConSet D n) (con : Con D) : ConSet D n where
  currSize := set.currSize + 1
  fdArr := set.fdArr.setIfInBounds set.slot con.sockfdTcp
  conArr := set.conArr.setIfInBounds set.slot (some con)
  rdfds := insert con.sockfdTcp set.rdfds
  slotsWritten := set.slotsWritten ++ [set.slot]

def killCon (set : ConSet D n) (index : ℕ) : ConSet D n where
  currSize := set.currSize - 1
  fdArr := set.fdArr.setIfInBounds index 0
  conArr := set.conArr.setIfInBounds index none
  rdfds := set.rdfds.erase (set.fd index)
  slotsWritten := set.slotsWritten ++ [index]

/-- One turn of the loop of `close_all_fds`. -/
def closeFd (set : ConSet D n) (i : ℕ) : ConSet D n :=
  if set.fd i ≠ 0 then
    { currSize := set.currSize - 1
      fdArr := set.fdArr.setIfInBounds i 0
      conArr := set.conArr.setIfInBounds i ((set.conArr[i]?.getD none).map closeCon)
      rdfds := ∅
      slotsWritten := set.slotsWritten ++ [i] }
  else set

def closeAllFds (set : ConSet D n) : ConSet D n := (List.range n).foldl closeFd set

/-- `do_indexed_overseer_con_op` for a read: what arrives replaces the cleared data. -/
def readCon (set : ConSet D n) (i : ℕ) (tcpData : List UInt8) : ConSet D n :=
  { set with
    conArr := set.conArr.setIfInBounds i
      ((set.conArr[i]?.getD none).map fun con => { clearConData con with tcpData := tcpData }) }

end ConSet

/-- Where `watch_dog_func` is: waiting for a connection, or in its loop at slot `i`, about
to look at `fd_arr[i]`, to test it with `FD_ISSET`, to read the heartbeat, or to kill. -/
inductive WatchDog
  | waiting
  | look (i : ℕ)
  | isset (i : ℕ)
  | read (i : ℕ)
  | kill (i : ℕ)
  deriving DecidableEq, Repr

/-- The next turn of `for(int i=1;i<arg_s->cons->max_size;i++)`. -/
def WatchDog.next (n i : ℕ) : WatchDog := if i + 1 < n then .look (i + 1) else .waiting

/-- The result of `con_read`, and what it has stored. -/
structure Heartbeat where
  result : ℤ
  tcpData : List UInt8

/-- `registered` is the connection last registered with each descriptor. -/
structure State (D : Type*) (n : ℕ) where
  cons : ConSet D n
  watchDog : WatchDog
  registered : ℤ → Option (Con D)

inductive Event (D : Type*)
  | addCon (con : Con D)
  | watchDog (heartbeat : Heartbeat)
  | closeAllFds

/-- Descriptors that `accept` does not return: standard input, and those of the set. -/
def State.IsOpen (s : State D n) (fd : ℤ) : Prop := fd ≤ 0 ∨ fd ∈ s.cons.fdArr.toList

instance (s : State D n) (fd : ℤ) : Decidable (s.IsOpen fd) :=
  inferInstanceAs (Decidable (_ ∨ _))

/-- An atomic access or critical section of the watchdog. -/
def State.watch (s : State D n) (heartbeat : Heartbeat) : State D n :=
  match s.watchDog with
  | .waiting => { s with watchDog := if s.cons.currSize ≠ 0 then .next n 0 else .waiting }
  | .look i => { s with watchDog := if s.cons.fd i ≠ 0 then .isset i else .next n i }
  | .isset i => { s with watchDog := if s.cons.fd i ∈ s.cons.rdfds then .read i else .next n i }
  | .read i =>
    { s with
      cons := s.cons.readCon i heartbeat.tcpData
      watchDog := if heartbeat.result ≤ 0 then .kill i else .next n i }
  | .kill i => { s with cons := s.cons.killCon i, watchDog := .next n i }

/-- A registration with a descriptor that is still open does not happen. -/
def State.step (s : State D n) : Event D → State D n
  | .addCon con =>
    if s.IsOpen con.sockfdTcp then s
    else { s with
      cons := s.cons.addCon con
      registered := Function.update s.registered con.sockfdTcp (some con) }
  | .watchDog heartbeat => s.watch heartbeat
  | .closeAllFds => { s with cons := s.cons.closeAllFds }

/-- `init_con_set` on zeroed arrays. -/
def State.start (D : Type*) (n : ℕ) : State D n where
  cons := ⟨0, Vector.replicate n 0, Vector.replicate n none, ∅, []⟩
  watchDog := .waiting
  registered _ := none

/-- The counter, the descriptors and the connections of a set agree, and every slot that
has been written is one of its own, slot 0 apart. -/
structure Consistent (registered : ℤ → Option (Con D)) (set : ConSet D n) : Prop where
  nonneg : 0 ≤ set.currSize
  counted : set.currSize = occupied 0 set.fdArr
  distinct : Distinct 0 set.fdArr
  registered : ∀ i (hi : i < n), set.fdArr[i] ≠ 0 → ∃ con tcpData,
    registered set.fdArr[i] = some con ∧ con.sockfdTcp = set.fdArr[i] ∧
      set.conArr[i] = some { con with tcpData := tcpData }
  written : ∀ i ∈ set.slotsWritten, 1 ≤ i ∧ i < n

/-- A registration finds a free slot, and the slot to kill is still occupied. -/
def Sound (s : State D n) : Event D → Prop
  | .addCon con => ¬s.IsOpen con.sockfdTcp → ∃ i, 1 ≤ i ∧ i < n ∧ s.cons.fd i = 0
  | .watchDog _ => ∀ i, s.watchDog = .kill i → s.cons.fd i ≠ 0
  | .closeAllFds => True

def WatchDog.InRange (n : ℕ) : WatchDog → Prop
  | .waiting => True
  | .look i | .isset i | .read i | .kill i => 1 ≤ i ∧ i < n

structure Invariant (s : State D n) : Prop where
  consistent : Consistent s.registered s.cons
  unused : s.cons.fd 0 = 0
  watching : s.watchDog.InRange n

variable {registered : ℤ → Option (Con D)} {set : ConSet D n} {con : Con D} {i j : ℕ}

theorem fd_eq (hi : i < n) : set.fd i = set.fdArr[i] := by
  rw [ConSet.fd, Vector.getElem?_eq_getElem hi, Option.getD_some]

theorem fd_ne_zero (h : set.fd i ≠ 0) : ∃ hi : i < n, set.fdArr[i] ≠ 0 := by
  by_cases hi : i < n
  · rw [fd_eq hi] at h
    exact ⟨hi, h⟩
  · rw [ConSet.fd, Vector.getElem?_eq_none (Nat.le_of_not_lt hi)] at h
    exact absurd rfl h

/-- Clearing an occupied slot and counting it off, whatever becomes of its entry. -/
theorem Consistent.cleared (h : Consistent registered set) (hi : 1 ≤ i) (hocc : set.fd i ≠ 0)
    (entry : Option (Con D)) (rdfds : Finset ℤ) :
    Consistent registered (⟨set.currSize - 1, set.fdArr.setIfInBounds i 0,
      set.conArr.setIfInBounds i entry, rdfds, set.slotsWritten ++ [i]⟩ : ConSet D n) := by
  obtain ⟨hlt, hfd⟩ := fd_ne_zero hocc
  have hclear := occupied_clear hlt hfd
  have hcount := h.counted
  constructor
  · change 0 ≤ set.currSize - 1
    omega
  · change set.currSize - 1 = (occupied 0 (set.fdArr.setIfInBounds i 0) : ℤ)
    omega
  · exact h.distinct.clear i
  · intro j hj hne
    rw [Vector.getElem_setIfInBounds hj] at hne
    split_ifs at hne with hij
    · exact absurd rfl hne
    · simpa only [Vector.getElem_setIfInBounds hj, hij, ↓reduceIte] using h.registered j hj hne
  · intro j hj
    rcases List.mem_append.mp hj with hj | hj
    · exact h.written j hj
    · rw [List.mem_singleton.mp hj]
      exact ⟨hi, hlt⟩

theorem Consistent.added (h : Consistent registered set) (hfree : set.slot < n)
    (hpos : 0 < con.sockfdTcp) (hnew : con.sockfdTcp ∉ set.fdArr) :
    Consistent (Function.update registered con.sockfdTcp (some con)) (set.addCon con) := by
  have hroom : 1 ≤ n := Nat.succ_le_of_lt (Nat.lt_of_le_of_lt (Nat.zero_le _) hfree)
  have hspec : 1 ≤ set.slot ∧ set.fdArr[set.slot] = 0 := firstFree_spec hroom hfree
  obtain ⟨hone, hslot⟩ := hspec
  have hcount := h.counted
  have hfill := occupied_fill (a := con.sockfdTcp) hfree hslot (by omega)
  constructor
  · change 0 ≤ set.currSize + 1
    have := h.nonneg
    omega
  · change set.currSize + 1 = (occupied 0 (set.fdArr.setIfInBounds set.slot con.sockfdTcp) : ℤ)
    rw [hfill, hcount]
    rfl
  · exact h.distinct.fill set.slot hnew
  · intro j hj hne
    simp only [ConSet.addCon, Vector.getElem_setIfInBounds hj] at hne ⊢
    by_cases hij : set.slot = j
    · simp only [hij, ↓reduceIte, Function.update_self]
      exact ⟨con, con.tcpData, rfl, rfl, rfl⟩
    · simp only [hij, ↓reduceIte] at hne ⊢
      have hother : set.fdArr[j] ≠ con.sockfdTcp := fun he => hnew (he ▸ Vector.getElem_mem hj)
      rw [Function.update_of_ne hother]
      exact h.registered j hj hne
  · intro j hj
    rcases List.mem_append.mp hj with hj | hj
    · exact h.written j hj
    · rw [List.mem_singleton.mp hj]
      exact ⟨hone, hfree⟩

theorem Consistent.heartbeat (h : Consistent registered set) (i : ℕ) (tcpData : List UInt8) :
    Consistent registered (set.readCon i tcpData) := by
  refine ⟨h.nonneg, h.counted, h.distinct, fun j hj hne => ?_, h.written⟩
  obtain ⟨con, old, hreg, hsock, hcon⟩ := h.registered j hj hne
  by_cases hij : i = j
  · subst hij
    refine ⟨con, tcpData, hreg, hsock, ?_⟩
    simp only [ConSet.readCon, Vector.getElem_setIfInBounds hj, ↓reduceIte,
      Vector.getElem?_eq_getElem hj, Option.getD_some, hcon, Option.map_some, clearConData]
  · refine ⟨con, old, hreg, hsock, ?_⟩
    simp only [ConSet.readCon, Vector.getElem_setIfInBounds hj, hij, ↓reduceIte, hcon]

theorem closeFd_fd_zero (h : set.fd 0 = 0) (i : ℕ) : (set.closeFd i).fd 0 = 0 := by
  unfold ConSet.closeFd
  split_ifs with hocc
  · have hne : i ≠ 0 := fun he => hocc (he ▸ h)
    change (set.fdArr.setIfInBounds i 0)[0]?.getD 0 = 0
    rw [Vector.getElem?_setIfInBounds_ne hne]
    exact h
  · exact h

theorem Consistent.closeAllFds (h : Consistent registered set) (hunused : set.fd 0 = 0) :
    Consistent registered set.closeAllFds ∧ set.closeAllFds.fd 0 = 0 := by
  let inv : ConSet D n → Prop := fun t => Consistent registered t ∧ t.fd 0 = 0
  have hkeeps : ∀ t i, inv t → inv (t.closeFd i) := by
    rintro t i ⟨ht, hzero⟩
    refine ⟨?_, closeFd_fd_zero hzero i⟩
    unfold ConSet.closeFd
    split_ifs with hocc
    · have hpos : 1 ≤ i := Nat.one_le_iff_ne_zero.mpr fun he => hocc (he ▸ hzero)
      exact ht.cleared hpos hocc _ _
    · exact ht
  have hfinal : inv set.closeAllFds := fold_invariant (List.range n) ⟨h, hunused⟩ hkeeps
  exact hfinal

theorem next_inRange (n i : ℕ) : (WatchDog.next n i).InRange n := by
  unfold WatchDog.next
  split_ifs with h
  · exact ⟨Nat.le_add_left 1 i, h⟩
  · trivial

theorem slot_lt_iff (hn : 1 ≤ n) : set.slot < n ↔ ∃ i, 1 ≤ i ∧ i < n ∧ set.fd i = 0 := by
  refine (firstFree_lt_iff hn).trans ?_
  constructor
  · rintro ⟨i, hone, hi, hfree⟩
    exact ⟨i, hone, hi, (fd_eq hi).trans hfree⟩
  · rintro ⟨i, hone, hi, hfree⟩
    exact ⟨i, hone, hi, (fd_eq hi).symm.trans hfree⟩

variable {s : State D n}

theorem start_invariant (D : Type*) (n : ℕ) : Invariant (State.start D n) := by
  refine ⟨⟨Int.le_refl 0, ?_, ?_, ?_, ?_⟩, ?_, trivial⟩
  · change (0 : ℤ) = (occupied 0 (Vector.replicate n (0 : ℤ)) : ℤ)
    simp [occupied, Vector.countP_replicate]
  · intro i j hi hj heq hne
    exact absurd (Vector.getElem_replicate hi) hne
  · intro i hi hne
    exact absurd (Vector.getElem_replicate hi) hne
  · intro i hi
    cases hi
  · simp only [ConSet.fd, State.start, Vector.getElem?_replicate]
    split_ifs <;> rfl

/-- The watchdog keeps the invariant when it does not kill an empty slot. -/
theorem Invariant.watch (h : Invariant s) (heartbeat : Heartbeat)
    (hkill : ∀ i, s.watchDog = .kill i → s.cons.fd i ≠ 0) : Invariant (s.watch heartbeat) := by
  have hrange := h.watching
  unfold State.watch
  cases hw : s.watchDog with
  | waiting =>
    refine ⟨h.consistent, h.unused, ?_⟩
    change WatchDog.InRange n (if _ then _ else _)
    split_ifs
    · exact next_inRange n 0
    · trivial
  | look i =>
    rw [hw] at hrange
    refine ⟨h.consistent, h.unused, ?_⟩
    change WatchDog.InRange n (if _ then _ else _)
    split_ifs
    · exact hrange
    · exact next_inRange n i
  | isset i =>
    rw [hw] at hrange
    refine ⟨h.consistent, h.unused, ?_⟩
    change WatchDog.InRange n (if _ then _ else _)
    split_ifs
    · exact hrange
    · exact next_inRange n i
  | read i =>
    rw [hw] at hrange
    refine ⟨h.consistent.heartbeat i _, h.unused, ?_⟩
    change WatchDog.InRange n (if _ then _ else _)
    split_ifs
    · exact hrange
    · exact next_inRange n i
  | kill i =>
    rw [hw] at hrange
    refine ⟨h.consistent.cleared hrange.1 (hkill i hw) _ _, ?_, next_inRange n i⟩
    have hne : i ≠ 0 := Nat.one_le_iff_ne_zero.mp hrange.1
    change (s.cons.fdArr.setIfInBounds i 0)[0]?.getD 0 = 0
    rw [Vector.getElem?_setIfInBounds_ne hne]
    exact h.unused

theorem Invariant.step (h : Invariant s) (e : Event D) (hn : 2 ≤ n) (hok : Sound s e) :
    Invariant (s.step e) := by
  cases e with
  | addCon con =>
    simp only [State.step]
    split_ifs with hopen
    · exact h
    · have hfree := (slot_lt_iff (by omega)).mpr (hok hopen)
      have hone := (firstFree_spec (by omega) hfree).1
      have hpos : 0 < con.sockfdTcp := Int.not_le.mp fun hle => hopen (Or.inl hle)
      refine ⟨h.consistent.added hfree hpos fun hmem =>
        hopen (Or.inr (Vector.mem_toList_iff.mpr hmem)), ?_, h.watching⟩
      have hne : s.cons.slot ≠ 0 := Nat.one_le_iff_ne_zero.mp hone
      change (s.cons.fdArr.setIfInBounds s.cons.slot con.sockfdTcp)[0]?.getD 0 = 0
      rw [Vector.getElem?_setIfInBounds_ne hne]
      exact h.unused
  | watchDog heartbeat => exact h.watch heartbeat hok
  | closeAllFds =>
    obtain ⟨hset, hzero⟩ := h.consistent.closeAllFds h.unused
    exact ⟨hset, hzero, h.watching⟩

/-- A full set is written behind its end, and killing an empty slot counts off one
connection too many. -/
theorem Invariant.breaks (h : Invariant s) (e : Event D) (hn : 2 ≤ n) (hbad : ¬Sound s e) :
    ¬Consistent (s.step e).registered (s.step e).cons := by
  intro hcons
  cases e with
  | addCon con =>
    simp only [Sound, Classical.not_imp] at hbad
    obtain ⟨hopen, hfull⟩ := hbad
    rw [← slot_lt_iff (by omega)] at hfull
    rw [State.step, if_neg hopen] at hcons
    have hwritten : s.cons.slot ∈ (s.cons.addCon con).slotsWritten :=
      List.mem_append_right _ (List.mem_singleton_self _)
    exact hfull (hcons.written _ hwritten).2
  | watchDog heartbeat =>
    simp only [Sound, not_forall, ne_eq, not_not] at hbad
    obtain ⟨i, hkill, hempty⟩ := hbad
    have hrange := h.watching
    rw [hkill] at hrange
    have hsame : (s.cons.fdArr.setIfInBounds i 0) = s.cons.fdArr := by
      refine Vector.ext fun j hj => ?_
      rw [Vector.getElem_setIfInBounds hj]
      split_ifs with hij
      · subst hij
        exact ((fd_eq hj).symm.trans hempty).symm
      · rfl
    have hcount := hcons.counted
    simp only [State.step, State.watch, hkill, ConSet.killCon, hsame] at hcount
    have := h.consistent.counted
    omega
  | closeAllFds => exact hbad trivial

/-- The set is consistent all along a run exactly when every registration finds a free
slot and every slot that is killed is occupied. -/
theorem consistent_iff (hn : 2 ≤ n) (events : List (Event D)) :
    (∀ pre, pre <+: events → Consistent (pre.foldl State.step (.start D n)).registered
        (pre.foldl State.step (.start D n)).cons) ↔
      ∀ pre e, pre ++ [e] <+: events → Sound (pre.foldl State.step (.start D n)) e := by
  have hexact : ExactGuard (State.step (D := D) (n := n)) Sound Invariant
      fun s => Consistent s.registered s.cons :=
    ⟨fun s h => h.consistent, fun s e h hok => h.step e hn hok,
      fun s e h hbad => h.breaks e hn hbad⟩
  exact hexact.iff (start_invariant D n) events

/-- Behind its first look at a slot, the watchdog has a connection in it. -/
def Watched (w : WatchDog) (set : ConSet D n) : Prop :=
  match w with
  | .isset i | .read i | .kill i => set.fd i ≠ 0
  | _ => True

theorem watched_next (set : ConSet D n) (i : ℕ) : Watched (.next n i) set := by
  unfold WatchDog.next
  split_ifs <;> trivial

theorem Watched.addCon {w : WatchDog} (h : Watched w set) (hpos : 0 < con.sockfdTcp) :
    Watched w (set.addCon con) := by
  have hfd : ∀ i, set.fd i ≠ 0 → (set.addCon con).fd i ≠ 0 := by
    intro i hocc
    obtain ⟨hi, -⟩ := fd_ne_zero hocc
    rw [fd_eq hi] at hocc ⊢
    simp only [ConSet.addCon, Vector.getElem_setIfInBounds hi]
    split_ifs
    · omega
    · exact hocc
  cases w with
  | waiting => trivial
  | look i => trivial
  | isset i => exact hfd i h
  | read i => exact hfd i h
  | kill i => exact hfd i h

/-- Only `close_all_fds` empties a slot behind the watchdog's back. -/
theorem Watched.step (h : Watched s.watchDog s.cons) (e : Event D) (he : e ≠ .closeAllFds) :
    Watched (s.step e).watchDog (s.step e).cons := by
  cases e with
  | addCon con =>
    simp only [State.step]
    split_ifs with hopen
    · exact h
    · exact Watched.addCon h (Int.not_le.mp fun hle => hopen (Or.inl hle))
  | watchDog heartbeat =>
    simp only [State.step, State.watch]
    cases hw : s.watchDog with
    | waiting =>
      simp only
      split_ifs
      · exact watched_next _ _
      · trivial
    | look i =>
      simp only
      split_ifs with hocc
      · exact hocc
      · exact watched_next _ _
    | isset i =>
      rw [hw] at h
      simp only
      split_ifs
      · exact h
      · exact watched_next _ _
    | read i =>
      rw [hw] at h
      simp only
      split_ifs
      · exact h
      · exact watched_next _ _
    | kill i => exact watched_next _ _
  | closeAllFds => exact absurd rfl he

/-- Without `close_all_fds` the watchdog kills occupied slots only, all along a run. -/
theorem watched_of_open (events : List (Event D)) (h : ∀ e ∈ events, e ≠ .closeAllFds) :
    Watched (events.foldl State.step (.start D n)).watchDog
      (events.foldl State.step (.start D n)).cons := by
  induction events using List.reverseRecOn with
  | nil => trivial
  | append_singleton events e ih =>
    have hbefore := ih fun e' he' => h e' (List.mem_append_left _ he')
    rw [List.foldl_append]
    exact hbefore.step e (h e (List.mem_append_right _ (List.mem_singleton_self e)))

def accepted (sock : ℤ) : Con Unit := ⟨sock, true, [], ()⟩

/-- Two connections are registered, the watchdog kills the first one, and a third one takes its
slot. -/
def replaced : List (Event Unit) :=
  [.addCon (accepted 4), .addCon (accepted 5)] ++
    (List.replicate 5 (.watchDog ⟨0, []⟩) ++ [.addCon (accepted 6)])

theorem replaced_sound : Along State.step Sound (.start Unit 3) replaced := by
  refine ⟨fun _ => ⟨1, ?_⟩, fun _ => ⟨2, ?_⟩, nofun, nofun, nofun, nofun, ?_, fun _ => ⟨1, ?_⟩, trivial⟩
  · decide
  · decide
  · rintro i ⟨⟩
    decide
  · decide

theorem consistent_replaced :
    Consistent (replaced.foldl State.step (.start Unit 3)).registered
        (replaced.foldl State.step (.start Unit 3)).cons ∧
      (replaced.foldl State.step (.start Unit 3)).cons.fdArr.toList = [0, 6, 5] :=
  ⟨(consistent_iff (by decide) _).mpr (along_iff.mp replaced_sound) _ (List.prefix_refl _), by decide⟩

/-- The second connection of a set for one is written behind the arrays. -/
theorem full_set_overrun : ¬ ∀ (n : ℕ), 2 ≤ n → ∀ events pre : List (Event Unit),
    pre <+: events → Consistent (pre.foldl State.step (.start Unit n)).registered
      (pre.foldl State.step (.start Unit n)).cons := by
  intro hclaim
  have hcons := hclaim 2 (Nat.le_refl 2) [.addCon (accepted 4), .addCon (accepted 5)] _
    (List.prefix_refl _)
  have hbad := hcons.written 2 (by decide)
  exact absurd hbad.2 (by decide)

end EmotionStreamer.InterlvlCom
