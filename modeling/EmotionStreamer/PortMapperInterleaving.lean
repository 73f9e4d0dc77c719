import EmotionStreamer.PortMapperThreads
import EmotionStreamer.Runs

/-! The main thread and the input thread of the port mapper, with their accesses in any
order. Each of them changes a cell first and the counter later, from values it looked at
before, so the two agree between operations as long as no thread writes over a value that
is not the one it looked at. -/
namespace EmotionStreamer.PortMapper
open Accesses Runs

/-- What a thread has looked at, and what it owes the counter for a cell it changed. -/
inductive Phase
  | settled
  | saw (i v : ℤ)
  | owes (d : ℤ)
  | counted (d n : ℤ)
  deriving DecidableEq, Repr

def Phase.next : Phase → Access → ℤ → Phase
  | .owes d, .lookCount, n => .counted d n
  | .saw _ v, .setCell _ w, _ => .owes (w - v)
  | _, .lookCell _ i, v => .saw i v
  | _, _, _ => .settled

def Phase.owed : Phase → ℤ
  | .owes d => d
  | .counted d _ => d
  | _ => 0

def Phase.Settled (φ : Phase) : Prop := φ = .settled ∨ ∃ i v, φ = .saw i v

/-- A thread sets a cell only behind a look at it, and then the counter behind a look at
the counter. -/
def counting : Protocol Phase Access ℤ where
  allowed
    | .owes _, a => a = .lookCount
    | .counted d n, a => a = .setCount (n + d)
    | .saw i v, .setCell j w =>
      j = i ∧ (v = portFree ∧ w = portAllocated ∨ v = portAllocated ∧ w = portFree)
    | _, .lookCell _ _ => True
    | _, .lookCount => True
    | _, _ => False
  answers _ _ _ := True
  next := Phase.next

/-- A thread that only looks, as long as the ports it would close are not allocated. -/
def looking : Protocol Unit Access ℤ where
  allowed
    | _, .lookCell _ _ => True
    | _, .lookCount => True
    | _, _ => False
  answers _ a v := ∀ i, a = .lookCell .close i → v ≠ portAllocated
  next _ _ _ := ()

structure Thread where
  prog : Program Unit
  phase : Phase

/-- The table, the two threads, and the command that the input thread took last. -/
structure System where
  mapper : Mapper
  main : Thread
  input : Thread
  command : Option Command

def System.start (cfg : Config) : System :=
  ⟨.start cfg, ⟨.ret (), .settled⟩, ⟨.ret (), .settled⟩, none⟩

/-- A thread starts an operation, or makes its next access. -/
inductive Label
  | request (x : Exchange)
  | command (c : Command)
  | main
  | input

def Thread.idle (t : Thread) : Bool :=
  match t.prog with
  | .ret _ => true
  | _ => false

def Thread.access (t : Thread) (m : Mapper) : Option (Mapper × Thread) :=
  match t.prog with
  | .call a rest =>
    match perform a m with
    | .ok (r, m') => some (m', ⟨rest r, t.phase.next a r⟩)
    | .error _ => none
  | _ => none

def System.step (cfg : Config) (s : System) : Label → Option System
  | .request x => if s.main.idle then
      some { s with main := ⟨Threads.acceptedConnectionThread cfg x, .settled⟩ } else none
  | .command c => if s.input.idle then
      some { s with input := ⟨c.program cfg, .settled⟩, command := some c } else none
  | .main => (s.main.access s.mapper).map fun r => { s with mapper := r.1, main := r.2 }
  | .input => (s.input.access s.mapper).map fun r => { s with mapper := r.1, input := r.2 }

def Steps (cfg : Config) (s : System) (l : Label) (t : System) : Prop := s.step cfg l = some t

def System.between (s : System) : Prop := s.main.idle = true ∧ s.input.idle = true

/-- The input thread is in a print, or has ended one. -/
def System.printing (s : System) : Prop := ∃ running, s.command = some (.print running)

/-- The value that the thread is about to replace is the one it looked at. -/
def Thread.Fresh (t : Thread) (m : Mapper) : Prop :=
  match t.prog, t.phase with
  | .call (.setCell i _) _, .saw _ v => m.look i = .ok v
  | .call (.setCount _) _, .counted _ n => (m.currNumPorts : ℤ) = n
  | _, _ => True

/-- The port that the thread is about to close is not allocated. -/
def Thread.Unmarked (t : Thread) (m : Mapper) : Prop :=
  match t.prog with
  | .call (.lookCell .close i) _ => m.look i ≠ .ok portAllocated
  | _ => True

/-- No thread replaces a value that has changed since it looked, and the closing at the
end of a dry run finds no port that was granted meanwhile. -/
def Undisturbed (s : System) : Label → Prop
  | .main => s.main.Fresh s.mapper
  | .input => s.input.Fresh s.mapper ∧ (s.printing → s.input.Unmarked s.mapper)
  | _ => True

/-- A program that pays its debts. -/
def Keeps {α : Type} (p : Program α) : Prop :=
  ∀ φ : Phase, φ.Settled → p.Follows counting (fun _ ψ => ψ.Settled) φ

def Looks {α : Type} (p : Program α) : Prop := p.Follows looking (fun _ _ => True) ()

section Programs
variable {α β : Type} {cfg : Config} {p : Program α} {f : α → Program β}

theorem Keeps.pure (a : α) : Keeps (Pure.pure a : Program α) := fun _ h => h

theorem Keeps.bind (h : Keeps p) (hf : ∀ a, Keeps (f a)) : Keeps (p >>= f) :=
  fun φ hφ => (h φ hφ).bind fun a ψ hψ => hf a ψ hψ

theorem Keeps.lift (x : Except Fault α) : Keeps (.lift x : Program α) :=
  fun _ h => .lift x fun _ _ => h

theorem Keeps.ite {c : Prop} [Decidable c] {q : Program α} (hp : Keeps p) (hq : Keeps q) :
    Keeps (if c then p else q) := by
  split_ifs
  · exact hp
  · exact hq

theorem settled_lookCell {φ : Phase} (h : φ.Settled) (site : Site) (i : ℤ) :
    counting.allowed φ (.lookCell site i) ∧ ∀ v, φ.next (.lookCell site i) v = .saw i v := by
  rcases h with rfl | ⟨j, w, rfl⟩
  · exact ⟨trivial, fun _ => rfl⟩
  · exact ⟨trivial, fun _ => rfl⟩

theorem Keeps.lookCell (site : Site) (i : ℤ) : Keeps (.access (.lookCell site i)) := by
  intro φ h
  obtain ⟨hallow, hnext⟩ := settled_lookCell h site i
  exact ⟨hallow, fun v _ => Or.inr ⟨i, v, hnext v⟩⟩

theorem Keeps.lookCount : Keeps (.access .lookCount) := by
  rintro φ (rfl | ⟨i, v, rfl⟩)
  · exact ⟨trivial, fun _ _ => Or.inl rfl⟩
  · exact ⟨trivial, fun _ _ => Or.inl rfl⟩

theorem keeps_isNoMoreRoom : Keeps (Threads.isNoMoreRoom cfg) :=
  Keeps.lookCount.bind fun _ => .pure _

theorem keeps_isEmpty : Keeps Threads.isEmpty := Keeps.lookCount.bind fun _ => .pure _

/-- The accesses behind the look at a cell that is to change. -/
theorem follows_change {i v w : ℤ} {g : ℤ → ℤ} (hg : ∀ n, g n = n + (w - v))
    (hv : v = portFree ∧ w = portAllocated ∨ v = portAllocated ∧ w = portFree) (a : α) : (do
      let _ ← Prog.access (.setCell i w)
      let count ← Prog.access .lookCount
      let _ ← Prog.access (.setCount (g count))
      return a : Program α).Follows counting (fun _ ψ => ψ.Settled) (.saw i v) :=
  .access_bind _ ⟨rfl, hv⟩ fun _ _ => .access_bind _ rfl fun n _ =>
    .access_bind _ (congrArg Access.setCount (hg n)) fun _ _ => Or.inl rfl

/-- A cell is looked at, and what follows depends on whether it has a certain state. -/
theorem keeps_lookCell_ite {site : Site} {i v : ℤ} {found other : Program α}
    (hfound : found.Follows counting (fun _ ψ => ψ.Settled) (.saw i v)) (hother : Keeps other) :
    Keeps (do
      let state ← Prog.access (.lookCell site i)
      if state = v then found else other) := by
  intro φ h
  obtain ⟨hallow, hnext⟩ := settled_lookCell h site i
  refine .access_bind _ hallow fun state _ => ?_
  change Prog.Follows _ _ (φ.next _ state) _
  rw [hnext]
  split_ifs with hstate
  · subst hstate
    exact hfound
  · exact hother _ (Or.inr ⟨i, state, rfl⟩)

theorem keeps_closeCell (port : ℕ) : Keeps (Threads.closeCell cfg port) :=
  keeps_lookCell_ite (follows_change (fun n => by simp only [portFree, portAllocated]; omega)
    (Or.inr ⟨rfl, rfl⟩) true) (.pure false)

theorem keeps_closeLoop {arr : PortArray} (n i : ℕ) : Keeps (Threads.closeLoop cfg arr n i) := by
  induction n generalizing i with
  | zero => exact .pure ()
  | succ n ih => exact (Keeps.lift _).bind fun port => (keeps_closeCell port).bind fun _ => ih (i + 1)

theorem keeps_closePorts {arr : PortArray} : Keeps (Threads.closePorts cfg arr) :=
  keeps_isEmpty.bind fun _ => .ite (.pure ()) (keeps_closeLoop arr.count 0)

theorem keeps_closeSinglePort (port : ℕ) : Keeps (Threads.closeSinglePort cfg port) :=
  keeps_isEmpty.bind fun _ => .ite (.pure false) (keeps_closeCell port)

theorem follows_takeCell (change : Bool) (i : ℤ) :
    (Threads.takeCell change i).Follows counting (fun _ ψ => ψ.Settled) (.saw i portFree) := by
  cases change with
  | false =>
    exact (Keeps.lookCell .search i).bind (fun _ => Keeps.lookCount.bind fun _ =>
      Keeps.lookCount.bind fun _ => .pure ()) _ (Or.inr ⟨i, portFree, rfl⟩)
  | true =>
    exact follows_change (fun n => by simp only [portFree, portAllocated]; omega)
      (Or.inl ⟨rfl, rfl⟩) ()

theorem keeps_fetchLoop (change : Bool) (n curr : ℕ) (arr : PortArray) :
    Keeps (Threads.fetchLoop cfg change n curr arr) := by
  induction n generalizing curr arr with
  | zero => exact .pure arr
  | succ n ih =>
    refine .ite (keeps_lookCell_ite ?_ (ih (curr + 1) arr)) (.pure arr)
    -- the entry is listed before the cell is taken
    have hpush : Prog.Follows counting (fun _ ψ => ψ = .saw ((curr : ℤ) - cfg.initPort) portFree)
      _ (Prog.lift (arr.push (curr % uint16Size))) := .lift _ fun _ _ => rfl
    refine hpush.bind ?_
    rintro arr' _ rfl
    exact (follows_takeCell change _).bind fun _ ψ hψ => ih (curr + 1) arr' ψ hψ

theorem keeps_fetchPortsToGive (arr : PortArray) (change : Bool) :
    Keeps (Threads.fetchPortsToGive cfg arr change) := by
  have hfree : Keeps (Threads.fetchFree cfg arr change) :=
    keeps_isNoMoreRoom.bind fun _ => .ite (.pure arr) (keeps_fetchLoop change _ _ arr)
  refine hfree.bind fun arr' => ?_
  have hshort : Keeps (Threads.closeIfShort cfg arr') := .ite keeps_closePorts (.pure ())
  exact hshort.bind fun _ => .pure _

theorem keeps_fetchSingleLoop (change : Bool) (n curr : ℕ) :
    Keeps (Threads.fetchSingleLoop cfg change n curr) := by
  induction n generalizing curr with
  | zero => exact .pure none
  | succ n ih =>
    refine keeps_lookCell_ite ?_ (ih (curr + 1))
    exact (follows_takeCell change _).bind fun _ ψ hψ => hψ

theorem keeps_cellChars (n i : ℕ) : Keeps (Threads.cellChars n i) := by
  induction n generalizing i with
  | zero => exact .pure []
  | succ n ih => exact (Keeps.lookCell .display i).bind fun _ => (ih (i + 1)).bind fun _ => .pure _

theorem keeps_acceptedConnectionThread (x : Exchange) :
    Keeps (Threads.acceptedConnectionThread cfg x) := by
  unfold Threads.acceptedConnectionThread
  cases requestKind x.requestBuff with
  | awkwardJoin =>
    have hfetch : Keeps (Threads.fetchSinglePortToGive cfg true) :=
      keeps_isNoMoreRoom.bind fun _ => .ite (.pure none) (keeps_fetchSingleLoop true _ _)
    exact hfetch.bind fun _ => .pure ()
  | join => exact (keeps_fetchPortsToGive .zero true).bind fun _ => .pure ()
  | leave =>
    exact .ite (.pure ()) (.ite (.pure ()) ((Keeps.lift _).bind fun _ => keeps_closePorts))
  | awkwardLeave =>
    exact .ite (.pure ()) (.ite (.pure ()) ((keeps_closeSinglePort x.port).bind fun _ => .pure ()))
  | unknown => exact .pure ()

theorem keeps_command (c : Command) : Keeps (c.program cfg) := by
  cases c with
  | print running =>
    have hprint : Keeps (Threads.portMapperPrint cfg running) :=
      (keeps_cellChars _ 0).bind fun _ => (keeps_fetchPortsToGive .zero false).bind fun _ =>
        keeps_isNoMoreRoom.bind fun _ => keeps_isEmpty.bind fun _ => Keeps.lookCount.bind fun _ =>
          .pure _
    exact hprint.bind fun _ => .pure ()
  | kill port => exact (keeps_closeSinglePort port.toNat).bind fun _ => .pure ()
  | check port =>
    have hcheck : Keeps (Threads.checkPortFunc cfg port.toNat) :=
      .ite (.pure _) ((Keeps.lookCell _ _).bind fun _ => .pure _)
    exact hcheck.bind fun _ => .pure ()

theorem Looks.pure (a : α) : Looks (Pure.pure a : Program α) := trivial

theorem Looks.bind (h : Looks p) (hf : ∀ a, Looks (f a)) : Looks (p >>= f) :=
  Prog.Follows.bind h fun a _ _ => hf a

theorem Looks.lift (x : Except Fault α) : Looks (.lift x : Program α) :=
  Prog.Follows.lift x fun _ _ => trivial

theorem Looks.ite {c : Prop} [Decidable c] {q : Program α} (hp : Looks p) (hq : Looks q) :
    Looks (if c then p else q) := by
  split_ifs
  · exact hp
  · exact hq

theorem Looks.lookCell (site : Site) (i : ℤ) : Looks (.access (.lookCell site i)) :=
  ⟨trivial, fun _ _ => trivial⟩

theorem Looks.lookCount : Looks (.access .lookCount) := ⟨trivial, fun _ _ => trivial⟩

/-- A port that is not allocated is not closed. -/
theorem looks_closeCell (port : ℕ) : Looks (Threads.closeCell cfg port) := by
  refine .access_bind _ trivial fun v hv => ?_
  rw [if_neg (hv _ rfl)]
  exact trivial

theorem looks_closeLoop {arr : PortArray} (n i : ℕ) : Looks (Threads.closeLoop cfg arr n i) := by
  induction n generalizing i with
  | zero => exact .pure ()
  | succ n ih => exact (Looks.lift _).bind fun port => (looks_closeCell port).bind fun _ => ih (i + 1)

theorem looks_isNoMoreRoom : Looks (Threads.isNoMoreRoom cfg) :=
  Looks.lookCount.bind fun _ => .pure _

theorem looks_isEmpty : Looks Threads.isEmpty := Looks.lookCount.bind fun _ => .pure _

theorem looks_fetchLoop (n curr : ℕ) (arr : PortArray) :
    Looks (Threads.fetchLoop cfg false n curr arr) := by
  induction n generalizing curr arr with
  | zero => exact .pure arr
  | succ n ih =>
    have htake : ∀ i, Looks (Threads.takeCell false i) := fun i =>
      (Looks.lookCell _ _).bind fun _ => Looks.lookCount.bind fun _ => Looks.lookCount.bind fun _ =>
        .pure ()
    exact .ite ((Looks.lookCell _ _).bind fun _ => .ite ((Looks.lift _).bind fun arr' =>
      (htake _).bind fun _ => ih (curr + 1) arr') (ih (curr + 1) arr)) (.pure arr)

theorem looks_fetchPortsToGive (arr : PortArray) :
    Looks (Threads.fetchPortsToGive cfg arr false) := by
  have hfree : Looks (Threads.fetchFree cfg arr false) :=
    looks_isNoMoreRoom.bind fun _ => .ite (.pure arr) (looks_fetchLoop _ _ arr)
  refine hfree.bind fun arr' => ?_
  have hshort : Looks (Threads.closeIfShort cfg arr') :=
    .ite (looks_isEmpty.bind fun _ => .ite (.pure ()) (looks_closeLoop arr'.count 0)) (.pure ())
  exact hshort.bind fun _ => .pure _

theorem looks_print (running : Bool) : Looks (Command.program cfg (.print running)) := by
  have hcells : ∀ n i, Looks (Threads.cellChars n i) := by
    intro n
    induction n with
    | zero => exact fun _ => .pure []
    | succ n ih =>
      exact fun i => (Looks.lookCell _ _).bind fun _ => (ih (i + 1)).bind fun _ => .pure _
  have hprint : Looks (Threads.portMapperPrint cfg running) :=
    (hcells _ 0).bind fun _ => (looks_fetchPortsToGive .zero).bind fun _ =>
      looks_isNoMoreRoom.bind fun _ => looks_isEmpty.bind fun _ => Looks.lookCount.bind fun _ =>
        .pure _
  exact hprint.bind fun _ => .pure ()

end Programs

/-- By how much the allocated cells exceed the counter. -/
def Mapper.surplus (m : Mapper) : ℤ := m.portArr.count portAllocated - m.currNumPorts

variable {cfg : Config} {m m' : Mapper} {t t' : Thread} {s u : System}

theorem surplus_set {i : ℕ} {v w : ℤ} (hi : m.portArr[i]? = some v)
    (hv : v = portFree ∧ w = portAllocated ∨ v = portAllocated ∧ w = portFree) :
    { m with portArr := m.portArr.set i w }.surplus = m.surplus + (w - v) := by
  obtain ⟨hlt, hget⟩ := List.getElem?_eq_some_iff.mp hi
  have hc := List.count_set (a := w) (b := portAllocated) hlt
  have hpos : v = portAllocated → 0 < m.portArr.count portAllocated := by
    rintro rfl
    exact List.count_pos_iff.mpr (hget ▸ List.getElem_mem hlt)
  simp only [Mapper.surplus, hc, hget]
  rcases hv with ⟨rfl, rfl⟩ | ⟨rfl, rfl⟩
  · simp only [portFree, portAllocated, Int.reduceBEq, Bool.false_eq_true, ↓reduceIte]
    omega
  · have := hpos rfl
    simp only [portFree, portAllocated, Int.reduceBEq, Bool.false_eq_true, ↓reduceIte] at this ⊢
    omega

/-- What an access of a thread does to the table and to its debt. -/
structure Accounted (m : Mapper) (t : Thread) (m' : Mapper) (t' : Thread) : Prop where
  follows : t'.prog.Follows counting (fun _ ψ => ψ.Settled) t'.phase
  length_eq : m'.portArr.length = m.portArr.length
  count_lt : m'.currNumPorts < uint16Size
  surplus : ((m'.surplus - t'.phase.owed) - (m.surplus - t.phase.owed)) % uint16Size = 0

theorem access_cases (h : t.access m = some (m', t')) : ∃ a rest r, t.prog = .call a rest ∧
    perform a m = .ok (r, m') ∧ t' = ⟨rest r, t.phase.next a r⟩ := by
  unfold Thread.access at h
  cases hp : t.prog with
  | ret a =>
    rw [hp] at h
    cases h
  | fail e =>
    rw [hp] at h
    cases h
  | call a rest =>
    rw [hp] at h
    cases hr : perform a m with
    | error e =>
      simp only [hr] at h
      cases h
    | ok r =>
      simp only [hr, Option.some.injEq, Prod.mk.injEq] at h
      obtain ⟨rfl, rfl⟩ := h
      exact ⟨a, rest, r.1, rfl, hr, rfl⟩

theorem perform_lookCell {site : Site} {i r : ℤ} (h : perform (.lookCell site i) m = .ok (r, m')) :
    m.look i = .ok r ∧ m' = m := by
  simp only [perform] at h
  cases hl : m.look i with
  | error e =>
    rw [hl] at h
    cases h
  | ok v =>
    rw [hl] at h
    cases h
    exact ⟨rfl, rfl⟩

theorem perform_setCell {i w r : ℤ} (h : perform (.setCell i w) m = .ok (r, m')) :
    m' = { m with portArr := m.portArr.set i.toNat w } := by
  simp only [perform, Mapper.set] at h
  split_ifs at h
  · cases h
    rfl
  · cases h

theorem look_eq_ok {i v : ℤ} (h : m.look i = .ok v) : m.portArr[i.toNat]? = some v := by
  unfold Mapper.look at h
  split_ifs at h with hi
  cases hc : m.portArr[i.toNat]? with
  | none =>
    rw [hc] at h
    cases h
  | some u =>
    rw [hc] at h
    cases h
    rfl

/-- Step lemma for one thread, whichever access it makes. -/
theorem access_accounted (h : t.access m = some (m', t'))
    (hf : t.prog.Follows counting (fun _ ψ => ψ.Settled) t.phase) (hfresh : t.Fresh m)
    (hlt : m.currNumPorts < uint16Size) : Accounted m t m' t' := by
  obtain ⟨a, rest, r, hp, hr, rfl⟩ := access_cases h
  rw [hp] at hf
  obtain ⟨hallow, hrest⟩ := hf.call (r := r) trivial
  simp only [Thread.Fresh, hp] at hfresh
  cases a with
  | lookCell site i =>
    obtain ⟨-, rfl⟩ := perform_lookCell hr
    refine ⟨hrest, rfl, hlt, ?_⟩
    cases hφ : t.phase <;> rw [hφ] at hallow
    · simp [Phase.next, Phase.owed]
    · simp [Phase.next, Phase.owed]
    · cases hallow
    · cases hallow
  | setCell i w =>
    obtain rfl := perform_setCell hr
    refine ⟨hrest, List.length_set, hlt, ?_⟩
    cases hφ : t.phase <;> rw [hφ] at hallow hfresh
    · exact hallow.elim
    · obtain ⟨rfl, hv⟩ := hallow
      rw [surplus_set (look_eq_ok hfresh) hv]
      simp only [Phase.next, Phase.owed, uint16Size]
      omega
    · cases hallow
    · cases hallow
  | lookCount =>
    cases hr
    refine ⟨hrest, rfl, hlt, ?_⟩
    cases hφ : t.phase <;> rw [hφ] at hallow
    · simp [Phase.next, Phase.owed]
    · simp [Phase.next, Phase.owed]
    · simp [Phase.next, Phase.owed]
    · cases hallow
  | setCount n =>
    cases hr
    have hpos : (0 : ℤ) < uint16Size := by decide
    refine ⟨hrest, rfl, ?_, ?_⟩
    · have := Int.emod_lt_of_pos n hpos
      have := Int.emod_nonneg n hpos.ne'
      dsimp only
      omega
    · cases hφ : t.phase <;> rw [hφ] at hallow hfresh
      · exact hallow.elim
      · exact hallow.elim
      · cases hallow
      · cases hallow
        simp only [Phase.next, Phase.owed, Mapper.surplus, uint16Size] at hfresh ⊢
        omega

/-- The counter lags behind the cells by what the two threads owe. -/
structure Balanced (cfg : Config) (s : System) : Prop where
  length_eq : s.mapper.portArr.length = cfg.numPorts
  count_lt : s.mapper.currNumPorts < uint16Size
  main : s.main.prog.Follows counting (fun _ ψ => ψ.Settled) s.main.phase
  input : s.input.prog.Follows counting (fun _ ψ => ψ.Settled) s.input.phase
  surplus : (s.mapper.surplus - s.main.phase.owed - s.input.phase.owed) % uint16Size = 0
  printing : s.printing → Looks s.input.prog

theorem start_balanced (cfg : Config) : Balanced cfg (.start cfg) := by
  refine ⟨List.length_replicate, (by decide : 0 < uint16Size), Or.inl rfl, Or.inl rfl, ?_,
    fun _ => trivial⟩
  simp [System.start, Mapper.start, Mapper.surplus, Phase.owed, List.count_replicate, portFree,
    portAllocated]

theorem idle_iff : t.idle = true ↔ t.prog = .ret () := by
  unfold Thread.idle
  cases t.prog <;> simp

theorem idle_owed (h : t.idle = true) (hf : t.prog.Follows counting (fun _ ψ => ψ.Settled) t.phase) :
    t.phase.owed = 0 := by
  rw [idle_iff.mp h] at hf
  rcases hf with hφ | ⟨i, v, hφ⟩
  · rw [hφ]
    rfl
  · rw [hφ]
    rfl

/-- A thread that only looks leaves the table alone, and goes on looking. -/
theorem access_looks (h : t.access m = some (m', t')) (hl : Looks t.prog) (hu : t.Unmarked m) :
    m' = m ∧ Looks t'.prog := by
  obtain ⟨a, rest, r, hp, hr, rfl⟩ := access_cases h
  unfold Looks at hl
  rw [hp] at hl
  simp only [Thread.Unmarked, hp] at hu
  cases a with
  | lookCell site i =>
    obtain ⟨hv, rfl⟩ := perform_lookCell hr
    refine ⟨rfl, (hl.call fun j hj => ?_).2⟩
    cases hj
    rintro rfl
    exact hu hv
  | setCell i w => exact hl.1.elim
  | lookCount =>
    cases hr
    exact ⟨rfl, (hl.call fun j hj => by cases hj).2⟩
  | setCount n => exact hl.1.elim

/-- Step lemma: an undisturbed step keeps the balance. -/
theorem Balanced.step {l : Label} (h : Balanced cfg s) (hok : Undisturbed s l) (hs : Steps cfg s l u) :
    Balanced cfg u := by
  cases l with
  | request x =>
    simp only [Steps, System.step, Option.ite_none_right_eq_some, Option.some.injEq] at hs
    obtain ⟨hidle, rfl⟩ := hs
    have howed := idle_owed hidle h.main
    refine ⟨h.length_eq, h.count_lt, keeps_acceptedConnectionThread x _ (Or.inl rfl), h.input, ?_,
      h.printing⟩
    have hsur := h.surplus
    rw [howed] at hsur
    exact hsur
  | command c =>
    simp only [Steps, System.step, Option.ite_none_right_eq_some, Option.some.injEq] at hs
    obtain ⟨hidle, rfl⟩ := hs
    have howed := idle_owed hidle h.input
    refine ⟨h.length_eq, h.count_lt, h.main, keeps_command c _ (Or.inl rfl), ?_, ?_⟩
    · have hsur := h.surplus
      rw [howed] at hsur
      exact hsur
    · rintro ⟨running, hc⟩
      cases hc
      exact looks_print running
  | main =>
    simp only [Steps, System.step, Option.map_eq_some_iff] at hs
    obtain ⟨⟨m', t'⟩, hacc, rfl⟩ := hs
    obtain ⟨hf, hlen, hlt, hsur⟩ := access_accounted hacc h.main hok h.count_lt
    refine ⟨hlen.trans h.length_eq, hlt, hf, h.input, ?_, h.printing⟩
    have := h.surplus
    simp only [uint16Size] at this hsur ⊢
    omega
  | input =>
    simp only [Steps, System.step, Option.map_eq_some_iff] at hs
    obtain ⟨⟨m', t'⟩, hacc, rfl⟩ := hs
    obtain ⟨hf, hlen, hlt, hsur⟩ := access_accounted hacc h.input hok.1 h.count_lt
    refine ⟨hlen.trans h.length_eq, hlt, h.main, hf, ?_, fun hp => ?_⟩
    · have := h.surplus
      simp only [uint16Size] at this hsur ⊢
      omega
    · exact (access_looks hacc (h.printing hp) (hok.2 hp)).2

theorem Balanced.count_eq (h : Balanced cfg s) (hb : s.between) :
    s.mapper.currNumPorts = s.mapper.portArr.count portAllocated := by
  have hm := idle_owed hb.1 h.main
  have hi := idle_owed hb.2 h.input
  have hsur := h.surplus
  have hlt := h.count_lt
  have hle : s.mapper.portArr.count portAllocated ≤ cfg.numPorts :=
    h.length_eq ▸ List.count_le_length
  have hcfg := cfg.numPorts_lt
  rw [hm, hi] at hsur
  simp only [Mapper.surplus, uint16Size] at hsur hlt hcfg
  omega

/-- In every run of undisturbed steps the counter is right whenever both threads are
between operations, and no step of a print changes the table. -/
theorem interleaving_counted {ls : List Label}
    (run : Run (Guarded Undisturbed (Steps cfg)) (.start cfg) ls s) :
    (s.between → s.mapper.currNumPorts = s.mapper.portArr.count portAllocated) ∧
      ∀ u, s.printing → Guarded Undisturbed (Steps cfg) s .input u → u.mapper = s.mapper := by
  have hbal : Balanced cfg s :=
    run.invariant (Balanced cfg) (start_balanced cfg) fun s l u h hs => h.step hs.1 hs.2
  refine ⟨hbal.count_eq, fun u hp hs => ?_⟩
  obtain ⟨hok, hstep⟩ := hs
  simp only [Steps, System.step, Option.map_eq_some_iff] at hstep
  obtain ⟨⟨m', t'⟩, hacc, rfl⟩ := hstep
  exact (access_looks hacc (hbal.printing hp) (hok.2 hp)).1

def singleJoin : Exchange := ⟨portMapperAwkwardJoinString, 2, 256, .zero, 0⟩

/-- The input thread prints while the main thread grants the port: each of them makes accesses
between those of the other. -/
theorem interleaving_counted_onePort : ∃ (ls ls' : List Label) (p u s : System),
    Run (Guarded Undisturbed (Steps onePort)) (.start onePort) ls p ∧ p.main.idle = false ∧
      Guarded Undisturbed (Steps onePort) p .input u ∧ u.mapper = p.mapper ∧
      Run (Guarded Undisturbed (Steps onePort)) (.start onePort) (ls ++ ls') s ∧
      s.mapper.portArr = [1] ∧ s.mapper.currNumPorts = s.mapper.portArr.count portAllocated := by
  have request : Run (Guarded Undisturbed (Steps onePort)) (.start onePort) [.request singleJoin] _ :=
    .one ⟨trivial, rfl⟩
  have search := (request.snoc (i := Label.main) ⟨trivial, rfl⟩).snoc (i := Label.main) ⟨trivial, rfl⟩
  have print := (search.snoc (i := Label.command (.print true)) ⟨trivial, rfl⟩).snoc
    (i := Label.input) ⟨⟨trivial, fun _ => trivial⟩, rfl⟩
  have taken := print.snoc (i := Label.main) ⟨rfl, rfl⟩
  have looked := (taken.snoc (i := Label.input) ⟨⟨trivial, fun _ => trivial⟩, rfl⟩).snoc
    (i := Label.main) ⟨trivial, rfl⟩
  have counted := (looked.snoc (i := Label.input) ⟨⟨trivial, fun _ => trivial⟩, rfl⟩).snoc
    (i := Label.main) ⟨rfl, rfl⟩
  have run := (((counted.snoc (i := Label.input) ⟨⟨trivial, fun _ => trivial⟩, rfl⟩).snoc
    (i := Label.input) ⟨⟨trivial, fun _ => trivial⟩, rfl⟩).snoc
    (i := Label.input) ⟨⟨trivial, fun _ => trivial⟩, rfl⟩).snoc
    (i := Label.input) ⟨⟨trivial, fun _ => trivial⟩, rfl⟩
  exact ⟨_, [.input, .main, .input, .main, .input, .input, .input, .input], _, _, _, taken, rfl,
    ⟨⟨trivial, fun _ => trivial⟩, rfl⟩,
    (interleaving_counted taken).2 _ ⟨true, rfl⟩ ⟨⟨trivial, fun _ => trivial⟩, rfl⟩, run, rfl,
    (interleaving_counted run).1 ⟨rfl, rfl⟩⟩

def twoPorts : Config := { onePort with numPorts := 2, numPorts_lt := by decide }

/-- The main thread has looked at the counter to grant the second port when the first one
is killed; its update of the counter undoes the other. -/
theorem lost_update : ¬ ∀ (cfg : Config) (ls : List Label) (s : System),
    Run (Steps cfg) (.start cfg) ls s →
      (s.between → s.mapper.currNumPorts = s.mapper.portArr.count portAllocated) ∧
        ∀ u, s.printing → Steps cfg s .input u → u.mapper = s.mapper := by
  intro h
  have run : Run (Steps twoPorts) (.start twoPorts)
      ([.request singleJoin, .main, .main, .main, .main, .main,
        .request singleJoin, .main, .main, .main, .main, .main,
        .command (.kill 11007), .input, .input, .input, .input, .input, .main])
      ⟨⟨[0, 1], 2⟩, ⟨.ret (), .settled⟩, ⟨.ret (), .settled⟩, some (.kill 11007)⟩ :=
    run_of_foldlM rfl
  exact absurd ((h _ _ _ run).1 ⟨rfl, rfl⟩) (by decide)

end EmotionStreamer.PortMapper
