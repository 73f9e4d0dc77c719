import EmotionStreamer.Preprocessor
import EmotionStreamer.Runs
import Mathlib.Data.Bool.Basic
import Mathlib.Data.Nat.Basic
import Mathlib.Logic.Function.Iterate

/-! `CONFIG` and `ROTATION` requests: each is served by a process of its own, which stages
its report in a file whose name all of them share. An operation on a file is one step. -/
namespace EmotionStreamer.InfoRequests
open Runs

/-- `TMP_CONFIG_FILE_PATH` and `TMP_ROTATION_FILE_PATH` -/
inductive TmpFile
  | config
  | rotation
  deriving DecidableEq, Repr

/-- A name, and the files that have been created under it. What is open stays readable when
the name is removed. -/
structure Entry where
  target : Option ℕ
  inodes : List (List UInt8)

/-- `open(path,O_WRONLY|O_CREAT|O_TRUNC,0777)`, and which file that has opened. -/
def Entry.create (e : Entry) : Entry × ℕ :=
  match e.target with
  | some i => ({ e with inodes := e.inodes.set i [] }, i)
  | none => (⟨some e.inodes.length, e.inodes ++ [[]]⟩, e.inodes.length)

def Entry.content (e : Entry) (i : ℕ) : List UInt8 := e.inodes[i]?.getD []

/-- A write at the beginning of the file, over what is there. -/
def Entry.write (e : Entry) (i : ℕ) (text : List UInt8) : Entry :=
  { e with inodes := e.inodes.set i (text ++ (e.content i).drop text.length) }

def Entry.remove (e : Entry) : Entry := { e with target := none }

/-- Where a worker is, with the file that it has open, and what it has sent. -/
inductive Phase
  | start
  | created (fd : ℕ)
  | written
  | opened (fd : ℕ)
  | sized (fd : ℕ) (size : UInt32)
  | sent (size : UInt32) (content : List UInt8)
  | finished (size : UInt32) (content : List UInt8)
  | failed
  deriving DecidableEq, Repr

/-- The workers of a server: the file that each of them stages its report in, and the
report, the length of which its client can read as an `int32_t`. -/
structure Service (W : Type*) where
  file : W → TmpFile
  text : W → List UInt8
  text_lt : ∀ w, (text w).length < 2147483648

structure State (W : Type*) where
  files : TmpFile → Entry
  phase : W → Phase

variable {W : Type*} (service : Service W)

def State.start (W : Type*) : State W := ⟨fun _ => ⟨none, []⟩, fun _ => .start⟩

/-- The next operation of a worker on its file. The size of a name that is gone is that of
`file_info` as it was before. -/
def operation (text : List UInt8) (e : Entry) : Phase → Entry × Phase
  | .start => (e.create.1, .created e.create.2)
  | .created fd => (e.write fd text, .written)
  | .written =>
    match e.target with
    | some i => (e, .opened i)
    | none => (e, .failed)
  | .opened fd =>
    match e.target with
    | some i => (e, .sized fd (.ofNat (e.content i).length))
    | none => (e, .sized fd 0)
  | .sized fd size => (e, .sent size (e.content fd))
  | .sent size content => (e.remove, .finished size content)
  | .finished size content => (e, .finished size content)
  | .failed => (e, .failed)

def State.step [DecidableEq W] (s : State W) (w : W) : State W :=
  let (e, phase) := operation (service.text w) (s.files (service.file w)) (s.phase w)
  ⟨Function.update s.files (service.file w) e, Function.update s.phase w phase⟩

/-- A worker opens its file, and sends the length of its report and the report. -/
def Served (text : List UInt8) : Phase → Prop
  | .sized _ size => size.toNat = text.length
  | .sent size content | .finished size content => size.toNat = text.length ∧ content = text
  | .failed => False
  | _ => True

/-- Until its size has been taken, the file is needed under its name. -/
def Phase.NeedsName : Phase → Prop
  | .created _ | .written | .opened _ => True
  | _ => False

/-- The file that has the name is one that the worker is going to use or to read. -/
def Phase.Uses (e : Entry) : Phase → Prop
  | .created _ | .written | .opened _ => True
  | .sized fd _ => e.target = some fd
  | _ => False

instance (e : Entry) : DecidablePred (Phase.Uses e)
  | .created _ | .written | .opened _ => isTrue trivial
  | .sized fd _ => inferInstanceAs (Decidable (e.target = some fd))
  | .start | .sent _ _ | .finished _ _ | .failed => isFalse id

/-- The file is not created while another worker uses it, and not removed while another
one needs its name. -/
def Alone (s : State W) (w : W) : Prop :=
  match s.phase w with
  | .start => ∀ v, v ≠ w → service.file v = service.file w →
      ¬(s.phase v).Uses (s.files (service.file w))
  | .sent _ _ => ∀ v, v ≠ w → service.file v = service.file w → ¬(s.phase v).NeedsName
  | _ => True

/-- The file of a worker has its report, as far as the worker has come. -/
def Staged (text : List UInt8) (e : Entry) : Phase → Prop
  | .created fd => e.target = some fd ∧ e.inodes[fd]? = some []
  | .written => ∃ i, e.target = some i ∧ e.inodes[i]? = some text
  | .opened fd => e.target = some fd ∧ e.inodes[fd]? = some text
  | .sized fd size => e.inodes[fd]? = some text ∧ size.toNat = text.length
  | .sent size content | .finished size content => size.toNat = text.length ∧ content = text
  | .failed => False
  | .start => True

structure Invariant (s : State W) : Prop where
  linked : ∀ k i, (s.files k).target = some i → i < (s.files k).inodes.length
  one : ∀ v w, service.file v = service.file w → (s.phase v).Uses (s.files (service.file v)) →
    (s.phase w).Uses (s.files (service.file w)) → v = w
  staged : ∀ w, Staged (service.text w) (s.files (service.file w)) (s.phase w)

variable {service} {text : List UInt8} {e : Entry} {phase : Phase} {s : State W} {v w : W}

theorem served_of_staged (h : Staged text e phase) : Served text phase := by
  cases phase with
  | start | created | written | opened => trivial
  | sized fd size => exact h.2
  | sent size content => exact h
  | finished size content => exact h
  | failed => exact h

theorem create_spec (hlinked : ∀ i, e.target = some i → i < e.inodes.length) :
    e.create.1.target = some e.create.2 ∧ e.create.1.inodes[e.create.2]? = some [] := by
  rw [Entry.create]
  cases htarget : e.target with
  | none => simp
  | some i => simp [hlinked i htarget]

/-- A file that is linked stays in range, whatever a worker does. -/
theorem operation_linked (hlinked : ∀ i, e.target = some i → i < e.inodes.length) (text : List UInt8)
    (phase : Phase) (i : ℕ) (h : (operation text e phase).1.target = some i) :
    i < (operation text e phase).1.inodes.length := by
  cases phase with
  | start =>
    obtain ⟨htarget, hempty⟩ := create_spec hlinked
    rw [operation, htarget] at h
    rw [← Option.some.inj h]
    exact (List.getElem?_eq_some_iff.mp hempty).1
  | created fd =>
    rw [operation, Entry.write, List.length_set]
    exact hlinked i h
  | written =>
    rw [operation] at h ⊢
    split at h <;> exact hlinked i h
  | opened fd =>
    rw [operation] at h ⊢
    split at h <;> exact hlinked i h
  | sent size content => cases h
  | sized | finished | failed => exact hlinked i h

/-- A worker's own operation takes it one step further. -/
theorem operation_staged (hlinked : ∀ i, e.target = some i → i < e.inodes.length)
    (htext : text.length < 2147483648) (h : Staged text e phase) :
    Staged text (operation text e phase).1 (operation text e phase).2 := by
  cases phase with
  | start => exact create_spec hlinked
  | created fd =>
    obtain ⟨htarget, hempty⟩ := h
    obtain ⟨hlt, -⟩ := List.getElem?_eq_some_iff.mp hempty
    refine ⟨fd, htarget, ?_⟩
    change (e.inodes.set fd (text ++ (e.content fd).drop text.length))[fd]? = some text
    rw [Entry.content, hempty, Option.getD_some, List.drop_nil, List.append_nil,
      List.getElem?_set_self hlt]
  | written =>
    obtain ⟨i, htarget, htexti⟩ := h
    simp only [operation, htarget]
    exact ⟨htarget, htexti⟩
  | opened fd =>
    obtain ⟨htarget, htextfd⟩ := h
    simp only [operation, htarget, Entry.content, htextfd, Option.getD_some]
    refine ⟨htextfd, UInt32.toNat_ofNat_of_lt' ?_⟩
    exact htext.trans (by decide)
  | sized fd size =>
    obtain ⟨htextfd, hsize⟩ := h
    refine ⟨hsize, ?_⟩
    rw [Entry.content, htextfd, Option.getD_some]
  | sent size content => exact h
  | finished size content => exact h
  | failed => exact h

/-- A new file is another one than those that are open, unless the name is one of them. -/
theorem staged_create (hphase : ¬phase.Uses e) (h : Staged text e phase) :
    Staged text e.create.1 phase := by
  cases phase with
  | created | written | opened => exact absurd trivial hphase
  | start | sent | finished | failed => exact h
  | sized fd size =>
    refine ⟨?_, h.2⟩
    rw [Entry.create]
    cases htarget : e.target with
    | none => exact List.getElem?_append_left (List.getElem?_eq_some_iff.mp h.1).1 ▸ h.1
    | some i =>
      have hne : i ≠ fd := fun he => hphase (he ▸ htarget)
      exact (List.getElem?_set_ne hne).trans h.1

theorem staged_write {fd : ℕ} (hphase : ¬phase.Uses e) (hfd : e.target = some fd)
    (h : Staged text e phase) (other : List UInt8) : Staged text (e.write fd other) phase := by
  cases phase with
  | created | written | opened => exact absurd trivial hphase
  | start | sent | finished | failed => exact h
  | sized fd' size =>
    have hne : fd ≠ fd' := fun he => hphase (he ▸ hfd)
    exact ⟨(List.getElem?_set_ne hne).trans h.1, h.2⟩

theorem staged_remove (hphase : ¬phase.NeedsName) (h : Staged text e phase) :
    Staged text e.remove phase := by
  cases phase with
  | created | written | opened => exact absurd trivial hphase
  | start | sized | sent | finished | failed => exact h

/-- Only a creation makes a worker one that uses the file. -/
theorem uses_of_operation (h : (operation text e phase).2.Uses (operation text e phase).1) :
    phase = .start ∨ phase.Uses e := by
  cases phase with
  | start => exact Or.inl rfl
  | created | written | opened => exact Or.inr trivial
  | sized | sent | finished | failed => exact h.elim

/-- Nobody comes to use the file by what another worker does. -/
theorem uses_other {other : List UInt8} {phase' : Phase} (hstaged : Staged text e phase)
    (h : phase.Uses (operation other e phase').1) : phase.Uses e := by
  cases phase with
  | created | written | opened => trivial
  | start | sent | finished | failed => exact h
  | sized fd size =>
    have hlt := (List.getElem?_eq_some_iff.mp hstaged.1).1
    cases phase' with
    | start =>
      simp only [Phase.Uses, operation, Entry.create] at h ⊢
      split at h
      · exact h
      · have := Option.some.inj h
        omega
    | created fd' => exact h
    | written | opened =>
      simp only [operation] at h
      split at h <;> exact h
    | sent => cases h
    | sized | finished | failed => exact h

/-- What another worker of the same kind has staged is left alone. -/
theorem Invariant.staged_other (h : Invariant service s) (hok : Alone service s w) (hv : v ≠ w)
    (hfile : service.file v = service.file w) : Staged (service.text v)
      (operation (service.text w) (s.files (service.file w)) (s.phase w)).1 (s.phase v) := by
  have hstaged := h.staged v
  have hown := h.staged w
  rw [hfile] at hstaged
  rw [Alone] at hok
  cases hphase : s.phase w with
  | start =>
    rw [hphase] at hok
    exact staged_create (hok v hv hfile) hstaged
  | created fd =>
    rw [hphase] at hown
    refine staged_write (fun huse => hv (h.one v w hfile ?_ ?_)) hown.1 hstaged _
    · rwa [hfile]
    · rw [hphase]
      trivial
  | written | opened =>
    rw [operation]
    split <;> exact hstaged
  | sent size content =>
    rw [hphase] at hok
    exact staged_remove (hok v hv hfile) hstaged
  | sized | finished | failed => exact hstaged

/-- A worker that uses the file behind its operation is the only one. -/
theorem Invariant.idle_other (h : Invariant service s) (hok : Alone service s w) (hv : v ≠ w)
    (hfile : service.file v = service.file w)
    (huse : (operation (service.text w) (s.files (service.file w)) (s.phase w)).2.Uses
      (operation (service.text w) (s.files (service.file w)) (s.phase w)).1) :
    ¬(s.phase v).Uses (s.files (service.file w)) := by
  rcases uses_of_operation huse with hstart | hw
  · rw [Alone, hstart] at hok
    exact hok v hv hfile
  · intro hin
    rw [← hfile] at hin
    exact hv (h.one v w hfile hin hw)

theorem step_phase_self [DecidableEq W] (s : State W) (w : W) : (s.step service w).phase w =
    (operation (service.text w) (s.files (service.file w)) (s.phase w)).2 :=
  Function.update_self _ _ _

theorem step_phase_other [DecidableEq W] (s : State W) (hv : v ≠ w) :
    (s.step service w).phase v = s.phase v := Function.update_of_ne hv _ _

theorem step_file [DecidableEq W] (s : State W) (hfile : service.file v = service.file w) :
    (s.step service w).files (service.file v) =
      (operation (service.text w) (s.files (service.file w)) (s.phase w)).1 := by
  rw [hfile]
  exact Function.update_self _ _ _

theorem step_file_other [DecidableEq W] (s : State W) {k : TmpFile} (hk : k ≠ service.file w) :
    (s.step service w).files k = s.files k := Function.update_of_ne hk _ _

/-- A worker other than `w` that uses its file has used it before. -/
theorem Invariant.uses_before [DecidableEq W] (h : Invariant service s) (hv : v ≠ w)
    (huse : ((s.step service w).phase v).Uses ((s.step service w).files (service.file v))) :
    (s.phase v).Uses (s.files (service.file v)) := by
  rw [step_phase_other s hv] at huse
  by_cases hfile : service.file v = service.file w
  · rw [step_file s hfile] at huse
    have hstaged := h.staged v
    rw [hfile] at hstaged ⊢
    exact uses_other hstaged huse
  · rwa [step_file_other s hfile] at huse

theorem Invariant.step [DecidableEq W] (h : Invariant service s) (hok : Alone service s w) :
    Invariant service (s.step service w) := by
  have hlinked := h.linked (service.file w)
  constructor
  · intro k i hi
    by_cases hk : k = service.file w
    · subst hk
      rw [step_file s rfl] at hi ⊢
      exact operation_linked hlinked _ _ i hi
    · rw [step_file_other s hk] at hi ⊢
      exact h.linked k i hi
  · intro u v huv hu hv
    by_cases huw : u = w
    · by_cases hvw : v = w
      · exact huw.trans hvw.symm
      · subst huw
        rw [step_phase_self, step_file s rfl] at hu
        have hin := h.uses_before hvw hv
        rw [← huv] at hin
        exact absurd hin (h.idle_other hok hvw huv.symm hu)
    · by_cases hvw : v = w
      · subst hvw
        rw [step_phase_self, step_file s rfl] at hv
        have hin := h.uses_before huw hu
        rw [huv] at hin
        exact absurd hin (h.idle_other hok huw huv hv)
      · exact h.one u v huv (h.uses_before huw hu) (h.uses_before hvw hv)
  · intro v
    by_cases hv : v = w
    · subst hv
      rw [step_phase_self, step_file s rfl]
      exact operation_staged hlinked (service.text_lt v) (h.staged v)
    · rw [step_phase_other s hv]
      by_cases hfile : service.file v = service.file w
      · rw [step_file s hfile]
        exact h.staged_other hok hv hfile
      · rw [step_file_other s hfile]
        exact h.staged v

theorem start_invariant (service : Service W) : Invariant service (State.start W) := by
  constructor
  · intro k i h
    cases h
  · intro v w _ h
    exact h.elim
  · intro w
    trivial

/-- Every worker is served its own report when nobody creates a file that another worker
uses, or removes one that is still needed. -/
theorem served_of_alone [DecidableEq W] (service : Service W) (schedule : List W)
    (hok : ∀ pre w, pre ++ [w] <+: schedule →
      Alone service (pre.foldl (State.step service) (.start W)) w) (pre : List W)
    (hpre : pre <+: schedule) (w : W) :
    Served (service.text w) ((pre.foldl (State.step service) (.start W)).phase w) := by
  have hinv := prefix_invariant hok (start_invariant service)
    (fun _ _ h hw => Invariant.step h hw) pre hpre
  exact served_of_staged (hinv.staged w)

/-- What a worker does when it is left alone for `n` steps. -/
theorem solo [DecidableEq W] (service : Service W) (s : State W) (w : W) (n : ℕ) :
    (∀ v, v ≠ w → ((List.replicate n w).foldl (State.step service) s).phase v = s.phase v) ∧
      (((List.replicate n w).foldl (State.step service) s).files (service.file w),
        ((List.replicate n w).foldl (State.step service) s).phase w) =
        (fun p => operation (service.text w) p.1 p.2)^[n] (s.files (service.file w), s.phase w) := by
  induction n with
  | zero => exact ⟨fun _ _ => rfl, rfl⟩
  | succ n ih =>
    obtain ⟨hothers, hself⟩ := ih
    rw [List.replicate_succ', List.foldl_append, Function.iterate_succ_apply', ← hself]
    constructor
    · intro v hv
      rw [← hothers v hv]
      exact step_phase_other _ hv
    · exact Prod.ext (step_file _ rfl) (step_phase_self _ _)

/-- A whole request removes the name. -/
theorem solo_removes (text : List UInt8) (e : Entry)
    (hlinked : ∀ i, e.target = some i → i < e.inodes.length) :
    ((fun p => operation text p.1 p.2)^[6] (e, .start)).1.target = none := by
  have htarget := (create_spec hlinked).1
  simp only [Function.iterate_succ_apply, operation, Entry.write, htarget]
  rfl

/-- A worker that still needs the name is not served without it. -/
theorem unserved_without_name (hneeds : phase.NeedsName) (htext : text ≠ [])
    (htarget : e.target = none) :
    ∃ n, ¬Served text ((fun p => operation text p.1 p.2)^[n] (e, phase)).2 := by
  cases phase with
  | created fd =>
    refine ⟨2, ?_⟩
    simp only [Function.iterate_succ_apply, operation, Entry.write, htarget]
    exact id
  | written =>
    refine ⟨1, ?_⟩
    simp only [Function.iterate_succ_apply, operation, htarget]
    exact id
  | opened fd =>
    refine ⟨1, ?_⟩
    simp only [Function.iterate_succ_apply, operation, htarget]
    exact fun hsize => htext (List.length_eq_zero_iff.mp hsize.symm)
  | start | sized | sent | finished | failed => exact hneeds.elim

/-- `w` goes on until the name is removed, and then `v`, which still needs it. -/
theorem unserved_of_removed [DecidableEq W] (hv : v ≠ w) (hfile : service.file v = service.file w)
    (hneeds : (s.phase v).NeedsName) (htext : service.text v ≠ []) (n : ℕ)
    (hgone : ((fun p => operation (service.text w) p.1 p.2)^[n + 1]
      (s.files (service.file w), s.phase w)).1.target = none) :
    ∃ rest v, ¬Served (service.text v) (((w :: rest).foldl (State.step service) s).phase v) := by
  obtain ⟨hothers, hself⟩ := solo service s w (n + 1)
  rw [← hself] at hgone
  obtain ⟨m, hm⟩ := unserved_without_name hneeds htext hgone
  refine ⟨List.replicate n w ++ List.replicate m v, v, ?_⟩
  rw [← List.cons_append, ← List.replicate_succ, List.foldl_append]
  have hrest := (solo service
    ((List.replicate (n + 1) w).foldl (State.step service) s) v m).2
  rw [hothers v hv, hfile] at hrest
  rw [← hrest] at hm
  exact hm

/-- From a step that is not alone, the workers can go on so that one of them is not served. -/
theorem not_alone_breaks [DecidableEq W] (h : Invariant service s)
    (htext : ∀ v, service.text v ≠ []) (hbad : ¬Alone service s w) :
    ∃ rest v, ¬Served (service.text v) (((w :: rest).foldl (State.step service) s).phase v) := by
  cases hphase : s.phase w with
  | start =>
    simp only [Alone, hphase, not_forall, not_not] at hbad
    obtain ⟨v, hv, hfile, huses⟩ := hbad
    have hremoves := solo_removes (service.text w) _ (h.linked (service.file w))
    cases hother : s.phase v with
    | created | written | opened =>
      rw [← hphase] at hremoves
      exact unserved_of_removed hv hfile (by rw [hother]; trivial) (htext v) 5 hremoves
    | sized fd size =>
      rw [hother] at huses
      have htarget : (s.files (service.file w)).target = some fd := huses
      have hempty : ((s.step service w).files (service.file w)).content fd = [] := by
        have hcreate := (create_spec (h.linked (service.file w))).2
        rw [step_file s rfl, hphase]
        simp only [operation, Entry.create, htarget, Entry.content] at hcreate ⊢
        rw [hcreate, Option.getD_some]
      refine ⟨[v], v, ?_⟩
      rw [List.foldl_cons, List.foldl_cons, List.foldl_nil, step_phase_self, step_phase_other s hv,
        hother, hfile]
      simp only [operation, hempty]
      exact fun hserved => htext v hserved.2.symm
    | start | sent | finished | failed =>
      rw [hother] at huses
      exact huses.elim
  | sent size content =>
    simp only [Alone, hphase, not_forall, not_not] at hbad
    obtain ⟨v, hv, hfile, hneeds⟩ := hbad
    exact unserved_of_removed hv hfile hneeds (htext v) 0 (by rw [hphase]; rfl)
  | created | written | opened | sized | finished | failed =>
    rw [Alone, hphase] at hbad
    exact absurd trivial hbad

instance decidableNeedsName : DecidablePred Phase.NeedsName
  | .created _ | .written | .opened _ => isTrue trivial
  | .start | .sized _ _ | .sent _ _ | .finished _ _ | .failed => isFalse id

instance decidableAlone {n : ℕ} (service : Service (Fin n)) (s : State (Fin n)) (w : Fin n) :
    Decidable (Alone service s w) :=
  match h : s.phase w with
  | .start => decidable_of_iff (∀ v, v ≠ w → service.file v = service.file w →
      ¬(s.phase v).Uses (s.files (service.file w))) (by rw [Alone, h])
  | .sent _ _ => decidable_of_iff (∀ v, v ≠ w → service.file v = service.file w →
      ¬(s.phase v).NeedsName) (by rw [Alone, h])
  | .created _ | .written | .opened _ | .sized _ _ | .finished _ _ | .failed =>
    isTrue (by rw [Alone, h]; trivial)

/-- Two clients ask for the configuration, and one for the rotation. -/
def threeReports : Service (Fin 3) where
  file w := if w = 2 then .rotation else .config
  text w := if w = 2 then [5, 6] else if w = 1 then [4] else [1, 2, 3]
  text_lt w := by
    split_ifs <;> decide

/-- The second worker takes the name of the file while the first one has not removed it, and
the third one goes on all the time. -/
def threeInterleaved : List (Fin 3) := [0, 2, 0, 0, 2, 0, 0, 1, 2, 1, 1, 2, 1, 0, 2, 1, 2, 1]

theorem three_reports_served :
    let s := threeInterleaved.foldl (State.step threeReports) (.start (Fin 3))
    Served (threeReports.text 0) (s.phase 0) ∧ Served (threeReports.text 1) (s.phase 1) ∧
      Served (threeReports.text 2) (s.phase 2) := by
  have hok : Along (State.step threeReports) (Alone threeReports) (.start (Fin 3))
      threeInterleaved := by
    decide
  have h := served_of_alone threeReports threeInterleaved (along_iff.mp hok) _ (List.prefix_refl _)
  exact ⟨h 0, h 1, h 2⟩

/-- Two clients ask for the configuration. -/
def twoConfigs : Service Bool := ⟨fun _ => .config, fun _ => [1, 2, 3], fun _ => by decide⟩

/-- The file that the second worker is about to open is removed by the first. -/
theorem two_configs_interleaved : ¬ ∀ (W : Type) [DecidableEq W] (service : Service W)
    (schedule pre : List W), pre <+: schedule → ∀ w, Served (service.text w)
      ((pre.foldl (State.step service) (.start W)).phase w) := by
  intro hclaim
  exact hclaim Bool twoConfigs [false, false, false, false, false, true, true, false, true] _
    (List.prefix_refl _) true

end EmotionStreamer.InfoRequests
