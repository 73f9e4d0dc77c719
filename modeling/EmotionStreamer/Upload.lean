import EmotionStreamer.SockIo
import EmotionStreamer.Slices
import EmotionStreamer.Runs
import Mathlib.Data.List.Infix
import Mathlib.Order.Basic

/-! `uploadtofd`: the content server reads a file block by block and sends each
block once. What is on the socket is the file up to the file offset in every state
exactly when the network neither times out nor accepts only part of a block. -/
namespace EmotionStreamer.Upload
open Slices Runs SockIo

/-- The loop is running, was left by `break`, or raised `SIGINT` and returned −1. -/
inductive Status
  | sending | broke | interrupted
  deriving DecidableEq, Repr

structure Progress where
  off : ℕ
  wire : List UInt8
  status : Status
  deriving DecidableEq, Repr

def Progress.start : Progress := ⟨0, [], .sending⟩

def block (file : List UInt8) (off : ℕ) : List UInt8 := slice file off defDatasize

/-- `lseek(fd,delta,SEEK_CUR)`, which fails without effect before the start. -/
def lseekCur (off : ℕ) (delta : ℤ) : ℕ := if 0 ≤ off + delta then (off + delta).toNat else off

/-- The body of the loop after a `read` that returned `numread` bytes in `buff`. -/
def sendBlock (sock : Socket) (buff : List UInt8) (a : Attempt) (s : Progress) : Progress :=
  let numread : ℤ := buff.length
  let off := s.off + buff.length
  let sent := (sock.send a).ret
  let errno := (sock.send a).errno.getD .none
  if sent = -2 then { s with off := lseekCur off (-(numread - sent)) }
  else if sent < 0 then
    if errno = .again then { s with off, status := .broke }
    else if errno = .pipe then { s with off, status := .interrupted }
    else if errno = .connReset then { s with off, status := .interrupted }
    else { s with off, status := .broke }
  else { s with off, wire := s.wire ++ buff.take sent.toNat }

/-- One iteration, for a `read` that is not at the end of the file. -/
inductive Iterates (sock : Socket) (file : List UInt8) : Progress → Attempt → Progress → Prop
  | sent {s : Progress} {a : Attempt} (running : s.status = .sending)
      (more : block file s.off ≠ []) :
      Iterates sock file s a (sendBlock sock (block file s.off) a s)

def Exhausted (file : List UInt8) (s : Progress) : Prop :=
  s.status = .sending ∧ block file s.off = []

/-- The bytes on the socket are a prefix of the file, and all of it at its end. -/
def Faithful (file : List UInt8) (s : Progress) : Prop :=
  s.wire <+: file ∧ (Exhausted file s → s.wire = file)

/-- The attempts of an iteration are those the network allows for its block. -/
def Progress.allowed {sock : Socket} (net : Transport sock.send) (file : List UInt8)
    (s : Progress) (a : Attempt) : Prop := net.allows (block file s.off).length a

structure InStep (file : List UInt8) (s : Progress) : Prop where
  wire_eq : s.wire = file.take s.off
  bounded : s.off ≤ file.length

/-- While blocks are sent they are sent from the offset the bytes on the socket
have reached. -/
def Synced (file : List UInt8) (s : Progress) : Prop :=
  s.wire <+: file ∧ (s.status = .sending → InStep file s)

variable {sock : Socket} {file : List UInt8} {s t : Progress} {a : Attempt}

theorem block_length_le (file : List UInt8) (off : ℕ) : (block file off).length ≤ defDatasize := by
  simp only [block, slice, List.length_take]
  exact Nat.min_le_left _ _

theorem block_end_le {off : ℕ} (h : off ≤ file.length) :
    off + (block file off).length ≤ file.length := by
  simp only [block, slice, List.length_take, List.length_drop]
  omega

theorem take_append_block (file : List UInt8) (off : ℕ) :
    file.take off ++ block file off = file.take (off + (block file off).length) := by
  have hb : block file off = (file.drop off).take (block file off).length := by
    simp only [block, slice, List.length_take, List.length_drop, List.take_eq_take_iff]
    omega
  rw [List.take_add, ← hb]

theorem start_synced (file : List UInt8) : Synced file Progress.start :=
  ⟨List.nil_prefix, fun _ => ⟨rfl, Nat.zero_le _⟩⟩

theorem Iterates.synced (h : Synced file s) (step : Iterates sock file s a t)
    (hsent : (sock.send a).ret ≠ -2)
    (hall : 0 ≤ (sock.send a).ret → (sock.send a).ret = (block file s.off).length) :
    Synced file t := by
  obtain ⟨running, more⟩ := step
  have hin := h.2 running
  unfold sendBlock
  by_cases hneg : (sock.send a).ret < 0
  · simp only [hsent, hneg, ↓reduceIte]
    split_ifs <;> exact ⟨h.1, fun hs => by simp at hs⟩
  · have hret := hall (Int.not_lt.mp hneg)
    have hwire : s.wire ++ (block file s.off).take (sock.send a).ret.toNat =
        file.take (s.off + (block file s.off).length) := by
      rw [hret, Int.toNat_natCast, List.take_length, hin.wire_eq, take_append_block]
    simp only [hsent, hneg, ↓reduceIte, hwire]
    exact ⟨List.take_prefix _ _, fun _ => ⟨rfl, block_end_le hin.bounded⟩⟩

theorem Synced.faithful (h : Synced file s) : Faithful file s := by
  refine ⟨h.1, fun he => ?_⟩
  obtain ⟨hwire, hle⟩ := h.2 he.1
  have hend : file.length ≤ s.off := by
    have hlen := congrArg List.length he.2
    simp only [block, slice, List.length_take, List.length_drop, List.length_nil,
      defDatasize] at hlen
    omega
  rw [hwire, List.take_of_length_le hend]

/-- Run lemma: in step at every state, when no attempt times out or is partial. -/
theorem run_synced {net : Transport sock.send} {as : List Attempt}
    (hnet : ∀ asked a, 0 < asked → asked ≤ defDatasize → net.allows asked a →
      (sock.send a).ret ≠ -2 ∧ (0 ≤ (sock.send a).ret → (sock.send a).ret = asked))
    (run : Run (Guarded (Progress.allowed net file) (Iterates sock file)) .start as s) :
    Synced file s := by
  refine run.invariant _ (start_synced file) fun s a t hs hstep => ?_
  obtain ⟨hallow, step⟩ := hstep
  have hpos : 0 < (block file s.off).length := by
    cases step with
    | sent running more => exact List.length_pos_iff.mpr more
  obtain ⟨hsent, hall⟩ := hnet _ a hpos (block_length_le file s.off) hallow
  exact step.synced hs hsent hall

theorem block_replicate {n : ℕ} (h : n ≤ defDatasize) (b : UInt8) :
    block (List.replicate n b) 0 = List.replicate n b := by
  simp [block, slice, Nat.min_eq_right h]

theorem first_block_lost {net : Transport sock.send} {n : ℕ} (hpos : 0 < n)
    (hn : n ≤ defDatasize) (hallow : net.allows n a)
    (hbad : (sock.send a).ret = -2 ∨ 0 ≤ (sock.send a).ret ∧ (sock.send a).ret ≠ n) :
    ∃ file as s, Run (Guarded (Progress.allowed net file) (Iterates sock file)) .start as s ∧
      ¬Faithful file s := by
  set file := List.replicate n (0 : UInt8) with hfile
  have hblock : block file (Progress.start).off = file := block_replicate hn 0
  have hlen : file.length = n := List.length_replicate
  have hstep : Iterates sock file .start a (sendBlock sock file a .start) := by
    have hne : block file (Progress.start).off ≠ [] := by
      rw [hblock, ← List.length_pos_iff, hlen]
      exact hpos
    have h : Iterates sock file .start a (sendBlock sock (block file (Progress.start).off) a .start) :=
      .sent rfl hne
    rwa [hblock] at h
  have hguard : Progress.allowed net file .start a := by
    rw [Progress.allowed, hblock, hlen]
    exact hallow
  refine ⟨file, [a], _, .one ⟨hguard, hstep⟩, fun hf => ?_⟩
  have hdone : ∀ off, n ≤ off → block file off = [] := fun off hoff => by
    simp only [block, slice, List.drop_of_length_le (hlen.trans_le hoff), List.take_nil]
  rcases hbad with hto | ⟨hnn, hne⟩
  · have hoff : lseekCur n (-((n : ℤ) - -2)) = n := if_neg (by omega)
    have hs : sendBlock sock file a .start = ⟨n, [], .sending⟩ := by
      simp only [sendBlock, hto, ↓reduceIte, hlen, Progress.start, Nat.zero_add, hoff]
    rw [hs] at hf
    have hw := congrArg List.length (hf.2 ⟨rfl, hdone n le_rfl⟩)
    simp only [List.length_nil, hlen] at hw
    omega
  · have hle := net.bounded hallow
    have hs : sendBlock sock file a .start =
        ⟨n, file.take (sock.send a).ret.toNat, .sending⟩ := by
      simp only [sendBlock, show (sock.send a).ret ≠ -2 by omega, Int.not_lt.mpr hnn,
        ↓reduceIte, hlen, Progress.start, Nat.zero_add, List.nil_append]
    rw [hs] at hf
    have hw := congrArg List.length (hf.2 ⟨rfl, hdone n le_rfl⟩)
    simp only [List.length_take, hlen] at hw
    omega

/-- A network carries every file faithfully if and only if none of its attempts
times out or accepts only part of a block. -/
theorem upload_faithful_iff (sock : Socket) (net : Transport sock.send) :
    (∀ file as s, Run (Guarded (Progress.allowed net file) (Iterates sock file)) .start as s →
      Faithful file s) ↔
    ∀ asked a, 0 < asked → asked ≤ defDatasize → net.allows asked a →
      (sock.send a).ret ≠ -2 ∧ (0 ≤ (sock.send a).ret → (sock.send a).ret = asked) := by
  constructor
  · intro hall asked a hpos hle hallow
    by_contra hbad
    have hbad' : (sock.send a).ret = -2 ∨ 0 ≤ (sock.send a).ret ∧ (sock.send a).ret ≠ asked := by
      by_contra hno
      refine hbad ⟨fun hto => hno (Or.inl hto), fun hnn => ?_⟩
      by_contra hne
      exact hno (Or.inr ⟨hnn, hne⟩)
    obtain ⟨file, as, s, run, hf⟩ := first_block_lost hpos hle hallow hbad'
    exact hf (hall file as s run)
  · intro hnet file as s run
    exact (run_synced hnet run).faithful

/-- A plain socket that accepts one byte of a file of three. -/
theorem partial_send_skips : ¬ ∀ (sock : Socket) (file : List UInt8) (as : List Attempt)
    (s : Progress), Run (Guarded (fun s a => (sock.send a).ret ≤ (block file s.off).length)
      (Iterates sock file)) .start as s → Faithful file s := by
  intro h
  have hf := h ⟨3, false, none⟩ [1, 2, 3] [⟨.ready, .done 1, false⟩] ⟨3, [1], .sending⟩
    (.one ⟨by decide, .sent rfl (by decide)⟩)
  exact absurd (hf.2 ⟨rfl, rfl⟩) (by decide)

end EmotionStreamer.Upload
