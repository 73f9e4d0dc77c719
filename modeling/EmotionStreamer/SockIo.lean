import EmotionStreamer.Preprocessor
import Mathlib.Data.Int.Basic

/-! The socket layer of `sockio_tcp.c`. One attempt is one call of `sendsome`,
`readsome` or a TLS variant; what `select` and the transfer did is given, and the
outcome is the returned count and the `errno` the call leaves. The loops of
`sendall` and `readall` run over the attempts that are made. -/
namespace EmotionStreamer.SockIo

/-- The values of `errno` the callers distinguish; `EWOULDBLOCK` is `EAGAIN`. -/
inductive Errno
  | none | again | pipe | notConn | connReset | other
  deriving DecidableEq, Repr

inductive Select
  | ready | timeout
  | failed (errno : Errno)
  deriving DecidableEq, Repr

inductive SslError
  | wantRead | wantWrite | zeroReturn | syscall | other
  deriving DecidableEq, Repr

/-- A failed transfer leaves an `errno`, and under TLS an error of its own. -/
inductive Transfer
  | done (n : ℕ)
  | failed (errno : Errno) (sslErr : SslError)
  deriving DecidableEq, Repr

/-- `pending` tells whether TLS has decrypted bytes that were not read yet. -/
structure Attempt where
  select : Select
  transfer : Transfer
  pending : Bool
  deriving DecidableEq, Repr

/-- The result, and `errno` if the call changed it. -/
structure Outcome where
  ret : ℤ
  errno : Option Errno
  deriving DecidableEq, Repr

/-- `ssl` is the descriptor that `SSL_get_fd` gives for a session, if there is one. -/
structure Socket where
  sd : ℤ
  isSsl : Bool
  ssl : Option ℤ
  deriving DecidableEq, Repr

/-- `send` or `recv` on a socket that is ready. -/
def transferPlain : Transfer → Outcome
  | .done n => ⟨n, none⟩
  | .failed e _ => ⟨-1, some e⟩

/-- `SSL_write` or `SSL_read` and the treatment of its errors. -/
def transferSsl : Transfer → Outcome
  | .done n => ⟨n, none⟩
  | .failed e .wantRead => ⟨-2, some e⟩
  | .failed e .wantWrite => ⟨-2, some e⟩
  | .failed e .zeroReturn => ⟨-1, some e⟩
  | .failed e .syscall => ⟨if e = .again then -2 else -1, some e⟩
  | .failed e .other => ⟨if e = .again then -2 else -1, some e⟩

def afterSelect (a : Attempt) (transfer : Transfer → Outcome) : Outcome :=
  match a.select with
  | .ready => transfer a.transfer
  | .timeout => ⟨-2, none⟩
  | .failed e => ⟨-1, some e⟩

def sendsome (sd : ℤ) (a : Attempt) : Outcome :=
  if sd < 0 then ⟨-1, none⟩ else afterSelect a transferPlain

def readsome (sd : ℤ) (a : Attempt) : Outcome :=
  if sd < 0 then ⟨-1, none⟩ else afterSelect a transferPlain

def sendsomeSsl : (ssl : Option ℤ) → Attempt → Outcome
  | none, _ => ⟨-1, none⟩
  | some sd, a => if sd < 0 then ⟨-1, none⟩ else afterSelect a transferSsl

def readsomeSsl : (ssl : Option ℤ) → Attempt → Outcome
  | none, _ => ⟨-1, none⟩
  | some sd, a =>
    if sd < 0 then ⟨-1, none⟩
    else if a.pending then transferSsl a.transfer
    else afterSelect a transferSsl

/-- `is_ssl?sendsome_ssl(..):sendsome(..)`, and the same for reading. -/
def Socket.send (s : Socket) (a : Attempt) : Outcome :=
  if s.isSsl then sendsomeSsl s.ssl a else sendsome s.sd a
def Socket.read (s : Socket) (a : Attempt) : Outcome :=
  if s.isSsl then readsomeSsl s.ssl a else readsome s.sd a

/-- What a call of `sendall` or `readall` reports and the `errno` it leaves. -/
structure Reported where
  ret : ℤ
  errno : Errno
  deriving DecidableEq, Repr

/-- The loop shared by `sendall` and `readall`, with `total` bytes moved so far;
`none` while it is still trying. -/
def allLoop (once : Attempt → Outcome) (total : ℤ) : Errno → List Attempt → Option Reported
  | _, [] => none
  | errno, a :: attempts =>
    let len := (once a).ret
    let errno := (once a).errno.getD errno
    if len < 0 then
      if errno = .again then allLoop once total errno attempts
      else if errno = .pipe then some ⟨-2, errno⟩
      else if errno = .notConn then some ⟨-1, errno⟩
      else if len ≠ -2 then some ⟨-1, errno⟩
      else allLoop once total errno attempts
    else some ⟨total + len, errno⟩

def sendall (s : Socket) : Errno → List Attempt → Option Reported := allLoop s.send 0
def readall (s : Socket) : Errno → List Attempt → Option Reported := allLoop s.read 0

/-- Which attempts a network may make of a call that asks for some number of
bytes. It never moves more than it was asked to. -/
structure Transport (once : Attempt → Outcome) where
  allows : (asked : ℕ) → Attempt → Prop
  bounded : ∀ {asked : ℕ} {a : Attempt}, allows asked a → (once a).ret ≤ asked

variable {once : Attempt → Outcome}

theorem allLoop_ret {total : ℤ} {errno : Errno} {attempts : List Attempt} {r : Reported}
    (h : allLoop once total errno attempts = some r) :
    r.ret < 0 ∨ ∃ a ∈ attempts, 0 ≤ (once a).ret ∧ r.ret = total + (once a).ret := by
  induction attempts generalizing errno with
  | nil => simp [allLoop] at h
  | cons a attempts ih =>
    simp only [allLoop] at h
    have hrest : ∀ {e : Errno}, allLoop once total e attempts = some r →
        r.ret < 0 ∨ ∃ b ∈ a :: attempts, 0 ≤ (once b).ret ∧ r.ret = total + (once b).ret := by
      intro e he
      rcases ih he with hneg | ⟨b, hb, hret⟩
      · exact Or.inl hneg
      · exact Or.inr ⟨b, List.mem_cons_of_mem a hb, hret⟩
    split_ifs at h with hneg hagain hpipe hconn hother
    · exact hrest h
    · cases h
      exact Or.inl (by simp)
    · cases h
      exact Or.inl (by simp)
    · cases h
      exact Or.inl (by simp)
    · exact hrest h
    · cases h
      exact Or.inr ⟨a, List.mem_cons_self, Int.not_lt.mp hneg, rfl⟩

theorem allLoop_single (total : ℤ) (errno : Errno) {a : Attempt} (h : 0 ≤ (once a).ret) :
    allLoop once total errno [a] =
      some ⟨total + (once a).ret, (once a).errno.getD errno⟩ := by
  simp [allLoop, Int.not_lt.mpr h]

end EmotionStreamer.SockIo
