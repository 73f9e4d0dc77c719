import EmotionStreamer.SockIo
import EmotionStreamer.Slices
import EmotionStreamer.Runs
import Mathlib.Data.List.Infix
import Mathlib.Order.Basic

/-! `con_send` and `con_read`: the fixed-size messages of a connection over a byte
stream that the network cuts as it likes. The loops of `sendall` and `readall` end
with the first attempt that moves bytes, so messages keep their boundaries exactly
when such an attempt moves all of them. -/
namespace EmotionStreamer.Framing
open Slices Runs SockIo

def conSend (sock : Socket) : Errno → List Attempt → Option Reported := sendall sock
def conRead (sock : Socket) : Errno → List Attempt → Option Reported := readall sock

/-- One direction of a connection: the bytes in flight, the reader's `tcp_data`,
the messages reported sent, the messages reported read, and every count reported. -/
structure Link where
  wire : List UInt8
  tcpData : List UInt8
  sent : List (List UInt8)
  received : List (List UInt8)
  counts : List ℤ
  deriving DecidableEq, Repr

def Link.start : Link := ⟨[], List.replicate (defDatasize + 1) 0, [], [], []⟩

/-- One finished call, with the `errno` it starts from and the attempts it makes. -/
inductive Call
  | send (tcpData : List UInt8) (errno : Errno) (attempts : List Attempt)
  | read (errno : Errno) (attempts : List Attempt)
  deriving DecidableEq, Repr

def message (tcpData : List UInt8) : List UInt8 := slice tcpData 0 defDatasize

/-- A call that reports a positive count is taken for a message. -/
def note (r : Reported) (tcpData : List UInt8) (msgs : List (List UInt8)) : List (List UInt8) :=
  if 0 < r.ret then msgs ++ [message tcpData] else msgs

inductive Calls (out inn : Socket) : Link → Call → Link → Prop
  | send {l : Link} {tcpData : List UInt8} {errno : Errno} {attempts : List Attempt} {r : Reported}
      (size : tcpData.length = defDatasize + 1) (result : conSend out errno attempts = some r) :
      Calls out inn l (.send tcpData errno attempts)
        { l with
          wire := l.wire ++ tcpData.take r.ret.toNat
          sent := note r tcpData l.sent
          counts := l.counts ++ [r.ret] }
  | read {l : Link} {errno : Errno} {attempts : List Attempt} {r : Reported}
      (result : conRead inn errno attempts = some r) (here : r.ret.toNat ≤ l.wire.length) :
      Calls out inn l (.read errno attempts)
        { l with
          wire := l.wire.drop r.ret.toNat
          tcpData := splice l.tcpData 0 (l.wire.take r.ret.toNat)
          received := note r (splice l.tcpData 0 (l.wire.take r.ret.toNat)) l.received
          counts := l.counts ++ [r.ret] }

/-- The messages read are the first ones sent, in order, and no call reported
success for part of a message. -/
def Framed (l : Link) : Prop :=
  l.received <+: l.sent ∧ ∀ n ∈ l.counts, 0 < n → n = defDatasize

/-- The attempts of a call are those the networks of the two ends allow. -/
def allowed {out inn : Socket} (outNet : Transport out.send) (innNet : Transport inn.read)
    (_ : Link) : Call → Prop
  | .send _ _ attempts => ∀ a ∈ attempts, outNet.allows defDatasize a
  | .read _ attempts => ∀ a ∈ attempts, innNet.allows defDatasize a

/-- An attempt at a whole message moves all of it or nothing. -/
def Whole (once : Attempt → Outcome) (net : Transport once) : Prop :=
  ∀ a, net.allows defDatasize a → 0 < (once a).ret → (once a).ret = defDatasize

def Live (once : Attempt → Outcome) (net : Transport once) : Prop :=
  ∃ a, net.allows defDatasize a ∧ 0 < (once a).ret

/-- What is in flight are the whole messages that were not read yet, if any
were ever sent. -/
structure Aligned (live : Prop) (l : Link) (pending : List (List UInt8)) : Prop where
  sent_eq : l.sent = l.received ++ pending
  wire_eq : l.wire = pending.flatten
  whole : ∀ m ∈ pending, m.length = defDatasize
  tcpData_length : l.tcpData.length = defDatasize + 1
  counted : ∀ n ∈ l.counts, 0 < n → n = defDatasize
  flows : pending ≠ [] → live

variable {once : Attempt → Outcome} {out inn : Socket} {l l' : Link} {live : Prop}

theorem message_length {tcpData : List UInt8} (h : tcpData.length = defDatasize + 1) :
    (message tcpData).length = defDatasize := slice_length (by omega)

theorem Whole.ret {net : Transport once} (h : Whole once net) {errno : Errno}
    {attempts : List Attempt} {r : Reported} (hallow : ∀ a ∈ attempts, net.allows defDatasize a)
    (hr : allLoop once 0 errno attempts = some r) :
    r.ret ≤ 0 ∧ r.ret.toNat = 0 ∨ r.ret = defDatasize ∧ Live once net := by
  rcases allLoop_ret hr with hneg | ⟨a, ha, hnn, hret⟩
  · exact Or.inl ⟨Int.le_of_lt hneg, by omega⟩
  · by_cases hpos : 0 < (once a).ret
    · have := h a (hallow a ha) hpos
      exact Or.inr ⟨by omega, a, hallow a ha, hpos⟩
    · exact Or.inl ⟨by omega, by omega⟩

theorem Aligned.counted_snoc {pending : List (List UInt8)} (h : Aligned live l pending) {n : ℤ}
    (hn : n ≤ 0 ∨ n = defDatasize) : ∀ k ∈ l.counts ++ [n], 0 < k → k = defDatasize := by
  intro k hk hpos
  rcases List.mem_append.mp hk with hk | hk
  · exact h.counted k hk hpos
  · obtain rfl := List.mem_singleton.mp hk
    rcases hn with hle | heq
    · omega
    · exact heq

theorem Aligned.send {pending : List (List UInt8)} (h : Aligned live l pending) {r : Reported}
    {tcpData : List UInt8} (size : tcpData.length = defDatasize + 1)
    (hr : r.ret ≤ 0 ∧ r.ret.toNat = 0 ∨ r.ret = defDatasize ∧ live) :
    ∃ pending', Aligned live { l with
      wire := l.wire ++ tcpData.take r.ret.toNat
      sent := note r tcpData l.sent
      counts := l.counts ++ [r.ret] } pending' := by
  rcases hr with ⟨hle, hz⟩ | ⟨hret, hlive⟩
  · refine ⟨pending, ?_, ?_, h.whole, h.tcpData_length, h.counted_snoc (Or.inl hle), h.flows⟩
    · simpa only [note, Int.not_lt.mpr hle, ↓reduceIte] using h.sent_eq
    · simpa [hz] using h.wire_eq
  · have hpos : 0 < r.ret := by rw [hret]; decide
    have hmsg : tcpData.take r.ret.toNat = message tcpData := by
      rw [hret, Int.toNat_natCast]
      rfl
    refine ⟨pending ++ [message tcpData], ?_, ?_, ?_, h.tcpData_length,
      h.counted_snoc (Or.inr hret), fun _ => hlive⟩
    · simp only [note, hpos, ↓reduceIte, h.sent_eq, List.append_assoc]
    · simp only [hmsg, h.wire_eq, List.flatten_append, List.flatten_singleton]
    · intro m hm
      rcases List.mem_append.mp hm with hm | hm
      · exact h.whole m hm
      · rw [List.mem_singleton.mp hm]
        exact message_length size

theorem Aligned.read {pending : List (List UInt8)} (h : Aligned live l pending) {r : Reported}
    (here : r.ret.toNat ≤ l.wire.length)
    (hr : r.ret ≤ 0 ∧ r.ret.toNat = 0 ∨ r.ret = defDatasize) :
    ∃ pending', Aligned live { l with
      wire := l.wire.drop r.ret.toNat
      tcpData := splice l.tcpData 0 (l.wire.take r.ret.toNat)
      received := note r (splice l.tcpData 0 (l.wire.take r.ret.toNat)) l.received
      counts := l.counts ++ [r.ret] } pending' := by
  rcases hr with ⟨hle, hz⟩ | hret
  · refine ⟨pending, ?_, ?_, h.whole, ?_, h.counted_snoc (Or.inl hle), h.flows⟩
    · simpa only [note, Int.not_lt.mpr hle, ↓reduceIte] using h.sent_eq
    · simpa [hz] using h.wire_eq
    · simpa [hz, splice_zero] using h.tcpData_length
  · have hpos : 0 < r.ret := by rw [hret]; decide
    have hn : r.ret.toNat = defDatasize := by rw [hret, Int.toNat_natCast]
    cases pending with
    | nil =>
      rw [hn, h.wire_eq] at here
      exact absurd here (by decide)
    | cons m pending =>
      have hm := h.whole m (by simp)
      have htake : l.wire.take r.ret.toNat = m := by
        rw [hn, h.wire_eq, List.flatten_cons, ← hm, List.take_left]
      have hdrop : l.wire.drop r.ret.toNat = pending.flatten := by
        rw [hn, h.wire_eq, List.flatten_cons, ← hm, List.drop_left]
      have hfit : 0 + m.length ≤ l.tcpData.length := by rw [h.tcpData_length, hm]; omega
      have hgot : message (splice l.tcpData 0 m) = m := by
        unfold message
        rw [← hm]
        exact slice_splice hfit
      refine ⟨pending, ?_, hdrop, fun m' hm' => h.whole m' (by simp [hm']), ?_,
        h.counted_snoc (Or.inr hret), fun _ => h.flows (by simp)⟩
      · simp only [note, hpos, ↓reduceIte, htake, hgot, h.sent_eq, List.append_assoc,
          List.singleton_append]
      · simp only [htake, splice_length hfit, h.tcpData_length]

theorem Aligned.live_of_read {pending : List (List UInt8)} (h : Aligned live l pending)
    {r : Reported} (here : r.ret.toNat ≤ l.wire.length) (hpos : 0 < r.ret) : live := by
  refine h.flows ?_
  rintro rfl
  rw [h.wire_eq, List.flatten_nil, List.length_nil] at here
  omega

/-- Step lemma: over networks that move whole messages the stream stays aligned. -/
theorem Calls.aligned {outNet : Transport out.send} {innNet : Transport inn.read} {c : Call}
    (hout : Whole out.send outNet) (hinn : Live out.send outNet → Whole inn.read innNet)
    (hallow : allowed outNet innNet l c) (step : Calls out inn l c l')
    (h : ∃ pending, Aligned (Live out.send outNet) l pending) :
    ∃ pending, Aligned (Live out.send outNet) l' pending := by
  obtain ⟨pending, h⟩ := h
  cases step with
  | send size result => exact h.send size (hout.ret hallow result)
  | @read errno attempts r result here =>
    refine h.read here ?_
    by_cases hpos : 0 < r.ret
    · rcases (hinn (h.live_of_read here hpos)).ret hallow result with hle | ⟨hret, _⟩
      · exact Or.inl hle
      · exact Or.inr hret
    · exact Or.inl ⟨Int.not_lt.mp hpos, by omega⟩

theorem start_aligned : Aligned live Link.start [] :=
  ⟨rfl, rfl, by simp, List.length_replicate, by simp [Link.start], fun h => absurd rfl h⟩

theorem Aligned.framed {pending : List (List UInt8)} (h : Aligned live l pending) : Framed l :=
  ⟨h.sent_eq ▸ List.prefix_append _ _, h.counted⟩

theorem send_once (inn : Socket) {a : Attempt} (hnn : 0 ≤ (out.send a).ret) (l : Link) :
    ∃ l', Calls out inn l (.send (List.replicate (defDatasize + 1) 0) .none [a]) l' ∧
      (out.send a).ret ∈ l'.counts ∧
      l'.wire = l.wire ++ List.replicate (min (out.send a).ret.toNat (defDatasize + 1)) 0 := by
  refine ⟨_, .send List.length_replicate (allLoop_single 0 .none hnn), ?_, ?_⟩
  · simp
  · simp only [Int.zero_add, List.take_replicate]

theorem read_once (out : Socket) {a : Attempt} (hnn : 0 ≤ (inn.read a).ret) {l : Link}
    (here : (inn.read a).ret.toNat ≤ l.wire.length) :
    ∃ l', Calls out inn l (.read .none [a]) l' ∧ (inn.read a).ret ∈ l'.counts := by
  have hr := allLoop_single 0 .none hnn
  rw [Int.zero_add] at hr
  exact ⟨_, .read hr here, by simp⟩

/-- Two networks keep the messages of a connection apart if and only if neither
moves part of a message in one attempt; the reader's side matters once anything can
be sent. -/
theorem framed_iff (out inn : Socket) (outNet : Transport out.send)
    (innNet : Transport inn.read) :
    (∀ cs l, Run (Guarded (allowed outNet innNet) (Calls out inn)) .start cs l → Framed l) ↔
    Whole out.send outNet ∧ (Live out.send outNet → Whole inn.read innNet) := by
  constructor
  · intro h
    have hout : Whole out.send outNet := by
      intro a ha hpos
      obtain ⟨l, hstep, hmem, _⟩ := send_once inn (Int.le_of_lt hpos) Link.start
      refine (h _ l (.one ⟨?_, hstep⟩)).2 _ hmem hpos
      simpa [allowed] using ha
    refine ⟨hout, fun ⟨b, hb, hbpos⟩ a ha hpos => ?_⟩
    have hfull := hout b hb hbpos
    obtain ⟨l₁, hsend, _, hwire⟩ := send_once inn (Int.le_of_lt hbpos) Link.start
    have hle := innNet.bounded ha
    obtain ⟨l₂, hread, hmem⟩ := read_once out (l := l₁) (Int.le_of_lt hpos) (by
      rw [hwire, hfull]
      simp only [Link.start, List.nil_append, List.length_replicate]
      omega)
    refine (h _ l₂ (.snoc (.one ⟨?_, hsend⟩) ⟨?_, hread⟩)).2 _ hmem hpos
    · simpa [allowed] using hb
    · simpa [allowed] using ha
  · rintro ⟨hout, hinn⟩ cs l run
    obtain ⟨pending, h⟩ := run.invariant
      (fun l => ∃ pending, Aligned (Live out.send outNet) l pending) ⟨[], start_aligned⟩
      fun _ _ _ hal hstep => hstep.2.aligned hout hinn hstep.1 hal
    exact h.framed

def plainSocket : Socket := ⟨3, false, none⟩

/-- The results a healthy connection gives when some bytes are asked for. -/
def healthy (once : Attempt → Outcome) (a : Attempt) : Prop :=
  1 ≤ (once a).ret ∧ (once a).ret ≤ defDatasize ∨ (once a).ret = -2 ∨
    once a = ⟨-1, some .again⟩

/-- A network that moves all but the last byte of a message: both ends report
success, and the message read ends with a stale byte. -/
theorem short_send_misframes : ¬ ∀ (out inn : Socket) (cs : List Call) (l : Link),
    Run (Guarded (fun _ c => match c with
      | .send _ _ attempts => ∀ a ∈ attempts, healthy out.send a
      | .read _ attempts => ∀ a ∈ attempts, healthy inn.read a) (Calls out inn)) .start cs l →
    Framed l := by
  intro h
  have hshort : healthy plainSocket.send ⟨.ready, .done 255, false⟩ := Or.inl (by decide)
  have hsend : Calls plainSocket plainSocket .start
      (.send (List.replicate 257 1) .none [⟨.ready, .done 255, false⟩]) _ :=
    .send List.length_replicate rfl
  have hread : Calls plainSocket plainSocket { Link.start with
      wire := [] ++ (List.replicate 257 1).take 255
      sent := note ⟨255, .none⟩ (List.replicate 257 1) []
      counts := [255] } (.read .none [⟨.ready, .done 255, false⟩]) _ :=
    .read rfl (by
      simp only [List.nil_append, List.length_take, List.length_replicate]
      decide)
  have hshort' : healthy plainSocket.read ⟨.ready, .done 255, false⟩ := Or.inl (by decide)
  have hf := h _ _ _ _ (.snoc (.one ⟨by simpa using hshort, hsend⟩) ⟨by simpa using hshort', hread⟩)
  exact absurd hf.1 (by decide +kernel)

end EmotionStreamer.Framing
