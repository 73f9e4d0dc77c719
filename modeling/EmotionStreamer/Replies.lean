import EmotionStreamer.Pipes
import EmotionStreamer.Requests
import EmotionStreamer.SendFile
import EmotionStreamer.Download

/-! The reply to a PEEK, CONFIG, ROTATION or DOWN request, from `send_download_sizes` in the
server to what the client has written when its loop ends. The two programs run side by side,
and the network cuts the bytes between them as it likes. -/
namespace EmotionStreamer.Replies
open Runs Pipes SockIo Slices
open Framing (conSend conRead message)
open Requests (clearData sendDownloadSizes downFileSize)

/-- What a worker replies: `fd` is the descriptor of the file, and `closes` tells whether a
closing text is sent behind the file, as for CONFIG and ROTATION. -/
structure Reply where
  file : List UInt8
  lt : file.length < uint32Size
  fd : ℤ
  opened : 0 < fd
  isWavMode : Bool
  closes : Bool

def closingText : List UInt8 :=
  "\n\n\nServer contents successfully retrieved in full.\n\n".toUTF8.toList

def Reply.header (r : Reply) : List UInt8 := sendDownloadSizes r.fd r.file.length r.isWavMode

/-- The closing text, written over the header in `tcp_data`. -/
def Reply.closingMessage (r : Reply) : List UInt8 :=
  message (splice (r.header ++ [0]) 0 (closingText.take (defDatasize - 1) ++ [0]))

/-- A function that sends a file: its states, what they have put on the socket, and its
passes, each with one attempt. -/
structure Sender (P : Type) where
  start : P
  wire : P → List UInt8
  pass : P → Attempt → P → Prop
  returned : P → Prop
  appends : ∀ {p a q}, pass p a q → wire p <+: wire q

inductive Server (P : Type)
  | opened
  | contents (header : List UInt8) (progress : P)
  | cleanup (sent : List UInt8)
  | closed (sent : List UInt8)

inductive ServerEvent
  | header (errno : Errno) (attempts : List Attempt)
  | pass (a : Attempt)
  | closing (errno : Errno) (attempts : List Attempt)
  | returns
  | close

variable {P : Type}

def Server.written (snd : Sender P) : Server P → List UInt8
  | .opened => []
  | .contents header p => header ++ snd.wire p
  | .cleanup sent => sent
  | .closed sent => sent

/-- `con_go` behind the opening of the file; the results of `send_download_sizes` and of the
function that sends the file are not looked at. -/
inductive ServerSteps (snd : Sender P) (sock : Socket) (reply : Reply) :
    Server P → ServerEvent → Server P → Prop
  | header {errno : Errno} {attempts : List Attempt} {r : Reported}
      (result : conSend sock errno attempts = some r) :
      ServerSteps snd sock reply .opened (.header errno attempts)
        (.contents (reply.header.take r.ret.toNat) snd.start)
  | pass {header : List UInt8} {p q : P} {a : Attempt} (step : snd.pass p a q) :
      ServerSteps snd sock reply (.contents header p) (.pass a) (.contents header q)
  | closing {header : List UInt8} {p : P} {errno : Errno} {attempts : List Attempt} {r : Reported}
      (returned : snd.returned p) (closes : reply.closes = true)
      (result : conSend sock errno attempts = some r) :
      ServerSteps snd sock reply (.contents header p) (.closing errno attempts)
        (.cleanup (header ++ snd.wire p ++ reply.closingMessage.take r.ret.toNat))
  | returns {header : List UInt8} {p : P} (returned : snd.returned p) (closes : reply.closes = false) :
      ServerSteps snd sock reply (.contents header p) .returns (.cleanup (header ++ snd.wire p))
  | close {sent : List UInt8} : ServerSteps snd sock reply (.cleanup sent) .close (.closed sent)

theorem ServerSteps.appends {snd : Sender P} {sock : Socket} {reply : Reply} {s s' : Server P}
    {e : ServerEvent} (step : ServerSteps snd sock reply s e s') :
    s.written snd <+: s'.written snd := by
  cases step with
  | header => exact List.nil_prefix
  | pass step => exact (List.prefix_append_right_inj _).mpr (snd.appends step)
  | closing => exact List.prefix_append _ _
  | returns => exact List.prefix_rfl
  | close => exact List.prefix_rfl

def server (snd : Sender P) (sock : Socket) (reply : Reply) :
    Writer UInt8 (Server P) ServerEvent where
  step := ServerSteps snd sock reply
  written := Server.written snd
  closed s := ∃ sent, s = .closed sent
  appends := ServerSteps.appends
  final := by
    rintro s e s' ⟨sent, rfl⟩ step
    cases step

/-- `taken` are the bytes that were received, and `size` is what `down_file_size` returned. -/
inductive Client
  | asking
  | copying (taken : List UInt8) (size : ℤ) (progress : Download.Progress)
  | quit

inductive ClientEvent
  | header (errno : Errno) (attempts : List Attempt)
  | receive (a : Download.Arrival)

/-- `down_file_size`, and the loop that copies; a read gives nothing only at the end of what
the server sends. -/
inductive ClientSteps (store : List UInt8 → List Outcome → Download.Progress → Download.Progress)
    (sock : Socket) (inside : List UInt8) (ended : Prop) : Client → ClientEvent → Client → Prop
  | header {errno : Errno} {attempts : List Attempt} {r : Reported}
      (result : conRead sock errno attempts = some r) (here : r.ret.toNat ≤ inside.length)
      (got : 0 < r.ret) :
      ClientSteps store sock inside ended .asking (.header errno attempts)
        (.copying (inside.take r.ret.toNat)
          (downFileSize (splice clearData 0 (inside.take r.ret.toNat))).1 (.start r.errno []))
  | fails {errno : Errno} {attempts : List Attempt} {r : Reported}
      (result : conRead sock errno attempts = some r) (none : r.ret ≤ 0)
      (eof : r.ret = 0 → inside = [] ∧ ended) :
      ClientSteps store sock inside ended .asking (.header errno attempts) .quit
  | receive {taken : List UInt8} {size : ℤ} {p : Download.Progress} {a : Download.Arrival}
      (continues : p.Continues size) (here : (sock.read a.attempt).ret.toNat ≤ inside.length)
      (eof : (sock.read a.attempt).ret = 0 → inside = [] ∧ ended) :
      ClientSteps store sock inside ended (.copying taken size p) (.receive a)
        (.copying (taken ++ inside.take (sock.read a.attempt).ret.toNat) size
          (Download.receive store sock a { p with stream := inside }))

def Client.taken : Client → List UInt8
  | .asking => []
  | .copying taken _ _ => taken
  | .quit => []

/-- What has been written to the descriptor of the client. -/
def Client.out : Client → List UInt8
  | .copying _ _ p => p.out
  | _ => []

/-- The loop of the client has ended. -/
def Client.Ended : Client → Prop
  | .copying _ size p => ¬p.Continues size
  | _ => False

def client (store : List UInt8 → List Outcome → Download.Progress → Download.Progress)
    (sock : Socket) : Reader UInt8 Client ClientEvent where
  step := ClientSteps store sock
  taken := Client.taken
  takes := by
    intro inside ended c e c' step
    cases step with
    | @header errno attempts r => exact ⟨inside.take r.ret.toNat, List.take_prefix _ _, rfl⟩
    | fails => exact ⟨[], List.nil_prefix, rfl⟩
    | @receive _ _ _ a => exact ⟨_, List.take_prefix _ _, rfl⟩

/-- The connection works, and so does the descriptor of the client: messages of a fixed size
are moved whole, the closing one unless the client is gone, the passes of the sender meet
`ok`, a read gives bytes, times out or finds the end, and what it gives is written. -/
def Works (ok : P → Attempt → Prop) (took : ℕ → List Outcome → ℕ) (out inn : Socket) :
    Server P × Client → ServerEvent ⊕ ClientEvent → Prop
  | _, .inl (.header errno attempts) =>
    ∀ r, conSend out errno attempts = some r → r.ret = defDatasize
  | (.contents _ p, _), .inl (.pass a) => ok p a
  | _, .inl (.closing errno attempts) =>
    ∀ r, conSend out errno attempts = some r → r.ret ≤ 0 ∨ r.ret = defDatasize
  | _, .inr (.header errno attempts) =>
    ∀ r, conRead inn errno attempts = some r → r.ret = defDatasize
  | _, .inr (.receive a) => (inn.read a.attempt).ret = -2 ∨ (inn.read a.attempt).ret = 0 ∨
    0 < (inn.read a.attempt).ret ∧
      Download.Written (inn.read a.attempt).ret.toNat a.writes ∧
      took (inn.read a.attempt).ret.toNat a.writes = (inn.read a.attempt).ret.toNat
  | _, _ => True

/-- A sender that puts the file on the socket, as long as its passes meet `ok`. -/
structure Sends (snd : Sender P) (ok : P → Attempt → Prop) (file : List UInt8) where
  inv : P → Prop
  start : inv snd.start
  pass : ∀ {p a q}, inv p → ok p a → snd.pass p a q → inv q
  front : ∀ {p}, inv p → snd.wire p <+: file
  whole : ∀ {p}, inv p → snd.returned p → snd.wire p = file

/-- What the server sends in all, with or without the closing text. -/
inductive Reply.Whole (reply : Reply) : List UInt8 → Prop
  | plain : Whole reply reply.file
  | closed (closes : reply.closes = true) : Whole reply (reply.file ++ reply.closingMessage)

variable {snd : Sender P} {ok : P → Attempt → Prop} {took : ℕ → List Outcome → ℕ}
  {store : List UInt8 → List Outcome → Download.Progress → Download.Progress}
  {out inn : Socket} {reply : Reply} {s s' : Server P} {c c' : Client}

theorem Reply.header_eq (reply : Reply) : reply.header =
    message (splice (splice clearData 0 (Requests.netBytes 4 reply.file.length)) 4
      (Requests.netBytes 2 reply.isWavMode.toNat)) := by
  rw [Reply.header, sendDownloadSizes, if_pos reply.opened]

theorem Reply.header_length (reply : Reply) : reply.header.length = defDatasize := by
  rw [reply.header_eq]
  exact Requests.message_length (Requests.netBytes_length 4 _)
    (by rw [Requests.netBytes_length]; decide)

/-- `down_file_size` in the client -/
def Reply.told (reply : Reply) : ℤ := (downFileSize (splice clearData 0 reply.header)).1

/-- The client is told the size of the file, or a negative one when it has more than 31 bits. -/
theorem Reply.told_eq (reply : Reply) : reply.told = reply.file.length ∨ reply.told < 0 := by
  have hfront : ∀ off, off + 4 ≤ defDatasize →
      slice (splice clearData 0 reply.header) off 4 = slice reply.header off 4 := fun off hoff => by
    rw [splice_zero, slice, slice, List.drop_append_of_le_length (by rw [reply.header_length]; omega),
      List.take_append_of_le_length (by rw [List.length_drop, reply.header_length]; omega)]
  have htold : reply.told = ((reply.file.length % uint32Size : ℕ) : ℤ).bmod uint32Size := by
    have hread := Requests.downFileSize_message (Requests.netBytes_length 4 reply.file.length)
      (Requests.netBytes_length 2 reply.isWavMode.toNat)
    rw [← reply.header_eq, Requests.ofNetBytes_netBytes, downFileSize, Prod.mk.injEq] at hread
    have hpow : 256 ^ 4 = uint32Size := by decide
    rw [Reply.told, downFileSize, hfront 0 (by decide), hread.1, hpow]
  by_cases hsmall : reply.file.length < 2 ^ 31
  · exact Or.inl (htold.trans ((Requests.bmod_eq_iff _).mpr hsmall))
  · right
    have hlt := reply.lt
    rw [htold, Nat.mod_eq_of_lt hlt, Int.bmod_def]
    simp only [uint32Size] at hlt ⊢
    split_ifs <;> omega

/-- Behind the header, the server has sent the front of the file, or all of it. -/
def Server.Inv (sends : Sends snd ok reply.file) : Server P → Prop
  | .opened => True
  | .contents header p => header = reply.header ∧ sends.inv p
  | .cleanup sent => ∃ x, reply.Whole x ∧ sent = reply.header ++ x
  | .closed sent => ∃ x, reply.Whole x ∧ sent = reply.header ++ x

/-- What has been received is the header and what has been written; the last read has failed
to give bytes at the end only. -/
def Client.Inv (reply : Reply) (written : List UInt8) (closed : Prop) : Client → Prop
  | .asking => True
  | .copying taken size p => taken = reply.header ++ p.out ∧ size = reply.told ∧
      p.total = p.out.length ∧ p.status = .copying ∧
      (p.len = -2 ∨ 0 < p.len ∨ p.len = 0 ∧ closed ∧ taken = written)
  | .quit => False

theorem Server.Inv.front {sends : Sends snd ok reply.file} (h : s.Inv sends) :
    ∃ x, reply.Whole x ∧ s.written snd <+: reply.header ++ x := by
  cases s with
  | opened => exact ⟨_, .plain, List.nil_prefix⟩
  | contents header p =>
    obtain ⟨rfl, hp⟩ := h
    exact ⟨_, .plain, (List.prefix_append_right_inj _).mpr (sends.front hp)⟩
  | cleanup sent =>
    obtain ⟨x, hx, rfl⟩ := h
    exact ⟨x, hx, List.prefix_rfl⟩
  | closed sent =>
    obtain ⟨x, hx, rfl⟩ := h
    exact ⟨x, hx, List.prefix_rfl⟩

theorem message_length (reply : Reply) : reply.closingMessage.length = defDatasize := by
  rw [Reply.closingMessage, message, slice_length]
  rw [Nat.zero_add, splice_zero, List.length_append, List.length_drop, List.length_append,
    List.length_append, List.length_take, reply.header_length, List.length_singleton]
  simp only [defDatasize]
  omega

/-- Step lemma of the server. -/
theorem ServerSteps.inv {sends : Sends snd ok reply.file} {e : ServerEvent}
    (h : s.Inv sends) (works : Works ok took out inn (s, c) (.inl e))
    (step : ServerSteps snd out reply s e s') : s'.Inv sends := by
  cases step with
  | @header errno attempts r result =>
    refine ⟨?_, sends.start⟩
    rw [works r result, Int.toNat_natCast, ← reply.header_length, List.take_length]
  | pass step => exact ⟨h.1, sends.pass h.2 works step⟩
  | @closing header p errno attempts r returned closes result =>
    obtain ⟨rfl, hp⟩ := h
    rw [Server.Inv, sends.whole hp returned]
    rcases works r result with hnone | hall
    · refine ⟨_, .plain, ?_⟩
      rw [Int.toNat_of_nonpos hnone, List.take_zero, List.append_nil]
    · refine ⟨_, .closed closes, ?_⟩
      rw [hall, Int.toNat_natCast, ← message_length reply, List.take_length, List.append_assoc]
  | returns returned closes =>
    obtain ⟨rfl, hp⟩ := h
    rw [Server.Inv, sends.whole hp returned]
    exact ⟨_, .plain, rfl⟩
  | close => exact h

theorem Client.Inv.write {w : Writer UInt8 (Server P) ServerEvent} {e : ServerEvent}
    (h : c.Inv reply (w.written s) (w.closed s)) (step : w.step s e s') :
    c.Inv reply (w.written s') (w.closed s') := by
  cases c with
  | asking => trivial
  | quit => exact h
  | copying taken size p =>
    obtain ⟨htaken, hsize, htotal, hcopying, hlen⟩ := h
    refine ⟨htaken, hsize, htotal, hcopying, ?_⟩
    rcases hlen with hto | hpos | ⟨-, hclosed, -⟩
    · exact Or.inl hto
    · exact Or.inr (Or.inl hpos)
    · exact absurd step (w.final hclosed)

variable (inn) in
/-- A read of the client that works. -/
theorem receive_works (hst : Download.Stores store took) (p : Download.Progress)
    (a : Download.Arrival) (ins : List UInt8)
    (here : (inn.read a.attempt).ret.toNat ≤ ins.length) (hpos : 0 < (inn.read a.attempt).ret)
    (hw : Download.Written (inn.read a.attempt).ret.toNat a.writes)
    (hall : took (inn.read a.attempt).ret.toNat a.writes = (inn.read a.attempt).ret.toNat)
    {q : Download.Progress} (hq : q = Download.receive store inn a { p with stream := ins }) :
    q.out = p.out ++ ins.take (inn.read a.attempt).ret.toNat ∧
      q.total = p.total + (inn.read a.attempt).ret.toNat ∧ q.status = p.status ∧
      q.len = (inn.read a.attempt).ret := by
  set n := (inn.read a.attempt).ret.toNat with hn
  have hlen : (ins.take n).length = n := by rw [List.length_take, Nat.min_eq_left here]
  have hne : ins.take n ≠ [] := by
    rw [← List.length_pos_iff, hlen]
    omega
  obtain ⟨-, -, e, he⟩ := hst (ins.take n) a.writes
    { p with len := (inn.read a.attempt).ret, errno := (inn.read a.attempt).errno.getD p.errno,
             asked := p.asked ++ [p.out.length], stream := ins.drop n } hne (by rwa [hlen])
  rw [hlen, hall, List.take_of_length_le hlen.le] at he
  rw [hq, Download.receive]
  simp only [hpos, ↓reduceIte]
  rw [← hn, he]
  exact ⟨rfl, rfl, rfl, rfl⟩

/-- The header is the first thing in the pipe. -/
theorem Server.Inv.header {sends : Sends snd ok reply.file} (h : s.Inv sends)
    (hlen : defDatasize ≤ (s.written snd).length) :
    (s.written snd).take defDatasize = reply.header := by
  obtain ⟨x, -, hfront⟩ := h.front
  rw [List.prefix_iff_eq_take.mp hfront, List.take_take, Nat.min_eq_left hlen,
    ← reply.header_length, List.take_left]

/-- Step lemma of the client. -/
theorem ClientSteps.inv {sends : Sends snd ok reply.file} (hst : Download.Stores store took)
    {e : ClientEvent} (hs : s.Inv sends)
    (horder : InOrder (server snd out reply) (client store inn) (s, c))
    (h : c.Inv reply (s.written snd) (∃ sent, s = .closed sent))
    (works : Works ok took out inn (s, c) (.inr e))
    (step : ClientSteps store inn (inside (server snd out reply) (client store inn) s c)
      (∃ sent, s = .closed sent) c e c') :
    c'.Inv reply (s.written snd) (∃ sent, s = .closed sent) := by
  cases step with
  | @header errno attempts r result here got =>
    rw [works r result, Int.toNat_natCast] at here ⊢
    have htake := hs.header here
    have hinside : inside (server snd out reply) (client store inn) s .asking = s.written snd := rfl
    rw [hinside, htake]
    exact ⟨(List.append_nil _).symm, rfl, rfl, rfl, Or.inr (Or.inl Int.one_pos)⟩
  | @fails errno attempts r result none eof =>
    have hret := works r result
    rw [hret] at none
    exact absurd none (by decide)
  | @receive taken size p a continues here eof =>
    obtain ⟨rfl, hsize, htotal, hcopying, hlen⟩ := h
    rcases works with hto | hend | ⟨hpos, hw, hall⟩
    · simp only [Download.receive, hto, show ¬(0 : ℤ) < -2 by decide, ↓reduceIte,
        show (-2 : ℤ).toNat = 0 from rfl, List.take_zero, List.append_nil]
      exact ⟨rfl, hsize, htotal, hcopying, Or.inl rfl⟩
    · obtain ⟨hempty, hclosed⟩ := eof hend
      have hwritten := horder.eq_of_empty hempty
      simp only [Download.receive, hend, Int.lt_irrefl, ↓reduceIte, Int.toNat_zero, List.take_zero,
        List.append_nil]
      exact ⟨rfl, hsize, htotal, hcopying, Or.inr (Or.inr ⟨rfl, hclosed, hwritten⟩)⟩
    · obtain ⟨hout, htot, hstatus, hlen'⟩ := receive_works inn hst p a _ here hpos hw hall rfl
      refine ⟨by rw [hout, List.append_assoc], hsize, ?_, hstatus.trans hcopying,
        Or.inr (Or.inl (hlen'.symm ▸ hpos))⟩
      rw [htot, hout, htotal, List.length_append, List.length_take, Nat.min_eq_left here]

/-- Both programs in a run of which every step works. -/
structure Inv (sends : Sends snd ok reply.file) (out inn : Socket)
    (store : List UInt8 → List Outcome → Download.Progress → Download.Progress)
    (p : Server P × Client) : Prop where
  order : InOrder (server snd out reply) (client store inn) p
  server : p.1.Inv sends
  client : p.2.Inv reply (p.1.written snd) (∃ sent, p.1 = .closed sent)

theorem run_inv (sends : Sends snd ok reply.file) (hst : Download.Stores store took)
    {ls : List (ServerEvent ⊕ ClientEvent)}
    (run : Run (Guarded (Works ok took out inn) (Steps (server snd out reply) (client store inn)))
      (.opened, .asking) ls (s, c)) : Inv sends out inn store (s, c) := by
  refine run.invariant (Inv sends out inn store) ⟨List.nil_prefix, trivial, trivial⟩ ?_
  rintro p l q h ⟨works, step⟩
  refine ⟨step.inOrder h.order, ?_, ?_⟩
  · cases step with
    | write step => exact ServerSteps.inv h.server works step
    | read step => exact h.server
  · cases step with
    | write step => exact h.client.write (w := Replies.server snd out reply) step
    | read step => exact ClientSteps.inv hst h.server h.order h.client works step

/-- What the client writes is the front of what the server sends, and all of the file when
its loop has ended: then the closing text follows it, if it was read. -/
theorem Inv.delivered {sends : Sends snd ok reply.file} (h : Inv sends out inn store (s, c)) :
    (∃ x, reply.Whole x ∧ c.out <+: x) ∧ (c.Ended → reply.Whole c.out) := by
  obtain ⟨horder, hserver, hclient⟩ := h
  cases c with
  | asking => exact ⟨⟨_, .plain, List.nil_prefix⟩, False.elim⟩
  | quit => exact hclient.elim
  | copying taken size p =>
    obtain ⟨rfl, hsize, htotal, hcopying, hlen⟩ := hclient
    obtain ⟨x, hx, hfront⟩ := hserver.front
    have hpre : p.out <+: x := by
      have hall : reply.header ++ p.out <+: s.written snd := horder
      exact (List.prefix_append_right_inj _).mp (hall.trans hfront)
    refine ⟨⟨x, hx, hpre⟩, fun hend => ?_⟩
    by_cases hdone : (p.total : ℤ) = size
    · have hlength : p.out.length = reply.file.length := by
        rw [hsize, htotal] at hdone
        rcases reply.told_eq with htold | hneg
        · rw [htold] at hdone
          exact_mod_cast hdone
        · omega
      have hfile : p.out = reply.file := by
        have htake : p.out = x.take reply.file.length :=
          hlength ▸ List.prefix_iff_eq_take.mp hpre
        cases hx with
        | plain => rwa [List.take_length] at htake
        | closed => rwa [List.take_left] at htake
      rw [Client.out, hfile]
      exact .plain
    · have hstop : ¬(p.len = -2 ∨ 0 < p.len) := fun hl => hend ⟨hcopying, hl, hdone⟩
      rcases hlen with hto | hpos | ⟨-, ⟨sent, rfl⟩, hwritten⟩
      · exact absurd (Or.inl hto) hstop
      · exact absurd (Or.inr hpos) hstop
      · obtain ⟨y, hy, hsent⟩ := hserver
        have hout : p.out = y := by
          refine (List.append_right_inj reply.header).mp ?_
          rw [hwritten]
          exact hsent
        rw [Client.out, hout]
        exact hy

/-- A read of the client that does not time out. -/
def Moves (inn : Socket) : Server P × Client → ServerEvent ⊕ ClientEvent → Prop
  | _, .inr (.receive a) => (inn.read a.attempt).ret ≠ -2
  | _, _ => False

/-- What is in the pipe, and one more while the loop of the client goes on. -/
def remaining (snd : Sender P) (out inn : Socket) (reply : Reply)
    (store : List UInt8 → List Outcome → Download.Progress → Download.Progress)
    (p : Server P × Client) : ℕ :=
  (inside (server snd out reply) (client store inn) p.1 p.2).length +
    match p.2 with
    | .copying _ size q => if q.Continues size then 1 else 0
    | _ => 0

/-- A read that finds the end ends the loop. -/
theorem receive_end_stops {a : Download.Arrival} (hend : (inn.read a.attempt).ret = 0) (size : ℤ)
    (p : Download.Progress) : ¬(Download.receive store inn a p).Continues size := by
  rintro ⟨-, hlen, -⟩
  simp [Download.receive, hend] at hlen

theorem remaining_decreases {p q : Server P × Client} {l : ServerEvent ⊕ ClientEvent}
    (works : Works ok took out inn p l) (moves : Moves inn p l)
    (step : Steps (server snd out reply) (client store inn) p l q) :
    remaining snd out inn reply store q < remaining snd out inn reply store p := by
  cases step with
  | write step => exact moves.elim
  | @read s t t' k step =>
    have step' : ClientSteps store inn (inside (server snd out reply) (client store inn) s t)
      (∃ sent, s = .closed sent) t k t' := step
    cases step' with
    | header => exact moves.elim
    | fails => exact moves.elim
    | @receive taken size p a continues here eof =>
      have hinside : ∀ taken size p, (inside (server snd out reply) (client store inn) s
          (.copying taken size p)).length = (s.written snd).length - taken.length :=
        fun _ _ _ => inside_length _ _ s _
      simp only [remaining, hinside, if_pos continues, List.length_append, List.length_take]
      rw [hinside] at here
      rcases works with hto | hend | ⟨hpos, -, -⟩
      · exact absurd hto moves
      · rw [if_neg (receive_end_stops hend size _), hend]
        exact Nat.lt_succ_self _
      · split_ifs <;> omega

/-- The reads that do not time out are not more than the bytes in the pipe and one. -/
theorem reads_bounded {p q : Server P × Client} {ls : List (ServerEvent ⊕ ClientEvent)}
    (run : Run (Guarded (fun p l => Works ok took out inn p l ∧ Moves inn p l)
      (Steps (server snd out reply) (client store inn))) p ls q) :
    ls.length ≤ (inside (server snd out reply) (client store inn) p.1 p.2).length + 1 := by
  have hle := run.length_le (remaining snd out inn reply store) fun _ _ _ h =>
    remaining_decreases h.1.1 h.1.2 h.2
  have hone : remaining snd out inn reply store p ≤
      (inside (server snd out reply) (client store inn) p.1 p.2).length + 1 := by
    unfold remaining
    refine Nat.add_le_add_left ?_ _
    split
    · split_ifs <;> omega
    · omega
  omega

/-- `sendallfd` as a sender. -/
def sendallfd (sock : Socket) (file : List UInt8) : Sender SendFile.Progress where
  start := .start
  wire := SendFile.Progress.wire
  pass := SendFile.Iterates sock file
  returned p := SendFile.Returned file p ∨ p.status = .interrupted
  appends := by
    rintro p a q ⟨running, more⟩
    rw [← SendFile.next_wire file p]
    unfold SendFile.sendRest
    dsimp only
    split_ifs
    all_goals first | exact List.prefix_rfl | exact List.prefix_append _ _

/-- The socket takes some of the bytes, or it times out. -/
def Patient (sock : Socket) (file : List UInt8) (p : SendFile.Progress) (a : Attempt) : Prop :=
  (sock.send a).ret = -2 ∨ 0 ≤ (sock.send a).ret ∧ (sock.send a).ret ≤ (p.next file).rest.length

/-- `uploadtofd` as a sender. -/
def uploadtofd (sock : Socket) (file : List UInt8) : Sender Upload.Progress where
  start := .start
  wire := Upload.Progress.wire
  pass := Upload.Iterates sock file
  returned p := Upload.Exhausted file p ∨ p.status ≠ .sending
  appends := by
    rintro p a q ⟨running, more⟩
    unfold Upload.sendBlock
    dsimp only
    split_ifs
    all_goals first | exact List.prefix_rfl | exact List.prefix_append _ _

/-- The socket takes every block whole. -/
def Takes (sock : Socket) (file : List UInt8) (p : Upload.Progress) (a : Attempt) : Prop :=
  (sock.send a).ret = (Upload.block file p.off).length

/-- While a file is sent, what was put on the socket and what is left of the block are its
front. -/
structure SendInv (file : List UInt8) (p : SendFile.Progress) : Prop where
  sending : p.status = .sending
  front : p.wire ++ p.rest = file.take p.off
  bounded : p.off ≤ file.length

theorem SendInv.next {file : List UInt8} {p : SendFile.Progress} (h : SendInv file p) :
    SendInv file (p.next file) := by
  obtain ⟨hfront, hle⟩ := SendFile.next_taken h.front h.bounded
  refine ⟨?_, hfront, hle⟩
  unfold SendFile.Progress.next
  split_ifs <;> exact h.sending

theorem SendInv.wire_eq {file : List UInt8} {p : SendFile.Progress} (h : SendInv file p)
    (hreturned : SendFile.Returned file p ∨ p.status = .interrupted) : p.wire = file := by
  rcases hreturned with ⟨-, hend⟩ | hint
  · exact SendFile.sent_of_end h.front h.bounded hend
  · rw [h.sending] at hint
    cases hint

def sendallfd_sends (sock : Socket) (file : List UInt8) :
    Sends (sendallfd sock file) (Patient sock file) file where
  inv := SendInv file
  start := ⟨rfl, rfl, Nat.zero_le _⟩
  pass := by
    rintro p a q h hok ⟨running, more⟩
    obtain ⟨hsending, hfront, hle⟩ := h.next
    rcases hok with hto | ⟨hnn, -⟩
    · rw [SendFile.sendRest, if_pos hto]
      exact ⟨hsending, hfront, hle⟩
    · rw [SendFile.sendRest_of_nonneg hnn]
      refine ⟨hsending, ?_, hle⟩
      rw [List.append_assoc, List.take_append_drop, hfront]
  front := fun {p} h => (List.prefix_append p.wire p.rest).trans (h.front ▸ List.take_prefix _ _)
  whole := fun h => h.wire_eq

theorem uploadtofd_pass {p q : Upload.Progress} {a : Attempt} {sock : Socket} {file : List UInt8}
    (hsending : p.status = .sending) (hsync : Upload.Synced file p) (hok : Takes sock file p a)
    (step : (uploadtofd sock file).pass p a q) : q.status = .sending ∧ Upload.Synced file q := by
  have hret : (sock.send a).ret = (Upload.block file p.off).length := hok
  refine ⟨?_, step.synced hsync (by omega) fun _ => hok⟩
  cases step with
  | sent =>
    rw [Upload.sendBlock]
    simp only [show (sock.send a).ret ≠ -2 by omega, show ¬(sock.send a).ret < 0 by omega,
      ↓reduceIte, hsending]

def uploadtofd_sends (sock : Socket) (file : List UInt8) :
    Sends (uploadtofd sock file) (Takes sock file) file where
  inv p := p.status = .sending ∧ Upload.Synced file p
  start := ⟨rfl, Upload.start_synced file⟩
  pass h hok step := uploadtofd_pass h.1 h.2 hok step
  front h := h.2.1
  whole h hreturned := h.2.faithful.2 (hreturned.resolve_right (absurd h.1))

def threeBytes (closes : Bool) : Reply := ⟨[7, 8, 9], by decide, 3, by decide, true, closes⟩

def moved (n : ℕ) : Attempt := ⟨.ready, .done n, false⟩

section
open Framing (plainSocket)
variable (snd : Sender P) (ok : P → Attempt → Prop) (took : ℕ → List Outcome → ℕ)

def WorkingSteps (store : List UInt8 → List Outcome → Download.Progress → Download.Progress)
    (reply : Reply) :
    Server P × Client → ServerEvent ⊕ ClientEvent → Server P × Client → Prop :=
  Guarded (Works ok took plainSocket plainSocket)
    (Steps (server snd plainSocket reply) (client store plainSocket))

variable (store) in
/-- The header is sent and received. -/
theorem header_run (reply : Reply) : Run (WorkingSteps snd ok took store reply) (.opened, .asking)
    [.inl (.header .none [moved 256]), .inr (.header .none [moved 256])]
    (.contents reply.header snd.start, .copying reply.header reply.told (.start .none [])) := by
  have hsend : conSend plainSocket .none [moved 256] = some ⟨256, .none⟩ := rfl
  have hread : conRead plainSocket .none [moved 256] = some ⟨256, .none⟩ := rfl
  have hwhole : ∀ r, conSend plainSocket .none [moved 256] = some r → r.ret = defDatasize := by
    rintro r hr
    rw [hsend] at hr
    cases hr
    rfl
  have hall : reply.header.take 256 = reply.header := by
    rw [← defDatasize, ← reply.header_length, List.take_length]
  have hfront : (reply.header ++ snd.wire snd.start).take 256 = reply.header := by
    rw [← defDatasize, ← reply.header_length, List.take_left]
  have sent : ServerSteps snd plainSocket reply .opened _ _ := .header hsend
  rw [show (⟨256, .none⟩ : Reported).ret.toNat = 256 from rfl, hall] at sent
  have got : ClientSteps store plainSocket (reply.header ++ snd.wire snd.start)
      (∃ sent, Server.contents reply.header snd.start = .closed sent) .asking _ _ :=
    .header hread (by rw [List.length_append, reply.header_length]; exact Nat.le_add_right _ _)
      (by decide)
  rw [show (⟨256, .none⟩ : Reported).ret.toNat = 256 from rfl, hfront] at got
  have write : Steps (server snd plainSocket reply) (client store plainSocket) (.opened, .asking)
      (.inl (.header .none [moved 256])) (.contents reply.header snd.start, .asking) := .write sent
  have read : Steps (server snd plainSocket reply) (client store plainSocket)
      (.contents reply.header snd.start, .asking) (.inr (.header .none [moved 256]))
      (.contents reply.header snd.start, .copying reply.header reply.told (.start .none [])) :=
    .read got
  exact (Run.one (guarded write hwhole)).snoc (guarded read hwhole)

variable {snd ok took}

/-- The client goes on: it receives the next `n` bytes and writes them. -/
theorem receive_run {start : Server P × Client} {ls : List (ServerEvent ⊕ ClientEvent)}
    {taken : List UInt8} {size : ℤ} {p : Download.Progress}
    (run : Run (WorkingSteps snd ok took store reply) start ls (s, .copying taken size p)) (n : ℕ)
    (rest : List UInt8) (hst : Download.Stores store took) (htook : took n [⟨n, none⟩] = n)
    (hwritten : s.written snd = taken ++ rest) (hcont : p.Continues size) (hpos : 0 < n)
    (hle : n ≤ rest.length) : ∃ ls' q,
      Run (WorkingSteps snd ok took store reply) start ls'
        (s, .copying (taken ++ rest.take n) size q) ∧
      q.total = p.total + n ∧ q.status = p.status ∧ q.len = n := by
  have hinside : inside (server snd plainSocket reply) (client store plainSocket) s
      (.copying taken size p) = rest := by
    change (s.written snd).drop taken.length = rest
    rw [hwritten, List.drop_left]
  have hret : (0 : ℤ) < n := Int.natCast_pos.mpr hpos
  have hwrites : Download.Written n [⟨n, none⟩] := by
    refine .part hret le_rfl ?_
    rw [Int.toNat_natCast, Nat.sub_self]
    exact .done
  obtain ⟨-, htotal, hstatus, hlen⟩ := receive_works plainSocket hst p ⟨moved n, [⟨n, none⟩]⟩ rest
    hle hret hwrites htook rfl
  have step : ClientSteps store plainSocket rest (∃ sent, s = .closed sent) (.copying taken size p)
      (.receive ⟨moved n, [⟨n, none⟩]⟩) _ := .receive hcont hle fun h => absurd h hret.ne'
  have works : Works ok took plainSocket plainSocket (s, .copying taken size p)
      (.inr (.receive ⟨moved n, [⟨n, none⟩]⟩)) := by
    cases s <;> exact Or.inr (Or.inr ⟨hret, hwrites, htook⟩)
  exact ⟨_, _, run.snoc (guarded (.read (hinside.symm ▸ step)) works), htotal, hstatus, hlen⟩

/-- The client finds the end of what the server has sent. -/
theorem end_run {start : Server P × Client} {ls : List (ServerEvent ⊕ ClientEvent)}
    {sent taken : List UInt8} {size : ℤ} {p : Download.Progress}
    (run : Run (WorkingSteps snd ok took store reply) start ls (.closed sent, .copying taken size p))
    (hall : taken = sent) (hcont : p.Continues size) : ∃ ls' c,
      Run (WorkingSteps snd ok took store reply) start ls' (.closed sent, c) ∧ c.Ended := by
  subst hall
  have hinside : inside (server snd plainSocket reply) (client store plainSocket) (.closed taken)
      (.copying taken size p) = [] := List.drop_length
  have step : ClientSteps store plainSocket [] (∃ sent, Server.closed (P := P) taken = .closed sent)
      (.copying taken size p) (.receive ⟨moved 0, []⟩) _ :=
    .receive hcont (Nat.zero_le _) fun _ => ⟨rfl, taken, rfl⟩
  have works : Works ok took plainSocket plainSocket (.closed taken, .copying taken size p)
      (.inr (.receive ⟨moved 0, []⟩)) := Or.inr (Or.inl rfl)
  refine ⟨_, _, run.snoc (guarded (.read (hinside.symm ▸ step)) works), ?_⟩
  rintro ⟨-, hlen, -⟩
  change (0 : ℤ) = -2 ∨ (0 : ℤ) < 0 at hlen
  omega

end

/-- PEEK, CONFIG and ROTATION over a connection that works, in every order of the steps of the
server and the client: the client prints the front of the file, and when its loop has ended all
of it, and then the closing text or not; its reads come to an end. -/
theorem reply_printed (reply : Reply) (out inn : Socket) {ls : List (ServerEvent ⊕ ClientEvent)}
    {s : Server SendFile.Progress}
    (run : Run (Guarded (Works (Patient out reply.file) Download.allOf out inn)
      (Steps (server (sendallfd out reply.file) out reply) (client Download.writeRest inn)))
      (.opened, .asking) ls (s, c)) :
    (∃ x, reply.Whole x ∧ c.out <+: x) ∧ (c.Ended → reply.Whole c.out) ∧
      ∀ ks q, Run (Guarded (fun p l => Works (Patient out reply.file) Download.allOf out inn p l ∧
          Moves inn p l)
        (Steps (server (sendallfd out reply.file) out reply) (client Download.writeRest inn)))
        (s, c) ks q →
        ks.length ≤ (inside (server (sendallfd out reply.file) out reply)
          (client Download.writeRest inn) s c).length + 1 := by
  have hinv := run_inv (sendallfd_sends out reply.file) Download.writeRest_stores run
  exact ⟨hinv.delivered.1, hinv.delivered.2, fun ks q => reads_bounded⟩

open Framing (plainSocket) in
/-- Two bytes of the file arrive before the closing text is sent; then the client reads past the
size that it was told, up to the end. -/
theorem reply_printed_closingText : ∃ ls s c,
    Run (Guarded (Works (Patient plainSocket [7, 8, 9]) Download.allOf plainSocket plainSocket)
      (Steps (server (sendallfd plainSocket [7, 8, 9]) plainSocket (threeBytes true))
        (client Download.writeRest plainSocket))) (.opened, .asking) ls (s, c) ∧
      c.Ended ∧ (threeBytes true).Whole c.out := by
  have hst := Download.writeRest_stores
  have htold : (threeBytes true).told = 3 := by decide +kernel
  set text := (threeBytes true).closingMessage.take 256 with htext
  have hlength : text.length = 256 := by
    rw [htext, List.length_take, message_length]
    rfl
  have passed := (header_run Download.writeRest (sendallfd plainSocket [7, 8, 9])
    (Patient plainSocket [7, 8, 9]) Download.allOf (threeBytes true)).snoc
    (guarded (.write (.pass (.pass (a := moved 3) rfl (by decide)))) (Or.inr ⟨by decide, by decide⟩))
  obtain ⟨_, p, early, htotal, hstatus, hlen⟩ := receive_run passed 2 [7, 8, 9] hst rfl rfl
    (by rw [htold]; decide) (by decide) (by decide)
  have closed := (early.snoc (guarded (.write (.closing (Or.inl ⟨rfl, rfl⟩) rfl
    (show conSend plainSocket .none [moved 256] = some ⟨256, .none⟩ from rfl)))
    fun r hr => Or.inr (by cases hr; rfl))).snoc (guarded (.write .close) trivial)
  have hsent : (threeBytes true).header ++ [7, 8, 9] ++ text =
      (threeBytes true).header ++ [7, 8] ++ 9 :: text := by
    simp only [List.append_assoc, List.cons_append, List.nil_append]
  obtain ⟨_, q, past, htotal', hstatus', hlen'⟩ := receive_run closed 256 (9 :: text) hst rfl hsent
    ⟨hstatus, Or.inr (by omega), by rw [htotal, htold]; decide⟩ (by decide) (by simp [hlength])
  have hpast : (threeBytes true).header ++ [7, 8, 9] ++ text = (threeBytes true).header ++ [7, 8] ++
      (9 :: text).take 256 ++ (9 :: text).drop 256 := by
    rw [hsent, List.append_assoc _ ((9 :: text).take 256), List.take_append_drop]
  obtain ⟨_, q', last, htotal'', hstatus'', hlen''⟩ := receive_run past 1 ((9 :: text).drop 256) hst
    rfl hpast ⟨hstatus'.trans hstatus, Or.inr (by omega), by rw [htotal', htotal, htold]; decide⟩
    (by decide) (by simp [hlength])
  rw [List.take_of_length_le (l := (9 :: text).drop 256) (by simp [hlength])] at last
  obtain ⟨ls, c, run, hend⟩ := end_run last hpast.symm
    ⟨hstatus''.trans (hstatus'.trans hstatus), Or.inr (by omega), by
      rw [htotal'', htotal', htotal, htold]; decide⟩
  exact ⟨ls, _, c, run, hend, (reply_printed (threeBytes true) plainSocket plainSocket run).2.1 hend⟩

/-- DOWN over a connection that takes every block whole: the client stores the front of the
file, and all of it when its loop has ended; its reads come to an end. -/
theorem download_stored (reply : Reply) (hplain : reply.closes = false) (out inn : Socket)
    {ls : List (ServerEvent ⊕ ClientEvent)} {s : Server Upload.Progress}
    (run : Run (Guarded (Works (Takes out reply.file) Download.firstOf out inn)
      (Steps (server (uploadtofd out reply.file) out reply) (client Download.writeOnce inn)))
      (.opened, .asking) ls (s, c)) :
    c.out <+: reply.file ∧ (c.Ended → c.out = reply.file) ∧
      ∀ ks q, Run (Guarded (fun p l => Works (Takes out reply.file) Download.firstOf out inn p l ∧
          Moves inn p l)
        (Steps (server (uploadtofd out reply.file) out reply) (client Download.writeOnce inn)))
        (s, c) ks q →
        ks.length ≤ (inside (server (uploadtofd out reply.file) out reply)
          (client Download.writeOnce inn) s c).length + 1 := by
  have hinv := run_inv (uploadtofd_sends out reply.file) Download.writeOnce_stores run
  have honly : ∀ x, reply.Whole x → x = reply.file := by
    rintro x (_ | hcloses)
    · rfl
    · rw [hplain] at hcloses
      cases hcloses
  obtain ⟨⟨x, hx, hpre⟩, hend⟩ := hinv.delivered
  exact ⟨honly x hx ▸ hpre, fun he => honly _ (hend he), fun ks q => reads_bounded⟩

open Framing (plainSocket) in
/-- The file arrives in two parts, one of them behind its end. -/
theorem download_stored_threeBytes : ∃ ls s c,
    Run (Guarded (Works (Takes plainSocket [7, 8, 9]) Download.firstOf plainSocket plainSocket)
      (Steps (server (uploadtofd plainSocket [7, 8, 9]) plainSocket (threeBytes false))
        (client Download.writeOnce plainSocket))) (.opened, .asking) ls (s, c) ∧
      c.Ended ∧ c.out = [7, 8, 9] := by
  have hst := Download.writeOnce_stores
  have htold : (threeBytes false).told = 3 := by decide +kernel
  have passed := (header_run Download.writeOnce (uploadtofd plainSocket [7, 8, 9])
    (Takes plainSocket [7, 8, 9]) Download.firstOf (threeBytes false)).snoc
    (guarded (.write (.pass (.sent (a := moved 3) rfl (by decide)))) rfl)
  obtain ⟨_, p, early, htotal, hstatus, hlen⟩ := receive_run passed 2 [7, 8, 9] hst rfl rfl
    (by rw [htold]; decide) (by decide) (by decide)
  have closed := (early.snoc (guarded (.write (.returns (Or.inl ⟨rfl, rfl⟩) rfl)) trivial)).snoc
    (guarded (.write .close) trivial)
  have hsent : (threeBytes false).header ++ [7, 8, 9] = (threeBytes false).header ++ [7, 8] ++ [9] := by
    simp only [List.append_assoc, List.cons_append, List.nil_append]
  obtain ⟨ls, q, run, htotal', -, -⟩ := receive_run closed 1 [9] hst rfl hsent
    ⟨hstatus, Or.inr (by omega), by rw [htotal, htold]; decide⟩ (by decide) (by decide)
  have hend : (threeBytes false).told = (q.total : ℤ) := by
    rw [htotal', htotal, htold]
    rfl
  refine ⟨ls, _, _, run, ?_, (download_stored (threeBytes false) rfl plainSocket plainSocket run).2.1 ?_⟩ <;>
    exact fun hcont => hcont.2.2 hend.symm

end EmotionStreamer.Replies
