import EmotionStreamer.Upload

/-! `sendallfd`: a file sent in blocks, each of them by as many attempts as it takes.
The inner loop is left early by a would-block error and by any error it does not
know, and the outer loop then goes on with the next block. -/
namespace EmotionStreamer.SendFile
open Slices Runs SockIo
open Upload (block block_length_le take_append_block block_end_le block_replicate)

/-- The loops are running, or raised `SIGINT` and returned −1. -/
inductive Status
  | sending | interrupted
  deriving DecidableEq, Repr

/-- The offset of the file, what `buff` holds that was not sent yet, and the bytes
put on the socket. -/
structure Progress where
  off : ℕ
  rest : List UInt8
  wire : List UInt8
  status : Status
  deriving DecidableEq, Repr

def Progress.start : Progress := ⟨0, [], [], .sending⟩

/-- The outer loop, which reads a block when the inner one has left none. -/
def Progress.next (file : List UInt8) (s : Progress) : Progress :=
  if s.rest = [] then
    { s with off := s.off + (block file s.off).length, rest := block file s.off }
  else s

/-- `errno` after a call that was made with `errno=0`. -/
def errnoOf (o : Outcome) : Errno := o.errno.getD .none

/-- One pass of the inner loop. -/
def sendRest (sock : Socket) (a : Attempt) (s : Progress) : Progress :=
  let sent := (sock.send a).ret
  let errno := errnoOf (sock.send a)
  if sent = -2 then s
  else if sent < 0 then
    if errno = .again then { s with rest := [] }
    else if errno = .pipe then { s with status := .interrupted }
    else if errno = .connReset then { s with status := .interrupted }
    else { s with rest := [] }
  else { s with rest := s.rest.drop sent.toNat, wire := s.wire ++ s.rest.take sent.toNat }

inductive Iterates (sock : Socket) (file : List UInt8) : Progress → Attempt → Progress → Prop
  | pass {s : Progress} {a : Attempt} (running : s.status = .sending)
      (more : (s.next file).rest ≠ []) :
      Iterates sock file s a (sendRest sock a (s.next file))

/-- The function returns 0, with nothing more to read. -/
def Returned (file : List UInt8) (s : Progress) : Prop :=
  s.status = .sending ∧ (s.next file).rest = []

def WouldBlock (o : Outcome) : Prop := o.ret < 0 ∧ o.ret ≠ -2 ∧ errnoOf o = .again

/-- No error, a timeout, or a would-block error. -/
def Transient (o : Outcome) : Prop := 0 ≤ o.ret ∨ o.ret = -2 ∨ WouldBlock o

/-- The bytes on the socket are a prefix of the file, and all of it when the function
returns 0 after transient errors only. -/
def Faithful (sock : Socket) (file : List UInt8) (as : List Attempt) (s : Progress) : Prop :=
  s.wire <+: file ∧
    (Returned file s → (∀ a ∈ as, Transient (sock.send a)) → s.wire = file)

def Progress.allowed {sock : Socket} (net : Transport sock.send) (file : List UInt8)
    (s : Progress) (a : Attempt) : Prop := net.allows (s.next file).rest.length a

/-- An error that leaves the block and is not a would-block error. -/
def Skips (o : Outcome) : Prop :=
  o.ret < 0 ∧ o.ret ≠ -2 ∧ errnoOf o ≠ .again ∧ errnoOf o ≠ .pipe ∧ errnoOf o ≠ .connReset

/-- The numbers of bytes that the network can leave of a full block. -/
inductive Left {once : Attempt → Outcome} (net : Transport once) : ℕ → Prop
  | whole : Left net defDatasize
  | part {n : ℕ} {a : Attempt} (left : Left net n) (allow : net.allows n a)
      (moved : 0 < (once a).ret) (less : (once a).ret < n) : Left net (n - (once a).ret.toNat)

/-- The network never accepts a byte. -/
def Idle {once : Attempt → Outcome} (net : Transport once) : Prop :=
  ∀ asked b, 0 < asked → asked ≤ defDatasize → net.allows asked b → (once b).ret ≤ 0

/-- No attempt would block, and a network that accepts bytes skips none of a full block. -/
structure Steady (sock : Socket) (net : Transport sock.send) : Prop where
  noBlock : ∀ asked a, 0 < asked → asked ≤ defDatasize → net.allows asked a →
    ¬WouldBlock (sock.send a)
  noSkip : ∀ n a, Left net n → net.allows n a → Skips (sock.send a) → Idle net

variable {sock : Socket} {net : Transport sock.send} {file : List UInt8} {s t : Progress}
  {a : Attempt} {as : List Attempt}

theorem Left.pos {n : ℕ} (h : Left net n) : 0 < n ∧ n ≤ defDatasize := by
  induction h with
  | whole => exact ⟨by decide, le_rfl⟩
  | part left allow moved less ih => omega

/-- What was sent and what is left of the block are the bytes of the file so far; what
is left is of a full block or of the last one. -/
structure InStep (net : Transport sock.send) (file : List UInt8) (s : Progress) : Prop where
  wire_rest : s.wire ++ s.rest = file.take s.off
  bounded : s.off ≤ file.length
  left : s.rest = [] ∨ Left net s.rest.length ∨ s.off = file.length
  small : s.rest.length ≤ defDatasize

/-- After an error that skipped the rest of a block: nothing is sent any more. -/
structure Skipped (sock : Socket) (net : Transport sock.send) (file : List UInt8)
    (as : List Attempt) (s : Progress) : Prop where
  error : ∃ a ∈ as, ¬Transient (sock.send a)
  stuck : Idle net ∨ s.rest = [] ∧ s.off = file.length
  small : s.rest.length ≤ defDatasize

theorem start_inStep (net : Transport sock.send) (file : List UInt8) : InStep net file .start :=
  ⟨rfl, Nat.zero_le _, Or.inl rfl, Nat.zero_le _⟩

/-- What was sent and is left of the block are the bytes up to the offset, also when the next
block has been read. -/
theorem next_taken (h : s.wire ++ s.rest = file.take s.off) (hoff : s.off ≤ file.length) :
    (s.next file).wire ++ (s.next file).rest = file.take (s.next file).off ∧
      (s.next file).off ≤ file.length := by
  unfold Progress.next
  split_ifs with hr
  · rw [hr, List.append_nil] at h
    exact ⟨by rw [← take_append_block, h], block_end_le hoff⟩
  · exact ⟨h, hoff⟩

/-- When there is no next block, the offset is at the end. -/
theorem next_end (h : (s.next file).rest = []) : file.length ≤ (s.next file).off := by
  unfold Progress.next at h ⊢
  split_ifs at h ⊢ with hr
  · have hlen := congrArg List.length h
    simp only [block, slice, List.length_take, List.length_drop, List.length_nil,
      defDatasize] at hlen ⊢
    omega
  · exact absurd h hr

theorem next_wire (file : List UInt8) (s : Progress) : (s.next file).wire = s.wire := by
  unfold Progress.next
  split_ifs <;> rfl

/-- When there is no next block, all of the file has been sent. -/
theorem sent_of_end (h : s.wire ++ s.rest = file.take s.off) (hoff : s.off ≤ file.length)
    (hend : (s.next file).rest = []) : s.wire = file := by
  have hwire := (next_taken h hoff).1
  rwa [hend, List.append_nil, next_wire, List.take_of_length_le (next_end hend)] at hwire

theorem InStep.next (h : InStep net file s) : InStep net file (s.next file) := by
  obtain ⟨hwire, hend⟩ := next_taken h.wire_rest h.bounded
  refine ⟨hwire, hend, ?_, ?_⟩
  · unfold Progress.next at hend ⊢
    split_ifs at hend ⊢ with hr
    · by_cases hfull : (block file s.off).length = defDatasize
      · exact Or.inr (Or.inl (hfull ▸ .whole))
      · refine Or.inr (Or.inr ?_)
        simp only [block, slice, List.length_take, List.length_drop] at hfull hend ⊢
        omega
    · exact h.left
  · unfold Progress.next
    split_ifs
    · exact block_length_le file s.off
    · exact h.small

theorem InStep.wire_isPrefix (h : InStep net file s) : s.wire <+: file :=
  (List.prefix_append s.wire s.rest).trans (h.wire_rest ▸ List.take_prefix _ _)

/-- The bytes on the socket are right; while the loops run, the block is in step or was
skipped for good. -/
def Sound (sock : Socket) (net : Transport sock.send) (file : List UInt8) (as : List Attempt)
    (s : Progress) : Prop :=
  s.wire <+: file ∧ (s.status = .sending → InStep net file s ∨ Skipped sock net file as s)

theorem InStep.sendRest (hnet : Steady sock net) (h : InStep net file s) (hne : s.rest ≠ [])
    (allow : net.allows s.rest.length a) :
    Sound sock net file (as ++ [a]) (sendRest sock a s) := by
  have hpos : 0 < s.rest.length := List.length_pos_iff.mpr hne
  have hle := net.bounded allow
  unfold SendFile.sendRest
  by_cases hto : (sock.send a).ret = -2
  · simp only [hto, ↓reduceIte]
    exact ⟨h.wire_isPrefix, fun _ => Or.inl h⟩
  · by_cases hneg : (sock.send a).ret < 0
    · simp only [hto, hneg, ↓reduceIte]
      split_ifs with hagain hpipe hreset
      · exact absurd ⟨hneg, hto, hagain⟩ (hnet.noBlock _ a hpos h.small allow)
      · exact ⟨h.wire_isPrefix, fun hs => by simp at hs⟩
      · exact ⟨h.wire_isPrefix, fun hs => by simp at hs⟩
      · refine ⟨h.wire_isPrefix, fun _ => Or.inr ⟨⟨a, by simp, ?_⟩, ?_, Nat.zero_le _⟩⟩
        · rintro (hnn | hret | hblock)
          · omega
          · exact hto hret
          · exact hagain hblock.2.2
        · rcases h.left with hr | hl | hoff
          · exact absurd hr hne
          · exact Or.inl (hnet.noSkip _ a hl allow ⟨hneg, hto, hagain, hpipe, hreset⟩)
          · exact Or.inr ⟨rfl, hoff⟩
    · simp only [hto, hneg, ↓reduceIte]
      have hstep : InStep net file { s with
          rest := s.rest.drop (sock.send a).ret.toNat
          wire := s.wire ++ s.rest.take (sock.send a).ret.toNat } := by
        refine ⟨?_, h.bounded, ?_, (List.drop_sublist _ _).length_le.trans h.small⟩
        · simp only [List.append_assoc, List.take_append_drop, h.wire_rest]
        · simp only [List.length_drop, List.drop_eq_nil_iff]
          rcases h.left with hr | hl | hoff
          · exact absurd hr hne
          · by_cases hall : (sock.send a).ret = s.rest.length
            · exact Or.inl (by omega)
            · by_cases hz : (sock.send a).ret = 0
              · exact Or.inr (Or.inl (by simpa [hz] using hl))
              · exact Or.inr (Or.inl (.part hl allow (by omega) (by omega)))
          · exact Or.inr (Or.inr hoff)
      exact ⟨hstep.wire_isPrefix, fun _ => Or.inl hstep⟩

theorem Skipped.sendRest (h : Skipped sock net file as s) (hne : s.rest ≠ [])
    (hwire : s.wire <+: file) (allow : net.allows s.rest.length a) :
    Sound sock net file (as ++ [a]) (sendRest sock a s) := by
  obtain ⟨b, hb, herr⟩ := h.error
  have herror : ∃ b ∈ as ++ [a], ¬Transient (sock.send b) := ⟨b, by simp [hb], herr⟩
  have hidle : Idle net := by
    rcases h.stuck with hidle | ⟨hr, -⟩
    · exact hidle
    · exact absurd hr hne
  have hret := hidle _ a (List.length_pos_iff.mpr hne) h.small allow
  unfold SendFile.sendRest
  dsimp only
  split_ifs with hto hneg hagain hpipe hreset
  · exact ⟨hwire, fun _ => Or.inr ⟨herror, Or.inl hidle, h.small⟩⟩
  · exact ⟨hwire, fun _ => Or.inr ⟨herror, Or.inl hidle, Nat.zero_le _⟩⟩
  · exact ⟨hwire, fun hs => by simp at hs⟩
  · exact ⟨hwire, fun hs => by simp at hs⟩
  · exact ⟨hwire, fun _ => Or.inr ⟨herror, Or.inl hidle, Nat.zero_le _⟩⟩
  · have hz : (sock.send a).ret.toNat = 0 := by omega
    simp only [hz, List.take_zero, List.append_nil, List.drop_zero]
    exact ⟨hwire, fun _ => Or.inr ⟨herror, Or.inl hidle, h.small⟩⟩

theorem Skipped.next (h : Skipped sock net file as s) :
    Skipped sock net file as (s.next file) := by
  unfold Progress.next
  split_ifs with hr
  · refine ⟨h.error, ?_, block_length_le file s.off⟩
    rcases h.stuck with hidle | ⟨-, hoff⟩
    · exact Or.inl hidle
    · have hnil : block file s.off = [] := by
        rw [block, slice, List.drop_of_length_le hoff.ge, List.take_nil]
      exact Or.inr ⟨hnil, by rw [hnil, hoff, List.length_nil, Nat.add_zero]⟩
  · exact h

/-- Step lemma: over a steady network the bytes on the socket stay right. -/
theorem Iterates.sound (hnet : Steady sock net) (h : Sound sock net file as s)
    (allow : s.allowed net file a) (step : Iterates sock file s a t) :
    Sound sock net file (as ++ [a]) t := by
  obtain ⟨running, more⟩ := step
  rcases h.2 running with hin | hskip
  · exact hin.next.sendRest hnet more allow
  · exact hskip.next.sendRest more (next_wire file s ▸ h.1) allow

theorem Sound.faithful (h : Sound sock net file as s) : Faithful sock file as s := by
  refine ⟨h.1, fun ⟨hs, hend⟩ hall => ?_⟩
  rcases h.2 hs with hin | hskip
  · exact sent_of_end hin.wire_rest hin.bounded hend
  · obtain ⟨a, ha, herr⟩ := hskip.error
    exact absurd (hall a ha) herr

theorem sendRest_of_nonneg (h : 0 ≤ (sock.send a).ret) (s : Progress) : sendRest sock a s =
    { s with
      rest := s.rest.drop (sock.send a).ret.toNat
      wire := s.wire ++ s.rest.take (sock.send a).ret.toNat } := by
  simp only [sendRest, show (sock.send a).ret ≠ -2 by omega, Int.not_lt.mpr h, ↓reduceIte]

/-- A file of one block, which the first attempt drops. -/
theorem block_dropped {n : ℕ} (hpos : 0 < n) (hn : n ≤ defDatasize) (allow : net.allows n a)
    (hblock : WouldBlock (sock.send a)) : ∃ file as s,
      Run (Guarded (Progress.allowed net file) (Iterates sock file)) .start as s ∧
        ¬Faithful sock file as s := by
  set file := List.replicate n (0 : UInt8) with hfile
  have hlen : file.length = n := List.length_replicate
  have hnext : Progress.start.next file = ⟨n, file, [], .sending⟩ := by
    simp only [Progress.next, Progress.start, ↓reduceIte, hfile, block_replicate hn,
      List.length_replicate, Nat.zero_add]
  obtain ⟨hneg, hto, hagain⟩ := hblock
  have hsend : sendRest sock a (Progress.start.next file) = ⟨n, [], [], .sending⟩ := by
    simp only [sendRest, hto, hneg, hagain, hnext, ↓reduceIte]
  have hstep : Iterates sock file .start a ⟨n, [], [], .sending⟩ := by
    rw [← hsend]
    refine .pass rfl ?_
    rw [hnext, ← List.length_pos_iff, hlen]
    exact hpos
  have hguard : Progress.allowed net file .start a := by
    rw [Progress.allowed, hnext, hlen]
    exact allow
  refine ⟨file, [a], _, .one ⟨hguard, hstep⟩, fun hf => ?_⟩
  have hend : Returned file ⟨n, [], [], .sending⟩ := by
    refine ⟨rfl, ?_⟩
    simp only [Progress.next, ↓reduceIte, block, slice, List.drop_of_length_le hlen.le,
      List.take_nil]
  have hwire := hf.2 hend fun b hb => by
    rw [List.mem_singleton.mp hb]
    exact Or.inr (Or.inr ⟨hneg, hto, hagain⟩)
  rw [← hwire, List.length_nil] at hlen
  omega

/-- A first block of zeros and ones behind it. -/
def zerosOnes (m : ℕ) : List UInt8 := List.replicate defDatasize 0 ++ List.replicate m 1

theorem block_zerosOnes (m : ℕ) (hm : m ≤ defDatasize) :
    block (zerosOnes m) 0 = List.replicate defDatasize 0 ∧
      block (zerosOnes m) defDatasize = List.replicate m 1 := by
  refine ⟨?_, ?_⟩
  · exact List.take_left' List.length_replicate
  · rw [block, slice, zerosOnes, List.drop_left' List.length_replicate,
      List.take_of_length_le (by simpa using hm)]

/-- While bytes of a block are left, a pass is made, with any attempt that the network allows. -/
theorem allowed_of_next {file rest wire : List UInt8} {off : ℕ}
    (hnext : s.next file = ⟨off, rest, wire, .sending⟩) (hpos : 0 < rest.length)
    (allow : net.allows rest.length a) : (s.next file).rest ≠ [] ∧ s.allowed net file a := by
  rw [Progress.allowed, hnext]
  exact ⟨List.ne_nil_of_length_pos hpos, allow⟩

/-- The attempts that leave `n` bytes of a full block. -/
theorem Left.reached {n : ℕ} (h : Left net n) (m : ℕ) (hm : m ≤ defDatasize) : ∃ as s,
    Run (Guarded (Progress.allowed net (zerosOnes m)) (Iterates sock (zerosOnes m))) .start as s ∧
      s.next (zerosOnes m) = ⟨defDatasize, List.replicate n 0,
        List.replicate (defDatasize - n) 0, .sending⟩ ∧ s.status = .sending := by
  induction h with
  | whole =>
    refine ⟨[], _, .nil _, ?_, rfl⟩
    simp only [Progress.next, Progress.start, ↓reduceIte, (block_zerosOnes m hm).1,
      List.length_replicate, Nat.zero_add, Nat.sub_self, List.replicate_zero]
  | @part n a left allow moved less ih =>
    obtain ⟨as, s, run, hnext, hs⟩ := ih
    have hn := left.pos
    obtain ⟨hne, hguard⟩ := allowed_of_next hnext (by rw [List.length_replicate]; exact hn.1)
      (by rw [List.length_replicate]; exact allow)
    have hsend : sendRest sock a (s.next (zerosOnes m)) =
        ⟨defDatasize, List.replicate (n - (sock.send a).ret.toNat) 0,
          List.replicate (defDatasize - (n - (sock.send a).ret.toNat)) 0, .sending⟩ := by
      have htake : defDatasize - n + (sock.send a).ret.toNat =
          defDatasize - (n - (sock.send a).ret.toNat) := by omega
      simp only [sendRest_of_nonneg (Int.le_of_lt moved), hnext, List.drop_replicate, List.take_replicate,
        Nat.min_eq_left (show (sock.send a).ret.toNat ≤ n by omega), List.replicate_append_replicate,
        htake]
    refine ⟨as ++ [a], _, run.snoc ⟨hguard, .pass hs hne⟩, ?_, ?_⟩
    · rw [hsend, Progress.next, if_neg]
      simp only [List.replicate_eq_nil_iff]
      omega
    · rw [hsend]

/-- The rest of a full block is skipped, and bytes of the next one follow. -/
theorem rest_skipped {n m : ℕ} {b : Attempt} (hl : Left net n) (allow : net.allows n a)
    (hskip : Skips (sock.send a)) (hpos : 0 < m) (hm : m ≤ defDatasize) (hallow : net.allows m b)
    (hmoved : 0 < (sock.send b).ret) : ∃ file as s,
      Run (Guarded (Progress.allowed net file) (Iterates sock file)) .start as s ∧
        ¬Faithful sock file as s := by
  obtain ⟨as, s, run, hnext, hs⟩ := hl.reached m hm
  obtain ⟨hneg, hto, hagain, hpipe, hreset⟩ := hskip
  have hn := hl.pos
  have hfirst : sendRest sock a (s.next (zerosOnes m)) =
      ⟨defDatasize, [], List.replicate (defDatasize - n) 0, .sending⟩ := by
    simp only [sendRest, hto, hneg, hagain, hpipe, hreset, ↓reduceIte, hnext]
  obtain ⟨hne, hguard⟩ := allowed_of_next hnext (by rw [List.length_replicate]; exact hn.1)
    (by rw [List.length_replicate]; exact allow)
  have hrun := run.snoc ⟨hguard, .pass hs hne⟩
  rw [hfirst] at hrun
  have hnext' : Progress.next (zerosOnes m)
      ⟨defDatasize, [], List.replicate (defDatasize - n) 0, .sending⟩ =
      ⟨defDatasize + m, List.replicate m 1, List.replicate (defDatasize - n) 0, .sending⟩ := by
    simp only [Progress.next, ↓reduceIte, (block_zerosOnes m hm).2, List.length_replicate]
  obtain ⟨hne', hguard'⟩ := allowed_of_next hnext' (by rw [List.length_replicate]; exact hpos)
    (by rw [List.length_replicate]; exact hallow)
  have hlast := hrun.snoc ⟨hguard', .pass rfl hne'⟩
  refine ⟨zerosOnes m, _, _, hlast, fun hf => ?_⟩
  have hpre := hf.1
  simp only [sendRest_of_nonneg (Int.le_of_lt hmoved), hnext', List.take_replicate] at hpre
  -- the byte after the skip is one of the second block, and stands in the first one
  have hlt : defDatasize - n < (List.replicate (defDatasize - n) (0 : UInt8) ++
      List.replicate (min (sock.send b).ret.toNat m) 1).length := by
    simp only [List.length_append, List.length_replicate]
    omega
  have hget := hpre.getElem hlt
  simp only [zerosOnes, List.getElem_append, List.length_replicate, Nat.lt_irrefl, ↓reduceDIte,
    List.getElem_replicate, show defDatasize - n < defDatasize by omega] at hget
  exact absurd hget (by decide)

/-- A network carries every file faithfully if and only if it is steady. -/
theorem sendallfd_faithful_iff (sock : Socket) (net : Transport sock.send) :
    (∀ file as s, Run (Guarded (Progress.allowed net file) (Iterates sock file)) .start as s →
      Faithful sock file as s) ↔ Steady sock net := by
  constructor
  · intro hall
    refine ⟨fun asked a hpos hle hallow hblock => ?_, fun n a hl hallow hskip => ?_⟩
    · obtain ⟨file, as, s, run, hf⟩ := block_dropped hpos hle hallow hblock
      exact hf (hall file as s run)
    · intro asked b hpos hle hb
      by_contra hmoved
      obtain ⟨file, as, s, run, hf⟩ :=
        rest_skipped hl hallow hskip hpos hle hb (Int.not_le.mp hmoved)
      exact hf (hall file as s run)
  · intro hnet file as s run
    refine (run.track (Sound sock net file) ?_ fun _ s a t h hstep => ?_).faithful
    · exact ⟨List.nil_prefix, fun _ => Or.inl (start_inStep net file)⟩
    · exact hstep.2.sound hnet h hstep.1

/-- A plain socket that is not ready for the only block of a file. -/
theorem would_block_skips : ¬ ∀ (sock : Socket) (file : List UInt8) (as : List Attempt)
    (s : Progress), Run (Guarded (fun s a => (sock.send a).ret ≤ (s.next file).rest.length)
      (Iterates sock file)) .start as s → Faithful sock file as s := by
  intro h
  have hf := h ⟨3, false, none⟩ [1, 2] [⟨.ready, .failed .again .other, false⟩] ⟨2, [], [], .sending⟩
    (.one ⟨by decide, .pass rfl (by decide)⟩)
  refine absurd (hf.2 ⟨rfl, rfl⟩ fun a ha => ?_) (by decide)
  rw [List.mem_singleton.mp ha]
  exact Or.inr (Or.inr ⟨by decide, by decide, rfl⟩)

end EmotionStreamer.SendFile
