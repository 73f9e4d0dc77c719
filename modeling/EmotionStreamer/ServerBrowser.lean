import EmotionStreamer.Loops
import EmotionStreamer.Requests
import Mathlib.Data.List.TakeWhile

/-! `recv_servers`: the browser prints the messages of a listing until one says that it is
done. -/
namespace EmotionStreamer.ServerBrowser
open Loops Slices
open Requests (clearData)

/-- What `con_read` returns: data, the end of the stream (0), a timeout (-2) or an error (-1). -/
inductive ConRead
  | data (bytes : List UInt8)
  | eos
  | timeout
  | failed
  deriving DecidableEq, Repr

/-- The bytes that a call puts at the front of `tcp_data`. -/
def ConRead.bytes : ConRead → List UInt8
  | .data bytes => bytes
  | _ => []

/-- `reads` counts the calls of `con_read`; `printed` is what went to `fd`, without the
newlines. -/
structure Browser where
  reads : ℕ
  tcpData : List UInt8
  printed : List (List UInt8)
  notices : List String
  left : Bool
  deriving DecidableEq, Repr

/-- `tcp_data` as a string -/
def text (bytes : List UInt8) : List UInt8 := bytes.takeWhile (· ≠ 0)

/-- `"done"` -/
def done : List UInt8 := [100, 111, 110, 101]

variable (stream : ℕ → ConRead)

def Browser.conRead (b : Browser) : Browser :=
  { b with
    reads := b.reads + 1
    tcpData := splice b.tcpData 0 (stream b.reads).bytes }

def Browser.print (b : Browser) : Browser := { b with printed := b.printed ++ [text b.tcpData] }

def Browser.notice (b : Browser) (s : String) : Browser := { b with notices := b.notices ++ [s] }

/-- The read in front of the loop; after an error the process ends. -/
def firstRead : Browser :=
  let b := Browser.conRead stream ⟨0, clearData, [], [], false⟩
  match stream 0 with
  | .failed => { b.notice "erro 1!!!\n" with left := true }
  | .timeout => (b.notice "timeout 1!!!\n").print
  | _ => b.print

/-- One pass of the loop, as long as no signal arrives. -/
def recvBody (b : Browser) : Option Browser :=
  if b.left || text b.tcpData = done then none
  else
    let r := b.conRead stream
    match stream b.reads with
    | .failed => some { r.notice "erro 3!!!\n" with left := true }
    | .timeout => some (r.notice "timeout 3!!!\n")
    | _ => some r.print

/-- The state behind the loop, if `fuel` passes are enough. -/
def recvServers (fuel : ℕ) : Option Browser := loop (recvBody stream) fuel (firstRead stream)

/-- What one successful call of `con_read` delivers. -/
structure Message where
  bytes : List UInt8
  pos : bytes ≠ []
  size : bytes.length ≤ defDatasize

/-- The messages one after the other, and the end of the stream from then on. -/
def delivered (msgs : List Message) (i : ℕ) : ConRead :=
  (msgs[i]?).elim .eos fun m => .data m.bytes

/-- The byte at a position that the messages leave in `tcp_data`: that of the last one
which reaches there. -/
def leftBehind (msgs : List Message) (i : ℕ) : UInt8 :=
  (msgs.filterMap fun m => m.bytes[i]?).getLastD 0

/-- The loop ends after finitely many reads, with each message received printed once. -/
def Listed (msgs : List Message) : Prop :=
  ∃ fuel b, recvServers (delivered msgs) fuel = some b ∧
    b.printed = (msgs.take b.reads).map fun m => text m.bytes

/-- No bytes of older messages are printed behind a message. -/
def Whole (msgs : List Message) (k : ℕ) : Prop :=
  ∀ m ∈ msgs[k]?, 0 ∈ m.bytes ∨ leftBehind (msgs.take k) m.bytes.length = 0

/-- `tcp_data` after some messages -/
def buffer (msgs : List Message) : List UInt8 :=
  msgs.foldl (fun buf m => splice buf 0 m.bytes) clearData

variable {msgs : List Message} {b : Browser}

theorem buffer_snoc (msgs : List Message) (m : Message) :
    buffer (msgs ++ [m]) = splice (buffer msgs) 0 m.bytes := by
  simp [buffer]

theorem buffer_length (msgs : List Message) : (buffer msgs).length = defDatasize + 1 := by
  induction msgs using List.reverseRecOn with
  | nil => exact List.length_replicate
  | append_singleton msgs m ih =>
    have := m.size
    rw [buffer_snoc, splice_length (by omega), ih]

theorem buffer_getElem? (msgs : List Message) {i : ℕ} (hi : i ≤ defDatasize) :
    (buffer msgs)[i]? = some (leftBehind msgs i) := by
  induction msgs using List.reverseRecOn with
  | nil =>
    simp only [buffer, List.foldl_nil, clearData, leftBehind, List.filterMap_nil,
      List.getLastD_nil, List.getElem?_replicate, if_pos (Nat.lt_succ_of_le hi)]
  | append_singleton msgs m ih =>
    have hm := m.size
    have hlen := buffer_length msgs
    rw [buffer_snoc, splice_getElem? (by omega), leftBehind, List.filterMap_append]
    by_cases him : i < m.bytes.length
    · simp [him]
    · simpa [him, leftBehind] using ih

/-- The text in `tcp_data` is that of the message just received, unless an older one has left
something behind it. -/
theorem text_buffer_snoc (msgs : List Message) (m : Message) :
    text (buffer (msgs ++ [m])) = text m.bytes ↔
      0 ∈ m.bytes ∨ leftBehind msgs m.bytes.length = 0 := by
  have hlen : m.bytes.length < (buffer msgs).length := by
    rw [buffer_length]
    exact Nat.lt_succ_of_le m.size
  have hbyte : (buffer msgs)[m.bytes.length] = leftBehind msgs m.bytes.length :=
    Option.some.inj ((List.getElem?_eq_getElem hlen).symm.trans (buffer_getElem? msgs m.size))
  rw [buffer_snoc, splice_zero, List.drop_eq_getElem_cons hlen, hbyte, text, text,
    List.takeWhile_append]
  have hnul : (m.bytes.takeWhile (· ≠ 0)).length = m.bytes.length ↔ 0 ∉ m.bytes := by
    rw [(List.takeWhile_sublist _).length_eq, List.takeWhile_eq_self_iff]
    simp only [decide_eq_true_eq]
    exact ⟨fun h hzero => h 0 hzero rfl, fun h c hc hzero => h (hzero ▸ hc)⟩
  by_cases hend : 0 ∈ m.bytes
  · rw [if_neg (by rw [hnul, not_not]; exact hend)]
    simp only [hend, true_or]
  · have hlength := hnul.mpr hend
    rw [if_pos hlength, (List.takeWhile_sublist _).length_eq.mp hlength]
    by_cases hzero : leftBehind msgs m.bytes.length = 0
    · simp [hzero]
    · simp [hzero, hend]

/-- The state after `j` reads, as long as nothing has stopped the loop. -/
def listing (msgs : List Message) (j : ℕ) : Browser :=
  ⟨j, buffer (msgs.take j), (List.range j).map fun i => text (buffer (msgs.take (i + 1))), [],
    false⟩

theorem delivered_of_lt {j : ℕ} (hj : j < msgs.length) :
    delivered msgs j = .data msgs[j].bytes := by
  rw [delivered, List.getElem?_eq_getElem hj]
  rfl

theorem delivered_of_le {j : ℕ} (hj : msgs.length ≤ j) : delivered msgs j = .eos := by
  rw [delivered, List.getElem?_eq_none hj]
  rfl

theorem buffer_take_succ (msgs : List Message) (j : ℕ) :
    splice (buffer (msgs.take j)) 0 (delivered msgs j).bytes = buffer (msgs.take (j + 1)) := by
  by_cases hj : j < msgs.length
  · rw [delivered_of_lt hj, ← List.take_concat_get' _ _ hj, buffer_snoc]
    rfl
  · have hlen := Nat.le_of_not_lt hj
    rw [delivered_of_le hlen, List.take_of_length_le hlen,
      List.take_of_length_le (Nat.le_succ_of_le hlen)]
    rfl

theorem print_listing (msgs : List Message) (j : ℕ) :
    ((listing msgs j).conRead (delivered msgs)).print = listing msgs (j + 1) := by
  simp only [listing, Browser.conRead, Browser.print, buffer_take_succ, List.range_succ,
    List.map_append, List.map_cons, List.map_nil]

/-- Neither messages nor the end of the stream take another branch. -/
theorem delivered_cases {α : Type*} (msgs : List Message) (j : ℕ) (failed timeout other : α) :
    (match delivered msgs j with
      | .failed => failed
      | .timeout => timeout
      | _ => other) = other := by
  by_cases hj : j < msgs.length
  · rw [delivered_of_lt hj]
  · rw [delivered_of_le (Nat.le_of_not_lt hj)]

theorem firstRead_eq (msgs : List Message) : firstRead (delivered msgs) = listing msgs 1 := by
  rw [← print_listing msgs 0, firstRead]
  exact delivered_cases msgs 0 _ _ _

theorem recvBody_listing (msgs : List Message) (j : ℕ) :
    recvBody (delivered msgs) (listing msgs j) =
      if text (buffer (msgs.take j)) = done then none else some (listing msgs (j + 1)) := by
  rw [← print_listing msgs j, recvBody]
  refine if_congr ?_ rfl (delivered_cases msgs j _ _ _)
  simp only [listing, Bool.false_or]
  exact decide_eq_true_iff

/-- The loop ends with the first read that leaves `"done"` in `tcp_data`. -/
theorem recvServers_iff :
    (∃ fuel, recvServers (delivered msgs) fuel = some b) ↔
      ∃ j, 1 ≤ j ∧ text (buffer (msgs.take j)) = done ∧
        (∀ k, 1 ≤ k → k < j → text (buffer (msgs.take k)) ≠ done) ∧ b = listing msgs j := by
  simp only [recvServers, firstRead_eq]
  exact loop_sequence_iff _ _ (recvBody_listing msgs) 1

theorem recvBody_reads {stream : ℕ → ConRead} {t : Browser} (h : recvBody stream b = some t) :
    t.reads = b.reads + 1 := by
  unfold recvBody at h
  split_ifs at h
  split at h <;> cases h <;> rfl

/-- The loop depends on the reads that it makes only. -/
theorem loop_congr {stream stream' : ℕ → ConRead} {s : Browser} {fuel : ℕ}
    (h : ∀ i < b.reads, stream i = stream' i) (hrun : loop (recvBody stream) fuel s = some b) :
    s.reads ≤ b.reads ∧ loop (recvBody stream') fuel s = some b := by
  induction fuel generalizing s with
  | zero => cases hrun
  | succ fuel ih =>
    rw [loop] at hrun ⊢
    cases hbody : recvBody stream s with
    | none =>
      have hstops : recvBody stream' s = none := by
        unfold recvBody at hbody ⊢
        split_ifs at hbody ⊢ with hstop
        · rfl
        · split at hbody <;> cases hbody
      rw [hbody] at hrun
      cases hrun
      rw [hstops]
      exact ⟨Nat.le_refl _, rfl⟩
    | some t =>
      rw [hbody] at hrun
      obtain ⟨hle, hloop⟩ := ih hrun
      have hreads := recvBody_reads hbody
      have hsame := h s.reads (by omega)
      have hstep : recvBody stream' s = some t := by
        rw [← hbody, recvBody, recvBody, Browser.conRead, Browser.conRead, hsame]
      rw [hstep]
      exact ⟨by omega, hloop⟩

theorem firstRead_reads (stream : ℕ → ConRead) : (firstRead stream).reads = 1 := by
  unfold firstRead
  dsimp only
  split <;> rfl

theorem recvServers_congr {stream stream' : ℕ → ConRead} {fuel : ℕ}
    (h : ∀ i < b.reads, stream i = stream' i) (hrun : recvServers stream fuel = some b) :
    recvServers stream' fuel = some b := by
  obtain ⟨hle, hloop⟩ := loop_congr h hrun
  rw [firstRead_reads] at hle
  have hfirst : firstRead stream = firstRead stream' := by
    rw [firstRead, firstRead, Browser.conRead, Browser.conRead, h 0 hle]
  rw [recvServers, ← hfirst]
  exact hloop

/-- A line that is printed is the text of its message. -/
theorem printed_eq_iff {k : ℕ} (hk : k < msgs.length) :
    text (buffer (msgs.take (k + 1))) = text msgs[k].bytes ↔ Whole msgs k := by
  rw [← List.take_concat_get' _ _ hk, text_buffer_snoc, Whole, List.getElem?_eq_getElem hk]
  simp

theorem printed_iff (msgs : List Message) (j : ℕ) :
    (listing msgs j).printed = ((msgs.take j).map fun m => text m.bytes) ↔
      j ≤ msgs.length ∧ ∀ k < j, Whole msgs k := by
  rw [List.ext_getElem_iff]
  simp only [listing, List.length_map, List.length_range, List.length_take, List.getElem_map,
    List.getElem_range, List.getElem_take]
  constructor
  · rintro ⟨hlen, hlines⟩
    refine ⟨by omega, fun k hk => ?_⟩
    exact (printed_eq_iff (by omega)).mp (hlines k hk (by omega))
  · rintro ⟨hle, hwhole⟩
    refine ⟨by omega, fun k hk hlt => ?_⟩
    exact (printed_eq_iff (by omega)).mpr (hwhole k hk)

/-- The listing is printed as it was received when a message says that it is done, and no
message up to there is followed by what an older one has left. -/
theorem listed_iff (msgs : List Message) :
    Listed msgs ↔ ∃ n, (∃ m ∈ msgs[n]?, text m.bytes = done) ∧ ∀ k ≤ n, Whole msgs k := by
  constructor
  · rintro ⟨fuel, b, hrun, hprinted⟩
    obtain ⟨j, hj, hdone, -, rfl⟩ := recvServers_iff.mp ⟨fuel, hrun⟩
    obtain ⟨hle, hwhole⟩ := (printed_iff msgs j).mp hprinted
    obtain ⟨n, rfl⟩ := Nat.exists_eq_add_of_le' hj
    refine ⟨n, ⟨msgs[n], List.getElem?_eq_getElem hle, ?_⟩, fun k hk => hwhole k (by omega)⟩
    rw [← (printed_eq_iff hle).mpr (hwhole n (Nat.lt_succ_self n)), hdone]
  · rintro ⟨n, ⟨m, hm, hdone⟩, hwhole⟩
    obtain ⟨hn, rfl⟩ := List.getElem?_eq_some_iff.mp hm
    have hstop : ∃ j, 1 ≤ j ∧ text (buffer (msgs.take j)) = done :=
      ⟨n + 1, Nat.le_add_left 1 n, ((printed_eq_iff hn).mpr (hwhole n (Nat.le_refl n))).trans hdone⟩
    -- an earlier message may leave the same text; the loop ends with the first
    have hfirst := Nat.find_min' hstop
      ⟨Nat.le_add_left 1 n, ((printed_eq_iff hn).mpr (hwhole n (Nat.le_refl n))).trans hdone⟩
    obtain ⟨hpos, hfound⟩ := Nat.find_spec hstop
    obtain ⟨fuel, hrun⟩ := recvServers_iff.mpr ⟨_, hpos, hfound, fun k hk hlt heq =>
      Nat.find_min hstop hlt ⟨hk, heq⟩, rfl⟩
    refine ⟨fuel, _, hrun, (printed_iff msgs _).mpr ⟨by omega, fun k hk => hwhole k (by omega)⟩⟩

/-- A server that says something else and closes the connection. -/
theorem endless_listing : ¬∀ msgs : List Message, Listed msgs := by
  intro h
  obtain ⟨fuel, b, hrun, -⟩ := h [⟨[104, 105], by decide, by decide⟩]
  obtain ⟨j, hj, hdone, -⟩ := recvServers_iff.mp ⟨fuel, hrun⟩
  rw [List.take_of_length_le hj] at hdone
  exact absurd hdone (by decide)

end EmotionStreamer.ServerBrowser
