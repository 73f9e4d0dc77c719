import EmotionStreamer.ServersTable
import EmotionStreamer.ServersListing
import EmotionStreamer.ServerBrowser
import Mathlib.Data.List.Perm.Basic

/-! An overseer from the requests it accepts to what a browser prints: the acceptor registers
servers and lists the table, the watchdog takes out the servers that are lost, and the browser
reads the messages of a listing. A character is a byte here. -/
namespace EmotionStreamer.ServersShown
open CStrings Runs InterlvlCom
open ServersListing (sendRows serverListHeader rowText buffSize Columns)
open ServerBrowser (ConRead Message recvServers delivered)

/-- A string constant as the compiler stores it. -/
def literal (s : List Char) : List Char :=
  s.flatMap fun c => (String.utf8EncodeChar c).map fun b => .ofNat b.toNat

/-- A request whose text has come over a connection. -/
structure Received where
  request : Request
  bytes : ∀ c ∈ request.text, c.toNat < 256

/-- `extension_buff` of `acceptor_func` lives from one request to the next. -/
structure Overseer (n : ℕ) where
  directory : Directory n
  extensionBuff : List Char

inductive Event
  | request (peer : Peer) (req : Received)
  | watchDog (heartbeat : Heartbeat)

variable {n : ℕ}

def Overseer.start (n : ℕ) : Overseer n := ⟨.start n, []⟩

/-- A request that is no `LOG`, a listing among them, leaves the overseer as it is. -/
def Overseer.step (db : Sqlite) (order : ByteOrder) (o : Overseer n) :
    Event → Except InterlvlCom.Fault (Overseer n)
  | .request peer req => do
    match ← acceptorFunc order o.extensionBuff peer req.request with
    | none => return o
    | some a => return ⟨o.directory.log db order peer req.request a.extensionBuff, a.extensionBuff⟩
  | .watchDog heartbeat => return ⟨o.directory.watch db heartbeat, o.extensionBuff⟩

def Steps (db : Sqlite) (order : ByteOrder) (o : Overseer n) (e : Event) (o' : Overseer n) : Prop :=
  o.step db order e = .ok o'

/-- A registration finds a free slot and can be listed. -/
def Admits (db : Sqlite) (order : ByteOrder) (o : Overseer n) : Event → Prop
  | .request peer req => ∀ a, acceptorFunc order o.extensionBuff peer req.request = .ok (some a) →
      Accepted db order o.directory (.log peer req.request a.extensionBuff)
  | .watchDog _ => True

/-- The texts that `sqlite3_exec` hands to its callback. -/
def columns (row : Row) : List (List Char) :=
  [row.serverType, Nat.toDigits 10 row.serverId, row.serverName, row.serverIp, row.serverExtension,
    Nat.toDigits 10 row.usingTls]

/-- A call of `con_send`: what `tcp_data` holds, and the result. -/
structure Sending where
  tcpData : List Char
  result : ℤ

/-- The bytes that the call has put on the connection. -/
def Sending.bytes (s : Sending) : List UInt8 := octets (s.tcpData.take s.result.toNat)

/-- The calls of `con_send` for a listing, and whether SIGINT was raised. -/
structure Listing where
  sendings : List Sending
  interrupted : Bool

/-- An error of `con_send` that is not a timeout raises SIGINT, and the listing goes on; the result
of the last call is not looked at. -/
def Listing.of (result : ℕ → ℤ) (buffers : List (List Char)) : Listing where
  sendings := buffers.mapIdx fun i tcpData => ⟨tcpData, result i⟩
  interrupted := (List.range (buffers.length - 1)).any fun i => result i < 0 ∧ result i ≠ -2

/-- `show_servers`, with the results of its calls of `con_send`. -/
def showServers (result : ℕ → ℤ) (tcpData : List Char) (rows : List Row) :
    Except ServersListing.Fault Listing := do
  let header := store tcpData (snprintf (defDatasize - 1) (literal serverListHeader))
  let sent ← sendRows (rows.map columns)
  return .of result (header :: sent ++
    [store (sent.getLastD header) (snprintf (defDatasize - 1) "done".toList)])

def Listing.wire (l : Listing) : List UInt8 := (l.sendings.map Sending.bytes).flatten

/-- What `con_read` returns at the other end of the connection are the bytes of the listing in
their order, and each message was sent by one call and is received by one call. -/
structure Conveys (l : Listing) (stream : ℕ → ConRead) : Prop where
  inOrder : ∀ n, ((List.range n).map fun i => (stream i).bytes).flatten <+: l.wire
  sentWhole : ∀ s ∈ l.sendings, s.result = defDatasize
  readWhole : ∀ i < l.sendings.length, (stream i).bytes.length = defDatasize

/-- The line of a row on the screen. -/
def line (row : Row) : List UInt8 := octets (rowText (columns row))

/-- What is registered is made of bytes, and fits in the buffer of a listing. -/
structure RowFits (row : Row) : Prop where
  plain : ∀ col ∈ columns row, Plain col
  short : (rowText (columns row)).length < buffSize - 1

/-- What a run of admitted events keeps. -/
structure Kept (order : ByteOrder) (o : Overseer n) : Prop where
  directory : InterlvlCom.Kept order o.directory
  extension : Plain o.extensionBuff
  fits : ∀ fd con, o.directory.overseer.registered fd = some con → RowFits (con.data.row order)

variable {db : Sqlite} {order : ByteOrder} {o o' : Overseer n} {peer : Peer} {req : Received}
  {s t buf ext : List Char} {row : Row} {rows : List Row}

theorem octets_ne_zero (h : Plain s) : ∀ b ∈ octets s, b ≠ 0 := by
  intro b hb
  obtain ⟨c, hc, rfl⟩ := List.mem_map.mp hb
  obtain ⟨hpos, hlt⟩ := h c hc
  intro hz
  have hnat := congrArg UInt8.toNat hz
  rw [UInt8.toNat_ofNat', Nat.mod_eq_of_lt hlt] at hnat
  exact hpos.ne' hnat

/-- What is received of a buffer is read as the string in it. -/
theorem wire_store (hlen : s.length < defDatasize) (buf : List Char) :
    ∃ rest, octets ((store buf s).take defDatasize) = octets s ++ 0 :: rest := by
  obtain ⟨k, hk⟩ := Nat.exists_eq_add_of_lt hlen
  refine ⟨octets ((buf.drop (s.length + 1)).take k), ?_⟩
  have htake : (store buf s).take defDatasize = s ++ '\x00' :: (buf.drop (s.length + 1)).take k := by
    rw [store, hk, Nat.add_assoc, List.take_length_add_append, List.take_succ_cons]
  rw [htake, octets, List.map_append, List.map_cons]
  rfl

theorem text_append (h : Plain s) (rest : List UInt8) :
    ServerBrowser.text (octets s ++ 0 :: rest) = octets s := by
  rw [ServerBrowser.text, List.takeWhile_append_of_pos fun b hb =>
    decide_eq_true (octets_ne_zero h b hb)]
  simp

/-- A buffer with a string in it, as it is received. -/
def received (buf s : List Char) : Message where
  bytes := octets ((store buf s).take defDatasize)
  pos := by simp [octets, store, defDatasize]
  size := by
    rw [octets, List.length_map]
    exact List.length_take_le _ _

/-- Reads of one buffer after the other. -/
def oneByOne (buffers : List (List Char)) (i : ℕ) : ConRead :=
  (buffers[i]?).elim .eos fun tcpData => .data (octets (tcpData.take defDatasize))

theorem delivered_received (calls : List (List Char × List Char)) :
    delivered (calls.map fun call => received call.1 call.2) =
      oneByOne (calls.map fun call => store call.1 call.2) := by
  funext i
  rw [delivered, oneByOne, List.getElem?_map, List.getElem?_map]
  cases calls[i]? <;> rfl

theorem text_received (hs : Plain s) (hlen : s.length < defDatasize) (buf : List Char) :
    0 ∈ (received buf s).bytes ∧ ServerBrowser.text (received buf s).bytes = octets s := by
  obtain ⟨rest, hrest⟩ := wire_store hlen buf
  change 0 ∈ octets ((store buf s).take defDatasize) ∧
    ServerBrowser.text (octets ((store buf s).take defDatasize)) = octets s
  rw [hrest]
  exact ⟨by simp, text_append hs rest⟩

/-- Strings are printed one after the other, up to the first one that says that it is done. -/
theorem recvServers_messages {msgs : List Message} {m : Message}
    (hnul : ∀ x ∈ msgs ++ [m], 0 ∈ x.bytes) (hlast : ServerBrowser.text m.bytes = ServerBrowser.done)
    (hmid : ∀ x ∈ msgs, ServerBrowser.text x.bytes ≠ ServerBrowser.done) :
    ∃ fuel b, recvServers (delivered (msgs ++ [m])) fuel = some b ∧ b.reads = msgs.length + 1 ∧
      b.left = false ∧ b.printed = (msgs ++ [m]).map fun x => ServerBrowser.text x.bytes := by
  have hlen : (msgs ++ [m]).length = msgs.length + 1 := by simp
  have hwhole : ∀ k, ServerBrowser.Whole (msgs ++ [m]) k := fun k x hx =>
    Or.inl (hnul x (List.mem_of_getElem? hx))
  have hread : ∀ k (hk : k < (msgs ++ [m]).length),
      ServerBrowser.text (ServerBrowser.buffer ((msgs ++ [m]).take (k + 1))) =
        ServerBrowser.text (msgs ++ [m])[k].bytes := fun k hk =>
    (ServerBrowser.printed_eq_iff hk).mpr (hwhole k)
  have hstop : ServerBrowser.text (ServerBrowser.buffer ((msgs ++ [m]).take (msgs.length + 1))) =
      ServerBrowser.done := by
    rw [hread _ (by omega), List.getElem_concat_length rfl]
    exact hlast
  have hearlier : ∀ k, 1 ≤ k → k < msgs.length + 1 →
      ServerBrowser.text (ServerBrowser.buffer ((msgs ++ [m]).take k)) ≠ ServerBrowser.done := by
    intro k hk hlt
    obtain ⟨i, rfl⟩ := Nat.exists_eq_add_of_le' hk
    rw [hread i (by omega), List.getElem_append_left (by omega)]
    exact hmid _ (List.getElem_mem _)
  obtain ⟨fuel, hrun⟩ := ServerBrowser.recvServers_iff.mpr
    ⟨msgs.length + 1, Nat.le_add_left 1 _, hstop, hearlier, rfl⟩
  refine ⟨fuel, _, hrun, rfl, rfl, ?_⟩
  rw [(ServerBrowser.printed_iff _ _).mpr ⟨hlen.ge, fun k _ => hwhole k⟩,
    List.take_of_length_le hlen.le]

/-- The same for the buffers that hold the strings. -/
theorem recvServers_strings {calls : List (List Char × List Char)}
    (hplain : ∀ call ∈ calls, Plain call.2 ∧ call.2.length < defDatasize)
    (hdone : ∀ call ∈ calls, octets call.2 ≠ ServerBrowser.done) (last : List Char) :
    ∃ fuel b, recvServers (oneByOne ((calls ++ [(last, "done".toList)]).map fun call =>
        store call.1 call.2)) fuel = some b ∧
      b.reads = calls.length + 1 ∧ b.left = false ∧
      b.printed = (calls.map fun call => octets call.2) ++ [ServerBrowser.done] := by
  have hword : Plain "done".toList := by unfold Plain; decide
  obtain ⟨hnul, hlast⟩ := text_received hword (by decide) last
  have htexts : ∀ call ∈ calls, 0 ∈ (received call.1 call.2).bytes ∧
      ServerBrowser.text (received call.1 call.2).bytes = octets call.2 := fun call hcall =>
    text_received (hplain call hcall).1 (hplain call hcall).2 call.1
  have hnuls : ∀ x ∈ (calls.map fun call => received call.1 call.2) ++ [received last "done".toList],
      0 ∈ x.bytes := by
    intro x hx
    rcases List.mem_append.mp hx with hx | hx
    · obtain ⟨call, hcall, rfl⟩ := List.mem_map.mp hx
      exact (htexts call hcall).1
    · rw [List.mem_singleton.mp hx]
      exact hnul
  have hmid : ∀ x ∈ calls.map fun call => received call.1 call.2,
      ServerBrowser.text x.bytes ≠ ServerBrowser.done := by
    intro x hx
    obtain ⟨call, hcall, rfl⟩ := List.mem_map.mp hx
    rw [(htexts call hcall).2]
    exact hdone call hcall
  obtain ⟨fuel, b, hrun, hreads, hleft, hprinted⟩ := recvServers_messages hnuls hlast hmid
  refine ⟨fuel, b, ?_, by rw [hreads, List.length_map], hleft, ?_⟩
  · rw [← delivered_received, List.map_append]
    exact hrun
  · rw [hprinted, List.map_append, List.map_map, Function.comp_def,
      List.map_congr_left fun call hcall => (htexts call hcall).2, List.map_singleton, hlast]
    rfl

variable {result : ℕ → ℤ} {buffers : List (List Char)} {stream : ℕ → ConRead}

theorem sendings_length (result : ℕ → ℤ) (buffers : List (List Char)) :
    (Listing.of result buffers).sendings.length = buffers.length := List.length_mapIdx

theorem Conveys.result_eq (h : Conveys (.of result buffers) stream) {i : ℕ} (hi : i < buffers.length) :
    result i = defDatasize := by
  have hlen := sendings_length result buffers
  have hsent := h.sentWhole _ (List.getElem_mem (hlen.symm ▸ hi))
  simpa [Listing.of] using hsent

/-- The bytes of a listing that was sent whole. -/
theorem Conveys.wire (h : Conveys (.of result buffers) stream) :
    (Listing.of result buffers).wire =
      (buffers.map fun tcpData => octets (tcpData.take defDatasize)).flatten := by
  rw [Listing.wire]
  congr 1
  refine List.ext_getElem (by simp [Listing.of]) fun i hi hi' => ?_
  rw [List.length_map] at hi'
  simp [Listing.of, Sending.bytes, h.result_eq hi']

/-- Every message is received by a call of its own. -/
theorem Conveys.stream_eq (h : Conveys (.of result buffers) stream)
    (hbuffers : ∀ tcpData ∈ buffers, tcpData.length = defDatasize + 1) :
    ∀ i < buffers.length, stream i = oneByOne buffers i := by
  have hreads : ∀ i < buffers.length, (stream i).bytes.length = defDatasize := fun i hi =>
    h.readWhole i ((sendings_length result buffers).symm ▸ hi)
  have hprefix : ((List.range buffers.length).map fun i => (stream i).bytes) <+:
      buffers.map fun tcpData => octets (tcpData.take defDatasize) := by
    refine Slices.isPrefix_of_flatten (n := defDatasize) (by decide) ?_ ?_
      (h.wire ▸ h.inOrder buffers.length)
    · intro x hx
      obtain ⟨i, hi, rfl⟩ := List.mem_map.mp hx
      exact hreads i (List.mem_range.mp hi)
    · intro x hx
      obtain ⟨tcpData, hmem, rfl⟩ := List.mem_map.mp hx
      rw [octets, List.length_map, List.length_take, hbuffers tcpData hmem]
      exact Nat.min_eq_left (Nat.le_succ _)
  have hblocks := hprefix.eq_of_length (by simp)
  intro i hi
  have hblock := congrArg (·[i]?) hblocks
  simp only [List.getElem?_map, List.getElem?_range hi, List.getElem?_eq_getElem hi,
    Option.map_some, Option.some.injEq] at hblock
  rw [oneByOne, List.getElem?_eq_getElem hi, Option.elim_some, ← hblock]
  have hlen := hreads i hi
  cases hread : stream i with
  | data bytes => rfl
  | _ =>
    rw [hread] at hlen
    cases hlen

theorem line_ne_done (row : Row) : line row ≠ ServerBrowser.done := by
  intro h
  have hhead := congrArg List.head? h
  simp [line, rowText, columns, octets, ServerBrowser.done] at hhead

theorem header_spec : Plain (literal serverListHeader) ∧
    (literal serverListHeader).length < defDatasize - 1 ∧
      octets (literal serverListHeader) ≠ ServerBrowser.done := by
  unfold Plain
  decide +kernel

theorem store_length {buf text : List Char} (hbuf : buf.length = defDatasize + 1)
    (htext : text.length < defDatasize + 1) : (store buf text).length = defDatasize + 1 := by
  rw [store, List.length_append, List.length_cons, List.length_drop]
  omega

/-- The strings of a listing, with the buffers that they are put into. -/
theorem showServers_eq (hfits : ∀ row ∈ rows, RowFits row) {tcpData : List Char}
    (htcp : tcpData.length = defDatasize + 1) (result : ℕ → ℤ) : ∃ last : List Char,
      let calls := ((tcpData, literal serverListHeader) ::
        rows.map fun row => (List.replicate (defDatasize + 1) '\x00', rowText (columns row))) ++
          [(last, "done".toList)]
      (∀ call ∈ calls, (store call.1 call.2).length = defDatasize + 1) ∧
        showServers result tcpData rows =
          .ok (.of result (calls.map fun call => store call.1 call.2)) := by
  have hheader := snprintf_fits header_spec.2.1
  have hshort := header_spec.2.1
  have hdone : snprintf (defDatasize - 1) "done".toList = "done".toList := by decide
  have hsent : ∀ cols ∈ rows.map columns,
      (∀ col ∈ cols, '\x00' ∉ col) ∧ (rowText cols).length < buffSize - 1 := by
    intro cols hcols
    obtain ⟨row, hrow, rfl⟩ := List.mem_map.mp hcols
    exact ⟨fun col hcol => ((hfits row hrow).plain col hcol).nul_free, (hfits row hrow).short⟩
  simp only [showServers, ServersListing.sendRows_eq hsent, hheader, hdone]
  generalize literal serverListHeader = header at hshort ⊢
  have hfirst : (store tcpData header).length = defDatasize + 1 := store_length htcp (by omega)
  have hrows : ∀ cols ∈ rows.map columns,
      (store (List.replicate (defDatasize + 1) '\x00') (rowText cols)).length = defDatasize + 1 :=
    fun cols hcols => store_length List.length_replicate ((hsent cols hcols).2.trans (by decide))
  generalize hlast : ((rows.map columns).map fun cols =>
    store (List.replicate (defDatasize + 1) '\x00') (rowText cols)).getLastD (store tcpData header) =
      last
  have hlen : last.length = defDatasize + 1 := by
    have hmem : last ∈ store tcpData header :: (rows.map columns).map fun cols =>
        store (List.replicate (defDatasize + 1) '\x00') (rowText cols) :=
      hlast ▸ List.getLastD_mem_cons
    rcases List.mem_cons.mp hmem with rfl | hmem
    · exact hfirst
    · obtain ⟨cols, hcols, rfl⟩ := List.mem_map.mp hmem
      exact hrows cols hcols
  refine ⟨last, ?_, ?_⟩
  · intro call hcall
    simp only [List.cons_append, List.mem_cons, List.mem_append, List.mem_map, List.mem_nil_iff,
      or_false] at hcall
    rcases hcall with rfl | ⟨row, hrow, rfl⟩ | rfl
    · exact hfirst
    · exact hrows _ (List.mem_map_of_mem hrow)
    · exact store_length hlen (show 4 < defDatasize + 1 by decide)
  · rw [← hlast]
    simp only [List.map_append, List.map_cons, List.map_map, List.map_nil]
    rfl

theorem plain_columnsText {cols : List (List Char)} (hcols : ∀ col ∈ cols, Plain col) (first : Bool) :
    Plain (ServersListing.columnsText first cols) := by
  have hmark : ∀ c, c = '[' ∨ c = ' ' ∨ c = '|' ∨ c = ']' → 0 < c.toNat ∧ c.toNat < 256 := by
    rintro c (rfl | rfl | rfl | rfl) <;> decide
  induction cols generalizing first with
  | nil =>
    intro c hc
    cases hc
  | cons col cols ih =>
    refine Plain.append (fun c hc => ?_) (ih (fun col hcol => hcols col (List.mem_cons_of_mem _ hcol)) _)
    rw [ServersListing.columnText, List.mem_append, List.mem_cons, List.mem_append] at hc
    rcases hc with hc | rfl | hc | hc
    · cases first
      · cases hc
      · exact hmark c (Or.inl (List.mem_singleton.mp hc))
    · exact hmark _ (by simp)
    · exact hcols col List.mem_cons_self c hc
    · rcases List.mem_cons.mp hc with rfl | hc
      · exact hmark _ (by simp)
      · rw [List.mem_singleton] at hc
        split_ifs at hc
        · exact hmark c (Or.inr (Or.inr (Or.inr hc)))
        · exact hmark c (Or.inr (Or.inr (Or.inl hc)))

/-- Over a connection that conveys it, a listing is printed by the browser: the header, one line
for each row, and the closing text, with one read for each message. -/
def Shown (result : ℕ → ℤ) (tcpData : List Char) (rows : List Row) : Prop :=
  ∃ listing, showServers result tcpData rows = .ok listing ∧ ∀ stream, Conveys listing stream →
    listing.interrupted = false ∧ ∃ fuel b, recvServers stream fuel = some b ∧
      b.reads = rows.length + 2 ∧ b.left = false ∧
      b.printed = octets (literal serverListHeader) :: (rows.map line ++ [ServerBrowser.done])

theorem Conveys.not_interrupted (h : Conveys (.of result buffers) stream) :
    (Listing.of result buffers).interrupted = false := by
  simp only [Listing.of, List.any_eq_false, List.mem_range, decide_eq_true_eq, not_and]
  intro i hi hneg
  rw [h.result_eq (by omega)] at hneg
  exact absurd hneg (by decide)

/-- A listing of rows that fit is printed with one line for each of them. -/
theorem listing_printed (hfits : ∀ row ∈ rows, RowFits row) {tcpData : List Char}
    (htcp : tcpData.length = defDatasize + 1) (result : ℕ → ℤ) : Shown result tcpData rows := by
  obtain ⟨last, hbuffers, hsent⟩ := showServers_eq hfits htcp result
  obtain ⟨hplain, hshort, hne⟩ := header_spec
  rw [Shown, hsent]
  generalize literal serverListHeader = header at hplain hshort hne hbuffers ⊢
  have hcalls : ∀ call ∈ (tcpData, header) ::
      rows.map fun row => (List.replicate (defDatasize + 1) '\x00', rowText (columns row)),
        (Plain call.2 ∧ call.2.length < defDatasize) ∧ octets call.2 ≠ ServerBrowser.done := by
    intro call hcall
    rcases List.mem_cons.mp hcall with rfl | hcall
    · exact ⟨⟨hplain, hshort.trans (by decide)⟩, hne⟩
    · obtain ⟨row, hrow, rfl⟩ := List.mem_map.mp hcall
      refine ⟨⟨?_, (hfits row hrow).short.trans (by decide)⟩, line_ne_done row⟩
      rw [← ServersListing.columnsText_true]
      exact plain_columnsText (hfits row hrow).plain true
  refine ⟨_, rfl, fun stream hconveys => ⟨hconveys.not_interrupted, ?_⟩⟩
  obtain ⟨fuel, b, hrun, hreads, hleft, hprinted⟩ := recvServers_strings
    (fun call hcall => (hcalls call hcall).1) (fun call hcall => (hcalls call hcall).2) last
  rw [List.length_cons, List.length_map] at hreads
  have hsame := hconveys.stream_eq (List.forall_mem_map.mpr hbuffers)
  refine ⟨fuel, b, ServerBrowser.recvServers_congr (fun i hi => (hsame i ?_).symm) hrun, hreads,
    hleft, ?_⟩
  · rw [List.length_map, List.length_append, List.length_cons, List.length_map]
    exact hreads ▸ hi
  · rw [hprinted, List.map_cons, List.map_map]
    rfl

theorem plain_moduleTypeToString (type : UInt16) : Plain (moduleTypeToString type) := by
  unfold Plain moduleTypeToString
  split_ifs <;> decide

theorem plain_addr (peer : Peer) : Plain peer.addr := by
  intro c hc
  rcases peer.addr_text c hc with h | rfl
  · exact digit_range h
  · decide

theorem registeredName_sublist (s : List Char) : (registeredName s).Sublist s := by
  have hunquote : ∀ t : List Char, (unquote t).Sublist t := by
    intro t
    cases t with
    | nil => exact .slnil
    | cons q t =>
      rw [unquote]
      split_ifs
      · exact (List.dropLast_sublist t).cons q
      · exact .refl _
  refine (hunquote _).trans ?_
  unfold dropSeparator
  split
  · exact List.sublist_cons_self _ _
  · exact .refl _

theorem scanExtension_plain {buff text found : List Char} (hbuff : Plain buff)
    (htext : ∀ c ∈ text, c.toNat < 256) (h : scanExtension buff text = .ok found) : Plain found := by
  rw [scanExtension] at h
  split at h
  · cases h
    exact hbuff
  · rename_i word hword
    split_ifs at h
    cases h
    exact (plain_ofBuffer htext).sublist (scanWord_spec hword).1

theorem acceptorFunc_some {a : AddConArgs} {request : Request}
    (h : acceptorFunc order ext peer request = .ok (some a)) :
    ∃ found, scanExtension ext request.text = .ok found ∧ a = addConArgs order peer request found := by
  rw [acceptorFunc] at h
  split_ifs at h
  · cases hfound : scanExtension ext request.text with
    | error e =>
      rw [hfound] at h
      cases h
    | ok found =>
      rw [hfound] at h
      cases h
      exact ⟨found, rfl, rfl⟩
  · cases h

theorem rowText_length (row : Row) : (rowText (columns row)).length =
    row.serverType.length + (Nat.toDigits 10 row.serverId).length + row.serverName.length +
      row.serverIp.length + row.serverExtension.length + (Nat.toDigits 10 row.usingTls).length +
        19 := by
  simp [rowText, columns, List.intercalate, List.intersperse]
  omega

/-- What fits in the statement that inserts it fits in the buffer of a listing. -/
theorem rowFits_addConArgs (hext : Plain ext)
    (hlist : Listable db order (addConArgs order peer req.request ext)) :
    RowFits ((addConArgs order peer req.request ext).row order) := by
  have hname := registeredName_sublist (addConArgs order peer req.request ext).nameBuff
  constructor
  · intro col hcol
    simp only [columns, AddConArgs.row, List.mem_cons, List.not_mem_nil, or_false] at hcol
    rcases hcol with rfl | rfl | rfl | rfl | rfl | rfl
    · exact plain_moduleTypeToString _
    · exact plain_digits _
    · refine (plain_ofBuffer ?_).sublist (hname.trans (List.take_sublist _ _))
      exact fun c hc => req.bytes c (List.mem_of_mem_drop hc)
    · refine ((plain_addr peer).sublist (List.take_sublist _ _)).append fun c hc => ?_
      rcases List.mem_cons.mp hc with rfl | hc
      · decide
      · exact plain_digits _ c hc
    · exact hext
    · exact plain_digits _
  · have hfits := hlist.fits
    have hlen := hname.length_le
    have htmpl : insertServerTmpl.length = 27 := by decide
    rw [insertStatement, List.length_append, List.length_append, AddConArgs.text, entryText_length,
      htmpl] at hfits
    rw [rowText_length]
    simp only [AddConArgs.row, List.length_append, List.length_cons, pathsize, buffSize, defDatasize,
      List.length_nil] at hfits ⊢
    omega

theorem start_kept (order : ByteOrder) (n : ℕ) : Kept order (.start n) :=
  ⟨InterlvlCom.start_kept order n, fun _ hc => (List.not_mem_nil hc).elim, fun _ _ h => by cases h⟩

theorem Kept.log (h : Kept order o) (hdoc : Documented db) (hn : 2 ≤ n) (hext : Plain ext)
    (hok : Accepted db order o.directory (.log peer req.request ext)) :
    Kept order ⟨o.directory.log db order peer req.request ext, ext⟩ := by
  refine ⟨h.directory.step hdoc hn _ hok, hext, fun fd con hcon => ?_⟩
  by_cases hopen : o.directory.overseer.IsOpen peer.sock
  · rw [Directory.log, if_pos hopen] at hcon
    exact h.fits fd con hcon
  · rw [Directory.log, if_neg hopen, State.step] at hcon
    simp only [registeredCon, hopen, ↓reduceIte] at hcon
    by_cases hfd : fd = peer.sock
    · rw [hfd, Function.update_self] at hcon
      cases hcon
      exact rowFits_addConArgs hext (hok hopen).2
    · rw [Function.update_of_ne hfd] at hcon
      exact h.fits fd con hcon

theorem Kept.watch (h : Kept order o) (hdoc : Documented db) (hn : 2 ≤ n) (heartbeat : Heartbeat) :
    Kept order ⟨o.directory.watch db heartbeat, o.extensionBuff⟩ := by
  refine ⟨h.directory.step hdoc hn (.watchDog heartbeat) trivial, h.extension, fun fd con hcon => ?_⟩
  have hreg : (o.directory.overseer.watch heartbeat).registered = o.directory.overseer.registered := by
    unfold State.watch
    split <;> rfl
  exact h.fits fd con (hreg ▸ hcon)

theorem Kept.step (h : Kept order o) (hdoc : Documented db) (hn : 2 ≤ n) {e : Event}
    (hok : Admits db order o e) (step : Steps db order o e o') : Kept order o' := by
  cases e with
  | watchDog heartbeat =>
    cases step
    exact h.watch hdoc hn heartbeat
  | request peer req =>
    simp only [Steps, Overseer.step] at step
    cases hacc : acceptorFunc order o.extensionBuff peer req.request with
    | error e =>
      rw [hacc] at step
      cases step
    | ok args =>
      rw [hacc] at step
      cases args with
      | none =>
        cases step
        exact h
      | some a =>
        obtain ⟨found, hfound, rfl⟩ := acceptorFunc_some hacc
        cases step
        exact h.log hdoc hn (scanExtension_plain h.extension req.bytes hfound) (hok _ hacc)

theorem run_kept (hdoc : Documented db) (hn : 2 ≤ n) {events : List Event}
    (run : Run (Guarded (Admits db order) (Steps db order)) (.start n) events o) : Kept order o :=
  run.invariant (Kept order) (start_kept order n) fun _ _ _ h step => h.step hdoc hn step.1 step.2

theorem Kept.rows_fit (h : Kept order o) (hrows : rows.Perm o.directory.rows) :
    ∀ row ∈ rows, RowFits row := by
  intro row hrow
  obtain ⟨i, -, con, hcon, -, rfl⟩ := (h.directory.agrees.mem_iff row).mp (hrows.mem_iff.mp hrow)
  exact h.fits _ con hcon

def Overseer.Holds (o : Overseer n) (fd : ℤ) : Prop := fd ∈ o.directory.overseer.cons.fdArr.toList

instance (o : Overseer n) (fd : ℤ) : Decidable (o.Holds fd) := inferInstanceAs (Decidable (_ ∈ _))

/-- The row of a server, in what it has sent and the address that it is known by. -/
def rowOf (peer : Peer) (r : Registration) : Row :=
  ⟨moduleTypeToString r.type.value, peer.sock, unquote r.name,
    peer.addr ++ ':' :: Nat.toDigits 10 r.port.toNat, r.extension, r.isTls.toNat⟩

/-- A server whose extension and name are found again by `acceptor_func`. -/
structure Found (r : Registration) : Prop where
  pos : 1 ≤ r.extension.length
  short : r.extension.length ≤ 4
  bytes : ∀ c ∈ r.extension ++ r.name, c.toNat < 256

theorem Found.received {r : Registration} (h : Found r) (order : ByteOrder) :
    ∀ c ∈ (slaveThread order r).text, c.toNat < 256 := by
  intro c hc
  rw [text_eq, toBuffer, List.mem_append, List.mem_append, List.mem_cons] at hc
  rcases hc with (hc | rfl | hc) | hc
  · exact h.bytes c (List.mem_append_left _ hc)
  · decide
  · exact h.bytes c (List.mem_append_right _ hc)
  · rw [List.eq_of_mem_replicate hc]
    decide

theorem Found.row_eq {r : Registration} (h : Found r) (order : ByteOrder) (peer : Peer) :
    (addConArgs order peer (slaveThread order r) r.extension).row order = rowOf peer r := by
  have hfits := r.fits
  have hname : (addConArgs order peer (slaveThread order r) r.extension).nameBuff = ' ' :: r.name := by
    rw [addConArgs, nameBuff_eq (by simp), Nat.min_eq_left h.short, List.drop_left]
  have hip : snprintf (pathsize / 4 - 1) peer.addr = peer.addr :=
    snprintf_fits (lt_of_le_of_lt peer.addr_length (by decide))
  rw [AddConArgs.row, hname]
  simp only [addConArgs, hip, rowOf, registeredName, dropSeparator, slaveThread]
  simp

theorem Found.args {r : Registration} (h : Found r) (order : ByteOrder) (buff : List Char)
    (peer : Peer) : acceptorFunc order buff peer (slaveThread order r) =
      .ok (some (addConArgs order peer (slaveThread order r) r.extension)) := by
  rw [acceptorFunc_eq, scanExtension_eq, if_pos (List.length_pos_iff.mp h.pos)]
  rfl

theorem oneByOne_flatten (buffers : List (List Char)) (n : ℕ) :
    ((List.range n).map fun i => (oneByOne buffers i).bytes).flatten =
      ((buffers.take n).map fun tcpData => octets (tcpData.take defDatasize)).flatten := by
  induction n with
  | zero => rfl
  | succ n ih =>
    rw [List.range_succ, List.map_append, List.flatten_append, ih, List.map_singleton,
      List.flatten_singleton, oneByOne]
    by_cases hn : n < buffers.length
    · rw [List.getElem?_eq_getElem hn, ← List.take_concat_get' _ _ hn, List.map_append,
        List.flatten_append]
      simp [ServerBrowser.ConRead.bytes]
    · rw [List.getElem?_eq_none (Nat.le_of_not_lt hn), List.take_of_length_le (by omega),
        List.take_of_length_le (by omega)]
      exact List.append_nil _

/-- A connection that moves whole messages conveys every listing. -/
theorem oneByOne_conveys (hresult : ∀ i, result i = defDatasize)
    (hbuffers : ∀ tcpData ∈ buffers, tcpData.length = defDatasize + 1) :
    Conveys (.of result buffers) (oneByOne buffers) := by
  have hsent : ∀ s ∈ (Listing.of result buffers).sendings, s.result = defDatasize := by
    intro s hs
    obtain ⟨i, hi, rfl⟩ := List.mem_mapIdx.mp hs
    exact hresult i
  refine ⟨fun n => ?_, hsent, fun i hi => ?_⟩
  · rw [oneByOne_flatten, Listing.wire, Listing.of]
    have hwire : (buffers.mapIdx fun i tcpData => (⟨tcpData, result i⟩ : Sending)).map Sending.bytes =
        buffers.map fun tcpData => octets (tcpData.take defDatasize) := by
      refine List.ext_getElem (by simp) fun i hi hi' => ?_
      simp [Sending.bytes, hresult i]
    rw [hwire]
    obtain ⟨rest, hrest⟩ := (List.take_prefix n buffers)
    refine ⟨(rest.map fun tcpData => octets (tcpData.take defDatasize)).flatten, ?_⟩
    rw [← List.flatten_append, ← List.map_append, hrest]
  · rw [sendings_length] at hi
    rw [oneByOne, List.getElem?_eq_getElem hi, Option.elim_some, ServerBrowser.ConRead.bytes, octets,
      List.length_map, List.length_take, hbuffers _ (List.getElem_mem hi)]
    exact Nat.min_eq_left (Nat.le_succ _)


/-- Every listing is conveyed by some connection. -/
theorem conveyed (hfits : ∀ row ∈ rows, RowFits row) {listing : Listing}
    (hlisting : showServers (fun _ => defDatasize) (List.replicate (defDatasize + 1) '\x00') rows =
      .ok listing) : ∃ stream, Conveys listing stream := by
  obtain ⟨last, hbuffers, hsent⟩ := showServers_eq hfits List.length_replicate fun _ =>
    (defDatasize : ℤ)
  cases hsent.symm.trans hlisting
  exact ⟨_, oneByOne_conveys (fun _ => rfl) (List.forall_mem_map.mpr hbuffers)⟩

/-- A server registers, whatever extension was found before. -/
theorem registers {r : Registration} (hr : Found r)
    (hok : Accepted db order o.directory (.log peer (slaveThread order r) r.extension)) :
    Guarded (Admits db order) (Steps db order) o (.request peer ⟨slaveThread order r, hr.received order⟩)
      ⟨o.directory.log db order peer (slaveThread order r) r.extension, r.extension⟩ := by
  have hargs := hr.args order o.extensionBuff peer
  refine ⟨fun a ha => ?_, ?_⟩
  · cases hargs.symm.trans ha
    exact hok
  · rw [Steps, Overseer.step, hargs]
    rfl

def watched (db : Sqlite) (o : Overseer n) (heartbeat : Heartbeat) : Overseer n :=
  ⟨o.directory.watch db heartbeat, o.extensionBuff⟩

/-- Rounds of the watchdog, with a connection in the set. -/
theorem watches {fd : ℤ} (heartbeats : List Heartbeat)
    (hheld : Along (watched db) (fun o _ => o.Holds fd) o heartbeats) :
    Run (Guarded (fun s e => Admits db order s e ∧ s.Holds fd) (Steps db order)) o
      (heartbeats.map Event.watchDog) (heartbeats.foldl (watched db) o) := by
  induction heartbeats generalizing o with
  | nil => exact .nil o
  | cons heartbeat heartbeats ih =>
    obtain ⟨hfd, hheld⟩ := hheld
    exact (Run.one (guarded (show Steps db order o (.watchDog heartbeat) (watched db o heartbeat) from rfl)
      ⟨trivial, hfd⟩)).trans (ih hheld)


theorem ola_text : '\x00' ∉ "\"ola\"".toList := by decide
theorem ola_length : "\"ola\"".toList.length < 200 := by decide
theorem adeus_text : '\x00' ∉ "\"adeus\"".toList := by decide
theorem adeus_length : "\"adeus\"".toList.length < 200 := by decide

def ola : Registration := wavServer "\"ola\"".toList ola_text ola_length
def adeus : Registration := wavServer "\"adeus\"".toList adeus_text adeus_length

theorem ola_found : Found ola := ⟨by decide, by decide, by decide⟩
theorem adeus_found : Found adeus := ⟨by decide, by decide, by decide⟩

/-- Two servers register, and the first one is lost. -/
def olaListed : Overseer 3 :=
  ⟨(Directory.start 3).log literalSqlite .littleEndian localPeer (slaveThread .littleEndian ola)
    ola.extension, ola.extension⟩
def bothListed : Overseer 3 :=
  ⟨olaListed.directory.log literalSqlite .littleEndian secondPeer (slaveThread .littleEndian adeus)
    adeus.extension, adeus.extension⟩
def adeusListed : Overseer 3 := (List.replicate 5 ⟨-1, []⟩).foldl (watched literalSqlite) bothListed

theorem ola_registers : Guarded (Admits literalSqlite .littleEndian)
    (Steps literalSqlite .littleEndian) (.start 3)
      (.request localPeer ⟨slaveThread .littleEndian ola, ola_found.received _⟩) olaListed :=
  registers ola_found fun _ => ⟨⟨1, by decide, by decide, rfl⟩, by decide, by decide, by decide⟩

theorem adeus_registers : Guarded (Admits literalSqlite .littleEndian)
    (Steps literalSqlite .littleEndian) olaListed
      (.request secondPeer ⟨slaveThread .littleEndian adeus, adeus_found.received _⟩) bothListed :=
  registers adeus_found fun _ =>
    ⟨⟨2, by decide, by decide, by decide +kernel⟩, by decide, by decide, by decide⟩

theorem ola_lost : Run (Guarded (fun s e => Admits literalSqlite .littleEndian s e ∧
    s.Holds secondPeer.sock) (Steps literalSqlite .littleEndian)) bothListed
      ((List.replicate 5 ⟨-1, []⟩).map Event.watchDog) adeusListed :=
  watches _ (by decide +kernel)

/-- In every run whose registrations are accepted, a listing that the connection conveys is printed
by the browser that has asked for it, with one line for each occupied slot: that of the server
registered with its descriptor. The rows come in any order. -/
theorem listing_shown {db : Sqlite} (hdoc : Documented db) {order : ByteOrder} {n : ℕ} (hn : 2 ≤ n)
    {events : List Event} {o : Overseer n}
    (run : Run (Guarded (Admits db order) (Steps db order)) (.start n) events o) {rows : List Row}
    (hrows : rows.Perm o.directory.rows) {tcpData : List Char}
    (htcp : tcpData.length = defDatasize + 1) (result : ℕ → ℤ) :
    Shown result tcpData rows ∧ (rows.map Row.serverId).Nodup ∧ ∀ row, row ∈ rows ↔ ∃ i, o.directory.overseer.cons.fd i ≠ 0 ∧
        ∃ con, o.directory.overseer.registered (o.directory.overseer.cons.fd i) = some con ∧
          con.data.id = o.directory.overseer.cons.fd i ∧ row = con.data.row order := by
  have hkept := run_kept hdoc hn run
  have hagrees := hkept.directory.agrees
  refine ⟨listing_printed (hkept.rows_fit hrows) htcp result, ?_, fun row => ?_⟩
  · exact (hrows.map Row.serverId).nodup_iff.mpr hagrees.distinct
  · exact hrows.mem_iff.trans (hagrees.mem_iff row)

/-- The second server is shown when the first one is lost. -/
theorem listing_shown_adeus : ∃ (events : List Event) (o : Overseer 3),
    Run (Guarded (Admits literalSqlite .littleEndian) (Steps literalSqlite .littleEndian)) (.start 3)
      events o ∧ ∃ listing, showServers (fun _ => defDatasize) (List.replicate (defDatasize + 1) '\x00')
        o.directory.rows = .ok listing ∧ ∃ stream, Conveys listing stream ∧ ∃ fuel b,
          recvServers stream fuel = some b ∧
            b.printed = [octets (literal serverListHeader),
              octets "[ server_mod | 5 | adeus | 127.0.0.2:9000 | .wav | 0 ]".toList,
              ServerBrowser.done] := by
  have run := (Run.one ola_registers).snoc adeus_registers |>.trans
    (ola_lost.mono fun _ _ _ h => guarded h.2 h.1.1)
  have hline : adeusListed.directory.rows.map line =
      [octets "[ server_mod | 5 | adeus | 127.0.0.2:9000 | .wav | 0 ]".toList] := by decide +kernel
  obtain ⟨⟨listing, hlisting, hshown⟩, -⟩ := listing_shown literalSqlite_documented (by decide) run
    (.refl _) (List.length_replicate (n := defDatasize + 1) (a := '\x00')) fun _ => (defDatasize : ℤ)
  obtain ⟨stream, hconveys⟩ := conveyed ((run_kept literalSqlite_documented (by decide) run).rows_fit (.refl _)) hlisting
  obtain ⟨-, fuel, b, hrun, -, -, hprinted⟩ := hshown stream hconveys
  refine ⟨_, _, run, listing, hlisting, stream, hconveys, fuel, b, hrun, hprinted.trans ?_⟩
  rw [hline]
  rfl

/-- Nothing else is registered with a descriptor as long as it is in the set. -/
theorem registered_step {e : Event} {fd : ℤ} {con : Con AddConArgs} (hheld : o.Holds fd)
    (hcon : o.directory.overseer.registered fd = some con) (step : Steps db order o e o') :
    o'.directory.overseer.registered fd = some con := by
  cases e with
  | watchDog heartbeat =>
    cases step
    rw [← hcon]
    change (o.directory.overseer.watch heartbeat).registered fd = _
    unfold State.watch
    split <;> rfl
  | request peer req =>
    simp only [Steps, Overseer.step] at step
    cases hacc : acceptorFunc order o.extensionBuff peer req.request with
    | error e =>
      rw [hacc] at step
      cases step
    | ok args =>
      rw [hacc] at step
      cases args with
      | none =>
        cases step
        exact hcon
      | some a =>
        cases step
        by_cases hopen : o.directory.overseer.IsOpen peer.sock
        · simpa only [Directory.log, if_pos hopen] using hcon
        · have hne : fd ≠ peer.sock := fun he => hopen (Or.inr (he ▸ hheld))
          simpa only [Directory.log, if_neg hopen, State.step, registeredCon, hopen, ↓reduceIte,
            Function.update_of_ne hne] using hcon

theorem filter_id_eq (hnodup : (rows.map Row.serverId).Nodup) (hrow : row ∈ rows) :
    rows.filter (·.serverId = row.serverId) = [row] := by
  induction rows with
  | nil => cases hrow
  | cons first rest ih =>
    rw [List.map_cons, List.nodup_cons] at hnodup
    rcases List.mem_cons.mp hrow with rfl | hrest
    · rw [List.filter_cons_of_pos (by simp), List.filter_eq_nil_iff.mpr]
      intro other hother hid
      exact hnodup.1 (List.mem_map.mpr ⟨other, hother, of_decide_eq_true hid⟩)
    · have hne : first.serverId ≠ row.serverId := fun he =>
        hnodup.1 (List.mem_map.mpr ⟨row, hrest, he.symm⟩)
      rw [List.filter_cons_of_neg (by simpa using hne), ih hnodup.2 hrest]

/-- Once a server is registered, every listing that its connection conveys shows what the server has
sent, in one line, until the watchdog has taken it out of the set. -/
theorem registration_listed {db : Sqlite} (hdoc : Documented db) {order : ByteOrder} {n : ℕ}
    (hn : 2 ≤ n) {r : Registration} (hr : Found r) {peer : Peer} {events later : List Event}
    {o o₁ o₂ : Overseer n}
    (run : Run (Guarded (Admits db order) (Steps db order)) (.start n) events o)
    (hnew : ¬o.directory.overseer.IsOpen peer.sock)
    (step : Guarded (Admits db order) (Steps db order) o
      (.request peer ⟨slaveThread order r, hr.received order⟩) o₁)
    (run₁ : Run (Guarded (fun s e => Admits db order s e ∧ s.Holds peer.sock) (Steps db order)) o₁
      later o₂)
    (hheld : o₂.Holds peer.sock) {rows : List Row} (hrows : rows.Perm o₂.directory.rows)
    {tcpData : List Char} (htcp : tcpData.length = defDatasize + 1) (result : ℕ → ℤ) :
    Shown result tcpData rows ∧ rows.filter (·.serverId = peer.sock) = [rowOf peer r] := by
  have hkept := (run_kept hdoc hn run).step hdoc hn step.1 step.2
  have hstep : o₁ = ⟨o.directory.log db order peer (slaveThread order r) r.extension, r.extension⟩ := by
    have hrun := step.2
    simp only [Steps, Overseer.step, hr.args] at hrun
    exact (Except.ok.inj hrun).symm
  have hcon : o₁.directory.overseer.registered peer.sock =
      some (registeredCon order peer (slaveThread order r) r.extension) := by
    rw [hstep, Directory.log, if_neg hnew, State.step]
    simp only [registeredCon, hnew, ↓reduceIte, Function.update_self]
  obtain ⟨hkept₂, hcon₂⟩ := run₁.invariant
    (fun s => Kept order s ∧ s.directory.overseer.registered peer.sock =
      some (registeredCon order peer (slaveThread order r) r.extension)) ⟨hkept, hcon⟩
    fun _ _ _ h step => ⟨h.1.step hdoc hn step.1.1 step.2, registered_step step.1.2 h.2 step.2⟩
  have hagrees := hkept₂.directory.agrees
  have hshown := listing_printed (hkept₂.rows_fit hrows) htcp result
  have hrow : rowOf peer r ∈ rows := by
    obtain ⟨i, hi, hfd⟩ := Vector.getElem_of_mem (Vector.mem_toList_iff.mp hheld)
    have hfd' : o₂.directory.overseer.cons.fd i = peer.sock := (fd_eq hi).trans hfd
    refine hrows.mem_iff.mpr ((hagrees.mem_iff _).mpr ⟨i, ?_, _, hfd' ▸ hcon₂, hfd'.symm, ?_⟩)
    · rw [hfd']
      exact fun hz => hnew (Or.inl hz.le)
    · exact (hr.row_eq order peer).symm
  have hdistinct : (rows.map Row.serverId).Nodup :=
    (hrows.map Row.serverId).nodup_iff.mpr hagrees.distinct
  exact ⟨hshown, filter_id_eq hdistinct hrow⟩

theorem registration_listed_adeus : ∃ (o : Overseer 3), o.Holds secondPeer.sock ∧
    ¬o.Holds localPeer.sock ∧
      Shown (fun _ => defDatasize) (List.replicate (defDatasize + 1) '\x00') o.directory.rows ∧
      o.directory.rows.filter (·.serverId = secondPeer.sock) = [rowOf secondPeer adeus] := by
  have hheld : adeusListed.Holds secondPeer.sock := by decide +kernel
  exact ⟨_, hheld, by decide +kernel, registration_listed literalSqlite_documented (by decide)
    adeus_found (.one ola_registers) (by decide +kernel) adeus_registers ola_lost hheld (.refl _)
      (List.length_replicate (n := defDatasize + 1) (a := '\x00')) fun _ => (defDatasize : ℤ)⟩

end EmotionStreamer.ServersShown
