import EmotionStreamer.CStrings
import EmotionStreamer.FirstSeen

/-! The addresses that the client remembers from session to session in `.prev.addr`. -/
namespace EmotionStreamer.AddressCache
open CStrings FirstSeen

def prevAddrCacheMax : ℕ := 80

/-- `hostname` is the whole array. -/
structure IpCacheEntry where
  hostname : List Char
  port : UInt16
  deriving DecidableEq, Repr

/-- An entry of zero bytes. -/
def zeroEntry : IpCacheEntry := ⟨List.replicate pathsize '\x00', 0⟩

/-- `%s:%hu\n` -/
def encodeIpCacheEntry (ent : IpCacheEntry) : List Char :=
  ofBuffer ent.hostname ++ ':' :: (Nat.toDigits 10 ent.port.toNat ++ ['\n'])

/-- `%[^:]:%hu` -/
def parseIpCacheEntry (str : List Char) (ent : IpCacheEntry) : IpCacheEntry :=
  let host := str.takeWhile (· ≠ ':')
  if host = [] then ent
  else
    let ent := { ent with hostname := store ent.hostname host }
    match str.dropWhile (· ≠ ':') with
    | [] => ent
    | _ :: rest =>
      match scanHu rest with
      | none => ent
      | some port => { ent with port := port }

/-- `ips` has room for `prevAddrCacheMax` entries. -/
structure IpCache where
  ips : List IpCacheEntry
  numOfAddr : ℕ
  deriving DecidableEq, Repr

/-- The index at which `memcmp` finds the entry. -/
def findIpAddrEntry (ent : IpCacheEntry) (cache : IpCache) : Option ℕ :=
  (cache.ips.take cache.numOfAddr).findIdx? (· = ent)

def insertIpAddrEntry (ent : IpCacheEntry) (cache : IpCache) : IpCache :=
  if prevAddrCacheMax ≤ cache.numOfAddr then cache
  else if (findIpAddrEntry ent cache).isSome then cache
  else ⟨cache.ips.set cache.numOfAddr ent, cache.numOfAddr + 1⟩

def encodeIpCache (cache : IpCache) : List Char :=
  (cache.ips.take cache.numOfAddr).flatMap encodeIpCacheEntry

/-- `populate_ip_addr_cache` on a file that exists. A line too many is parsed into what is
behind the entries. -/
def initIpAddrCache (file : List Char) : Option IpCache :=
  let lines := fgetsAll (pathsize * 2) [] file
  if lines.length ≤ prevAddrCacheMax then
    some ⟨lines.map (parseIpCacheEntry · zeroEntry) ++
      List.replicate (prevAddrCacheMax - lines.length) zeroEntry, lines.length⟩
  else none

def serverIpAddressKey : List Char := "server_ip_address:".toList
def prevAddrString : List Char := "prev_addr".toList

/-- `sscanf(curr_line_buff,"server_ip_address: %s", server_ip_address_buff)` -/
def serverIpAddressBuff (line : List Char) : List Char :=
  match (ofBuffer line).dropPrefix? serverIpAddressKey with
  | none => []
  | some rest => (scanWord rest).getD []

/-- A session: the line of the configuration as `fgets` has read it, and whether the address
is resolved and connected to. -/
structure Session where
  line : List Char
  line_length : line.length < pathsize
  connected : Bool

/-- With this instead of an address, the client tries the ones that it remembers. -/
def Session.cacheAsked (s : Session) : Bool := serverIpAddressBuff s.line = prevAddrString

def Session.serverIpCacheEntry (s : Session) : IpCacheEntry :=
  parseIpCacheEntry (serverIpAddressBuff s.line) zeroEntry

/-- The file behind a session, and whether an address has been looked up and was new. -/
structure Outcome where
  file : List Char
  isNew : Option Bool

def clientStart (s : Session) (file : List Char) : Option Outcome := do
  let cache ← initIpAddrCache file
  if s.cacheAsked then return ⟨file, none⟩
  let isNew := (findIpAddrEntry s.serverIpCacheEntry cache).isNone
  if s.connected && isNew then
    return ⟨encodeIpCache (insertIpAddrEntry s.serverIpCacheEntry cache), some isNew⟩
  return ⟨file, some isNew⟩

/-- The sessions one after the other, from an empty file on. -/
def sessions (ss : List Session) : Option (List Char) :=
  ss.foldlM (fun file s => (clientStart s file).map Outcome.file) []

/-- The addresses in a file, line by line. -/
def listedIn (file : List Char) : List IpCacheEntry :=
  (fgetsAll (pathsize * 2) [] file).map (parseIpCacheEntry · zeroEntry)

/-- The addresses of the sessions that come to insert theirs. -/
def inserted (ss : List Session) : List IpCacheEntry :=
  (ss.filter fun s => s.connected && !s.cacheAsked).map Session.serverIpCacheEntry

/-- What the client remembers of its sessions. -/
structure Remembers (ss : List Session) (file : List Char) : Prop where
  listed : listedIn file = (inserted ss).eraseDups.take prevAddrCacheMax
  distinct : (listedIn file).Nodup
  bounded : (listedIn file).length ≤ prevAddrCacheMax
  kept : ∀ pre, pre <+: ss → ∃ old, sessions pre = some old ∧
    listedIn old <+: listedIn file
  loaded : ∃ cache, file = encodeIpCache cache ∧ initIpAddrCache file = some cache ∧
    cache.ips.take cache.numOfAddr = listedIn file
  reported : ∀ s, (clientStart s file).map Outcome.isNew =
    some (if s.cacheAsked then none else some (decide (s.serverIpCacheEntry ∉ listedIn file)))

/-- An entry with a host before the colon, or of zero bytes; behind the terminator, its
array is zero. -/
def IsAddress (ent : IpCacheEntry) : Prop :=
  ∃ host, ent.hostname = toBuffer pathsize host ∧ host.length < pathsize ∧
    (∀ c ∈ host, c ≠ ':' ∧ c ≠ '\n' ∧ c ≠ '\x00') ∧ (host = [] → ent.port = 0)

variable {ent : IpCacheEntry} {ents : List IpCacheEntry} {s : Session}

theorem parse_isAddress {str : List Char} (htext : ∀ c ∈ str, c ≠ '\n' ∧ c ≠ '\x00')
    (hlen : str.length < pathsize) : IsAddress (parseIpCacheEntry str zeroEntry) := by
  have hhost : (str.takeWhile (· ≠ ':')).length < pathsize :=
    (List.takeWhile_sublist _).length_le.trans_lt hlen
  have hchars : ∀ c ∈ str.takeWhile (· ≠ ':'), c ≠ ':' ∧ c ≠ '\n' ∧ c ≠ '\x00' := by
    intro c hc
    have hne := List.mem_takeWhile_imp hc
    exact ⟨of_decide_eq_true hne, htext c ((List.takeWhile_prefix _).subset hc)⟩
  rw [parseIpCacheEntry]
  split_ifs with hnil
  · exact ⟨[], rfl, by decide, fun c hc => absurd hc List.not_mem_nil, fun _ => rfl⟩
  · refine ⟨str.takeWhile (· ≠ ':'), ?_, hhost, hchars, fun he => absurd he hnil⟩
    have hstore := store_zeros hhost
    split
    · exact hstore
    · split <;> exact hstore

theorem IsAddress.host (h : IsAddress ent) : ∃ host, ofBuffer ent.hostname = host ∧
    ent.hostname = toBuffer pathsize host ∧ host.length < pathsize ∧
    (∀ c ∈ host, c ≠ ':' ∧ c ≠ '\n' ∧ c ≠ '\x00') ∧ (host = [] → ent.port = 0) := by
  obtain ⟨host, hname, hrest⟩ := h
  refine ⟨host, ?_, hname, hrest⟩
  rw [hname]
  exact ofBuffer_toBuffer (fun hc => (hrest.2.1 _ hc).2.2 rfl) _

/-- Encoder and parser are inverse. -/
theorem parse_encode (h : IsAddress ent) :
    parseIpCacheEntry (encodeIpCacheEntry ent) zeroEntry = ent := by
  obtain ⟨host, htext, hname, hlen, hchars, hport⟩ := h.host
  have hcolon : ∀ c ∈ host, decide (c ≠ ':') = true := fun c hc => decide_eq_true (hchars c hc).1
  have hend : decide (':' ≠ ':') = false := by decide
  rw [parseIpCacheEntry, encodeIpCacheEntry, htext, takeWhile_append_cons hcolon hend,
    dropWhile_append_cons hcolon hend]
  split_ifs with hnil
  · cases ent
    cases hport hnil
    rw [hnil] at hname
    cases hname
    rfl
  · have hstore : store zeroEntry.hostname host = ent.hostname := (store_zeros hlen).trans hname.symm
    simp only [scanHu_toDigits ent.port (by decide : Char.isDigit '\n' = false) [], hstore]

theorem encode_length (h : IsAddress ent) :
    (ofBuffer ent.hostname ++ ':' :: Nat.toDigits 10 ent.port.toNat).length + 1 < pathsize * 2 := by
  obtain ⟨host, htext, -, hlen, hchars, -⟩ := h.host
  have hdigits : (Nat.toDigits 10 ent.port.toNat).length ≤ 5 := by
    have hlt := ent.port.toNat_lt
    exact (Nat.length_toDigits_le_iff (by decide) (by decide)).mpr (by omega)
  rw [htext, List.length_append, List.length_cons]
  simp only [pathsize] at hlen ⊢
  omega

theorem encode_newline (h : IsAddress ent) :
    '\n' ∉ ofBuffer ent.hostname ++ ':' :: Nat.toDigits 10 ent.port.toNat := by
  obtain ⟨host, htext, -, hlen, hchars, -⟩ := h.host
  rw [htext]
  intro hmem
  rcases List.mem_append.mp hmem with hc | hc
  · exact (hchars _ hc).2.1 rfl
  · rcases List.mem_cons.mp hc with hc | hc
    · exact absurd hc (by decide)
    · exact absurd (Nat.isDigit_of_mem_toDigits (by decide) (by decide) hc) (by decide)

/-- A file of addresses is read as these addresses. -/
theorem fgetsAll_encode (h : ∀ ent ∈ ents, IsAddress ent) :
    fgetsAll (pathsize * 2) [] (ents.flatMap encodeIpCacheEntry) = ents.map encodeIpCacheEntry := by
  induction ents with
  | nil => rfl
  | cons ent ents ih =>
    have hent := h ent List.mem_cons_self
    have hline : encodeIpCacheEntry ent ++ ents.flatMap encodeIpCacheEntry =
        (ofBuffer ent.hostname ++ ':' :: Nat.toDigits 10 ent.port.toNat) ++
          '\n' :: ents.flatMap encodeIpCacheEntry := by
      simp only [encodeIpCacheEntry, List.append_assoc, List.cons_append, List.nil_append]
    have hlength := encode_length hent
    rw [List.flatMap_cons, hline, fgetsAll_line (encode_newline hent), List.map_cons,
      ih fun e he => h e (List.mem_cons_of_mem _ he)]
    · simp only [encodeIpCacheEntry, List.append_assoc, List.cons_append, List.nil_append]
    · rw [List.length_nil]
      omega

theorem listedIn_encode (h : ∀ ent ∈ ents, IsAddress ent) :
    listedIn (ents.flatMap encodeIpCacheEntry) = ents := by
  rw [listedIn, fgetsAll_encode h, List.map_map, List.map_congr_left (g := id), List.map_id]
  exact fun e he => parse_encode (h e he)

/-- The cache with these addresses. -/
def cacheOf (ents : List IpCacheEntry) : IpCache :=
  ⟨ents ++ List.replicate (prevAddrCacheMax - ents.length) zeroEntry, ents.length⟩

theorem cacheOf_take (ents : List IpCacheEntry) :
    (cacheOf ents).ips.take (cacheOf ents).numOfAddr = ents := List.take_left

theorem encodeIpCache_cacheOf (ents : List IpCacheEntry) :
    encodeIpCache (cacheOf ents) = ents.flatMap encodeIpCacheEntry := by
  rw [encodeIpCache, cacheOf_take]

/-- Loading what has been saved gives the same cache. -/
theorem initIpAddrCache_encode (h : ∀ ent ∈ ents, IsAddress ent)
    (hlen : ents.length ≤ prevAddrCacheMax) :
    initIpAddrCache (ents.flatMap encodeIpCacheEntry) = some (cacheOf ents) := by
  have hlisted := listedIn_encode h
  rw [listedIn, fgetsAll_encode h] at hlisted
  simp only [initIpAddrCache, fgetsAll_encode h, List.length_map, hlen, ↓reduceIte, hlisted]
  rfl

theorem findIpAddrEntry_cacheOf (ent : IpCacheEntry) (ents : List IpCacheEntry) :
    (findIpAddrEntry ent (cacheOf ents)).isNone = decide (ent ∉ ents) := by
  rw [findIpAddrEntry, cacheOf_take, List.findIdx?_isNone, Bool.eq_iff_iff, decide_eq_true_eq]
  simp only [List.all_eq_true, decide_eq_true_eq]
  constructor
  · exact fun h hmem => h ent hmem rfl
  · rintro h e he rfl
    exact h he

theorem insertIpAddrEntry_cacheOf (ent : IpCacheEntry) (hlen : ents.length ≤ prevAddrCacheMax) :
    insertIpAddrEntry ent (cacheOf ents) = cacheOf (addNew prevAddrCacheMax ents ent) := by
  have hfind := findIpAddrEntry_cacheOf ent ents
  by_cases hroom : ents.length < prevAddrCacheMax
  · by_cases hmem : ent ∈ ents
    · rw [insertIpAddrEntry, if_neg (by simp only [cacheOf]; omega), if_pos, addNew,
        if_neg fun h => h.2 hmem]
      simpa [hmem] using hfind
    · have hsome : ¬(findIpAddrEntry ent (cacheOf ents)).isSome = true := by simpa [hmem] using hfind
      have hsize : prevAddrCacheMax - ents.length = (prevAddrCacheMax - (ents.length + 1)) + 1 := by
        omega
      rw [insertIpAddrEntry, if_neg (by simp only [cacheOf]; omega), if_neg hsome, addNew,
        if_pos ⟨hroom, hmem⟩]
      simp only [cacheOf, hsize, List.replicate_succ, List.length_append, List.length_singleton,
        List.set_append_right _ _ (Nat.le_refl _), Nat.sub_self, List.set_cons_zero,
        List.append_assoc, List.singleton_append]
  · rw [insertIpAddrEntry, if_pos (by simp only [cacheOf]; omega), addNew,
      if_neg fun h => hroom h.1]

/-- Another session on a file of addresses. -/
theorem clientStart_encode (s : Session) (h : ∀ ent ∈ ents, IsAddress ent)
    (hlen : ents.length ≤ prevAddrCacheMax) :
    clientStart s (ents.flatMap encodeIpCacheEntry) = some
      ⟨(if s.connected && !s.cacheAsked then addNew prevAddrCacheMax ents s.serverIpCacheEntry
          else ents).flatMap encodeIpCacheEntry,
        if s.cacheAsked then none else some (decide (s.serverIpCacheEntry ∉ ents))⟩ := by
  rw [clientStart, initIpAddrCache_encode h hlen]
  simp only [Option.bind_eq_bind, Option.bind_some, findIpAddrEntry_cacheOf,
    insertIpAddrEntry_cacheOf _ hlen, encodeIpCache_cacheOf]
  cases hasked : s.cacheAsked with
  | true => simp
  | false =>
    cases hconnected : s.connected with
    | false => simp
    | true =>
      by_cases hmem : s.serverIpCacheEntry ∈ ents
      · have hsame : addNew prevAddrCacheMax ents s.serverIpCacheEntry = ents :=
          if_neg fun hnew => hnew.2 hmem
        simp [hmem, hsame]
      · simp [hmem]

/-- The address that a configuration holds is a word of its line. -/
theorem serverIpAddressBuff_spec (s : Session) :
    (∀ c ∈ serverIpAddressBuff s.line, c ≠ '\n' ∧ c ≠ '\x00') ∧
      (serverIpAddressBuff s.line).length < pathsize := by
  have hnone : (∀ c ∈ ([] : List Char), c ≠ '\n' ∧ c ≠ '\x00') ∧ ([] : List Char).length < pathsize :=
    ⟨fun c hc => absurd hc List.not_mem_nil, by decide⟩
  rw [serverIpAddressBuff]
  cases hkey : (ofBuffer s.line).dropPrefix? serverIpAddressKey with
  | none => exact hnone
  | some rest =>
    simp only
    cases hword : scanWord rest with
    | none => exact hnone
    | some word =>
      obtain ⟨key, hline, -⟩ := List.dropPrefix?_eq_some_iff.mp hkey
      obtain ⟨hsub, hblank⟩ := scanWord_spec hword
      have hpart : word.Sublist (ofBuffer s.line) := by
        rw [hline]
        exact hsub.trans (List.sublist_append_right _ _)
      refine ⟨fun c hc => ⟨?_, ?_⟩, ?_⟩
      · rintro rfl
        exact absurd (hblank _ hc) (by decide)
      · have htext : c ∈ ofBuffer s.line := hpart.subset hc
        simpa using List.mem_takeWhile_imp htext
      · exact (hpart.length_le.trans (List.takeWhile_sublist _).length_le).trans_lt s.line_length

theorem isAddress_serverIpCacheEntry (s : Session) : IsAddress s.serverIpCacheEntry :=
  parse_isAddress (serverIpAddressBuff_spec s).1 (serverIpAddressBuff_spec s).2

theorem inserted_append (ss rest : List Session) :
    inserted (ss ++ rest) = inserted ss ++ inserted rest := by
  rw [inserted, List.filter_append, List.map_append]
  rfl

/-- What the file holds behind any sessions. -/
theorem sessions_eq (ss : List Session) :
    sessions ss = some (((inserted ss).foldl (addNew prevAddrCacheMax) []).flatMap
      encodeIpCacheEntry) ∧
      (∀ ent ∈ (inserted ss).foldl (addNew prevAddrCacheMax) [], IsAddress ent) ∧
      ((inserted ss).foldl (addNew prevAddrCacheMax) []).length ≤ prevAddrCacheMax ∧
      ((inserted ss).foldl (addNew prevAddrCacheMax) []).Nodup := by
  induction ss using List.reverseRecOn with
  | nil => exact ⟨rfl, fun _ h => absurd h List.not_mem_nil, Nat.zero_le _, List.nodup_nil⟩
  | append_singleton ss s ih =>
    obtain ⟨hfile, haddr, hlen, hnodup⟩ := ih
    have hstep := clientStart_encode s haddr hlen
    rw [sessions] at hfile
    rw [sessions, List.foldlM_append, hfile, inserted_append, List.foldl_append]
    change ((clientStart s _).map Outcome.file).bind some = _ ∧ _
    rw [hstep]
    simp only [Option.map_some, Option.bind_some]
    by_cases hinserts : (s.connected && !s.cacheAsked) = true
    · have hone : inserted [s] = [s.serverIpCacheEntry] := by
        rw [inserted, List.filter_cons, if_pos hinserts]
        rfl
      rw [hone, if_pos hinserts, List.foldl_cons, List.foldl_nil]
      refine ⟨rfl, ?_, addNew_length_le hlen _, addNew_nodup hnodup _⟩
      intro ent hent
      rcases mem_addNew hent with hent | rfl
      · exact haddr ent hent
      · exact isAddress_serverIpCacheEntry s
    · have hone : inserted [s] = [] := by
        rw [inserted, List.filter_cons, if_neg hinserts]
        rfl
      rw [hone, if_neg hinserts]
      exact ⟨rfl, haddr, hlen, hnodup⟩

/-- Encoder and parser, lookup and insertion agree on every file that sessions leave behind. -/
theorem cache_over_sessions (ss : List Session) :
    ∃ file, sessions ss = some file ∧ Remembers ss file := by
  obtain ⟨hfile, haddr, hlen, hnodup⟩ := sessions_eq ss
  refine ⟨_, hfile, ?_, ?_, ?_, ?_, ?_, ?_⟩
  · rw [listedIn_encode haddr, foldl_addNew]
  · rwa [listedIn_encode haddr]
  · rwa [listedIn_encode haddr]
  · intro pre hpre
    obtain ⟨hold, haddr', -⟩ := sessions_eq pre
    refine ⟨_, hold, ?_⟩
    rw [listedIn_encode haddr, listedIn_encode haddr']
    obtain ⟨rest, rfl⟩ := hpre
    rw [inserted_append, List.foldl_append]
    exact prefix_foldl_addNew _ _
  · refine ⟨_, (encodeIpCache_cacheOf _).symm, initIpAddrCache_encode haddr hlen, ?_⟩
    rw [cacheOf_take, listedIn_encode haddr]
  · intro s
    rw [clientStart_encode s haddr hlen, listedIn_encode haddr]
    rfl

end EmotionStreamer.AddressCache
