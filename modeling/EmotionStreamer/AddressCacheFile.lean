import EmotionStreamer.AddressCache

/-! `init_ip_addr_cache` on a file of any content: every index used on `con_cache->ips` and
every character stored in a `hostname` is checked. -/
namespace EmotionStreamer.AddressCacheFile
open CStrings
open AddressCache (IpCacheEntry IpCache zeroEntry prevAddrCacheMax parseIpCacheEntry)

inductive Fault
  | ips (index : ℕ)
  | hostname (length : ℕ)
  deriving DecidableEq, Repr

/-- What `%[^:]` matches in the string that a call of `fgets` leaves in `buff`. -/
def hostOf (piece : List Char) : List Char := (ofBuffer piece).takeWhile (· ≠ ':')

/-- The second loop of `populate_ip_addr_cache` from entry `curr` on. Without a match nothing
is stored. -/
def parseLoop : (curr : ℕ) → List IpCacheEntry → List (List Char) →
    Except Fault (List IpCacheEntry)
  | _, ips, [] => .ok ips
  | curr, ips, piece :: pieces =>
    if hostOf piece = [] then parseLoop (curr + 1) ips pieces
    else if prevAddrCacheMax ≤ curr then .error (.ips curr)
    else if pathsize ≤ (hostOf piece).length then .error (.hostname (hostOf piece).length)
    else parseLoop (curr + 1) (ips.modify curr (parseIpCacheEntry (ofBuffer piece))) pieces

/-- The first loop counts; the result of `min` is not used. -/
def initIpAddrCache (file : List Char) : Except Fault IpCache := do
  let pieces := fgetsAll (pathsize * 2) [] file
  let ips ← parseLoop 0 (List.replicate prevAddrCacheMax zeroEntry) pieces
  return ⟨ips, pieces.length⟩

/-- No entry is written behind the last one, and no host name is longer than its array. -/
def Bounded (file : List Char) : Prop :=
  ∃ cache, initIpAddrCache file = .ok cache ∧ cache.numOfAddr ≤ prevAddrCacheMax ∧
    cache.ips.length = prevAddrCacheMax ∧
    ∀ ent ∈ cache.ips, ent.hostname.length = pathsize ∧ (ofBuffer ent.hostname).length < pathsize

variable {file piece : List Char} {ips done : List IpCacheEntry} {pieces : List (List Char)}
  {ent : IpCacheEntry}

def entryOf (piece : List Char) : IpCacheEntry := parseIpCacheEntry (ofBuffer piece) zeroEntry

theorem entryOf_empty (h : hostOf piece = []) : entryOf piece = zeroEntry := if_pos h

/-- Where the loop goes through, every host name has fit. -/
theorem parseLoop_hosts {curr : ℕ} (h : parseLoop curr ips pieces = .ok done) :
    ∀ piece ∈ pieces, (hostOf piece).length < pathsize := by
  induction pieces generalizing curr ips with
  | nil => exact fun piece hpiece => absurd hpiece List.not_mem_nil
  | cons p pieces ih =>
    rw [parseLoop] at h
    split_ifs at h with hempty hindex hlong
    · refine List.forall_mem_cons.mpr ⟨?_, ih h⟩
      rw [hempty]
      decide
    · exact List.forall_mem_cons.mpr ⟨Nat.not_le.mp hlong, ih h⟩

theorem modify_append_replicate (done : List IpCacheEntry) (m : ℕ)
    (f : IpCacheEntry → IpCacheEntry) :
    (done ++ List.replicate (m + 1) ent).modify done.length f =
      done ++ f ent :: List.replicate m ent := by
  induction done with
  | nil => rfl
  | cons d done ih =>
    rw [List.cons_append, List.length_cons, List.modify_succ_cons, ih]
    rfl

/-- Where there is room, the loop fills the entries in order. -/
theorem parseLoop_eq (done : List IpCacheEntry) {m : ℕ} (hroom : pieces.length ≤ m)
    (hmax : done.length + m = prevAddrCacheMax)
    (hhosts : ∀ piece ∈ pieces, (hostOf piece).length < pathsize) :
    parseLoop done.length (done ++ List.replicate m zeroEntry) pieces =
      .ok (done ++ pieces.map entryOf ++ List.replicate (m - pieces.length) zeroEntry) := by
  induction pieces generalizing done m with
  | nil => simp [parseLoop]
  | cons p pieces ih =>
    obtain ⟨m, rfl⟩ : ∃ k, m = k + 1 := Nat.exists_eq_add_one.mpr (Nat.zero_lt_of_lt hroom)
    obtain ⟨hhost, hhosts⟩ := List.forall_mem_cons.mp hhosts
    rw [List.length_cons] at hroom
    have hnext := ih (done ++ [entryOf p]) (m := m) (by omega)
      (by rw [List.length_append, List.length_singleton]; omega) hhosts
    rw [List.length_append, List.length_singleton, List.append_assoc, List.singleton_append] at hnext
    have hsub : m + 1 - (pieces.length + 1) = m - pieces.length := by omega
    rw [parseLoop, List.map_cons, List.length_cons, hsub]
    split_ifs with hempty hindex hlong
    · rw [entryOf_empty hempty] at hnext ⊢
      rw [List.replicate_succ, hnext]
      simp
    · omega
    · omega
    · rw [modify_append_replicate]
      rw [entryOf] at hnext
      rw [hnext]
      simp [entryOf]

/-- There are no more lines than entries, a line that is too long for `buff` counted by its
parts, and no more characters in front of a colon than `hostname` holds. -/
def Loadable (file : List Char) : Prop :=
  let pieces := fgetsAll (pathsize * 2) [] file
  pieces.length ≤ prevAddrCacheMax ∧ ∀ piece ∈ pieces, (hostOf piece).length < pathsize

/-- A host name of zeros, or with the characters in front of the colon in it, fits. -/
def FitsArray (ent : IpCacheEntry) : Prop :=
  ent.hostname.length = pathsize ∧ (ofBuffer ent.hostname).length < pathsize

theorem fitsArray_toBuffer {host : List Char} (hlen : host.length < pathsize)
    (hnul : '\x00' ∉ host) (h : ent.hostname = toBuffer pathsize host) : FitsArray ent := by
  rw [FitsArray, h, ofBuffer_toBuffer hnul, toBuffer, List.length_append, List.length_replicate]
  omega

theorem fitsArray_zeroEntry : FitsArray zeroEntry :=
  fitsArray_toBuffer (by decide) List.not_mem_nil rfl

theorem fitsArray_entryOf (h : (hostOf piece).length < pathsize) : FitsArray (entryOf piece) := by
  by_cases hempty : hostOf piece = []
  · rw [entryOf_empty hempty]
    exact fitsArray_zeroEntry
  have hnul : '\x00' ∉ hostOf piece := fun hmem =>
    nul_not_mem_ofBuffer piece ((List.takeWhile_sublist _).subset hmem)
  refine fitsArray_toBuffer h hnul ?_
  have hparse : entryOf piece = _ := if_neg hempty
  rw [← store_zeros h, hparse]
  dsimp only
  split
  · rfl
  · split <;> rfl

theorem init_eq_ok {cache : IpCache} (h : initIpAddrCache file = .ok cache) :
    ∃ ips, parseLoop 0 (List.replicate prevAddrCacheMax zeroEntry)
      (fgetsAll (pathsize * 2) [] file) = .ok ips ∧
      cache = ⟨ips, (fgetsAll (pathsize * 2) [] file).length⟩ := by
  rw [initIpAddrCache] at h
  cases hloop : parseLoop 0 (List.replicate prevAddrCacheMax zeroEntry)
      (fgetsAll (pathsize * 2) [] file) with
  | error fault =>
    rw [hloop] at h
    cases h
  | ok ips =>
    rw [hloop] at h
    cases h
    exact ⟨ips, rfl, rfl⟩

theorem init_eq_of_loadable (h : Loadable file) : initIpAddrCache file =
    .ok ⟨(fgetsAll (pathsize * 2) [] file).map entryOf ++ List.replicate
      (prevAddrCacheMax - (fgetsAll (pathsize * 2) [] file).length) zeroEntry,
      (fgetsAll (pathsize * 2) [] file).length⟩ := by
  have hloop := parseLoop_eq [] h.1 (by simp) h.2
  rw [List.length_nil, List.nil_append, List.nil_append] at hloop
  rw [initIpAddrCache, hloop]
  rfl

/-- Loading a file is bounded if and only if the file can be loaded. -/
theorem bounded_iff (file : List Char) : Bounded file ↔ Loadable file := by
  constructor
  · rintro ⟨cache, hinit, hnum, -⟩
    obtain ⟨ips, hloop, hcache⟩ := init_eq_ok hinit
    rw [hcache] at hnum
    exact ⟨hnum, parseLoop_hosts hloop⟩
  · intro h
    refine ⟨_, init_eq_of_loadable h, h.1, ?_, ?_⟩
    · have hlen := h.1
      rw [List.length_append, List.length_map, List.length_replicate]
      omega
    · intro ent hent
      rcases List.mem_append.mp hent with hent | hent
      · obtain ⟨piece, hpiece, rfl⟩ := List.mem_map.mp hent
        exact fitsArray_entryOf (h.2 piece hpiece)
      · rw [List.eq_of_mem_replicate hent]
        exact fitsArray_zeroEntry

/-- The eighty-first line is stored behind the entries. -/
theorem line_behind_entries : ¬ ∀ file, Bounded file := by
  intro hclaim
  obtain ⟨cache, hinit, -⟩ := hclaim (List.replicate 81 '\n')
  have hfault : initIpAddrCache (List.replicate 81 '\n') = .error (.ips 80) := by decide
  rw [hfault] at hinit
  cases hinit

/-- On a text that can be loaded, the client starts with the same cache. -/
theorem init_of_loadable (h : Loadable file) (hnul : '\x00' ∉ file) :
    (initIpAddrCache file).toOption = AddressCache.initIpAddrCache file := by
  have hentries : (fgetsAll (pathsize * 2) [] file).map entryOf =
      (fgetsAll (pathsize * 2) [] file).map (parseIpCacheEntry · zeroEntry) := by
    refine List.map_congr_left fun piece hpiece => ?_
    rw [entryOf, ofBuffer_eq_self]
    intro hmem
    rcases mem_of_mem_fgetsAll hpiece hmem with hnil | hfile
    · exact absurd hnil List.not_mem_nil
    · exact hnul hfile
  rw [init_eq_of_loadable h, hentries, AddressCache.initIpAddrCache]
  exact (if_pos h.1).symm

end EmotionStreamer.AddressCacheFile
