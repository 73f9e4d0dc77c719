import EmotionStreamer.ConnectionSet
import EmotionStreamer.Registration
import Mathlib.Data.List.Nodup

/-! The table `Servers` beside the connection set: `add_con` inserts a row and `kill_con`
deletes one, both by statements put together as text. SQLite is a parameter. -/
namespace EmotionStreamer.InterlvlCom
open CStrings Runs Slots

structure Row where
  serverType : List Char
  serverId : ℕ
  serverName : List Char
  serverIp : List Char
  serverExtension : List Char
  usingTls : ℕ
  deriving DecidableEq, Repr

/-- `value` is what a `Varchar` column gets from a text that stands as one expression
between the commas of a `VALUES` list; `none` when it is no constant expression, or null.
`exec` is what `sqlite3_prepare_v2` and `sqlite3_step` do to the rows of `Servers`. -/
structure Sqlite where
  value : List Char → Option (List Char)
  exec : List Char → List Row → List Row

def insertServerTmpl : List Char := "INSERT Into Servers Values(".toList
def deleteServerTmpl : List Char := "DELETE from Servers\nWhere server_id = ".toList

def insertStatement (serverStr : List Char) : List Char := insertServerTmpl ++ (serverStr ++ [')'])
def deleteStatement (serverId : ℕ) : List Char := deleteServerTmpl ++ Nat.toDigits 10 serverId

def insertServer (db : Sqlite) (serverStr : List Char) (rows : List Row) : List Row :=
  db.exec (snprintf (pathsize - 1) (insertStatement serverStr)) rows

def deleteServer (db : Sqlite) (serverId : ℕ) (rows : List Row) : List Row :=
  db.exec (snprintf (pathsize - 1) (deleteStatement serverId)) rows

/-- `randStr`, for the numbers that `rand` returns. -/
def randStr (rands : List ℕ) : List Char := rands.map fun r => .ofNat (r % (91 - 67 + 1) + 67)

/-- What the development relies on of SQLite: a complete insertion with a new id adds its
row, a deletion removes the row with its id, and a text in quotes stands for what is between
them. A bare word, as `randStr` makes them, names a column; there is none, and the statement
is rejected. -/
structure Documented (db : Sqlite) : Prop where
  insert : ∀ type id name value ip port extension tls rows,
    '\'' ∉ type → '\'' ∉ ip → '\'' ∉ extension → db.value name = some value →
    (∀ row ∈ rows, row.serverId ≠ id) →
    db.exec (insertStatement (entryText type id name ip port extension tls)) rows =
      rows ++ [⟨type, id, value, ip ++ ':' :: Nat.toDigits 10 port, extension, tls⟩]
  delete : ∀ id rows, db.exec (deleteStatement id) rows = rows.filter (·.serverId ≠ id)
  literal : ∀ q s, q = '"' ∨ q = '\'' → q ∉ s → db.value (' ' :: q :: (s ++ [q])) = some s
  word : ∀ type id name ip port extension tls rows,
    '\'' ∉ type → '\'' ∉ ip → '\'' ∉ extension →
    5 ≤ name.length → (∀ c ∈ name, 67 ≤ c.toNat ∧ c.toNat ≤ 91) →
    db.exec (insertStatement (entryText type id (' ' :: name) ip port extension tls)) rows = rows

/-- A name is configured with quotes around it. -/
def unquote : List Char → List Char
  | [] => []
  | q :: s => if (q = '"' ∨ q = '\'') ∧ s.getLast? = some q then s.dropLast else q :: s

def registeredName (nameBuff : List Char) : List Char := unquote (dropSeparator nameBuff)

def AddConArgs.text (order : ByteOrder) (a : AddConArgs) : List Char :=
  entryText a.typeBuff a.id a.nameBuff a.ipBuff (order.htons a.storedPort).toNat a.extensionBuff
    a.usingTls.toNat

/-- The row of a registered server. -/
def AddConArgs.row (order : ByteOrder) (a : AddConArgs) : Row :=
  ⟨a.typeBuff, a.id, registeredName a.nameBuff,
    a.ipBuff ++ ':' :: Nat.toDigits 10 (order.htons a.storedPort).toNat, a.extensionBuff,
    a.usingTls.toNat⟩

structure Directory (n : ℕ) where
  overseer : State AddConArgs n
  rows : List Row

/-- A `LOG` request with the extension that was found in it, or a step of the watchdog. -/
inductive DirectoryEvent
  | log (peer : Peer) (req : Request) (extension : List Char)
  | watchDog (heartbeat : Heartbeat)

def registeredCon (order : ByteOrder) (peer : Peer) (req : Request) (extension : List Char) :
    Con AddConArgs :=
  ⟨peer.sock, true, List.replicate (defDatasize + 1) 0, addConArgs order peer req extension⟩

variable {n : ℕ}

namespace Directory

def start (n : ℕ) : Directory n := ⟨.start AddConArgs n, []⟩

def log (db : Sqlite) (order : ByteOrder) (d : Directory n) (peer : Peer) (req : Request)
    (extension : List Char) : Directory n :=
  if d.overseer.IsOpen peer.sock then d
  else ⟨d.overseer.step (.addCon (registeredCon order peer req extension)),
    insertServer db (bigBuff order (addConArgs order peer req extension)) d.rows⟩

/-- `kill_con` deletes the row before it clears the slot. -/
def watch (db : Sqlite) (d : Directory n) (heartbeat : Heartbeat) : Directory n where
  overseer := d.overseer.step (.watchDog heartbeat)
  rows := match d.overseer.watchDog with
    | .kill i => deleteServer db (d.overseer.cons.fd i).toNat d.rows
    | _ => d.rows

def step (db : Sqlite) (order : ByteOrder) (d : Directory n) : DirectoryEvent → Directory n
  | .log peer req extension => d.log db order peer req extension
  | .watchDog heartbeat => d.watch db heartbeat

end Directory

/-- One row for each occupied slot, about the connection registered with its descriptor. -/
structure Agrees (order : ByteOrder) (d : Directory n) : Prop where
  distinct : (d.rows.map Row.serverId).Nodup
  mem_iff : ∀ row, row ∈ d.rows ↔ ∃ i, d.overseer.cons.fd i ≠ 0 ∧ ∃ con,
    d.overseer.registered (d.overseer.cons.fd i) = some con ∧
      con.data.id = d.overseer.cons.fd i ∧ row = con.data.row order

/-- The statement is not cut, the extension has no quote in it, and SQLite reads the name
as what is registered. -/
structure Listable (db : Sqlite) (order : ByteOrder) (a : AddConArgs) : Prop where
  fits : (insertStatement (a.text order)).length < pathsize - 1
  extension : '\'' ∉ a.extensionBuff
  name : db.value a.nameBuff = some (registeredName a.nameBuff)

/-- A registration finds a free slot and can be listed. -/
def Accepted (db : Sqlite) (order : ByteOrder) (d : Directory n) : DirectoryEvent → Prop
  | .log peer req extension => ¬d.overseer.IsOpen peer.sock →
      (∃ i, 1 ≤ i ∧ i < n ∧ d.overseer.cons.fd i = 0) ∧
        Listable db order (addConArgs order peer req extension)
  | .watchDog _ => True

variable {db : Sqlite} {order : ByteOrder} {d : Directory n} {a : AddConArgs} {rows : List Row}

theorem bigBuff_of_fits (hfits : (insertStatement (a.text order)).length < pathsize - 1) :
    bigBuff order a = a.text order := by
  apply snprintf_fits
  rw [insertStatement, List.length_append, List.length_append] at hfits
  change (a.text order).length < _
  simp only [pathsize] at hfits ⊢
  omega

theorem insertServer_eq (hdoc : Documented db) (h : Listable db order a)
    (htype : '\'' ∉ a.typeBuff) (hip : '\'' ∉ a.ipBuff) (hnew : ∀ row ∈ rows, row.serverId ≠ a.id) :
    insertServer db (bigBuff order a) rows = rows ++ [a.row order] := by
  rw [insertServer, bigBuff_of_fits h.fits, snprintf_fits h.fits]
  exact hdoc.insert _ _ _ _ _ _ _ _ _ htype hip h.extension h.name hnew

theorem deleteServer_eq (hdoc : Documented db) {id : ℕ} (hid : id < 2147483648) :
    deleteServer db id rows = rows.filter (·.serverId ≠ id) := by
  have hmax : 2147483648 < 10 ^ 10 := by decide
  have hdigits := toDigits_length_le (k := 10) (by decide) (hid.trans hmax)
  have htmpl : deleteServerTmpl.length = 38 := by decide
  rw [deleteServer, snprintf_fits, hdoc.delete]
  rw [deleteStatement, List.length_append, htmpl]
  simp only [pathsize]
  omega

theorem addCon_fd {set : ConSet AddConArgs n} {con : Con AddConArgs} (hslot : set.slot < n)
    (i : ℕ) : (set.addCon con).fd i = if i = set.slot then con.sockfdTcp else set.fd i := by
  rw [ConSet.fd, ConSet.addCon, Vector.getElem?_setIfInBounds]
  by_cases h : set.slot = i
  · rw [if_pos h, if_pos hslot, if_pos h.symm]
    rfl
  · rw [if_neg h, if_neg (Ne.symm h)]
    rfl

theorem killCon_fd (set : ConSet AddConArgs n) (i j : ℕ) :
    (set.killCon i).fd j = if j = i then 0 else set.fd j := by
  rw [ConSet.fd, ConSet.killCon, Vector.getElem?_setIfInBounds]
  by_cases h : i = j
  · rw [if_pos h, if_pos h.symm]
    split_ifs <;> rfl
  · rw [if_neg h, if_neg (Ne.symm h)]
    rfl

theorem moduleTypeToString_quote (type : UInt16) : '\'' ∉ moduleTypeToString type := by
  unfold moduleTypeToString
  split_ifs <;> decide

theorem addr_quote (peer : Peer) (size : ℕ) : '\'' ∉ snprintf size peer.addr := by
  intro h
  rcases peer.addr_text _ (List.mem_of_mem_take h) with h | h
  · exact absurd h (by decide)
  · exact absurd h (by decide)

/-- What a run of accepted steps keeps. -/
structure Kept (order : ByteOrder) (d : Directory n) : Prop where
  overseer : Invariant d.overseer
  watched : Watched d.overseer.watchDog d.overseer.cons
  ids : ∀ fd con, d.overseer.registered fd = some con → con.data.id = fd ∧ fd < 2147483648
  agrees : Agrees order d

/-- A step that leaves descriptors, registrations and rows as they are. -/
theorem Agrees.frame {d' : Directory n} (h : Agrees order d)
    (hfd : ∀ i, d'.overseer.cons.fd i = d.overseer.cons.fd i)
    (hreg : d'.overseer.registered = d.overseer.registered) (hrows : d'.rows = d.rows) :
    Agrees order d' := by
  constructor
  · rw [hrows]
    exact h.distinct
  · intro row
    rw [hrows, hreg, h.mem_iff row]
    simp only [hfd]

theorem start_kept (order : ByteOrder) (n : ℕ) : Kept order (Directory.start n) := by
  have hfree : ∀ i, (Directory.start n).overseer.cons.fd i = 0 := by
    intro i
    simp only [Directory.start, State.start, ConSet.fd, Vector.getElem?_replicate]
    split_ifs <;> rfl
  constructor
  · exact start_invariant AddConArgs n
  · trivial
  · intro fd con h
    cases h
  · refine ⟨List.nodup_nil, fun row => ?_⟩
    constructor
    · intro h
      cases h
    · rintro ⟨i, hocc, -⟩
      exact absurd (hfree i) hocc

/-- A descriptor in the set is that of one slot. -/
theorem Kept.slot_unique (h : Kept order d) {i j : ℕ} (hi : d.overseer.cons.fd i ≠ 0)
    (heq : d.overseer.cons.fd i = d.overseer.cons.fd j) : i = j := by
  obtain ⟨hin, hne⟩ := fd_ne_zero hi
  obtain ⟨hjn, -⟩ := fd_ne_zero (heq ▸ hi)
  rw [fd_eq hin, fd_eq hjn] at heq
  exact h.overseer.consistent.distinct i j hin hjn heq hne

/-- The connection of an occupied slot is the one registered with its descriptor. -/
theorem Kept.registered (h : Kept order d) {i : ℕ} (hi : d.overseer.cons.fd i ≠ 0) :
    ∃ con, d.overseer.registered (d.overseer.cons.fd i) = some con ∧
      con.data.id = d.overseer.cons.fd i := by
  obtain ⟨hin, hne⟩ := fd_ne_zero hi
  obtain ⟨con, -, hreg, -⟩ := h.overseer.consistent.registered i hin hne
  rw [← fd_eq hin] at hreg
  exact ⟨con, hreg, (h.ids _ _ hreg).1⟩

theorem Agrees.id_ne (h : Agrees order d) {fd : ℕ} (hopen : ¬d.overseer.IsOpen fd) :
    ∀ row ∈ d.rows, row.serverId ≠ fd := by
  rintro row hrow rfl
  obtain ⟨i, hocc, con, -, hid, rfl⟩ := (h.mem_iff row).mp hrow
  obtain ⟨hin, -⟩ := fd_ne_zero hocc
  apply hopen
  right
  change (con.data.id : ℤ) ∈ _
  rw [hid, fd_eq hin]
  exact Vector.mem_toList_iff.mpr (Vector.getElem_mem hin)

/-- A new connection in a free slot, and its row behind the others. -/
theorem Agrees.filled {d' : Directory n} {con : Con AddConArgs} {slot : ℕ} {sock : ℤ}
    (h : Agrees order d) (hid : con.data.id = sock) (hpos : sock ≠ 0)
    (hfree : d.overseer.cons.fd slot = 0)
    (hother : ∀ i, d.overseer.cons.fd i ≠ 0 → d.overseer.cons.fd i ≠ sock)
    (hnew : ∀ row ∈ d.rows, row.serverId ≠ con.data.id)
    (hfd : ∀ i, d'.overseer.cons.fd i = if i = slot then sock else d.overseer.cons.fd i)
    (hreg : d'.overseer.registered = Function.update d.overseer.registered sock (some con))
    (hrows : d'.rows = d.rows ++ [con.data.row order]) : Agrees order d' := by
  constructor
  · rw [hrows, List.map_append, List.nodup_append']
    refine ⟨h.distinct, List.nodup_singleton _, ?_⟩
    intro id hold hnewid
    obtain ⟨row, hrow, rfl⟩ := List.mem_map.mp hold
    exact hnew row hrow (List.mem_singleton.mp hnewid)
  · intro row
    rw [hrows, List.mem_append, List.mem_singleton, hreg]
    constructor
    · rintro (hold | rfl)
      · obtain ⟨i, hocc, old, hcon, holdid, hrow⟩ := (h.mem_iff row).mp hold
        have hi : i ≠ slot := fun he => hocc (he ▸ hfree)
        refine ⟨i, ?_, old, ?_, ?_, hrow⟩
        · rwa [hfd, if_neg hi]
        · rwa [hfd, if_neg hi, Function.update_of_ne (hother i hocc)]
        · rwa [hfd, if_neg hi]
      · refine ⟨slot, ?_, con, ?_, ?_, rfl⟩
        · rwa [hfd, if_pos rfl]
        · rw [hfd, if_pos rfl, Function.update_self]
        · rwa [hfd, if_pos rfl]
    · rintro ⟨i, hocc, old, hcon, holdid, hrow⟩
      rw [hfd] at hocc hcon holdid
      by_cases hi : i = slot
      · rw [if_pos hi, Function.update_self] at hcon
        cases hcon
        exact Or.inr hrow
      · rw [if_neg hi] at hocc hcon holdid
        rw [Function.update_of_ne (hother i hocc)] at hcon
        exact Or.inl ((h.mem_iff row).mpr ⟨i, hocc, old, hcon, holdid, hrow⟩)

/-- A slot is cleared, and the rows with the id of its connection are gone. -/
theorem Agrees.cleared {d' : Directory n} {i id : ℕ} (h : Agrees order d)
    (hid : (id : ℤ) = d.overseer.cons.fd i)
    (honly : ∀ j, d.overseer.cons.fd j = d.overseer.cons.fd i → j = i)
    (hfd : ∀ j, d'.overseer.cons.fd j = if j = i then 0 else d.overseer.cons.fd j)
    (hreg : d'.overseer.registered = d.overseer.registered)
    (hrows : d'.rows = d.rows.filter (·.serverId ≠ id)) : Agrees order d' := by
  constructor
  · rw [hrows]
    exact h.distinct.sublist (List.filter_sublist.map _)
  · intro row
    rw [hrows, List.mem_filter, hreg, h.mem_iff row, decide_eq_true_eq]
    constructor
    · rintro ⟨⟨j, hj, con, hcon, hconid, rfl⟩, hne⟩
      have hji : j ≠ i := by
        rintro rfl
        exact hne (Int.natCast_inj.mp (hconid.trans hid.symm))
      refine ⟨j, ?_, con, ?_, ?_, rfl⟩
      · rwa [hfd, if_neg hji]
      · rwa [hfd, if_neg hji]
      · rwa [hfd, if_neg hji]
    · rintro ⟨j, hj, con, hcon, hconid, rfl⟩
      rw [hfd] at hj hcon hconid
      by_cases hji : j = i
      · rw [if_pos hji] at hj
        exact absurd rfl hj
      · rw [if_neg hji] at hj hcon hconid
        refine ⟨⟨j, hj, con, hcon, hconid, rfl⟩, ?_⟩
        intro he
        change con.data.id = id at he
        rw [he] at hconid
        exact hji (honly j (hconid.symm.trans hid))

theorem Kept.agrees_log (h : Kept order d) (hdoc : Documented db) {peer : Peer} {req : Request}
    {extension : List Char} (hopen : ¬d.overseer.IsOpen peer.sock)
    (hslot : d.overseer.cons.slot < n) (hfree : d.overseer.cons.fd d.overseer.cons.slot = 0)
    (hlist : Listable db order (addConArgs order peer req extension)) :
    Agrees order (d.log db order peer req extension) := by
  have hnew := h.agrees.id_ne hopen
  have hid : ((registeredCon order peer req extension).data.id : ℤ) = peer.sock := rfl
  have hpos : (peer.sock : ℤ) ≠ 0 := fun he => hopen (Or.inl he.le)
  have hother : ∀ i, d.overseer.cons.fd i ≠ 0 → d.overseer.cons.fd i ≠ peer.sock := by
    intro i hocc he
    obtain ⟨con, hcon, hold⟩ := h.registered hocc
    have hrow := (h.agrees.mem_iff (con.data.row order)).mpr ⟨i, hocc, con, hcon, hold, rfl⟩
    exact hnew _ hrow (Int.natCast_inj.mp (hold.trans he))
  rw [Directory.log, if_neg hopen, State.step]
  simp only [registeredCon, hopen, ↓reduceIte]
  apply h.agrees.filled hid hpos hfree hother hnew
  · exact addCon_fd hslot
  · rfl
  · exact insertServer_eq hdoc hlist (moduleTypeToString_quote _) (addr_quote _ _) hnew

/-- The watchdog takes the row of the slot that it clears. -/
theorem Kept.agrees_kill (h : Kept order d) (hdoc : Documented db) (heartbeat : Heartbeat) {i : ℕ}
    (hkill : d.overseer.watchDog = .kill i) : Agrees order (d.watch db heartbeat) := by
  have hocc : d.overseer.cons.fd i ≠ 0 := by
    have := h.watched
    rwa [hkill] at this
  obtain ⟨killed, hkilled, hid⟩ := h.registered hocc
  have hlt := (h.ids _ _ hkilled).2
  have honly : ∀ j, d.overseer.cons.fd j = d.overseer.cons.fd i → j = i := fun j hj =>
    h.slot_unique (hj ▸ hocc) hj
  simp only [Directory.watch, State.step, State.watch, hkill]
  apply h.agrees.cleared hid honly
  · exact killCon_fd _ i
  · rfl
  · rw [← hid, Int.toNat_natCast]
    exact deleteServer_eq hdoc (by omega)

theorem Kept.agrees_watch (h : Kept order d) (hdoc : Documented db) (heartbeat : Heartbeat) :
    Agrees order (d.watch db heartbeat) := by
  cases hw : d.overseer.watchDog with
  | kill i => exact h.agrees_kill hdoc heartbeat hw
  | waiting | look i | isset i | read i =>
    apply h.agrees.frame
    · intro j
      simp only [Directory.watch, State.step, State.watch, hw, ConSet.fd, ConSet.readCon]
    · simp only [Directory.watch, State.step, State.watch, hw]
    · simp only [Directory.watch, hw]

theorem Kept.step (h : Kept order d) (hdoc : Documented db) (hn : 2 ≤ n) (e : DirectoryEvent)
    (hok : Accepted db order d e) : Kept order (d.step db order e) := by
  cases e with
  | log peer req extension =>
    by_cases hopen : d.overseer.IsOpen peer.sock
    · rw [Directory.step, Directory.log, if_pos hopen]
      exact h
    · obtain ⟨hroom, hlist⟩ := hok hopen
      have hslot := (slot_lt_iff (by omega)).mpr hroom
      have hfree := (firstFree_spec (by omega) hslot).2
      have hagrees := h.agrees_log hdoc hopen hslot ((fd_eq hslot).trans hfree) hlist
      rw [Directory.step]
      rw [Directory.log, if_neg hopen] at hagrees ⊢
      refine ⟨h.overseer.step (.addCon _) hn fun _ => hroom, h.watched.step (.addCon _) (by simp), ?_,
        hagrees⟩
      intro fd con hcon
      simp only [State.step, registeredCon, hopen, ↓reduceIte] at hcon
      by_cases hfd : fd = peer.sock
      · subst hfd
        rw [Function.update_self] at hcon
        cases hcon
        exact ⟨rfl, by exact_mod_cast peer.sock_lt⟩
      · rw [Function.update_of_ne hfd] at hcon
        exact h.ids fd con hcon
  | watchDog heartbeat =>
    have hkill : ∀ i, d.overseer.watchDog = .kill i → d.overseer.cons.fd i ≠ 0 := by
      intro i hi
      have := h.watched
      rwa [hi] at this
    refine ⟨h.overseer.watch heartbeat hkill, h.watched.step (.watchDog heartbeat) (by simp), ?_,
      h.agrees_watch hdoc heartbeat⟩
    have hreg : (d.overseer.watch heartbeat).registered = d.overseer.registered := by
      unfold State.watch
      split <;> rfl
    intro fd con hcon
    exact h.ids fd con (hreg ▸ hcon)

/-- The rows are those of the occupied slots all along a run whose registrations are
accepted. -/
theorem agrees_of_accepted {db : Sqlite} (hdoc : Documented db) (order : ByteOrder) {n : ℕ}
    (hn : 2 ≤ n) (events : List DirectoryEvent)
    (hok : ∀ pre e, pre ++ [e] <+: events →
      Accepted db order (pre.foldl (Directory.step db order) (.start n)) e) (pre : List DirectoryEvent)
    (hpre : pre <+: events) :
    Agrees order (pre.foldl (Directory.step db order) (.start n)) :=
  (prefix_invariant hok (start_kept order n)
    (fun _ e h he => Kept.step h hdoc hn e he) pre hpre).agrees

/-- A name that is configured in quotes is read as what is between them. -/
theorem quoted_name_read (hdoc : Documented db) {q : Char} (hq : q = '"' ∨ q = '\'')
    {name : List Char} (hname : q ∉ name) :
    db.value (' ' :: q :: (name ++ [q])) = some (registeredName (' ' :: q :: (name ++ [q]))) := by
  have hlast : (name ++ [q]).getLast? = some q := List.getLast?_concat
  have hinner : registeredName (' ' :: q :: (name ++ [q])) = name := by
    change unquote (q :: (name ++ [q])) = name
    rw [unquote, if_pos ⟨hq, hlast⟩, List.dropLast_concat]
  rw [hinner]
  exact hdoc.literal q name hq hname

theorem randStr_range (rands : List ℕ) : ∀ c ∈ randStr rands, 67 ≤ c.toNat ∧ c.toNat ≤ 91 := by
  intro c hc
  obtain ⟨r, -, rfl⟩ := List.mem_map.mp hc
  have hmod : r % (91 - 67 + 1) < 25 := Nat.mod_lt _ (by decide)
  have hvalid : (r % (91 - 67 + 1) + 67).isValidChar := Or.inl (by omega)
  rw [Char.ofNat, dif_pos hvalid]
  change 67 ≤ r % (91 - 67 + 1) + 67 ∧ r % (91 - 67 + 1) + 67 ≤ 91
  omega

/-- A server without a configured name is never listed. -/
theorem generated_name_rejected (hdoc : Documented db) (htype : '\'' ∉ a.typeBuff)
    (hip : '\'' ∉ a.ipBuff) (hext : '\'' ∉ a.extensionBuff) {rands : List ℕ}
    (hlen : 5 ≤ rands.length) (hname : a.nameBuff = ' ' :: randStr rands)
    (hfits : (insertStatement (a.text order)).length < pathsize - 1) :
    insertServer db (bigBuff order a) rows = rows := by
  have hsize : 5 ≤ (randStr rands).length := by rwa [randStr, List.length_map]
  rw [insertServer, bigBuff_of_fits hfits, snprintf_fits hfits, AddConArgs.text, hname]
  exact hdoc.word _ _ _ _ _ _ _ _ htype hip hext hsize (randStr_range rands)

/-- A text in quotes, and what is behind it. -/
def readQuoted : List Char → Option (List Char × List Char)
  | [] => none
  | q :: s =>
    if q = '"' ∨ q = '\'' then
      match s.dropWhile (· ≠ q) with
      | [] => none
      | _ :: rest => some (s.takeWhile (· ≠ q), rest)
    else none

/-- The values of a row from the name on. -/
def readFromName (type : List Char) (id : ℕ) (s : List Char) : Option Row := do
  let (name, s) ← readQuoted s
  let (ip, s) ← readQuoted (← s.dropPrefix? comma)
  let (extension, s) ← readQuoted (← s.dropPrefix? comma)
  let (tls, s) ← scanDigits (← s.dropPrefix? comma)
  if s = [')'] then some ⟨type, id, name, ip, extension, tls⟩ else none

/-- The values between the parentheses of an insertion. -/
def readRow (s : List Char) : Option Row := do
  let (type, s) ← readQuoted s
  let (id, s) ← scanDigits (← s.dropPrefix? comma)
  readFromName type id (← s.dropPrefix? (comma ++ [' ']))

/-- SQLite for quoted texts and plain numbers, and the two statements of the overseer. -/
def literalSqlite : Sqlite where
  value
    | ' ' :: s => (readQuoted s).bind fun (value, rest) => if rest = [] then some value else none
    | _ => none
  exec statement rows :=
    match statement.dropPrefix? insertServerTmpl, statement.dropPrefix? deleteServerTmpl with
    | some s, _ =>
      match readRow s with
      | some row => if ∀ other ∈ rows, other.serverId ≠ row.serverId then rows ++ [row] else rows
      | none => rows
    | none, some s => rows.filter (·.serverId ≠ Nat.ofDigitChars 10 s 0)
    | none, none => rows

theorem dropPrefix?_append (p s : List Char) : (p ++ s).dropPrefix? p = some s :=
  List.dropPrefix?_append_of_beq s (beq_self_eq_true p)

theorem readQuoted_cons {q : Char} (hq : q = '"' ∨ q = '\'') {s : List Char} (hs : q ∉ s)
    (rest : List Char) : readQuoted (q :: (s ++ q :: rest)) = some (s, rest) := by
  have hne : ∀ x ∈ s, decide (x ≠ q) = true := fun x hx => decide_eq_true fun he => hs (he ▸ hx)
  have hend : decide (q ≠ q) = false := by simp
  rw [readQuoted, if_pos hq, dropWhile_append_cons hne hend, takeWhile_append_cons hne hend]

theorem readQuoted_quoted {s : List Char} (hs : '\'' ∉ s) (rest : List Char) :
    readQuoted (quoted s ++ rest) = some (s, rest) := by
  rw [quoted, List.cons_append, List.append_assoc]
  exact readQuoted_cons (Or.inr rfl) hs rest

theorem readQuoted_eq_some {s v rest : List Char} (h : readQuoted s = some (v, rest)) :
    ∃ q, (q = '"' ∨ q = '\'') ∧ q ∉ v ∧ s = q :: (v ++ q :: rest) := by
  cases s with
  | nil => cases h
  | cons q s =>
    rw [readQuoted] at h
    split_ifs at h with hq
    cases hdrop : s.dropWhile (· ≠ q) with
    | nil =>
      rw [hdrop] at h
      cases h
    | cons c tail =>
      rw [hdrop] at h
      cases h
      have hc : c = q := by
        have hhead := List.head?_dropWhile_not (· ≠ q) s
        rw [hdrop] at hhead
        simpa using hhead
      refine ⟨q, hq, ?_, ?_⟩
      · intro hmem
        have := List.mem_takeWhile_imp hmem
        simp at this
      · rw [← hc, ← hdrop, hc, List.takeWhile_append_dropWhile]

theorem readRow_entryText {type ip extension : List Char} {id port tls : ℕ} (s : List Char)
    (htype : '\'' ∉ type) :
    readRow (entryText type id (' ' :: s) ip port extension tls ++ [')']) =
      readFromName type id (s ++ (comma ++ (quoted (ip ++ ':' :: Nat.toDigits 10 port) ++
        (comma ++ (quoted extension ++ (comma ++ (Nat.toDigits 10 tls ++ [')']))))))) := by
  have hblank : Char.isDigit ',' = false := by decide
  simp only [entryText, List.append_assoc]
  rw [readRow, readQuoted_quoted htype]
  simp only [Option.bind_eq_bind, Option.bind_some, dropPrefix?_append]
  rw [comma, List.cons_append, scanDigits_toDigits _ hblank]
  change (((comma ++ [' ']) ++ (s ++ _)).dropPrefix? (comma ++ [' '])).bind (readFromName type id) = _
  rw [dropPrefix?_append]
  rfl

theorem readFromName_eq {type ip extension : List Char} {id port tls : ℕ} {q : Char}
    (hq : q = '"' ∨ q = '\'') {name : List Char} (hname : q ∉ name) (hip : '\'' ∉ ip)
    (hext : '\'' ∉ extension) :
    readFromName type id (q :: (name ++ q :: (comma ++ (quoted (ip ++ ':' :: Nat.toDigits 10 port) ++
        (comma ++ (quoted extension ++ (comma ++ (Nat.toDigits 10 tls ++ [')'])))))))) =
      some ⟨type, id, name, ip ++ ':' :: Nat.toDigits 10 port, extension, tls⟩ := by
  have haddr : '\'' ∉ ip ++ ':' :: Nat.toDigits 10 port := by
    intro h
    rcases List.mem_append.mp h with h | h
    · exact hip h
    · rcases List.mem_cons.mp h with h | h
      · exact absurd h (by decide)
      · exact absurd (Nat.isDigit_of_mem_toDigits (by decide) (by decide) h) (by decide)
  have hparen : Char.isDigit ')' = false := by decide
  rw [readFromName, readQuoted_cons hq hname]
  simp only [Option.bind_eq_bind, Option.bind_some, dropPrefix?_append]
  rw [readQuoted_quoted haddr]
  simp only [Option.bind_some, dropPrefix?_append]
  rw [readQuoted_quoted hext]
  simp only [Option.bind_some, dropPrefix?_append]
  rw [scanDigits_toDigits _ hparen]
  rfl

theorem literalSqlite_insert (statement : List Char) (rows : List Row) :
    literalSqlite.exec (insertServerTmpl ++ statement) rows =
      match readRow statement with
      | some row => if ∀ other ∈ rows, other.serverId ≠ row.serverId then rows ++ [row] else rows
      | none => rows := by
  simp only [literalSqlite, dropPrefix?_append]

theorem literalSqlite_value {name value : List Char} (h : literalSqlite.value name = some value) :
    ∃ q, (q = '"' ∨ q = '\'') ∧ q ∉ value ∧ name = ' ' :: q :: (value ++ [q]) := by
  simp only [literalSqlite] at h
  split at h
  · obtain ⟨⟨found, rest⟩, hread, hrest⟩ := Option.bind_eq_some_iff.mp h
    simp only at hrest
    split_ifs at hrest with hnil
    cases hrest
    obtain ⟨q, hq, hqv, rfl⟩ := readQuoted_eq_some hread
    exact ⟨q, hq, hqv, by rw [hnil]⟩
  · cases h

theorem literalSqlite_documented : Documented literalSqlite := by
  constructor
  · intro type id name value ip port extension tls rows htype hip hext hvalue hnew
    obtain ⟨q, hq, hqv, rfl⟩ := literalSqlite_value hvalue
    rw [insertStatement, literalSqlite_insert, readRow_entryText _ htype, List.cons_append,
      List.append_assoc, List.singleton_append, readFromName_eq hq hqv hip hext]
    exact if_pos hnew
  · intro id rows
    have hinsert : (deleteStatement id).dropPrefix? insertServerTmpl = none := by
      rfl
    simp only [literalSqlite, hinsert]
    rw [deleteStatement, dropPrefix?_append]
    simp only [Nat.ofDigitChars_ten_toDigits]
  · intro q s hq hs
    simp only [literalSqlite]
    rw [readQuoted_cons hq hs]
    rfl
  · intro type id name ip port extension tls rows htype hip hext hlen hchars
    rw [insertStatement, literalSqlite_insert, readRow_entryText _ htype]
    have hpos : 0 < name.length := by omega
    obtain ⟨c, rest, rfl⟩ := List.exists_cons_of_ne_nil (List.ne_nil_of_length_pos hpos)
    have hc := hchars c List.mem_cons_self
    have hne : ¬(c = '"' ∨ c = '\'') := by
      rintro (rfl | rfl)
      · exact absurd hc.1 (by decide)
      · exact absurd hc.1 (by decide)
    rw [List.cons_append, readFromName, readQuoted, if_neg hne]
    rfl

theorem wav_word : ∀ c ∈ ".wav".toList, isSpace c = false := by simp [isSpace]

theorem wav_fits {name : List Char} (hlen : name.length < 200) :
    ".wav".toList.length + 1 + name.length < defDatasize - protoArrSize := by
  have hext : ".wav".toList.length = 4 := by decide
  simp only [hext, defDatasize, protoArrSize]
  omega

def wavServer (name : List Char) (htext : '\x00' ∉ name) (hlen : name.length < 200) :
    Registration where
  type := .server
  port := 9000
  isTls := 0
  extension := ".wav".toList
  name := name
  extension_word := wav_word
  extension_text := by decide
  extension_length := by decide
  name_text := htext
  fits := wav_fits hlen

def localPeer : Peer := ⟨4, "127.0.0.1".toList, by decide, by decide, by simp⟩

def secondPeer : Peer := ⟨5, "127.0.0.2".toList, by decide, by decide, by simp⟩

def wavLog (peer : Peer) (name : List Char) (htext : '\x00' ∉ name) (hlen : name.length < 200) :
    DirectoryEvent :=
  .log peer (slaveThread .littleEndian (wavServer name htext hlen)) ".wav".toList

/-- Two servers are registered, and the watchdog kills the first one. -/
def twoNames : List DirectoryEvent :=
  [wavLog localPeer "\"ola\"".toList (by decide) (by decide),
    wavLog secondPeer "\"adeus\"".toList (by decide) (by decide)] ++
      List.replicate 5 (.watchDog ⟨0, []⟩)

theorem twoNames_accepted : Along (Directory.step literalSqlite .littleEndian)
    (Accepted literalSqlite .littleEndian) (.start 3) twoNames := by
  refine ⟨fun _ => ⟨⟨1, ?_⟩, ?_⟩, fun _ => ⟨⟨2, ?_⟩, ?_⟩, trivial, trivial, trivial, trivial, trivial,
    trivial⟩
  · decide
  · exact ⟨by decide, by decide, by decide⟩
  · decide +kernel
  · exact ⟨by decide, by decide, by decide⟩

theorem agrees_two_names :
    Agrees .littleEndian (twoNames.foldl (Directory.step literalSqlite .littleEndian) (.start 3)) ∧
      (twoNames.foldl (Directory.step literalSqlite .littleEndian) (.start 3)).rows.map
        Row.serverName = ["adeus".toList] :=
  ⟨agrees_of_accepted literalSqlite_documented .littleEndian (by decide) _
    (along_iff.mp twoNames_accepted) _ (List.prefix_refl _), by decide +kernel⟩

/-- A server whose name has been generated is in the set, and never in the table. -/
theorem generated_name_unlisted : ¬ ∀ db, Documented db → ∀ (order : ByteOrder) (n : ℕ), 2 ≤ n →
    ∀ events pre : List DirectoryEvent, pre <+: events →
      Agrees order (pre.foldl (Directory.step db order) (.start n)) := by
  intro hclaim
  have hagrees := hclaim literalSqlite literalSqlite_documented .littleEndian 2 (Nat.le_refl 2)
    [wavLog localPeer (randStr (List.replicate 99 0)) (by decide) (by decide)] _ (List.prefix_refl _)
  have hrow := (hagrees.mem_iff _).mpr ⟨1, by decide, _, rfl, rfl, rfl⟩
  exact absurd hrow (by decide)

end EmotionStreamer.InterlvlCom
