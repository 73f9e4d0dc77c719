import EmotionStreamer.CStrings
import EmotionStreamer.Slices

/-! `show_servers` and its callback `send_show_servers`: the rows of the table `Servers`, each
formatted into a buffer and sent as one message. A negative size for `snprintf` is a fault. -/
namespace EmotionStreamer.ServersListing
open CStrings Slices

inductive Fault
  | remaining (size : ℤ)
  deriving DecidableEq, Repr

/-- `sizeof(buff)` -/
def buffSize : ℕ := defDatasize - 1

/-- `buff`, and how far `ptr` is from its start. -/
structure Buff where
  cells : List Char
  ptr : ℕ
  deriving DecidableEq, Repr

def Buff.start : Buff := ⟨List.replicate buffSize '\x00', 0⟩

/-- `ptr+=snprintf(ptr,(int)((buff+sizeof(buff)-1)-ptr),..)`: the pointer is moved by the length
of the whole text. -/
def Buff.append (b : Buff) (s : List Char) : Except Fault Buff :=
  let remaining : ℤ := (buffSize : ℤ) - 1 - b.ptr
  if remaining < 0 then .error (.remaining remaining)
  else
    let stored := if remaining = 0 then [] else snprintf remaining.toNat s ++ ['\x00']
    .ok ⟨splice b.cells b.ptr stored, b.ptr + s.length⟩

/-- `"%s %s %s"` for one column -/
def columnText (first last : Bool) (col : List Char) : List Char :=
  (if first then ['['] else []) ++ ' ' :: (col ++ [' ', if last then ']' else '|'])

def formatColumns (first : Bool) : List (List Char) → Buff → Except Fault Buff
  | [], b => .ok b
  | col :: cols, b => do
    let b ← b.append (columnText first cols.isEmpty col)
    formatColumns false cols b

/-- The state of `buff` and the message that is sent. -/
structure Sent where
  ptr : ℕ
  tcpData : List Char
  deriving DecidableEq, Repr

def sendShowServers (cols : List (List Char)) : Except Fault Sent := do
  let buff ← formatColumns true cols .start
  let clear := List.replicate (defDatasize + 1) '\x00'
  return ⟨buff.ptr, store clear (snprintf (defDatasize - 1) (ofBuffer buff.cells))⟩

def sendRows : List (List (List Char)) → Except Fault (List (List Char))
  | [] => .ok []
  | cols :: rows => do
    let sent ← sendShowServers cols
    let more ← sendRows rows
    return sent.tcpData :: more

/-- `SERVER_LIST_HEADER` -/
def serverListHeader : List Char :=
  ("------------------CABEÇALHO DA LISTA DE DOWNS DESTE NODO!!!!!!-----------------------\n" ++
    "\n[ MODULE_TYPE | id | MODULE_NAME | MODULE_ADDR | FILE_EXT | USING_TLS ]\n").toList

/-- A row as it is meant to be shown. -/
def rowText (cols : List (List Char)) : List Char :=
  if cols = [] then []
  else '[' :: (List.intercalate ['|'] (cols.map fun col => ' ' :: (col ++ [' '])) ++ [']'])

/-- The texts of the columns of a row. -/
structure Columns where
  cols : List (List Char)
  nul_free : ∀ col ∈ cols, '\x00' ∉ col

/-- Nothing is written or pointed to outside `buff`, and the row is sent as far as `buff` can
hold it. -/
def Bounded (row : Columns) : Prop :=
  ∃ sent, sendShowServers row.cols = .ok sent ∧ sent.ptr < buffSize ∧
    ofBuffer sent.tcpData = (rowText row.cols).take (buffSize - 1)

variable {b b' : Buff} {first : Bool} {s : List Char} {col : List Char} {cols : List (List Char)}

/-- What all columns together put behind each other. -/
def columnsText (first : Bool) : List (List Char) → List Char
  | [] => []
  | col :: cols => columnText first cols.isEmpty col ++ columnsText false cols

theorem columnsText_eq (first : Bool) (col : List Char) (cols : List (List Char)) :
    columnsText first (col :: cols) = (if first then ['['] else []) ++
      (List.intercalate ['|'] ((col :: cols).map fun col => ' ' :: (col ++ [' '])) ++ [']']) := by
  induction cols generalizing first col with
  | nil => simp [columnsText, columnText]
  | cons next cols ih =>
    rw [columnsText, ih, columnText, List.map_cons, List.map_cons, List.map_cons,
      List.intercalate_cons_cons]
    simp

theorem length_le_columnsText (first : Bool) (hcol : col ∈ cols) :
    col.length ≤ (columnsText first cols).length := by
  induction cols generalizing first with
  | nil => cases hcol
  | cons next cols ih =>
    rw [columnsText, List.length_append]
    obtain rfl | hcol := List.mem_cons.mp hcol
    · simp only [columnText, List.length_append, List.length_cons]
      omega
    · have := ih false hcol
      omega

theorem columnsText_true (cols : List (List Char)) : columnsText true cols = rowText cols := by
  cases cols with
  | nil => rfl
  | cons col cols => rw [columnsText_eq, rowText, if_neg (List.cons_ne_nil col cols)]; rfl

/-- The buffer holds a text that fits, and points behind it. -/
def Holds (b : Buff) (s : List Char) : Prop := b = ⟨toBuffer buffSize s, s.length⟩

theorem Holds.append {t : List Char} (h : Holds b s) (hlen : s.length + t.length < buffSize - 1) :
    ∃ b', b.append t = .ok b' ∧ Holds b' (s ++ t) := by
  obtain rfl := h
  have hsize : buffSize = 255 := rfl
  have hfits : snprintf ((buffSize : ℤ) - 1 - s.length).toNat t = t := snprintf_fits (by omega)
  have hroom : ¬(buffSize : ℤ) - 1 - s.length < 0 := by omega
  have hmore : (buffSize : ℤ) - 1 - s.length ≠ 0 := by omega
  have htake : (toBuffer buffSize s).take s.length = s := List.take_left
  have hdrop : (toBuffer buffSize s).drop (s.length + (t ++ ['\x00']).length) =
      List.replicate (buffSize - (s ++ t).length - 1) '\x00' := by
    rw [← List.drop_drop, toBuffer, List.drop_left, List.drop_replicate]
    congr 1
    simp only [List.length_append, List.length_singleton]
    omega
  have hzero : buffSize - (s ++ t).length = buffSize - (s ++ t).length - 1 + 1 := by
    rw [List.length_append]
    omega
  have hcells : splice (toBuffer buffSize s) s.length (t ++ ['\x00']) = toBuffer buffSize (s ++ t) := by
    rw [splice, htake, hdrop, toBuffer, hzero, List.replicate_succ, List.append_assoc,
      List.append_assoc]
    rfl
  refine ⟨_, ?_, rfl⟩
  simp only [Buff.append, hroom, hmore, ↓reduceIte, hfits, hcells, List.length_append]

theorem formatColumns_holds (first : Bool) (h : Holds b s)
    (hlen : s.length + (columnsText first cols).length < buffSize - 1) :
    ∃ b', formatColumns first cols b = .ok b' ∧ Holds b' (s ++ columnsText first cols) := by
  induction cols generalizing first b s with
  | nil => exact ⟨b, rfl, by rwa [columnsText, List.append_nil]⟩
  | cons col cols ih =>
    rw [columnsText, List.length_append] at hlen
    obtain ⟨b', happend, hholds⟩ := h.append (t := columnText first cols.isEmpty col) (by omega)
    obtain ⟨b'', hrest, hholds'⟩ :=
      ih false hholds (by rw [List.length_append]; omega)
    refine ⟨b'', ?_, ?_⟩
    · rw [formatColumns, happend]
      exact hrest
    · rwa [columnsText, ← List.append_assoc]

/-- However long the texts are, the last place but one stays empty. -/
structure Capped (b : Buff) : Prop where
  length : b.cells.length = buffSize
  zero : b.cells[buffSize - 2]? = some '\x00'

theorem Capped.append (h : Capped b) (ha : b.append s = .ok b') :
    Capped b' ∧ b'.ptr = b.ptr + s.length := by
  have hsize : buffSize = 255 := rfl
  have hlen := h.length
  have hzero := h.zero
  rw [Buff.append] at ha
  split at ha
  · cases ha
  rename_i hneg
  obtain rfl := Except.ok.inj ha
  refine ⟨?_, rfl⟩
  by_cases hrem : (buffSize : ℤ) - 1 - b.ptr = 0
  · simp only [if_pos hrem]
    have hfits : b.ptr + ([] : List Char).length ≤ b.cells.length := by
      rw [List.length_nil]
      omega
    refine ⟨by rw [splice_length hfits, hlen], ?_⟩
    rw [splice_getElem? hfits, if_neg (by rw [List.length_nil]; omega), hzero]
  · simp only [if_neg hrem]
    have hstored : (snprintf ((buffSize : ℤ) - 1 - b.ptr).toNat s).length ≤ buffSize - 2 - b.ptr := by
      rw [snprintf, List.length_take]
      omega
    have hfits : b.ptr + (snprintf ((buffSize : ℤ) - 1 - b.ptr).toNat s ++ ['\x00']).length ≤
        b.cells.length := by
      rw [List.length_append, List.length_singleton]
      omega
    refine ⟨by rw [splice_length hfits, hlen], ?_⟩
    rw [splice_getElem? hfits]
    split
    · -- only the terminator is ever put there
      rename_i hin
      rw [List.length_append, List.length_singleton] at hin
      rw [List.getElem?_append_right (by omega),
        show buffSize - 2 - b.ptr - (snprintf ((buffSize : ℤ) - 1 - b.ptr).toNat s).length = 0 by omega]
      rfl
    · exact hzero

theorem formatColumns_capped (h : Capped b) (hf : formatColumns first cols b = .ok b') :
    Capped b' ∧ b'.ptr = b.ptr + (columnsText first cols).length := by
  induction cols generalizing first b with
  | nil =>
    obtain rfl := Except.ok.inj hf
    exact ⟨h, rfl⟩
  | cons col cols ih =>
    rw [formatColumns] at hf
    cases happend : b.append (columnText first cols.isEmpty col) with
    | error e => rw [happend] at hf; cases hf
    | ok next =>
      rw [happend] at hf
      obtain ⟨hnext, hptr⟩ := h.append happend
      obtain ⟨hlast, hptr'⟩ := ih hnext hf
      refine ⟨hlast, ?_⟩
      rw [hptr', hptr, columnsText, List.length_append, Nat.add_assoc]

theorem Capped.start : Capped .start := by
  refine ⟨List.length_replicate, ?_⟩
  rw [Buff.start, List.getElem?_replicate, if_pos (by decide)]

theorem Capped.text_length (h : Capped b) : (ofBuffer b.cells).length ≤ buffSize - 2 := by
  by_contra hlong
  have hlt : buffSize - 2 < (ofBuffer b.cells).length := by omega
  have hprefix : ofBuffer b.cells <+: b.cells := List.takeWhile_prefix _
  obtain ⟨rest, hrest⟩ := hprefix
  have hzero := h.zero
  rw [← hrest, List.getElem?_append_left hlt] at hzero
  exact nul_not_mem_ofBuffer _ (List.mem_of_getElem? hzero)

/-- What the receiver reads of a string that was put into `tcp_data`. -/
theorem message_text {t : List Char} (ht : '\x00' ∉ t) (tcpData : List Char) :
    ofBuffer (store tcpData (snprintf (defDatasize - 1) t)) = t.take (buffSize - 1) := by
  have hcut : snprintf (defDatasize - 1) t = t.take (buffSize - 1) := rfl
  rw [ofBuffer_store, hcut, ofBuffer_eq_self fun h => ht (List.mem_of_mem_take h)]

theorem sendShowServers_eq_ok {sent : Sent} :
    sendShowServers cols = .ok sent ↔ ∃ b, formatColumns true cols .start = .ok b ∧
      sent = ⟨b.ptr, store (List.replicate (defDatasize + 1) '\x00')
        (snprintf (defDatasize - 1) (ofBuffer b.cells))⟩ := by
  rw [sendShowServers]
  cases formatColumns true cols .start with
  | error e => exact iff_of_false (fun h => by cases h) (fun ⟨_, h, _⟩ => by cases h)
  | ok b =>
    constructor
    · intro h
      exact ⟨b, rfl, (Except.ok.inj h).symm⟩
    · rintro ⟨_, h, rfl⟩
      obtain rfl := Except.ok.inj h
      rfl

theorem columnsText_nul_free (hcols : ∀ col ∈ cols, '\x00' ∉ col) :
    '\x00' ∉ columnsText first cols := by
  induction cols generalizing first with
  | nil => exact List.not_mem_nil
  | cons col cols ih =>
    have hcol := hcols col List.mem_cons_self
    rw [columnsText, List.mem_append, not_or]
    refine ⟨?_, ih fun c hc => hcols c (List.mem_cons_of_mem _ hc)⟩
    simp only [columnText, List.mem_append, List.mem_cons, hcol]
    split <;> split <;> simp

/-- A row is sent as it should be exactly when it leaves a place of `buff` unused. -/
theorem row_bounded_iff (row : Columns) : Bounded row ↔ (rowText row.cols).length < buffSize - 1 := by
  have hsize : buffSize = 255 := rfl
  have hdata : defDatasize = 256 := rfl
  rw [Bounded, ← columnsText_true]
  constructor
  · rintro ⟨sent, hsent, hptr, htext⟩
    obtain ⟨b, hb, rfl⟩ := sendShowServers_eq_ok.mp hsent
    obtain ⟨hcapped, hend⟩ := formatColumns_capped .start hb
    have hlen := hcapped.text_length
    rw [message_text (nul_not_mem_ofBuffer _)] at htext
    have hcount := congrArg List.length htext
    rw [List.length_take, List.length_take] at hcount
    have hstart : Buff.start.ptr = 0 := rfl
    simp only at hptr
    omega
  · intro hlt
    obtain ⟨b, hb, hholds⟩ := formatColumns_holds true (s := []) (b := .start) rfl
      (by rw [List.length_nil, Nat.zero_add]; exact hlt)
    obtain rfl := hholds
    have hnul : '\x00' ∉ columnsText true row.cols := columnsText_nul_free row.nul_free
    refine ⟨_, sendShowServers_eq_ok.mpr ⟨_, hb, rfl⟩, ?_, ?_⟩
    · simp only [List.nil_append]
      omega
    · rw [List.nil_append, message_text (nul_not_mem_ofBuffer _), ofBuffer_toBuffer hnul]

/-- The message of a row that leaves a place of `buff` unused. -/
theorem sendShowServers_eq (hcols : ∀ col ∈ cols, '\x00' ∉ col)
    (h : (rowText cols).length < buffSize - 1) : sendShowServers cols = .ok ⟨(rowText cols).length,
      store (List.replicate (defDatasize + 1) '\x00') (rowText cols)⟩ := by
  rw [← columnsText_true] at h ⊢
  have hfits : snprintf (defDatasize - 1) (columnsText true cols) = columnsText true cols :=
    snprintf_fits (h.trans (by decide))
  obtain ⟨b, hb, hholds⟩ := formatColumns_holds true (s := []) (b := .start) rfl
    (by rwa [List.length_nil, Nat.zero_add])
  obtain rfl := hholds
  refine sendShowServers_eq_ok.mpr ⟨_, hb, ?_⟩
  rw [List.nil_append, ofBuffer_toBuffer (columnsText_nul_free hcols), hfits]

theorem sendRows_eq {rows : List (List (List Char))}
    (hrows : ∀ cols ∈ rows, (∀ col ∈ cols, '\x00' ∉ col) ∧ (rowText cols).length < buffSize - 1) :
    sendRows rows = .ok (rows.map fun cols =>
      store (List.replicate (defDatasize + 1) '\x00') (rowText cols)) := by
  induction rows with
  | nil => rfl
  | cons cols rows ih =>
    obtain ⟨hnul, hlen⟩ := hrows cols List.mem_cons_self
    rw [sendRows, sendShowServers_eq hnul hlen, ih fun r hr => hrows r (List.mem_cons_of_mem _ hr)]
    rfl

/-- A row whose name was registered as an expression that gives 400 digits. -/
def longCols : List (List Char) :=
  ["server_mod".toList, ['4'], List.replicate 400 '0', "127.0.0.1:5000".toList, ".mp3".toList,
    ['1']]

theorem longCols_nul_free : ∀ col ∈ longCols, '\x00' ∉ col := by
  simp [longCols, List.mem_replicate, -List.reduceReplicate]

theorem not_bounded_of_long {row : Columns} (hcol : col ∈ row.cols) (hlong : buffSize ≤ col.length) :
    ¬Bounded row := by
  rintro ⟨sent, hsent, hptr, -⟩
  obtain ⟨b, hb, rfl⟩ := sendShowServers_eq_ok.mp hsent
  obtain ⟨-, hend⟩ := formatColumns_capped .start hb
  have hlen := length_le_columnsText true hcol
  simp only at hptr
  omega

theorem longCols_not_bounded : ¬∀ row : Columns, Bounded row := by
  intro h
  have hname : List.replicate 400 '0' ∈ longCols :=
    List.mem_cons_of_mem _ (List.mem_cons_of_mem _ List.mem_cons_self)
  refine not_bounded_of_long hname ?_ (h ⟨longCols, longCols_nul_free⟩)
  rw [List.length_replicate]
  decide

end EmotionStreamer.ServersListing
