import EmotionStreamer.CStrings
import EmotionStreamer.Preprocessor
import Mathlib.Tactic.Ring
import Mathlib.Tactic.SplitIfs

/-! Registration with an overseer: the `LOG` message that `slave_thread` builds, and what
`acceptor_func` makes of it for `add_con`. -/
namespace EmotionStreamer.InterlvlCom
open CStrings

def protoArrSize : ℕ := 8

/-- What `htons` and `ntohs` do depends on the byte order of the host. -/
inductive ByteOrder
  | littleEndian
  | bigEndian
  deriving DecidableEq, Repr

def ByteOrder.htons : ByteOrder → UInt16 → UInt16
  | .littleEndian, n => .ofNat (n.toNat % 256 * 256 + n.toNat / 256)
  | .bigEndian, n => n

inductive ModuleType
  | server
  | hbServer
  | mServer
  | typeNa
  deriving DecidableEq, Repr

def ModuleType.value : ModuleType → UInt16
  | .server => 40
  | .hbServer => 60
  | .mServer => 80
  | .typeNa => 100

def moduleTypeToString (type : UInt16) : List Char :=
  if type = 40 then "server_mod".toList
  else if type = 60 then "heartbeat_mod".toList
  else if type = 80 then "master_mod".toList
  else "NA_mod".toList

/-- `LOG` of `interlvl_cmd` -/
def log : UInt16 := 20

/-- What a `slave_thread` registers: an extension without blanks, and a name that fits
behind it. -/
structure Registration where
  type : ModuleType
  port : UInt16
  isTls : UInt16
  extension : List Char
  name : List Char
  extension_word : ∀ c ∈ extension, isSpace c = false
  extension_text : '\x00' ∉ extension
  extension_length : extension.length ≤ extensionSize
  name_text : '\x00' ∉ name
  fits : extension.length + 1 + name.length < defDatasize - protoArrSize

/-- The bytes of a message: the cells at the front, and the characters behind them. -/
structure Request where
  protoArray : Vector UInt16 4
  text : List Char

/-- `this_addr.sin_port` is in network byte order, and is converted once more. -/
def slaveThread (order : ByteOrder) (r : Registration) : Request where
  protoArray := #v[order.htons log, order.htons r.type.value,
    order.htons (order.htons r.port), order.htons r.isTls]
  text := toBuffer (defDatasize - protoArrSize)
    (snprintf (defDatasize - protoArrSize) (r.extension ++ ' ' :: r.name))

/-- The descriptor from `accept`, and the address that `inet_ntoa` writes. -/
structure Peer where
  sock : ℕ
  addr : List Char
  sock_lt : sock < 2147483648
  addr_length : addr.length ≤ 15
  addr_text : ∀ c ∈ addr, c.isDigit = true ∨ c = '.'

/-- The arguments of `add_con`, the set and the connection apart. -/
structure AddConArgs where
  typeBuff : List Char
  id : ℕ
  nameBuff : List Char
  ipBuff : List Char
  storedPort : UInt16
  extensionBuff : List Char
  usingTls : UInt16

inductive Fault
  | extensionBuff (length : ℕ)
  deriving DecidableEq, Repr

/-- `sscanf` leaves `extension_buff` as an earlier request has left it when it finds no
word, and writes behind its end when the word is too long. -/
def scanExtension (extensionBuff : List Char) (text : List Char) : Except Fault (List Char) :=
  match scanWord (ofBuffer text) with
  | none => .ok extensionBuff
  | some word => if word.length ≤ extensionSize then .ok word else .error (.extensionBuff word.length)

/-- What `acceptor_func` gives to `add_con` when it has found the extension. -/
def addConArgs (order : ByteOrder) (peer : Peer) (req : Request) (extension : List Char) :
    AddConArgs where
  typeBuff := moduleTypeToString (order.htons req.protoArray[1])
  id := peer.sock
  nameBuff := snprintf (pathsize + 3) (ofBuffer (req.text.drop (min extension.length 4)))
  ipBuff := snprintf (pathsize / 4 - 1) peer.addr
  storedPort := order.htons req.protoArray[2]
  extensionBuff := extension
  usingTls := order.htons req.protoArray[3]

/-- The arguments for `add_con`, unless the request is another one than `LOG`. -/
def acceptorFunc (order : ByteOrder) (extensionBuff : List Char) (peer : Peer) (req : Request) :
    Except Fault (Option AddConArgs) :=
  if order.htons req.protoArray[0] = log then
    (scanExtension extensionBuff req.text).map fun extension =>
      some (addConArgs order peer req extension)
  else .ok none

def quoted (s : List Char) : List Char := '\'' :: (s ++ ['\''])
def comma : List Char := [',', ' ']

/-- `'%s', %d, %s, '%s:%hu', '%s', %hu` -/
def entryText (typeBuff : List Char) (id : ℕ) (nameBuff ipBuff : List Char) (port : ℕ)
    (extensionBuff : List Char) (usingTls : ℕ) : List Char :=
  quoted typeBuff ++ comma ++ Nat.toDigits 10 id ++ comma ++ nameBuff ++ comma ++
    quoted (ipBuff ++ ':' :: Nat.toDigits 10 port) ++ comma ++ quoted extensionBuff ++ comma ++
    Nat.toDigits 10 usingTls

/-- The text that `add_con` stores. -/
def bigBuff (order : ByteOrder) (a : AddConArgs) : List Char :=
  snprintf (pathsize * 6 - 1) (entryText a.typeBuff a.id a.nameBuff a.ipBuff
    (order.htons a.storedPort).toNat a.extensionBuff a.usingTls.toNat)

/-- The name behind the blank that separates it from the extension. -/
def dropSeparator : List Char → List Char
  | ' ' :: name => name
  | name => name

/-- The fields given to `add_con` are the ones sent, and the text shows the port. -/
def Registered (order : ByteOrder) (extensionBuff : List Char) (peer : Peer)
    (r : Registration) : Prop :=
  ∃ a, acceptorFunc order extensionBuff peer (slaveThread order r) = .ok (some a) ∧
    a.typeBuff = moduleTypeToString r.type.value ∧ a.extensionBuff = r.extension ∧
    dropSeparator a.nameBuff = r.name ∧ a.usingTls = r.isTls ∧
    bigBuff order a = entryText a.typeBuff a.id a.nameBuff a.ipBuff r.port.toNat
      a.extensionBuff a.usingTls.toNat

variable {order : ByteOrder} {extensionBuff : List Char} {peer : Peer} {r : Registration}

@[simp] theorem htons_htons (order : ByteOrder) (n : UInt16) : order.htons (order.htons n) = n := by
  cases order with
  | bigEndian => rfl
  | littleEndian =>
    have hn := n.toNat_lt
    have hfits : n.toNat % 256 * 256 + n.toNat / 256 < UInt16.size := by
      simp only [UInt16.size]
      omega
    have hlow : (n.toNat % 256 * 256 + n.toNat / 256) % 256 = n.toNat / 256 := by omega
    have hhigh : (n.toNat % 256 * 256 + n.toNat / 256) / 256 = n.toNat % 256 := by omega
    have hinner : (UInt16.ofNat (n.toNat % 256 * 256 + n.toNat / 256)).toNat =
        n.toNat % 256 * 256 + n.toNat / 256 := UInt16.toNat_ofNat_of_lt hfits
    have hback : n.toNat / 256 * 256 + n.toNat % 256 = n.toNat := by omega
    rw [ByteOrder.htons, ByteOrder.htons, hinner, hlow, hhigh, hback, UInt16.ofNat_toNat]

theorem text_eq (r : Registration) : (slaveThread order r).text =
    toBuffer (defDatasize - protoArrSize) (r.extension ++ ' ' :: r.name) := by
  have hfits := r.fits
  rw [slaveThread, snprintf_fits]
  rw [List.length_append, List.length_cons]
  omega

theorem text_terminated (r : Registration) : '\x00' ∉ r.extension ++ ' ' :: r.name := by
  intro h
  rcases List.mem_append.mp h with h | h
  · exact r.extension_text h
  · rcases List.mem_cons.mp h with h | h
    · exact absurd h (by decide)
    · exact r.name_text h

/-- The name is what stands behind as many characters as the extension found, four at most. -/
theorem nameBuff_eq {k : ℕ} (hk : k ≤ (r.extension ++ ' ' :: r.name).length) :
    snprintf (pathsize + 3) (ofBuffer ((slaveThread order r).text.drop k)) =
      (r.extension ++ ' ' :: r.name).drop k := by
  have hfits := r.fits
  rw [text_eq, ofBuffer_drop_toBuffer (text_terminated r) _ hk, snprintf_fits]
  rw [List.length_drop, List.length_append, List.length_cons]
  simp only [defDatasize, protoArrSize, pathsize] at hfits ⊢
  omega

theorem scanExtension_eq (r : Registration) : scanExtension extensionBuff (slaveThread order r).text =
    if r.extension ≠ [] then .ok r.extension
    else match scanWord r.name with
      | none => .ok extensionBuff
      | some word => if word.length ≤ extensionSize then .ok word
        else .error (.extensionBuff word.length) := by
  rw [scanExtension, text_eq, ofBuffer_toBuffer (text_terminated r)]
  by_cases hne : r.extension = []
  · rw [if_neg (not_not.mpr hne), hne, List.nil_append, scanWord_cons_blank]
  · rw [if_pos hne, scanWord_append r.extension_word hne]
    exact if_pos r.extension_length

theorem toDigits_length_le {n k : ℕ} (hk : 0 < k) (h : n < 10 ^ k) :
    (Nat.toDigits 10 n).length ≤ k :=
  (Nat.length_toDigits_le_iff (by decide) hk).mpr h

theorem moduleTypeToString_length (type : UInt16) : (moduleTypeToString type).length ≤ 13 := by
  unfold moduleTypeToString
  split_ifs <;> decide

theorem entryText_length (typeBuff : List Char) (id : ℕ) (nameBuff ipBuff : List Char) (port : ℕ)
    (extensionBuff : List Char) (usingTls : ℕ) :
    (entryText typeBuff id nameBuff ipBuff port extensionBuff usingTls).length =
      typeBuff.length + (Nat.toDigits 10 id).length + nameBuff.length + ipBuff.length +
        (Nat.toDigits 10 port).length + extensionBuff.length +
        (Nat.toDigits 10 usingTls).length + 17 := by
  simp only [entryText, quoted, comma, List.length_append, List.length_cons, List.length_nil]
  ring

/-- The text is never cut. -/
theorem bigBuff_eq (order : ByteOrder) {a : AddConArgs} (htype : a.typeBuff.length ≤ 13)
    (hid : a.id < 2147483648) (hname : a.nameBuff.length < 260) (hip : a.ipBuff.length ≤ 15)
    (hext : a.extensionBuff.length ≤ extensionSize) :
    bigBuff order a = entryText a.typeBuff a.id a.nameBuff a.ipBuff (order.htons a.storedPort).toNat
      a.extensionBuff a.usingTls.toNat := by
  have hshort : ∀ n : UInt16, (Nat.toDigits 10 n.toNat).length ≤ 5 := fun n => by
    have hn := n.toNat_lt
    exact toDigits_length_le (by omega) (by omega)
  have hport := hshort (order.htons a.storedPort)
  have htls := hshort a.usingTls
  have hmax : 2147483648 < 10 ^ 10 := by decide
  have hsock := toDigits_length_le (k := 10) (by decide) (hid.trans hmax)
  apply snprintf_fits
  rw [entryText_length]
  simp only [extensionSize, pathsize] at hext ⊢
  omega

theorem acceptorFunc_eq : acceptorFunc order extensionBuff peer (slaveThread order r) =
    (scanExtension extensionBuff (slaveThread order r).text).map fun extension =>
      some (addConArgs order peer (slaveThread order r) extension) :=
  if_pos (htons_htons order log)

/-- Type, flag and port arrive in any case, whatever extension has been found. -/
theorem addConArgs_spec {extension : List Char} (hle : extension.length ≤ extensionSize)
    {a : AddConArgs} (ha : a = addConArgs order peer (slaveThread order r) extension)
    (hname : a.nameBuff.length < 260) :
    a.typeBuff = moduleTypeToString r.type.value ∧ a.usingTls = r.isTls ∧
      bigBuff order a = entryText a.typeBuff a.id a.nameBuff a.ipBuff r.port.toNat
        a.extensionBuff a.usingTls.toNat := by
  have htype : order.htons (slaveThread order r).protoArray[1] = r.type.value := htons_htons order _
  have hport : order.htons (slaveThread order r).protoArray[2] = order.htons r.port :=
    htons_htons order _
  have htls : order.htons (slaveThread order r).protoArray[3] = r.isTls := htons_htons order _
  subst ha
  refine ⟨congrArg moduleTypeToString htype, htls, ?_⟩
  rw [bigBuff_eq order (moduleTypeToString_length _) peer.sock_lt hname
    ((List.length_take_le' _ _).trans peer.addr_length) hle]
  simp only [addConArgs, hport, htons_htons]

/-- The extension is one to four characters long, or it is empty, the name has no word in
it, and no earlier request has left an extension behind. -/
def Separable (extensionBuff : List Char) (r : Registration) : Prop :=
  1 ≤ r.extension.length ∧ r.extension.length ≤ 4 ∨
    r.extension = [] ∧ extensionBuff = [] ∧ ∀ c ∈ r.name, isSpace c = true

theorem registered_of_separable (h : Separable extensionBuff r) :
    Registered order extensionBuff peer r := by
  have hfits := r.fits
  have hscan : scanExtension extensionBuff (slaveThread order r).text = .ok r.extension := by
    rw [scanExtension_eq]
    rcases h with ⟨hone, -⟩ | ⟨hnil, hbuff, hblank⟩
    · exact if_pos (List.length_pos_iff.mp hone)
    · rw [if_neg (not_not.mpr hnil), scanWord_eq_none_iff.mpr hblank, hnil, hbuff]
  have hfour : r.extension.length ≤ 4 := by
    rcases h with ⟨-, hle⟩ | ⟨hnil, -⟩
    · exact hle
    · simp [hnil]
  have hname : (addConArgs order peer (slaveThread order r) r.extension).nameBuff =
      ' ' :: r.name := by
    rw [addConArgs, nameBuff_eq (by simp), Nat.min_eq_left hfour, List.drop_left]
  have hrun : acceptorFunc order extensionBuff peer (slaveThread order r) = _ := acceptorFunc_eq
  rw [hscan] at hrun
  have hshort : (addConArgs order peer (slaveThread order r) r.extension).nameBuff.length < 260 := by
    rw [hname, List.length_cons]
    simp only [defDatasize, protoArrSize] at hfits
    omega
  obtain ⟨htype, htls, htext⟩ := addConArgs_spec r.extension_length rfl hshort
  exact ⟨_, hrun, htype, rfl, by rw [hname]; rfl, htls, htext⟩

/-- With a longer extension its end is taken for the beginning of the name. -/
theorem dropSeparator_ne {extension name : List Char} (hext : ∀ c ∈ extension, isSpace c = false)
    (hne : extension ≠ []) : dropSeparator (extension ++ ' ' :: name) ≠ name := by
  obtain ⟨c, rest, rfl⟩ := List.exists_cons_of_ne_nil hne
  have hc : c ≠ ' ' := fun he => absurd (hext c List.mem_cons_self) (by rw [he]; decide)
  have hkeep : dropSeparator (c :: rest ++ ' ' :: name) = c :: rest ++ ' ' :: name := by
    unfold dropSeparator
    split
    · rename_i heq
      exact absurd (List.cons.inj heq).1 hc
    · rfl
  intro heq
  have hlen := congrArg List.length (hkeep.symm.trans heq)
  simp only [List.length_append, List.length_cons] at hlen
  omega

theorem separable_of_registered (h : Registered order extensionBuff peer r) :
    Separable extensionBuff r := by
  obtain ⟨a, hrun, -, hext, hname, -, -⟩ := h
  rw [acceptorFunc_eq] at hrun
  cases hscan : scanExtension extensionBuff (slaveThread order r).text with
  | error fault =>
    rw [hscan] at hrun
    cases hrun
  | ok extension =>
    rw [hscan] at hrun
    cases hrun
    have hfound : extension = r.extension := hext
    subst hfound
    rw [scanExtension_eq] at hscan
    by_cases hnil : r.extension = []
    · rw [if_neg (not_not.mpr hnil)] at hscan
      cases hword : scanWord r.name with
      | none =>
        rw [hword] at hscan
        refine Or.inr ⟨hnil, ?_, scanWord_eq_none_iff.mp hword⟩
        exact (Except.ok.inj hscan).trans hnil
      | some word =>
        rw [hword] at hscan
        simp only at hscan
        split_ifs at hscan
        exact absurd ((Except.ok.inj hscan).trans hnil) (scanWord_ne_nil hword)
    · refine Or.inl ⟨List.length_pos_iff.mpr hnil, ?_⟩
      by_contra hlong
      have hfour : min r.extension.length 4 = 4 := Nat.min_eq_right (by omega)
      rw [addConArgs, nameBuff_eq (by simp), hfour, List.drop_append_of_le_length (by omega)] at hname
      refine dropSeparator_ne ?_ ?_ hname
      · intro c hc
        exact r.extension_word c (List.mem_of_mem_drop hc)
      · intro hdrop
        have := congrArg List.length hdrop
        simp only [List.length_drop, List.length_nil] at this
        omega

/-- Whatever an acceptor has left in its buffer, on a host of either byte order. -/
theorem registered_iff (order : ByteOrder) (extensionBuff : List Char) (peer : Peer)
    (r : Registration) : Registered order extensionBuff peer r ↔ Separable extensionBuff r :=
  ⟨separable_of_registered, registered_of_separable⟩

/-- A server for `.flac` files; its name is stored as `c nocturne`. -/
def flacServer : Registration where
  type := .server
  port := 9000
  isTls := 0
  extension := ".flac".toList
  name := "nocturne".toList
  extension_word := by simp [isSpace]
  extension_text := by decide
  extension_length := by decide
  name_text := by decide
  fits := by decide

theorem long_extension_misread : ¬ ∀ (order : ByteOrder) (peer : Peer) (r : Registration),
    Registered order [] peer r := by
  intro hclaim
  have peer : Peer := ⟨4, "127.0.0.1".toList, by decide, by decide, by simp⟩
  rcases separable_of_registered (hclaim .littleEndian peer flacServer) with ⟨-, hfour⟩ | ⟨hnil, -⟩
  · exact absurd hfour (by decide)
  · exact absurd hnil (by decide)

end EmotionStreamer.InterlvlCom
