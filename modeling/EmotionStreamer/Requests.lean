import EmotionStreamer.Framing
import EmotionStreamer.LittleEndian

/-! A request of the client and what `con_go` makes of it, and the header in which the server
tells the size of the file. Both are messages of `DEF_DATASIZE` bytes. -/
namespace EmotionStreamer.Requests
open Slices LittleEndian
open Framing (message)

/-- What `htons` and `htonl` put in memory, most significant byte first. -/
def netBytes (width n : ℕ) : List UInt8 := (toBytes width n).reverse

/-- `ntohs` and `ntohl` -/
def ofNetBytes (bytes : List UInt8) : ℕ := ofBytes bytes.reverse

/-- `req_type` -/
inductive ReqType
  | play
  | config
  | peek
  | down
  | report
  | rotation
  | na
  deriving DecidableEq, Repr

def ReqType.value : ReqType → ℕ
  | .play => 0
  | .config => 1
  | .peek => 2
  | .down => 3
  | .report => 4
  | .rotation => 5
  | .na => 6

/-- An argument of the command line. -/
structure Arg where
  bytes : List UInt8
  nul_free : 0 ∉ bytes

/-- `tcp_data` after `clear_con_data` -/
def clearData : List UInt8 := List.replicate (defDatasize + 1) 0

/-- The message that `clientStart` sends, unless it exits because the type is unknown. -/
def clientStart (type : ReqType) (fileName : Arg) : Option (List UInt8) :=
  if type = .na then none
  else
    let tcpData := splice clearData 0 (netBytes 2 type.value)
    some (message (splice tcpData 2 (fileName.bytes.take (defDatasize - 2 - 1) ++ [0])))

/-- `recvd_type` and `file_name` in `con_go`, from a message that has been delivered whole. -/
def conGo (tcpData : List UInt8) : ℕ × List UInt8 :=
  let reqStringBuff := splice (List.replicate (defDatasize + 1) 0) 0 (tcpData.take defDatasize)
  (ofNetBytes (reqStringBuff.take 2),
    ((reqStringBuff.drop 2).takeWhile (· ≠ 0)).take (pathsize + 4 - 1))

/-- The server obtains what the client was given, or the client has refused it. -/
def Obtained (type : ReqType) (fileName : Arg) : Prop :=
  ∀ tcpData, clientStart type fileName = some tcpData →
    conGo tcpData = (type.value, fileName.bytes)

/-- What `send_download_sizes` puts in the message; a size is cut to 32 bits. -/
def sendDownloadSizes (fd : ℤ) (stSize : ℕ) (isWavMode : Bool) : List UInt8 :=
  let size := if 0 < fd then netBytes 4 stSize else intToBytes 4 (-1)
  message (splice (splice clearData 0 size) 4 (netBytes 2 isWavMode.toNat))

/-- What `down_file_size` returns, and `is_wav_mode` in the client. -/
def downFileSize (tcpData : List UInt8) : ℤ × ℤ :=
  ((ofNetBytes (slice tcpData 0 4) : ℤ).bmod uint32Size,
    (ofNetBytes (slice tcpData 4 2) : ℤ).bmod uint16Size)

/-- A size that an `off_t` holds. -/
structure FileSize where
  size : ℕ
  lt : size < 2 ^ 63

/-- The client knows the size of the file and the mode of the server. -/
def Told (fd : ℤ) (file : FileSize) (isWavMode : Bool) : Prop :=
  downFileSize (sendDownloadSizes fd file.size isWavMode) = ((file.size : ℤ), (isWavMode.toNat : ℤ))

variable {type : ReqType} {fileName : Arg} {fd : ℤ} {file : FileSize} {isWavMode : Bool}

@[simp] theorem netBytes_length (width n : ℕ) : (netBytes width n).length = width := by
  rw [netBytes, List.length_reverse, toBytes_length]

@[simp] theorem ofNetBytes_netBytes (width n : ℕ) :
    ofNetBytes (netBytes width n) = n % 256 ^ width := by
  rw [ofNetBytes, netBytes, List.reverse_reverse, ofBytes_toBytes]

theorem value_lt (type : ReqType) : type.value < 256 ^ 2 := by
  cases type <;> decide

/-- Two fields at the front of a message that was clear. -/
theorem message_eq {first second : List UInt8} {k : ℕ} (hfirst : first.length = k)
    (hfits : k + second.length ≤ defDatasize) :
    message (splice (splice clearData 0 first) k second) =
      first ++ (second ++ List.replicate (defDatasize - k - second.length) 0) := by
  have hfront : (first ++ List.replicate (defDatasize + 1 - k) (0 : UInt8)).take k = first := by
    rw [← hfirst, List.take_left]
  have hback : (first ++ List.replicate (defDatasize + 1 - k) (0 : UInt8)).drop (k + second.length) =
      List.replicate (defDatasize + 1 - k - second.length) 0 := by
    rw [← List.drop_drop, ← hfirst, List.drop_left, List.drop_replicate]
  have hlen : (first ++ second).length = k + second.length := by rw [List.length_append, hfirst]
  have hzeros : min (defDatasize - (k + second.length)) (defDatasize + 1 - k - second.length) =
      defDatasize - k - second.length := by omega
  rw [splice_zero, clearData, hfirst, List.drop_replicate, splice, hfront, hback, message, slice,
    List.drop_zero, ← List.append_assoc, List.take_append, hlen,
    List.take_of_length_le (hlen.trans_le hfits), List.take_replicate, hzeros, List.append_assoc]

theorem message_length {first second : List UInt8} {k : ℕ} (hfirst : first.length = k)
    (hfits : k + second.length ≤ defDatasize) :
    (message (splice (splice clearData 0 first) k second)).length = defDatasize := by
  rw [message_eq hfirst hfits, List.length_append, List.length_append, List.length_replicate]
  omega

/-- A text in front of zeros is found again. -/
theorem takeWhile_append_zeros {text : List UInt8} (h : 0 ∉ text) (k : ℕ) :
    (text ++ List.replicate k 0).takeWhile (· ≠ 0) = text := by
  have hne : ∀ b ∈ text, decide (b ≠ 0) = true := fun b hb => decide_eq_true fun he => h (he ▸ hb)
  rw [List.takeWhile_append_of_pos hne, List.takeWhile_replicate]
  simp

/-- What `con_go` makes of a type and a name that fits behind it. -/
theorem conGo_message (type : ReqType) {name : List UInt8} (hnul : 0 ∉ name)
    (hlen : name.length ≤ defDatasize - 3) :
    conGo (message (splice (splice clearData 0 (netBytes 2 type.value)) 2 (name ++ [0]))) =
      (type.value, name) := by
  have hfits : 2 + (name ++ [0]).length ≤ defDatasize := by
    rw [List.length_append, List.length_singleton]
    simp only [defDatasize] at hlen ⊢
    omega
  have hname : name.length ≤ pathsize + 4 - 1 := by
    simp only [defDatasize, pathsize] at hlen ⊢
    omega
  have hsize := message_length (netBytes_length 2 type.value) hfits
  have heq := message_eq (netBytes_length 2 type.value) hfits
  have htype : ofNetBytes (netBytes 2 type.value) = type.value := by
    rw [ofNetBytes_netBytes]
    exact Nat.mod_eq_of_lt (value_lt type)
  have hzeros : ∀ j k, name ++ [0] ++ List.replicate j (0 : UInt8) ++ List.replicate k 0 =
      name ++ List.replicate (1 + j + k) 0 := by
    intro j k
    have hone : [(0 : UInt8)] = List.replicate 1 0 := rfl
    simp only [hone, List.append_assoc, List.replicate_append_replicate, Nat.add_assoc]
  rw [conGo, List.take_of_length_le hsize.le, splice_zero, hsize, heq, List.drop_replicate,
    List.append_assoc, hzeros, List.take_left' (netBytes_length 2 _),
    List.drop_left' (netBytes_length 2 _), takeWhile_append_zeros hnul,
    List.take_of_length_le hname, htype]

/-- The server obtains what the client was given if and only if the client refuses it or the
name has no more than 253 bytes. -/
theorem obtained_iff (type : ReqType) (fileName : Arg) :
    Obtained type fileName ↔ type = .na ∨ fileName.bytes.length ≤ defDatasize - 3 := by
  by_cases hna : type = .na
  · refine iff_of_true ?_ (Or.inl hna)
    intro tcpData hsent
    rw [clientStart, if_pos hna] at hsent
    cases hsent
  have hnul : 0 ∉ fileName.bytes.take (defDatasize - 2 - 1) := fun hmem =>
    fileName.nul_free (List.mem_of_mem_take hmem)
  have hreceived := conGo_message type hnul (List.length_take_le _ _)
  have hobtained : Obtained type fileName ↔
      fileName.bytes.take (defDatasize - 2 - 1) = fileName.bytes := by
    simp only [Obtained, clientStart, if_neg hna, Option.some.injEq, forall_eq', hreceived,
      Prod.mk.injEq, true_and]
  rw [hobtained, or_iff_right hna, List.take_eq_self_iff]
  rfl

theorem nul_free_replicate (n : ℕ) : (0 : UInt8) ∉ List.replicate n 97 := fun hmem =>
  absurd (List.eq_of_mem_replicate hmem) (by decide)

def longName : Arg := ⟨List.replicate 254 97, nul_free_replicate 254⟩

/-- A name of 254 bytes arrives without its last one. -/
theorem long_name_is_cut : ¬ ∀ type fileName, Obtained type fileName := by
  intro hclaim
  have hobtained := hclaim .down longName _ rfl
  have hnul : 0 ∉ longName.bytes.take (defDatasize - 2 - 1) := fun hmem =>
    longName.nul_free (List.mem_of_mem_take hmem)
  rw [conGo_message _ hnul (List.length_take_le _ _), Prod.mk.injEq, List.take_eq_self_iff,
    longName, List.length_replicate] at hobtained
  exact absurd hobtained.2 (by decide)

/-- The two fields of the header are found where they were put. -/
theorem downFileSize_message {size flag : List UInt8} (hsize : size.length = 4)
    (hflag : flag.length = 2) :
    downFileSize (message (splice (splice clearData 0 size) 4 flag)) =
      ((ofNetBytes size : ℤ).bmod uint32Size, (ofNetBytes flag : ℤ).bmod uint16Size) := by
  have hfits : 4 + flag.length ≤ defDatasize := by
    rw [hflag]
    decide
  have hfirst : ∀ rest, slice (size ++ rest) 0 4 = size := fun rest => List.take_left' hsize
  have hsecond : ∀ rest, slice (size ++ (flag ++ rest)) 4 2 = flag := by
    intro rest
    rw [slice, List.drop_left' hsize, List.take_left' hflag]
  simp only [downFileSize, message_eq hsize hfits, hfirst, hsecond]

/-- A number of 31 bits is read as itself, and no other one is. -/
theorem bmod_eq_iff (n : ℕ) : ((n % uint32Size : ℕ) : ℤ).bmod uint32Size = n ↔ n < 2 ^ 31 := by
  rw [Int.natCast_emod, Int.emod_bmod]
  constructor
  · intro h
    have hlt := Int.bmod_lt (x := n) (m := uint32Size) (by decide)
    rw [h] at hlt
    simp only [uint32Size] at hlt
    omega
  · intro h
    apply Int.bmod_eq_of_le_mul_two <;> simp only [uint32Size] <;> omega

/-- The client is told the size and the mode if and only if the descriptor is positive and
the size has 31 bits. -/
theorem told_iff (fd : ℤ) (file : FileSize) (isWavMode : Bool) :
    Told fd file isWavMode ↔ 0 < fd ∧ file.size < 2 ^ 31 := by
  have hflag : ((ofNetBytes (netBytes 2 isWavMode.toNat) : ℕ) : ℤ).bmod uint16Size =
      isWavMode.toNat := by
    rw [ofNetBytes_netBytes]
    cases isWavMode <;> decide
  rw [Told, sendDownloadSizes]
  by_cases hfd : 0 < fd
  · rw [if_pos hfd, downFileSize_message (netBytes_length 4 _) (netBytes_length 2 _), hflag,
      ofNetBytes_netBytes, Prod.mk.injEq, and_iff_left rfl, and_iff_right hfd]
    exact bmod_eq_iff file.size
  · rw [if_neg hfd, downFileSize_message (intToBytes_length 4 _) (netBytes_length 2 _)]
    refine iff_of_false (fun htold => ?_) fun h => hfd h.1
    have hsize : ((ofNetBytes (intToBytes 4 (-1)) : ℕ) : ℤ).bmod uint32Size = -1 := by decide
    rw [hsize, Prod.mk.injEq] at htold
    omega

/-- A file of two gigabytes has a negative size. -/
theorem large_file_is_negative :
    ¬ ∀ (fd : ℤ) (file : FileSize) (isWavMode : Bool), 0 ≤ fd → Told fd file isWavMode := by
  intro hclaim
  have htold := hclaim 3 ⟨2 ^ 31, by decide⟩ true (by decide)
  rw [Told, sendDownloadSizes, if_pos (by decide),
    downFileSize_message (netBytes_length 4 _) (netBytes_length 2 _)] at htold
  exact absurd htold (by decide)

end EmotionStreamer.Requests
