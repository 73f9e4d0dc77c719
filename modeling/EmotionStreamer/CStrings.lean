import EmotionStreamer.Preprocessor
import Mathlib.Data.List.DropRight
import Mathlib.Data.List.TakeWhile
import Mathlib.Data.List.Infix
import Mathlib.Order.Basic

/-! Strings of the C library: the text in a buffer up to its terminator, what `snprintf`
stores, and the words that `sscanf` finds. -/
namespace EmotionStreamer.CStrings

/-- The string at the front of a buffer. -/
def ofBuffer (buf : List Char) : List Char := buf.takeWhile (· ≠ '\x00')

/-- A string in a buffer of `size` zeroed characters. -/
def toBuffer (size : ℕ) (s : List Char) : List Char := s ++ List.replicate (size - s.length) '\x00'

/-- What `snprintf` stores of `s`, the terminator apart. -/
def snprintf (size : ℕ) (s : List Char) : List Char := s.take (size - 1)

/-- `isspace` -/
def isSpace (c : Char) : Bool :=
  c = ' ' ∨ c = '\t' ∨ c = '\n' ∨ c = '\x0b' ∨ c = '\x0c' ∨ c = '\r'

/-- `%s` of `sscanf`: the characters up to the next blank, behind any blanks in front. -/
def scanWord (s : List Char) : Option (List Char) :=
  let rest := s.dropWhile isSpace
  if rest = [] then none else some (rest.takeWhile fun c => !isSpace c)

/-- A decimal number at the front of a text, and what is behind it. -/
def scanDigits (s : List Char) : Option (ℕ × List Char) :=
  let digits := s.takeWhile Char.isDigit
  if digits = [] then none else some (Nat.ofDigitChars 10 digits 0, s.dropWhile Char.isDigit)

/-- `%hu` of `sscanf`: `strtoul`, which stops at its largest value and negates, and of its
result the low bits. -/
def scanHu (s : List Char) : Option UInt16 :=
  let rest := s.dropWhile isSpace
  let negative := rest.head? = some '-'
  let digits := if negative ∨ rest.head? = some '+' then rest.drop 1 else rest
  (scanDigits digits).map fun (n, _) =>
    .ofNat (if uint64Size ≤ n then uint64Size - 1 else if negative then uint64Size - n else n)

/-- `%lu` of `sscanf`, and what is behind the number. -/
def scanUl (s : List Char) : Option (ℕ × List Char) :=
  let rest := s.dropWhile isSpace
  let negative := rest.head? = some '-'
  let digits := if negative ∨ rest.head? = some '+' then rest.drop 1 else rest
  (scanDigits digits).map fun (n, behind) =>
    (if uint64Size ≤ n then uint64Size - 1
      else if negative then (uint64Size - n) % uint64Size else n, behind)

/-- The text of a format, in which a blank stands for any blanks, and what is behind it. -/
def matchText : List Char → List Char → Option (List Char)
  | [], s => some s
  | f :: fs, s =>
    if isSpace f then matchText fs (s.dropWhile isSpace)
    else match s with
      | [] => none
      | c :: s => if c = f then matchText fs s else none

/-- What holds of every character of a text is decided along the text. -/
instance decidableForallMem (p : Char → Prop) [DecidablePred p] (s : List Char) :
    Decidable (∀ c ∈ s, p c) :=
  List.decidableBAll p s

/-- A string whose characters are bytes, without the one that ends it. -/
def Plain (s : List Char) : Prop := ∀ c ∈ s, 0 < c.toNat ∧ c.toNat < 256

instance (s : List Char) : Decidable (Plain s) := inferInstanceAs (Decidable (∀ c ∈ s, _))

def octets (s : List Char) : List UInt8 := s.map fun c => .ofNat c.toNat

def chars (bytes : List UInt8) : List Char := bytes.map fun b => .ofNat b.toNat

/-- What is in a buffer after `s` has been stored at its front. -/
def store (buf s : List Char) : List Char := s ++ '\x00' :: buf.drop (s.length + 1)

/-- What `fgets` with a buffer of `size` characters returns, call by call; `read` is what
the call that is going on has read. -/
def fgetsAll (size : ℕ) (read : List Char) : List Char → List (List Char)
  | [] => if read = [] then [] else [read]
  | c :: s =>
    if c = '\n' ∨ read.length + 2 = size then (read ++ [c]) :: fgetsAll size [] s
    else fgetsAll size (read ++ [c]) s

/-- How many characters two strings have in common at their front. -/
def commonLength : List Char → List Char → ℕ
  | a :: s, b :: t => if a = b then commonLength s t + 1 else 0
  | _, _ => 0

variable {s t w : List Char} {size : ℕ}

theorem takeWhile_append_cons {p : Char → Bool} {c : Char} (hw : ∀ x ∈ w, p x = true)
    (hc : p c = false) (rest : List Char) : (w ++ c :: rest).takeWhile p = w := by
  rw [List.takeWhile_append_of_pos hw, List.takeWhile_cons, hc]
  simp

theorem dropWhile_append_cons {p : Char → Bool} {c : Char} (hw : ∀ x ∈ w, p x = true)
    (hc : p c = false) (rest : List Char) : (w ++ c :: rest).dropWhile p = c :: rest := by
  rw [List.dropWhile_append_of_pos hw, List.dropWhile_cons, hc]
  simp

theorem scanDigits_toDigits (n : ℕ) {c : Char} (hc : c.isDigit = false) (rest : List Char) :
    scanDigits (Nat.toDigits 10 n ++ c :: rest) = some (n, c :: rest) := by
  have hdigits : ∀ x ∈ Nat.toDigits 10 n, x.isDigit = true := fun x hx =>
    Nat.isDigit_of_mem_toDigits (by decide) (by decide) hx
  rw [scanDigits, takeWhile_append_cons hdigits hc, dropWhile_append_cons hdigits hc,
    if_neg Nat.toDigits_ne_nil, Nat.ofDigitChars_ten_toDigits]

theorem isSpace_digit {c : Char} (h : c.isDigit = true) : isSpace c = false := by
  apply decide_eq_false
  rintro (rfl | rfl | rfl | rfl | rfl | rfl) <;> exact absurd h (by decide)

/-- A number that has been printed is scanned again. -/
theorem scanHu_toDigits (n : UInt16) {c : Char} (hc : c.isDigit = false) (rest : List Char) :
    scanHu (Nat.toDigits 10 n.toNat ++ c :: rest) = some n := by
  obtain ⟨d, ds, hds⟩ := List.exists_cons_of_ne_nil (Nat.toDigits_ne_nil (b := 10) (n := n.toNat))
  have hd : d.isDigit = true :=
    Nat.isDigit_of_mem_toDigits (by decide) (by decide) (hds ▸ List.mem_cons_self)
  have hskip : (d :: (ds ++ c :: rest)).dropWhile isSpace = d :: (ds ++ c :: rest) := by
    rw [List.dropWhile_cons, isSpace_digit hd]
    simp
  have hminus : d ≠ '-' := fun he => absurd hd (by rw [he]; decide)
  have hplus : d ≠ '+' := fun he => absurd hd (by rw [he]; decide)
  have hscan := scanDigits_toDigits n.toNat hc rest
  have hlt : ¬uint64Size ≤ n.toNat := by
    have := n.toNat_lt
    simp only [uint64Size]
    omega
  rw [hds, List.cons_append] at hscan
  rw [hds, List.cons_append, scanHu, hskip]
  simp only [List.head?_cons, Option.some.injEq, hminus, hplus, or_self, ↓reduceIte, hscan,
    Option.map_some, hlt, UInt16.ofNat_toNat]

theorem scanUl_toDigits {n : ℕ} (hn : n < uint64Size) {c : Char} (hc : c.isDigit = false)
    (rest : List Char) : scanUl (Nat.toDigits 10 n ++ c :: rest) = some (n, c :: rest) := by
  obtain ⟨d, ds, hds⟩ := List.exists_cons_of_ne_nil (Nat.toDigits_ne_nil (b := 10) (n := n))
  have hd : d.isDigit = true :=
    Nat.isDigit_of_mem_toDigits (by decide) (by decide) (hds ▸ List.mem_cons_self)
  have hskip : (d :: (ds ++ c :: rest)).dropWhile isSpace = d :: (ds ++ c :: rest) := by
    rw [List.dropWhile_cons, isSpace_digit hd]
    simp
  have hminus : d ≠ '-' := fun he => absurd hd (by rw [he]; decide)
  have hplus : d ≠ '+' := fun he => absurd hd (by rw [he]; decide)
  have hscan := scanDigits_toDigits n hc rest
  rw [hds, List.cons_append] at hscan
  rw [hds, List.cons_append, scanUl, hskip]
  simp only [List.head?_cons, Option.some.injEq, hminus, hplus, or_self, ↓reduceIte, hscan,
    Option.map_some, Nat.not_le.mpr hn]

theorem scanUl_dropWhile (s : List Char) : scanUl (s.dropWhile isSpace) = scanUl s := by
  rw [scanUl, scanUl, List.dropWhile_idempotent]

theorem scanWord_dropWhile (s : List Char) : scanWord (s.dropWhile isSpace) = scanWord s := by
  rw [scanWord, scanWord, List.dropWhile_idempotent]

theorem matchText_word (hw : ∀ c ∈ w, isSpace c = false) (rest : List Char) :
    matchText (w ++ [' ']) (w ++ ' ' :: rest) = some (rest.dropWhile isSpace) := by
  induction w with
  | nil => rfl
  | cons c w ih =>
    rw [List.cons_append, List.cons_append, matchText, hw c List.mem_cons_self]
    simp only [Bool.false_eq_true, ↓reduceIte]
    exact ih fun d hd => hw d (List.mem_cons_of_mem _ hd)

theorem matchText_head {c : Char} (hc : isSpace c = false) (hs : ∀ d ∈ s.head?, d ≠ c)
    (format : List Char) : matchText (c :: format) s = none := by
  cases s with
  | nil => simp [matchText, hc]
  | cons d s => simp [matchText, hc, hs d rfl]

/-- Words that differ do so at the first character behind the shorter one at the latest. -/
theorem matchText_other {v : List Char} {colon : Char} (hcolon : isSpace colon = false)
    (hw : ∀ c ∈ w, isSpace c = false ∧ c ≠ colon) (hv : colon ∉ v) (hne : w ≠ v)
    (format rest : List Char) : matchText (w ++ colon :: format) (v ++ colon :: rest) = none := by
  induction w generalizing v with
  | nil =>
    cases v with
    | nil => exact absurd rfl hne
    | cons d v =>
      have hd : d ≠ colon := fun he => hv (he ▸ List.mem_cons_self)
      simp [matchText, hcolon, hd]
  | cons c w ih =>
    obtain ⟨⟨hspace, hc⟩, hrest⟩ := List.forall_mem_cons.mp hw
    cases v with
    | nil => simp [matchText, hspace, Ne.symm hc]
    | cons d v =>
      by_cases hd : d = c
      · subst hd
        have hmore := ih hrest (fun hmem => hv (List.mem_cons_of_mem _ hmem))
          (fun he => hne (congrArg (d :: ·) he))
        simpa [matchText, hspace] using hmore
      · simp [matchText, hspace, hd]

theorem chars_octets (h : ∀ c ∈ s, c.toNat < 256) : chars (octets s) = s := by
  rw [chars, octets, List.map_map]
  refine (List.map_congr_left fun c hc => ?_).trans (List.map_id s)
  rw [Function.comp_apply, UInt8.toNat_ofNat', Nat.mod_eq_of_lt (h c hc), Char.ofNat_toNat, id]

theorem store_zeros {size : ℕ} (h : s.length < size) :
    store (List.replicate size '\x00') s = toBuffer size s := by
  have hsize : size - s.length = (size - (s.length + 1)) + 1 := by omega
  rw [store, toBuffer, List.drop_replicate, hsize, List.replicate_succ]

theorem nul_not_mem_ofBuffer (buf : List Char) : '\x00' ∉ ofBuffer buf := by
  intro hmem
  have hchar := List.mem_takeWhile_imp hmem
  exact of_decide_eq_true hchar rfl

theorem ofBuffer_eq_self (hs : '\x00' ∉ s) : ofBuffer s = s :=
  List.takeWhile_eq_self_iff.mpr fun _ hc => decide_eq_true fun he => hs (he ▸ hc)

theorem Plain.sublist (h : Plain t) (hs : s.Sublist t) : Plain s := fun c hc => h c (hs.subset hc)

theorem Plain.append (hs : Plain s) (ht : Plain t) : Plain (s ++ t) := fun c hc =>
  (List.mem_append.mp hc).elim (hs c) (ht c)

theorem Plain.nul_free (h : Plain s) : '\x00' ∉ s := fun hc => absurd (h _ hc).1 (by decide)

theorem digit_range {c : Char} (h : c.isDigit = true) : 0 < c.toNat ∧ c.toNat < 256 := by
  simp only [Char.isDigit, Bool.and_eq_true, decide_eq_true_eq, ge_iff_le, UInt32.le_iff_toNat_le] at h
  change 48 ≤ c.toNat ∧ c.toNat ≤ 57 at h
  omega

theorem plain_digits (k : ℕ) : Plain (Nat.toDigits 10 k) := fun _ hc =>
  digit_range (Nat.isDigit_of_mem_toDigits (by decide) (by decide) hc)

theorem plain_ofBuffer (h : ∀ c ∈ s, c.toNat < 256) : Plain (ofBuffer s) := by
  intro c hc
  refine ⟨Nat.pos_of_ne_zero fun hz => ?_, h c ((List.takeWhile_sublist _).subset hc)⟩
  have hnul : c = '\x00' := Char.toNat_inj.mp hz
  exact nul_not_mem_ofBuffer s (hnul ▸ hc)

/-- The terminator ends the string, whatever is behind it. -/
theorem ofBuffer_terminated (hs : '\x00' ∉ s) (rest : List Char) :
    ofBuffer (s ++ '\x00' :: rest) = s := by
  have hne : ∀ c ∈ s, decide (c ≠ '\x00') = true := fun c hc =>
    decide_eq_true fun he => hs (he ▸ hc)
  exact takeWhile_append_cons hne (by decide) rest

theorem ofBuffer_store (buf s : List Char) : ofBuffer (store buf s) = ofBuffer s := by
  have hnil (rest : List Char) : ('\x00' :: rest).takeWhile (· ≠ '\x00') = [] := by simp
  rw [ofBuffer, store, List.takeWhile_append, hnil, List.append_nil]
  split
  · rename_i hall
    exact ((List.takeWhile_sublist _).length_eq.mp hall).symm
  · rfl

theorem ofBuffer_append_zeros (hs : '\x00' ∉ s) (k : ℕ) :
    ofBuffer (s ++ List.replicate k '\x00') = s := by
  cases k with
  | zero => rw [List.replicate_zero, List.append_nil, ofBuffer_eq_self hs]
  | succ k => exact ofBuffer_terminated hs _

theorem ofBuffer_drop_zeros (hs : '\x00' ∉ s) (k m : ℕ) :
    ofBuffer ((s ++ List.replicate m '\x00').drop k) = s.drop k := by
  rw [List.drop_append, List.drop_replicate]
  exact ofBuffer_append_zeros (fun hc => hs ((List.drop_sublist k s).subset hc)) _

theorem ofBuffer_toBuffer (hs : '\x00' ∉ s) (size : ℕ) : ofBuffer (toBuffer size s) = s :=
  ofBuffer_append_zeros hs _

/-- The string from character `k` on. -/
theorem ofBuffer_drop_toBuffer (hs : '\x00' ∉ s) (size : ℕ) {k : ℕ} (hk : k ≤ s.length) :
    ofBuffer ((toBuffer size s).drop k) = s.drop k := by
  rw [toBuffer, List.drop_append_of_le_length hk]
  exact ofBuffer_append_zeros (fun h => hs (List.mem_of_mem_drop h)) _

theorem snprintf_fits (h : s.length < size) : snprintf size s = s :=
  List.take_of_length_le (by omega)

theorem take_eq_take_iff_commonLength (k : ℕ) (s t : List Char) :
    s.take k = t.take k ↔ s = t ∨ k ≤ commonLength s t := by
  induction s generalizing k t with
  | nil =>
    cases t with
    | nil => simp
    | cons b t => cases k <;> simp [commonLength]
  | cons a s ih =>
    cases t with
    | nil => cases k <;> simp [commonLength]
    | cons b t =>
      cases k with
      | zero => simp
      | succ k =>
        by_cases hab : a = b
        · simp [commonLength, hab, ih]
        · simp [commonLength, hab]

theorem commonLength_lt (h : s ≠ t) {k : ℕ} (hs : s.length ≤ k) (ht : t.length ≤ k) :
    commonLength s t < k := by
  by_contra hk
  have htake := (take_eq_take_iff_commonLength k s t).mpr (Or.inr (Nat.not_lt.mp hk))
  rw [List.take_of_length_le hs, List.take_of_length_le ht] at htake
  exact h htake

/-- Two strings behind the same front are stored alike when they are equal, or differ only
behind the end of the buffer. -/
theorem snprintf_append_inj (size : ℕ) (front s t : List Char) :
    snprintf size (front ++ s) = snprintf size (front ++ t) ↔
      s = t ∨ size - 1 - front.length ≤ commonLength s t := by
  rw [snprintf, snprintf, List.take_append, List.take_append, List.append_cancel_left_eq,
    take_eq_take_iff_commonLength]

theorem digitChar_inj {m n : ℕ} (hm : m < 16) (hn : n < 16) (h : m.digitChar = n.digitChar) :
    m = n := by
  have hall : ∀ a b : Fin 16, a.val.digitChar = b.val.digitChar → a = b := by decide
  exact congrArg Fin.val (hall ⟨m, hm⟩ ⟨n, hn⟩ h)

/-- A number is known by its hexadecimal digits. -/
theorem toDigits_injective : Function.Injective (Nat.toDigits 16) := by
  intro m
  induction m using Nat.strong_induction_on with
  | _ m ih =>
    intro n h
    have hmpos := Nat.length_toDigits_pos (b := 16) (n := m / 16)
    have hnpos := Nat.length_toDigits_pos (b := 16) (n := n / 16)
    rw [Nat.toDigits_eq_if (by decide), Nat.toDigits_eq_if (b := 16) (n := n) (by decide)] at h
    split_ifs at h with hm hn hn
    · exact digitChar_inj hm hn (List.singleton_inj.mp h)
    · have hlen := congrArg List.length h
      rw [List.length_singleton, List.length_append, List.length_singleton] at hlen
      omega
    · have hlen := congrArg List.length h
      rw [List.length_singleton, List.length_append, List.length_singleton] at hlen
      omega
    · obtain ⟨hhigh, hlow⟩ := List.append_inj' h rfl
      have hdiv := ih (m / 16) (by omega) hhigh
      have hmod := digitChar_inj (by omega) (by omega) (List.singleton_inj.mp hlow)
      omega

theorem isSpace_blank : isSpace ' ' = true := by decide

/-- A word is found again in front of a blank. -/
theorem scanWord_append_cons (hw : ∀ c ∈ w, isSpace c = false) (hne : w ≠ []) {c : Char}
    (hc : isSpace c = true) (rest : List Char) : scanWord (w ++ c :: rest) = some w := by
  obtain ⟨d, w, rfl⟩ := List.exists_cons_of_ne_nil hne
  have hd := hw d List.mem_cons_self
  have hskip : (d :: w ++ c :: rest).dropWhile isSpace = d :: w ++ c :: rest := by
    rw [List.cons_append, List.dropWhile_cons, hd]
    simp
  have hword := takeWhile_append_cons (p := fun c => !isSpace c) (w := d :: w)
    (fun x hx => by rw [hw x hx]; rfl) (by rw [hc]; rfl) rest
  rw [scanWord, hskip, if_neg (List.append_ne_nil_of_left_ne_nil hne _), hword]

theorem scanWord_append (hw : ∀ c ∈ w, isSpace c = false) (hne : w ≠ []) (rest : List Char) :
    scanWord (w ++ ' ' :: rest) = some w :=
  scanWord_append_cons hw hne isSpace_blank rest

/-- Blanks in front of a string are skipped. -/
theorem scanWord_cons_blank (s : List Char) : scanWord (' ' :: s) = scanWord s := by
  rw [scanWord, scanWord, List.dropWhile_cons, isSpace_blank]
  rfl

theorem scanWord_eq_none_iff : scanWord s = none ↔ ∀ c ∈ s, isSpace c = true := by
  rw [← List.dropWhile_eq_nil_iff, scanWord]
  split_ifs with h
  · exact iff_of_true rfl h
  · exact iff_of_false (by simp) h

/-- A word is a part of the text, without blanks. -/
theorem scanWord_spec (h : scanWord s = some w) : w.Sublist s ∧ ∀ c ∈ w, isSpace c = false := by
  rw [scanWord] at h
  split_ifs at h
  cases h
  refine ⟨(List.takeWhile_sublist _).trans (List.dropWhile_sublist _), fun c hc => ?_⟩
  simpa using List.mem_takeWhile_imp hc

theorem scanWord_ne_nil (h : scanWord s = some w) : w ≠ [] := by
  rw [scanWord] at h
  split_ifs at h with hne
  obtain ⟨c, rest, hrest⟩ := List.exists_cons_of_ne_nil hne
  have hc : isSpace c = false := by
    have := List.head_dropWhile_not isSpace hne
    simpa [hrest] using this
  cases h
  rw [hrest, List.takeWhile_cons, hc]
  simp

/-- A line that fits is read by one call. -/
theorem fgetsAll_line {line : List Char} (hline : '\n' ∉ line) (rest read : List Char)
    (hfits : read.length + line.length + 1 < size) : fgetsAll size read (line ++ '\n' :: rest) =
      (read ++ line ++ ['\n']) :: fgetsAll size [] rest := by
  induction line generalizing read with
  | nil => simp [fgetsAll]
  | cons c line ih =>
    rw [List.length_cons] at hfits
    have hc : ¬(c = '\n' ∨ read.length + 2 = size) := by
      rintro (rfl | hfull)
      · exact hline List.mem_cons_self
      · omega
    rw [List.cons_append, fgetsAll, if_neg hc, ih (List.not_mem_of_not_mem_cons hline)]
    · simp only [List.append_assoc, List.cons_append, List.nil_append]
    · rw [List.length_append, List.length_singleton]
      omega

/-- A newline ends a call, whatever is behind it. -/
theorem fgetsAll_append (s rest read : List Char) : fgetsAll size read (s ++ '\n' :: rest) =
    fgetsAll size read (s ++ ['\n']) ++ fgetsAll size [] rest := by
  induction s generalizing read with
  | nil => simp [fgetsAll]
  | cons c s ih =>
    rw [List.cons_append, List.cons_append, fgetsAll, fgetsAll]
    split_ifs
    · rw [ih [], List.cons_append]
    · exact ih _

/-- Behind what a call has returned the others go on. -/
theorem fgetsAll_drop {read line : List Char} {rest : List (List Char)}
    (h : fgetsAll size read s = line :: rest) :
    read.length ≤ line.length ∧ fgetsAll size [] (s.drop (line.length - read.length)) = rest := by
  induction s generalizing read with
  | nil =>
    rw [fgetsAll] at h
    split_ifs at h
    cases h
    exact ⟨le_rfl, by rw [List.drop_nil]; rfl⟩
  | cons c s ih =>
    rw [fgetsAll] at h
    split_ifs at h with hc
    · cases h
      rw [List.length_append, List.length_singleton, Nat.add_sub_cancel_left]
      exact ⟨Nat.le_add_right _ _, rfl⟩
    · obtain ⟨hle, hrest⟩ := ih h
      rw [List.length_append, List.length_singleton] at hle hrest
      have hsub : line.length - read.length = line.length - (read.length + 1) + 1 := by omega
      refine ⟨by omega, ?_⟩
      rw [hsub, List.drop_succ_cons]
      exact hrest

theorem fgetsAll_lines (lines : List (List Char)) (rest : List Char) :
    fgetsAll size [] (lines.flatMap (· ++ ['\n']) ++ rest) =
      lines.flatMap (fun l => fgetsAll size [] (l ++ ['\n'])) ++ fgetsAll size [] rest := by
  induction lines with
  | nil => rfl
  | cons l lines ih =>
    rw [List.flatMap_cons, List.flatMap_cons, List.append_assoc, List.append_assoc,
      List.append_assoc, List.singleton_append, fgetsAll_append, ih]

/-- Only the last character of what a call returns can be a newline. -/
theorem newline_not_mem_fgetsAll {s read piece : List Char} (hread : '\n' ∉ read)
    (h : piece ∈ fgetsAll size read s) : '\n' ∉ piece.dropLast := by
  induction s generalizing read with
  | nil =>
    rw [fgetsAll] at h
    split_ifs at h
    · cases h
    · rw [List.mem_singleton.mp h]
      exact fun hmem => hread (List.mem_of_mem_dropLast hmem)
  | cons c s ih =>
    rw [fgetsAll] at h
    split_ifs at h with hc
    · rcases List.mem_cons.mp h with rfl | h
      · rwa [List.dropLast_concat]
      · exact ih List.not_mem_nil h
    · refine ih ?_ h
      intro hmem
      rcases List.mem_append.mp hmem with hmem | hmem
      · exact hread hmem
      · exact hc (Or.inl (List.mem_singleton.mp hmem).symm)

/-- Every character has been in the text. -/
theorem mem_of_mem_fgetsAll {s read piece : List Char} {c : Char} (h : piece ∈ fgetsAll size read s)
    (hc : c ∈ piece) : c ∈ read ∨ c ∈ s := by
  induction s generalizing read with
  | nil =>
    rw [fgetsAll] at h
    split_ifs at h
    · cases h
    · rw [List.mem_singleton.mp h] at hc
      exact Or.inl hc
  | cons d s ih =>
    rw [fgetsAll] at h
    rw [List.mem_cons]
    split_ifs at h
    · rcases List.mem_cons.mp h with rfl | h
      · rw [List.mem_append, List.mem_singleton] at hc
        exact hc.imp_right Or.inl
      · exact (ih h).imp (fun hnil => absurd hnil List.not_mem_nil) Or.inr
    · have hread := ih h
      rw [List.mem_append, List.mem_singleton, or_assoc] at hread
      exact hread

end EmotionStreamer.CStrings
