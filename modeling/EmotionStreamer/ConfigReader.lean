import EmotionStreamer.CStrings
import EmotionStreamer.ConfigComments

/-! How a program reads its configuration file: it skips blanks and comments, gets a line with
`fgets` and takes a value from it. A file is read as its lines wherever the blanks are skipped
in front of a line, and a line that is not skipped to is read as it stands. -/
namespace EmotionStreamer.ConfigReader
open PushBack ConfigComments CStrings

/-- `CONFIG_READ_LINE_BUFF_SIZE` -/
def configReadLineBuffSize : ℕ := 256

/-- `clean_and_exit`; a write in front of the line buffer; a word that is longer than its
array. -/
inductive Fault
  | exit
  | inFront
  | overflow (length : ℕ)
  deriving DecidableEq, Repr

/-- At most `n` characters up to a newline. -/
def fgets : ℕ → Stream UInt8 → List UInt8 × Stream UInt8
  | 0, fp => ([], fp)
  | n + 1, fp =>
    match fp.get with
    | (none, fp) => ([], fp)
    | (some c, fp) =>
      if c = newline then ([c], fp)
      else
        let (line, fp) := fgets n fp
        (c :: line, fp)

/-- The calls of a reader, one after the other. -/
inductive Reader (S : Type)
  | close
  | skipConfigComments (next : Reader S)
  | fgets (store : List Char → S → Except Fault S) (next : Reader S)
  | assign (change : S → Except Fault S) (next : Reader S)
  | branch (cond : S → Bool) (yes no : Reader S)

variable {S : Type}

/-- A line behind blanks and comments. -/
def Reader.line (store : List Char → S → Except Fault S) (next : Reader S) : Reader S :=
  .skipConfigComments (.fgets store next)

def Reader.run : Reader S → Stream UInt8 → S → Except Fault S
  | .close, _, s => .ok s
  | .skipConfigComments next, fp, s => next.run (ConfigComments.skipConfigComments fp) s
  | .fgets store next, fp, s =>
    let (line, fp) := ConfigReader.fgets (configReadLineBuffSize - 1) fp
    if line = [] then .error .exit
    else do next.run fp (← store (chars line) s)
  | .assign change next, fp, s => do next.run fp (← change s)
  | .branch cond yes no, fp, s => if cond s then yes.run fp s else no.run fp s

/-- What a reader makes of lines that it is given one by one. -/
def Reader.take : Reader S → List (List UInt8) → S → Except Fault S
  | .close, _, s => .ok s
  | .skipConfigComments next, lines, s => next.take lines s
  | .fgets _ _, [], _ => .error .exit
  | .fgets store next, line :: lines, s => do next.take lines (← store (chars line) s)
  | .assign change next, lines, s => do next.take lines (← change s)
  | .branch cond yes no, lines, s => if cond s then yes.take lines s else no.take lines s

/-- Blanks and comments are skipped in front of every line but the tight ones. -/
def Reader.Skips (tight : ℕ → Prop) : ℕ → Bool → Reader S → Prop
  | _, _, .close => True
  | k, _, .skipConfigComments next => next.Skips tight k true
  | k, skipped, .fgets _ next => (tight k ↔ skipped = false) ∧ next.Skips tight (k + 1) false
  | k, skipped, .assign _ next => next.Skips tight k skipped
  | k, skipped, .branch _ yes no => yes.Skips tight k skipped ∧ no.Skips tight k skipped

/-- One line, as `fgets` reads it at once. -/
def Line (line : List UInt8) : Prop :=
  ∃ body, line = body ++ [newline] ∧ newline ∉ body ∧ line.length < configReadLineBuffSize

/-- Where a field begins. -/
def Field (text : List UInt8) : Prop := ∀ c ∈ text.head?, isspace c = false ∧ c ≠ semicolon

/-- A text made of lines with blanks and comments between them, none of them in front of the
tight lines. -/
inductive Layout (tight : ℕ → Prop) : ℕ → List (List UInt8) → List UInt8 → Prop
  | nil {k : ℕ} {gap : List UInt8} (blank : Blank gap []) (pressed : tight k → gap = []) :
      Layout tight k [] gap
  | cons {k : ℕ} {gap line text : List UInt8} {lines : List (List UInt8)}
      (blank : Blank gap (line ++ text)) (pressed : tight k → gap = [])
      (more : Layout tight (k + 1) lines text) : Layout tight k (line :: lines) (gap ++ (line ++ text))

/-- Lines that are read at once, the tight ones as they stand. -/
def Legible (tight : ℕ → Prop) : ℕ → List (List UInt8) → Prop
  | _, [] => True
  | k, line :: lines => Line line ∧ (¬tight k → Field line) ∧ Legible tight (k + 1) lines

/-- A format is made of a name, a colon, a blank and what is to be read. -/
def key (name : String) : List Char := name.toList ++ ": ".toList

/-- A number, of which a variable keeps what it has room for. -/
def number (name : String) (set : ℕ → S → S) (line : List Char) (s : S) : Except Fault S :=
  .ok (match (matchText (key name) (ofBuffer line)).bind scanUl with
    | some (n, _) => set n s
    | none => s)

/-- Two numbers, the second of which is read if the first one is there. -/
def pair (name : String) (set set' : ℕ → S → S) (line : List Char) (s : S) : Except Fault S :=
  .ok (match (matchText (key name) (ofBuffer line)).bind scanUl with
    | some (n, rest) =>
      match scanUl rest with
      | some (n', _) => set' n' (set n s)
      | none => set n s
    | none => s)

/-- A word for an array of `size` characters. -/
def word (name : String) (size : ℕ) (set : List Char → S → S) (line : List Char) (s : S) :
    Except Fault S :=
  match (matchText (key name) (ofBuffer line)).bind scanWord with
  | some w => if w.length < size then .ok (set w s) else .error (.overflow w.length)
  | none => .ok s

/-- `curr_line_buff[strlen(curr_line_buff)-1]=0`, and what is in the buffer from behind the name
on, whatever name is there. -/
def restOfLine (name : String) (size : ℕ) (set : List Char → S → S) (line : List Char) (s : S) :
    Except Fault S :=
  let len := (ofBuffer line).length
  let buff := (toBuffer configReadLineBuffSize line).set (len - 1) '\x00'
  if len = 0 then .error .inFront
  else .ok (set (snprintf size (ofBuffer (buff.drop (key name).length))) s)

def textLine (name : String) (value : List Char) : List Char := key name ++ value ++ ['\n']
def numberLine (name : String) (n : ℕ) : List Char := textLine name (Nat.toDigits 10 n)
def pairLine (name : String) (n n' : ℕ) : List Char :=
  textLine name (Nat.toDigits 10 n ++ ' ' :: Nat.toDigits 10 n')

/-- A name of visible characters, which no comment begins with. -/
def Name (name : String) : Prop :=
  name.toList ≠ [] ∧ name.toList.length ≤ 50 ∧
    ∀ c ∈ name.toList, 33 ≤ c.toNat ∧ c.toNat ≤ 126 ∧ c ≠ ';' ∧ c ≠ ':'

/-- A text that a line has room for behind its name. -/
def Value (name : String) (value : List Char) : Prop :=
  Plain value ∧ '\n' ∉ value ∧ (textLine name value).length < configReadLineBuffSize

/-- A value for `%s`. -/
def Word (name : String) (value : List Char) : Prop :=
  Value name value ∧ (∀ c ∈ value, isSpace c = false) ∧ value ≠ []

instance (name : String) (value : List Char) : Decidable (Value name value) :=
  inferInstanceAs (Decidable (_ ∧ _ ∧ _))

instance (name : String) (value : List Char) : Decidable (Word name value) :=
  inferInstanceAs (Decidable (_ ∧ (∀ c ∈ _, _) ∧ _))

/-- A line of blanks or a comment. -/
def Gap (line : List UInt8) : Prop :=
  Line line ∧ ∀ c ∈ line.head?, isspace c = true ∨ c = semicolon

variable {tight : ℕ → Prop} {k : ℕ} {lines : List (List UInt8)} {text line body : List UInt8}
  {fp : Stream UInt8} {name : String} {value : List Char} {n n' size : ℕ}

theorem fgets_append (n : ℕ) (hbody : newline ∉ body) (hn : body.length < n) {rest : List UInt8}
    (hfp : fp.pending = body ++ newline :: rest) :
    (fgets n fp).1 = body ++ [newline] ∧ (fgets n fp).2.pending = rest := by
  induction n generalizing body fp with
  | zero => exact absurd hn (Nat.not_lt_zero _)
  | succ n ih =>
    rw [fgets, Stream.get_eq, hfp]
    cases body with
    | nil => exact ⟨rfl, rfl⟩
    | cons c body =>
      obtain ⟨hc, hrest⟩ := not_or.mp (mt List.mem_cons.mpr hbody)
      simp only [List.cons_append, List.head?_cons, List.tail_cons, if_neg (Ne.symm hc)]
      have hpushed : (⟨none, body ++ newline :: rest⟩ : Stream UInt8).pending =
          body ++ newline :: rest := rfl
      obtain ⟨hline, hpending⟩ := ih hrest (Nat.lt_of_succ_lt_succ hn) hpushed
      exact ⟨congrArg (c :: ·) hline, hpending⟩

theorem Line.fgets (h : Line line) (hfp : fp.pending = line ++ text) :
    (ConfigReader.fgets (configReadLineBuffSize - 1) fp).1 = line ∧
      (ConfigReader.fgets (configReadLineBuffSize - 1) fp).2.pending = text := by
  obtain ⟨body, rfl, hbody, hlen⟩ := h
  rw [List.append_assoc, List.singleton_append] at hfp
  rw [List.length_append, List.length_singleton] at hlen
  exact fgets_append _ hbody (by omega) hfp

theorem Field.append (hne : line ≠ []) (h : Field line) (text : List UInt8) : Field (line ++ text) := by
  obtain ⟨c, rest, rfl⟩ := List.exists_cons_of_ne_nil hne
  exact h

theorem fgets_end (n : ℕ) (hfp : fp.pending = []) : (fgets n fp).1 = [] := by
  cases n with
  | zero => rfl
  | succ n => rw [fgets, Stream.get_eq, hfp]; rfl

/-- A text is read as its lines. -/
theorem Reader.run_eq_take (r : Reader S) {skipped : Bool} (hr : r.Skips tight k skipped)
    (hlines : Legible tight k lines) (hl : Layout tight k lines text)
    (hfp : fp.pending = if skipped then behindBlank false text else text) (s : S) :
    r.run fp s = r.take lines s := by
  induction r generalizing k skipped lines text fp s with
  | close => rfl
  | skipConfigComments next ih =>
    refine ih hr hlines hl ?_ s
    rw [skipConfigComments_eq, Stream.pending_peeked, hfp]
    cases skipped
    · rfl
    · exact behindBlank_field (field_behindBlank false text)
  | branch cond yes no ihyes ihno =>
    rw [Reader.run, Reader.take]
    split_ifs
    · exact ihyes hr.1 hlines hl hfp s
    · exact ihno hr.2 hlines hl hfp s
  | assign change next ih =>
    rw [Reader.run, Reader.take]
    cases change s with
    | error e => rfl
    | ok t => exact ih hr hlines hl hfp t
  | fgets store next ih =>
    rw [Reader.run]
    cases hl with
    | @nil _ gap blank pressed =>
      have hend : fp.pending = [] := by
        rw [hfp]
        cases skipped with
        | true =>
          rw [← List.append_nil text, if_pos rfl, blank.behindBlank_eq]
          rfl
        | false => exact pressed (hr.1.mpr rfl)
      rw [Reader.take]
      simp only [fgets_end _ hend, ↓reduceIte]
    | @cons _ gap line text lines blank pressed more =>
      obtain ⟨whole, field, hlines⟩ := hlines
      have hne : line ≠ [] := by
        obtain ⟨body, rfl, -⟩ := whole
        exact List.append_ne_nil_of_right_ne_nil body (List.cons_ne_nil _ _)
      have hfront : fp.pending = line ++ text := by
        rw [hfp]
        cases skipped with
        | true =>
          have hnot : ¬tight k := fun htight => Bool.noConfusion (hr.1.mp htight)
          rw [if_pos rfl, blank.behindBlank_eq]
          exact behindBlank_field (Field.append hne (field hnot) text)
        | false =>
          rw [pressed (hr.1.mpr rfl)]
          rfl
      obtain ⟨hline, hpending⟩ := whole.fgets hfront
      rw [Reader.take]
      simp only [hline, if_neg hne]
      cases hstore : store (chars line) s with
      | error e => rfl
      | ok t => exact ih hr.2 hlines more hpending t

theorem Legible.of_forall (h : ∀ line ∈ lines, Line line ∧ Field line) (k : ℕ) :
    Legible tight k lines := by
  induction lines generalizing k with
  | nil => trivial
  | cons line lines ih =>
    obtain ⟨hline, hmore⟩ := List.forall_mem_cons.mp h
    exact ⟨hline.1, fun _ => hline.2, ih hmore (k + 1)⟩

theorem Legible.append {lines' : List (List UInt8)} (h : Legible tight k lines)
    (h' : Legible tight (k + lines.length) lines') : Legible tight k (lines ++ lines') := by
  induction lines generalizing k with
  | nil => exact h'
  | cons line lines ih =>
    refine ⟨h.1, h.2.1, ih h.2.2 ?_⟩
    rwa [List.length_cons, Nat.add_comm lines.length, ← Nat.add_assoc] at h'

/-- A text without blanks and comments between its lines. -/
theorem Layout.flatten (tight : ℕ → Prop) (k : ℕ) (lines : List (List UInt8)) :
    Layout tight k lines lines.flatten := by
  induction lines generalizing k with
  | nil => exact .nil (.nil _) fun _ => rfl
  | cons line lines ih => exact .cons (.nil _) (fun _ => rfl) (ih (k + 1))

/-- A text with one and the same gap in front of all its lines and behind them. -/
theorem Layout.spread {gap : List UInt8} (hgap : ∀ rest, Blank gap rest) (k : ℕ)
    (lines : List (List UInt8)) :
    Layout (fun _ => False) k lines (lines.flatMap (gap ++ ·) ++ gap) := by
  induction lines generalizing k with
  | nil => exact .nil (hgap []) False.elim
  | cons line lines ih =>
    rw [List.flatMap_cons, List.append_assoc, List.append_assoc]
    exact .cons (hgap _) False.elim (ih (k + 1))

theorem scanUl_cons_blank (l : List Char) : scanUl (' ' :: l) = scanUl l := by
  rw [scanUl, scanUl, List.dropWhile_cons, isSpace_blank]
  rfl

theorem Name.ofList {l : List Char} (h : l ≠ [] ∧ l.length ≤ 50 ∧
    ∀ c ∈ l, 33 ≤ c.toNat ∧ c.toNat ≤ 126 ∧ c ≠ ';' ∧ c ≠ ':') : Name (String.ofList l) := by
  rwa [Name, String.toList_ofList]

theorem isSpace_visible {c : Char} (h : 33 ≤ c.toNat) : isSpace c = false := by
  apply decide_eq_false
  rintro (rfl | rfl | rfl | rfl | rfl | rfl) <;> exact absurd h (by decide)

theorem Name.visible (h : Name name) : ∀ c ∈ name.toList ++ [':'], isSpace c = false := by
  intro c hc
  rw [List.mem_append, List.mem_singleton] at hc
  cases hc with
  | inl hc => exact isSpace_visible (h.2.2 c hc).1
  | inr hc => rw [hc]; rfl

theorem key_eq (name : String) : key name = name.toList ++ [':'] ++ [' '] := by
  rw [key, List.append_assoc]
  rfl

theorem Name.plain_key (h : Name name) : Plain (key name) := by
  refine Plain.append (fun c hc => ?_) (by decide)
  have := h.2.2 c hc
  omega

theorem Name.key_length (h : Name name) : (key name).length ≤ 52 := by
  rw [key, List.length_append]
  exact Nat.add_le_add_right h.2.1 2

theorem Name.newline_free (h : Name name) : '\n' ∉ key name := by
  rw [key, List.mem_append]
  rintro (hc | hc)
  · exact absurd (h.2.2 _ hc).1 (by decide)
  · exact absurd hc (by decide)

theorem Name.matchText (h : Name name) (rest : List Char) :
    CStrings.matchText (key name) (key name ++ rest) = some (rest.dropWhile isSpace) := by
  rw [key_eq, List.append_assoc _ [' ']]
  exact matchText_word h.visible rest

theorem digits_length (hn : n < uint64Size) : (Nat.toDigits 10 n).length ≤ 20 :=
  (Nat.length_toDigits_le_iff (by decide) (by decide)).mpr (hn.trans (by decide))

theorem digit_visible {c : Char} (h : c ∈ Nat.toDigits 10 n) : isSpace c = false :=
  isSpace_digit (Nat.isDigit_of_mem_toDigits (by decide) (by decide) h)

theorem Name.textLine_length (h : Name name) (value : List Char) :
    (textLine name value).length ≤ 53 + value.length := by
  have := h.key_length
  rw [textLine, List.length_append, List.length_append, List.length_singleton]
  omega

theorem Name.number (h : Name name) (hn : n < uint64Size) : Value name (Nat.toDigits 10 n) := by
  have hdigits := digits_length hn
  have hlength := h.textLine_length (Nat.toDigits 10 n)
  refine ⟨plain_digits n, fun hc => absurd (digit_visible hc) (by decide), ?_⟩
  rw [configReadLineBuffSize]
  omega

theorem Name.pair (h : Name name) (hn : n < uint64Size) (hn' : n' < uint64Size) :
    Value name (Nat.toDigits 10 n ++ ' ' :: Nat.toDigits 10 n') := by
  have hdigits := digits_length hn
  have hdigits' := digits_length hn'
  have hlength := h.textLine_length (Nat.toDigits 10 n ++ ' ' :: Nat.toDigits 10 n')
  refine ⟨(plain_digits n).append (Plain.append (by decide : Plain [' ']) (plain_digits n')), ?_, ?_⟩
  · rw [List.mem_append, List.mem_cons]
    rintro (hc | hc | hc)
    · exact absurd (digit_visible hc) (by decide)
    · exact absurd hc (by decide)
    · exact absurd (digit_visible hc) (by decide)
  · rw [List.length_append, List.length_cons] at hlength
    rw [configReadLineBuffSize]
    omega

/-- A line with a name and a value is read at once, and no comment begins there. -/
theorem Value.isLine (hname : Name name) (h : Value name value) :
    Line (octets (textLine name value)) ∧ Field (octets (textLine name value)) := by
  obtain ⟨hplain, hnewline, hlength⟩ := h
  have hbody : Plain (key name ++ value) := hname.plain_key.append hplain
  constructor
  · refine ⟨octets (key name ++ value), List.map_append, fun hc => ?_, ?_⟩
    · obtain ⟨c, hmem, hoctet⟩ := List.mem_map.mp hc
      have hc10 : c.toNat = 10 := by
        have := congrArg UInt8.toNat hoctet
        rwa [UInt8.toNat_ofNat', Nat.mod_eq_of_lt (hbody c hmem).2] at this
      obtain rfl : c = '\n' := Char.toNat_inj.mp hc10
      exact (List.mem_append.mp hmem).elim hname.newline_free hnewline
    · rwa [octets, List.length_map]
  · obtain ⟨hne, -, hvisible⟩ := hname
    obtain ⟨c, rest, hcons⟩ := List.exists_cons_of_ne_nil hne
    have hc := hvisible c (hcons ▸ List.mem_cons_self)
    intro b hb
    rw [textLine, key, hcons] at hb
    obtain rfl : UInt8.ofNat c.toNat = b := Option.some.inj hb
    have hbyte : (UInt8.ofNat c.toNat).toNat = c.toNat := by
      rw [UInt8.toNat_ofNat']
      omega
    have hsemicolon : c.toNat ≠ 59 := fun he => hc.2.2.1 (Char.toNat_inj.mp he)
    refine ⟨decide_eq_false ?_, fun he => ?_⟩
    · rw [UInt8.le_iff_toNat_le, UInt8.le_iff_toNat_le, hbyte]
      rintro (he | he)
      · have := congrArg UInt8.toNat he
        rw [hbyte] at this
        change c.toNat = 32 at this
        omega
      · have : c.toNat ≤ 13 := he.2
        omega
    · have := congrArg UInt8.toNat he
      rw [hbyte] at this
      exact hsemicolon this

theorem uint8_lt (n : UInt8) : n.toNat < uint64Size := n.toNat_lt.trans (by decide)
theorem uint16_lt (n : UInt16) : n.toNat < uint64Size := n.toNat_lt.trans (by decide)
theorem uint64_lt (n : UInt64) : n.toNat < uint64Size := n.toNat_lt

theorem numberLine_isLine (hname : Name name) (hn : n < uint64Size) :
    Line (octets (numberLine name n)) ∧ Field (octets (numberLine name n)) :=
  (hname.number hn).isLine hname

theorem pairLine_isLine (hname : Name name) (hn : n < uint64Size) (hn' : n' < uint64Size) :
    Line (octets (pairLine name n n')) ∧ Field (octets (pairLine name n n')) :=
  (hname.pair hn hn').isLine hname

theorem Value.length_lt (hname : Name name) (h : Value name value) : value.length < 255 := by
  have hname := List.length_pos_of_ne_nil hname.1
  have hlength := h.2.2
  rw [configReadLineBuffSize, textLine, key, List.length_append, List.length_append,
    List.length_append, List.length_singleton] at hlength
  omega

theorem Value.ofBuffer_line (hname : Name name) (h : Value name value) :
    ofBuffer (chars (octets (textLine name value))) = key name ++ (value ++ ['\n']) := by
  have hplain : Plain (textLine name value) := (hname.plain_key.append h.1).append (by decide)
  rw [chars_octets fun c hc => (hplain c hc).2, ofBuffer_eq_self hplain.nul_free, textLine,
    List.append_assoc]

theorem restOfLine_textLine (hname : Name name) (hvalue : Value name value) (name' : String) (size : ℕ)
    (set : List Char → S → S) (s : S) :
    restOfLine name' size set (chars (octets (textLine name value))) s =
      .ok (set (snprintf size ((key name ++ value).drop (key name').length)) s) := by
  have hline : Plain (key name ++ value) := hname.plain_key.append hvalue.1
  have hplain : Plain (textLine name value) := hline.append (by decide)
  have hlength : (textLine name value).length = (key name ++ value).length + 1 := List.length_append
  have hcut : (toBuffer configReadLineBuffSize (textLine name value)).set
      ((textLine name value).length - 1) '\x00' = key name ++ value ++
        List.replicate (configReadLineBuffSize - (textLine name value).length + 1) '\x00' := by
    rw [toBuffer, hlength, Nat.add_sub_cancel, textLine, List.append_assoc (key name ++ value),
      List.set_append_right _ _ le_rfl, Nat.sub_self]
    rfl
  rw [restOfLine, chars_octets fun c hc => (hplain c hc).2, ofBuffer_eq_self hplain.nul_free]
  simp only [hcut]
  rw [if_neg (by omega), ofBuffer_drop_zeros hline.nul_free]

theorem Reader.take_line (store : List Char → S → Except Fault S) (next : Reader S)
    (lines : List (List UInt8)) (s : S) :
    (Reader.line store next).take lines s = (Reader.fgets store next).take lines s := by
  rw [Reader.line, Reader.take]

theorem Reader.take_close (lines : List (List UInt8)) (s : S) :
    (Reader.close : Reader S).take lines s = .ok s := by
  rw [Reader.take]

theorem Reader.take_assign (change : S → S) (next : Reader S) (lines : List (List UInt8)) (s : S) :
    (Reader.assign (.ok ∘ change) next).take lines s = next.take lines (change s) := by
  rw [Reader.take]
  rfl

theorem Reader.take_branch (cond : S → Bool) (yes no : Reader S) (lines : List (List UInt8)) (s : S) :
    (Reader.branch cond yes no).take lines s =
      if cond s then yes.take lines s else no.take lines s := by
  rw [Reader.take]

theorem Reader.take_skipConfigComments (next : Reader S) (lines : List (List UInt8)) (s : S) :
    (Reader.skipConfigComments next).take lines s = next.take lines s := by
  rw [Reader.take]

theorem Reader.take_number (hname : Name name) (hn : n < uint64Size) (set : ℕ → S → S) (next : Reader S)
    (lines : List (List UInt8)) (s : S) :
    (Reader.fgets (ConfigReader.number name set) next).take
      (octets (textLine name (Nat.toDigits 10 n)) :: lines) s =
      next.take lines (set n s) := by
  rw [Reader.take, ConfigReader.number, (hname.number hn).ofBuffer_line hname,
    hname.matchText, Option.bind_some, scanUl_dropWhile, scanUl_toDigits hn (by decide)]
  rfl

theorem Reader.take_pair (hname : Name name) (hn : n < uint64Size) (hn' : n' < uint64Size)
    (set set' : ℕ → S → S) (next : Reader S) (lines : List (List UInt8)) (s : S) :
    (Reader.fgets (ConfigReader.pair name set set') next).take
      (octets (textLine name (Nat.toDigits 10 n ++ ' ' :: Nat.toDigits 10 n')) :: lines) s =
        next.take lines (set' n' (set n s)) := by
  rw [Reader.take, ConfigReader.pair, (hname.pair hn hn').ofBuffer_line hname,
    hname.matchText, Option.bind_some, scanUl_dropWhile, List.append_assoc, List.cons_append,
    scanUl_toDigits hn (by decide)]
  simp only [scanUl_cons_blank, scanUl_toDigits hn' (by decide : Char.isDigit '\n' = false)]
  rfl

theorem Reader.take_word (hname : Name name) (hvalue : Word name value) (hsize : value.length < size)
    (set : List Char → S → S) (next : Reader S) (lines : List (List UInt8)) (s : S) :
    (Reader.fgets (word name size set) next).take (octets (textLine name value) :: lines) s =
      next.take lines (set value s) := by
  obtain ⟨hvalue, hword, hne⟩ := hvalue
  rw [Reader.take, word, hvalue.ofBuffer_line hname, hname.matchText, Option.bind_some,
    scanWord_dropWhile, scanWord_append_cons hword hne (by decide)]
  simp only [hsize, ↓reduceIte]
  rfl

theorem Reader.take_restOfLine (hname : Name name) (hvalue : Value name value)
    (hsize : value.length < size) (set : List Char → S → S) (next : Reader S)
    (lines : List (List UInt8)) (s : S) :
    (Reader.fgets (restOfLine name size set) next).take (octets (textLine name value) :: lines) s =
      next.take lines (set value s) := by
  rw [Reader.take, restOfLine_textLine hname hvalue, List.drop_left, snprintf_fits hsize]
  rfl

theorem Name.matchText_other {other : String} (h : Name name) (hother : Name other) (hne : name ≠ other)
    (rest : List Char) : CStrings.matchText (key name) (key other ++ rest) = none := by
  rw [key, key, List.append_assoc]
  refine CStrings.matchText_other (by decide) (fun c hc => ?_) (fun hc => ?_)
    (fun he => hne (String.toList_inj.mp he)) [' '] (' ' :: rest)
  · exact ⟨isSpace_visible (h.2.2 c hc).1, (h.2.2 c hc).2.2.2⟩
  · exact (hother.2.2 _ hc).2.2.2 rfl

theorem Value.matchText_other {other : String} (h : Name name) (hother : Name other) (hne : name ≠ other)
    (hvalue : Value other value) :
    CStrings.matchText (key name) (ofBuffer (chars (octets (textLine other value)))) = none := by
  rw [hvalue.ofBuffer_line hother]
  exact h.matchText_other hother hne _

/-- A line with another name is left alone, but not by `restOfLine`. -/
theorem Reader.take_number_other {other : String} (h : Name name) (hother : Name other)
    (hne : name ≠ other) (hvalue : Value other value) (set : ℕ → S → S) (next : Reader S)
    (lines : List (List UInt8)) (s : S) :
    (Reader.fgets (ConfigReader.number name set) next).take (octets (textLine other value) :: lines) s =
      next.take lines s := by
  rw [Reader.take, ConfigReader.number, hvalue.matchText_other h hother hne]
  rfl

theorem Reader.take_pair_other {other : String} (h : Name name) (hother : Name other)
    (hne : name ≠ other) (hvalue : Value other value) (set set' : ℕ → S → S) (next : Reader S)
    (lines : List (List UInt8)) (s : S) :
    (Reader.fgets (ConfigReader.pair name set set') next).take
      (octets (textLine other value) :: lines) s = next.take lines s := by
  rw [Reader.take, ConfigReader.pair, hvalue.matchText_other h hother hne]
  rfl

theorem Reader.take_word_other {other : String} (h : Name name) (hother : Name other)
    (hne : name ≠ other) (hvalue : Value other value) (size : ℕ) (set : List Char → S → S)
    (next : Reader S) (lines : List (List UInt8)) (s : S) :
    (Reader.fgets (word name size set) next).take (octets (textLine other value) :: lines) s =
      next.take lines s := by
  rw [Reader.take, word, hvalue.matchText_other h hother hne]
  rfl

theorem Reader.take_restOfLine_other {other : String} (hother : Name other) (hvalue : Value other value)
    (name : String) (size : ℕ) (set : List Char → S → S) (next : Reader S)
    (lines : List (List UInt8)) (s : S) :
    (Reader.fgets (restOfLine name size set) next).take (octets (textLine other value) :: lines) s =
      next.take lines (set (snprintf size ((key other ++ value).drop (key name).length)) s) := by
  rw [Reader.take, restOfLine_textLine hother hvalue]
  rfl

/-- Blanks in front of a name, and a comment, are not what is scanned for. -/
theorem Reader.take_number_gap (h : Name name) (hline : Gap line) (set : ℕ → S → S) (next : Reader S)
    (lines : List (List UInt8)) (s : S) :
    (Reader.fgets (ConfigReader.number name set) next).take (line :: lines) s = next.take lines s := by
  have hnone : CStrings.matchText (key name) (ofBuffer (chars line)) = none := by
    obtain ⟨c, rest, hcons⟩ := List.exists_cons_of_ne_nil h.1
    have hc := h.2.2 c (hcons ▸ List.mem_cons_self)
    rw [key, hcons, List.cons_append]
    refine matchText_head (isSpace_visible hc.1) (fun d hd he => ?_) _
    subst he
    rw [ofBuffer, List.head?_takeWhile, chars, List.head?_map] at hd
    obtain ⟨hd, -⟩ := Option.mem_filter_iff.mp hd
    obtain ⟨b, hb, rfl⟩ := Option.map_eq_some_iff.mp hd
    have hbyte : (Char.ofNat b.toNat).toNat = b.toNat := by
      have hvalid : b.toNat.isValidChar := .inl (b.toNat_lt.trans (by decide))
      rw [Char.ofNat, dif_pos hvalid]
      rfl
    rw [hbyte] at hc
    rcases hline.2 b hb with hspace | rfl
    · have hrange := of_decide_eq_true hspace
      rw [UInt8.le_iff_toNat_le, UInt8.le_iff_toNat_le] at hrange
      rcases hrange with rfl | hrange
      · exact absurd hc.1 (by decide)
      · have : b.toNat ≤ 13 := hrange.2
        omega
    · exact hc.2.2.1 rfl
  rw [Reader.take, ConfigReader.number, hnone]
  rfl

end EmotionStreamer.ConfigReader
