import EmotionStreamer.PushBack
import Mathlib.Data.List.DropRight

/-! `skip_config_comments`: the blanks and the comments in front of the next field of a
configuration file. -/
namespace EmotionStreamer.ConfigComments
open PushBack

def newline : UInt8 := 10
def semicolon : UInt8 := 59

def isspace (c : UInt8) : Bool := c = 32 ∨ 9 ≤ c ∧ c ≤ 13

/-- From the label to the `goto`, which looks at the last `curr_char`. -/
def skipComment (fp : Stream UInt8) : Option UInt8 × Stream UInt8 :=
  let (currChar, fp) := fp.getWhile isspace
  let fp := fp.unget currChar
  let fp :=
    if currChar = some semicolon then
      let (currChar, fp) := fp.get
      if currChar.isSome then
        let (currChar, fp) := (fp.unget currChar).getWhile (· ≠ newline)
        fp.unget currChar
      else fp
    else fp
  let (currChar, fp) := fp.getWhile isspace
  (currChar, fp.unget currChar)

/-- Blanks and comments in front of the rest of a stream: a comment goes from its semicolon to
the next newline, or to the end of the stream. -/
inductive Blank : List UInt8 → List UInt8 → Prop
  | nil (rest : List UInt8) : Blank [] rest
  | space {c : UInt8} {front rest : List UInt8} (space : isspace c = true) (more : Blank front rest) :
      Blank (c :: front) rest
  | comment {line front rest : List UInt8} (line_end : newline ∉ line)
      (next : ∀ c ∈ (front ++ rest).head?, c = newline) (more : Blank front rest) :
      Blank (semicolon :: line ++ front) rest

/-- A comment at the front is left out, up to its newline. -/
def behindComment (text : List UInt8) : List UInt8 :=
  if text.head? = some semicolon then text.dropWhile (· ≠ newline) else text

variable {fp : Stream UInt8} {text front rest : List UInt8}

theorem skipComment_eq (fp : Stream UInt8) : skipComment fp =
    let text := (behindComment (fp.pending.dropWhile isspace)).dropWhile isspace
    (text.head?, .peeked text) := by
  simp only [skipComment, behindComment, Stream.getWhile_fst, Stream.unget_getWhile]
  by_cases hcomment : (fp.pending.dropWhile isspace).head? = some semicolon
  · have hback := Stream.unget_head (fp.pending.dropWhile isspace)
    rw [hcomment] at hback
    simp [hcomment, hback]
  · simp [hcomment]

/-- The `goto` is taken behind a comment only. -/
theorem skipComment_lt (h : (skipComment fp).1 = some semicolon) :
    (skipComment fp).2.pending.length < fp.pending.length := by
  rw [skipComment_eq] at h ⊢
  simp only [Stream.pending_peeked] at h ⊢
  have hblanks := List.length_dropWhile_le isspace fp.pending
  rw [behindComment] at h ⊢
  split_ifs at h ⊢ with hcomment
  · obtain ⟨line, hline⟩ := List.head?_eq_some_iff.mp hcomment
    have hnext := List.length_dropWhile_le isspace ((semicolon :: line).dropWhile (· ≠ newline))
    have hskip := List.length_dropWhile_le (· ≠ newline) line
    have hsemicolon : (semicolon :: line).dropWhile (· ≠ newline) = line.dropWhile (· ≠ newline) := rfl
    rw [hline, List.length_cons] at hblanks
    rw [hline]
    rw [hsemicolon] at hnext ⊢
    omega
  · rw [List.dropWhile_idempotent] at h
    exact absurd h hcomment

/-- `goto` until a field or the end of the stream is next. -/
def skipConfigComments (fp : Stream UInt8) : Stream UInt8 :=
  if _h : (skipComment fp).1 = some semicolon then skipConfigComments (skipComment fp).2
  else (skipComment fp).2
termination_by fp.pending.length
decreasing_by exact skipComment_lt _h

/-- The stream is left behind the longest text of blanks and comments, where it stays. -/
structure Skipped (fp after : Stream UInt8) : Prop where
  longest : ∃ front, fp.pending = front ++ after.pending ∧ Blank front after.pending ∧
    ∀ front' rest, fp.pending = front' ++ rest → Blank front' rest → front'.length ≤ front.length
  field : ∀ c ∈ after.pending.head?, isspace c = false ∧ c ≠ semicolon
  again : skipConfigComments after = after

/-- What is behind blanks and comments, from a place in a comment or not. -/
def behindBlank : (inComment : Bool) → List UInt8 → List UInt8
  | _, [] => []
  | true, c :: text => behindBlank (c ≠ newline) text
  | false, c :: text =>
    if isspace c then behindBlank false text
    else if c = semicolon then behindBlank true text
    else c :: text

theorem isspace_newline : isspace newline = true := by decide
theorem isspace_semicolon : isspace semicolon = false := by decide

/-- In a comment, its newline is the next place that counts. -/
theorem behindBlank_comment (text : List UInt8) :
    behindBlank true text = behindBlank false (text.dropWhile (· ≠ newline)) := by
  induction text with
  | nil => rfl
  | cons c text ih =>
    by_cases hc : c = newline
    · simp [behindBlank, hc, isspace_newline]
    · simpa [behindBlank, List.dropWhile_cons, hc] using ih

theorem behindBlank_dropWhile (text : List UInt8) :
    behindBlank false (text.dropWhile isspace) = behindBlank false text := by
  induction text with
  | nil => rfl
  | cons c text ih =>
    by_cases hc : isspace c = true
    · rw [List.dropWhile_cons, if_pos hc, ih, behindBlank, if_pos hc]
    · rw [List.dropWhile_cons, if_neg hc]

theorem behindBlank_behindComment (text : List UInt8) :
    behindBlank false (behindComment text) = behindBlank false text := by
  rw [behindComment]
  split_ifs with hcomment
  · obtain ⟨line, rfl⟩ := List.head?_eq_some_iff.mp hcomment
    have hline : (semicolon :: line).dropWhile (· ≠ newline) = line.dropWhile (· ≠ newline) := rfl
    rw [hline, ← behindBlank_comment, behindBlank, isspace_semicolon]
    rfl
  · rfl

/-- A field, and the end of the stream, are behind no blanks. -/
theorem behindBlank_field (h : ∀ c ∈ text.head?, isspace c = false ∧ c ≠ semicolon) :
    behindBlank false text = text := by
  cases text with
  | nil => rfl
  | cons c text =>
    obtain ⟨hspace, hcomment⟩ := h c rfl
    rw [behindBlank, hspace, if_neg Bool.false_ne_true, if_neg hcomment]

theorem field_behindBlank (inComment : Bool) (text : List UInt8) :
    ∀ c ∈ (behindBlank inComment text).head?, isspace c = false ∧ c ≠ semicolon := by
  induction text generalizing inComment with
  | nil => cases inComment <;> exact fun c hc => nomatch hc
  | cons c text ih =>
    cases inComment with
    | true => exact ih _
    | false =>
      rw [behindBlank]
      split_ifs with hspace hcomment
      · exact ih false
      · exact ih true
      · intro d hd
        cases hd
        exact ⟨Bool.eq_false_iff.mpr hspace, hcomment⟩

/-- One pass skips nothing but blanks and comments. -/
theorem behindBlank_skipComment (fp : Stream UInt8) :
    behindBlank false (skipComment fp).2.pending = behindBlank false fp.pending := by
  rw [skipComment_eq]
  dsimp only
  rw [Stream.pending_peeked, behindBlank_dropWhile, behindBlank_behindComment,
    behindBlank_dropWhile]

theorem skipConfigComments_eq (fp : Stream UInt8) :
    skipConfigComments fp = .peeked (behindBlank false fp.pending) := by
  fun_induction skipConfigComments fp with
  | case1 fp hgoto ih => rw [ih, behindBlank_skipComment]
  | case2 fp hdone =>
    rw [← behindBlank_skipComment]
    rw [skipComment_eq] at hdone ⊢
    dsimp only at hdone ⊢
    rw [Stream.pending_peeked, behindBlank_field]
    intro c hc
    refine ⟨?_, fun hcomment => hdone (hcomment ▸ hc)⟩
    have hspace := List.head?_dropWhile_not isspace
      (behindComment (fp.pending.dropWhile isspace))
    rw [hc] at hspace
    exact hspace

/-- What is skipped is made of blanks and comments, also from within a comment. -/
theorem exists_blank (text : List UInt8) :
    (∃ front, text = front ++ behindBlank false text ∧ Blank front (behindBlank false text)) ∧
      ∃ line front, text = line ++ front ++ behindBlank true text ∧ newline ∉ line ∧
        (∀ c ∈ (front ++ behindBlank true text).head?, c = newline) ∧
        Blank front (behindBlank true text) := by
  induction text with
  | nil =>
    refine ⟨⟨[], rfl, .nil _⟩, [], [], rfl, List.not_mem_nil, ?_, .nil _⟩
    intro c hc
    cases hc
  | cons c text ih =>
    obtain ⟨⟨front, hfront, hblank⟩, line, after, hline, hnewline, hnext, hafter⟩ := ih
    constructor
    · rw [behindBlank]
      split_ifs with hspace hcomment
      · exact ⟨c :: front, by rw [List.cons_append, ← hfront], .space hspace hblank⟩
      · refine ⟨semicolon :: line ++ after, ?_, .comment hnewline hnext hafter⟩
        rw [hcomment, List.cons_append, List.cons_append, ← hline]
      · exact ⟨[], rfl, .nil _⟩
    · by_cases hc : c = newline
      · have hbehind : behindBlank true (c :: text) = behindBlank false text := by
          simp [behindBlank, hc]
        rw [hbehind]
        refine ⟨[], c :: front, ?_, List.not_mem_nil, ?_, .space (hc ▸ isspace_newline) hblank⟩
        · rw [List.nil_append, List.cons_append, ← hfront]
        · intro d hd
          cases hd
          exact hc
      · have hbehind : behindBlank true (c :: text) = behindBlank true text := by
          simp [behindBlank, hc]
        rw [hbehind]
        refine ⟨c :: line, after, ?_, ?_, hnext, hafter⟩
        · rw [List.cons_append, List.cons_append, ← hline]
        · rw [List.mem_cons, not_or]
          exact ⟨fun he => hc he.symm, hnewline⟩

/-- A comment with its newline stands in front of anything. -/
theorem Blank.ofLine {line : List UInt8} (h : newline ∉ line) (rest : List UInt8) :
    Blank (semicolon :: line ++ [newline]) rest := by
  refine .comment h ?_ (.space isspace_newline (.nil rest))
  rintro c ⟨⟩
  rfl

/-- Whatever blanks and comments a stream begins with, the same field is behind them. -/
theorem Blank.behindBlank_eq (h : Blank front rest) :
    behindBlank false (front ++ rest) = behindBlank false rest := by
  induction h with
  | nil => rfl
  | @space c front rest hspace _ ih => rw [List.cons_append, behindBlank, if_pos hspace, ih]
  | @comment line front rest hline hnext _ ih =>
    have hskip : (line ++ (front ++ rest)).dropWhile (· ≠ newline) = front ++ rest := by
      have hcomment : ∀ c ∈ line, decide (c ≠ newline) = true := fun c hc =>
        decide_eq_true fun he => hline (he ▸ hc)
      rw [List.dropWhile_append_of_pos hcomment]
      cases htext : front ++ rest with
      | nil => rfl
      | cons d text =>
        rw [hnext d (by rw [htext]; rfl)]
        rfl
    rw [List.append_assoc, List.cons_append, behindBlank, isspace_semicolon,
      if_neg Bool.false_ne_true, if_pos rfl, behindBlank_comment, hskip, ih]

theorem behindBlank_length_le (inComment : Bool) (text : List UInt8) :
    (behindBlank inComment text).length ≤ text.length := by
  induction text generalizing inComment with
  | nil => cases inComment <;> exact Nat.le_refl _
  | cons c text ih =>
    cases inComment with
    | true => exact (ih _).trans (Nat.le_succ _)
    | false =>
      rw [behindBlank]
      split_ifs
      · exact (ih false).trans (Nat.le_succ _)
      · exact (ih true).trans (Nat.le_succ _)
      · exact Nat.le_refl _

/-- From every place of every stream, the blanks and comments are skipped, and nothing else. -/
theorem skipConfigComments_skipped (fp : Stream UInt8) : Skipped fp (skipConfigComments fp) := by
  rw [skipConfigComments_eq]
  have hfield := field_behindBlank false fp.pending
  obtain ⟨⟨front, hfront, hblank⟩, -⟩ := exists_blank fp.pending
  refine ⟨⟨front, ?_, ?_, ?_⟩, ?_, ?_⟩
  · rw [Stream.pending_peeked]
    exact hfront
  · rw [Stream.pending_peeked]
    exact hblank
  · intro front' rest hsplit hblank'
    have hle := behindBlank_length_le false rest
    rw [← hblank'.behindBlank_eq, ← hsplit] at hle
    have hlength := congrArg List.length (hfront.symm.trans hsplit)
    simp only [List.length_append] at hlength
    omega
  · rw [Stream.pending_peeked]
    exact hfield
  · rw [skipConfigComments_eq, Stream.pending_peeked, behindBlank_field hfield]

end EmotionStreamer.ConfigComments
