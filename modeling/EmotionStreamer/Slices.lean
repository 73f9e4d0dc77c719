import Mathlib.Data.List.Basic

/-! Ranges of a flat buffer: reading one, writing one, and the laws between them
that `memcpy` and a read into a fixed buffer rely on. -/
namespace EmotionStreamer.Slices

variable {α : Type*}

/-- The `len` entries from `off` on. -/
def slice (buf : List α) (off len : ℕ) : List α := (buf.drop off).take len

/-- `buf` with `xs` written over it from `off` on. -/
def splice (buf : List α) (off : ℕ) (xs : List α) : List α :=
  buf.take off ++ (xs ++ buf.drop (off + xs.length))

variable {buf xs : List α} {off len : ℕ}

theorem slice_length (h : off + len ≤ buf.length) : (slice buf off len).length = len := by
  simp only [slice, List.length_take, List.length_drop]
  omega

theorem splice_length (h : off + xs.length ≤ buf.length) :
    (splice buf off xs).length = buf.length := by
  simp only [splice, List.length_append, List.length_take, List.length_drop]
  omega

/-- Two parts make up a list when they are its front and the rest. -/
theorem append_eq_iff {front more whole : List α} :
    front ++ more = whole ↔
      front = whole.take front.length ∧ more = whole.drop front.length := by
  constructor
  · intro he
    rw [← he, List.take_left, List.drop_left]
    exact ⟨rfl, rfl⟩
  · rintro ⟨hfront, hmore⟩
    rw [hmore]
    conv_rhs => rw [← List.take_append_drop front.length whole, ← hfront]

theorem slice_take {n : ℕ} (h : off + len ≤ n) : slice (buf.take n) off len = slice buf off len := by
  rw [slice, slice, List.drop_take, List.take_take, Nat.min_eq_left (by omega)]

theorem slice_drop (buf : List α) (k off len : ℕ) :
    slice (buf.drop k) off len = slice buf (k + off) len := by
  rw [slice, slice, List.drop_drop]

/-- Two ranges side by side. -/
theorem slice_append_slice (buf : List α) (off len len' : ℕ) :
    slice buf off len ++ slice buf (off + len) len' = slice buf off (len + len') := by
  rw [slice, slice, slice, List.take_add, List.drop_drop]

theorem slice_append_left (xs ys : List α) : slice (xs ++ ys) 0 xs.length = xs := by
  rw [slice, List.drop_zero, List.take_left]

theorem slice_append_right (xs ys : List α) (off len : ℕ) :
    slice (xs ++ ys) (xs.length + off) len = slice ys off len := by
  rw [← slice_drop, List.drop_left]

theorem slice_getElem? (buf : List α) (off len i : ℕ) :
    (slice buf off len)[i]? = if i < len then buf[off + i]? else none := by
  simp [slice, List.getElem?_take, List.getElem?_drop]

theorem splice_getElem? (h : off + xs.length ≤ buf.length) (i : ℕ) :
    (splice buf off xs)[i]? =
      if off ≤ i ∧ i < off + xs.length then xs[i - off]? else buf[i]? := by
  have hoff : (buf.take off).length = off := by simp; omega
  simp only [splice, List.getElem?_append, hoff, List.getElem?_take, List.getElem?_drop]
  by_cases hlo : i < off
  · simp [hlo, Nat.not_le.mpr hlo]
  · by_cases hhi : i - off < xs.length
    · simp [hlo, hhi, Nat.le_of_not_lt hlo, show i < off + xs.length by omega]
    · simp only [hlo, hhi, ↓reduceIte, show ¬i < off + xs.length by omega, and_false]
      congr 1
      omega

/-- What was written is read back. -/
theorem slice_splice (h : off + xs.length ≤ buf.length) :
    slice (splice buf off xs) off xs.length = xs := by
  refine List.ext_getElem? fun i => ?_
  rw [slice_getElem?, splice_getElem? h]
  by_cases hi : i < xs.length
  · simp [hi]
  · simp [hi]

/-- A write leaves every range apart from it alone. -/
theorem slice_splice_of_disjoint (off' len : ℕ) (h : off + xs.length ≤ buf.length)
    (hd : off' + len ≤ off ∨ off + xs.length ≤ off') :
    slice (splice buf off xs) off' len = slice buf off' len := by
  refine List.ext_getElem? fun i => ?_
  rw [slice_getElem?, slice_getElem?, splice_getElem? h]
  by_cases hi : i < len
  · rw [if_pos hi, if_pos hi, if_neg (by omega)]
  · simp [hi]

theorem slice_flatMap {β : Type*} {f : β → List α} {n : ℕ} (hf : ∀ x, (f x).length = n)
    (xs : List β) (k : ℕ) : slice (xs.flatMap f) (n * k) n = (xs[k]?).elim [] f := by
  induction xs generalizing k with
  | nil => simp [slice]
  | cons x xs ih =>
    cases k with
    | zero => simp [slice, List.take_left' (hf x)]
    | succ k =>
      have hdrop : (f x ++ xs.flatMap f).drop (n * (k + 1)) = (xs.flatMap f).drop (n * k) := by
        rw [List.drop_append, hf, List.drop_of_length_le (by rw [hf, Nat.mul_succ]; omega),
          List.nil_append, Nat.mul_succ, Nat.add_sub_cancel]
      rw [List.flatMap_cons, slice, hdrop, List.getElem?_cons_succ]
      exact ih k

/-- Blocks of one length are found again in their bytes. -/
theorem isPrefix_of_flatten {xs ys : List (List α)} {n : ℕ} (hn : 0 < n)
    (hxs : ∀ x ∈ xs, x.length = n) (hys : ∀ y ∈ ys, y.length = n)
    (h : xs.flatten <+: ys.flatten) : xs <+: ys := by
  induction xs generalizing ys with
  | nil => exact List.nil_prefix
  | cons x xs ih =>
    obtain ⟨hx, hxs⟩ := List.forall_mem_cons.mp hxs
    obtain ⟨rest, hrest⟩ := h
    cases ys with
    | nil =>
      have hlen := congrArg List.length hrest
      simp only [List.flatten_cons, List.length_append, List.flatten_nil, List.length_nil] at hlen
      omega
    | cons y ys =>
      obtain ⟨hy, hys'⟩ := List.forall_mem_cons.mp hys
      rw [List.flatten_cons, List.flatten_cons, List.append_assoc] at hrest
      obtain ⟨heq, hrest'⟩ := List.append_inj hrest (hx.trans hy.symm)
      exact List.cons_prefix_cons.mpr ⟨heq, ih hxs hys' ⟨rest, hrest'⟩⟩

theorem splice_zero (buf xs : List α) : splice buf 0 xs = xs ++ buf.drop xs.length := by
  simp [splice]

/-- Writing one value to several places. -/
theorem foldl_set_getElem? (cells : List α) (places : List ℕ) (a : α)
    (hplaces : ∀ i ∈ places, i < cells.length) (i : ℕ) :
    (places.foldl (fun cells j => cells.set j a) cells)[i]? =
      if i ∈ places then some a else cells[i]? := by
  induction places generalizing cells with
  | nil => simp
  | cons j places ih =>
    rw [List.foldl_cons, ih _ fun k hk => by
      simpa using hplaces k (List.mem_cons_of_mem _ hk)]
    have hj := hplaces j List.mem_cons_self
    by_cases hi : i ∈ places
    · simp [hi]
    · by_cases hij : i = j
      · subst hij
        simp [hj]
      · simp [hi, hij, List.getElem?_set_ne (Ne.symm hij)]

end EmotionStreamer.Slices
