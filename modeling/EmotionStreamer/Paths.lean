import Mathlib.Algebra.GroupWithZero.Nat
import Mathlib.Algebra.Order.BigOperators.Group.List
import Mathlib.Data.List.Infix
import Mathlib.Data.Nat.Basic
import Mathlib.Algebra.Order.Group.Nat
import Mathlib.Tactic.SplitIfs

/-! Path names: the components that a walk through directories follows, with empty ones and
`.` left out, and the part of a name behind its last dot. -/
namespace EmotionStreamer.Paths

def isStep (c : List Char) : Bool := c ≠ [] ∧ c ≠ ['.']

def components (path : List Char) : List (List Char) := (path.splitOn '/').filter isStep

/-- The path that `find` shows for the file with these components under `.`. -/
def relative (cs : List (List Char)) : List Char := List.intercalate ['/'] (['.'] :: cs)

/-- The characters of the components, with a slash for each. -/
def extent (cs : List (List Char)) : ℕ := (cs.map fun c => c.length + 1).sum

variable {p q w : List Char} {cs : List (List Char)}

theorem components_append_slash (p q : List Char) :
    components (p ++ '/' :: q) = components p ++ components q := by
  rw [components, List.splitOn_append_cons_self, List.filter_append]
  rfl

theorem components_word (hw : '/' ∉ w) (hstep : isStep w = true) : components w = [w] := by
  rw [components, List.splitOn_eq_singleton hw, List.filter_cons, if_pos hstep, List.filter_nil]

theorem components_append_word (p : List Char) (hw : '/' ∉ w) (hstep : isStep w = true) :
    components (p ++ '/' :: w) = components p ++ [w] := by
  rw [components_append_slash, components_word hw hstep]

theorem extent_append (cs ds : List (List Char)) : extent (cs ++ ds) = extent cs + extent ds := by
  rw [extent, List.map_append, List.sum_append]
  rfl

theorem extent_intercalate (hne : cs ≠ []) :
    extent cs = (List.intercalate ['/'] cs).length + 1 := by
  induction cs with
  | nil => exact absurd rfl hne
  | cons c cs ih =>
    cases cs with
    | nil => simp [extent]
    | cons d cs =>
      have hrest := ih (List.cons_ne_nil d cs)
      rw [List.intercalate_cons_cons]
      simp only [extent, List.map_cons, List.sum_cons, List.length_append, List.length_cons,
        List.length_nil] at hrest ⊢
      omega

theorem extent_relative (cs : List (List Char)) : (relative cs).length = extent cs + 1 := by
  have hall := extent_intercalate (List.cons_ne_nil ['.'] cs)
  have hcons : extent (['.'] :: cs) = 2 + extent cs := List.sum_cons
  rw [relative]
  omega

theorem extent_components_le (p : List Char) : extent (components p) ≤ p.length + 1 := by
  have hall := extent_intercalate (List.splitOn_ne_nil '/' p)
  rw [List.intercalate_splitOn] at hall
  rw [← hall]
  exact List.Sublist.sum_le_sum (List.filter_sublist.map _) fun _ _ => Nat.zero_le _

theorem mem_of_mem_components {c : Char} (hc : c ∈ w) (hw : w ∈ components p) : c ∈ p := by
  have hsplit : w ∈ p.splitOn '/' := List.mem_of_mem_filter hw
  have hjoin : List.intercalate ['/'] (p.splitOn '/') = p := List.intercalate_splitOn '/'
  rw [← hjoin]
  generalize p.splitOn '/' = ws at hsplit
  induction ws with
  | nil => cases hsplit
  | cons v ws ih =>
    cases ws with
    | nil => simpa [List.mem_singleton.mp hsplit] using hc
    | cons u ws =>
      rw [List.intercalate_cons_cons, List.append_assoc]
      rcases List.mem_cons.mp hsplit with rfl | hrest
      · exact List.mem_append_left _ hc
      · exact List.mem_append_right _ (List.mem_append_right _ (ih hrest))

theorem isStep_append (y : List Char) (hlen : 2 ≤ w.length) : isStep (y ++ w) = true := by
  have hle : 2 ≤ (y ++ w).length := by
    rw [List.length_append]
    omega
  apply decide_eq_true
  constructor
  · rintro he
    rw [he] at hle
    exact absurd hle (by decide)
  · rintro he
    rw [he] at hle
    exact absurd hle (by decide)

/-- What is behind the last slash. -/
theorem last_name (p : List Char) : '/' ∉ p ∨ ∃ d w, '/' ∉ w ∧ p = d ++ '/' :: w := by
  by_cases hp : '/' ∈ p
  · obtain ⟨back, front, hsplit, hback⟩ := List.eq_append_cons_of_mem (List.mem_reverse.mpr hp)
    refine Or.inr ⟨front.reverse, back.reverse, fun h => hback (List.mem_reverse.mp h), ?_⟩
    rw [← p.reverse_reverse, hsplit, List.reverse_append, List.reverse_cons, List.append_assoc]
    rfl
  · exact Or.inl hp

/-- A name without a slash ends the last component. -/
theorem components_append (p : List Char) (hw : '/' ∉ w) (hlen : 2 ≤ w.length) :
    ∃ cs y, components (p ++ w) = cs ++ [y ++ w] := by
  have hword : ∀ y : List Char, '/' ∉ y → '/' ∉ y ++ w := by
    intro y hy h
    rcases List.mem_append.mp h with h | h
    · exact hy h
    · exact hw h
  rcases last_name p with hp | ⟨d, y, hy, rfl⟩
  · exact ⟨[], p, components_word (hword p hp) (isStep_append p hlen)⟩
  · refine ⟨components d, y, ?_⟩
    rw [List.append_assoc, List.cons_append]
    exact components_append_word _ (hword y hy) (isStep_append y hlen)

/-- A dot behind a path is another component of it, or part of one, unless there is a slash
in front of it. -/
theorem components_dot_iff : components (p ++ ['.']) = components p ↔
    p = [] ∨ ∃ d, p = d ++ ['/'] := by
  have hdot : ∀ w : List Char, w ≠ [] → '/' ∉ w → components (w ++ ['.']) ≠ components w := by
    intro w hne hw heq
    have hlong : isStep (w ++ ['.']) = true := by
      apply decide_eq_true
      refine ⟨by simp, fun he => hne ?_⟩
      simpa using he
    rw [components_word (by simp [hw]) hlong] at heq
    by_cases hstep : isStep w = true
    · rw [components_word hw hstep] at heq
      exact absurd (List.singleton_inj.mp heq) (by simp)
    · rw [components, List.splitOn_eq_singleton hw, List.filter_cons, if_neg hstep] at heq
      cases heq
  constructor
  · intro heq
    rcases last_name p with hp | ⟨d, w, hw, rfl⟩
    · by_contra hne
      rw [not_or] at hne
      exact hdot p hne.1 hp heq
    · by_cases hnil : w = []
      · exact Or.inr ⟨d, by rw [hnil]⟩
      · rw [List.append_assoc, List.cons_append, components_append_slash,
          components_append_slash] at heq
        exact absurd (List.append_cancel_left heq) (hdot w hnil hw)
  · rintro (rfl | ⟨d, rfl⟩)
    · decide
    · rw [List.append_assoc, List.singleton_append, components_append_slash, components_append_slash]
      rfl

/-- Behind another path, the dot of a relative one joins the last component of the other. -/
theorem components_append_relative (p : List Char) (hne : cs ≠ [])
    (hcs : ∀ c ∈ cs, '/' ∉ c ∧ isStep c = true) :
    components (p ++ relative cs) = components (p ++ ['.']) ++ cs := by
  obtain ⟨c, cs, rfl⟩ := List.exists_cons_of_ne_nil hne
  have hnames : components (List.intercalate ['/'] (c :: cs)) = c :: cs := by
    rw [components, List.splitOn_intercalate '/' (fun w hw => (hcs w hw).1) hne]
    exact List.filter_eq_self.mpr fun w hw => (hcs w hw).2
  have hrelative : relative (c :: cs) = ['.'] ++ '/' :: List.intercalate ['/'] (c :: cs) :=
    List.intercalate_cons_cons
  rw [hrelative, ← List.append_assoc, components_append_slash, hnames]

theorem mem_relative {c : Char} (h : c ∈ relative cs) : c = '.' ∨ c = '/' ∨ ∃ w ∈ cs, c ∈ w := by
  have hall : ∀ ws : List (List Char), c ∈ List.intercalate ['/'] ws → c = '/' ∨ ∃ w ∈ ws, c ∈ w := by
    intro ws
    induction ws with
    | nil =>
      intro hc
      cases hc
    | cons u ws ih =>
      intro hc
      cases ws with
      | nil => exact Or.inr ⟨u, List.mem_cons_self, by simpa using hc⟩
      | cons v ws =>
        rw [List.intercalate_cons_cons, List.append_assoc] at hc
        rcases List.mem_append.mp hc with hc | hc
        · exact Or.inr ⟨u, List.mem_cons_self, hc⟩
        · rcases List.mem_cons.mp hc with hc | hc
          · exact Or.inl hc
          · rcases ih hc with hc | ⟨w, hw, hc⟩
            · exact Or.inl hc
            · exact Or.inr ⟨w, List.mem_cons_of_mem _ hw, hc⟩
  rcases hall _ h with h | ⟨w, hw, hc⟩
  · exact Or.inr (Or.inl h)
  · rcases List.mem_cons.mp hw with rfl | hw
    · exact Or.inl (List.mem_singleton.mp hc)
    · exact Or.inr (Or.inr ⟨w, hw, hc⟩)

theorem relative_append (cs : List (List Char)) (w : List Char) :
    relative (cs ++ [w]) = relative cs ++ '/' :: w := by
  have hcons : ∀ c : List Char, List.intercalate ['/'] (c :: (cs ++ [w])) =
      List.intercalate ['/'] (c :: cs) ++ '/' :: w := by
    induction cs with
    | nil =>
      intro c
      simp
    | cons d cs ih =>
      intro c
      rw [List.cons_append, List.intercalate_cons_cons, List.intercalate_cons_cons, ih d]
      simp only [List.append_assoc]
  exact hcons ['.']

end EmotionStreamer.Paths
