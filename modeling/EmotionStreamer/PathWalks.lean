import EmotionStreamer.Paths

/-! Where a path leads when `..` goes back to the directory above: the names of the directory
that it reaches, and which paths reach into one. -/
namespace EmotionStreamer.PathWalks
open Paths

abbrev Name := List Char

/-- One component; above the root is the root. -/
def visit (here : List Name) (c : Name) : List Name :=
  if c = ['.', '.'] then here.dropLast else here ++ [c]

def walk (here : List Name) (cs : List Name) : List Name := cs.foldl visit here

def resolve (path : List Char) : List Name := walk [] (components path)

/-- The components in front of the last slash, and what is behind it. -/
def front (dir : List Char) : List Name := (dir.splitOn '/').dropLast.filter isStep
def lastWord (dir : List Char) : Name := (dir.splitOn '/').getLastD []

/-- How far a walk goes up from where it starts, and the names it then goes down to. -/
structure Course where
  up : ℕ
  down : List Name
  deriving DecidableEq, Repr

def Course.visit (k : Course) (c : Name) : Course :=
  if c = ['.', '.'] then
    if k.down = [] then ⟨k.up + 1, []⟩ else ⟨k.up, k.down.dropLast⟩
  else ⟨k.up, k.down ++ [c]⟩

def course (cs : List Name) : Course := cs.foldl Course.visit ⟨0, []⟩

/-- What is left of a directory above, `up` steps from it. -/
def above (here : List Name) (up : ℕ) : List Name := here.take (here.length - up)

/-- The course of a text that is put behind `dir`, from the last slash of `dir` on. -/
def route (dir text : List Char) : Course := course (components (lastWord dir ++ text))

/-- The directory from which that course goes down. -/
def turn (dir text : List Char) : List Name := above (walk [] (front dir)) (route dir text).up

/-- A text behind `dir` leads into `goal`: the directory it goes up to is on the way to `goal`, and
from there it goes down the rest of that way. -/
structure LeadsInto (goal : List Name) (dir text : List Char) : Prop where
  up : goal.take (turn dir text).length <+: turn dir text
  down : goal.drop (turn dir text).length <+: (route dir text).down

variable {here goal cs : List Name} {dir text : List Char}

theorem walk_append (here cs ds : List Name) : walk here (cs ++ ds) = walk (walk here cs) ds :=
  List.foldl_append

theorem above_dropLast (here : List Name) (up : ℕ) :
    (above here up).dropLast = above here (up + 1) := by
  rw [above, above]
  by_cases hlt : here.length - up < here.length
  · rw [List.dropLast_take hlt, Nat.sub_sub]
  · have hall : here.length - up = here.length := by omega
    rw [hall, List.take_length, List.dropLast_eq_take]
    congr 1
    omega

/-- A walk goes up first and then down. -/
theorem walk_eq (here cs : List Name) :
    walk here cs = above here (course cs).up ++ (course cs).down := by
  induction cs using List.reverseRecOn with
  | nil => simp [walk, course, above]
  | append_singleton cs c ih =>
    have hcourse : course (cs ++ [c]) = (course cs).visit c := by simp [course]
    have hwalk : walk here (cs ++ [c]) = visit (walk here cs) c := by simp [walk]
    rw [hcourse, hwalk, ih, visit, Course.visit]
    split_ifs with hup hdown
    · rw [hdown, List.append_nil, List.append_nil, above_dropLast]
    · rw [List.dropLast_append_of_ne_nil hdown]
    · rw [List.append_assoc]

theorem components_append_text (dir text : List Char) :
    components (dir ++ text) = front dir ++ components (lastWord dir ++ text) := by
  rcases last_name dir with hdir | ⟨d, w, hw, rfl⟩
  · rw [front, lastWord, List.splitOn_eq_singleton hdir]
    rfl
  · have hsplit : (d ++ '/' :: w).splitOn '/' = d.splitOn '/' ++ [w] := by
      rw [List.splitOn_append_cons_self, List.splitOn_eq_singleton hw]
    rw [front, lastWord, hsplit, List.dropLast_concat, List.append_assoc, List.cons_append,
      components_append_slash, List.getLastD_concat]
    rfl

theorem prefix_append_iff (goal xs ys : List Name) :
    goal <+: xs ++ ys ↔ goal.take xs.length <+: xs ∧ goal.drop xs.length <+: ys := by
  constructor
  · intro h
    have htake := h.take xs.length
    have hdrop := h.drop xs.length
    rw [List.take_left] at htake
    rw [List.drop_left] at hdrop
    exact ⟨htake, hdrop⟩
  · rintro ⟨htake, hdrop⟩
    rw [← List.take_append_drop xs.length goal]
    by_cases hlong : xs.length ≤ goal.length
    · rw [htake.eq_of_length (by rw [List.length_take, Nat.min_eq_left hlong])]
      exact (List.prefix_append_right_inj xs).mpr hdrop
    · rw [List.drop_eq_nil_of_le (Nat.le_of_not_le hlong), List.append_nil]
      exact htake.trans (List.prefix_append xs ys)

/-- What is behind the last slash of a directory decides whether a path that starts with it
reaches into `goal`. -/
theorem prefix_resolve_iff :
    goal <+: resolve (dir ++ text) ↔ LeadsInto goal dir text := by
  rw [resolve, components_append_text, walk_append, walk_eq, prefix_append_iff]
  exact ⟨fun ⟨hup, hdown⟩ => ⟨hup, hdown⟩, fun h => ⟨h.up, h.down⟩⟩

theorem walk_of_no_parent (here : List Name) (h : ['.', '.'] ∉ cs) : walk here cs = here ++ cs := by
  induction cs generalizing here with
  | nil => rw [List.append_nil]; rfl
  | cons c cs ih =>
    obtain ⟨hc, hcs⟩ := not_or.mp (mt List.mem_cons.mpr h)
    have hvisit : visit here c = here ++ [c] := if_neg (Ne.symm hc)
    change walk (visit here c) cs = _
    rw [ih _ hcs, hvisit, List.append_assoc, List.singleton_append]

/-- Behind a slash, a text without `..` leads into the directory in front of it. -/
theorem leadsInto_of_no_parent (dir : List Char) (h : ['.', '.'] ∉ components text) :
    LeadsInto (resolve (dir ++ ['/'])) (dir ++ ['/']) text := by
  have hdir : components (dir ++ ['/']) = components dir := by
    rw [components_append_slash]
    exact List.append_nil _
  rw [← prefix_resolve_iff, resolve, resolve, hdir, List.append_assoc, List.singleton_append,
    components_append_slash, walk_append, walk_of_no_parent _ h]
  exact List.prefix_append _ _

end EmotionStreamer.PathWalks
