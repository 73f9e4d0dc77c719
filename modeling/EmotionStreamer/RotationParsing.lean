import EmotionStreamer.DirListing

/-! `prepare_nightmare_blunt_rotation` on the text behind the first line of its file: every
call of `fgets` loses its last character, whether it is the newline or not, and every index
used on `curr_rotation_buff` and `curr_auto_dir` is checked. -/
namespace EmotionStreamer.RotationParsing
open CStrings
open Rotation (CString Disk rotationLengthLimit getFileExtension filePath)

/-- A write in front of `curr_rotation_buff` or behind `curr_auto_dir`, or a null pointer in
place of the extension. -/
inductive Fault
  | rotationBuff
  | autoDir
  | extension
  deriving DecidableEq, Repr

def currAutoDir (disk : Disk) : Except Fault CString :=
  let dir := disk.cwd ++ disk.folder.take pathsize
  if dir.length < pathsize then .ok dir else .error .autoDir

/-- What is left in `curr_rotation_buff` of what `fgets` has read. -/
def nameOf (piece : CString) : CString := (ofBuffer piece).dropLast

/-- The loop with `n` turns left, on what `fgets` reads call by call. -/
def rotationLoop (disk : Disk) (autoDir : CString) : (n : ℕ) → List CString →
    Except Fault (List CString)
  | 0, _ => .ok []
  | _ + 1, [] => .error .rotationBuff
  | n + 1, piece :: pieces =>
    if ofBuffer piece = [] then .error .rotationBuff
    else if nameOf piece = [] then .ok []
    else if !disk.opens (snprintf (pathsize * 2 + 2) (autoDir ++ nameOf piece)) then
      rotationLoop disk autoDir n pieces
    else
      match getFileExtension (nameOf piece) with
      | none => .error .extension
      | some (stem, extension) => (rotationLoop disk autoDir n pieces).map fun songs =>
        if extension = disk.serverWorkingExtension.drop 1 then stem :: songs else songs

def prepareNightmareBluntRotation (disk : Disk) (text : CString) : Except Fault (List CString) := do
  let autoDir ← currAutoDir disk
  rotationLoop disk autoDir rotationLengthLimit (fgetsAll (pathsize - 2) [] text)

/-- The last dot and what is behind it. -/
def lastExtension (line : CString) : Option CString :=
  (getFileExtension line).map fun (_, extension) => '.' :: extension

def Opens (disk : Disk) (line : CString) : Prop :=
  disk.opens (disk.cwd ++ disk.folder ++ line) = true

/-- The line names a file that can be opened and has the server's extension. -/
def IsSong (disk : Disk) (line : CString) : Prop :=
  '\x00' ∉ line ∧ Opens disk line ∧ lastExtension line = some disk.serverWorkingExtension

instance (disk : Disk) (line : CString) : Decidable (Opens disk line) :=
  inferInstanceAs (Decidable (_ = _))
instance (disk : Disk) (line : CString) : Decidable (IsSong disk line) :=
  inferInstanceAs (Decidable (_ ∧ _ ∧ _))

/-- The songs among the first `n` lines in front of a blank one. -/
def songLines (disk : Disk) (n : ℕ) (lines : List CString) : List CString :=
  ((lines.take n).takeWhile (· ≠ [])).filter (IsSong disk ·)

/-- The directory that a worker has in `curr_dir`. -/
def currDir (disk : Disk) : CString :=
  disk.cwd ++ disk.folder.take (pathsize - disk.cwd.length)

/-- A file that can be opened has an extension; one that is like the server's behind the dot
is the server's. -/
def Fit (disk : Disk) (line : CString) : Prop :=
  Opens disk line → ∃ stem extension, getFileExtension line = some (stem, extension) ∧
    (extension = disk.serverWorkingExtension.drop 1 →
      disk.serverWorkingExtension.head? = some '.')

/-- The loop finds a blank line, or makes all its turns, before the text ends. -/
def Steady (disk : Disk) : ℕ → List CString → Prop
  | 0, _ => True
  | _ + 1, [] => False
  | n + 1, piece :: pieces =>
    ofBuffer piece ≠ [] ∧ (nameOf piece = [] ∨ Fit disk (nameOf piece) ∧ Steady disk n pieces)

/-- With a newline behind it, a line of this length is read by one call. -/
def Whole (line : CString) : Prop := line.length ≤ pathsize - 4

instance (line : CString) : Decidable (Whole line) := inferInstanceAs (Decidable (_ ≤ _))

/-- A longer line has lost its last character, and the newline that is left of it ends the
rotation: the line is no song, and no song is behind it, but for the one that the line is
cut to. -/
def Cut (disk : Disk) (n : ℕ) (line : CString) (behind : List CString) : Prop :=
  Fit disk line.dropLast ∧ ¬IsSong disk line ∧
    songLines disk n behind = if IsSong disk line.dropLast then [line.dropLast] else []

/-- A last line without a newline loses its last character too, and there must be no turn
of the loop behind it, unless the line has one character only: the line is no song, and is
not cut to one. -/
def Unended (disk : Disk) (n : ℕ) (line : CString) : Prop :=
  line ≠ [] ∧ ¬IsSong disk line ∧
    (line.length = 1 ∨ n = 0 ∧ Fit disk line.dropLast ∧ ¬IsSong disk line.dropLast)

/-- The first `n` lines in front of a blank one, which is there when there are fewer, have a
newline behind them, are not too long, have no NUL, and fit; a line that is too long, or the
end of the file, comes where it does no harm. -/
def Regular (disk : Disk) : ℕ → List CString → Prop
  | 0, _ => True
  | _ + 1, [] => False
  | n + 1, [line] => '\x00' ∉ line ∧ Unended disk n line
  | n + 1, line :: next :: lines => line = [] ∨ '\x00' ∉ line ∧
      if Whole line then Fit disk line ∧ Regular disk n (next :: lines)
      else Cut disk n line (next :: lines)

variable {disk : Disk} {n : ℕ} {line : CString} {lines pieces : List CString}

theorem map_eq_ok {ε α β : Type*} {f : α → β} {e : Except ε α} {b : β} :
    e.map f = .ok b ↔ ∃ a, e = .ok a ∧ f a = b := by
  cases e <;> simp [Except.map]

/-- Where the checked loop goes through, the server has the same rotation. -/
theorem rotation_of_ok (hnul : ∀ piece ∈ pieces, '\x00' ∉ piece) (songs : List CString)
    (h : rotationLoop disk (disk.cwd ++ disk.folder.take pathsize) n pieces = .ok songs) :
    Rotation.rotationLoop disk n pieces = some songs := by
  induction n generalizing pieces songs with
  | zero =>
    cases h
    rfl
  | succ n ih =>
    cases pieces with
    | nil => cases h
    | cons piece pieces =>
      have hbuffer := ofBuffer_eq_self (hnul piece List.mem_cons_self)
      have hname : nameOf piece = piece.dropLast := by rw [nameOf, hbuffer]
      have hrest := ih fun p hp => hnul p (List.mem_cons_of_mem _ hp)
      simp only [rotationLoop, hbuffer, hname] at h
      simp only [Rotation.rotationLoop]
      split_ifs at h with hempty hblank hclosed
      · cases h
        exact if_pos hblank
      · rw [if_neg hblank, if_pos (by exact hclosed)]
        exact hrest songs h
      · rw [if_neg hblank, if_neg (by exact hclosed)]
        cases hext : getFileExtension piece.dropLast with
        | none =>
          rw [hext] at h
          cases h
        | some split =>
          rw [hext] at h
          obtain ⟨found, hfound, hsongs⟩ := map_eq_ok.mp h
          rw [← hsongs, hrest found hfound]
          rfl

variable (hlen : ∀ line ∈ lines, line.length ≤ pathsize - 3) (hnewline : ∀ line ∈ lines, '\n' ∉ line)

include hlen hnewline

omit hlen hnewline

theorem Regular.cons {next : CString} (hwhole : Whole line) (hnul : '\x00' ∉ line)
    (hfit : Fit disk line) (hrest : Regular disk n (next :: lines)) :
    Regular disk (n + 1) (line :: next :: lines) := by
  rw [Regular, if_pos hwhole]
  exact .inr ⟨hnul, hfit, hrest⟩

end EmotionStreamer.RotationParsing
