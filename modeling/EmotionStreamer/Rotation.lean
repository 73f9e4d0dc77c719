import EmotionStreamer.CStrings
import EmotionStreamer.Runs
import EmotionStreamer.ServerLifetime
import Mathlib.Data.List.GetD

/-! The rotation of a content server in auto mode. The accepting process counts the songs
on; each accepted connection is served by a new process, which `execvp` starts with its
own copy of the globals, read from the configuration again. -/
namespace EmotionStreamer.Rotation
open Runs ServerLifetime
open CStrings (snprintf)

abbrev CString := List Char

structure Timeval where
  tvSec : ℤ
  tvUsec : ℤ
  deriving DecidableEq, Repr

def Timeval.micros (t : Timeval) : ℤ := t.tvSec * 1000000 + t.tvUsec

/-- Whole seconds and the rest, by a division that truncates. -/
def Timeval.ofMicros (us : ℤ) : Timeval := ⟨us.tdiv 1000000, us - us.tdiv 1000000 * 1000000⟩

def timeSpecSumFunction (one two : Timeval) : Timeval := .ofMicros (one.micros + two.micros)
def timeSpecSubFunction (one two : Timeval) : Timeval := .ofMicros (two.micros - one.micros)

/-- The differences are taken as `int`s. -/
def timeSpecCompareFunction (one two : Timeval) : ℤ :=
  let secsSub := (one.tvSec - two.tvSec).bmod uint32Size
  if 0 < secsSub then 1
  else if secsSub ≠ 0 then -1
  else
    let microsecsSub := (one.tvUsec - two.tvUsec).bmod uint32Size
    if 0 < microsecsSub then 1 else if microsecsSub ≠ 0 then -1 else 0

def rotationLengthLimit : ℕ := 100

/-- The number on the first line of the rotation file, and what `fgets` returns after it. -/
structure RotationFile where
  period : ℤ
  lines : List CString

/-- What `read_values_cfg_server` finds: `server_con_times_pair[0]`, the directory and the
configured folder, and which files `fopen` opens. -/
structure Disk where
  isAutoMode : Bool
  conTimeout : ℕ
  cwd : CString
  musicFolder : CString
  serverWorkingExtension : CString
  rotationFile : Option RotationFile
  opens : CString → Bool

/-- An empty folder stands for `MUSIC_SERVER_INPUT_PATH`. -/
def Disk.folder (disk : Disk) : CString :=
  if disk.musicFolder = [] then "/raw_songs/".toList else disk.musicFolder

/-- The stem and the extension behind the last dot; `is_wav_mode` is still set when the
configuration is read. -/
def getFileExtension (path : CString) : Option (CString × CString) :=
  match path.reverse.span (· ≠ '.') with
  | (_, []) => none
  | (extension, _ :: stem) => some (stem.reverse, extension.reverse)

/-- The loop over the lines, with `n` turns left. A name without an extension gives
`strs_are_strictly_equal` a null pointer, which ends the process. -/
def rotationLoop (disk : Disk) : (n : ℕ) → List CString → Option (List CString)
  | 0, _ => some []
  | _ + 1, [] => some []
  | n + 1, line :: lines =>
    let name := line.dropLast
    if name = [] then some []
    else if !disk.opens (snprintf (pathsize * 2 + 2) (disk.cwd ++ disk.folder.take pathsize ++ name)) then
      rotationLoop disk n lines
    else do
      let (stem, extension) ← getFileExtension name
      let songs ← rotationLoop disk n lines
      return if extension = disk.serverWorkingExtension.drop 1 then stem :: songs else songs

/-- The period and the songs, unless the process ends. -/
def prepareNightmareBluntRotation (disk : Disk) : Option (Timeval × List CString) := do
  let file ← disk.rotationFile
  if file.period % uint32Size ≤ ((disk.conTimeout + 1) % uint64Size : ℕ) then none
  else do
    let songs ← rotationLoop disk rotationLengthLimit file.lines
    if songs = [] then none else some (⟨file.period, 0⟩, songs)

/-- The globals of a process that are about the rotation, and the request id, which is
all that a worker gets from its parent besides the socket. -/
structure Globals where
  isAutoMode : Bool
  serverAutoModeRotation : List CString
  currSongIndexRotation : ℕ
  currSongWaitedTime : Timeval
  rotationPeriod : Timeval
  serverWorkingExtension : CString
  currDir : CString
  currRequestId : ℕ

/-- Without a rotation, its period has the default value. -/
def readValuesCfgServer (disk : Disk) : Option Globals :=
  (if disk.isAutoMode then prepareNightmareBluntRotation disk else some (⟨100, 0⟩, [])).map
    fun r => ⟨disk.isAutoMode, r.2, 0, ⟨0, 0⟩, r.1, disk.serverWorkingExtension, disk.cwd, 0⟩

/-- The arguments behind the process type. -/
structure WorkerArgs where
  sock : ℤ
  requestId : ℕ
  deriving DecidableEq, Repr

/-- `main` of a worker, up to `con_go`. -/
def main (disk : Disk) (args : WorkerArgs) : Option Globals := do
  let g ← readValuesCfgServer disk
  return { g with
    currDir := disk.cwd ++ disk.folder.take (pathsize - disk.cwd.length)
    currRequestId := args.requestId }

/-- The rows of the array behind the songs are empty. -/
def Globals.song (g : Globals) (i : ℕ) : CString := g.serverAutoModeRotation.getD i []

def filePath (currDir song extension : CString) : CString :=
  snprintf (pathsize * 3 + 3) (currDir ++ song ++ extension)

/-- The file that `con_go` opens for a `PLAY` or `DOWN` request. -/
def Globals.conGo (g : Globals) (fileName : CString) : CString :=
  filePath g.currDir (if g.isAutoMode then g.song g.currSongIndexRotation else fileName)
    g.serverWorkingExtension

/-- What `produce_rotation_file` says about the current song. -/
structure RotationReport where
  numSongs : ℕ
  seconds : ℤ
  song : CString
  index : ℕ

def Globals.produceRotationFile (g : Globals) : RotationReport :=
  if g.isAutoMode then
    ⟨g.serverAutoModeRotation.length, g.rotationPeriod.tvSec, g.song g.currSongIndexRotation,
      g.currSongIndexRotation⟩
  else ⟨0, 0, "None.".toList, 0⟩

/-- A connection that a worker is started for, with the index at that moment. -/
structure Accept where
  index : ℕ
  args : WorkerArgs

/-- A process in `con_accepting_loop`. -/
structure Server where
  globals : Globals
  childPid : Bool
  running : Bool
  accepts : List Accept

def pickNextSong (g : Globals) (currTvInit currTvEnd : Timeval) : Globals :=
  if g.isAutoMode then
    let waited := timeSpecSumFunction g.currSongWaitedTime (timeSpecSubFunction currTvInit currTvEnd)
    if 0 < timeSpecCompareFunction waited g.rotationPeriod then
      { g with
        currSongIndexRotation := (g.currSongIndexRotation + 1) % g.serverAutoModeRotation.length
        currSongWaitedTime := ⟨0, 0⟩ }
    else { g with currSongWaitedTime := waited }
  else g

/-- A round of the loop: how it went, the descriptor that `accept` gave, and the clock at
its start and at its end. -/
structure Turn where
  round : Round
  sock : ℤ
  currTvInit : Timeval
  currTvEnd : Timeval

def Server.pick (s : Server) (t : Turn) : Server :=
  { s with globals := pickNextSong s.globals t.currTvInit t.currTvEnd }

/-- What `fork` leaves to the accepting process. -/
def Server.forked (s : Server) : Server :=
  { s with
    globals := { s.globals with currRequestId := (s.globals.currRequestId + 1) % uint64Size }
    childPid := true }

/-- When an `execvp` fails, there is no worker, and server and child both go on like this. -/
def conAcceptingLoop (s : Server) (t : Turn) : Server :=
  if s.running then
    match t.round with
    | .accepted .worker =>
      Server.pick { s.forked with
        accepts := s.accepts ++
          [⟨s.globals.currSongIndexRotation, ⟨t.sock, s.globals.currRequestId⟩⟩] } t
    | .accepted .execFails => s.forked.pick t
    | .accepted .failed => { s.forked with childPid := false, running := false }
    | .rejected => { s with running := false }
    | .selectFails => if s.childPid then s else { s with running := false }
    | .timedOut => s.pick t
  else s

/-- A server that could read its configuration, which stays as it is while it runs. -/
structure Launch where
  disk : Disk
  globals : Globals
  reads : readValuesCfgServer disk = some globals

def Server.start (launch : Launch) : Server := ⟨launch.globals, false, true, []⟩

def exec (launch : Launch) (ts : List Turn) : Server := ts.foldl conAcceptingLoop (.start launch)

/-- The worker opens the song that was current when the connection was accepted, whatever
the name in the request, and reports its index. -/
def Launch.Serves (launch : Launch) (a : Accept) : Prop :=
  ∃ w, main launch.disk a.args = some w ∧
    (∀ fileName, w.conGo fileName =
      filePath w.currDir (launch.globals.song a.index) launch.globals.serverWorkingExtension) ∧
    w.produceRotationFile.index = a.index

/-- So it is for all connections accepted so far, in auto mode. -/
def Launch.ServesAll (launch : Launch) (s : Server) : Prop :=
  launch.globals.isAutoMode = true → ∀ a ∈ s.accepts, launch.Serves a

/-- A worker is only started while the first song is the current one. -/
def Launch.AtFirst (launch : Launch) (s : Server) (t : Turn) : Prop :=
  launch.globals.isAutoMode = true → s.running = true → t.round = .accepted .worker →
    s.globals.currSongIndexRotation = 0

variable {disk : Disk} {g : Globals} {launch : Launch} {s : Server}

/-- Whatever the lines are, the songs fit in the array. -/
theorem rotationLoop_length_le {n : ℕ} {lines songs : List CString}
    (h : rotationLoop disk n lines = some songs) : songs.length ≤ n := by
  induction n generalizing lines songs with
  | zero =>
    cases h
    exact Nat.le_refl 0
  | succ n ih =>
    cases lines with
    | nil =>
      cases h
      exact Nat.zero_le _
    | cons line lines =>
      simp only [rotationLoop] at h
      split_ifs at h with hname hopens
      · cases h
        exact Nat.zero_le _
      · exact (ih h).trans (Nat.le_succ n)
      · obtain ⟨ext, -, h⟩ := Option.bind_eq_some_iff.mp h
        obtain ⟨rest, hrest, h⟩ := Option.bind_eq_some_iff.mp h
        have hle := ih hrest
        cases h
        split_ifs
        · exact Nat.succ_le_succ hle
        · exact hle.trans (Nat.le_succ n)

theorem prepareNightmareBluntRotation_songs {period : Timeval} {songs : List CString}
    (h : prepareNightmareBluntRotation disk = some (period, songs)) :
    0 < songs.length ∧ songs.length ≤ rotationLengthLimit := by
  obtain ⟨file, -, h⟩ := Option.bind_eq_some_iff.mp h
  split_ifs at h with hperiod
  obtain ⟨found, hfound, h⟩ := Option.bind_eq_some_iff.mp h
  split_ifs at h with hnil
  cases h
  exact ⟨List.length_pos_iff.mpr hnil, rotationLoop_length_le hfound⟩

/-- Reading the configuration resets the rotation. -/
theorem readValuesCfgServer_first (h : readValuesCfgServer disk = some g) :
    g.currSongIndexRotation = 0 := by
  obtain ⟨rotation, -, rfl⟩ := Option.map_eq_some_iff.mp h
  rfl

theorem readValuesCfgServer_songs (h : readValuesCfgServer disk = some g)
    (hauto : g.isAutoMode = true) : 0 < g.serverAutoModeRotation.length := by
  obtain ⟨rotation, hrotation, rfl⟩ := Option.map_eq_some_iff.mp h
  rw [if_pos hauto] at hrotation
  exact (prepareNightmareBluntRotation_songs hrotation).1

/-- A worker has the globals of a server that was just started. -/
theorem main_eq (launch : Launch) (args : WorkerArgs) : main launch.disk args =
    some { launch.globals with
      currDir := launch.disk.cwd ++ launch.disk.folder.take (pathsize - launch.disk.cwd.length)
      currRequestId := args.requestId } := by
  rw [main, launch.reads]
  rfl

/-- In auto mode a worker serves and reports the first song. -/
theorem serves_iff (hauto : launch.globals.isAutoMode = true) (a : Accept) :
    launch.Serves a ↔ a.index = 0 := by
  have hfirst := readValuesCfgServer_first launch.reads
  constructor
  · rintro ⟨w, hw, -, hindex⟩
    rw [main_eq] at hw
    cases hw
    rw [← hindex, Globals.produceRotationFile, if_pos hauto]
    exact hfirst
  · intro hzero
    refine ⟨_, main_eq launch a.args, fun fileName => ?_, ?_⟩
    · rw [Globals.conGo, if_pos hauto, hzero]
      simp only [hfirst, Globals.song]
    · rw [Globals.produceRotationFile, if_pos hauto, hzero]
      exact hfirst

/-- A round of the loop adds a connection only when it starts a worker. -/
theorem conAcceptingLoop_accepts (s : Server) (t : Turn) :
    (conAcceptingLoop s t).accepts = s.accepts ++
      if s.running = true ∧ t.round = .accepted .worker then
        [⟨s.globals.currSongIndexRotation, ⟨t.sock, s.globals.currRequestId⟩⟩] else [] := by
  by_cases hrun : s.running = true
  · simp only [conAcceptingLoop, hrun, ↓reduceIte, true_and]
    cases t.round with
    | accepted f => cases f <;> simp [Server.pick, Server.forked]
    | selectFails => cases s.childPid <;> simp
    | _ => simp [Server.pick]
  · simp [conAcceptingLoop, hrun]

/-- Step lemma. -/
theorem step_servesAll_iff (h : launch.ServesAll s) (t : Turn) :
    launch.ServesAll (conAcceptingLoop s t) ↔ launch.AtFirst s t := by
  unfold Launch.ServesAll Launch.AtFirst
  rw [conAcceptingLoop_accepts]
  refine forall_congr' fun hauto => ?_
  rw [List.forall_mem_append, and_iff_right (h hauto)]
  split_ifs with hworker
  · rw [List.forall_mem_singleton, serves_iff hauto]
    simp only [hworker, forall_const]
  · refine iff_of_true (fun a ha => by cases ha) fun hrun hround => ?_
    exact absurd ⟨hrun, hround⟩ hworker

theorem exactGuard (launch : Launch) :
    ExactGuard conAcceptingLoop launch.AtFirst launch.ServesAll launch.ServesAll where
  holds _ h := h
  keeps _ t h hfirst := (step_servesAll_iff h t).mpr hfirst
  breaks _ t h hlater := fun hall => hlater ((step_servesAll_iff h t).mp hall)

/-- In every run the workers serve the current song if and only if each of them is started
while the current song is the first one. -/
theorem auto_mode_serves_iff (launch : Launch) (ts : List Turn) :
    (∀ pre, pre <+: ts → launch.ServesAll (exec launch pre)) ↔
      ∀ pre t, pre ++ [t] <+: ts → launch.AtFirst (exec launch pre) t :=
  (exactGuard launch).iff (fun _ a ha => by cases ha) ts

/-- The songs are these, and the index is one of theirs. -/
def Globals.InRotation (songs : List CString) (g : Globals) : Prop :=
  g.serverAutoModeRotation = songs ∧ g.currSongIndexRotation < songs.length

theorem pickNextSong_inRotation {songs : List CString} (h : g.InRotation songs) (a b : Timeval) :
    (pickNextSong g a b).InRotation songs := by
  obtain ⟨rfl, hlt⟩ := h
  by_cases hauto : g.isAutoMode = true
  · simp only [pickNextSong, hauto, ↓reduceIte]
    split_ifs
    · exact ⟨rfl, Nat.mod_lt _ (Nat.zero_lt_of_lt hlt)⟩
    · exact ⟨rfl, hlt⟩
  · simp only [pickNextSong, hauto, Bool.false_eq_true, ↓reduceIte]
    exact ⟨rfl, hlt⟩

theorem conAcceptingLoop_inRotation {songs : List CString} (h : s.globals.InRotation songs)
    (t : Turn) : (conAcceptingLoop s t).globals.InRotation songs := by
  have hforked : s.forked.globals.InRotation songs := h
  by_cases hrun : s.running = true
  · simp only [conAcceptingLoop, hrun, ↓reduceIte]
    cases t.round with
    | accepted f =>
      cases f with
      | failed => exact h
      | _ => exact pickNextSong_inRotation hforked _ _
    | rejected => exact h
    | selectFails => cases s.childPid <;> exact h
    | timedOut => exact pickNextSong_inRotation h _ _
  · simp only [conAcceptingLoop, hrun, Bool.false_eq_true, ↓reduceIte]
    exact h

theorem exec_inRotation (hauto : launch.globals.isAutoMode = true) (ts : List Turn) :
    (exec launch ts).globals.InRotation launch.globals.serverAutoModeRotation := by
  apply @fold_invariant _ _ _
    fun s : Server => s.globals.InRotation launch.globals.serverAutoModeRotation
  · have hfirst : launch.globals.currSongIndexRotation = 0 := readValuesCfgServer_first launch.reads
    refine ⟨rfl, ?_⟩
    simp only [Server.start, hfirst]
    exact readValuesCfgServer_songs launch.reads hauto
  · exact fun s t h => conAcceptingLoop_inRotation h t

/-- A rotation of one song is always served right. -/
theorem one_song_served (hone : launch.globals.serverAutoModeRotation.length = 1) (ts : List Turn) :
    launch.ServesAll (exec launch ts) := by
  have hrun := ((exactGuard launch).iff (s := .start launch) (fun _ a ha => by cases ha) ts).mpr
  apply hrun _ ts (List.prefix_refl ts)
  intro pre t _ hauto _ _
  have hlt := (exec_inRotation hauto pre).2
  rw [hone] at hlt
  exact Nat.lt_one_iff.mp hlt

def twoSongsDisk : Disk where
  isAutoMode := true
  conTimeout := 3
  cwd := "/srv".toList
  musicFolder := []
  serverWorkingExtension := ".mp3".toList
  rotationFile := some ⟨300, ["a.mp3\n".toList, "b.mp3\n".toList]⟩
  opens _ := true

def twoSongs : Launch where
  disk := twoSongsDisk
  globals := ⟨true, ["a".toList, "b".toList], 0, ⟨0, 0⟩, ⟨300, 0⟩, ".mp3".toList, "/srv".toList, 0⟩
  reads := rfl

/-- The second song has become the current one when a connection is accepted. -/
def secondSong : List Turn :=
  [⟨.timedOut, 0, ⟨0, 0⟩, ⟨301, 0⟩⟩, ⟨.accepted .worker, 5, ⟨301, 0⟩, ⟨302, 0⟩⟩]

theorem second_song_not_served : ¬twoSongs.ServesAll (exec twoSongs secondSong) := by
  intro h
  have hindex : (exec twoSongs secondSong).accepts = [⟨1, ⟨5, 0⟩⟩] := rfl
  have hserves := h rfl ⟨1, ⟨5, 0⟩⟩ (by rw [hindex]; exact List.mem_singleton_self _)
  exact absurd ((serves_iff rfl _).mp hserves) (by decide)

end EmotionStreamer.Rotation
