import EmotionStreamer.DirListing
import EmotionStreamer.PathWalks
import EmotionStreamer.Registration
import EmotionStreamer.Requests

/-! The paths that `con_go` makes of the name in a `PLAY`, `DOWN` or `REPORT` request, and where
they lead. -/
namespace EmotionStreamer.RequestPaths
open CStrings PathWalks Slices
open Rotation (CString Disk Globals WorkerArgs main filePath)
open DirListing (boundaryFileExt isWavMode)
open Requests (ReqType)

/-- A process that serves one request, with what its configuration and the arrays for it hold. -/
structure Worker where
  disk : Disk
  musicQuarantineFolder : CString
  args : WorkerArgs
  g : Globals
  started : main disk args = some g
  cwd_length : disk.cwd.length < pathsize
  cwd_nul_free : '\x00' ∉ disk.cwd
  extension_length : disk.serverWorkingExtension.length < extensionSize
  song_length : ∀ song ∈ g.serverAutoModeRotation, song.length < pathsize

/-- An empty folder stands for `MUSIC_SERVER_QUARANTINE_PATH`. -/
def Worker.quarantineFolder (w : Worker) : CString :=
  if w.musicQuarantineFolder = [] then "/quarantine_songs/".toList else w.musicQuarantineFolder

/-- `curr_server_quarantine_dir_buff`. The folder is put behind the terminator of the directory. -/
def Worker.quarantineDirBuff (w : Worker) : List Char :=
  splice (toBuffer (pathsize + 1) w.disk.cwd) (w.disk.cwd.length + 1)
    (snprintf (pathsize - w.disk.cwd.length - 1) w.quarantineFolder ++ ['\x00'])

/-- `file_name`; characters stand for bytes. -/
def fileName (tcpData : List UInt8) : CString :=
  (Requests.conGo tcpData).2.map fun b => Char.ofNat b.toNat

/-- `file_path` of a `REPORT` request, and `rep_file_path`. -/
def Worker.reportPath (w : Worker) (name : CString) : CString :=
  snprintf (pathsize * 3 + 3)
    (w.g.currDir ++ (name ++ (w.g.serverWorkingExtension ++ boundaryFileExt)))
def Worker.repFilePath (w : Worker) (name : CString) : CString :=
  snprintf (pathsize * 3 + 3)
    (ofBuffer w.quarantineDirBuff ++ (name ++ (w.g.serverWorkingExtension ++ boundaryFileExt)))

/-- What is done to the files of the system; `mkdir` makes the directories of a path. -/
inductive Access
  | openFile (path : CString)
  | mkdir (path : CString)
  | rename (path newPath : CString)
  deriving DecidableEq, Repr

/-- The accesses of a request of one of the three types; `opens` tells which files `open` opens. -/
def conGo (w : Worker) (opens : CString → Bool) (tcpData : List UInt8) : List Access :=
  let recvdType := (Requests.conGo tcpData).1
  let name := fileName tcpData
  if recvdType = ReqType.play.value then
    let path := w.g.conGo name
    let boundary := snprintf (pathsize * 10 - 1) (path ++ boundaryFileExt)
    .openFile path :: if opens path && !isWavMode w.disk then [.openFile boundary] else []
  else if recvdType = ReqType.down.value then [.openFile (w.g.conGo name)]
  else if recvdType = ReqType.report.value then
    let path := w.reportPath name
    .openFile path ::
      if opens path then [.mkdir (w.repFilePath name), .rename path (w.repFilePath name)] else []
  else []

/-- The directory that quarantined files belong into. -/
def Worker.quarantineDir (w : Worker) : CString := w.disk.cwd ++ w.quarantineFolder

def Access.Stays (w : Worker) : Access → Prop
  | .openFile path => resolve w.g.currDir <+: resolve path
  | .mkdir _ => True
  | .rename path newPath =>
    resolve w.g.currDir <+: resolve path ∧ resolve w.quarantineDir <+: resolve newPath

/-- Whatever files there are, the request does not leave the folders. -/
def StaysInside (w : Worker) (tcpData : List UInt8) : Prop :=
  ∀ opens, ∀ a ∈ conGo w opens tcpData, a.Stays w

/-- The song of a `PLAY` or `DOWN` request: in auto mode it is not the one asked for. -/
def Worker.song (w : Worker) (name : CString) : CString :=
  if w.g.isAutoMode then w.g.song w.g.currSongIndexRotation else name

/-- Where the names lead that stand behind the directories. A report has to lead into the
quarantine folder from the server's own directory. -/
@[mk_iff]
structure Addresses (w : Worker) (type : ℕ) (name : CString) : Prop where
  song : type = ReqType.play.value ∨ type = ReqType.down.value →
    LeadsInto (resolve w.g.currDir) w.g.currDir (w.song name ++ w.disk.serverWorkingExtension)
  boundary : type = ReqType.play.value → isWavMode w.disk = false →
    LeadsInto (resolve w.g.currDir) w.g.currDir
      (w.song name ++ (w.disk.serverWorkingExtension ++ boundaryFileExt))
  report : type = ReqType.report.value →
    LeadsInto (resolve w.g.currDir) w.g.currDir
      (name ++ (w.disk.serverWorkingExtension ++ boundaryFileExt))
  quarantine : type = ReqType.report.value →
    LeadsInto (resolve w.quarantineDir) w.disk.cwd
      (name ++ (w.disk.serverWorkingExtension ++ boundaryFileExt))

variable {w : Worker} {name : CString} {tcpData : List UInt8}

namespace Worker

theorem globals_eq (w : Worker) : w.g.serverWorkingExtension = w.disk.serverWorkingExtension ∧
    w.g.currDir = w.disk.cwd ++ w.disk.folder.take (pathsize - w.disk.cwd.length) := by
  have hstarted := w.started
  rw [main, Rotation.readValuesCfgServer] at hstarted
  obtain ⟨g, hread, hg⟩ := Option.bind_eq_some_iff.mp hstarted
  obtain ⟨r, -, rfl⟩ := Option.map_eq_some_iff.mp hread
  rw [← Option.some.inj hg]
  exact ⟨rfl, rfl⟩

theorem currDir_length (w : Worker) : w.g.currDir.length ≤ pathsize := by
  have hcwd := w.cwd_length
  rw [(globals_eq w).2, List.length_append, List.length_take]
  omega

/-- As a string, the buffer holds the directory only. -/
theorem ofBuffer_quarantineDirBuff (w : Worker) : ofBuffer w.quarantineDirBuff = w.disk.cwd := by
  have hlen : pathsize + 1 - w.disk.cwd.length = pathsize - w.disk.cwd.length + 1 := by
    have := w.cwd_length
    omega
  have hfront : (toBuffer (pathsize + 1) w.disk.cwd).take (w.disk.cwd.length + 1) =
      w.disk.cwd ++ ['\x00'] := by
    rw [toBuffer, hlen, List.replicate_succ, List.take_length_add_append]
    rfl
  rw [quarantineDirBuff, splice, hfront, List.append_assoc]
  exact ofBuffer_terminated w.cwd_nul_free _

/-- The song, unless it is in the array, is the name. -/
theorem song_length_lt (w : Worker) (hname : name.length < pathsize + 4) :
    (w.song name).length < pathsize + 4 := by
  rw [song]
  split
  · rw [Globals.song]
    by_cases hlt : w.g.currSongIndexRotation < w.g.serverAutoModeRotation.length
    · rw [List.getD_eq_getElem _ _ hlt]
      exact (w.song_length _ (List.getElem_mem hlt)).trans (by decide)
    · rw [List.getD_eq_default _ _ (Nat.le_of_not_lt hlt)]
      decide
  · exact hname

/-- No path is cut: all of them are shorter than the arrays. -/
theorem cut_eq (w : Worker) {dir : CString} (hdir : dir.length ≤ pathsize)
    (hname : name.length < pathsize + 4) {k : ℕ} (hk : pathsize * 3 + 3 ≤ k) :
    snprintf k (dir ++ (name ++ (w.disk.serverWorkingExtension ++ boundaryFileExt))) =
      dir ++ (name ++ (w.disk.serverWorkingExtension ++ boundaryFileExt)) := by
  have hext := w.extension_length
  have hboundary : boundaryFileExt.length = 9 := by decide
  apply snprintf_fits
  simp only [List.length_append, hboundary, pathsize, extensionSize] at hdir hname hext hk ⊢
  omega

theorem songPath_eq (w : Worker) (hname : name.length < pathsize + 4) :
    w.g.conGo name = w.g.currDir ++ (w.song name ++ w.disk.serverWorkingExtension) := by
  have hdir := currDir_length w
  have hsong := song_length_lt w hname
  have hext := w.extension_length
  change filePath w.g.currDir (w.song name) w.g.serverWorkingExtension = _
  rw [filePath, snprintf, (globals_eq w).1, List.append_assoc]
  apply List.take_of_length_le
  simp only [List.length_append, pathsize, extensionSize] at hdir hsong hext ⊢
  omega

theorem boundaryPath_eq (w : Worker) (hname : name.length < pathsize + 4) :
    snprintf (pathsize * 10 - 1) (w.g.conGo name ++ boundaryFileExt) = w.g.currDir ++
      (w.song name ++ (w.disk.serverWorkingExtension ++ boundaryFileExt)) := by
  rw [songPath_eq w hname, List.append_assoc, List.append_assoc]
  exact cut_eq w (currDir_length w) (song_length_lt w hname) (by decide)

theorem reportPath_eq (w : Worker) (hname : name.length < pathsize + 4) : w.reportPath name =
    w.g.currDir ++ (name ++ (w.disk.serverWorkingExtension ++ boundaryFileExt)) := by
  rw [reportPath, (globals_eq w).1]
  exact cut_eq w (currDir_length w) hname (Nat.le_refl _)

theorem repFilePath_eq (w : Worker) (hname : name.length < pathsize + 4) : w.repFilePath name =
    w.disk.cwd ++ (name ++ (w.disk.serverWorkingExtension ++ boundaryFileExt)) := by
  rw [repFilePath, (globals_eq w).1, ofBuffer_quarantineDirBuff]
  exact cut_eq w (Nat.le_of_lt w.cwd_length) hname (Nat.le_refl _)

end Worker

theorem fileName_length (tcpData : List UInt8) : (fileName tcpData).length < pathsize + 4 := by
  rw [fileName, List.length_map]
  simp only [Requests.conGo, List.length_take]
  simp only [pathsize]
  omega

/-- The file may be there. -/
theorem forall_opens_iff {P : Access → Prop} {path : CString} {first : Access} {more : List Access} :
    (∀ opens : CString → Bool, ∀ a ∈ first :: (if opens path then more else []), P a) ↔
      ∀ a ∈ first :: more, P a := by
  constructor
  · intro h
    exact h fun _ => true
  · intro h opens a ha
    split at ha
    · exact h a ha
    · exact h a (List.mem_cons.mpr (Or.inl (List.mem_singleton.mp ha)))

theorem openFile_stays_iff {text : CString} {path : CString} (hpath : path = w.g.currDir ++ text) :
    (Access.openFile path).Stays w ↔ LeadsInto (resolve w.g.currDir) w.g.currDir text := by
  rw [Access.Stays, hpath, prefix_resolve_iff]

/-- With a slash at the end of the folder, it takes a `..` to leave it. -/
theorem openFile_stays_of_no_parent {dir text path : CString} (hdir : w.g.currDir = dir ++ ['/'])
    (hpath : path = w.g.currDir ++ text) (h : ['.', '.'] ∉ Paths.components text) :
    (Access.openFile path).Stays w := by
  rw [openFile_stays_iff hpath, hdir]
  exact leadsInto_of_no_parent dir h

theorem mkdir_stays {path : CString} : (Access.mkdir path).Stays w ↔ True := Iff.rfl

theorem conGo_play (opens : CString → Bool) (htype : (Requests.conGo tcpData).1 = ReqType.play.value) :
    conGo w opens tcpData = .openFile (w.g.conGo (fileName tcpData)) ::
      if opens (w.g.conGo (fileName tcpData)) then
        if isWavMode w.disk then []
        else [.openFile (snprintf (pathsize * 10 - 1) (w.g.conGo (fileName tcpData) ++ boundaryFileExt))]
      else [] := by
  simp only [conGo, if_pos htype]
  cases opens (w.g.conGo (fileName tcpData)) <;> cases isWavMode w.disk <;> rfl

theorem conGo_report (opens : CString → Bool)
    (htype : (Requests.conGo tcpData).1 = ReqType.report.value) :
    conGo w opens tcpData = .openFile (w.reportPath (fileName tcpData)) ::
      if opens (w.reportPath (fileName tcpData)) then
        [.mkdir (w.repFilePath (fileName tcpData)),
          .rename (w.reportPath (fileName tcpData)) (w.repFilePath (fileName tcpData))]
      else [] := by
  simp only [conGo, htype]
  rfl

theorem rename_stays_iff {text path newPath : CString} (hpath : path = w.g.currDir ++ text)
    (hnew : newPath = w.disk.cwd ++ text) : (Access.rename path newPath).Stays w ↔
      LeadsInto (resolve w.g.currDir) w.g.currDir text ∧
        LeadsInto (resolve w.quarantineDir) w.disk.cwd text := by
  rw [Access.Stays, hpath, hnew, prefix_resolve_iff, prefix_resolve_iff]

/-- The request stays inside the folders exactly when its name leads there. -/
theorem staysInside_iff (w : Worker) (tcpData : List UInt8) : StaysInside w tcpData ↔
    Addresses w (Requests.conGo tcpData).1 (fileName tcpData) := by
  have hname := fileName_length tcpData
  have hsong := openFile_stays_iff (w.songPath_eq hname)
  have hboundary := openFile_stays_iff (w.boundaryPath_eq hname)
  have hreport := openFile_stays_iff (w.reportPath_eq hname)
  have hrename := rename_stays_iff (w.reportPath_eq hname) (w.repFilePath_eq hname)
  by_cases hplay : (Requests.conGo tcpData).1 = ReqType.play.value
  · simp only [StaysInside, conGo_play _ hplay, forall_opens_iff, addresses_iff, hplay, ReqType.value]
    cases isWavMode w.disk <;> simp [hsong, hboundary]
  by_cases hdown : (Requests.conGo tcpData).1 = ReqType.down.value
  · simp [StaysInside, conGo, addresses_iff, hdown, ReqType.value, hsong]
  by_cases htype : (Requests.conGo tcpData).1 = ReqType.report.value
  · simp only [StaysInside, conGo_report _ htype, forall_opens_iff]
    simp only [List.forall_mem_cons, hreport, mkdir_stays, hrename, addresses_iff, htype,
      ReqType.value]
    simp
  · simp [StaysInside, conGo, addresses_iff, hplay, hdown, htype]

/-- A server in `/srv` with the default folders. -/
def plainDisk : Disk where
  isAutoMode := false
  conTimeout := 5
  cwd := "/srv".toList
  musicFolder := []
  serverWorkingExtension := ".mp3".toList
  rotationFile := none
  opens := fun _ => true

def plainWorker : Worker where
  disk := plainDisk
  musicQuarantineFolder := []
  args := ⟨3, 1⟩
  g := ⟨false, [], 0, ⟨0, 0⟩, ⟨100, 0⟩, ".mp3".toList, "/srv/raw_songs/".toList, 1⟩
  started := by rfl
  cwd_length := by decide
  cwd_nul_free := by decide
  extension_length := by decide
  song_length := fun _ h => absurd h List.not_mem_nil

/-- A `REPORT` request for `../x`. -/
def climbing : List UInt8 := [0, 4, 46, 46, 47, 120] ++ List.replicate 250 0

theorem climbing_leaves : ¬∀ w tcpData, StaysInside w tcpData := by
  intro h
  have hname : fileName climbing = "../x".toList := by decide
  have htype : (Requests.conGo climbing).1 = ReqType.report.value := by decide
  have hopen : Access.openFile (plainWorker.reportPath "../x".toList) ∈
      conGo plainWorker (fun _ => true) climbing := by
    rw [conGo_report _ htype, hname]
    exact List.mem_cons_self
  have hstays := h plainWorker climbing _ _ hopen
  rw [openFile_stays_iff (plainWorker.reportPath_eq (by decide)), ← prefix_resolve_iff] at hstays
  revert hstays
  decide

end EmotionStreamer.RequestPaths
