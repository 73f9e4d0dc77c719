import EmotionStreamer.CStrings
import EmotionStreamer.Paths
import EmotionStreamer.Rotation
import Mathlib.Data.Char

/-! The listing that a content server sends for a `PEEK` request, and the file that a `PLAY`
request for one of its names opens. -/
namespace EmotionStreamer.DirListing
open CStrings Paths
open Rotation (Disk Globals CString main filePath)

def closeKeyword : CString := "end_of_contents;".toList
def boundaryFileExt : CString := ".boundary".toList
def wavModeExtension : CString := ".wav".toList

def isWavMode (disk : Disk) : Bool := disk.serverWorkingExtension = wavModeExtension

/-- `extension_arg2` -/
def boundaryExt (disk : Disk) : CString := if isWavMode disk then [] else boundaryFileExt

/-- A regular file under the directory that is searched, by the names on the way to it. -/
structure File where
  names : List CString
  ne_nil : names ≠ []
  named : ∀ c ∈ names, '/' ∉ c ∧ isStep c = true ∧ '\x00' ∉ c

/-- The path that `find` prints. -/
def File.line (f : File) : CString := relative f.names

/-- What `find` and `sort` are relied on for: `-iwholename` matches without regard to case,
a star matches anything, and sorting loses no line. -/
structure Tools where
  fnmatch : CString → CString → Bool
  sort : List CString → List CString
  fnmatch_nil : ∀ s, fnmatch [] s = s.isEmpty
  fnmatch_star : ∀ p s, fnmatch ('*' :: p) s = s.tails.any (fnmatch p)
  fnmatch_char : ∀ c p d s, c ≠ '*' → c ≠ '?' → c ≠ '[' → c ≠ '\\' →
    fnmatch (c :: p) (d :: s) = (c.toLower == d.toLower && fnmatch p s)
  sort_perm : ∀ lines, (sort lines).Perm lines

def replaceStringCharacter (s : CString) (dirty wantThisOneInstead : Char) : CString :=
  s.map fun c => if c = dirty then wantThisOneInstead else c

/-- `*%s*%s*%s*` in `buff[PATHSIZE+5]`, of which three characters are kept back. -/
def glob (disk : Disk) (pattern : CString) : CString :=
  snprintf (pathsize + 2) ('*' :: (replaceStringCharacter pattern ' ' '*' ++ '*' ::
    (disk.serverWorkingExtension ++ '*' :: (boundaryExt disk ++ ['*']))))

def found (tools : Tools) (disk : Disk) (pattern : CString) (files : List File) : List File :=
  files.filter fun f => tools.fnmatch (glob disk pattern) f.line

/-- What `find` has written, as lines. -/
def findLines (files : List File) : List CString := files.flatMap fun f => f.line.splitOn '\n'

/-- The sorted lines and the keyword behind them. -/
def tmpDirText (tools : Tools) (files : List File) : CString :=
  (tools.sort (findLines files)).flatMap (· ++ ['\n']) ++ (closeKeyword ++ ['\n'])

/-- What is left of the path, and the extension: behind the last dot in `.wav` mode, and
behind the last but one otherwise. -/
def getFileExtension (isWavMode : Bool) (path : CString) : Option (CString × CString) := do
  let (stem, extension) ← Rotation.getFileExtension path
  if isWavMode then return (stem, extension)
  let (stem2, extension2) ← Rotation.getFileExtension stem
  return (stem2, extension2 ++ '.' :: extension)

/-- A line without its last character, and then without the extension. -/
def listedName (disk : Disk) (line : CString) : Option CString :=
  (getFileExtension (isWavMode disk) line.dropLast).map Prod.fst

/-- The loop of `generateDirListing` over the lines that `fgets` reads. -/
def generateDirListing (tools : Tools) (disk : Disk) (pattern : CString) (files : List File) :
    List CString :=
  let lines := fgetsAll (pathsize * 4 - 1) [] (tmpDirText tools (found tools disk pattern files))
  (lines.takeWhile fun line => line.dropLast ≠ closeKeyword).filterMap (listedName disk)

/-- The names that the lines of a file can give. -/
def namesOf (disk : Disk) (f : File) : List CString :=
  (f.line.splitOn '\n').flatMap fun l =>
    (fgetsAll (pathsize * 4 - 1) [] (l ++ ['\n'])).filterMap (listedName disk)

/-- A name that the listing has because of a file. -/
structure Writes (tools : Tools) (disk : Disk) (pattern : CString) (files : List File) (f : File)
    (name : CString) : Prop where
  found : f ∈ found tools disk pattern files
  listed : name ∈ generateDirListing tools disk pattern files
  ofFile : name ∈ namesOf disk f

/-- `file_name`, from the characters behind the type of a request. -/
def fileName (text : CString) : CString := snprintf (pathsize + 4) (ofBuffer text)

/-- What `con_go` opens for `PLAY`, and with it the boundary file when there is one. -/
def conGo (disk : Disk) (g : Globals) (fileName : CString) : CString :=
  if isWavMode disk then g.conGo fileName
  else snprintf (pathsize * 10 - 1) (g.conGo fileName ++ boundaryFileExt)

/-- Where `find` is run: `chdir(".%s")` in the directory of the server. -/
def searchedDir (disk : Disk) : List CString :=
  components disk.cwd ++ components (snprintf (pathsize + 2) ('.' :: disk.musicFolder))

/-- There is a `PLAY` request with this name, and for it a worker opens the file. -/
def Requests (disk : Disk) (name : CString) (f : File) : Prop :=
  ∃ text : CString, text.length = defDatasize - 2 ∧ fileName text = name ∧
    ∀ args, ∃ g, main disk args = some g ∧
      components (conGo disk g (fileName text)) = searchedDir disk ++ f.names

/-- A server that is not in auto mode. Its folder is the default one or begins with a slash,
and fits behind its directory; its extension begins with a dot. -/
structure Configured (disk : Disk) : Prop where
  manual : disk.isAutoMode = false
  fits : disk.cwd.length + disk.folder.length ≤ pathsize
  folder : disk.musicFolder = [] ∨ ∃ rest, disk.musicFolder = '/' :: rest ∧ '\n' ∉ rest
  extension : ∃ t, disk.serverWorkingExtension = '.' :: t ∧ '/' ∉ t ∧ '\n' ∉ t ∧ t.length < 19

/-- The folder is configured with a slash at its end. The file ends in the extension, letter
by letter, which has no other dot in it, and the name in front fits into a request. -/
structure Exact (disk : Disk) (f : File) : Prop where
  folder : ∃ front, disk.musicFolder = front ++ ['/']
  extension : '.' ∉ disk.serverWorkingExtension.drop 1
  suffix : disk.serverWorkingExtension ++ boundaryExt disk <:+ f.line
  newline : '\n' ∉ f.line
  fits : f.line.length ≤ defDatasize - 2 + (disk.serverWorkingExtension ++ boundaryExt disk).length

variable {tools : Tools} {disk : Disk} {pattern name : CString} {files : List File} {f : File}

theorem getFileExtension_append (stem : CString) {extension : CString} (h : '.' ∉ extension) :
    Rotation.getFileExtension (stem ++ '.' :: extension) = some (stem, extension) := by
  have hne : ∀ c ∈ extension.reverse, decide (c ≠ '.') = true := fun c hc =>
    decide_eq_true fun he => h (he ▸ List.mem_reverse.mp hc)
  have hspan : (stem ++ '.' :: extension).reverse.span (· ≠ '.') =
      (extension.reverse, '.' :: stem.reverse) := by
    rw [List.reverse_append, List.reverse_cons, List.append_assoc, List.singleton_append,
      List.span_eq_takeWhile_dropWhile, takeWhile_append_cons hne (by simp),
      dropWhile_append_cons hne (by simp)]
  rw [Rotation.getFileExtension, hspan]
  simp only [List.reverse_reverse]

theorem getFileExtension_some {path stem extension : CString}
    (h : Rotation.getFileExtension path = some (stem, extension)) :
    path = stem ++ '.' :: extension := by
  rw [Rotation.getFileExtension, List.span_eq_takeWhile_dropWhile] at h
  cases hdrop : path.reverse.dropWhile (· ≠ '.') with
  | nil =>
    rw [hdrop] at h
    cases h
  | cons c rest =>
    rw [hdrop] at h
    cases h
    have hc : c = '.' := by
      have hhead := List.head?_dropWhile_not (· ≠ '.') path.reverse
      rw [hdrop] at hhead
      simpa using hhead
    subst hc
    have hsplit := List.takeWhile_append_dropWhile (p := (· ≠ '.')) (l := path.reverse)
    rw [hdrop] at hsplit
    have hback := congrArg List.reverse hsplit
    rw [List.reverse_append, List.reverse_cons, List.append_assoc, List.reverse_reverse] at hback
    exact hback.symm

/-- A name is a beginning of its line. -/
theorem isPrefix_listedName {line : CString} (h : listedName disk line = some name) :
    name <+: line.dropLast := by
  obtain ⟨⟨stem, extension⟩, hext, rfl⟩ := Option.map_eq_some_iff.mp h
  obtain ⟨⟨stem1, extension1⟩, hone, hrest⟩ := Option.bind_eq_some_iff.mp hext
  rw [getFileExtension_some hone]
  cases hwav : isWavMode disk with
  | true =>
    simp only [hwav, ↓reduceIte] at hrest
    cases hrest
    exact List.prefix_append _ _
  | false =>
    simp only [hwav, Bool.false_eq_true, ↓reduceIte] at hrest
    obtain ⟨⟨stem2, extension2⟩, htwo, hlast⟩ := Option.bind_eq_some_iff.mp hrest
    cases hlast
    rw [getFileExtension_some htwo, List.append_assoc]
    exact List.prefix_append _ _

theorem dot_not_mem_boundary : '.' ∉ boundaryFileExt.drop 1 := by decide

theorem getFileExtension_wav (hwav : isWavMode disk = true) (stem : CString) :
    (getFileExtension (isWavMode disk)
      (stem ++ (disk.serverWorkingExtension ++ boundaryExt disk))).map Prod.fst = some stem := by
  have hdot : disk.serverWorkingExtension = wavModeExtension := of_decide_eq_true hwav
  have hstrip : Rotation.getFileExtension (stem ++ '.' :: wavModeExtension.drop 1) =
      some (stem, wavModeExtension.drop 1) := getFileExtension_append stem (by decide)
  rw [boundaryExt, hwav, hdot, if_pos rfl, List.append_nil, getFileExtension]
  change ((Rotation.getFileExtension (stem ++ '.' :: wavModeExtension.drop 1)).bind _).map
    Prod.fst = _
  rw [hstrip]
  rfl

/-- The second strip takes what is behind the last dot of the working extension. -/
theorem getFileExtension_boundary (hwav : isWavMode disk = false) {front back : CString}
    (hlast : disk.serverWorkingExtension = front ++ '.' :: back) (hback : '.' ∉ back)
    (stem : CString) : (getFileExtension (isWavMode disk)
      (stem ++ (disk.serverWorkingExtension ++ boundaryExt disk))).map Prod.fst =
      some (stem ++ front) := by
  have hone := getFileExtension_append (stem ++ front ++ '.' :: back) dot_not_mem_boundary
  have htwo := getFileExtension_append (stem ++ front) hback
  have hline : stem ++ (disk.serverWorkingExtension ++ boundaryExt disk) =
      stem ++ front ++ '.' :: back ++ '.' :: boundaryFileExt.drop 1 := by
    rw [boundaryExt, hwav, hlast]
    simp only [List.append_assoc, List.cons_append]
    rfl
  rw [hline, getFileExtension, hone]
  simp only [Option.bind_eq_bind, Option.bind_some, hwav, Bool.false_eq_true, ↓reduceIte, htwo]
  rfl

/-- In front of the whole extension, the name ends at the dot that is counted. -/
theorem getFileExtension_working (hs : Configured disk) : ∃ inner,
    (inner = [] ↔ '.' ∉ disk.serverWorkingExtension.drop 1) ∧
      inner <+: disk.serverWorkingExtension ++ boundaryExt disk ∧ ∀ stem,
        (getFileExtension (isWavMode disk)
          (stem ++ (disk.serverWorkingExtension ++ boundaryExt disk))).map Prod.fst =
          some (stem ++ inner) := by
  obtain ⟨t, hext, -⟩ := hs.extension
  cases hwav : isWavMode disk with
  | true =>
    have hdot : disk.serverWorkingExtension = wavModeExtension := of_decide_eq_true hwav
    refine ⟨[], iff_of_true rfl (by rw [hdot]; decide), List.nil_prefix, fun stem => ?_⟩
    rw [List.append_nil, ← hwav]
    exact getFileExtension_wav hwav stem
  | false =>
    have hmem : '.' ∈ disk.serverWorkingExtension.reverse := by
      rw [hext]
      simp
    obtain ⟨back, front, hsplit, hback⟩ := List.eq_append_cons_of_mem hmem
    have hlast : disk.serverWorkingExtension = front.reverse ++ '.' :: back.reverse := by
      rw [← List.reverse_reverse disk.serverWorkingExtension, hsplit, List.reverse_append,
        List.reverse_cons, List.append_assoc]
      rfl
    have hnot : '.' ∉ back.reverse := fun h => hback (List.mem_reverse.mp h)
    refine ⟨front.reverse, ?_, ?_, fun stem => ?_⟩
    · rw [hlast]
      constructor
      · intro hnil
        rw [hnil]
        exact hnot
      · intro hdrop
        cases hfront : front.reverse with
        | nil => rfl
        | cons c rest =>
          rw [hfront] at hdrop
          exact absurd (List.mem_append_right _ List.mem_cons_self) hdrop
    · rw [hlast, List.append_assoc]
      exact List.prefix_append _ _
    · rw [← hwav]
      exact getFileExtension_boundary hwav hlast hnot stem

/-- The path that is opened for a name that fits. -/
theorem conGo_eq (hs : Configured disk) (hname : name.length ≤ defDatasize - 2)
    (args : Rotation.WorkerArgs) : ∃ g, main disk args = some g ∧ conGo disk g name =
      disk.cwd ++ (disk.folder ++ (name ++ (disk.serverWorkingExtension ++ boundaryExt disk))) := by
  obtain ⟨t, hext, -, -, ht⟩ := hs.extension
  have hfits := hs.fits
  have hextlen : disk.serverWorkingExtension.length < 20 := by
    rw [hext, List.length_cons]
    omega
  simp only [pathsize] at hfits
  simp only [defDatasize] at hname
  have hfolder : disk.folder.take (pathsize - disk.cwd.length) = disk.folder := by
    apply List.take_of_length_le
    simp only [pathsize]
    omega
  have hfile : filePath (disk.cwd ++ disk.folder) name disk.serverWorkingExtension =
      disk.cwd ++ (disk.folder ++ (name ++ disk.serverWorkingExtension)) := by
    rw [filePath, snprintf, List.take_of_length_le]
    · simp only [List.append_assoc]
    · simp only [List.length_append, pathsize]
      omega
  refine ⟨⟨false, [], 0, ⟨0, 0⟩, ⟨100, 0⟩, disk.serverWorkingExtension,
    disk.cwd ++ disk.folder, args.requestId⟩, ?_, ?_⟩
  · rw [main, Rotation.readValuesCfgServer, hs.manual, hfolder]
    rfl
  · rw [conGo, Globals.conGo]
    simp only [Bool.false_eq_true, ↓reduceIte, hfile, boundaryExt]
    split_ifs
    · rw [List.append_nil]
    · rw [snprintf_fits]
      · simp only [List.append_assoc]
      · have hboundary : boundaryFileExt.length = 9 := by decide
        simp only [List.length_append, hboundary, pathsize]
        omega

/-- The folder behind its first slash. -/
theorem folder_eq (hs : Configured disk) : disk.folder = '/' :: disk.folder.drop 1 ∧
    '\n' ∉ disk.folder.drop 1 ∧
    (disk.musicFolder ≠ [] → disk.folder.drop 1 = disk.musicFolder.drop 1) := by
  rcases hs.folder with hnil | ⟨rest, hrest, hnewline⟩
  · rw [Disk.folder, if_pos hnil]
    exact ⟨by decide, by decide, fun hne => absurd hnil hne⟩
  · rw [Disk.folder, if_neg (by simp [hrest]), hrest]
    exact ⟨rfl, hnewline, fun _ => rfl⟩

theorem components_conGo (hs : Configured disk) (path : CString) :
    components (disk.cwd ++ (disk.folder ++ path)) =
      components disk.cwd ++ components (disk.folder.drop 1 ++ path) := by
  rw [(folder_eq hs).1, List.cons_append, components_append_slash]
  rfl

/-- `find` is run in the folder that is configured, or else in the directory of the server. -/
theorem searchedDir_eq (hs : Configured disk) :
    searchedDir disk = components disk.cwd ++ components (disk.musicFolder.drop 1) := by
  rcases hs.folder with hnil | ⟨rest, hrest, -⟩
  · rw [searchedDir, hnil]
    rfl
  · have hfits := hs.fits
    rw [Disk.folder, if_neg (by simp [hrest])] at hfits
    have hdot : components ['.'] = [] := by decide
    rw [searchedDir, snprintf_fits, hrest]
    · change _ ++ components (['.'] ++ '/' :: rest) = _
      rw [components_append_slash, hdot, List.nil_append]
      rfl
    · rw [List.length_cons]
      omega

theorem requests_iff (hs : Configured disk) : Requests disk name f ↔
    name.length ≤ defDatasize - 2 ∧ '\x00' ∉ name ∧
      components (disk.folder.drop 1 ++
        (name ++ (disk.serverWorkingExtension ++ boundaryExt disk))) =
        components (disk.musicFolder.drop 1) ++ f.names := by
  have hfile : ∀ path, components (disk.cwd ++ (disk.folder ++ path)) =
      searchedDir disk ++ f.names ↔ components (disk.folder.drop 1 ++ path) =
        components (disk.musicFolder.drop 1) ++ f.names := by
    intro path
    rw [components_conGo hs, searchedDir_eq hs, List.append_assoc, List.append_cancel_left_eq]
  constructor
  · rintro ⟨text, htext, rfl, hopen⟩
    have hlen : (fileName text).length ≤ defDatasize - 2 := by
      rw [← htext]
      exact (List.take_sublist _ _).length_le.trans (List.takeWhile_sublist _).length_le
    refine ⟨hlen, ?_, ?_⟩
    · intro hmem
      have := List.mem_takeWhile_imp (List.mem_of_mem_take hmem)
      simp at this
    · obtain ⟨g, hg, hpath⟩ := conGo_eq hs hlen ⟨0, 0⟩
      obtain ⟨g', hg', hcomponents⟩ := hopen ⟨0, 0⟩
      obtain rfl : g = g' := Option.some.inj (hg.symm.trans hg')
      rw [hpath] at hcomponents
      exact (hfile _).mp hcomponents
  · rintro ⟨hlen, hnul, hcomponents⟩
    have hname : fileName (toBuffer (defDatasize - 2) name) = name := by
      rw [fileName, ofBuffer_toBuffer hnul, snprintf_fits]
      simp only [defDatasize, pathsize] at hlen ⊢
      omega
    refine ⟨toBuffer (defDatasize - 2) name, ?_, hname, ?_⟩
    · rw [toBuffer, List.length_append, List.length_replicate]
      omega
    · intro args
      obtain ⟨g, hg, hpath⟩ := conGo_eq hs hlen args
      refine ⟨g, hg, ?_⟩
      rw [hname, hpath]
      exact (hfile _).mpr hcomponents

/-- `fgets` reads the line of a file at once, unless it is very long or has newlines in it. -/
theorem mem_namesOf (hnewline : '\n' ∉ f.line) (hshort : f.line.length + 1 < pathsize * 4 - 1) :
    name ∈ namesOf disk f ↔
      (getFileExtension (isWavMode disk) f.line).map Prod.fst = some name := by
  have hread : fgetsAll (pathsize * 4 - 1) [] (f.line ++ ['\n']) = [f.line ++ ['\n']] := by
    apply fgetsAll_line hnewline [] []
    rwa [List.length_nil, Nat.zero_add]
  rw [namesOf, List.splitOn_eq_singleton hnewline, List.flatMap_singleton, hread, List.mem_filterMap]
  simp only [List.mem_singleton, exists_eq_left, listedName, List.dropLast_concat]

theorem newline_not_mem_name (h : name ∈ namesOf disk f) : '\n' ∉ name := by
  obtain ⟨l, -, hl⟩ := List.mem_flatMap.mp h
  obtain ⟨piece, hpiece, hname⟩ := List.mem_filterMap.mp hl
  intro hmem
  exact newline_not_mem_fgetsAll List.not_mem_nil hpiece ((isPrefix_listedName hname).subset hmem)

theorem nul_not_mem_line (f : File) : '\x00' ∉ f.line := by
  intro h
  rcases mem_relative h with h | h | ⟨w, hw, h⟩
  · exact absurd h (by decide)
  · exact absurd h (by decide)
  · exact (f.named w hw).2.2 h

/-- The extension of the files that are served, with that of the boundary file. -/
theorem extension_facts (hs : Configured disk) {ext : CString}
    (hext : ext = disk.serverWorkingExtension ++ boundaryExt disk) :
    '/' ∉ ext ∧ '\n' ∉ ext ∧ 2 ≤ ext.length ∧ ext.length ≤ 28 := by
  obtain ⟨t, ht, hslash, hnewline, hlen⟩ := hs.extension
  rw [boundaryExt] at hext
  cases hwav : isWavMode disk with
  | true =>
    have hdot : disk.serverWorkingExtension = wavModeExtension := of_decide_eq_true hwav
    rw [hwav, hdot] at hext
    rw [hext]
    decide
  | false =>
    rw [hwav, ht] at hext
    have hboundary : '/' ∉ boundaryFileExt ∧ '\n' ∉ boundaryFileExt ∧ boundaryFileExt.length = 9 := by
      decide
    rw [hext]
    refine ⟨?_, ?_, ?_, ?_⟩
    · simp [hslash, hboundary.1]
    · simp [hnewline, hboundary.2.1]
    · simp only [Bool.false_eq_true, ↓reduceIte, List.length_append, List.length_cons, hboundary]
      omega
    · simp only [Bool.false_eq_true, ↓reduceIte, List.length_append, List.length_cons, hboundary]
      omega

theorem names_step (f : File) : ∀ c ∈ f.names, '/' ∉ c ∧ isStep c = true := fun c hc =>
  ⟨(f.named c hc).1, (f.named c hc).2.1⟩

/-- A file that a path with the extension leads to ends in the extension. -/
theorem line_of_components {dir : List CString} {path ext : CString} (hslash : '/' ∉ ext)
    (hlen : 2 ≤ ext.length) (h : components (path ++ ext) = dir ++ f.names) :
    ∃ cs y, f.names = cs ++ [y ++ ext] ∧ f.line = relative cs ++ '/' :: y ++ ext := by
  obtain ⟨ds, y, hds⟩ := components_append path hslash hlen
  obtain ⟨cs, last, hnames⟩ := (List.eq_nil_or_concat' f.names).resolve_left f.ne_nil
  rw [hds, hnames, ← List.append_assoc] at h
  have hlast := List.singleton_inj.mp (List.append_inj' h rfl).2
  rw [← hlast] at hnames
  refine ⟨cs, y, hnames, ?_⟩
  rw [File.line, hnames, relative_append, List.append_assoc, List.cons_append]

/-- What a dot in the configured folder's place does, the slash in front apart. -/
theorem folder_of_components (hs : Configured disk)
    (h : components (disk.folder.drop 1 ++ ['.']) = components (disk.musicFolder.drop 1)) :
    ∃ front, disk.musicFolder = front ++ ['/'] := by
  rcases hs.folder with hnil | ⟨rest, hrest, -⟩
  · rw [Disk.folder, if_pos hnil, hnil] at h
    exact absurd h (by decide)
  · rw [(folder_eq hs).2.2 (by simp [hrest]), hrest] at h
    rcases components_dot_iff.mp h with hempty | ⟨front, hfront⟩
    · exact ⟨[], hrest.trans (congrArg _ hempty)⟩
    · exact ⟨'/' :: front, hrest.trans (congrArg _ hfront)⟩

section
variable {ext : CString} (hopen : components (disk.folder.drop 1 ++ (name ++ ext)) =
  components (disk.musicFolder.drop 1) ++ f.names)
include hopen

/-- A file whose path has a newline is not opened: no name has one. -/
theorem newline_not_mem_line (hs : Configured disk) (hof : name ∈ namesOf disk f)
    (hext : '\n' ∉ ext) : '\n' ∉ f.line := by
  intro hmem
  rcases mem_relative hmem with hc | hc | ⟨w, hw, hc⟩
  · exact absurd hc (by decide)
  · exact absurd hc (by decide)
  · have hstep := List.mem_append_right (components (disk.musicFolder.drop 1)) hw
    rw [← hopen] at hstep
    rcases List.mem_append.mp (mem_of_mem_components hc hstep) with hc | hc
    · exact (folder_eq hs).2.1 hc
    · rcases List.mem_append.mp hc with hc | hc
      · exact newline_not_mem_name hof hc
      · exact hext hc

theorem line_fits (hs : Configured disk) (hname : name.length ≤ defDatasize - 2)
    (hext : ext.length ≤ 28) : f.line.length + 1 < pathsize * 4 - 1 := by
  have hfolder : (disk.folder.drop 1).length ≤ pathsize :=
    (List.drop_sublist _ _).length_le.trans ((Nat.le_add_left _ _).trans hs.fits)
  have hextent := extent_components_le (disk.folder.drop 1 ++ (name ++ ext))
  rw [hopen, extent_append, List.length_append, List.length_append] at hextent
  rw [File.line, extent_relative]
  simp only [defDatasize, pathsize] at hname hfolder ⊢
  omega

/-- What the name keeps of the extension is put in front of the extension once more, so that
it keeps nothing, and the dot at its beginning is a step of its own. -/
theorem keeps_nothing {cs : List CString} {y inner : CString} (hslash : '/' ∉ ext)
    (htwo : 2 ≤ ext.length) (hpre : inner <+: ext) (hnames : f.names = cs ++ [y ++ ext])
    (hstem : name = relative cs ++ '/' :: y ++ inner) :
    inner = [] ∧
      components (disk.folder.drop 1 ++ ['.']) = components (disk.musicFolder.drop 1) := by
  have hdirs : ∀ w ∈ cs ++ [y ++ (inner ++ ext)], '/' ∉ w ∧ isStep w = true := by
    intro w hw
    rcases List.mem_append.mp hw with hw | hw
    · exact names_step f w (by rw [hnames]; exact List.mem_append_left _ hw)
    · rw [List.mem_singleton.mp hw]
      have hlast := (names_step f (y ++ ext) (by rw [hnames]; simp)).1
      constructor
      · intro hc
        rcases List.mem_append.mp hc with hc | hc
        · exact hlast (List.mem_append_left _ hc)
        · rcases List.mem_append.mp hc with hc | hc
          · exact hslash (hpre.subset hc)
          · exact hslash hc
      · rw [← List.append_assoc]
        exact isStep_append _ htwo
  have hpath : name ++ ext = relative (cs ++ [y ++ (inner ++ ext)]) := by
    rw [relative_append]
    simp only [hstem, List.append_assoc, List.cons_append]
  rw [hpath, components_append_relative _ (by simp) hdirs, hnames] at hopen
  have hsame : components (disk.folder.drop 1 ++ ['.']) ++ cs ++ [y ++ (inner ++ ext)] =
      components (disk.musicFolder.drop 1) ++ cs ++ [y ++ ext] := by
    simpa only [List.append_assoc] using hopen
  obtain ⟨hfront, hlast⟩ := List.append_inj' hsame rfl
  have hword := List.append_cancel_left (List.singleton_inj.mp hlast)
  exact ⟨List.append_left_eq_self.mp hword, List.append_cancel_right hfront⟩

end

theorem exact_of_requests (hs : Configured disk) (hof : name ∈ namesOf disk f)
    (h : Requests disk name f) : Exact disk f := by
  obtain ⟨hname, -, hopen⟩ := (requests_iff hs).mp h
  obtain ⟨inner, hinner, hpre, hstrip⟩ := getFileExtension_working hs
  generalize hext : disk.serverWorkingExtension ++ boundaryExt disk = ext at hopen hpre hstrip
  obtain ⟨hslash, hextnew, htwo, hmax⟩ := extension_facts hs hext.symm
  have hnewline := newline_not_mem_line hopen hs hof hextnew
  have hshort := line_fits hopen hs hname hmax
  have hpath := hopen
  rw [← List.append_assoc] at hpath
  obtain ⟨cs, y, hnames, hline⟩ := line_of_components hslash htwo hpath
  have hstem : name = relative cs ++ '/' :: y ++ inner := by
    have hstripped := (mem_namesOf hnewline hshort).mp hof
    rw [hline, hstrip] at hstripped
    exact (Option.some.inj hstripped).symm
  obtain ⟨rfl, hfolder⟩ := keeps_nothing hopen hslash htwo hpre hnames hstem
  rw [List.append_nil] at hstem
  refine ⟨folder_of_components hs hfolder, hinner.mp rfl, ?_, hnewline, ?_⟩
  · rw [hext, hline]
    exact List.suffix_append _ _
  · rw [hext, hline, ← hstem, List.length_append]
    simp only [defDatasize] at hname ⊢
    omega

theorem requests_of_exact (hs : Configured disk) (hof : name ∈ namesOf disk f)
    (h : Exact disk f) : Requests disk name f := by
  obtain ⟨inner, hinner, -, hstrip⟩ := getFileExtension_working hs
  have hfits := h.fits
  obtain ⟨stem, hline⟩ := h.suffix
  obtain ⟨front, hfront⟩ := h.folder
  have hmax := (extension_facts hs rfl).2.2.2
  have hstripped := (mem_namesOf h.newline (by
    simp only [defDatasize, pathsize] at hfits ⊢
    omega)).mp hof
  rw [← hline, hstrip, hinner.mpr h.extension, List.append_nil] at hstripped
  cases hstripped
  have hdir : components (disk.musicFolder.drop 1 ++ ['.']) =
      components (disk.musicFolder.drop 1) := by
    apply components_dot_iff.mpr
    cases front with
    | nil => exact Or.inl (by rw [hfront]; rfl)
    | cons c front => exact Or.inr ⟨front, by rw [hfront]; rfl⟩
  refine (requests_iff hs).mpr ⟨?_, ?_, ?_⟩
  · rw [← hline, List.length_append] at hfits
    omega
  · intro hmem
    exact nul_not_mem_line f (hline ▸ List.mem_append_left _ hmem)
  · rw [hline, File.line, components_append_relative _ f.ne_nil (names_step f),
      (folder_eq hs).2.2 (by simp [hfront]), hdir]

/-- Every name in a listing is there because of a file that has been found. -/
theorem listed_of_found (h : name ∈ generateDirListing tools disk pattern files) :
    ∃ f, Writes tools disk pattern files f name := by
  obtain ⟨line, hline, hname⟩ := List.mem_filterMap.mp h
  have hkeyword : '\n' ∉ closeKeyword ∧ closeKeyword.length = 16 := by decide
  have hend : fgetsAll (pathsize * 4 - 1) [] (closeKeyword ++ ['\n']) = [closeKeyword ++ ['\n']] := by
    apply fgetsAll_line hkeyword.1 [] []
    rw [hkeyword.2]
    decide
  have hread := (List.takeWhile_prefix _).subset hline
  have hother := List.mem_takeWhile_imp hline
  rw [tmpDirText, fgetsAll_lines, hend] at hread
  rcases List.mem_append.mp hread with hread | hread
  · obtain ⟨l, hl, hpiece⟩ := List.mem_flatMap.mp hread
    obtain ⟨f, hf, hlf⟩ := List.mem_flatMap.mp ((tools.sort_perm _).mem_iff.mp hl)
    refine ⟨f, hf, h, ?_⟩
    exact List.mem_flatMap.mpr ⟨l, hlf, List.mem_filterMap.mpr ⟨line, hpiece, hname⟩⟩
  · rw [List.mem_singleton.mp hread, List.dropLast_concat] at hother
    simp at hother

/-- A listed name opens its file exactly when the file is named exactly. -/
theorem listed_name_requestable_iff (hs : Configured disk)
    (h : Writes tools disk pattern files f name) : Requests disk name f ↔ Exact disk f :=
  ⟨exact_of_requests hs h.ofFile, requests_of_exact hs h.ofFile⟩

/-- Stars, question marks and other characters. -/
def wildMatch : CString → CString → Bool
  | [], s => s.isEmpty
  | c :: p, s =>
    if c = '*' then s.tails.any (wildMatch p)
    else
      match s with
      | [] => false
      | d :: s => (c == '?' || c.toLower == d.toLower) && wildMatch p s

def wildTools : Tools where
  fnmatch := wildMatch
  sort := id
  fnmatch_nil _ := rfl
  fnmatch_star p s := by rw [wildMatch.eq_def]; rfl
  fnmatch_char c p d s hstar hquestion _ _ := by
    rw [wildMatch, if_neg hstar]
    simp only [beq_eq_false_iff_ne.mpr hquestion, Bool.false_or]
  sort_perm _ := .refl _

def wavDisk : Disk where
  isAutoMode := false
  conTimeout := 3
  cwd := "/srv".toList
  musicFolder := "/raw_songs/".toList
  serverWorkingExtension := wavModeExtension
  rotationFile := none
  opens _ := true

theorem wavDisk_configured : Configured wavDisk where
  manual := rfl
  fits := by decide
  folder := Or.inr ⟨"raw_songs/".toList, by decide⟩
  extension := ⟨"wav".toList, by decide⟩

def lowerCase : File := ⟨["a.wav".toList], by decide, by decide⟩
def upperCase : File := ⟨["a.WAV".toList], by decide, by decide⟩

theorem lowerCase_requestable : Requests wavDisk "./a".toList lowerCase := by
  have hmatch : wildMatch (glob wavDisk []) lowerCase.line = true := by decide
  have hwrites : Writes wildTools wavDisk [] [lowerCase] lowerCase "./a".toList :=
    ⟨List.mem_filter.mpr ⟨List.mem_singleton_self _, hmatch⟩, by decide, by decide⟩
  apply (listed_name_requestable_iff wavDisk_configured hwrites).mpr
  exact ⟨⟨"/raw_songs".toList, by decide⟩, by decide, by decide, by decide, by decide⟩

/-- A file in capitals is found and listed, and the file that is then opened is another one. -/
theorem upperCase_unrequestable : ¬ ∀ disk, Configured disk → ∀ (tools : Tools) (pattern : CString)
    (files : List File) (f : File) (name : CString),
    Writes tools disk pattern files f name → Requests disk name f := by
  intro hclaim
  have hmatch : wildMatch (glob wavDisk []) upperCase.line = true := by decide
  have hwrites : Writes wildTools wavDisk [] [upperCase] upperCase "./a".toList :=
    ⟨List.mem_filter.mpr ⟨List.mem_singleton_self _, hmatch⟩, by decide, by decide⟩
  have hexact := exact_of_requests wavDisk_configured hwrites.ofFile
    (hclaim wavDisk wavDisk_configured wildTools [] [upperCase] upperCase _ hwrites)
  exact absurd hexact.suffix (by decide)

end EmotionStreamer.DirListing
