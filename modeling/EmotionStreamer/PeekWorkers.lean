import EmotionStreamer.Footprints
import EmotionStreamer.ListingFiles
import EmotionStreamer.Requests
import EmotionStreamer.SendFile

/-! Workers that answer `PEEK` requests side by side. Each of them writes its listing to
temporary files in one directory, sends it and deletes it. -/
namespace EmotionStreamer.PeekWorkers
open Runs Footprints CStrings DirListing ListingFiles
open Rotation (CString Disk)
open SockIo (Socket Attempt)
open SendFile (Progress sendRest)
open Requests (sendDownloadSizes)

/-- What a path leads to, and the contents of all the files that it has led to: a file whose
name is gone is still there for its descriptors. -/
structure Entry where
  target : Option ℕ
  inodes : List CString
  linked : ∀ i ∈ target, i < inodes.length

/-- What `write` leaves of a text, at an offset. -/
def writeAt (text : CString) (off : ℕ) (s : CString) : CString :=
  text.take off ++ List.replicate (off - text.length) '\x00' ++ s ++ text.drop (off + s.length)

namespace Entry

def content (e : Entry) (i : ℕ) : CString := e.inodes.getD i []

/-- `st_size`, which is zero when there is no file. -/
def size (e : Entry) : ℕ := (e.target.map fun i => (e.content i).length).getD 0

/-- `open` with `O_TRUNC|O_CREAT`, and the file that the descriptor is for. -/
def truncate (e : Entry) : Entry × ℕ :=
  match e.target with
  | some i => ({ e with
      inodes := e.inodes.set i []
      linked := fun j hj => by rw [List.length_set]; exact e.linked j hj }, i)
  | none => (⟨some e.inodes.length, e.inodes ++ [[]], by simp⟩, e.inodes.length)

def write (e : Entry) (i off : ℕ) (s : CString) : Entry where
  target := e.target
  inodes := e.inodes.set i (writeAt (e.content i) off s)
  linked := fun j hj => by rw [List.length_set]; exact e.linked j hj

def remove (e : Entry) : Entry := { e with target := none, linked := by simp }

end Entry

abbrev Files := CString → Entry

def openTrunc (f : Files) (path : CString) : Files × ℕ :=
  (Function.update f path (f path).truncate.1, (f path).truncate.2)

def write (f : Files) (path : CString) (fd off : ℕ) (s : CString) : Files :=
  Function.update f path ((f path).write fd off s)

def remove (f : Files) (path : CString) : Files := Function.update f path (f path).remove

/-- A call of `write`, which does nothing without a descriptor. -/
def writeTo (f : Files) (path : CString) (fd : Option ℕ) (off : ℕ) (s : CString) : Files :=
  fd.elim f fun fd => write f path fd off s

/-- A path, for a process whose working directory is `cwd`. -/
def resolve (cwd path : CString) : CString :=
  if path.head? = some '/' then path else cwd ++ '/' :: path

/-- Which opens of a worker succeed: of `tmpDir2` and `tmpDir` for writing, and of `tmpDir` for
reading. `fp` is the descriptor that `open_file` returns. -/
structure Opens where
  tmpDir2 : Bool
  tmpDir : Bool
  fstream : Bool
  fp : ℤ

/-- What a worker is asked for, with the files that `find` goes through for it and the results
of its calls: of `chdir`, of the opens, of `con_send`, and of the attempts in `sendallfd`. -/
structure Request where
  id : UInt64
  pattern : CString
  files : List File
  entered : Bool
  opens : Opens
  sock : Socket
  conSend : ℤ
  attempts : ℕ → Attempt

/-- Where a worker is, with its descriptors and their offsets. `sending` is in the loops of
`sendallfd`, behind `k` attempts; `endless` is the loop of `generateDirListing` when there is
nothing left to read; a worker that has `failed` has ended before it sent anything. What a
worker has put on its connection is in front of `s.wire`, and in `wire`. -/
inductive Phase
  | start
  | opened (fd : ℕ)
  | searching (fd : ℕ) (outfd : Option ℕ)
  | sorted (fd : ℕ) (outfd : Option ℕ) (off : ℕ)
  | searched (fd : ℕ)
  | reading (fd fstream : ℕ)
  | listing (fd off fstream pos : ℕ)
  | listed
  | serving (fp : ℕ)
  | sending (fp : ℕ) (header : List UInt8) (k : ℕ) (s : Progress)
  | sent (wire : List UInt8)
  | finished (wire : List UInt8)
  | failed
  | endless

def Phase.Busy : Phase → Prop
  | .start => False
  | .finished _ => False
  | .failed => False
  | .endless => False
  | _ => True

section
variable (tools : Tools) (disk : Disk) (dir : CString) (r : Request)

/-- What `sort` writes. -/
def sortedText : CString :=
  (tools.sort (findLines (found tools disk r.pattern r.files))).flatMap (· ++ ['\n'])

/-- The working directory behind `chdir(".%s")`, which is given a relative path. -/
def workDir : CString :=
  if r.entered then resolve disk.cwd (snprintf (pathsize + 2) ('.' :: disk.musicFolder))
  else disk.cwd

/-- The message of `send_download_sizes`. -/
def header (size : ℕ) : List UInt8 := sendDownloadSizes r.opens.fp size (isWavMode disk)

/-- One call of a worker: `generateDirListing`, and `con_go` behind it. The working directory
changes between the opens of the files and the first text in them. -/
def serve (f : Files) : Phase → Files × Phase
  | .start =>
    if r.opens.tmpDir2 then
      let (f, fd) := openTrunc f (resolve disk.cwd (tmpDir2 dir r.id))
      (f, .opened fd)
    else (f, .failed)
  | .opened fd =>
    if r.opens.tmpDir then
      let (f, outfd) := openTrunc f (resolve disk.cwd (tmpDir dir r.id))
      (f, .searching fd (some outfd))
    else (f, .searching fd none)
  | .searching fd outfd =>
    let out := sortedText tools disk r
    (writeTo f (resolve disk.cwd (tmpDir dir r.id)) outfd 0 out, .sorted fd outfd out.length)
  | .sorted fd outfd off =>
    (writeTo f (resolve disk.cwd (tmpDir dir r.id)) outfd off (closeKeyword ++ ['\n']), .searched fd)
  | .searched fd =>
    match (f (resolve (workDir disk r) (tmpDir dir r.id))).target with
    | none => (f, .failed)
    | some fstream => if r.opens.fstream then (f, .reading fd fstream) else (f, .failed)
  | .reading fd fstream =>
    (remove f (resolve (workDir disk r) (tmpDir dir r.id)), .listing fd 0 fstream 0)
  | .listing fd off fstream pos =>
    let text := (f (resolve (workDir disk r) (tmpDir dir r.id))).content fstream
    match fgetsAll (pathsize * 4 - 1) [] (text.drop pos) with
    | [] => (f, .endless)
    | line :: _ =>
      if line.dropLast = closeKeyword then (f, .listed)
      else
        match listedName disk line with
        | none => (f, .listing fd off fstream (pos + line.length))
        | some name =>
          (write f (resolve disk.cwd (tmpDir2 dir r.id)) fd off (name ++ ['\n']),
            .listing fd (off + (name ++ ['\n']).length) fstream (pos + line.length))
  | .listed =>
    match (f (resolve (workDir disk r) (tmpDir2 dir r.id))).target with
    | none => (f, .failed)
    | some fp => if r.opens.fp < 0 then (f, .failed) else (f, .serving fp)
  | .serving fp =>
    -- a result of `con_send` below zero is logged at most
    let size := (f (resolve (workDir disk r) (tmpDir2 dir r.id))).size
    (f, .sending fp ((header disk r size).take r.conSend.toNat) 0 .start)
  | .sending fp header k s =>
    let file := octets ((f (resolve (workDir disk r) (tmpDir2 dir r.id))).content fp)
    if s.status = .interrupted ∨ (s.next file).rest = [] then (f, .sent (header ++ s.wire))
    else (f, .sending fp header (k + 1) (sendRest r.sock (r.attempts k) (s.next file)))
  | .sent wire => (remove f (resolve (workDir disk r) (tmpDir2 dir r.id)), .finished wire)
  | .finished wire => (f, .finished wire)
  | .failed => (f, .failed)
  | .endless => (f, .endless)

/-- The listing, a name a line. -/
def listingText : CString :=
  (generateDirListing tools disk r.pattern r.files).flatMap (· ++ ['\n'])

/-- The texts of the names in lines, up to the keyword. -/
def namesText (disk : Disk) (lines : List CString) : CString :=
  ((lines.takeWhile fun line => line.dropLast ≠ closeKeyword).filterMap (listedName disk)).flatMap
    (· ++ ['\n'])

/-- What `find`, `sort` and the worker write to the first file. -/
def text : CString := tmpDirText tools (found tools disk r.pattern r.files)

/-- The steps that a worker takes at most: ten, one for each line, and one for each byte. -/
def steps : ℕ :=
  10 + (fgetsAll (pathsize * 4 - 1) [] (text tools disk r)).length +
    (listingText tools disk r).length

/-- What the client of a worker is sent: the size of the listing and the listing. -/
def reply : List UInt8 :=
  header disk r (listingText tools disk r).length ++ octets (listingText tools disk r)

/-- The paths of a worker: its two files, from where it begins and from where it searches. -/
def paths : List CString :=
  [resolve disk.cwd (tmpDir dir r.id), resolve disk.cwd (tmpDir2 dir r.id),
    resolve (workDir disk r) (tmpDir dir r.id), resolve (workDir disk r) (tmpDir2 dir r.id)]

/-- The calls of a worker succeed: its files are opened, `con_send` accepts its whole message,
and every attempt of `sendallfd` some bytes. -/
structure Request.Unhindered (r : Request) : Prop where
  tmpDir2 : r.opens.tmpDir2 = true
  tmpDir : r.opens.tmpDir = true
  fstream : r.opens.fstream = true
  fp : 0 < r.opens.fp
  conSend : r.conSend = defDatasize
  moved : ∀ k, 0 < (r.sock.send (r.attempts k)).ret

end

section
variable {tools : Tools} {disk : Disk} {dir path k : CString} {r : Request} {f g : Files}
  {l : Phase} {e : Entry}

/-- What is done at one path leaves the others. -/
theorem update_other (hk : k ≠ path) : Function.update f path e k = f k :=
  Function.update_of_ne hk e f

/-- The same at one path leaves two stores alike where they were. -/
theorem update_alike (φ : Entry → Entry) (hpath : f path = g path) (hk : f k = g k) :
    Function.update f path (φ (f path)) k = Function.update g path (φ (g path)) k := by
  rw [Function.update_apply, Function.update_apply, hpath, hk]

theorem writeTo_other (hk : k ≠ path) (fd : Option ℕ) (off : ℕ) (t : CString) :
    writeTo f path fd off t k = f k := by
  cases fd with
  | none => rfl
  | some fd => exact update_other hk

theorem writeTo_alike (hpath : f path = g path) (hk : f k = g k) (fd : Option ℕ) (off : ℕ)
    (t : CString) : writeTo f path fd off t k = writeTo g path fd off t k := by
  cases fd with
  | none => exact hk
  | some fd => exact update_alike (·.write fd off t) hpath hk

theorem serve_frame (hk : k ∉ paths disk dir r) : (serve tools disk dir r f l).1 k = f k := by
  simp only [paths, List.mem_cons, List.not_mem_nil, or_false, not_or] at hk
  obtain ⟨hone, htwo, hone', htwo'⟩ := hk
  cases l with
  | start =>
    rw [serve]
    split_ifs
    · exact update_other htwo
    · rfl
  | opened =>
    rw [serve]
    split_ifs
    · exact update_other hone
    · rfl
  | searching => exact writeTo_other hone _ _ _
  | sorted => exact writeTo_other hone _ _ _
  | searched =>
    rw [serve]
    split
    · rfl
    · split_ifs <;> rfl
  | reading => exact update_other hone'
  | listing =>
    rw [serve]
    split
    · rfl
    · split_ifs
      · rfl
      · split
        · rfl
        · exact update_other htwo
  | listed =>
    rw [serve]
    split
    · rfl
    · split_ifs <;> rfl
  | serving => rfl
  | sending =>
    rw [serve]
    split_ifs <;> rfl
  | sent => exact update_other htwo'
  | finished => rfl
  | failed => rfl
  | endless => rfl

theorem serve_reads (h : ∀ k ∈ paths disk dir r, f k = g k) :
    (serve tools disk dir r f l).2 = (serve tools disk dir r g l).2 ∧ ∀ k ∈ paths disk dir r,
      (serve tools disk dir r f l).1 k = (serve tools disk dir r g l).1 k := by
  have hone : f (resolve disk.cwd (tmpDir dir r.id)) = g (resolve disk.cwd (tmpDir dir r.id)) :=
    h _ (by simp [paths])
  have htwo : f (resolve disk.cwd (tmpDir2 dir r.id)) = g (resolve disk.cwd (tmpDir2 dir r.id)) :=
    h _ (by simp [paths])
  have hone' : f (resolve (workDir disk r) (tmpDir dir r.id)) =
      g (resolve (workDir disk r) (tmpDir dir r.id)) := h _ (by simp [paths])
  have htwo' : f (resolve (workDir disk r) (tmpDir2 dir r.id)) =
      g (resolve (workDir disk r) (tmpDir2 dir r.id)) := h _ (by simp [paths])
  cases l with
  | start =>
    rw [serve, serve]
    split_ifs
    · refine ⟨?_, fun k hk => update_alike (fun e => e.truncate.1) htwo (h k hk)⟩
      simp only [openTrunc, htwo]
    · exact ⟨rfl, h⟩
  | opened =>
    rw [serve, serve]
    split_ifs
    · refine ⟨?_, fun k hk => update_alike (fun e => e.truncate.1) hone (h k hk)⟩
      simp only [openTrunc, hone]
    · exact ⟨rfl, h⟩
  | searching fd outfd => exact ⟨rfl, fun k hk => writeTo_alike hone (h k hk) outfd 0 _⟩
  | sorted fd outfd off => exact ⟨rfl, fun k hk => writeTo_alike hone (h k hk) outfd off _⟩
  | searched =>
    rw [serve, serve, hone']
    split
    · exact ⟨rfl, h⟩
    · split_ifs <;> exact ⟨rfl, h⟩
  | reading => exact ⟨rfl, fun k hk => update_alike Entry.remove hone' (h k hk)⟩
  | listing fd off =>
    rw [serve, serve, hone']
    split
    · exact ⟨rfl, h⟩
    · split_ifs
      · exact ⟨rfl, h⟩
      · split
        · exact ⟨rfl, h⟩
        · exact ⟨rfl, fun k hk => update_alike (·.write fd off _) htwo (h k hk)⟩
  | listed =>
    rw [serve, serve, htwo']
    split
    · exact ⟨rfl, h⟩
    · split_ifs <;> exact ⟨rfl, h⟩
  | serving =>
    rw [serve, serve, htwo']
    exact ⟨rfl, h⟩
  | sending =>
    rw [serve, serve, htwo']
    split_ifs <;> exact ⟨rfl, h⟩
  | sent => exact ⟨rfl, fun k hk => update_alike Entry.remove htwo' (h k hk)⟩
  | finished => exact ⟨rfl, h⟩
  | failed => exact ⟨rfl, h⟩
  | endless => exact ⟨rfl, h⟩

theorem serve_ne_start : (serve tools disk dir r f l).2 ≠ .start := by
  cases l with
  | start =>
    rw [serve]
    split_ifs <;> exact Phase.noConfusion
  | opened =>
    rw [serve]
    split_ifs <;> exact Phase.noConfusion
  | searched =>
    rw [serve]
    split
    · exact Phase.noConfusion
    · split_ifs <;> exact Phase.noConfusion
  | listing =>
    rw [serve]
    split
    · exact Phase.noConfusion
    · split_ifs
      · exact Phase.noConfusion
      · split <;> exact Phase.noConfusion
  | listed =>
    rw [serve]
    split
    · exact Phase.noConfusion
    · split_ifs <;> exact Phase.noConfusion
  | sending =>
    rw [serve]
    split_ifs <;> exact Phase.noConfusion
  | _ => exact Phase.noConfusion

theorem serve_rests (hl : l ≠ .start) (hbusy : ¬l.Busy) : serve tools disk dir r f l = (f, l) := by
  cases l with
  | start => exact absurd rfl hl
  | finished => rfl
  | failed => rfl
  | endless => rfl
  | _ => exact absurd trivial hbusy

end

/-- Workers, one for each request. -/
def workers {W : Type*} (tools : Tools) (disk : Disk) (dir : CString) (req : W → Request) :
    Programs W CString Entry Phase where
  own w := { path | path ∈ paths disk dir (req w) }
  start _ := .start
  busy := Phase.Busy
  op w := serve tools disk dir (req w)
  frame _ _ _ _ hk := serve_frame hk
  reads _ _ _ _ h := serve_reads h
  begins _ _ _ := serve_ne_start
  idle _ h := h
  rests _ _ _ hl hbusy := serve_rests hl hbusy

/-- The file under a path, and its contents. -/
structure Entry.Holds (e : Entry) (fd : ℕ) (s : CString) : Prop where
  target : e.target = some fd
  content : e.content fd = s

section
variable (tools : Tools) (disk : Disk) (dir : CString) (r : Request)

/-- How a worker that nobody disturbs stands, by what is under its two files. -/
inductive Working (one two : Entry) : Phase → Prop
  | start : Working one two .start
  | opened {fd : ℕ} (listed : two.Holds fd []) : Working one two (.opened fd)
  | searching {fd outfd : ℕ} (listed : two.Holds fd []) (found : one.Holds outfd []) :
      Working one two (.searching fd (some outfd))
  | sorted {fd outfd : ℕ} (listed : two.Holds fd [])
      (found : one.Holds outfd (sortedText tools disk r)) :
      Working one two (.sorted fd (some outfd) (sortedText tools disk r).length)
  | searched {fd outfd : ℕ} (listed : two.Holds fd []) (found : one.Holds outfd (text tools disk r)) :
      Working one two (.searched fd)
  | reading {fd fstream : ℕ} (listed : two.Holds fd [])
      (found : one.Holds fstream (text tools disk r)) : Working one two (.reading fd fstream)
  | listing {fd fstream pos : ℕ} {done : CString} (listed : two.Holds fd done)
      (removed : one.target = none) (found : one.content fstream = text tools disk r)
      (rest : done ++ namesText disk (fgetsAll (pathsize * 4 - 1) [] ((text tools disk r).drop pos)) =
        listingText tools disk r)
      (keyword : ∃ line ∈ fgetsAll (pathsize * 4 - 1) [] ((text tools disk r).drop pos),
        line.dropLast = closeKeyword) : Working one two (.listing fd done.length fstream pos)
  | listed {fd : ℕ} (listed : two.Holds fd (listingText tools disk r))
      (removed : one.target = none) : Working one two .listed
  | serving {fp : ℕ} (listed : two.Holds fp (listingText tools disk r))
      (removed : one.target = none) : Working one two (.serving fp)
  | sending {fp k : ℕ} {s : Progress} (listed : two.Holds fp (listingText tools disk r))
      (removed : one.target = none) (running : s.status = .sending)
      (taken : s.wire ++ s.rest = (octets (listingText tools disk r)).take s.off)
      (bounded : s.off ≤ (octets (listingText tools disk r)).length) :
      Working one two (.sending fp (header disk r (listingText tools disk r).length) k s)
  | sent (removed : one.target = none) : Working one two (.sent (reply tools disk r))
  | finished (removed : one.target = none) (removed' : two.target = none) :
      Working one two (.finished (reply tools disk r))

/-- The steps that are left at most. -/
def left : Phase → ℕ
  | .start => steps tools disk r
  | .opened _ => steps tools disk r - 1
  | .searching _ _ => steps tools disk r - 2
  | .sorted _ _ _ => steps tools disk r - 3
  | .searched _ => steps tools disk r - 4
  | .reading _ _ => steps tools disk r - 5
  | .listing _ _ _ pos => 4 + (fgetsAll (pathsize * 4 - 1) [] ((text tools disk r).drop pos)).length +
      (listingText tools disk r).length
  | .listed => 4 + (listingText tools disk r).length
  | .serving _ => 3 + (listingText tools disk r).length
  | .sending _ _ _ s => 2 + ((listingText tools disk r).length - s.wire.length)
  | .sent _ => 1
  | _ => 0

end

section
variable {tools : Tools} {disk : Disk} {dir path k s t : CString} {r : Request} {f : Files}
  {l : Phase} {e : Entry} {fd n : ℕ}

theorem writeAt_end (s t : CString) : writeAt s s.length t = s ++ t := by
  rw [writeAt, List.take_length, Nat.sub_self, List.replicate_zero, List.append_nil,
    List.drop_eq_nil_of_le (Nat.le_add_right _ _), List.append_nil]

theorem Entry.truncate_holds (e : Entry) : e.truncate.1.Holds e.truncate.2 [] := by
  rw [truncate]
  split
  · rename_i i hi
    refine ⟨hi, ?_⟩
    simp [content, e.linked i hi]
  · exact ⟨rfl, by simp [content]⟩

theorem Entry.Holds.write (h : e.Holds fd s) (t : CString) :
    (e.write fd s.length t).Holds fd (s ++ t) := by
  have hlt := e.linked fd h.target
  have hset : (e.write fd s.length t).content fd = writeAt (e.content fd) s.length t := by
    simp [Entry.content, Entry.write, hlt]
  refine ⟨h.target, ?_⟩
  rw [hset, h.content, writeAt_end]

theorem Entry.Holds.size (h : e.Holds fd s) : e.size = s.length := by
  rw [Entry.size, h.target, Option.map_some, h.content, Option.getD_some]

theorem resolve_of_absolute (h : path.head? = some '/') (cwd : CString) : resolve cwd path = path :=
  if_pos h

theorem snprintf_head {s : CString} (h : dir.head? = some '/') :
    (snprintf (pathsize * 2 - 1) (dir ++ s)).head? = some '/' := by
  cases dir with
  | nil => cases h
  | cons c dir => exact h

/-- In an absolute directory the files are the same ones from everywhere. -/
theorem resolve_tmpDir (h : dir.head? = some '/') (cwd : CString) (id : UInt64) :
    resolve cwd (tmpDir dir id) = tmpDir dir id :=
  resolve_of_absolute (snprintf_head h) cwd

theorem resolve_tmpDir2 (h : dir.head? = some '/') (cwd : CString) (id : UInt64) :
    resolve cwd (tmpDir2 dir id) = tmpDir2 dir id :=
  resolve_of_absolute (snprintf_head h) cwd

theorem mem_paths (h : dir.head? = some '/') :
    path ∈ paths disk dir r ↔ path = tmpDir dir r.id ∨ path = tmpDir2 dir r.id := by
  simp only [paths, resolve_tmpDir h, resolve_tmpDir2 h, List.mem_cons, List.not_mem_nil, or_false]
  rw [← or_assoc, or_self]

theorem header_whole (hr : r.Unhindered) (size : ℕ) :
    (header disk r size).take r.conSend.toNat = header disk r size := by
  rw [hr.conSend, Int.toNat_natCast, header, sendDownloadSizes, Framing.message, Slices.slice,
    List.take_take, Nat.min_self]

/-- An attempt that is accepted brings more of the file on the connection. -/
theorem sendRest_taken {file : List UInt8} {sock : Socket} {a : Attempt} {s : Progress}
    (ha : 0 < (sock.send a).ret) (htaken : s.wire ++ s.rest = file.take s.off) :
    (sendRest sock a s).wire ++ (sendRest sock a s).rest = file.take (sendRest sock a s).off ∧
      (sendRest sock a s).off = s.off ∧ (sendRest sock a s).status = s.status ∧
      (s.rest ≠ [] → s.wire.length < (sendRest sock a s).wire.length) := by
  rw [SendFile.sendRest_of_nonneg ha.le]
  refine ⟨?_, rfl, rfl, fun hrest => ?_⟩
  · simp only [List.append_assoc, List.take_append_drop, htaken]
  · have hpos := List.length_pos_iff.mpr hrest
    simp only [List.length_append, List.length_take]
    omega

theorem namesText_keyword {line : CString} (h : line.dropLast = closeKeyword)
    (lines : List CString) : namesText disk (line :: lines) = [] := by
  rw [namesText, List.takeWhile_cons_of_neg (by simp [h])]
  rfl

theorem namesText_cons {line : CString} (h : line.dropLast ≠ closeKeyword)
    (lines : List CString) : namesText disk (line :: lines) =
      ((listedName disk line).map (· ++ ['\n'])).getD [] ++ namesText disk lines := by
  rw [namesText, List.takeWhile_cons_of_pos (by simpa using h), List.filterMap_cons]
  cases listedName disk line <;> rfl

/-- The keyword is a line of its own, behind whatever is in front of it. -/
theorem keyword_read (tools : Tools) (files : List File) :
    ∃ line ∈ fgetsAll (pathsize * 4 - 1) [] (tmpDirText tools files),
      line.dropLast = closeKeyword := by
  have hkeyword : '\n' ∉ closeKeyword ∧ closeKeyword.length = 16 := by decide
  have hend : fgetsAll (pathsize * 4 - 1) [] (closeKeyword ++ ['\n']) = [closeKeyword ++ ['\n']] := by
    apply fgetsAll_line hkeyword.1 [] []
    rw [hkeyword.2]
    decide
  refine ⟨closeKeyword ++ ['\n'], ?_, List.dropLast_concat⟩
  rw [tmpDirText, fgetsAll_lines, hend]
  exact List.mem_append_right _ List.mem_cons_self

/-- A pass of the loop of `generateDirListing`. -/
theorem listing_pass {pos : ℕ} {done line : CString} {rest : List CString}
    (hrest : done ++ namesText disk (line :: rest) = listingText tools disk r)
    (hkeyword : ∃ line' ∈ line :: rest, line'.dropLast = closeKeyword)
    (hline : line.dropLast ≠ closeKeyword)
    (hread : fgetsAll (pathsize * 4 - 1) [] ((text tools disk r).drop pos) = line :: rest) :
    fgetsAll (pathsize * 4 - 1) [] ((text tools disk r).drop (pos + line.length)) = rest ∧
      (∃ line' ∈ rest, line'.dropLast = closeKeyword) ∧
      done ++ ((listedName disk line).map (· ++ ['\n'])).getD [] ++ namesText disk rest =
        listingText tools disk r := by
  have hnext := (fgetsAll_drop hread).2
  rw [List.length_nil, Nat.sub_zero, List.drop_drop] at hnext
  obtain ⟨line', hmem, hkw⟩ := hkeyword
  refine ⟨hnext, ⟨line', ?_, hkw⟩, ?_⟩
  · rcases List.mem_cons.mp hmem with rfl | hmem
    · exact absurd hkw hline
    · exact hmem
  · rw [List.append_assoc, ← namesText_cons hline]
    exact hrest

theorem Working.update_one (hne : tmpDir dir r.id ≠ tmpDir2 dir r.id)
    (h : Working tools disk r e (f (tmpDir2 dir r.id)) l) :
    Working tools disk r (Function.update f (tmpDir dir r.id) e (tmpDir dir r.id))
      (Function.update f (tmpDir dir r.id) e (tmpDir2 dir r.id)) l := by
  rw [update_other hne.symm, Function.update_self]
  exact h

theorem Working.update_two (hne : tmpDir dir r.id ≠ tmpDir2 dir r.id)
    (h : Working tools disk r (f (tmpDir dir r.id)) e l) :
    Working tools disk r (Function.update f (tmpDir2 dir r.id) e (tmpDir dir r.id))
      (Function.update f (tmpDir2 dir r.id) e (tmpDir2 dir r.id)) l := by
  rw [update_other hne, Function.update_self]
  exact h

/-- A pass of `sendallfd` over the listing. -/
theorem sending_pass {file : List UInt8} {k : ℕ} {s : Progress} (hr : r.Unhindered)
    (running : s.status = .sending) (taken : s.wire ++ s.rest = file.take s.off)
    (bounded : s.off ≤ file.length) (hmore : (s.next file).rest ≠ []) :
    let t := sendRest r.sock (r.attempts k) (s.next file)
    t.status = .sending ∧ t.wire ++ t.rest = file.take t.off ∧ t.off ≤ file.length ∧
      s.wire.length < t.wire.length := by
  obtain ⟨hnext, hoff⟩ := SendFile.next_taken taken bounded
  obtain ⟨htaken, hsame, hstatus, hmoved⟩ := sendRest_taken (hr.moved k) hnext
  refine ⟨?_, htaken, hsame.trans_le hoff, ?_⟩
  · rw [hstatus, Progress.next]
    split_ifs <;> exact running
  · rw [← SendFile.next_wire file s]
    exact hmoved hmore

/-- An undisturbed worker in the loop of `generateDirListing` goes on to the next line. -/
theorem serve_listing {fstream pos : ℕ} {done : CString} (habs : dir.head? = some '/')
    (hne : tmpDir dir r.id ≠ tmpDir2 dir r.id) (listed : (f (tmpDir2 dir r.id)).Holds fd done)
    (removed : (f (tmpDir dir r.id)).target = none)
    (found : (f (tmpDir dir r.id)).content fstream = text tools disk r)
    (rest : done ++ namesText disk (fgetsAll (pathsize * 4 - 1) [] ((text tools disk r).drop pos)) =
      listingText tools disk r)
    (keyword : ∃ line ∈ fgetsAll (pathsize * 4 - 1) [] ((text tools disk r).drop pos),
      line.dropLast = closeKeyword) :
    let p := serve tools disk dir r f (.listing fd done.length fstream pos)
    Working tools disk r (p.1 (tmpDir dir r.id)) (p.1 (tmpDir2 dir r.id)) p.2 ∧
      left tools disk r p.2 < left tools disk r (.listing fd done.length fstream pos) := by
  rw [serve, resolve_tmpDir habs, resolve_tmpDir2 habs, found]
  cases hread : fgetsAll (pathsize * 4 - 1) [] ((text tools disk r).drop pos) with
  | nil =>
    rw [hread] at keyword
    obtain ⟨line, hmem, -⟩ := keyword
    cases hmem
  | cons line lines =>
    rw [hread] at keyword rest
    dsimp only
    by_cases hline : line.dropLast = closeKeyword
    · rw [namesText_keyword hline, List.append_nil] at rest
      rw [if_pos hline]
      refine ⟨.listed (rest ▸ listed) removed, ?_⟩
      simp only [left, hread, List.length_cons]
      omega
    · obtain ⟨hnext, hkeyword, hdone⟩ := listing_pass rest keyword hline hread
      rw [if_neg hline]
      rw [← hnext] at hkeyword hdone
      cases hname : listedName disk line with
      | none =>
        rw [hname] at hdone
        refine ⟨.listing listed removed found (by simpa using hdone) hkeyword, ?_⟩
        simp only [left, hread, hnext, List.length_cons]
        omega
      | some name =>
        rw [hname] at hdone
        refine ⟨?_, by simp only [left, hread, hnext, List.length_cons]; omega⟩
        dsimp only
        rw [write, ← List.length_append]
        exact .update_two hne (.listing (listed.write _) removed found hdone hkeyword)

/-- In the loops of `sendallfd` it sends some more of the listing. -/
theorem serve_sending {fp k : ℕ} {s : Progress} (habs : dir.head? = some '/') (hr : r.Unhindered)
    (listed : (f (tmpDir2 dir r.id)).Holds fp (listingText tools disk r))
    (removed : (f (tmpDir dir r.id)).target = none) (running : s.status = .sending)
    (taken : s.wire ++ s.rest = (octets (listingText tools disk r)).take s.off)
    (bounded : s.off ≤ (octets (listingText tools disk r)).length) :
    let l := Phase.sending fp (header disk r (listingText tools disk r).length) k s
    let p := serve tools disk dir r f l
    Working tools disk r (p.1 (tmpDir dir r.id)) (p.1 (tmpDir2 dir r.id)) p.2 ∧
      left tools disk r p.2 < left tools disk r l := by
  dsimp only
  rw [serve, resolve_tmpDir2 habs, listed.content]
  have hstatus : s.status ≠ .interrupted := by
    rw [running]
    exact SendFile.Status.noConfusion
  by_cases hend : (s.next (octets (listingText tools disk r))).rest = []
  · rw [if_pos (Or.inr hend), SendFile.sent_of_end taken bounded hend]
    exact ⟨.sent removed, by simp only [left]; omega⟩
  · obtain ⟨hrunning, htaken, hoff, hmoved⟩ := sending_pass (k := k) hr running taken bounded hend
    rw [if_neg (not_or.mpr ⟨hstatus, hend⟩)]
    refine ⟨.sending listed removed hrunning htaken hoff, ?_⟩
    have hwire := congrArg List.length htaken
    have hlength : (octets (listingText tools disk r)).length = (listingText tools disk r).length :=
      List.length_map _
    simp only [List.length_append, List.length_take] at hwire
    simp only [left]
    omega

/-- Step lemma: an undisturbed worker goes on as it should, and comes nearer to its end. -/
theorem serve_working (habs : dir.head? = some '/') (hne : tmpDir dir r.id ≠ tmpDir2 dir r.id)
    (hr : r.Unhindered)
    (h : Working tools disk r (f (tmpDir dir r.id)) (f (tmpDir2 dir r.id)) l) :
    Working tools disk r ((serve tools disk dir r f l).1 (tmpDir dir r.id))
        ((serve tools disk dir r f l).1 (tmpDir2 dir r.id)) (serve tools disk dir r f l).2 ∧
      left tools disk r (serve tools disk dir r f l).2 ≤ left tools disk r l - 1 := by
  cases h with
  | start =>
    simp only [serve, hr.tmpDir2, ↓reduceIte, resolve_tmpDir2 habs, openTrunc]
    exact ⟨.update_two hne (.opened (Entry.truncate_holds _)), le_rfl⟩
  | opened listed =>
    simp only [serve, hr.tmpDir, ↓reduceIte, resolve_tmpDir habs, openTrunc]
    refine ⟨.update_one hne (.searching listed (Entry.truncate_holds _)), ?_⟩
    simp only [left]
    omega
  | searching listed found =>
    rw [serve, resolve_tmpDir habs]
    refine ⟨.update_one hne (.sorted listed (found.write _)), ?_⟩
    simp only [left]
    omega
  | sorted listed found =>
    rw [serve, resolve_tmpDir habs]
    refine ⟨.update_one hne (.searched listed (found.write _)), ?_⟩
    simp only [left]
    omega
  | searched listed found =>
    rw [serve, resolve_tmpDir habs, found.target]
    dsimp only
    rw [if_pos hr.fstream]
    exact ⟨.reading listed found, by simp only [left]; omega⟩
  | reading listed found =>
    rw [serve, resolve_tmpDir habs, remove]
    refine ⟨.update_one hne (.listing listed rfl found.content rfl (keyword_read tools _)), ?_⟩
    simp only [left, steps, List.drop_zero]
    omega
  | listing listed removed found rest keyword =>
    exact (serve_listing habs hne listed removed found rest keyword).imp_right Nat.le_sub_one_of_lt
  | listed listed removed =>
    rw [serve, resolve_tmpDir2 habs, listed.target]
    dsimp only
    rw [if_neg (not_lt.mpr hr.fp.le)]
    exact ⟨.serving listed removed, by simp only [left]; omega⟩
  | serving listed removed =>
    simp only [serve, resolve_tmpDir2 habs, listed.size, header_whole hr]
    refine ⟨.sending listed removed rfl rfl (Nat.zero_le _), ?_⟩
    simp only [left, Progress.start, List.length_nil, Nat.sub_zero]
    omega
  | sending listed removed running taken bounded =>
    exact (serve_sending habs hr listed removed running taken bounded).imp_right
      Nat.le_sub_one_of_lt
  | sent removed =>
    simp only [serve, resolve_tmpDir2 habs, remove]
    exact ⟨.update_two hne (.finished removed rfl), by simp only [left]; omega⟩
  | finished removed removed' => exact ⟨.finished removed removed', le_rfl⟩

end

/-- What a worker has put on its connection. -/
def Phase.wire : Phase → List UInt8
  | .sending _ header _ s => header ++ s.wire
  | .sent wire => wire
  | .finished wire => wire
  | _ => []

/-- How a worker that has taken `n` steps has served its request: it sends the size of its
listing and the listing, and it ends. -/
structure Served (tools : Tools) (disk : Disk) (r : Request) (n : ℕ) (l : Phase) : Prop where
  works : l ≠ .failed ∧ l ≠ .endless
  wire : l.wire <+: reply tools disk r
  whole : ∀ wire, l = .finished wire → wire = reply tools disk r
  ends : steps tools disk r ≤ n → ∃ wire, l = .finished wire

section
variable {W : Type*} {tools : Tools} {disk : Disk} {dir : CString} {req : W → Request} {f : Files}
  {one two : Entry} {l : Phase} {r : Request} {n : ℕ}

theorem Working.served (h : Working tools disk r one two l)
    (hleft : left tools disk r l ≤ steps tools disk r - n) : Served tools disk r n l := by
  refine ⟨?_, ?_, ?_, fun hn => ?_⟩
  · cases h <;> exact ⟨Phase.noConfusion, Phase.noConfusion⟩
  · cases h with
    | sending _ _ _ taken =>
      have hfile : _ <+: octets (listingText tools disk r) :=
        (List.prefix_append _ _).trans (taken ▸ List.take_prefix _ _)
      exact (List.prefix_append_right_inj _).mpr hfile
    | sent => exact List.prefix_rfl
    | finished => exact List.prefix_rfl
    | _ => exact List.nil_prefix
  · rintro wire rfl
    cases h
    rfl
  · rw [Nat.sub_eq_zero_of_le hn, Nat.le_zero] at hleft
    cases h with
    | finished => exact ⟨_, rfl⟩
    | _ =>
      simp only [left, steps] at hleft
      omega

/-- When it is no longer under way, it has deleted its files. -/
theorem Working.clean (h : Working tools disk r one two l) (hl : l ≠ .start) (hbusy : ¬l.Busy) :
    one.target = none ∧ two.target = none := by
  cases h with
  | start => exact absurd rfl hl
  | finished removed removed' => exact ⟨removed, removed'⟩
  | _ => exact absurd trivial hbusy

/-- Run lemma for a worker alone. -/
theorem solo_working (w : W) (habs : dir.head? = some '/') (hdir : dir.length ≤ 450)
    (hr : (req w).Unhindered) (f : Files) (n : ℕ) : Working tools disk (req w)
        (((workers tools disk dir req).solo w f n).1 (tmpDir dir (req w).id))
        (((workers tools disk dir req).solo w f n).1 (tmpDir2 dir (req w).id))
        ((workers tools disk dir req).solo w f n).2 ∧
      left tools disk (req w) ((workers tools disk dir req).solo w f n).2 ≤
        steps tools disk (req w) - n := by
  induction n with
  | zero => exact ⟨.start, le_rfl⟩
  | succ n ih =>
    obtain ⟨hworking, hleft⟩ := serve_working habs (tmpDir_ne_tmpDir2 hdir _) hr ih.1
    rw [Programs.solo_succ]
    refine ⟨hworking, hleft.trans ?_⟩
    have := ih.2
    omega

/-- A request is taken on while no request under way has its number, and none of the two
numbers is the other with a one in front. -/
def NumbersApart (req : W → Request) (s : Files × (W → Phase)) (w : W) : Prop :=
  s.2 w = .start → ∀ v, v ≠ w → (s.2 v).Busy → (req v).id ≠ (req w).id ∧
    hex (req v).id ≠ '1' :: hex (req w).id ∧ hex (req w).id ≠ '1' :: hex (req v).id

theorem paths_nodup (hdir : dir.length ≤ 450) {i j : UInt64}
    (h : i ≠ j ∧ hex i ≠ '1' :: hex j ∧ hex j ≠ '1' :: hex i) :
    [tmpDir dir i, tmpDir2 dir i, tmpDir dir j, tmpDir2 dir j].Nodup :=
  (paths_nodup_iff h.1).mpr ((apart_iff_of_short hdir h.1).mpr h.2)

theorem paths_disjoint (habs : dir.head? = some '/') (hdir : dir.length ≤ 450) {r r' : Request}
    (h : r.id ≠ r'.id ∧ hex r.id ≠ '1' :: hex r'.id ∧ hex r'.id ≠ '1' :: hex r.id) :
    Disjoint { path | path ∈ paths disk dir r } { path | path ∈ paths disk dir r' } := by
  have hnodup : ([tmpDir dir r.id, tmpDir2 dir r.id] ++ [tmpDir dir r'.id, tmpDir2 dir r'.id]).Nodup :=
    paths_nodup hdir h
  rw [Set.disjoint_left]
  intro path hpath hpath'
  exact (List.nodup_append.mp hnodup).2.2 path (List.mem_pair.mpr ((mem_paths habs).mp hpath)) path
    (List.mem_pair.mpr ((mem_paths habs).mp hpath')) rfl

variable [DecidableEq W]

/-- In every order of the steps of any number of workers whose calls succeed, each of them sends
its own listing and comes to its end. A path is as it was at the beginning, or it is one of the
two of a worker that has begun, and leads to nothing when that worker has ended. -/
theorem listing_served (habs : dir.head? = some '/') (hdir : dir.length ≤ 450)
    (hreq : ∀ w, (req w).Unhindered) {f₀ : Files} {ws : List W} {s : Files × (W → Phase)}
    (run : Run (Guarded (NumbersApart req) fun s w t => t = (workers tools disk dir req).step s w)
      (f₀, fun _ => .start) ws s) :
    (∀ w, Served tools disk (req w) (ws.count w) (s.2 w)) ∧
      ∀ path, s.1 path = f₀ path ∨ ∃ w, s.2 w ≠ .start ∧
        (path = tmpDir dir (req w).id ∨ path = tmpDir2 dir (req w).id) ∧
        ((s.2 w).Busy ∨ (s.1 path).target = none) := by
  have hfree : Run (Guarded (workers tools disk dir req).Free
      fun s w t => t = (workers tools disk dir req).step s w) (f₀, fun _ => .start) ws s :=
    run.mono fun s w t h => guarded h.2 fun hstart v hv hbusy =>
      paths_disjoint habs hdir (h.1 hstart v hv hbusy)
  have hrun := Programs.run_undisturbed hfree
  refine ⟨fun w => ?_, fun path => ?_⟩
  · obtain ⟨f, hf⟩ := Programs.run_alone hrun w
    rw [hf.place]
    obtain ⟨hworking, hleft⟩ := solo_working w habs hdir (hreq w) f (ws.count w)
    exact hworking.served hleft
  · have hleft := Programs.run_left (fun e => e.target = none) (fun w f n hbusy k hk => ?_) hrun path
    · refine hleft.imp_right ?_
      rintro ⟨w, hbegun, hpath, hend⟩
      exact ⟨w, hbegun, (mem_paths habs).mp hpath, hend⟩
    · obtain ⟨hworking, -⟩ := solo_working w habs hdir (hreq w) f (n + 1)
      obtain ⟨hone, htwo⟩ := hworking.clean (Programs.solo_ne_start w f n) hbusy
      rcases (mem_paths habs).mp hk with rfl | rfl
      · exact hone
      · exact htwo

end

/-- A request for all the files, over a connection that takes a byte at a time. -/
def requestFor (id : UInt64) (files : List File) : Request where
  id := id
  pattern := []
  files := files
  entered := true
  opens := ⟨true, true, true, 5⟩
  sock := ⟨4, false, none⟩
  conSend := defDatasize
  attempts _ := ⟨.ready, .done 1, false⟩

/-- Two requests, one of which finds a file. -/
def twoRequests (second : Bool) : Request :=
  if second then requestFor 1 [lowerCase] else requestFor 0 []

def noFiles : Files := fun _ => ⟨none, [], by simp⟩

theorem twoRequests_unhindered (w : Bool) : (twoRequests w).Unhindered := by
  cases w <;> exact ⟨rfl, rfl, rfl, by decide, rfl, fun _ => Int.one_pos⟩

/-- The two workers take turns: each client is sent a listing of its own, and no file is left. -/
theorem listing_served_twoRequests : ∃ s : Files × (Bool → Phase),
    s = (List.replicate 16 [false, true]).flatten.foldl
      (workers wildTools wavDisk "/tmp".toList twoRequests).step (noFiles, fun _ => .start) ∧
    s.2 false = .finished (sendDownloadSizes 5 0 true) ∧
    s.2 true = .finished (sendDownloadSizes 5 4 true ++ octets "./a\n".toList) ∧
    ∀ path, (s.1 path).target = none := by
  have hapart : ∀ s w, NumbersApart twoRequests s w := by
    intro s w _ v hv _
    cases v <;> cases w <;> first | exact absurd rfl hv | decide
  have run : Run (Guarded (NumbersApart twoRequests)
      fun s w t => t = (workers wildTools wavDisk "/tmp".toList twoRequests).step s w)
      (noFiles, fun _ => .start) (List.replicate 16 [false, true]).flatten _ :=
    run_foldl hapart _ _
  have hcount : ∀ w, (List.replicate 16 [false, true]).flatten.count w = 16 := by decide
  obtain ⟨hserved, hpaths⟩ := listing_served rfl (by decide) twoRequests_unhindered run
  obtain ⟨wire, hfalse⟩ := (hserved false).ends (by rw [hcount]; decide)
  obtain ⟨wire', htrue⟩ := (hserved true).ends (by rw [hcount]; decide)
  refine ⟨_, rfl, ?_, ?_, fun path => ?_⟩
  · have hnone : listingText wildTools wavDisk (twoRequests false) = [] := by decide
    rw [hfalse, (hserved false).whole wire hfalse, reply, hnone]
    exact congrArg Phase.finished (List.append_nil _)
  · have hname : listingText wildTools wavDisk (twoRequests true) = "./a\n".toList := by decide
    rw [htrue, (hserved true).whole wire' htrue, reply, hname]
    rfl
  · rcases hpaths path with hsame | ⟨w, -, -, hend⟩
    · rw [hsame]
      rfl
    · refine hend.resolve_left ?_
      cases w
      · rw [hfalse]
        exact id
      · rw [htrue]
        exact id

end EmotionStreamer.PeekWorkers
