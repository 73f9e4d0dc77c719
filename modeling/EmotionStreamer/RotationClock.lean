import EmotionStreamer.Rotation

/-! The clock of the rotation: the microseconds since the song was changed, counted in seconds
and a rest. A value that a `long` cannot hold is a fault; the seconds are compared as an `int`. -/
namespace EmotionStreamer.RotationClock
open Runs Rotation

def Long (z : ℤ) : Prop := -2 ^ 63 ≤ z ∧ z < 2 ^ 63

instance (z : ℤ) : Decidable (Long z) := inferInstanceAs (Decidable (_ ∧ _))

def Normal (t : Timeval) : Prop := 0 ≤ t.tvUsec ∧ t.tvUsec < 1000000

/-- The two readings of the clock in one round of the loop. -/
structure Tick where
  currTvInit : Timeval
  currTvEnd : Timeval
  init_normal : Normal currTvInit
  end_normal : Normal currTvEnd
  le : currTvInit.micros ≤ currTvEnd.micros

def Tick.interval (t : Tick) : ℤ := t.currTvEnd.micros - t.currTvInit.micros

/-- The microseconds that the song has been waited for, with those of a round. -/
def total (g : Globals) (t : Tick) : ℤ := g.currSongWaitedTime.micros + t.interval

/-- What `pick_next_song` computes as `long`s. -/
def longs (g : Globals) (t : Tick) : List ℤ :=
  [t.currTvInit.tvSec * 1000000, t.currTvInit.micros, t.currTvEnd.tvSec * 1000000,
    t.currTvEnd.micros, t.interval, g.currSongWaitedTime.tvSec * 1000000,
    g.currSongWaitedTime.micros, total g t,
    (Timeval.ofMicros (total g t)).tvSec - g.rotationPeriod.tvSec]

/-- The branch that moves the index on. -/
def Advances (g : Globals) (t : Tick) : Prop :=
  0 < timeSpecCompareFunction
    (timeSpecSumFunction g.currSongWaitedTime (timeSpecSubFunction t.currTvInit t.currTvEnd))
    g.rotationPeriod

instance (g : Globals) (t : Tick) : Decidable (Advances g t) := inferInstanceAs (Decidable (_ < _))

/-- `pick_next_song` with the number of times that the index has been moved on, unless a
`long` overflows. -/
def pick (s : Globals × ℕ) (t : Tick) : Option (Globals × ℕ) :=
  if ∀ z ∈ longs s.1 t, Long z then
    some (pickNextSong s.1 t.currTvInit t.currTvEnd, s.2 + if Advances s.1 t then 1 else 0)
  else none

/-- A server in auto mode that has just read its configuration: its period was accepted, and
there are songs. -/
structure Setup where
  globals : Globals
  conTimeout : ℕ
  auto : globals.isAutoMode = true
  songs : 0 < globals.serverAutoModeRotation.length
  index : globals.currSongIndexRotation = 0
  waited : globals.currSongWaitedTime = ⟨0, 0⟩
  seconds : globals.rotationPeriod.tvUsec = 0
  accepted : (((conTimeout + 1) % uint64Size : ℕ) : ℤ) < globals.rotationPeriod.tvSec % uint32Size

/-- How often a song should have been changed, and the microseconds measured since. -/
structure Clock where
  advances : ℕ
  since : ℤ

def Clock.step (period : ℤ) (c : Clock) (interval : ℤ) : Clock :=
  if period < c.since + interval then ⟨c.advances + 1, 0⟩ else ⟨c.advances, c.since + interval⟩

/-- The server, beside it the clock that it should keep, and whether a song has been picked. -/
structure Watch where
  server : Option (Globals × ℕ)
  clock : Clock
  picked : Bool

def Setup.start (u : Setup) : Watch := ⟨some (u.globals, 0), ⟨0, 0⟩, false⟩

def Setup.step (u : Setup) (w : Watch) (t : Tick) : Watch :=
  ⟨w.server.bind (pick · t), w.clock.step u.globals.rotationPeriod.micros t.interval, true⟩

def Setup.exec (u : Setup) (ts : List Tick) : Watch := ts.foldl u.step u.start

/-- The waiting time is normalised and within the period, the index is that of a song, and it
has been moved on as often as it should. -/
structure Kept (period : Timeval) (n : ℕ) (c : Clock) (s : Globals × ℕ) : Prop where
  normal : Normal s.1.currSongWaitedTime
  nonneg : 0 ≤ s.1.currSongWaitedTime.micros
  le : s.1.currSongWaitedTime.micros ≤ period.micros
  index_lt : s.1.currSongIndexRotation < n
  index : s.1.currSongIndexRotation = s.2 % n
  advances : s.2 = c.advances

/-- So it is after `pick_next_song`. -/
def Setup.Good (u : Setup) (w : Watch) : Prop :=
  w.picked = true → ∃ s, w.server = some s ∧
    Kept u.globals.rotationPeriod u.globals.serverAutoModeRotation.length w.clock s

/-- What the comparison makes of a difference in seconds and the microseconds beside it. -/
def Exceeds (secs usecs : ℤ) : Prop := 0 < secs ∨ secs = 0 ∧ 0 < usecs

/-- The period is not negative, no `long` overflows, and the difference in seconds decides as
an `int` as it does itself. -/
structure Safe (g : Globals) (t : Tick) : Prop where
  period : 0 ≤ g.rotationPeriod.tvSec
  longs : ∀ z ∈ longs g t, Long z
  narrow : Exceeds ((total g t / 1000000 - g.rotationPeriod.tvSec).bmod uint32Size)
      (total g t % 1000000) ↔
    Exceeds (total g t / 1000000 - g.rotationPeriod.tvSec) (total g t % 1000000)

/-- The step that comes next is safe. -/
def Watch.Safe (w : Watch) (t : Tick) : Prop := ∀ s, w.server = some s → RotationClock.Safe s.1 t

/-- What the server keeps besides: the waiting time is the time measured. -/
structure Keeps (u : Setup) (w : Watch) (s : Globals × ℕ) : Prop where
  server : w.server = some s
  auto : s.1.isAutoMode = true
  period : s.1.rotationPeriod = u.globals.rotationPeriod
  songs : s.1.serverAutoModeRotation = u.globals.serverAutoModeRotation
  normal : Normal s.1.currSongWaitedTime
  micros : s.1.currSongWaitedTime.micros = w.clock.since
  since : 0 ≤ w.clock.since
  since_le : w.picked = true → w.clock.since ≤ u.globals.rotationPeriod.micros
  index : s.1.currSongIndexRotation = s.2 % u.globals.serverAutoModeRotation.length
  advances : s.2 = w.clock.advances

variable {u : Setup} {w : Watch} {g : Globals} {t : Tick} {us : ℤ}

@[simp] theorem micros_ofMicros (us : ℤ) : (Timeval.ofMicros us).micros = us := by
  simp only [Timeval.ofMicros, Timeval.micros]
  omega

theorem ofMicros_eq (h : 0 ≤ us) : Timeval.ofMicros us = ⟨us / 1000000, us % 1000000⟩ := by
  rw [Timeval.ofMicros, Int.tdiv_eq_ediv_of_nonneg h, Int.emod_def, Int.mul_comm]

theorem zero_normal : Normal ⟨0, 0⟩ := by
  rw [Normal]
  decide

theorem ofMicros_normal (h : 0 ≤ us) : Normal (.ofMicros us) := by
  rw [ofMicros_eq h, Normal]
  dsimp only
  omega

/-- The two functions add the time of the round. -/
theorem waited_eq (g : Globals) (t : Tick) :
    timeSpecSumFunction g.currSongWaitedTime (timeSpecSubFunction t.currTvInit t.currTvEnd) =
      .ofMicros (total g t) := by
  rw [timeSpecSumFunction, timeSpecSubFunction, micros_ofMicros]
  rfl

theorem compare_pos_iff (one two : Timeval) : 0 < timeSpecCompareFunction one two ↔
    Exceeds ((one.tvSec - two.tvSec).bmod uint32Size) ((one.tvUsec - two.tvUsec).bmod uint32Size) := by
  rw [timeSpecCompareFunction, Exceeds]
  dsimp only
  split_ifs <;> omega

theorem exceeds_iff (period us : ℤ) :
    Exceeds (us / 1000000 - period) (us % 1000000) ↔ period * 1000000 < us := by
  rw [Exceeds]
  omega

/-- What the server finds out by its comparison. -/
theorem advances_iff (htotal : 0 ≤ total g t) (husec : g.rotationPeriod.tvUsec = 0) :
    Advances g t ↔ Exceeds ((total g t / 1000000 - g.rotationPeriod.tvSec).bmod uint32Size)
      (total g t % 1000000) := by
  have hrest : (total g t % 1000000).bmod uint32Size = total g t % 1000000 := by
    apply Int.bmod_eq_of_le_mul_two <;> simp only [uint32Size] <;> omega
  rw [Advances, compare_pos_iff, waited_eq, ofMicros_eq htotal, husec, Int.sub_zero, hrest]

theorem pickNextSong_eq (hauto : g.isAutoMode = true) (t : Tick) :
    pickNextSong g t.currTvInit t.currTvEnd =
      if Advances g t then
        { g with
          currSongIndexRotation := (g.currSongIndexRotation + 1) % g.serverAutoModeRotation.length
          currSongWaitedTime := ⟨0, 0⟩ }
      else { g with currSongWaitedTime := .ofMicros (total g t) } := by
  have hcompare : Advances g t ↔
      0 < timeSpecCompareFunction (.ofMicros (total g t)) g.rotationPeriod := by
    rw [Advances, waited_eq]
  simp only [pickNextSong, hauto, waited_eq, hcompare, ↓reduceIte]

theorem Keeps.total_eq {s : Globals × ℕ} (h : Keeps u w s) (t : Tick) :
    total s.1 t = w.clock.since + t.interval := by
  rw [total, h.micros]

theorem Keeps.total_nonneg {s : Globals × ℕ} (h : Keeps u w s) (t : Tick) : 0 ≤ total s.1 t := by
  have hsince := h.since
  have hle := t.le
  rw [h.total_eq, Tick.interval]
  omega

theorem Keeps.period_micros {s : Globals × ℕ} (h : Keeps u w s) :
    u.globals.rotationPeriod.micros = s.1.rotationPeriod.tvSec * 1000000 := by
  rw [h.period, Timeval.micros, u.seconds, Int.add_zero]

/-- A server that moves the index on in time keeps the clock. -/
theorem Keeps.step {s : Globals × ℕ} (h : Keeps u w s) (hlongs : ∀ z ∈ longs s.1 t, Long z)
    (hdue : Advances s.1 t ↔ u.globals.rotationPeriod.micros < w.clock.since + t.interval)
    (hperiod : 0 ≤ u.globals.rotationPeriod.micros) : ∃ s', Keeps u (u.step w t) s' := by
  have hpick : (u.step w t).server = some (pickNextSong s.1 t.currTvInit t.currTvEnd,
      s.2 + if Advances s.1 t then 1 else 0) := by
    rw [Setup.step, h.server, Option.bind_some, pick, if_pos hlongs]
  have htotal := h.total_nonneg t
  rw [pickNextSong_eq h.auto] at hpick
  by_cases hadvances : Advances s.1 t
  · have hclock : (u.step w t).clock = ⟨w.clock.advances + 1, 0⟩ := if_pos (hdue.mp hadvances)
    rw [if_pos hadvances, if_pos hadvances] at hpick
    refine ⟨_, hpick, h.auto, h.period, h.songs, ?_, ?_, ?_, ?_, ?_, ?_⟩
    · exact zero_normal
    · rw [hclock]
      rfl
    · simp only [hclock, Int.le_refl]
    · intro _
      rw [hclock]
      exact hperiod
    · dsimp only
      rw [h.songs, h.index, Nat.mod_add_mod]
    · rw [hclock, h.advances]
  · have hnot : ¬u.globals.rotationPeriod.micros < w.clock.since + t.interval :=
      fun hlt => hadvances (hdue.mpr hlt)
    have hclock : (u.step w t).clock = ⟨w.clock.advances, w.clock.since + t.interval⟩ :=
      if_neg hnot
    rw [if_neg hadvances, if_neg hadvances] at hpick
    refine ⟨_, hpick, h.auto, h.period, h.songs, ofMicros_normal htotal, ?_, ?_, ?_, h.index, ?_⟩
    · rw [hclock, micros_ofMicros, h.total_eq]
    · rw [hclock, ← h.total_eq]
      exact htotal
    · intro _
      rw [hclock]
      exact Int.not_lt.mp hnot
    · rw [hclock]
      exact h.advances

/-- What the server keeps is what it should show. -/
theorem Keeps.good {s : Globals × ℕ} (h : Keeps u w s) : u.Good w := by
  intro hpicked
  refine ⟨s, h.server, h.normal, ?_, ?_, ?_, h.index, h.advances⟩
  · rw [h.micros]
    exact h.since
  · rw [h.micros]
    exact h.since_le hpicked
  · rw [h.index]
    exact Nat.mod_lt _ u.songs

/-- A step that is not safe shows at once. -/
theorem Keeps.breaks {s : Globals × ℕ} (h : Keeps u w s) (hbad : ¬Safe s.1 t) :
    ¬u.Good (u.step w t) := by
  intro hgood
  obtain ⟨s', hserver, hkept⟩ := hgood rfl
  rw [Setup.step, h.server, Option.bind_some, pick] at hserver
  by_cases hlongs : ∀ z ∈ longs s.1 t, Long z
  · rw [if_pos hlongs] at hserver
    cases hserver
    have hperiod : 0 ≤ s.1.rotationPeriod.tvSec := by
      have hmicros := Int.le_trans hkept.nonneg hkept.le
      rw [h.period_micros] at hmicros
      omega
    refine hbad ⟨hperiod, hlongs, ?_⟩
    have husec : s.1.rotationPeriod.tvUsec = 0 := by rw [h.period, u.seconds]
    rw [← advances_iff (h.total_nonneg t) husec, exceeds_iff, ← h.period_micros, h.total_eq]
    have hcount := hkept.advances
    have hle := hkept.le
    rw [pickNextSong_eq h.auto] at hle
    dsimp only [Setup.step, Clock.step] at hcount
    rw [h.advances] at hcount
    by_cases hlate : u.globals.rotationPeriod.micros < w.clock.since + t.interval
    · refine iff_of_true ?_ hlate
      by_contra hnot
      rw [if_neg hnot, micros_ofMicros, h.total_eq] at hle
      exact absurd hlate (Int.not_lt.mpr hle)
    · refine iff_of_false ?_ hlate
      intro hadvances
      rw [if_pos hadvances, if_neg hlate] at hcount
      exact absurd hcount (Nat.succ_ne_self _)
  · rw [if_neg hlongs] at hserver
    cases hserver

theorem exactGuard (u : Setup) :
    ExactGuard u.step Watch.Safe (fun w => ∃ s, Keeps u w s) u.Good where
  holds _ := fun ⟨_, h⟩ => h.good
  keeps w t := fun ⟨s, h⟩ hsafe => by
    have hs := hsafe s h.server
    have husec : s.1.rotationPeriod.tvUsec = 0 := by rw [h.period, u.seconds]
    refine h.step hs.longs ?_ ?_
    · rw [advances_iff (h.total_nonneg t) husec, hs.narrow, exceeds_iff, ← h.period_micros,
        h.total_eq]
    · have hperiod := hs.period
      rw [h.period_micros]
      omega
  breaks w t := fun ⟨s, h⟩ hbad => by
    refine h.breaks fun hs => hbad fun s' hserver => ?_
    rw [h.server] at hserver
    cases hserver
    exact hs

theorem start_keeps (u : Setup) : Keeps u u.start (u.globals, 0) where
  server := rfl
  auto := u.auto
  period := rfl
  songs := rfl
  normal := by
    rw [u.waited]
    exact zero_normal
  micros := by
    rw [u.waited]
    rfl
  since := Int.le_refl 0
  since_le := fun hpicked => nomatch hpicked
  index := by rw [u.index, Nat.zero_mod]
  advances := rfl

/-- The clock is kept in every round of a run if and only if every round is safe. -/
theorem clock_kept_iff (u : Setup) (ts : List Tick) :
    (∀ pre, pre <+: ts → u.Good (u.exec pre)) ↔
      ∀ pre t, pre ++ [t] <+: ts → (u.exec pre).Safe t :=
  (exactGuard u).iff ⟨_, start_keeps u⟩ ts

def negativePeriod : Setup where
  globals := ⟨true, ["a".toList, "b".toList], 0, ⟨0, 0⟩, ⟨-1, 0⟩, ".mp3".toList, "/srv".toList, 0⟩
  conTimeout := 3
  auto := rfl
  songs := by decide
  index := rfl
  waited := rfl
  seconds := rfl
  accepted := by decide

def oneSecond : Tick where
  currTvInit := ⟨0, 0⟩
  currTvEnd := ⟨1, 0⟩
  init_normal := zero_normal
  end_normal := zero_normal
  le := by decide

/-- A period of minus one second is accepted, and no waiting time is within it. -/
theorem negative_period_not_kept :
    ¬ ∀ (u : Setup) (ts pre : List Tick), pre <+: ts → u.Good (u.exec pre) := by
  intro hclaim
  obtain ⟨s, -, hkept⟩ := hclaim negativePeriod [oneSecond] [oneSecond] (List.prefix_refl _) rfl
  have hmicros := Int.le_trans hkept.nonneg hkept.le
  exact absurd hmicros (by decide)

/-- A server that has been launched in auto mode is set up. -/
theorem exists_setup_of_launch (launch : Launch) (hauto : launch.globals.isAutoMode = true) :
    ∃ u : Setup, u.globals = launch.globals ∧ u.conTimeout = launch.disk.conTimeout := by
  have hreads := launch.reads
  obtain ⟨⟨period, songs⟩, hprepare, hglobals⟩ := Option.map_eq_some_iff.mp hreads
  have hdisk : launch.disk.isAutoMode = true := by
    rw [← hglobals] at hauto
    exact hauto
  rw [if_pos hdisk] at hprepare
  have hsongs := (prepareNightmareBluntRotation_songs hprepare).1
  obtain ⟨file, -, hfile⟩ := Option.bind_eq_some_iff.mp hprepare
  split_ifs at hfile with hperiod
  obtain ⟨found, -, hfound⟩ := Option.bind_eq_some_iff.mp hfile
  split_ifs at hfound
  cases hfound
  refine ⟨⟨launch.globals, launch.disk.conTimeout, hauto, ?_, ?_, ?_, ?_, ?_⟩, rfl, rfl⟩
  · rw [← hglobals]
    exact hsongs
  · exact readValuesCfgServer_first hreads
  · rw [← hglobals]
  · rw [← hglobals]
  · rw [← hglobals]
    have hmod := Nat.mod_le (launch.disk.conTimeout + 1) uint64Size
    dsimp only
    omega

end EmotionStreamer.RotationClock
