import EmotionStreamer.ClientShutdown

/-! The end of a session of the client. Once the input thread has left, with its last
`stop_client_stream` heeded, the other threads end after a bounded number of moves, and the main
thread gives the port back once. A signal that is lost leaves the main thread waiting for ever. -/
namespace EmotionStreamer.Client
open Wakeups Runs

def Session.work (s : Session) : ℕ :=
  rxWork s.threads.rx + decWork s.threads.dec + playerWork s.threads.player + s.playerEnd.work +
    s.stats.work + s.main.work

variable {cfg : Config} {setup : Setup} {s u : Session}

theorem Session.work_le (s : Session) : s.work ≤ 41 := by
  have hrx : rxWork s.threads.rx ≤ 8 := by cases s.threads.rx <;> simp [rxWork]
  have hdec : decWork s.threads.dec ≤ 10 := by cases s.threads.dec <;> simp [decWork]
  have hplayer : playerWork s.threads.player ≤ 8 := by cases s.threads.player <;> simp [playerWork]
  have hend : s.playerEnd.work ≤ 2 := by cases s.playerEnd <;> simp [PlayerEnd.work]
  have hstats : s.stats.work ≤ 4 := by cases s.stats <;> simp [StatsPc.work]
  have hmain : s.main.work ≤ 9 := by cases s.main <;> simp [MainPc.work]
  unfold Session.work
  omega

theorem act_work (s : Session) (a : Act) : (s.act a).work = s.work := by cases a <;> rfl

/-- What only the main thread changes. -/
def Session.closing (s : Session) : MainPc × Bool × Bool × ℕ :=
  (s.main, s.exiting, s.cleaned, s.portsBack)

theorem inputTurn_closing {key : Key} (hu : s.inputTurn cfg key = some u) :
    u.closing = s.closing := by
  obtain ⟨_, a, _, -, -, rfl⟩ | ⟨_, _, -, -, rfl⟩ | ⟨-, rfl⟩ | ⟨-, hu⟩ | ⟨_, _, _, _, rfl, -⟩ :=
    inputTurn_cases hu
  · cases a <;> rfl
  · rfl
  · rfl
  · exact through_eq Session.closing hu rfl fun _ _ => rfl
  · rfl

theorem next_closing {t : Turn} (hmain : ∀ timeout, t ≠ .main timeout) (hu : s.Step setup t u) :
    u.closing = s.closing := by
  cases t with
  | rx d => exact through_eq Session.closing (rx_turn hu).2 rfl fun _ _ => rfl
  | dec out => exact through_eq Session.closing (dec_turn hu).2 rfl fun _ _ => rfl
  | player =>
    obtain ⟨-, hu⟩ | ⟨_, _, _, rfl, -, -⟩ := playerTurn_cases hu
    · exact through_eq Session.closing hu rfl fun _ _ => rfl
    · rfl
  | stats =>
    obtain ⟨-, hu⟩ | ⟨_, rfl, -⟩ := statsTurn_cases hu
    · exact through_eq Session.closing hu rfl fun _ _ => rfl
    · rfl
  | input key => exact inputTurn_closing hu
  | main timeout => exact absurd rfl (hmain timeout)
  | outside a =>
    cases hu
    cases a <;> rfl

/-- The port is given back as the main thread returns, after it has cleaned up. -/
structure Closing (setup : Setup) (s : Session) : Prop where
  exiting : s.exiting = (decide (s.main = .returned) && setup.isOn)
  portsBack : s.portsBack = s.exiting.toNat
  cleaned : s.main = .exiting ∨ s.main = .returned → s.cleaned = true

theorem start_closing (setup : Setup) : Closing setup (.start setup) :=
  ⟨rfl, rfl, fun h => absurd h (by simp [Session.start])⟩

theorem Closing.congr (h : Closing setup s) (hu : u.closing = s.closing) : Closing setup u := by
  obtain ⟨hmain, hrest⟩ := Prod.mk.inj hu
  obtain ⟨hexiting, hrest⟩ := Prod.mk.inj hrest
  obtain ⟨hcleaned, hports⟩ := Prod.mk.inj hrest
  exact ⟨by rw [hexiting, hmain, h.exiting], by rw [hports, hexiting, h.portsBack],
    by rw [hcleaned, hmain]; exact h.cleaned⟩

theorem Closing.move (h : Closing setup s) (hpc : s.main ≠ .returned) {x : MainPc}
    (hx : x ≠ .exiting) (hx' : x ≠ .returned) : Closing setup { s with main := x } where
  exiting := h.exiting.trans (by simp [hpc, hx'])
  portsBack := h.portsBack
  cleaned hm := absurd hm (not_or.mpr ⟨hx, hx'⟩)

theorem Closing.mainTurn (h : Closing setup s) {timeout : Bool}
    (hu : s.mainTurn setup timeout = some u) : Closing setup u := by
  obtain ⟨hpc, hu⟩ | ⟨x, rfl, hpc, hx, hx', -⟩ | ⟨hpc, rfl⟩ | ⟨hpc, hopen, hon, rfl⟩ |
    ⟨hpc, hopen, rfl⟩ := mainTurn_cases hu
  · have hgo : Closing setup { s with main := .innited } :=
      h.move (by simp [hpc]) (by simp) (by simp)
    obtain ⟨-, rfl⟩ | ⟨-, -, rfl⟩ | ⟨-, -, rfl⟩ := through_cases hu
    · exact hgo
    · exact hgo.congr rfl
    · exact h.congr rfl
  · exact h.move hpc hx hx'
  · exact ⟨by simpa [hpc] using h.exiting, h.portsBack, fun _ => rfl⟩
  · exact ⟨by simp [hon], by simp [h.portsBack, hopen], fun _ => h.cleaned (.inl hpc)⟩
  · have hopen' : s.exiting = false := by simpa [hpc] using h.exiting
    have hoff : setup.isOn = false := by simpa [hopen'] using hopen
    exact ⟨by simp [hopen', hoff], h.portsBack, fun _ => h.cleaned (.inl hpc)⟩

theorem Closing.next {t : Turn} (h : Closing setup s) (hu : s.Step setup t u) : Closing setup u := by
  by_cases hmain : ∃ timeout, t = .main timeout
  · obtain ⟨timeout, rfl⟩ := hmain
    exact h.mainTurn hu
  · exact h.congr (next_closing (not_exists.mp hmain) hu)

/-- A session that the input thread has left. -/
structure Over (s : Session) : Prop where
  input : s.input = .ended
  stop : LastStop s stopClientStream.length

theorem Over.roused (h : Over s) (c : Cond) : Roused (s.place c) (s.waits c) :=
  h.stop.roused c (by cases c <;> decide)

theorem Over.innited (h : Over s) : s.threads.innited = false := h.stop.innited (by decide)

theorem Over.decoding (h : Over s) : s.threads.decoding = true := (h.stop.decoding (by decide)).1

theorem Over.next {t : Turn} (h : Over s) (hu : s.Step setup t u) : Over u := by
  have hother : ∀ key, t ≠ .input key := by
    rintro key rfl
    simp [Session.Step, Session.next, Session.inputTurn, h.input] at hu
  exact ⟨(next_input hother hu).trans h.input, h.stop.next hother hu⟩

theorem Over.mainTurn_work (h : Over s) {timeout : Bool} (hu : s.mainTurn setup timeout = some u) :
    u.work < s.work := by
  obtain ⟨hpc, hu⟩ | ⟨x, rfl, -, -, -, hx⟩ | ⟨hpc, rfl⟩ | ⟨hpc, -, -, rfl⟩ | ⟨hpc, -, rfl⟩ :=
    mainTurn_cases hu
  · obtain ⟨waits, rfl⟩ := through_of_roused (h.roused .running) hu
    simp [Session.work, hpc, MainPc.work]
  · have hwork := (hx h.stop.terminating).2 h.innited
    simp only [Session.work]
    omega
  all_goals simp [Session.work, hpc, MainPc.work]

theorem Over.statsTurn_work (h : Over s) (hu : s.statsTurn = some u) : u.work < s.work := by
  obtain ⟨hpc, hu⟩ | ⟨x, rfl, hx⟩ := statsTurn_cases hu
  · obtain ⟨waits, rfl⟩ := through_of_roused (h.roused .stats) hu
    simp [Session.work, hpc, StatsPc.work]
  · have hwork := (hx h.innited).2
    simp only [Session.work]
    omega

theorem Over.playerTurn_work (h : Over s) (hu : s.playerTurn cfg = some u) : u.work < s.work := by
  obtain ⟨hended, hu⟩ | ⟨_, _, e, rfl, -, hwork⟩ := playerTurn_cases hu
  · obtain ⟨waits, rfl⟩ := through_of_roused (h.roused .player) hu
    obtain ⟨-, -, hdec, hrx⟩ := playerStep_others cfg s.threads
    have hwork : playerWork (playerStep cfg s.threads).player < playerWork s.threads.player :=
      playerStep_work h.innited h.decoding hended
    simp only [Session.work, hdec, hrx]
    omega
  · simp only [Session.work]
    omega

/-- Every move brings the session nearer to its end. -/
theorem Over.work_lt {t : Turn} (h : Over s) (ht : t.own = true) (hu : s.Step setup t u) :
    u.work < s.work := by
  cases t with
  | rx d =>
    obtain ⟨hreturned, hu⟩ := rx_turn hu
    obtain ⟨waits, rfl⟩ := through_of_roused (h.roused .reading) hu
    obtain ⟨-, -, hdec, hplayer⟩ := rxStep_others setup.cfg s.threads d
    have hwork : rxWork (rxStep setup.cfg s.threads d).rx < rxWork s.threads.rx :=
      rxStep_work h.innited hreturned d
    simp only [Session.work, hdec, hplayer]
    omega
  | dec out =>
    obtain ⟨hreturned, hu⟩ := dec_turn hu
    obtain ⟨waits, rfl⟩ := through_of_roused (h.roused .decoder) hu
    obtain ⟨-, hrx, hplayer, -⟩ := decStep_others setup.cfg s.threads out
    have hwork : decWork (decStep setup.cfg s.threads out).dec < decWork s.threads.dec :=
      decStep_work h.innited hreturned out
    simp only [Session.work, hrx, hplayer]
    omega
  | player => exact h.playerTurn_work hu
  | input key => simp [Session.Step, Session.next, Session.inputTurn, h.input] at hu
  | stats => exact h.statsTurn_work hu
  | main timeout => exact h.mainTurn_work hu
  | outside a => exact absurd ht Bool.false_ne_true

/-- What happens outside does not make the session longer. -/
theorem Over.work_mono {t : Turn} (h : Over s) (hu : s.Step setup t u) :
    (t.own = true → u.work < s.work) ∧ (t.own ≠ true → u.work ≤ s.work) := by
  refine ⟨fun ht => h.work_lt ht hu, fun ht => ?_⟩
  cases t with
  | outside a =>
    cases hu
    exact (act_work s a).le
  | _ => exact absurd rfl ht

theorem Over.returned (h : Over s) (hstuck : Stuck setup s) : s.main = .returned := by
  have hrx : s.threads.rx = .returned := by
    by_contra hne
    have hnone := hstuck (.rx ⟨0, [], rfl⟩) rfl
    rw [Session.next, if_neg hne] at hnone
    exact through_ne_none (h.roused .reading) hnone
  have hdec : s.threads.dec = .returned := by
    by_contra hne
    have hnone := hstuck (.dec ⟨.done, 0, 0, 0, []⟩) rfl
    rw [Session.next, if_neg hne] at hnone
    exact through_ne_none (h.roused .decoder) hnone
  have hplayer : s.playerEnd = .returned := by
    have hnone := hstuck .player rfl
    rw [Session.next, Session.playerTurn] at hnone
    split_ifs at hnone
    · cases hend : s.playerEnd <;> rw [hend] at hnone <;> first | rfl | cases hnone
    · exact absurd hnone (through_ne_none (h.roused .player))
  have hstats : s.stats = .ended := by
    have hnone := hstuck .stats rfl
    cases hpc : s.stats with
    | ended => rfl
    | startAsleep =>
      simp only [Session.next, Session.statsTurn, hpc] at hnone
      exact absurd hnone (through_ne_none (h.roused .stats))
    | _ => simp [Session.next, Session.statsTurn, hpc] at hnone
  have hnone := hstuck (.main false) rfl
  cases hpc : s.main with
  | returned => rfl
  | asleep =>
    simp only [Session.next, Session.mainTurn, hpc] at hnone
    exact absurd hnone (through_ne_none (h.roused .running))
  | exiting =>
    simp only [Session.next, Session.mainTurn, hpc] at hnone
    split_ifs at hnone
  | _ => simp [Session.next, Session.mainTurn, hpc, hrx, hdec, hplayer, hstats, h.input] at hnone

/-- Once the input thread has left after a last `stop_client_stream` that is heeded, the threads
make at most 41 moves more, and when none of them can move the client has cleaned up, has given its
port back, once and if its connection was on, and has returned. -/
theorem session_ends {ts us : List Turn}
    (run : Run (Guarded Heard (Session.Step setup)) (.start setup) ts s) (hend : s.input = .ended)
    (later : Run (Session.Step setup) s us u) :
    us.countP Turn.own ≤ 41 ∧ u.portsBack ≤ 1 ∧
      (Stuck setup u → u.main = .returned ∧ u.cleaned = true ∧ u.portsBack = setup.isOn.toNat) := by
  have hover : Over s := ⟨hend, run_last run _ (by rw [hend]; rfl)⟩
  have hclosing : Closing setup u :=
    later.invariant (Closing setup)
      (run.invariant (Closing setup) (start_closing setup) fun _ _ _ h step => h.next step.2)
      fun _ _ _ h step => h.next step
  obtain ⟨hover', hmoves⟩ := later.countP_le Turn.own Session.work hover fun _ _ _ h step =>
    ⟨h.next step, h.work_mono step⟩
  have hwork := s.work_le
  have hports : u.portsBack ≤ 1 := hclosing.portsBack ▸ Bool.toNat_le u.exiting
  refine ⟨by omega, hports, fun hstuck => ?_⟩
  have hreturned := hover'.returned hstuck
  refine ⟨hreturned, hclosing.cleaned (.inr hreturned), ?_⟩
  rw [hclosing.portsBack, hclosing.exiting, hreturned]
  rfl

/-- A session in WAV mode without statistics. -/
def wavSetup : Setup := ⟨.small .wav, false, true, true⟩

def Session.nextHeard (setup : Setup) (s : Session) (t : Turn) : Option Session :=
  if Heard s t then s.next setup t else none

/-- The player waits for the stream, and the input thread finds itself told to end as the rx thread
is about to read: its `stop_client_stream` wakes the player. -/
def quit : List Turn :=
  List.replicate 3 .player ++ List.replicate 3 (.rx ⟨0, [], rfl⟩) ++
    .input .other :: .outside .clearAlive :: List.replicate 13 (.input .other)

def ending : List Turn :=
  List.replicate 2 .player ++ List.replicate 3 (.rx ⟨0, [], rfl⟩) ++ List.replicate 4 .player ++
    List.replicate 8 (.main false)

def quitted : Session := (quit.foldlM (Session.nextHeard wavSetup) (.start wavSetup)).get (by decide)

def returned : Session := (ending.foldlM (Session.next wavSetup) quitted).get (by decide)

/-- No thread can move when the other threads have ended and the main thread cannot move. -/
theorem stuck_of_ended (hrx : s.threads.rx = .returned) (hdec : s.threads.dec = .returned)
    (hplayer : s.threads.player = .ended) (hend : s.playerEnd = .returned)
    (hinput : s.input = .ended) (hstats : s.stats = .ended)
    (hmain : ∀ timeout, s.mainTurn setup timeout = none) : Stuck setup s := by
  intro t ht
  cases t with
  | outside a => exact absurd ht Bool.false_ne_true
  | rx d => simp [Session.next, hrx]
  | dec out => simp [Session.next, hdec]
  | player => simp [Session.next, Session.playerTurn, hplayer, hend]
  | input key => simp [Session.next, Session.inputTurn, hinput]
  | stats => simp [Session.next, Session.statsTurn, hstats]
  | main timeout => exact hmain timeout

theorem session_ends_quit : quitted.waits .player = .woken ∧ ending.countP Turn.own ≤ 41 ∧
    returned.portsBack ≤ 1 ∧
      returned.main = .returned ∧ returned.cleaned = true ∧ returned.portsBack = 1 := by
  have run : Run (Guarded Heard (Session.Step wavSetup)) (.start wavSetup) quit quitted :=
    (run_of_foldlM (Option.some_get _).symm).mono fun s t u h => by
      rw [Session.nextHeard] at h
      split_ifs at h with hheard
      exact ⟨hheard, h⟩
  have later : Run (Session.Step wavSetup) quitted ending returned :=
    run_of_foldlM (Option.some_get _).symm
  have hstuck : Stuck wavSetup returned := by apply stuck_of_ended <;> decide
  obtain ⟨hmoves, hports, hreturned⟩ := session_ends run (by decide) later
  exact ⟨by decide, hmoves, hports, hreturned hstuck⟩

/-- The server ends the stream, and the key `s` is pressed as the main thread has looked at
`terminating` and does not wait yet. -/
def lostSignal : List Turn :=
  List.replicate 8 (.rx ⟨0, [], rfl⟩) ++ List.replicate 3 (.main false) ++
    [.input .other, .input .other, .input .s] ++ List.replicate 25 (.input .other) ++
    List.replicate 5 .player ++ [.main false]

def hung : Session := (lostSignal.foldlM (Session.next wavSetup) (.start wavSetup)).get (by decide)

/-- With a signal that is lost the client hangs. -/
theorem lost_signal_hangs : Run (Session.Step wavSetup) (.start wavSetup) lostSignal hung ∧
    hung.input = .ended ∧ Stuck wavSetup hung ∧ hung.main = .asleep := by
  refine ⟨run_of_foldlM (Option.some_get _).symm, by decide, ?_, by decide⟩
  apply stuck_of_ended <;> decide

end EmotionStreamer.Client
