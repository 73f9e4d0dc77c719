import EmotionStreamer.ClientThreads
import EmotionStreamer.Wakeups

/-! A whole session of the client: with the rx, decoder and player threads the ones for the input
and for the statistics, and the main thread, which waits for the others and cleans up. A thread that
waits on its condition moves only when it has been signalled. -/
namespace EmotionStreamer.Client
open Wakeups

/-- The conditions, each with the thread that waits on it. -/
inductive Cond
  | running | player | decoder | reading | input | stats
  deriving DecidableEq, Repr

structure Setup where
  cfg : Config
  streamShowStats : Bool
  /-- `join_client_thread_with_timeout` in place of `join_client_thread` -/
  timed : Bool
  /-- `is_on` of the connection, which no thread of the session changes before the end -/
  isOn : Bool

inductive InputPc
  | startTest | startInnited | startAsleep
  | alive | getsome | pauseRead | pauseSignal (pauseValue : Bool) | pauseWrite (pauseValue : Bool)
  | quit | terminate | stop (n : ℕ) (last : Bool) | ended
  deriving DecidableEq, Repr

inductive StatsPc
  | startShowing | startInnited | startAsleep | outer | frame | ended
  deriving DecidableEq, Repr

/-- `init_client_stream` from the call of `rx_thread_func` on. -/
inductive MainPc
  | rx | innited | terminating | asleep
  | joinStats | joinInput | joinDec | joinPlayer | clean | exiting | returned
  deriving DecidableEq, Repr

/-- What the player does once it has left its loop. -/
inductive PlayerEnd
  | clearAlive | setTerminating | returned
  deriving DecidableEq, Repr

structure Session where
  threads : State
  showing : Bool
  inputThreadAlive : Bool
  terminating : Bool
  exiting : Bool
  cleaned : Bool
  /-- the calls of `send_port_back` with `close_con` -/
  portsBack : ℕ
  playerEnd : PlayerEnd
  input : InputPc
  stats : StatsPc
  main : MainPc
  waits : Cond → Wait

def Session.start (setup : Setup) : Session where
  threads := .start setup.cfg
  showing := false
  inputThreadAlive := true
  terminating := false
  exiting := false
  cleaned := false
  portsBack := 0
  playerEnd := .clearAlive
  input := .startTest
  stats := if setup.streamShowStats then .startShowing else .ended
  main := .rx
  waits _ := .out

/-- One write or one signal. The flag `playing` is only shown. -/
inductive Act
  | clearInnited | clearReading | clearPaused | setDecoding | clearAlive | setTerminating
  | signal (c : Cond)
  deriving DecidableEq, Repr

def Session.act (s : Session) : Act → Session
  | .clearInnited => { s with threads := inputStep s.threads .stop }
  | .clearReading => { s with threads := inputStep s.threads .clearReading }
  | .clearPaused => { s with threads := inputStep s.threads (.pause false) }
  | .setDecoding => { s with threads := inputStep s.threads .setDecoding }
  | .clearAlive => { s with inputThreadAlive := false }
  | .setTerminating => { s with terminating := true }
  | .signal c => { s with waits := signal s.waits c }

def stopClientStream : List Act :=
  [.clearInnited, .clearReading, .clearPaused, .setDecoding, .signal .running, .signal .player,
    .signal .decoder, .signal .reading, .signal .input, .signal .stats]

def rxPlace : RxPc → Place
  | .waitPaused | .waitLook | .park => .looked
  | .asleep => .asleep
  | _ => .free

def decPlace : DecPc → Place
  | .waitPaused | .waitFull | .waitEmpty | .park => .looked
  | .startAsleep | .asleep => .asleep
  | _ => .free

def playerPlace : PlayerPc → Place
  | .waitPaused | .waitLook | .park => .looked
  | .startAsleep | .asleep => .asleep
  | _ => .free

def InputPc.place : InputPc → Place
  | .startAsleep => .asleep
  | _ => .free

def StatsPc.place : StatsPc → Place
  | .startAsleep => .asleep
  | _ => .free

def MainPc.place : MainPc → Place
  | .asleep => .asleep
  | _ => .free

/-- Where the thread is that waits on a condition. -/
def Session.place (s : Session) : Cond → Place
  | .running => s.main.place
  | .player => playerPlace s.threads.player
  | .decoder => decPlace s.threads.dec
  | .reading => rxPlace s.threads.rx
  | .input => s.input.place
  | .stats => s.stats.place

/-- The signals that the rx thread sends with its next step. -/
def rxSignals (cfg : Config) (s : State) : List Cond :=
  match s.rx with
  | .reading => match cfg.mode with | .wav => [] | .mp3 => [.decoder]
  | .setResult r =>
    if readResultInvalid r then []
    else match cfg.mode with
      | .wav => if s.bufs.first then [.input] else [.player, .input]
      | .mp3 => [.decoder, .input]
  | .lookFull => match cfg.mode with
    | .wav => []
    | .mp3 => if rxQueueFull cfg s then [.decoder] else []
  | _ => []

def decSignals (s : State) : List Cond :=
  match s.dec with
  | .insert _ => [.player]
  | .test _ => [.reading]
  | _ => []

def playerSignals (cfg : Config) (s : State) : List Cond :=
  match s.player with
  | .dequeue => match cfg.mode with | .wav => [.stats, .reading] | .mp3 => [.stats, .decoder]
  | _ => []

/-- A key, or the end of the wait for one. -/
inductive Key
  | p | s | other
  deriving DecidableEq, Repr

inductive Turn
  | rx (d : Delivery)
  | dec (out : DecodeOut)
  | player
  | input (key : Key)
  | stats
  | main (timeout : Bool)
  /-- what a signal handler, another module or a spurious wakeup does -/
  | outside (a : Act)

/-- A thread at its wait begins to wait, waits, or goes on. -/
def Session.through (s : Session) (c : Cond) (go : Session) : Option Session :=
  if s.place c = .asleep then
    match s.waits c with
    | .out => some { s with waits := Function.update s.waits c .waiting }
    | .waiting => none
    | .woken => some { go with waits := Function.update s.waits c .out }
  else some go

def Session.playerTurn (cfg : Config) (s : Session) : Option Session :=
  if s.threads.player = .ended then
    match s.playerEnd with
    | .clearAlive => some { s with inputThreadAlive := false, playerEnd := .setTerminating }
    | .setTerminating => some { s with terminating := true, playerEnd := .returned }
    | .returned => none
  else
    s.through .player { s with
      threads := playerStep cfg s.threads
      showing := s.showing || s.threads.player = .dequeue
      waits := signals s.waits (playerSignals cfg s.threads) }

def Session.inputTurn (cfg : Config) (s : Session) (key : Key) : Option Session :=
  match s.input with
  | .startTest =>
    match cfg.mode with
    | .wav => some { s with input := if s.threads.reading then .alive else .startInnited }
    | .mp3 => some { s with input := if s.threads.decoding then .alive else .startAsleep }
  | .startInnited => some { s with input := if s.threads.innited then .startAsleep else .alive }
  | .startAsleep => s.through .input { s with input := .startTest }
  | .alive => some { s with input := if s.inputThreadAlive then .getsome else .terminate }
  | .getsome =>
    match key with
    | .p => some { s with input := .pauseRead }
    | .s => some { s with input := .quit }
    | .other => some { s with input := .alive }
  | .pauseRead => some { s with input := .pauseSignal s.threads.paused }
  | .pauseSignal pauseValue =>
    some { s with
      input := .pauseWrite pauseValue
      waits := if pauseValue then signals s.waits [.reading, .player] else s.waits }
  | .pauseWrite pauseValue =>
    some { s with threads := inputStep s.threads (.pause !pauseValue), input := .alive }
  | .quit => some { s with inputThreadAlive := false, input := .stop 0 false }
  | .terminate => some { s with terminating := true, input := .stop 0 true }
  | .stop n last =>
    match stopClientStream[n]? with
    | some a => some { s.act a with input := .stop (n + 1) last }
    | none => some { s with input := if last then .ended else .alive }
  | .ended => none

def Session.statsTurn (s : Session) : Option Session :=
  match s.stats with
  | .startShowing => some { s with stats := if s.showing then .outer else .startInnited }
  | .startInnited => some { s with stats := if s.threads.innited then .startAsleep else .outer }
  | .startAsleep => s.through .stats { s with stats := .startShowing }
  | .outer => some { s with stats := if s.threads.innited then .frame else .ended }
  | .frame => some { s with stats := .outer }
  | .ended => none

/-- Where the join of the player has run into its timeout the detached player may be in the middle of
a pass, with the queue that `Q_CLEAN` frees and the mutex that `P_CLEAN` takes. It is assumed that the
clean-up goes through all the same, and that the player's later turns find their queue. -/
def Session.mainTurn (setup : Setup) (s : Session) (timeout : Bool) : Option Session :=
  match s.main with
  | .rx => if s.threads.rx = .returned then some { s with main := .innited } else none
  | .innited => some { s with main := if s.threads.innited then .terminating else .joinStats }
  | .terminating => some { s with main := if s.terminating then .joinStats else .asleep }
  | .asleep => s.through .running { s with main := .innited }
  | .joinStats => if s.stats = .ended then some { s with main := .joinInput } else none
  | .joinInput => if s.input = .ended then some { s with main := .joinDec } else none
  | .joinDec => if s.threads.dec = .returned then some { s with main := .joinPlayer } else none
  | .joinPlayer =>
    if s.playerEnd = .returned ∨ setup.timed = true ∧ timeout = true then
      some { s with main := .clean }
    else none
  | .clean => some { s with cleaned := true, main := .exiting }
  | .exiting =>
    if s.exiting = false ∧ setup.isOn = true then
      some { s with portsBack := s.portsBack + 1, exiting := true, main := .returned }
    else some { s with main := .returned }
  | .returned => none

/-- A turn of a thread, or nothing when the thread cannot move. -/
def Session.next (setup : Setup) (s : Session) : Turn → Option Session
  | .rx d =>
    if s.threads.rx = .returned then none
    else s.through .reading { s with
      threads := rxStep setup.cfg s.threads d
      waits := signals s.waits (rxSignals setup.cfg s.threads) }
  | .dec out =>
    if s.threads.dec = .returned then none
    else s.through .decoder { s with
      threads := decStep setup.cfg s.threads out
      waits := signals s.waits (decSignals s.threads) }
  | .player => s.playerTurn setup.cfg
  | .input key => s.inputTurn setup.cfg key
  | .stats => s.statsTurn
  | .main timeout => s.mainTurn setup timeout
  | .outside a => some (s.act a)

def Session.Step (setup : Setup) (s : Session) (t : Turn) (u : Session) : Prop :=
  s.next setup t = some u

def Turn.own : Turn → Bool
  | .outside _ => false
  | _ => true

/-- No thread can move. -/
def Stuck (setup : Setup) (s : Session) : Prop := ∀ t : Turn, t.own = true → s.next setup t = none

variable {setup : Setup} {s u go : Session} {c : Cond} {d : Delivery} {out : DecodeOut}

@[simp] theorem place_waits (s : Session) (waits : Cond → Wait) (c : Cond) :
    ({ s with waits } : Session).place c = s.place c := by
  cases c <;> rfl

@[simp] theorem act_place (s : Session) (a : Act) (c : Cond) : (s.act a).place c = s.place c := by
  cases a <;> cases c <;> rfl

theorem through_cases (h : s.through c go = some u) :
    (s.place c ≠ .asleep ∧ u = go) ∨
    (s.place c = .asleep ∧ s.waits c = .woken ∧
      u = { go with waits := Function.update s.waits c .out }) ∨
    (s.place c = .asleep ∧ s.waits c = .out ∧
      u = { s with waits := Function.update s.waits c .waiting }) := by
  rw [Session.through] at h
  split_ifs at h with hasleep
  · cases hw : s.waits c with
    | out =>
      rw [hw] at h
      exact .inr (.inr ⟨hasleep, rfl, (Option.some.inj h).symm⟩)
    | waiting =>
      rw [hw] at h
      exact absurd h (by simp)
    | woken =>
      rw [hw] at h
      exact .inr (.inl ⟨hasleep, rfl, (Option.some.inj h).symm⟩)
  · exact .inl ⟨hasleep, (Option.some.inj h).symm⟩

/-- A thread that is roused goes on. -/
theorem through_of_roused (hr : Roused (s.place c) (s.waits c)) (h : s.through c go = some u) :
    ∃ waits, u = { go with waits } := by
  obtain ⟨-, rfl⟩ | ⟨-, -, rfl⟩ | ⟨hasleep, hout, -⟩ := through_cases h
  · exact ⟨u.waits, rfl⟩
  · exact ⟨_, rfl⟩
  · exact absurd (.inr ⟨hasleep, hout⟩) hr.not_deaf

theorem through_ne_none (hr : Roused (s.place c) (s.waits c)) : s.through c go ≠ none := by
  rw [Session.through]
  split_ifs with hasleep
  · rw [hr.2 hasleep]
    exact Option.some_ne_none _
  · exact Option.some_ne_none _

/-- A part of a session that the thread of `c` does not use. -/
theorem through_eq {α : Type*} (f : Session → α) (h : s.through c go = some u) (hgo : f go = f s)
    (hwaits : ∀ s waits, f { s with waits } = f s) : f u = f s := by
  obtain ⟨-, rfl⟩ | ⟨-, -, rfl⟩ | ⟨-, -, rfl⟩ := through_cases h
  · exact hgo
  · exact (hwaits go _).trans hgo
  · exact hwaits s _

theorem rx_turn (h : s.Step setup (.rx d) u) :
    s.threads.rx ≠ .returned ∧
      s.through .reading { s with
        threads := rxStep setup.cfg s.threads d
        waits := signals s.waits (rxSignals setup.cfg s.threads) } = some u := by
  rw [Session.Step, Session.next] at h
  split_ifs at h with hreturned
  exact ⟨hreturned, h⟩

theorem dec_turn (h : s.Step setup (.dec out) u) :
    s.threads.dec ≠ .returned ∧
      s.through .decoder { s with
        threads := decStep setup.cfg s.threads out
        waits := signals s.waits (decSignals s.threads) } = some u := by
  rw [Session.Step, Session.next] at h
  split_ifs at h with hreturned
  exact ⟨hreturned, h⟩

end EmotionStreamer.Client
