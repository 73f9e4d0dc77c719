import EmotionStreamer.ClientSession
import EmotionStreamer.Runs

/-! The last `stop_client_stream` of a session, with which the input thread ends. When no thread is
between its look at the flags and its wait as it is signalled, what it has set stays set, and every
thread that it has signalled goes on. -/
namespace EmotionStreamer.Client
open Wakeups Runs

/-- Neither a signal nor the write of `decoding` comes between a look at the flags and the wait. -/
def Heeded (s : Session) : Act → Prop
  | .setDecoding => s.place .decoder ≠ .looked
  | .signal c => ¬Deaf (s.place c) (s.waits c)
  | _ => True

/-- The next act of the last `stop_client_stream` of the input thread. -/
def Session.lastAct (s : Session) : Option Act :=
  match s.input with
  | .stop n true => stopClientStream[n]?
  | _ => none

/-- The last `stop_client_stream` of the input thread is heeded. -/
def Heard (s : Session) : Turn → Prop
  | .input _ => ∀ a ∈ s.lastAct, Heeded s a
  | _ => True

instance (s : Session) : (a : Act) → Decidable (Heeded s a)
  | .setDecoding => inferInstanceAs (Decidable (_ ≠ _))
  | .signal _ => inferInstanceAs (Decidable (¬_))
  | .clearInnited | .clearReading | .clearPaused | .clearAlive | .setTerminating => isTrue trivial

instance (s : Session) : (t : Turn) → Decidable (Heard s t)
  | .input _ => inferInstanceAs (Decidable (∀ a ∈ _, _))
  | .rx _ | .dec _ | .player | .stats | .main _ | .outside _ => isTrue trivial

/-- When `stop_client_stream` signals. -/
def Cond.signalled : Cond → ℕ
  | .running => 4
  | .player => 5
  | .decoder => 6
  | .reading => 7
  | .input => 8
  | .stats => 9

/-- How far the last `stop_client_stream` has come. -/
def InputPc.last : InputPc → Option ℕ
  | .stop n true => some n
  | .ended => some stopClientStream.length
  | _ => none

/-- What holds once the last `stop_client_stream` has come `n` acts far. -/
structure LastStop (s : Session) (n : ℕ) : Prop where
  terminating : s.terminating = true
  innited : 0 < n → s.threads.innited = false
  decoding : 3 < n → s.threads.decoding = true ∧ s.place .decoder ≠ .looked
  roused : ∀ c : Cond, c.signalled < n → Roused (s.place c) (s.waits c)

/-- The bound on the steps that a thread still takes once `innited` has been cleared. -/
def rxWork : RxPc → ℕ
  | .returned => 0
  | .outer => 1
  | .waitInnited => 2
  | .inner | .asleep => 3
  | .reading | .lookFull | .park => 4
  | .go | .setResult _ | .waitLook => 5
  | .init _ | .insert _ | .waitPaused => 6
  | .read => 7
  | .pausedTest => 8

def decWork : DecPc → ℕ
  | .returned => 0
  | .outer => 1
  | .startInnited | .waitInnited => 2
  | .startGo | .inner | .invalidTest | .asleep => 3
  | .startAsleep | .setDecoding | .lookEmpty | .park => 4
  | .pausedTest | .waitEmpty => 5
  | .test _ | .waitFull => 6
  | .lookFull _ | .waitPaused => 7
  | .insert _ => 8
  | .decode => 9
  | .dequeue => 10

def playerWork : PlayerPc → ℕ
  | .ended => 0
  | .outer => 1
  | .startInnited | .waitInnited => 2
  | .startTest | .inner | .invalidTest | .asleep => 3
  | .startAsleep | .play | .park => 4
  | .lookEmpty | .waitLook => 5
  | .dequeue | .waitPaused => 6
  | .pausedTest => 7
  | .firstTest => 8

def PlayerEnd.work : PlayerEnd → ℕ
  | .returned => 0
  | .setTerminating => 1
  | .clearAlive => 2

def StatsPc.work : StatsPc → ℕ
  | .ended => 0
  | .outer => 1
  | .frame | .startInnited => 2
  | .startShowing => 3
  | .startAsleep => 4

def MainPc.work : MainPc → ℕ
  | .returned => 0
  | .exiting => 1
  | .clean => 2
  | .joinPlayer => 3
  | .joinDec => 4
  | .joinInput => 5
  | .joinStats => 6
  | .terminating => 7
  | .innited => 8
  | .rx | .asleep => 9

variable {cfg : Config} {setup : Setup} {s u go : Session} {st : State} {n : ℕ} {c : Cond}

theorem rxStep_others (cfg : Config) (st : State) (d : Delivery) :
    (rxStep cfg st d).innited = st.innited ∧ (rxStep cfg st d).decoding = st.decoding ∧
      (rxStep cfg st d).dec = st.dec ∧ (rxStep cfg st d).player = st.player := by
  cases hpc : st.rx with
  | insert r => cases hmode : cfg.mode <;> simp [rxStep, rxInsert, insertPlayer, hpc, hmode]
  | _ => simp [rxStep, hpc]

theorem decStep_others (cfg : Config) (st : State) (out : DecodeOut) :
    (decStep cfg st out).innited = st.innited ∧ (decStep cfg st out).rx = st.rx ∧
      (decStep cfg st out).player = st.player ∧
      (decPlace st.dec ≠ .looked → st.decoding = true → (decStep cfg st out).decoding = true) := by
  cases hpc : st.dec <;> simp [decStep, decDequeue, decDecode, insertPlayer, decPlace, hpc]

theorem playerStep_others (cfg : Config) (st : State) :
    (playerStep cfg st).innited = st.innited ∧ (playerStep cfg st).decoding = st.decoding ∧
      (playerStep cfg st).dec = st.dec ∧ (playerStep cfg st).rx = st.rx := by
  cases hpc : st.player with
  | startTest => cases hmode : cfg.mode <;> simp [playerStep, hpc, hmode]
  | play =>
    simp only [playerStep, hpc, safePlayWrapper, playChunk]
    split_ifs <;> simp
  | _ => simp [playerStep, playerDequeue, hpc]

/-- With `innited` cleared, a thread that does not wait already is not going to. -/
theorem rxStep_free (hi : st.innited = false) (hp : rxPlace st.rx ≠ .looked) (d : Delivery) :
    rxPlace (rxStep cfg st d).rx = .free := by
  cases hpc : st.rx with
  | insert r => cases hmode : cfg.mode <;> simp [rxStep, rxInsert, insertPlayer, hpc, hmode, rxPlace]
  | _ => simp_all [rxStep, rxPlace] <;> split_ifs <;> rfl

theorem decStep_free (hi : st.innited = false) (hp : decPlace st.dec ≠ .looked) (out : DecodeOut) :
    decPlace (decStep cfg st out).dec = .free := by
  cases hpc : st.dec <;> simp_all [decStep, decPlace] <;> split_ifs <;> rfl

theorem playerStep_free (hi : st.innited = false) (hd : st.decoding = true)
    (hp : playerPlace st.player ≠ .looked) : playerPlace (playerStep cfg st).player = .free := by
  cases hpc : st.player with
  | startTest =>
    cases hmode : cfg.mode <;> simp [playerStep, hpc, hmode, hd, playerPlace]
    split_ifs <;> rfl
  | _ => simp_all [playerStep, playerPlace] <;> split_ifs <;> rfl

theorem rxStep_work (hi : st.innited = false) (hpc : st.rx ≠ .returned) (d : Delivery) :
    rxWork (rxStep cfg st d).rx < rxWork st.rx := by
  cases h : st.rx with
  | returned => exact absurd h hpc
  | _ => simp [rxStep, h, hi, rxWork] <;> split_ifs <;> simp

theorem decStep_work (hi : st.innited = false) (hpc : st.dec ≠ .returned) (out : DecodeOut) :
    decWork (decStep cfg st out).dec < decWork st.dec := by
  cases h : st.dec with
  | returned => exact absurd h hpc
  | _ => simp [decStep, h, hi, decWork] <;> split_ifs <;> simp

theorem playerStep_work (hi : st.innited = false) (hd : st.decoding = true)
    (hpc : st.player ≠ .ended) : playerWork (playerStep cfg st).player < playerWork st.player := by
  cases h : st.player with
  | ended => exact absurd h hpc
  | startTest =>
    cases hmode : cfg.mode <;> simp [playerStep, h, hmode, hd, playerWork]
    split_ifs <;> simp
  | _ => simp [playerStep, h, hi, playerWork] <;> split_ifs <;> simp

theorem stopClientStream_signalled (c : Cond) :
    stopClientStream[c.signalled]? = some (.signal c) := by
  cases c <;> rfl

theorem Cond.three_lt (h : c.signalled < n) : 3 < n := by
  cases c <;> simp only [signalled] at h <;> omega

/-- What a turn of each thread can do. -/
theorem playerTurn_cases (hu : s.playerTurn cfg = some u) :
    (s.threads.player ≠ .ended ∧ s.through .player { s with
      threads := playerStep cfg s.threads
      showing := s.showing || s.threads.player = .dequeue
      waits := signals s.waits (playerSignals cfg s.threads) } = some u) ∨
    ∃ alive terminating e, u = { s with inputThreadAlive := alive, terminating, playerEnd := e } ∧
      (s.terminating = true → terminating = true) ∧ e.work < s.playerEnd.work := by
  rw [Session.playerTurn] at hu
  split_ifs at hu with hended
  · refine .inr ?_
    cases hend : s.playerEnd with
    | clearAlive =>
      rw [hend] at hu
      cases hu
      exact ⟨_, _, _, rfl, id, by decide⟩
    | setTerminating =>
      rw [hend] at hu
      cases hu
      exact ⟨_, _, _, rfl, fun _ => rfl, by decide⟩
    | returned =>
      rw [hend] at hu
      cases hu
  · exact .inl ⟨hended, hu⟩

theorem statsTurn_cases (hu : s.statsTurn = some u) :
    (s.stats = .startAsleep ∧ s.through .stats { s with stats := .startShowing } = some u) ∨
    ∃ x : StatsPc, u = { s with stats := x } ∧
      (s.threads.innited = false → x.place = .free ∧ x.work < s.stats.work) := by
  cases hpc : s.stats with
  | ended => simp [Session.statsTurn, hpc] at hu
  | startAsleep =>
    simp only [Session.statsTurn, hpc] at hu
    exact .inl ⟨rfl, hu⟩
  | _ =>
    simp only [Session.statsTurn, hpc] at hu
    cases hu
    refine .inr ⟨_, rfl, fun hinnited => ?_⟩
    first | decide | (rw [hinnited]; decide) | (split_ifs <;> decide)

theorem mainTurn_cases {timeout : Bool} (hu : s.mainTurn setup timeout = some u) :
    (s.main = .asleep ∧ s.through .running { s with main := .innited } = some u) ∨
    (∃ x : MainPc, u = { s with main := x } ∧ s.main ≠ .returned ∧ x ≠ .exiting ∧ x ≠ .returned ∧
      (s.terminating = true → x.place = .free ∧
        (s.threads.innited = false → x.work < s.main.work))) ∨
    (s.main = .clean ∧ u = { s with cleaned := true, main := .exiting }) ∨
    (s.main = .exiting ∧ s.exiting = false ∧ setup.isOn = true ∧
      u = { s with portsBack := s.portsBack + 1, exiting := true, main := .returned }) ∨
    (s.main = .exiting ∧ ¬(s.exiting = false ∧ setup.isOn = true) ∧
      u = { s with main := .returned }) := by
  cases hpc : s.main with
  | asleep =>
    simp only [Session.mainTurn, hpc] at hu
    exact .inl ⟨rfl, hu⟩
  | clean =>
    simp only [Session.mainTurn, hpc] at hu
    exact .inr (.inr (.inl ⟨rfl, (Option.some.inj hu).symm⟩))
  | exiting =>
    simp only [Session.mainTurn, hpc] at hu
    split_ifs at hu with hon
    · exact .inr (.inr (.inr (.inl ⟨rfl, hon.1, hon.2, (Option.some.inj hu).symm⟩)))
    · exact .inr (.inr (.inr (.inr ⟨rfl, hon, (Option.some.inj hu).symm⟩)))
  | returned => simp [Session.mainTurn, hpc] at hu
  | _ =>
    simp only [Session.mainTurn, hpc] at hu
    (try split_ifs at hu) <;> cases hu <;>
      exact .inr (.inl ⟨_, rfl, by decide, by decide, by decide, by simp_all [MainPc.place, MainPc.work]⟩)

theorem inputTurn_cases {key : Key} (hu : s.inputTurn cfg key = some u) :
    (∃ n a last, s.input = .stop n last ∧ stopClientStream[n]? = some a ∧
      u = { s.act a with input := .stop (n + 1) last }) ∨
    (∃ n last, s.input = .stop n last ∧ stopClientStream.length ≤ n ∧
      u = { s with input := if last then .ended else .alive }) ∨
    (s.input = .terminate ∧ u = { s with terminating := true, input := .stop 0 true }) ∨
    (s.input = .startAsleep ∧ s.through .input { s with input := .startTest } = some u) ∨
    ∃ x threads alive waits,
      u = { s with threads, inputThreadAlive := alive, input := x, waits } ∧ x.last = none := by
  cases hpc : s.input with
  | stop n last =>
    cases ha : stopClientStream[n]? with
    | some a =>
      simp only [Session.inputTurn, hpc, ha] at hu
      exact .inl ⟨n, a, last, rfl, ha, (Option.some.inj hu).symm⟩
    | none =>
      simp only [Session.inputTurn, hpc, ha] at hu
      exact .inr (.inl ⟨n, last, rfl, List.getElem?_eq_none_iff.mp ha, (Option.some.inj hu).symm⟩)
  | terminate =>
    simp only [Session.inputTurn, hpc] at hu
    exact .inr (.inr (.inl ⟨rfl, (Option.some.inj hu).symm⟩))
  | startAsleep =>
    simp only [Session.inputTurn, hpc] at hu
    exact .inr (.inr (.inr (.inl ⟨rfl, hu⟩)))
  | ended => simp [Session.inputTurn, hpc] at hu
  | startTest =>
    cases hmode : cfg.mode <;> simp only [Session.inputTurn, hpc, hmode] at hu <;> cases hu <;>
      exact .inr (.inr (.inr (.inr ⟨_, _, _, _, rfl, by split_ifs <;> rfl⟩)))
  | getsome =>
    cases key <;> simp only [Session.inputTurn, hpc] at hu <;> cases hu <;>
      exact .inr (.inr (.inr (.inr ⟨_, _, _, _, rfl, rfl⟩)))
  | _ =>
    simp only [Session.inputTurn, hpc] at hu
    cases hu
    exact .inr (.inr (.inr (.inr ⟨_, _, _, _, rfl, by first | rfl | split_ifs <;> rfl⟩)))

/-- What the thread of `c` leaves alone as it goes on, and that it is not going to wait once
`decoding` has been set. -/
structure Goes (c : Cond) (n : ℕ) (s u : Session) : Prop where
  places : ∀ d, d ≠ c → u.place d = s.place d
  waits : ∀ d, d ≠ c → ∀ p, Roused p (s.waits d) → Roused p (u.waits d)
  terminating : s.terminating = true → u.terminating = true
  innited : u.threads.innited = s.threads.innited
  decoding : s.place .decoder ≠ .looked → s.threads.decoding = true → u.threads.decoding = true
  free : 3 < n → s.place c ≠ .looked → u.place c = .free

theorem LastStop.goes (h : LastStop s n) (hgo : Goes c n s u) : LastStop u n where
  terminating := hgo.terminating h.terminating
  innited h0 := hgo.innited.trans (h.innited h0)
  decoding h3 := by
    obtain ⟨hdecoding, hplace⟩ := h.decoding h3
    refine ⟨hgo.decoding hplace hdecoding, ?_⟩
    by_cases hc : Cond.decoder = c
    · subst hc
      rw [hgo.free h3 hplace]
      decide
    · rwa [hgo.places _ hc]
  roused d hd := by
    by_cases hc : d = c
    · subst hc
      exact .of_free (hgo.free (Cond.three_lt hd) (h.roused d hd).1) _
    · rw [hgo.places d hc]
      exact hgo.waits d hc _ (h.roused d hd)

theorem LastStop.through (h : LastStop s n) (hgo : Goes c n s go)
    (hu : s.through c go = some u) : LastStop u n := by
  obtain ⟨-, rfl⟩ | ⟨-, -, rfl⟩ | ⟨hasleep, hout, rfl⟩ := through_cases hu
  · exact h.goes hgo
  · refine h.goes { hgo with
      places := fun d hd => (place_waits ..).trans (hgo.places d hd)
      waits := fun d hd p hr => by simpa only [Function.update_of_ne hd] using hr
      free := fun h3 hp => (place_waits ..).trans (hgo.free h3 hp) }
  · -- it only begins to wait, so its signal is still to come
    have hearly : ¬c.signalled < n := fun hc => (h.roused c hc).not_deaf (.inr ⟨hasleep, hout⟩)
    refine { h with roused := fun d hd => ?_ }
    have hne : d ≠ c := fun he => hearly (he ▸ hd)
    simpa only [place_waits, Function.update_of_ne hne] using h.roused d hd

theorem LastStop.mono {m : ℕ} (h : LastStop s n) (hm : m ≤ n) : LastStop s m where
  terminating := h.terminating
  innited h0 := h.innited (h0.trans_le hm)
  decoding h3 := h.decoding (h3.trans_le hm)
  roused c hc := h.roused c (hc.trans_le hm)

theorem LastStop.act (h : LastStop s n) (a : Act) : LastStop (s.act a) n where
  terminating := by cases a <;> first | rfl | exact h.terminating
  innited h0 := by cases a <;> first | rfl | exact h.innited h0
  decoding h3 := by
    rw [act_place]
    exact ⟨by cases a <;> first | rfl | exact (h.decoding h3).1, (h.decoding h3).2⟩
  roused c hc := by
    rw [act_place]
    cases a with
    | signal d => exact (h.roused c hc).signal_any d
    | _ => exact h.roused c hc

/-- The next act of the last `stop_client_stream`. -/
theorem LastStop.next_act {a : Act} (h : LastStop s n) (ha : stopClientStream[n]? = some a)
    (hheed : Heeded s a) : LastStop (s.act a) (n + 1) where
  terminating := (h.act a).terminating
  innited _ := by
    cases n with
    | zero =>
      cases Option.some.inj ha
      rfl
    | succ n => exact (h.act a).innited n.succ_pos
  decoding h3 := by
    by_cases hn : n = 3
    · subst hn
      cases Option.some.inj ha
      exact ⟨rfl, hheed⟩
    · exact (h.act a).decoding (by omega)
  roused c hc := by
    by_cases hn : c.signalled = n
    · subst hn
      cases Option.some.inj (ha.symm.trans (stopClientStream_signalled c))
      rw [act_place]
      change Roused _ (Wakeups.signal s.waits c c)
      rw [signal_self]
      exact roused_signal hheed
    · exact (h.act a).roused c (by omega)

theorem LastStop.rxGoes (h : LastStop s n) (d : Delivery) :
    Goes .reading n s { s with
      threads := rxStep cfg s.threads d
      waits := signals s.waits (rxSignals cfg s.threads) } := by
  obtain ⟨hinnited, hdecoding, hdec, hplayer⟩ := rxStep_others cfg s.threads d
  refine ⟨fun c hc => ?_, fun _ _ _ hr => hr.signals _, id, hinnited, fun _ => hdecoding.trans,
    fun h3 hp => rxStep_free (h.innited (by omega)) hp d⟩
  cases c with
  | reading => exact absurd rfl hc
  | player => exact congrArg playerPlace hplayer
  | decoder => exact congrArg decPlace hdec
  | _ => rfl

theorem LastStop.decGoes (h : LastStop s n) (out : DecodeOut) :
    Goes .decoder n s { s with
      threads := decStep cfg s.threads out
      waits := signals s.waits (decSignals s.threads) } := by
  obtain ⟨hinnited, hrx, hplayer, hdecoding⟩ := decStep_others cfg s.threads out
  refine ⟨fun c hc => ?_, fun _ _ _ hr => hr.signals _, id, hinnited, hdecoding,
    fun h3 hp => decStep_free (h.innited (by omega)) hp out⟩
  cases c with
  | decoder => exact absurd rfl hc
  | player => exact congrArg playerPlace hplayer
  | reading => exact congrArg rxPlace hrx
  | _ => rfl

theorem LastStop.playerGoes (h : LastStop s n) (showing : Bool) :
    Goes .player n s { s with
      threads := playerStep cfg s.threads
      showing
      waits := signals s.waits (playerSignals cfg s.threads) } := by
  obtain ⟨hinnited, hdecoding, hdec, hrx⟩ := playerStep_others cfg s.threads
  refine ⟨fun c hc => ?_, fun _ _ _ hr => hr.signals _, id, hinnited, fun _ => hdecoding.trans,
    fun h3 hp => playerStep_free (h.innited (by omega)) (h.decoding h3).1 hp⟩
  cases c with
  | player => exact absurd rfl hc
  | decoder => exact congrArg decPlace hdec
  | reading => exact congrArg rxPlace hrx
  | _ => rfl

theorem goes_input {x : InputPc} (hx : x.place = .free) : Goes .input n s { s with input := x } where
  places d hd := by cases d <;> first | rfl | exact absurd rfl hd
  waits _ _ _ := id
  terminating := id
  innited := rfl
  decoding _ := id
  free _ _ := hx

theorem goes_stats {x : StatsPc} (hx : 3 < n → x.place = .free) :
    Goes .stats n s { s with stats := x } where
  places d hd := by cases d <;> first | rfl | exact absurd rfl hd
  waits _ _ _ := id
  terminating := id
  innited := rfl
  decoding _ := id
  free h3 _ := hx h3

theorem goes_main {x : MainPc} (hx : x.place = .free) (cleaned exiting : Bool) (portsBack : ℕ) :
    Goes .running n s { s with main := x, cleaned, exiting, portsBack } where
  places d hd := by cases d <;> first | rfl | exact absurd rfl hd
  waits _ _ _ := id
  terminating := id
  innited := rfl
  decoding _ := id
  free _ _ := hx

theorem LastStop.playerTurn (h : LastStop s n) (hu : s.playerTurn cfg = some u) : LastStop u n := by
  obtain ⟨-, hu⟩ | ⟨alive, terminating, e, rfl, hterminating, -⟩ := playerTurn_cases hu
  · exact h.through (h.playerGoes _) hu
  · exact { h with terminating := hterminating h.terminating }

theorem LastStop.statsTurn (h : LastStop s n) (hu : s.statsTurn = some u) : LastStop u n := by
  obtain ⟨-, hu⟩ | ⟨x, rfl, hx⟩ := statsTurn_cases hu
  · exact h.through (goes_stats fun _ => rfl) hu
  · exact h.goes (goes_stats fun h3 => (hx (h.innited (by omega))).1)

theorem LastStop.mainTurn (h : LastStop s n) {timeout : Bool}
    (hu : s.mainTurn setup timeout = some u) : LastStop u n := by
  obtain ⟨-, hu⟩ | ⟨x, rfl, -, -, -, hx⟩ | ⟨-, rfl⟩ | ⟨-, -, -, rfl⟩ | ⟨-, -, rfl⟩ := mainTurn_cases hu
  · exact h.through (goes_main rfl _ _ _) hu
  · exact h.goes (goes_main (hx h.terminating).1 _ _ _)
  all_goals exact h.goes (goes_main rfl _ _ _)

theorem playerTurn_input (hu : s.playerTurn cfg = some u) : u.input = s.input := by
  obtain ⟨-, hu⟩ | ⟨_, _, _, rfl, -, -⟩ := playerTurn_cases hu
  · exact through_eq Session.input hu rfl fun _ _ => rfl
  · rfl

theorem statsTurn_input (hu : s.statsTurn = some u) : u.input = s.input := by
  obtain ⟨-, hu⟩ | ⟨_, rfl, -⟩ := statsTurn_cases hu
  · exact through_eq Session.input hu rfl fun _ _ => rfl
  · rfl

theorem mainTurn_input {timeout : Bool} (hu : s.mainTurn setup timeout = some u) :
    u.input = s.input := by
  obtain ⟨-, hu⟩ | ⟨_, rfl, -⟩ | ⟨-, rfl⟩ | ⟨-, -, -, rfl⟩ | ⟨-, -, rfl⟩ := mainTurn_cases hu
  · exact through_eq Session.input hu rfl fun _ _ => rfl
  all_goals rfl

/-- Only the input thread moves itself. -/
theorem next_input {t : Turn} (hinput : ∀ key, t ≠ .input key) (hu : s.Step setup t u) :
    u.input = s.input := by
  cases t with
  | rx d => exact through_eq Session.input (rx_turn hu).2 rfl fun _ _ => rfl
  | dec out => exact through_eq Session.input (dec_turn hu).2 rfl fun _ _ => rfl
  | player => exact playerTurn_input hu
  | stats => exact statsTurn_input hu
  | main timeout => exact mainTurn_input hu
  | input key => exact absurd rfl (hinput key)
  | outside a =>
    cases hu
    cases a <;> rfl

/-- The turns of the other threads. -/
theorem LastStop.next {t : Turn} (h : LastStop s n) (hinput : ∀ key, t ≠ .input key)
    (hu : s.Step setup t u) : LastStop u n := by
  cases t with
  | rx d => exact h.through (h.rxGoes d) (rx_turn hu).2
  | dec out => exact h.through (h.decGoes out) (dec_turn hu).2
  | player => exact h.playerTurn hu
  | stats => exact h.statsTurn hu
  | main timeout => exact h.mainTurn hu
  | input key => exact absurd rfl (hinput key)
  | outside a =>
    cases hu
    exact h.act a

theorem LastStop.inputTurn (h : ∀ n ∈ s.input.last, LastStop s n) {key : Key}
    (hheard : Heard s (.input key)) (hu : s.inputTurn cfg key = some u) :
    ∀ n ∈ u.input.last, LastStop u n := by
  obtain ⟨n, a, last, hpc, ha, rfl⟩ | ⟨n, last, hpc, hn, rfl⟩ | ⟨-, rfl⟩ | ⟨hpc, hu⟩ |
    ⟨x, _, _, _, rfl, hx⟩ := inputTurn_cases hu
  · cases last with
    | true =>
      have hlast : s.lastAct = some a := by simp only [Session.lastAct, hpc, ha]
      have hstop : LastStop s n := h n (by rw [hpc]; rfl)
      intro m hm
      cases Option.some.inj hm
      exact (hstop.next_act ha (hheard a hlast)).goes (goes_input rfl)
    | false => exact fun m hm => absurd hm (by simp [InputPc.last])
  · cases last with
    | true =>
      have hstop : LastStop s n := h n (by rw [hpc]; rfl)
      intro m hm
      cases Option.some.inj hm
      exact (hstop.mono hn).goes (goes_input rfl)
    | false => exact fun m hm => absurd hm (by simp [InputPc.last])
  · intro m hm
    cases Option.some.inj hm
    exact ⟨rfl, fun h0 => absurd h0 (by decide), fun h3 => absurd h3 (by decide),
      fun c hc => absurd hc (Nat.not_lt_zero _)⟩
  · have hlast : u.input.last = none := by
      obtain ⟨-, rfl⟩ | ⟨-, -, rfl⟩ | ⟨-, -, rfl⟩ := through_cases hu
      · rfl
      · rfl
      · exact congrArg InputPc.last hpc
    exact fun m hm => absurd (hlast ▸ hm) (by simp)
  · exact fun m hm => absurd (hx ▸ hm) (by simp)

/-- What the last `stop_client_stream` has done so far stays done. -/
theorem next_last {t : Turn} (h : ∀ n ∈ s.input.last, LastStop s n) (hheard : Heard s t)
    (hu : s.Step setup t u) : ∀ n ∈ u.input.last, LastStop u n := by
  by_cases hinput : ∃ key, t = .input key
  · obtain ⟨key, rfl⟩ := hinput
    exact LastStop.inputTurn h hheard hu
  · have hother := not_exists.mp hinput
    intro n hn
    rw [next_input hother hu] at hn
    exact (h n hn).next hother hu

theorem run_last {ts : List Turn}
    (run : Run (Guarded Heard (Session.Step setup)) (.start setup) ts s) :
    ∀ n ∈ s.input.last, LastStop s n :=
  run.invariant (fun s => ∀ n ∈ s.input.last, LastStop s n)
    (fun _ hn => absurd hn (by simp [Session.start, InputPc.last]))
    fun _ _ _ h step => next_last h step.1 step.2

end EmotionStreamer.Client
