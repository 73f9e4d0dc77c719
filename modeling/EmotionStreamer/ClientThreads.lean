import EmotionStreamer.ClientReceive
import EmotionStreamer.ChunkQueue
import EmotionStreamer.Fifo

/-! The rx, decoder and player threads of the client as a transition system. A
step is one access to a shared variable, one `perform_queue_op`, or one read,
decoding or playing of a chunk; a thread that waits on a condition may wake at any
time. The queues are the bounded lists that the chunk queues refine. -/
namespace EmotionStreamer.Client
open Fifo ChunkQueue

/-- The fields of a `decoder_result_struct` that decide about playing. -/
structure DecoderResult where
  channels : ℤ
  hz : ℤ
  totalBytesInChunk : ℕ
  deriving DecidableEq, Repr

/-- An `mp3_processed_chunk`. In WAV mode only the data is in the queue, and the
player looks at a result that stays zero. -/
structure Processed where
  result : DecoderResult
  data : List UInt8
  deriving DecidableEq, Repr

def DecoderResult.zero : DecoderResult := ⟨0, 0, 0⟩

/-- The capacities are at least one, and the percentage is one. -/
structure Config where
  mode : Mode
  chunkSize : ChunkSize
  decoderCap : ℕ
  playerCap : ℕ
  pct : CachePct
  decoderCap_pos : 0 < decoderCap
  playerCap_pos : 0 < playerCap
  almostFull_le : pct.almostFull ≤ 100

/-- The results of `mpg123_decode` that `dec_thread_func` distinguishes. -/
inductive DecodeRet
  | needMore | ok | newFormat | done | err | other
  deriving DecidableEq, Repr

structure DecodeOut where
  ret : DecodeRet
  totalBytes : ℕ
  channels : ℤ
  hz : ℤ
  data : List UInt8
  deriving DecidableEq, Repr

/-- What `decode_chunk` leaves in `p_chunk`; the format is only read when there is
a new one or a decoded frame. -/
def decodeChunk (p : Processed) (out : DecodeOut) : Processed :=
  if out.ret = .ok ∨ out.ret = .newFormat then
    ⟨⟨out.channels, out.hz, out.totalBytes⟩, out.data⟩
  else ⟨{ p.result with totalBytesInChunk := out.totalBytes }, out.data⟩

def Processed.decoderState (p : Processed) : Bool := 0 < p.result.totalBytesInChunk

inductive RxPc
  | outer | go | reading | inner | pausedTest | read
  | init (r : ℤ) | insert (r : ℤ) | setResult (r : ℤ) | lookFull
  | waitInnited | waitPaused | waitLook | park | asleep | returned
  deriving DecidableEq, Repr

inductive DecPc
  | startGo | startInnited | startAsleep
  | outer | setDecoding | inner | dequeue | decode
  | insert (ret : DecodeRet) | lookFull (ret : DecodeRet) | test (ret : DecodeRet)
  | pausedTest | lookEmpty | invalidTest
  | waitInnited | waitPaused | waitFull | waitEmpty | park | asleep | returned
  deriving DecidableEq, Repr

inductive PlayerPc
  | startTest | startInnited | startAsleep
  | outer | inner | firstTest | pausedTest | dequeue | lookEmpty | invalidTest | play
  | waitInnited | waitPaused | waitLook | park | asleep | ended
  deriving DecidableEq, Repr

/-- What was done so far: the chunks given to `decoder_que`, each with whether it found
room there; the buffers decoded, each with whether a chunk had just been dequeued into
it; the chunks made for `player_que`, and the chunks given to it, each with whether it
found room; and the chunks dequeued from it, each with how often it was passed to the
output. -/
structure History where
  offered : List (List UInt8 × Bool)
  fresh : Bool
  decodes : List (List UInt8 × Bool)
  made : List Processed
  put : List (Processed × Bool)
  holding : Bool
  served : List (Processed × ℕ)
  deriving DecidableEq, Repr

structure State where
  innited : Bool
  paused : Bool
  ready2Go : Bool
  reading : Bool
  decoding : Bool
  rxResult : ℤ
  decoderQue : List (List UInt8)
  playerQue : List Processed
  bufs : Buffers
  dChunk : List UInt8
  pChunk : Processed
  playChunk : Processed
  currentResult : DecoderResult
  rx : RxPc
  dec : DecPc
  player : PlayerPc
  hist : History

/-- A session of one-byte chunks with two slots in each queue. -/
def Config.small (mode : Mode) : Config where
  mode
  chunkSize := ⟨1, by decide⟩
  decoderCap := 2
  playerCap := 2
  pct := ⟨80, 20⟩
  decoderCap_pos := by decide
  playerCap_pos := by decide
  almostFull_le := by decide

/-- After `init_client_stream` has made the threads it needs. -/
def State.start (cfg : Config) : State where
  innited := true
  paused := false
  ready2Go := false
  reading := false
  decoding := false
  rxResult := 1
  decoderQue := []
  playerQue := []
  bufs := .init cfg.mode cfg.chunkSize
  dChunk := List.replicate (match cfg.mode with | .wav => 1 | .mp3 => cfg.chunkSize.decoder) 0
  pChunk := ⟨.zero, []⟩
  playChunk := ⟨.zero, []⟩
  currentResult := .zero
  rx := .outer
  dec := match cfg.mode with | .wav => .returned | .mp3 => .startGo
  player := .startTest
  hist := ⟨[], false, [], [], [], false, []⟩

def rxQueueFull (cfg : Config) (s : State) : Bool :=
  match cfg.mode with
  | .wav => s.playerQue.length = cfg.playerCap
  | .mp3 => s.decoderQue.length = cfg.decoderCap

/-- The look in the wait loop of the rx thread. -/
def rxMustWait (cfg : Config) (s : State) : Bool :=
  match cfg.mode with
  | .wav => s.playerQue.length = cfg.playerCap
  | .mp3 => almostFull cfg.pct s.decoderQue.length cfg.decoderCap

def insertPlayer (cfg : Config) (s : State) (p : Processed) : State :=
  { s with
    playerQue := enqueue cfg.playerCap s.playerQue p
    hist := { s.hist with put := s.hist.put ++ [(p, decide (s.playerQue.length ≠ cfg.playerCap))] } }

def rxInsert (cfg : Config) (s : State) : State :=
  match cfg.mode with
  | .wav => insertPlayer cfg s ⟨.zero, s.bufs.chunk cfg.mode cfg.chunkSize⟩
  | .mp3 =>
    { s with
      decoderQue := enqueue cfg.decoderCap s.decoderQue (s.bufs.chunk cfg.mode cfg.chunkSize)
      hist := { s.hist with
        offered := s.hist.offered ++
          [(s.bufs.chunk cfg.mode cfg.chunkSize,
            decide (s.decoderQue.length ≠ cfg.decoderCap))] } }

/-- The next step of `rx_thread_func`; a read delivers `d`. -/
def rxStep (cfg : Config) (s : State) (d : Delivery) : State :=
  match s.rx with
  | .outer => { s with rx := if s.innited then .go else .returned }
  | .go => { s with ready2Go := true, rx := .reading }
  | .reading => { s with reading := true, rx := .inner }
  | .inner => { s with rx := if s.innited then .pausedTest else .waitInnited }
  | .pausedTest => { s with rx := if s.paused then .waitInnited else .read }
  | .read =>
    { s with
      bufs := s.bufs.fill cfg.mode cfg.chunkSize d
      rx := if d.ret < 0 then .setResult d.ret
        else if s.bufs.first then .init d.ret else .insert d.ret }
  | .init r => { s with bufs := { s.bufs with first := false }, rx := .setResult r }
  | .insert r => { rxInsert cfg s with rx := .setResult r }
  | .setResult r =>
    { s with rxResult := r, rx := if readResultInvalid r then .returned else .lookFull }
  | .lookFull => { s with rx := if rxQueueFull cfg s then .waitInnited else .inner }
  | .waitInnited => { s with rx := if s.innited then .waitPaused else .outer }
  | .waitPaused => { s with rx := if s.paused then .park else .waitLook }
  | .waitLook => { s with rx := if rxMustWait cfg s then .park else .outer }
  | .park => { s with reading := false, rx := .asleep }
  | .asleep => { s with rx := .waitInnited }
  | .returned => s

def decDequeue (s : State) : State :=
  { s with
    decoderQue := (dequeue s.decoderQue s.dChunk).1
    dChunk := (dequeue s.decoderQue s.dChunk).2
    hist := { s.hist with fresh := !s.decoderQue.isEmpty } }

def decDecode (s : State) (out : DecodeOut) : State :=
  let p := decodeChunk s.pChunk out
  { s with
    pChunk := p
    hist := { s.hist with
      decodes := s.hist.decodes ++ [(s.dChunk, s.hist.fresh)]
      made := if p.decoderState then s.hist.made ++ [p] else s.hist.made } }

/-- The next step of `dec_thread_func`; a decoding gives `out`. -/
def decStep (cfg : Config) (s : State) (out : DecodeOut) : State :=
  match s.dec with
  | .startGo => { s with dec := if s.ready2Go then .outer else .startInnited }
  | .startInnited => { s with dec := if s.innited then .startAsleep else .outer }
  | .startAsleep => { s with dec := .startGo }
  | .outer => { s with dec := if s.innited then .setDecoding else .returned }
  | .setDecoding => { s with decoding := true, dec := .inner }
  | .inner => { s with dec := if s.innited then .dequeue else .waitInnited }
  | .dequeue => { decDequeue s with dec := .decode }
  | .decode =>
    { decDecode s out with
      dec := if (decodeChunk s.pChunk out).decoderState then .insert out.ret else .test out.ret }
  | .insert ret => { insertPlayer cfg s s.pChunk with dec := .lookFull ret }
  | .lookFull ret =>
    { s with dec := if s.playerQue.length = cfg.playerCap then .waitInnited else .test ret }
  | .test ret => { s with dec := if ret = .done ∨ ret = .err then .returned else .pausedTest }
  | .pausedTest => { s with dec := if s.paused then .waitInnited else .lookEmpty }
  | .lookEmpty => { s with dec := if s.decoderQue.isEmpty then .invalidTest else .inner }
  | .invalidTest =>
    { s with dec := if readResultInvalid s.rxResult then .returned else .waitInnited }
  | .waitInnited => { s with dec := if s.innited then .waitPaused else .outer }
  | .waitPaused => { s with dec := if s.paused then .park else .waitFull }
  | .waitFull =>
    { s with dec := if almostFull cfg.pct s.playerQue.length cfg.playerCap then .park else .waitEmpty }
  | .waitEmpty =>
    { s with dec := if almostEmpty cfg.pct s.decoderQue.length cfg.decoderCap then .park else .outer }
  | .park => { s with decoding := false, dec := .asleep }
  | .asleep => { s with dec := .waitInnited }
  | .returned => s

def playerDequeue (s : State) : State :=
  { s with
    playerQue := (dequeue s.playerQue s.playChunk).1
    playChunk := (dequeue s.playerQue s.playChunk).2
    hist := { s.hist with
      holding := !s.playerQue.isEmpty
      served := s.hist.served ++ s.playerQue.head?.toList.map (·, 0) } }

def shouldSwitch (before current : DecoderResult) : Bool :=
  before.channels ≠ current.channels ∨ before.hz ≠ current.hz

def countPlay : List (Processed × ℕ) → List (Processed × ℕ)
  | [] => []
  | [(p, n)] => [(p, n + 1)]
  | e :: es => e :: countPlay es

/-- `play_chunk`, which is not dry. What is output is the chunk dequeued last, or the
zeroed buffer before there is one. -/
def playChunk (s : State) : State :=
  { s with hist := { s.hist with served := countPlay s.hist.served } }

def safePlayWrapper (cfg : Config) (s : State) : State :=
  let result := s.playChunk.result
  if result.totalBytesInChunk ≠ 0 then
    if shouldSwitch result s.currentResult ∧ cfg.mode ≠ .wav then { s with currentResult := result }
    else playChunk s
  else if cfg.mode = .wav then playChunk s
  else s

/-- The next step of `play_thread_func`. -/
def playerStep (cfg : Config) (s : State) : State :=
  match s.player with
  | .startTest =>
    match cfg.mode with
    | .wav => { s with player := if s.reading then .outer else .startInnited }
    | .mp3 => { s with player := if s.decoding then .outer else .startAsleep }
  | .startInnited => { s with player := if s.innited then .startAsleep else .outer }
  | .startAsleep => { s with player := .startTest }
  | .outer => { s with player := if s.innited then .inner else .ended }
  | .inner => { s with player := if s.innited then .firstTest else .waitInnited }
  | .firstTest => { s with player := if s.bufs.first then .inner else .pausedTest }
  | .pausedTest => { s with player := if s.paused then .waitInnited else .dequeue }
  | .dequeue => { playerDequeue s with player := .lookEmpty }
  | .lookEmpty => { s with player := if s.playerQue.isEmpty then .invalidTest else .play }
  | .invalidTest =>
    { s with player := if readResultInvalid s.rxResult then .ended else .waitInnited }
  | .play => { safePlayWrapper cfg s with player := .inner }
  | .waitInnited => { s with player := if s.innited then .waitPaused else .outer }
  | .waitPaused => { s with player := if s.paused then .park else .waitLook }
  | .waitLook =>
    { s with player := if almostEmpty cfg.pct s.playerQue.length cfg.playerCap then .park else .outer }
  | .park => { s with player := .asleep }
  | .asleep => { s with player := .waitInnited }
  | .ended => s

/-- The writes of the input thread and of `stop_client_stream`, one by one. -/
inductive Input
  | pause (b : Bool)
  | stop | clearReading | setDecoding
  deriving DecidableEq, Repr

def inputStep (s : State) : Input → State
  | .pause b => { s with paused := b }
  | .stop => { s with innited := false }
  | .clearReading => { s with reading := false }
  | .setDecoding => { s with decoding := true }

/-- Which thread takes the next step, with what its environment gives it. -/
inductive Label
  | rx (d : Delivery)
  | dec (out : DecodeOut)
  | player
  | input (i : Input)

def step (cfg : Config) (s : State) : Label → State
  | .rx d => rxStep cfg s d
  | .dec out => decStep cfg s out
  | .player => playerStep cfg s
  | .input i => inputStep s i

def exec (cfg : Config) (is : List Label) : State := is.foldl (step cfg) (.start cfg)

end EmotionStreamer.Client
