import EmotionStreamer.AddressCache
import EmotionStreamer.ConfigFiles

/-! The configuration file of the client, which skips no blanks in front of `show_player_queue`. -/
namespace EmotionStreamer.ConfigClient
open PushBack ConfigReader ConfigFiles CStrings AddressCache

/-- Of the values of a configuration, `F` are those of `%f`. The period that is computed from the
frame rate is left out. -/
structure CfgClient (F : Type) where
  printConfig : UInt8
  showSplash : UInt8
  logging : UInt8
  streamEnableNcurses : UInt8
  streamShowStats : UInt8
  streamShowFrames : UInt8
  uiFramerateFps : F
  latencyMs : UInt64
  streamDecoderCacheSizeChunks : UInt64
  streamPlayerCacheSizeChunks : UInt64
  cacheAlmostFullPct : UInt8
  cacheAlmostEmptyPct : UInt8
  showDecoderQueueLength : UInt64
  showPlayerQueueLength : UInt64
  streamShowDecoderQueue : UInt8
  streamShowPlayerQueue : UInt8
  clientChunkSize : UInt16
  clientConTimesPair : UInt64 × UInt64
  clientDataTimesPair : UInt64 × UInt64
  clientMusicFolderPath : List Char
  clientLogsFileName : List Char
  clientDeviceNameIfAlsa : List Char
  clientDeviceOutputIfAlsa : List Char
  clientAlsaDeviceLatencyIfAlsaMs : UInt64
  serverIpAddressBuff : List Char
  willUseTls : UInt16
  authCertFilePath : List Char
  hostCertFilePath : List Char
  hostPkeyFilePath : List Char
  serverIpCacheEntry : IpCacheEntry

def minPrintSize : ℤ := 30

/-- The length that is shown of a queue; a negative `int` becomes a large `uint64_t`. -/
def cutLength (cacheSizeChunks length : UInt64) : UInt64 :=
  .ofInt (min (asInt cacheSizeChunks.toNat) (max minPrintSize (asInt length.toNat)))

def cutLengthDecoder {F : Type} (c : CfgClient F) : CfgClient F :=
  { c with
    showDecoderQueueLength := cutLength c.streamDecoderCacheSizeChunks c.showDecoderQueueLength }

def cutLengthPlayer {F : Type} (c : CfgClient F) : CfgClient F :=
  { c with
    showPlayerQueueLength := cutLength c.streamPlayerCacheSizeChunks c.showPlayerQueueLength }

/-- `%f`, by what `scanf` makes of a text. -/
def float {F S : Type} (scanF : List Char → Option F) (name : String) (set : F → S → S)
    (line : List Char) (s : S) : Except Fault S :=
  .ok (match (matchText (key name) (ofBuffer line)).bind scanF with
    | some x => set x s
    | none => s)

def processIpCacheEntries {F : Type} (c : CfgClient F) : CfgClient F :=
  { c with serverIpCacheEntry := parseIpCacheEntry c.serverIpAddressBuff c.serverIpCacheEntry }

def readValuesCfgClient {F : Type} (scanF : List Char → Option F) : Reader (CfgClient F) :=
  .line (number "client_print_config" fun n c => { c with printConfig := .ofNat n }) <|
  .line (number "client_show_splash" fun n c => { c with showSplash := .ofNat n }) <|
  .line (number "client_logging" fun n c => { c with logging := .ofNat n }) <|
  .line (number "stream_enable_ncurses" fun n c => { c with streamEnableNcurses := .ofNat n }) <|
  .line (number "stream_show_stats" fun n c => { c with streamShowStats := .ofNat n }) <|
  .line (number "stream_show_frames" fun n c => { c with streamShowFrames := .ofNat n }) <|
  .line (float scanF "ui_framerate_fps" fun x c => { c with uiFramerateFps := x }) <|
  .line (number "latency_ms" fun n c => { c with latencyMs := .ofNat n }) <|
  .line (number "decoder_cache_num_chunks" fun n c =>
    { c with streamDecoderCacheSizeChunks := .ofNat n }) <|
  .line (number "player_cache_num_chunks" fun n c =>
    { c with streamPlayerCacheSizeChunks := .ofNat n }) <|
  .line (number "cache_almost_full_pct" fun n c => { c with cacheAlmostFullPct := .ofNat n }) <|
  .line (number "cache_almost_empty_pct" fun n c => { c with cacheAlmostEmptyPct := .ofNat n }) <|
  .line (number "show_decoder_queue_length" fun n c => { c with showDecoderQueueLength := .ofNat n }) <|
  .assign (.ok ∘ cutLengthDecoder) <|
  .line (number "show_player_queue_length" fun n c => { c with showPlayerQueueLength := .ofNat n }) <|
  .assign (.ok ∘ cutLengthPlayer) <|
  .line (number "show_decoder_queue" fun n c => { c with streamShowDecoderQueue := .ofNat n }) <|
  .fgets (number "show_player_queue" fun n c => { c with streamShowPlayerQueue := .ofNat n }) <|
  .line (number "client_chunk_size" fun n c => { c with clientChunkSize := .ofNat n }) <|
  .line (pair "client_timeouts_con"
    (fun n c => { c with clientConTimesPair := (.ofNat n, c.clientConTimesPair.2) })
    (fun n c => { c with clientConTimesPair := (c.clientConTimesPair.1, .ofNat n) })) <|
  .line (pair "client_timeouts_data"
    (fun n c => { c with clientDataTimesPair := (.ofNat n, c.clientDataTimesPair.2) })
    (fun n c => { c with clientDataTimesPair := (c.clientDataTimesPair.1, .ofNat n) })) <|
  .line (restOfLine "client_music_folder_path" pathsize fun w c =>
    { c with clientMusicFolderPath := w }) <|
  .line (restOfLine "log_file_name" pathsize fun w c => { c with clientLogsFileName := w }) <|
  .line (word "client_device_name_if_alsa" (pathsize + 1) fun w c =>
    { c with clientDeviceNameIfAlsa := w }) <|
  .line (word "client_device_output_if_alsa" (pathsize + 1) fun w c =>
    { c with clientDeviceOutputIfAlsa := w }) <|
  .line (number "client_alsa_device_latency_if_alsa_ms" fun n c =>
    { c with clientAlsaDeviceLatencyIfAlsaMs := .ofNat n }) <|
  .line (word "server_ip_address" (pathsize + 1) fun w c => { c with serverIpAddressBuff := w }) <|
  .line (number "client_using_tls" fun n c => { c with willUseTls := .ofNat n }) <|
  .skipConfigComments <|
  .branch (·.willUseTls ≠ 0)
    (.fgets (restOfLine "client_auth_cert_path" pathsize fun w c => { c with authCertFilePath := w }) <|
      .line (restOfLine "client_host_cert_path" pathsize fun w c => { c with hostCertFilePath := w }) <|
      .line (restOfLine "client_host_pkey_path" pathsize fun w c => { c with hostPkeyFilePath := w }) <|
      .assign (.ok ∘ processIpCacheEntries) .close)
    (.assign (.ok ∘ processIpCacheEntries) .close)

/-- The lines of a client's configuration; `fps` stands for the frame rate. -/
def CfgClient.lines {F : Type} (c : CfgClient F) (fps : List Char) : List (List Char) :=
  [numberLine "client_print_config" c.printConfig.toNat,
    numberLine "client_show_splash" c.showSplash.toNat,
    numberLine "client_logging" c.logging.toNat,
    numberLine "stream_enable_ncurses" c.streamEnableNcurses.toNat,
    numberLine "stream_show_stats" c.streamShowStats.toNat,
    numberLine "stream_show_frames" c.streamShowFrames.toNat,
    textLine "ui_framerate_fps" fps,
    numberLine "latency_ms" c.latencyMs.toNat,
    numberLine "decoder_cache_num_chunks" c.streamDecoderCacheSizeChunks.toNat,
    numberLine "player_cache_num_chunks" c.streamPlayerCacheSizeChunks.toNat,
    numberLine "cache_almost_full_pct" c.cacheAlmostFullPct.toNat,
    numberLine "cache_almost_empty_pct" c.cacheAlmostEmptyPct.toNat,
    numberLine "show_decoder_queue_length" c.showDecoderQueueLength.toNat,
    numberLine "show_player_queue_length" c.showPlayerQueueLength.toNat,
    numberLine "show_decoder_queue" c.streamShowDecoderQueue.toNat,
    numberLine "show_player_queue" c.streamShowPlayerQueue.toNat,
    numberLine "client_chunk_size" c.clientChunkSize.toNat,
    pairLine "client_timeouts_con" c.clientConTimesPair.1.toNat c.clientConTimesPair.2.toNat,
    pairLine "client_timeouts_data" c.clientDataTimesPair.1.toNat c.clientDataTimesPair.2.toNat,
    textLine "client_music_folder_path" c.clientMusicFolderPath,
    textLine "log_file_name" c.clientLogsFileName,
    textLine "client_device_name_if_alsa" c.clientDeviceNameIfAlsa,
    textLine "client_device_output_if_alsa" c.clientDeviceOutputIfAlsa,
    numberLine "client_alsa_device_latency_if_alsa_ms" c.clientAlsaDeviceLatencyIfAlsaMs.toNat,
    textLine "server_ip_address" c.serverIpAddressBuff,
    numberLine "client_using_tls" c.willUseTls.toNat] ++
  if c.willUseTls ≠ 0 then
    [textLine "client_auth_cert_path" c.authCertFilePath,
      textLine "client_host_cert_path" c.hostCertFilePath,
      textLine "client_host_pkey_path" c.hostPkeyFilePath]
  else []

/-- The values are found in their lines. -/
structure CfgClient.Fits {F : Type} (c : CfgClient F) (scanF : List Char → Option F) (fps : List Char) :
    Prop where
  uiFramerateFps : Value "ui_framerate_fps" fps ∧
    scanF ((fps ++ ['\n']).dropWhile isSpace) = some c.uiFramerateFps
  clientMusicFolderPath : Value "client_music_folder_path" c.clientMusicFolderPath
  clientLogsFileName : Value "log_file_name" c.clientLogsFileName
  clientDeviceNameIfAlsa : Word "client_device_name_if_alsa" c.clientDeviceNameIfAlsa
  clientDeviceOutputIfAlsa : Word "client_device_output_if_alsa" c.clientDeviceOutputIfAlsa
  serverIpAddressBuff : Word "server_ip_address" c.serverIpAddressBuff
  certs : c.willUseTls ≠ 0 → Value "client_auth_cert_path" c.authCertFilePath ∧
    Value "client_host_cert_path" c.hostCertFilePath ∧ Value "client_host_pkey_path" c.hostPkeyFilePath

/-- What is read of the lines by a client that starts with other values. -/
def CfgClient.read {F : Type} (c start : CfgClient F) : CfgClient F :=
  processIpCacheEntries { cutLengthPlayer (cutLengthDecoder c) with
    authCertFilePath := if c.willUseTls ≠ 0 then c.authCertFilePath else start.authCertFilePath
    hostCertFilePath := if c.willUseTls ≠ 0 then c.hostCertFilePath else start.hostCertFilePath
    hostPkeyFilePath := if c.willUseTls ≠ 0 then c.hostPkeyFilePath else start.hostPkeyFilePath
    serverIpCacheEntry := start.serverIpCacheEntry }

/-- What is read when a gap is read in the place of the line of `show_player_queue`, and every line
behind it in the place of the next one. -/
def CfgClient.readBehind {F : Type} (c start : CfgClient F) : CfgClient F :=
  let readSoFar := cutLengthPlayer (cutLengthDecoder c)
  let timeoutsData := Nat.toDigits 10 c.clientDataTimesPair.1.toNat ++ ' ' ::
    Nat.toDigits 10 c.clientDataTimesPair.2.toNat
  processIpCacheEntries { readSoFar with
    streamShowPlayerQueue := start.streamShowPlayerQueue
    clientChunkSize := start.clientChunkSize
    clientConTimesPair := start.clientConTimesPair
    clientDataTimesPair := start.clientDataTimesPair
    clientMusicFolderPath := snprintf pathsize
      ((key "client_timeouts_data" ++ timeoutsData).drop (key "client_music_folder_path").length)
    clientLogsFileName := snprintf pathsize
      ((key "client_music_folder_path" ++ c.clientMusicFolderPath).drop (key "log_file_name").length)
    clientDeviceNameIfAlsa := start.clientDeviceNameIfAlsa
    clientDeviceOutputIfAlsa := start.clientDeviceOutputIfAlsa
    clientAlsaDeviceLatencyIfAlsaMs := start.clientAlsaDeviceLatencyIfAlsaMs
    serverIpAddressBuff := start.serverIpAddressBuff
    willUseTls := start.willUseTls
    authCertFilePath := start.authCertFilePath
    hostCertFilePath := start.hostCertFilePath
    hostPkeyFilePath := start.hostPkeyFilePath
    serverIpCacheEntry := start.serverIpCacheEntry }

/-- The lines with one in front of that of `show_player_queue`. -/
def CfgClient.linesBehind {F : Type} (c : CfgClient F) (fps : List Char) (gap : List UInt8) :
    List (List UInt8) :=
  ((c.lines fps).take 15).map octets ++ gap :: ((c.lines fps).drop 15).map octets

variable {F : Type} {gap : List UInt8} {c start : CfgClient F} {fps : List Char} {scanF : List Char → Option F} {text : List UInt8}

theorem Reader.take_float {S : Type} {name : String} {value : List Char} {x : F}
    (hscan : scanF ((value ++ ['\n']).dropWhile isSpace) = some x) (hname : Name name)
    (hvalue : Value name value)
    (set : F → S → S) (next : Reader S) (lines : List (List UInt8)) (s : S) :
    (Reader.fgets (float scanF name set) next).take (octets (textLine name value) :: lines) s =
      next.take lines (set x s) := by
  rw [Reader.take, float, hvalue.ofBuffer_line hname, hname.matchText, Option.bind_some, hscan]
  rfl

theorem client_take (hc : c.Fits scanF fps) (start : CfgClient F) :
    (readValuesCfgClient scanF).take ((c.lines fps).map octets) start = .ok (c.read start) := by
  obtain ⟨⟨hfps, hscan⟩, hmusic, hlogs, hname, houtput, haddress, hcerts⟩ := hc
  have hmusic' := hmusic.length_lt (Name.ofList (by decide))
  have hlogs' := hlogs.length_lt (Name.ofList (by decide))
  have hname' := hname.1.length_lt (Name.ofList (by decide))
  have houtput' := houtput.1.length_lt (Name.ofList (by decide))
  have haddress' := haddress.1.length_lt (Name.ofList (by decide))
  simp (disch := first | exact Name.ofList (by decide) | assumption | exact uint8_lt _ |
      exact uint16_lt _ | exact uint64_lt _ | (simp only [pathsize]; omega)) only
    [readValuesCfgClient, CfgClient.lines, numberLine, pairLine, List.map_cons, List.cons_append,
    List.nil_append, Reader.take_line, Reader.take_number, Reader.take_pair, Reader.take_word,
    Reader.take_restOfLine, Reader.take_float hscan, Reader.take_assign,
    Reader.take_skipConfigComments, UInt8.ofNat_toNat, UInt16.ofNat_toNat, UInt64.ofNat_toNat,
    Reader.take_branch, CfgClient.read, processIpCacheEntries, cutLengthPlayer, cutLengthDecoder]
  by_cases htls : c.willUseTls = 0
  · simp only [htls, ne_eq, not_true_eq_false, decide_false, Bool.false_eq_true, ↓reduceIte,
      Reader.take_close]
  · obtain ⟨hauth, hhost, hpkey⟩ := hcerts htls
    have hauth' := hauth.length_lt (Name.ofList (by decide))
    have hhost' := hhost.length_lt (Name.ofList (by decide))
    have hpkey' := hpkey.length_lt (Name.ofList (by decide))
    simp (disch := first | exact Name.ofList (by decide) | assumption |
        (simp only [pathsize]; omega)) only
      [htls, ne_eq, not_false_eq_true, decide_true, ↓reduceIte, List.map_cons, List.map_nil,
      Reader.take_line, Reader.take_restOfLine, Reader.take_assign, Reader.take_close,
      processIpCacheEntries]

theorem client_take_behind (hc : c.Fits scanF fps) (hgap : Gap gap) {start : CfgClient F}
    (htls : start.willUseTls = 0) :
    (readValuesCfgClient scanF).take (c.linesBehind fps gap) start = .ok (c.readBehind start) := by
  obtain ⟨⟨hfps, hscan⟩, hmusic, hlogs, ⟨hname, -⟩, ⟨houtput, -⟩, ⟨haddress, -⟩, -⟩ := hc
  have hdata : Value "client_timeouts_data" (Nat.toDigits 10 c.clientDataTimesPair.1.toNat ++ ' ' ::
      Nat.toDigits 10 c.clientDataTimesPair.2.toNat) :=
    Name.pair (Name.ofList (by decide)) (uint64_lt _) (uint64_lt _)
  have hcon : Value "client_timeouts_con" (Nat.toDigits 10 c.clientConTimesPair.1.toNat ++ ' ' ::
      Nat.toDigits 10 c.clientConTimesPair.2.toNat) :=
    Name.pair (Name.ofList (by decide)) (uint64_lt _) (uint64_lt _)
  simp (disch := first | exact Name.ofList (by decide) | assumption | exact uint8_lt _ |
      exact uint64_lt _) only
    [readValuesCfgClient, CfgClient.linesBehind, CfgClient.lines, numberLine, pairLine,
    List.map_cons, List.map_nil, List.cons_append, List.nil_append, List.take_succ_cons,
    List.take_zero, List.drop_succ_cons, List.drop_zero, Reader.take_line, Reader.take_number,
    Reader.take_number_gap, Reader.take_float hscan, Reader.take_assign, UInt8.ofNat_toNat,
    UInt64.ofNat_toNat, cutLengthPlayer, cutLengthDecoder]
  simp (disch := first | exact Name.ofList (by decide) | assumption | decide |
      exact Name.number (Name.ofList (by decide)) (uint8_lt _) |
      exact Name.number (Name.ofList (by decide)) (uint16_lt _) |
      exact Name.number (Name.ofList (by decide)) (uint64_lt _)) only
    [Reader.take_number_other, Reader.take_pair_other, Reader.take_restOfLine_other,
    Reader.take_word_other, Reader.take_line, Reader.take_skipConfigComments, Reader.take_branch, htls, ne_eq,
    not_true_eq_false, decide_false, Bool.false_eq_true, ↓reduceIte, Reader.take_assign,
    Reader.take_close, CfgClient.readBehind, processIpCacheEntries, cutLengthPlayer,
    cutLengthDecoder]

theorem client_lines (hc : c.Fits scanF fps) :
    ∀ line ∈ (c.lines fps).map octets, Line line ∧ Field line := by
  obtain ⟨⟨hfps, -⟩, hmusic, hlogs, ⟨hname, -⟩, ⟨houtput, -⟩, ⟨haddress, -⟩, hcerts⟩ := hc
  simp only [CfgClient.lines, List.map_append, List.map_cons, List.map_nil, List.forall_mem_append, List.forall_mem_cons]
  refine ⟨?_, ?_⟩
  · simp (disch := first | exact Name.ofList (by decide) | assumption | exact uint8_lt _ |
        exact uint16_lt _ | exact uint64_lt _)
      [numberLine_isLine, pairLine_isLine, Value.isLine]
  · split_ifs with htls
    · obtain ⟨hauth, hhost, hpkey⟩ := hcerts htls
      simp only [List.map_cons, List.map_nil, List.forall_mem_cons]
      exact ⟨hauth.isLine (Name.ofList (by decide)), hhost.isLine (Name.ofList (by decide)),
        hpkey.isLine (Name.ofList (by decide)), fun line hline => absurd hline List.not_mem_nil⟩
    · simp

theorem client_skips (scanF : List Char → Option F) :
    (readValuesCfgClient scanF).Skips (· = 15) 0 false := by
  simp [readValuesCfgClient, Reader.line, Reader.Skips]

/-- A client's configuration is read as what its lines say when nothing is in front of the line of
`show_player_queue`. A line of blanks or a comment there is read in its place, and the values
of all lines behind it are lost. -/
theorem client_read (hc : c.Fits scanF fps) (start : CfgClient F) :
    (∀ text, Layout (· = 15) 0 ((c.lines fps).map octets) text →
      (readValuesCfgClient scanF).run ⟨none, text⟩ start = .ok (c.read start)) ∧
    ∀ gap text, Gap gap → start.willUseTls = 0 → Layout (· = 15) 0 (c.linesBehind fps gap) text →
      (readValuesCfgClient scanF).run ⟨none, text⟩ start = .ok (c.readBehind start) := by
  have hlines := client_lines hc
  refine ⟨fun text h => ?_, fun gap text hgap htls h => ?_⟩
  · rw [(readValuesCfgClient scanF).run_eq_take (client_skips scanF) (.of_forall hlines 0) h rfl]
    exact client_take hc start
  · have hfront : ∀ line ∈ ((c.lines fps).take 15).map octets, Line line ∧ Field line :=
      fun line hline => hlines line (List.map_subset octets (List.take_subset 15 _) hline)
    have hback : ∀ line ∈ ((c.lines fps).drop 15).map octets, Line line ∧ Field line :=
      fun line hline => hlines line (List.map_subset octets (List.drop_subset 15 _) hline)
    have hlegible : Legible (· = 15) 0 (c.linesBehind fps gap) :=
      (Legible.of_forall hfront 0).append
        ⟨hgap.1, fun h => absurd rfl h, Legible.of_forall hback _⟩
    rw [(readValuesCfgClient scanF).run_eq_take (client_skips scanF) hlegible h rfl]
    exact client_take_behind hc hgap htls

def listener : CfgClient ℕ :=
  ⟨0, 1, 0, 0, 1, 0, 20, 1000, 100, 100, 60, 0, 200, 200, 1, 1, 4608, (3, 3), (1, 222000),
    "/songs_out/".toList, [], "hw:1".toList, "0".toList, 200, "192.168.0.100:11010".toList, 1,
    "ca.crt".toList, "host.crt".toList, "host.key".toList, zeroEntry⟩

/-- What `%f` makes of a number without a fraction. -/
def scanWhole (s : List Char) : Option ℕ := (scanDigits s).map (·.1)

theorem client_read_listener :
    let start := { listener with willUseTls := 0 }
    (readValuesCfgClient scanWhole).run
      ⟨none, ((listener.lines "20".toList).map octets).flatten⟩ start = .ok (listener.read start) ∧
    (readValuesCfgClient scanWhole).run
      ⟨none, (listener.linesBehind "20".toList (octets ";\n".toList)).flatten⟩ start =
        .ok (listener.readBehind start) := by
  have hfits : listener.Fits scanWhole "20".toList := by
    refine ⟨⟨?_, ?_⟩, ?_, ?_, ?_, ?_, ?_, fun _ => ⟨?_, ?_, ?_⟩⟩ <;> decide +kernel
  have hgap : Gap (octets ";\n".toList) := by
    refine ⟨⟨[ConfigComments.semicolon], ?_, ?_, ?_⟩, ?_⟩ <;> decide +kernel
  have h := client_read hfits { listener with willUseTls := 0 }
  exact ⟨h.1 _ (Layout.flatten _ 0 _), h.2 _ _ hgap rfl (Layout.flatten _ 0 _)⟩

end EmotionStreamer.ConfigClient
