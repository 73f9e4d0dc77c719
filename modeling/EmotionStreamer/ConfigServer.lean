import EmotionStreamer.AddressCache
import EmotionStreamer.ConfigFiles
import EmotionStreamer.ServerStream

/-! The configuration file of the content server, in which the lines about certificates and about
the address are there for some values only. -/
namespace EmotionStreamer.ConfigServer
open PushBack ConfigReader ConfigFiles CStrings AddressCache
open ContentServer (readServerChunkSize)

/-- `R` is what `prepare_nightmare_blunt_rotation` finds. -/
structure CfgServer (R : Type) where
  printConfig : UInt8
  showSplash : UInt8
  logging : UInt8
  serverChunkSize : UInt64
  serverConTimesPair : UInt64 × UInt64
  serverDataTimesPair : UInt64 × UInt64
  serverAckTimesPair : UInt64 × UInt64
  ackPeriodUs : UInt64
  serverDropChunksTimesPair : UInt64 × UInt64
  serverMusicFolderPath : List Char
  serverMusicQuarantineFolderPath : List Char
  serverWorkingExtension : List Char
  upperIpAddressBuff : List Char
  isAutoMode : UInt32
  serverAutoModeRotationFilename : List Char
  rotation : R
  serverNameBuff : List Char
  serverSlaveMode : UInt8
  willUseTls : UInt16
  authCertFilePath : List Char
  hostCertFilePath : List Char
  hostPkeyFilePath : List Char
  bindOnAnyIf : UInt8
  contentServerIpAddress : List Char
  upperIpCacheEntry : IpCacheEntry

/-- What is outside the configuration: the rotation that `prepare_nightmare_blunt_rotation` prepares
from the values that it uses, and the environment's `server_tmp_dir_path`. -/
structure Outside (R : Type) where
  prepareNightmareBluntRotation : (isAutoMode : UInt32) → (rotationFilename : List Char) →
    (conTimeout : UInt64) → (musicFolder workingExtension : List Char) → Except Fault R
  serverTmpDirPath : Option (List Char)

def CfgServer.prepare {R : Type} (outside : Outside R) (c : CfgServer R) : Except Fault (CfgServer R) := do
  let rotation ← outside.prepareNightmareBluntRotation c.isAutoMode c.serverAutoModeRotationFilename
    c.serverConTimesPair.1 c.serverMusicFolderPath c.serverWorkingExtension
  .ok { c with rotation := rotation }

/-- What is done behind `fclose`; the terminators that are stored change nothing. -/
def CfgServer.process {R : Type} (outside : Outside R) (c : CfgServer R) : Except Fault (CfgServer R) :=
  if outside.serverTmpDirPath.isSome then
    .ok { c with upperIpCacheEntry := parseIpCacheEntry c.upperIpAddressBuff c.upperIpCacheEntry }
  else .error .exit

/-- The end of `read_values_cfg_server`, from `bind_on_any_if` on. -/
def readBindOnAnyIf {R : Type} (outside : Outside R) : Reader (CfgServer R) :=
  .line (number "bind_on_any_if" fun n c => { c with bindOnAnyIf := .ofNat n }) <|
  .skipConfigComments <|
  .branch (·.bindOnAnyIf = 0)
    (.fgets (word "content_server_ip_address" (pathsize + 1) fun w c =>
        { c with contentServerIpAddress := w }) <|
      .assign (CfgServer.process outside) .close)
    (.assign (CfgServer.process outside) .close)

/-- What is read behind the rotation. -/
def readServerName {R : Type} (outside : Outside R) : Reader (CfgServer R) :=
  .line (restOfLine "server_name" (pathsize + 1) fun w c => { c with serverNameBuff := w }) <|
  .line (number "server_is_slave_mode" fun n c => { c with serverSlaveMode := .ofNat n }) <|
  .line (number "server_using_tls" fun n c => { c with willUseTls := .ofNat n }) <|
  .skipConfigComments <|
  .branch (·.willUseTls ≠ 0)
    (.fgets (restOfLine "server_auth_cert_file_path" pathsize fun w c =>
        { c with authCertFilePath := w }) <|
      .line (restOfLine "server_host_cert_file_path" pathsize fun w c =>
        { c with hostCertFilePath := w }) <|
      .line (restOfLine "server_host_pkey_file_path" pathsize fun w c =>
        { c with hostPkeyFilePath := w }) (readBindOnAnyIf outside))
    (readBindOnAnyIf outside)

def readValuesCfgServer {R : Type} (outside : Outside R) : Reader (CfgServer R) :=
  .line (number "server_print_config" fun n c => { c with printConfig := .ofNat n }) <|
  .line (number "server_show_splash" fun n c => { c with showSplash := .ofNat n }) <|
  .line (number "server_logging" fun n c => { c with logging := .ofNat n }) <|
  .line (number "server_chunk_size" fun n c => { c with serverChunkSize := .ofNat n }) <|
  .assign (.ok ∘ fun c =>
    { c with serverChunkSize := .ofNat (readServerChunkSize c.serverChunkSize.toNat) }) <|
  .line (pair "server_timeouts_con"
    (fun n c => { c with serverConTimesPair := (.ofNat n, c.serverConTimesPair.2) })
    (fun n c => { c with serverConTimesPair := (c.serverConTimesPair.1, .ofNat n) })) <|
  .line (pair "server_timeouts_data"
    (fun n c => { c with serverDataTimesPair := (.ofNat n, c.serverDataTimesPair.2) })
    (fun n c => { c with serverDataTimesPair := (c.serverDataTimesPair.1, .ofNat n) })) <|
  .line (pair "server_timeouts_ack"
    (fun n c => { c with serverAckTimesPair := (.ofNat n, c.serverAckTimesPair.2) })
    (fun n c => { c with serverAckTimesPair := (c.serverAckTimesPair.1, .ofNat n) })) <|
  .line (number "server_ack_period_us" fun n c => { c with ackPeriodUs := .ofNat n }) <|
  .line (pair "server_timeouts_drop_chunks"
    (fun n c => { c with serverDropChunksTimesPair := (.ofNat n, c.serverDropChunksTimesPair.2) })
    (fun n c => { c with serverDropChunksTimesPair := (c.serverDropChunksTimesPair.1, .ofNat n) })) <|
  .line (word "server_music_folder_path" (pathsize + 1) fun w c =>
    { c with serverMusicFolderPath := w }) <|
  .line (word "server_music_quarantine_folder_path" (pathsize + 1) fun w c =>
    { c with serverMusicQuarantineFolderPath := w }) <|
  .line (word "server_working_extension" extensionSize fun w c =>
    { c with serverWorkingExtension := w }) <|
  .line (word "upper_server_ip_address" (pathsize + 1) fun w c => { c with upperIpAddressBuff := w }) <|
  .line (number "server_is_auto_mode" fun n c => { c with isAutoMode := .ofNat n }) <|
  .line (word "rotation_filepath_if_auto" configReadLineBuffSize fun w c =>
    { c with serverAutoModeRotationFilename := w }) <|
  .assign (CfgServer.prepare outside) (readServerName outside)

def CfgServer.bindLines {R : Type} (c : CfgServer R) : List (List Char) :=
  numberLine "bind_on_any_if" c.bindOnAnyIf.toNat ::
    if c.bindOnAnyIf = 0 then [textLine "content_server_ip_address" c.contentServerIpAddress] else []

def CfgServer.nameLines {R : Type} (c : CfgServer R) : List (List Char) :=
  textLine "server_name" c.serverNameBuff ::
    numberLine "server_is_slave_mode" c.serverSlaveMode.toNat ::
    numberLine "server_using_tls" c.willUseTls.toNat ::
    if c.willUseTls ≠ 0 then
      textLine "server_auth_cert_file_path" c.authCertFilePath ::
        textLine "server_host_cert_file_path" c.hostCertFilePath ::
        textLine "server_host_pkey_file_path" c.hostPkeyFilePath :: c.bindLines
    else c.bindLines

/-- The lines of a server's configuration. -/
def CfgServer.lines {R : Type} (c : CfgServer R) : List (List Char) :=
  numberLine "server_print_config" c.printConfig.toNat ::
    numberLine "server_show_splash" c.showSplash.toNat ::
    numberLine "server_logging" c.logging.toNat ::
    numberLine "server_chunk_size" c.serverChunkSize.toNat ::
    pairLine "server_timeouts_con" c.serverConTimesPair.1.toNat c.serverConTimesPair.2.toNat ::
    pairLine "server_timeouts_data" c.serverDataTimesPair.1.toNat c.serverDataTimesPair.2.toNat ::
    pairLine "server_timeouts_ack" c.serverAckTimesPair.1.toNat c.serverAckTimesPair.2.toNat ::
    numberLine "server_ack_period_us" c.ackPeriodUs.toNat ::
    pairLine "server_timeouts_drop_chunks" c.serverDropChunksTimesPair.1.toNat
      c.serverDropChunksTimesPair.2.toNat ::
    textLine "server_music_folder_path" c.serverMusicFolderPath ::
    textLine "server_music_quarantine_folder_path" c.serverMusicQuarantineFolderPath ::
    textLine "server_working_extension" c.serverWorkingExtension ::
    textLine "upper_server_ip_address" c.upperIpAddressBuff ::
    numberLine "server_is_auto_mode" c.isAutoMode.toNat ::
    textLine "rotation_filepath_if_auto" c.serverAutoModeRotationFilename :: c.nameLines

/-- The values are found in their lines. -/
structure CfgServer.Fits {R : Type} (c : CfgServer R) : Prop where
  serverMusicFolderPath : Word "server_music_folder_path" c.serverMusicFolderPath
  serverMusicQuarantineFolderPath :
    Word "server_music_quarantine_folder_path" c.serverMusicQuarantineFolderPath
  serverWorkingExtension : Word "server_working_extension" c.serverWorkingExtension
  upperIpAddressBuff : Word "upper_server_ip_address" c.upperIpAddressBuff
  serverAutoModeRotationFilename : Word "rotation_filepath_if_auto" c.serverAutoModeRotationFilename
  serverNameBuff : Value "server_name" c.serverNameBuff
  certs : c.willUseTls ≠ 0 → Value "server_auth_cert_file_path" c.authCertFilePath ∧
    Value "server_host_cert_file_path" c.hostCertFilePath ∧
    Value "server_host_pkey_file_path" c.hostPkeyFilePath
  contentServerIpAddress : c.bindOnAnyIf = 0 →
    Word "content_server_ip_address" c.contentServerIpAddress

/-- What is read of the lines by a server that starts with other values. -/
def CfgServer.read {R : Type} (c start : CfgServer R) (rotation : R) : CfgServer R :=
  { c with
    serverChunkSize := .ofNat (readServerChunkSize c.serverChunkSize.toNat)
    rotation := rotation
    authCertFilePath := if c.willUseTls ≠ 0 then c.authCertFilePath else start.authCertFilePath
    hostCertFilePath := if c.willUseTls ≠ 0 then c.hostCertFilePath else start.hostCertFilePath
    hostPkeyFilePath := if c.willUseTls ≠ 0 then c.hostPkeyFilePath else start.hostPkeyFilePath
    contentServerIpAddress :=
      if c.bindOnAnyIf = 0 then c.contentServerIpAddress else start.contentServerIpAddress
    upperIpCacheEntry := parseIpCacheEntry c.upperIpAddressBuff start.upperIpCacheEntry }

variable {R : Type} {c : CfgServer R} {text : List UInt8}

end EmotionStreamer.ConfigServer
