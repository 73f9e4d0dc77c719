import EmotionStreamer.ConfigReader
import EmotionStreamer.AddressCache

/-! The configuration files of the port mapper and of the converter. What they print of their values
is such a file again. -/
namespace EmotionStreamer.ConfigFiles
open PushBack ConfigReader CStrings AddressCache

structure CfgPortMapper where
  printConfig : UInt8
  showSplash : UInt8
  logging : UInt8
  initPort : UInt16
  numPorts : UInt16
  usePortMapperFile : UInt8
  removePortFileOnExit : UInt8
  deriving DecidableEq, Repr

def readValuesCfgPortMapper : Reader CfgPortMapper :=
  .line (number "port_mapper_print_config" fun n c => { c with printConfig := .ofNat n }) <|
  .line (number "port_mapper_show_splash" fun n c => { c with showSplash := .ofNat n }) <|
  .line (number "port_mapper_logging" fun n c => { c with logging := .ofNat n }) <|
  .line (number "port_mapper_init_port" fun n c => { c with initPort := .ofNat n }) <|
  .line (number "port_mapper_num_ports" fun n c => { c with numPorts := .ofNat n }) <|
  .line (number "port_mapper_use_port_mapper_file" fun n c =>
    { c with usePortMapperFile := .ofNat n }) <|
  .line (number "port_mapper_remove_port_file_on_exit" fun n c =>
    { c with removePortFileOnExit := .ofNat n })
  .close

/-- What the calls of `dprintf` print. -/
def printValuesCfgPortMapper (c : CfgPortMapper) : List (List Char) :=
  [numberLine "port_mapper_print_config" c.printConfig.toNat,
    numberLine "port_mapper_show_splash" c.showSplash.toNat,
    numberLine "port_mapper_logging" c.logging.toNat,
    numberLine "port_mapper_init_port" c.initPort.toNat,
    numberLine "port_mapper_num_ports" c.numPorts.toNat,
    numberLine "port_mapper_use_port_mapper_file" c.usePortMapperFile.toNat,
    numberLine "port_mapper_remove_port_file_on_exit" c.removePortFileOnExit.toNat]

structure CfgConverter where
  converterInDir : List Char
  converterOutDir : List Char
  deriving DecidableEq, Repr

def readValuesCfgConverter : Reader CfgConverter :=
  .line (restOfLine "input_dir" pathsize fun w c => { c with converterInDir := w }) <|
  .line (restOfLine "output_dir" pathsize fun w c => { c with converterOutDir := w })
  .close

def printValuesCfgConverter (c : CfgConverter) : List (List Char) :=
  [textLine "input_dir" c.converterInDir, textLine "output_dir" c.converterOutDir]

variable {text : List UInt8}

theorem port_mapper_take (c start : CfgPortMapper) :
    readValuesCfgPortMapper.take ((printValuesCfgPortMapper c).map octets) start = .ok c := by
  simp (disch := first | exact Name.ofList (by decide) | exact uint8_lt _ | exact uint16_lt _) only
    [readValuesCfgPortMapper, printValuesCfgPortMapper, numberLine, List.map_cons, List.map_nil,
    Reader.take_line, Reader.take_number, Reader.take_close, UInt8.ofNat_toNat, UInt16.ofNat_toNat]

theorem port_mapper_lines (c : CfgPortMapper) :
    ∀ line ∈ (printValuesCfgPortMapper c).map octets, Line line ∧ Field line := by
  simp only [printValuesCfgPortMapper, List.map_cons, List.map_nil, List.forall_mem_cons]
  simp (disch := first | exact Name.ofList (by decide) | exact uint8_lt _ | exact uint16_lt _)
    [numberLine_isLine]

/-- What the port mapper prints of its configuration is read as the same configuration, whatever
blanks and comments are put between the lines and whatever the values were before. -/
theorem port_mapper_printed (c start : CfgPortMapper)
    (h : Layout (fun _ => False) 0 ((printValuesCfgPortMapper c).map octets) text) :
    readValuesCfgPortMapper.run ⟨none, text⟩ start = .ok c := by
  have hskips : readValuesCfgPortMapper.Skips (fun _ => False) 0 false := by
    simp [readValuesCfgPortMapper, Reader.line, Reader.Skips]
  rw [readValuesCfgPortMapper.run_eq_take hskips (.of_forall (port_mapper_lines c) 0) h rfl]
  exact port_mapper_take c start

/-- A blank and a comment in front of every line and behind the last one. -/
theorem port_mapper_printed_11007 :
    let c : CfgPortMapper := ⟨1, 0, 0, 11007, 5000, 0, 1⟩
    let gap := octets "\t; ports \n".toList
    readValuesCfgPortMapper.run
        ⟨none, ((printValuesCfgPortMapper c).map octets).flatMap (gap ++ ·) ++ gap⟩
      ⟨0, 0, 0, 10000, 1, 0, 0⟩ = .ok c := by
  have hcomment : ConfigComments.newline ∉ octets " ports ".toList := by decide
  exact port_mapper_printed _ _
    (.spread (fun rest => .space (by decide) (.ofLine hcomment rest)) 0 _)

/-- So is the converter's, when the paths have room in their lines. -/
theorem converter_printed {c : CfgConverter} (hin : Value "input_dir" c.converterInDir)
    (hout : Value "output_dir" c.converterOutDir) (start : CfgConverter)
    (h : Layout (fun _ => False) 0 ((printValuesCfgConverter c).map octets) text) :
    readValuesCfgConverter.run ⟨none, text⟩ start = .ok c := by
  have hskips : readValuesCfgConverter.Skips (fun _ => False) 0 false := by
    simp [readValuesCfgConverter, Reader.line, Reader.Skips]
  have hlines : ∀ line ∈ (printValuesCfgConverter c).map octets, Line line ∧ Field line := by
    simp only [printValuesCfgConverter, List.map_cons, List.map_nil, List.forall_mem_cons]
    exact ⟨hin.isLine (Name.ofList (by decide)), hout.isLine (Name.ofList (by decide)),
      fun line hline => absurd hline List.not_mem_nil⟩
  have hin' := hin.length_lt (Name.ofList (by decide))
  have hout' := hout.length_lt (Name.ofList (by decide))
  rw [readValuesCfgConverter.run_eq_take hskips (.of_forall hlines 0) h rfl]
  simp (disch := first | exact Name.ofList (by decide) | assumption |
      (simp only [pathsize]; omega)) only
    [readValuesCfgConverter, printValuesCfgConverter, List.map_cons, List.map_nil, Reader.take_line,
    Reader.take_restOfLine, Reader.take_close]

end EmotionStreamer.ConfigFiles
