import FpgaEthernet.Clocked.Run
import FpgaEthernet.Ethernet.EthCommon

/-!
# `odile_controller`

Model of `controller/odile_controller.vhd`: the command list and the command
parser. The case statement over the commands is a table of what each of them does;
a word whose command is not in the table passes through.

The flag `second_word`, which marks the next word as an operand, is cleared at
every edge; an operand goes through the case statement like any other word before
it is stored.

Main results:

* `commandCase_of_not_mem`, `commandCase_out_ne`: a word that is no command changes
  nothing, and every command but the two-word ones and `SSW` raises an output.
* `operand_step_iff`: an operand that comes while it is expected is stored, and
  nothing else happens, exactly if the case statement has no effect on it.
* `operand_stored_iff`: for a command word, any number of other words and an
  operand: it is stored, and nothing else happens, exactly if there is no word
  in between and the case statement has no effect on it.
-/

namespace FpgaEthernet

/-- `UDP_PORT_COMMAND` (`eth_common.vhd` line 100). -/
def udpPortCommand : UdpPort := 0x3000

/-! ## The command list -/

/-- `subtype command` (`odile_controller.vhd` line 24). -/
abbrev Command := BitVec 24

namespace Command

/-- `CMD_START_SEQ`: SEX. -/
def cmdStartSeq : Command := 0x534558

/-- `CMD_STOP_SEQ`: AEX. -/
def cmdStopSeq : Command := 0x414558

/-- `CMD_STEP_SEQ`: STS. -/
def cmdStepSeq : Command := 0x535453

/-- `CMD_GET_TS`: GCT. -/
def cmdGetTs : Command := 0x474354

/-- `CMD_GET_CMD_LIST`: GCL. -/
def cmdGetCmdList : Command := 0x47434C

/-- `CMD_GET_UPTIME`: GUT. -/
def cmdGetUptime : Command := 0x475554

/-- `CMD_INVALID`: INV. -/
def cmdInvalid : Command := 0x494E56

/-- `CMD_DONE`: DON. -/
def cmdDone : Command := 0x444F4E

/-- `CMD_ERROR`: ERR. -/
def cmdError : Command := 0x455252

/-- `CMD_READ_PROG`: RDP. -/
def cmdReadProg : Command := 0x524450

/-- `CMD_READ_TIME`: RDT. -/
def cmdReadTime : Command := 0x524454

/-- `CMD_READ_OUT`: RDO. -/
def cmdReadOut : Command := 0x52444F

/-- `CMD_GET_ERROR`: GEC. -/
def cmdGetError : Command := 0x474543

/-- `CMD_CLEAR_ERROR`: CEC. -/
def cmdClearError : Command := 0x434543

/-- `CMD_RESET_CABAC`: RSC. -/
def cmdResetCabac : Command := 0x525343

/-- `CMD_READ_CABAC`: RDC. -/
def cmdReadCabac : Command := 0x524443

/-- `CMD_READ_CROC`: RCR. -/
def cmdReadCroc : Command := 0x524352

/-- `CMD_GET_CROC`: GCR. -/
def cmdGetCroc : Command := 0x474352

/-- `CMD_READ_CONFIG`: RDB. -/
def cmdReadConfig : Command := 0x524442

/-- `CMD_ERASE_SEQ`: ERS. -/
def cmdEraseSeq : Command := 0x455253

/-- `CMD_READ_INDF`: RDF. -/
def cmdReadIndf : Command := 0x524446

/-- `CMD_READ_INDR`: RDR. -/
def cmdReadIndr : Command := 0x524452

/-- `CMD_READ_INDSA`: RDA. -/
def cmdReadIndsa : Command := 0x524441

/-- `CMD_READ_INDSR`: RDS. -/
def cmdReadIndsr : Command := 0x524453

/-- `CMD_EPCQ_WRITE`: EWR. -/
def cmdEpcqWrite : Command := 0x455752

/-- `CMD_EPCQ_READ`: ERD. -/
def cmdEpcqRead : Command := 0x455244

/-- `CMD_EPCQ_CLEAR`: ERB. -/
def cmdEpcqClear : Command := 0x455242

/-- `CMD_EPCQ_SETA`: ESA. -/
def cmdEpcqSeta : Command := 0x455341

/-- `CMD_EPCQ_EN4B`: E4B. -/
def cmdEpcqEn4b : Command := 0x453442

/-- `CMD_EPCQ_ERASE_SEC`: ESE. -/
def cmdEpcqEraseSec : Command := 0x455345

/-- `CMD_RU_ADDRESS`: RUA. -/
def cmdRuAddress : Command := 0x525541

/-- `CMD_RU_RECONFIG`: RUR. -/
def cmdRuReconfig : Command := 0x525552

/-- `CMD_RU_REREAD`: RUL. -/
def cmdRuReread : Command := 0x52554C

/-- `CMD_CONF_LOAD`: LDC. -/
def cmdConfLoad : Command := 0x4C4443

/-- `CMD_START_MONITORING`: SCM. -/
def cmdStartMonitoring : Command := 0x53434D

/-- `CMD_GET_MONITORING`: GCM. -/
def cmdGetMonitoring : Command := 0x47434D

/-- `CMD_SET_SWITCHES`: SSW. -/
def cmdSetSwitches : Command := 0x535357

/-- `VALID_COMMANDS` (lines 124-132). -/
def validCommands : List Command :=
  [cmdStartSeq, cmdStopSeq, cmdStepSeq, cmdGetTs, cmdGetCmdList, cmdReadProg, cmdReadTime,
    cmdReadOut, cmdGetError, cmdClearError, cmdResetCabac, cmdReadCabac, cmdReadCroc,
    cmdGetCroc, cmdReadConfig, cmdEraseSeq, cmdReadIndf, cmdReadIndr, cmdReadIndsa,
    cmdReadIndsr, cmdEpcqWrite, cmdEpcqRead, cmdEpcqClear, cmdEpcqSeta, cmdEpcqEn4b,
    cmdEpcqEraseSec, cmdRuAddress, cmdRuReconfig, cmdRuReread, cmdConfLoad, cmdStartMonitoring,
    cmdGetMonitoring, cmdSetSwitches, cmdGetUptime]

/-- `is_valid_command` (lines 138-146). -/
def isValidCommand (cmd : Command) : Bool := validCommands.contains cmd

end Command

namespace OdileController

open Clocked Command

/-! ## Model -/

/-- The input ports (`odile_controller.vhd` lines 168-172). -/
structure Input where
  dataIn : Word
  dataValid : Bool
  dataPort : UdpPort
  dataAddr : BitVec 80
  sourceIface : BitVec 4
  deriving DecidableEq

/-- The outputs that are low unless a command raises them for one cycle. -/
structure Outputs where
  startSequence : Bool
  stopSequence : Bool
  stepSequence : Bool
  readProgram : Bool
  readTiming : Bool
  readOutput : Bool
  readIndRep : Bool
  readIndFunc : Bool
  readIndSubAdd : Bool
  readIndSubRep : Bool
  resetCabac : Bool
  clearError : Bool
  readConfig : Bool
  eraseSequencer : Bool
  epcqioClearBuffers : Bool
  epcqioWriteData : Bool
  epcqioReadData : Bool
  epcqioEraseSector : Bool
  epcqioEnable4byte : Bool
  ruReconfigReg : Bool
  ruRereadParamsReg : Bool
  cmLoadConfigReg : Bool
  startMonitoringReg : Bool
  readMonitoringReg : Bool
  readCabacReg : Bool
  readCrocReg : Bool
  getCrocReg : Bool
  deriving DecidableEq

/-- No output raised. -/
def Outputs.quiet : Outputs where
  startSequence := false
  stopSequence := false
  stepSequence := false
  readProgram := false
  readTiming := false
  readOutput := false
  readIndRep := false
  readIndFunc := false
  readIndSubAdd := false
  readIndSubRep := false
  resetCabac := false
  clearError := false
  readConfig := false
  eraseSequencer := false
  epcqioClearBuffers := false
  epcqioWriteData := false
  epcqioReadData := false
  epcqioEraseSector := false
  epcqioEnable4byte := false
  ruReconfigReg := false
  ruRereadParamsReg := false
  cmLoadConfigReg := false
  startMonitoringReg := false
  readMonitoringReg := false
  readCabacReg := false
  readCrocReg := false
  getCrocReg := false

/-- The registers that keep what a command has set. -/
structure Settings where
  epcqioAddressReg : Word
  epcqioNumwordsReg : BitVec 7
  ruAddressReg : BitVec 24
  cmConfigPageReg : BitVec 4
  switchesReg : BitVec 8
  deriving DecidableEq

/-- Where replies go: `reply_iface` and `reply_addr`. -/
structure ReplyTo where
  iface : BitVec 4
  addr : BitVec 80
  deriving DecidableEq

/-- The registers of `command_parser`, with its variable `prev_cmd`. -/
structure State where
  dataInReg : Word
  dataPortReg : UdpPort
  dataValidReg : Bool
  dataAddrReg : BitVec 80
  sourceIfaceReg : BitVec 4
  out : Outputs
  settings : Settings
  sendCmdAck : Bool
  cmdToAck : Word
  replyTo : ReplyTo
  secondWord : Bool
  prevCmd : Command
  deriving DecidableEq

/-- The registers when `reset` is released. -/
def initial : State where
  dataInReg := 0
  dataPortReg := 0
  dataValidReg := false
  dataAddrReg := 0
  sourceIfaceReg := 0
  out := .quiet
  settings := ⟨0, 0, BitVec.allOnes 24, 0, 0⟩
  sendCmdAck := false
  cmdToAck := 0
  replyTo := ⟨0, 0⟩
  secondWord := false
  prevCmd := 0

/-- The command of a word. -/
def command (w : Word) : Command := w.extractLsb' 0 24

/-- The prefix of a word. -/
def commandPrefix (w : Word) : BitVec 8 := w.extractLsb' 24 8

/-- Raise outputs. -/
def raise (f : Outputs → Outputs) (_ : Word) (d : State) : State := { d with out := f d.out }

/-- The case statement (lines 377-467): what each command does to the registers. -/
def commandTable : List (Command × (Word → State → State)) :=
  [(cmdStartSeq, raise fun o => { o with startSequence := true }),
    (cmdStopSeq, raise fun o => { o with stopSequence := true }),
    (cmdStepSeq, raise fun o => { o with stepSequence := true }),
    (cmdClearError, raise fun o => { o with clearError := true }),
    (cmdReadProg, raise fun o => { o with readProgram := true }),
    (cmdReadTime, raise fun o => { o with readTiming := true }),
    (cmdReadOut, raise fun o => { o with readOutput := true }),
    (cmdReadIndf, raise fun o => { o with readIndFunc := true }),
    (cmdReadIndr, raise fun o => { o with readIndRep := true }),
    (cmdReadIndsa, raise fun o => { o with readIndSubAdd := true }),
    (cmdReadIndsr, raise fun o => { o with readIndSubRep := true }),
    (cmdReadConfig, raise fun o => { o with readConfig := true }),
    (cmdEraseSeq, raise fun o => { o with eraseSequencer := true }),
    (cmdResetCabac, raise fun o => { o with resetCabac := true }),
    (cmdReadCabac, raise fun o => { o with readCabacReg := true }),
    (cmdEpcqRead, fun w d => { d with
      out := { d.out with epcqioReadData := true }
      settings := { d.settings with epcqioNumwordsReg := w.extractLsb' 24 7 } }),
    (cmdEpcqWrite, fun w d => { d with
      out := { d.out with epcqioWriteData := true }
      settings := { d.settings with epcqioNumwordsReg := w.extractLsb' 24 7 } }),
    (cmdEpcqClear, raise fun o => { o with epcqioClearBuffers := true }),
    (cmdEpcqSeta, fun _ d => { d with secondWord := true, prevCmd := cmdEpcqSeta }),
    (cmdEpcqEn4b, raise fun o => { o with epcqioEnable4byte := true }),
    (cmdEpcqEraseSec, raise fun o => { o with epcqioEraseSector := true }),
    (cmdRuReconfig, raise fun o => { o with ruReconfigReg := true }),
    (cmdRuAddress, fun w d =>
      let d := { d with secondWord := true, prevCmd := cmdRuAddress }
      if commandPrefix w = 0x46 then
        { d with secondWord := false, settings := { d.settings with ruAddressReg := 0x000000 } }
      else if commandPrefix w = 0x41 then
        { d with secondWord := false, settings := { d.settings with ruAddressReg := 0x100000 } }
      else d),
    (cmdRuReread, raise fun o => { o with ruRereadParamsReg := true }),
    (cmdConfLoad, fun w d => { d with
      out := { d.out with cmLoadConfigReg := true }
      settings := { d.settings with cmConfigPageReg := w.extractLsb' 24 4 } }),
    (cmdStartMonitoring, raise fun o => { o with startMonitoringReg := true }),
    (cmdGetMonitoring, raise fun o => { o with readMonitoringReg := true }),
    (cmdSetSwitches, fun w d =>
      { d with settings := { d.settings with switchesReg := commandPrefix w } }),
    (cmdReadCroc, raise fun o => { o with readCrocReg := true }),
    (cmdGetCroc, raise fun o => { o with getCrocReg := true })]

/-- The branch of the case statement for `w`; `when others` does nothing. -/
def commandCase (w : Word) (d : State) : State :=
  ((commandTable.lookup (command w)).getD fun _ d => d) w d

/-- The word in the input registers is for the command parser. -/
def HasCommand (s : State) : Prop := s.dataPortReg = udpPortCommand ∧ s.dataValidReg = true

instance (s : State) : Decidable (HasCommand s) := inferInstanceAs (Decidable (_ ∧ _))

/-- The values the registers take unless a command says otherwise (lines
    338-372). -/
def defaults (s : State) : State :=
  { s with out := .quiet, sendCmdAck := false, cmdToAck := 0, secondWord := false }

/-- The second word of a two-word command (lines 473-482); `prev_cmd` is the one
    the case statement has left. -/
def storeOperand (w : Word) (p : State) : State :=
  let p :=
    if p.prevCmd = cmdEpcqSeta then
      { p with sendCmdAck := false, settings := { p.settings with epcqioAddressReg := w } }
    else if p.prevCmd = cmdRuAddress then
      { p with
        sendCmdAck := false
        settings := { p.settings with ruAddressReg := w.extractLsb' 0 24 } }
    else p
  { p with secondWord := false }

/-- `command_parser` (lines 292-487) but for the input registers. -/
def commandParser (s : State) : State :=
  let d := defaults s
  if HasCommand s then
    let p := { commandCase s.dataInReg d with
      sendCmdAck := true
      cmdToAck := s.dataInReg
      replyTo := ⟨s.sourceIfaceReg, s.dataAddrReg⟩ }
    if s.secondWord then storeOperand s.dataInReg p else p
  else d

/-- One edge of `clock`. -/
def step (i : Input) (s : State) : State :=
  { commandParser s with
    dataInReg := i.dataIn
    dataPortReg := i.dataPort
    dataValidReg := i.dataValid
    dataAddrReg := i.dataAddr
    sourceIfaceReg := i.sourceIface }

/-! ## The case statement -/

variable {w : Word} {d : State}

/-- The commands the case statement knows. -/
def commands : List Command := commandTable.map Prod.fst

/-- A word whose command is not in the table changes nothing. -/
theorem commandCase_of_not_mem (h : command w ∉ commands) : commandCase w d = d := by
  have hl : commandTable.lookup (command w) = none := by
    rw [List.lookup_eq_none_iff]
    intro p hp
    rw [bne_iff_ne]
    intro he
    exact h (he ▸ List.mem_map_of_mem hp)
  rw [commandCase, hl]
  rfl

/-- Every other command but the two-word ones and `SSW` raises an output. -/
theorem out_ne_of_mem {e : Command × (Word → State → State)} (he : e ∈ commandTable)
    (h₁ : e.1 ≠ cmdEpcqSeta) (h₂ : e.1 ≠ cmdRuAddress) (h₃ : e.1 ≠ cmdSetSwitches) :
    (e.2 w d).out ≠ .quiet := by
  simp only [commandTable, List.mem_cons, List.not_mem_nil, or_false] at he
  repeat' obtain rfl | he := he
  all_goals first
    | exact absurd rfl h₁
    | exact absurd rfl h₂
    | exact absurd rfl h₃
    | simp [raise, Outputs.quiet]

theorem commandCase_out_ne (h : command w ∈ commands) (h₁ : command w ≠ cmdEpcqSeta)
    (h₂ : command w ≠ cmdRuAddress) (h₃ : command w ≠ cmdSetSwitches) :
    (commandCase w d).out ≠ .quiet := by
  unfold commandCase
  cases hl : commandTable.lookup (command w) with
  | none =>
    rw [List.lookup_eq_none_iff] at hl
    obtain ⟨e, he, hw⟩ := List.mem_map.1 h
    have := hl e he
    rw [hw] at this
    simp at this
  | some f =>
    obtain ⟨l₁, l₂, hl, -⟩ := List.lookup_eq_some_iff.1 hl
    have he : (command w, f) ∈ commandTable := by simp [hl]
    exact out_ne_of_mem he h₁ h₂ h₃

theorem commandCase_epcqSeta (h : command w = cmdEpcqSeta) :
    commandCase w d = { d with secondWord := true, prevCmd := cmdEpcqSeta } := by
  unfold commandCase
  rw [h]
  rfl

theorem commandCase_setSwitches (h : command w = cmdSetSwitches) :
    commandCase w d =
      { d with settings := { d.settings with switchesReg := commandPrefix w } } := by
  unfold commandCase
  rw [h]
  rfl

/-- `RUA` leaves the pending flag only without a preset prefix. -/
theorem commandCase_ruAddress (h : command w = cmdRuAddress) :
    (commandCase w d).out = d.out ∧ (commandCase w d).prevCmd = cmdRuAddress ∧
      (∃ a, (commandCase w d).settings = { d.settings with ruAddressReg := a }) ∧
      (commandPrefix w ≠ 0x46 → commandPrefix w ≠ 0x41 →
        commandCase w d = { d with secondWord := true, prevCmd := cmdRuAddress }) := by
  have hl : commandCase w d =
      if commandPrefix w = 0x46 then
        { d with
          secondWord := false
          prevCmd := cmdRuAddress
          settings := { d.settings with ruAddressReg := 0x000000 } }
      else if commandPrefix w = 0x41 then
        { d with
          secondWord := false
          prevCmd := cmdRuAddress
          settings := { d.settings with ruAddressReg := 0x100000 } }
      else { d with secondWord := true, prevCmd := cmdRuAddress } := by
    unfold commandCase
    rw [h]
    rfl
  rw [hl]
  split_ifs with hF hA
  · exact ⟨rfl, rfl, ⟨_, rfl⟩, fun hn => absurd hF hn⟩
  · exact ⟨rfl, rfl, ⟨_, rfl⟩, fun _ hn => absurd hA hn⟩
  · exact ⟨rfl, rfl, ⟨_, rfl⟩, fun _ _ => rfl⟩

/-! ## Operands -/

variable {s : State} {i : Input} {cmd : Command}

/-- The command of a word that announces an operand. -/
def IsTwoWord (w : Word) : Prop :=
  command w = cmdEpcqSeta ∨
    command w = cmdRuAddress ∧ commandPrefix w ≠ 0x46 ∧ commandPrefix w ≠ 0x41

instance : DecidablePred IsTwoWord := fun _ => inferInstanceAs (Decidable (_ ∨ _))

/-- The settings with the operand of `cmd` stored. -/
def stored (cmd : Command) (w : Word) (x : Settings) : Settings :=
  if cmd = cmdEpcqSeta then { x with epcqioAddressReg := w }
  else { x with ruAddressReg := w.extractLsb' 0 24 }

/-- From `s` to `s'` the operand of `cmd` is stored and nothing else happens. -/
structure Stored (cmd : Command) (w : Word) (s s' : State) : Prop where
  out : s'.out = .quiet
  ack : s'.sendCmdAck = false
  settings : s'.settings = stored cmd w s.settings
  replyTo : s'.replyTo = s.replyTo

/-- The case statement has no effect on the operand `w` of `cmd` that is to be
    seen: `w` spells no command, or `cmd` itself; or what it sets already has the
    value. -/
def Harmless (cmd : Command) (w : Word) (x : Settings) : Prop :=
  command w ∉ commands ∨ command w = cmd ∨
    command w = cmdSetSwitches ∧ commandPrefix w = x.switchesReg ∨
    (command w = cmdEpcqSeta ∨ command w = cmdRuAddress) ∧ x.epcqioAddressReg = w ∧
      x.ruAddressReg = w.extractLsb' 0 24

instance (cmd : Command) (w : Word) (x : Settings) : Decidable (Harmless cmd w x) :=
  inferInstanceAs (Decidable (_ ∨ _))

instance (cmd : Command) (w : Word) (s s' : State) : Decidable (Stored cmd w s s') :=
  decidable_of_iff (s'.out = .quiet ∧ s'.sendCmdAck = false ∧
      s'.settings = stored cmd w s.settings ∧ s'.replyTo = s.replyTo)
    ⟨fun h => ⟨h.1, h.2.1, h.2.2.1, h.2.2.2⟩, fun h => ⟨h.1, h.2, h.3, h.4⟩⟩

/-- An expected operand: the outputs are those of the case statement, and the
    register of the command it leaves is written. -/
theorem step_operand (hc : HasCommand s) (hs : s.secondWord = true)
    (hp : (commandCase s.dataInReg (defaults s)).prevCmd = cmdEpcqSeta ∨
      (commandCase s.dataInReg (defaults s)).prevCmd = cmdRuAddress) :
    (step i s).out = (commandCase s.dataInReg (defaults s)).out ∧
      (step i s).sendCmdAck = false ∧
      (step i s).settings = stored (commandCase s.dataInReg (defaults s)).prevCmd s.dataInReg
        (commandCase s.dataInReg (defaults s)).settings ∧
      (step i s).replyTo = ⟨s.sourceIfaceReg, s.dataAddrReg⟩ := by
  have hne : cmdRuAddress ≠ cmdEpcqSeta := by decide
  rcases hp with hp | hp <;>
    simp [step, commandParser, hc, hs, storeOperand, hp, stored, hne]

/-- What an expected operand leaves behind, if the case statement raises no
    output on it. -/
theorem stored_iff {k : Command} {y : Settings} (hc : HasCommand s) (hs : s.secondWord = true)
    (hk : k = cmdEpcqSeta ∨ k = cmdRuAddress)
    (hp : (commandCase s.dataInReg (defaults s)).prevCmd = k)
    (hy : (commandCase s.dataInReg (defaults s)).settings = y)
    (ho : (commandCase s.dataInReg (defaults s)).out = .quiet) :
    Stored cmd s.dataInReg s (step i s) ↔
      stored k s.dataInReg y = stored cmd s.dataInReg s.settings ∧
        s.replyTo = ⟨s.sourceIfaceReg, s.dataAddrReg⟩ := by
  obtain ⟨h₁, h₂, h₃, h₄⟩ := step_operand (i := i) hc hs (hp ▸ hk)
  rw [hp, hy] at h₃
  constructor
  · intro h
    exact ⟨h₃.symm.trans h.settings, h.replyTo.symm.trans h₄⟩
  · rintro ⟨hset, hr⟩
    exact ⟨h₁.trans ho, h₂, h₃.trans hset, h₄.trans hr.symm⟩

/-- The two operand registers hold the operand already. -/
theorem stored_eq_stored_iff {x : Settings} :
    stored cmdEpcqSeta w x = stored cmdRuAddress w x ↔
      x.epcqioAddressReg = w ∧ x.ruAddressReg = w.extractLsb' 0 24 := by
  have hne : cmdRuAddress ≠ cmdEpcqSeta := by decide
  cases x
  simp only [stored, if_true, if_neg hne, Settings.mk.injEq, true_and, and_true]
  constructor
  · rintro ⟨h₁, h₂⟩
    exact ⟨h₁.symm, h₂⟩
  · rintro ⟨h₁, h₂⟩
    exact ⟨h₁.symm, h₂⟩

theorem stored_switches_iff {x : Settings} :
    stored cmd w { x with switchesReg := commandPrefix w } = stored cmd w x ↔
      commandPrefix w = x.switchesReg := by
  cases x
  unfold stored
  split_ifs <;> simp

/-- The operand of a two-word command that is expected is stored, and nothing else
    happens, exactly if the case statement has no effect on it. -/
theorem operand_step_iff (hc : HasCommand s) (hs : s.secondWord = true) (hp : s.prevCmd = cmd)
    (hcmd : cmd = cmdEpcqSeta ∨ cmd = cmdRuAddress) :
    Stored cmd s.dataInReg s (step i s) ↔
      Harmless cmd s.dataInReg s.settings ∧ s.replyTo = ⟨s.sourceIfaceReg, s.dataAddrReg⟩ := by
  have hne : cmdRuAddress ≠ cmdEpcqSeta := by decide
  by_cases h₀ : command s.dataInReg ∉ commands
  · have hd := commandCase_of_not_mem (d := defaults s) h₀
    have hy : (commandCase s.dataInReg (defaults s)).settings = s.settings := by rw [hd]; rfl
    rw [stored_iff hc hs hcmd (by rw [hd]; exact hp) hy (by rw [hd]; rfl)]
    simp [Harmless, h₀]
  rw [not_not] at h₀
  by_cases h₁ : command s.dataInReg = cmdEpcqSeta
  · have hd := commandCase_epcqSeta (d := defaults s) h₁
    have hy : (commandCase s.dataInReg (defaults s)).settings = s.settings := by rw [hd]; rfl
    rw [stored_iff hc hs (.inl rfl) (by rw [hd]) hy (by rw [hd]; rfl)]
    have hssw : cmdEpcqSeta ≠ cmdSetSwitches := by decide
    rcases hcmd with rfl | rfl
    · simp [Harmless, h₁]
    · rw [stored_eq_stored_iff]
      rw [h₁] at h₀
      simp [Harmless, h₀, h₁, hne.symm, hssw]
  by_cases h₂ : command s.dataInReg = cmdRuAddress
  · obtain ⟨ho, hk, ⟨a, hy⟩, -⟩ := commandCase_ruAddress (d := defaults s) h₂
    have hya : stored cmdRuAddress s.dataInReg { (defaults s).settings with ruAddressReg := a } =
        stored cmdRuAddress s.dataInReg s.settings := rfl
    rw [stored_iff hc hs (.inr rfl) hk hy ho, hya]
    have hssw : cmdRuAddress ≠ cmdSetSwitches := by decide
    rcases hcmd with rfl | rfl
    · rw [eq_comm, stored_eq_stored_iff]
      rw [h₂] at h₀
      simp [Harmless, h₀, h₂, hne, hssw]
    · simp [Harmless, h₂]
  have hcw : command s.dataInReg ≠ cmd := by
    rcases hcmd with rfl | rfl
    · exact h₁
    · exact h₂
  by_cases h₃ : command s.dataInReg = cmdSetSwitches
  · have hd := commandCase_setSwitches (d := defaults s) h₃
    rw [stored_iff hc hs hcmd (by rw [hd]; exact hp) (by rw [hd]) (by rw [hd]; rfl)]
    have hsw : stored cmd s.dataInReg { (defaults s).settings with
        switchesReg := commandPrefix s.dataInReg } = stored cmd s.dataInReg s.settings ↔
        commandPrefix s.dataInReg = s.settings.switchesReg := stored_switches_iff
    rw [hsw]
    have hss : cmdSetSwitches ≠ cmd := h₃ ▸ hcw
    have hmem : cmdSetSwitches ∈ commands := h₃ ▸ h₀
    have hs₁ : cmdSetSwitches ≠ cmdEpcqSeta := by decide
    have hs₂ : cmdSetSwitches ≠ cmdRuAddress := by decide
    simp [Harmless, h₃, hss, hmem, hs₁, hs₂]
  · have ho := commandCase_out_ne (d := defaults s) h₀ h₁ h₂ h₃
    have hout : (step i s).out = (commandCase s.dataInReg (defaults s)).out := by
      simp only [step, commandParser, if_pos hc, hs, if_true, storeOperand]
      split_ifs <;> rfl
    constructor
    · intro h
      exact absurd (hout.symm.trans h.out) ho
    · rintro ⟨hh, -⟩
      simp [Harmless, h₀, h₁, h₂, h₃, hcw] at hh

/-! ## Two-word commands -/

/-- A valid word on the command port. -/
def IsCommand (i : Input) : Prop := i.dataPort = udpPortCommand ∧ i.dataValid = true

instance : DecidablePred IsCommand := fun _ => inferInstanceAs (Decidable (_ ∧ _))

@[simp] theorem hasCommand_step : HasCommand (step i s) ↔ IsCommand i := Iff.rfl

@[simp] theorem step_dataInReg : (step i s).dataInReg = i.dataIn := rfl

@[simp] theorem step_sourceIfaceReg : (step i s).sourceIfaceReg = i.sourceIface := rfl

@[simp] theorem step_dataAddrReg : (step i s).dataAddrReg = i.dataAddr := rfl

/-- Without a word to parse the pending flag goes down. -/
theorem step_secondWord_of_not (hc : ¬HasCommand s) : (step i s).secondWord = false := by
  simp [step, commandParser, hc, defaults]

/-- A word that is not expected as an operand is acknowledged. -/
theorem step_sendCmdAck (hc : HasCommand s) (hs : s.secondWord = false) :
    (step i s).sendCmdAck = true := by
  simp [step, commandParser, hc, hs]

/-- A two-word command sets the pending flag and the destination of replies. -/
theorem step_twoWord (hc : HasCommand s) (hs : s.secondWord = false)
    (hw : IsTwoWord s.dataInReg) :
    (step i s).secondWord = true ∧ (step i s).prevCmd = command s.dataInReg ∧
      (step i s).replyTo = ⟨s.sourceIfaceReg, s.dataAddrReg⟩ := by
  have hcase : commandCase s.dataInReg (defaults s) =
      { defaults s with secondWord := true, prevCmd := command s.dataInReg } := by
    rcases hw with hw | ⟨hw, hF, hA⟩
    · rw [commandCase_epcqSeta hw, hw]
    · rw [(commandCase_ruAddress hw).2.2.2 hF hA, hw]
  simp [step, commandParser, hc, hs, hcase]

/-- The flag is down again after any word that is no command word. -/
theorem secondWord_of_gap {gaps : List Input} {o : Input} (hne : gaps ≠ [])
    (hg : ∀ g ∈ gaps, ¬IsCommand g) : (run step s (gaps ++ [o])).secondWord = false := by
  obtain ⟨gs, g, rfl⟩ := List.eq_nil_or_concat gaps |>.resolve_left hne
  rw [List.concat_eq_append] at hg ⊢
  rw [run_concat, run_concat]
  exact step_secondWord_of_not fun h => hg g (by simp) (hasCommand_step.1 h)

/-- For every command word that announces an operand and is none itself, any
    number of other words, and every operand: the operand is stored and nothing
    else happens exactly if it comes at the next edge, from the same sender, and
    the case statement has no effect on it. -/
theorem operand_stored_iff (s : State) (c : Input) (gaps : List Input) (o j : Input)
    (hc : IsCommand c) (hw : IsTwoWord c.dataIn) (hn : (step c s).secondWord = false)
    (hg : ∀ g ∈ gaps, ¬IsCommand g) (ho : IsCommand o) :
    Stored (command c.dataIn) o.dataIn (run step s (c :: gaps ++ [o]))
        (step j (run step s (c :: gaps ++ [o]))) ↔
      gaps = [] ∧
        Harmless (command c.dataIn) o.dataIn (run step s (c :: gaps ++ [o])).settings ∧
        c.sourceIface = o.sourceIface ∧ c.dataAddr = o.dataAddr := by
  have hcmd : command c.dataIn = cmdEpcqSeta ∨ command c.dataIn = cmdRuAddress :=
    hw.imp_right And.left
  by_cases hgaps : gaps = []
  · subst hgaps
    have h := step_twoWord (i := o) (hasCommand_step.2 hc) hn (by simpa using hw)
    have hrun : run step s (c :: [] ++ [o]) = step o (step c s) := rfl
    have hiff := operand_step_iff (i := j) (hasCommand_step (s := step c s).2 ho) h.1 h.2.1 hcmd
    simp only [step_dataInReg, step_sourceIfaceReg, step_dataAddrReg] at hiff
    rw [hrun, hiff, h.2.2]
    simp
  · have hs : (run step s (c :: gaps ++ [o])).secondWord = false := by
      rw [List.cons_append, run_cons]
      exact secondWord_of_gap hgaps hg
    have hcmd' : HasCommand (run step s (c :: gaps ++ [o])) := by
      rw [List.cons_append, run_cons, run_concat]
      exact ho
    constructor
    · intro h
      have hack := h.ack
      rw [step_sendCmdAck hcmd' hs] at hack
      cases hack
    · rintro ⟨h, -⟩
      exact absurd h hgaps

/-- A word on the command port. -/
def commandInput (w : Word) : Input := ⟨w, true, udpPortCommand, 0x010203040506, 1⟩

/-- An edge without a word. -/
def idleInput : Input := ⟨0, false, 0, 0, 0⟩

/-- `ESA` with an address that spells no command is stored. -/
theorem operand_stored_esa :
    Stored cmdEpcqSeta 0x01E00000
        (run step initial (commandInput 0x00455341 :: [] ++ [commandInput 0x01E00000]))
        (step idleInput
          (run step initial (commandInput 0x00455341 :: [] ++ [commandInput 0x01E00000]))) :=
  (operand_stored_iff initial (commandInput 0x00455341) [] (commandInput 0x01E00000) idleInput
    (by decide) (by decide) (by decide) (by simp) (by decide)).2 (by decide)

/-- The address `0x00455345` spells `ESE` and erases a sector; after one idle cycle
    the address `0x01E00000` is acknowledged as a command and not stored. -/
theorem operand_not_stored :
    (step idleInput (run step initial
        [commandInput 0x00455341, commandInput 0x00455345])).out.epcqioEraseSector = true ∧
      (step idleInput (run step initial
        [commandInput 0x00455341, idleInput, commandInput 0x01E00000])).sendCmdAck = true ∧
      (step idleInput (run step initial
        [commandInput 0x00455341, idleInput, commandInput 0x01E00000])).settings =
          initial.settings := by
  decide

end OdileController

end FpgaEthernet
