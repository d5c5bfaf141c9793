import FpgaEthernet.CommonModules.ConfigRegisterBlock

/-!
# `tse_config_controller`

Model of `ethernet/tse_config_controller.vhd`, which sets the registers of the
Altera TSE MAC over its bus: first those of the PCS, then those of the PHY over
MDIO, then those of the MAC itself. A watchdog restarts it when it stays in one
state for too long.

The states that write one register each with the same assignments are written as
one with the register as a parameter: `pcsCfg`, `mdioRead`, `mdioWrite` and
`macCfg`.

Main results:

* `action_nextState`: the states that may follow a state.
* `stateMachine_cases`: the ways in which an edge changes the state machine.
* `Guarded.step`: once the MAC is ready the watchdog does nothing.
* `Machine.Sound.step`: what the variables of the state machine hold.
-/

namespace FpgaEthernet.TseConfigController

open Clocked

/-! ## Reset of the PHY -/

/-- The registers and variables of `common_modules/reset_controller.vhd`. -/
structure ResetController where
  resetOut : Bool
  resetDoneSig : Bool
  resetDoneDelayed : Bool
  cycle : ℕ
  delayCycle : ℕ
  deriving DecidableEq

/-- `reset_done_delayed_cycles` (`reset_controller.vhd` line 44). -/
def resetDoneDelayedCycles : ℕ := 10

/-- `reset_trigger` (lines 52-73). -/
def ResetController.resetTrigger (activateReset : Bool) (resetCycles : ℕ) (r : ResetController) :
    ResetController :=
  if activateReset then { r with resetOut := true, cycle := 1, resetDoneSig := false }
  else if resetCycles ≤ r.cycle then
    { r with resetDoneSig := true, resetOut := false, cycle := 0 }
  else if 1 ≤ r.cycle then
    { r with resetOut := true, resetDoneSig := false, cycle := r.cycle + 1 }
  else { r with resetOut := false, resetDoneSig := false }

/-- One edge of `clock`, with `reset_done_delayer` (lines 77-94). -/
def ResetController.step (activateReset : Bool) (resetCycles : ℕ) (r : ResetController) :
    ResetController :=
  let t := r.resetTrigger activateReset resetCycles
  if r.resetDoneSig then { t with delayCycle := 1, resetDoneDelayed := true }
  else if resetDoneDelayedCycles ≤ r.delayCycle then
    { t with delayCycle := 0, resetDoneDelayed := false }
  else if 1 ≤ r.delayCycle then
    { t with delayCycle := r.delayCycle + 1, resetDoneDelayed := true }
  else { t with resetDoneDelayed := false }

/-! ## Settings -/

/-- `tse_config_address` (`tse_config_controller.vhd` line 105). -/
abbrev TseConfigAddress := BitVec 8

/-- The generics (lines 36-41). -/
structure Generics where
  tseFifoSize : ℕ
  portId : Fin 3

/-- `TSE_CONFIG_ADDRESSES` (`eth_common.vhd` lines 111-113). -/
def tseConfigAddresses : Fin 3 → BitVec 7 := ![0x13, 0x14, 0x15]

/-- `DEFAULT_SETTINGS` (lines 337-362). -/
def defaultSettings : Fin 8 → Word :=
  ![0x937F0140, 0xFC1F0000, 0xFEFF0000, 0xFFFFC000, 0xFFF40004, 0xFFFF0000, 1000, 30000]

/-- The registers that `config_dff` (lines 435-459) loads from `config`. -/
structure Controls where
  loopEna : Bool
  txAddrIns : Bool
  promisEn : Bool
  noLgthCheck : Bool
  enableAN : Bool
  crcFwd : Bool
  configPCS : Bool
  configMDIO : Bool
  setMDIOCtrl0 : Bool
  setMDIOAN : Bool
  setMDIO1000base : Bool
  setMDIOPhyctrl : Bool
  setMDIOEphystatus : Bool
  setMDIOEphyctrl : Bool
  setMDIOSwReset : Bool
  readLinkStatus : Bool
  skipPhyReset : Bool
  skipMdioWait : Bool
  deriving DecidableEq

/-- `config_dff` (lines 435-459). -/
def configDff (config : Word) : Controls where
  loopEna := config.getLsbD 0
  txAddrIns := config.getLsbD 1
  promisEn := config.getLsbD 2
  noLgthCheck := config.getLsbD 3
  enableAN := config.getLsbD 4
  crcFwd := false
  configPCS := config.getLsbD 6
  configMDIO := config.getLsbD 7
  setMDIOCtrl0 := config.getLsbD 16
  setMDIOAN := config.getLsbD 17
  setMDIO1000base := config.getLsbD 18
  setMDIOPhyctrl := config.getLsbD 19
  setMDIOEphystatus := config.getLsbD 20
  setMDIOEphyctrl := config.getLsbD 21
  setMDIOSwReset := config.getLsbD 22
  readLinkStatus := config.getLsbD 29
  skipPhyReset := config.getLsbD 30
  skipMdioWait := config.getLsbD 31

/-- `iface_type` (`eth_common.vhd` line 47). -/
inductive IfaceType
  | BASEX
  | RGMII
  | SGMII
  deriving DecidableEq

namespace Controls

/-- `iface_mode` (lines 417-420). -/
def ifaceMode (c : Controls) : IfaceType :=
  if c.configPCS = true ∧ c.configMDIO = false then .BASEX
  else if c.configPCS = false ∧ c.configMDIO = true then .RGMII
  else if c.configPCS = true ∧ c.configMDIO = true then .SGMII
  else .BASEX

/-- `pcs_command_word` (line 422). -/
def pcsCommandWord (c : Controls) : Word := if c.enableAN then 0x00001140 else 0

/-- `pcs_reset_word` (line 423). -/
def pcsResetWord (c : Controls) : Word := if c.enableAN then 0x00009140 else 0x00008000

/-- `MDIO_address_mask` (line 426). -/
def mdioAddressMask (c : Controls) : TseConfigAddress := if c.ifaceMode = .SGMII then 0x20 else 0

/-- `PCS_AN_LINK_TIMER` (lines 427-428). -/
def pcsAnLinkTimer (c : Controls) : Word :=
  if c.ifaceMode = .BASEX then 0x001312D0 else 0x00030D40

/-- `PCS_IF_MODE` (lines 429-431). -/
def pcsIfMode (c : Controls) : Word :=
  if c.ifaceMode = .BASEX then 0
  else if c.ifaceMode = .SGMII ∧ c.enableAN = true then 0x00000003
  else 0x00000009

/-- The word for the command register of the MAC (lines 831-843 and where it is
    repeated). -/
def macCommandWord (c : Controls) (counterReset swReset rxEna txEna : Bool) : Word :=
  (BitVec.ofBool counterReset ++ 0#3 ++      -- [31,30..28]
    0#1 ++ 0#1 ++                            -- read_timeout, rx_err_disc
    0#1 ++ BitVec.ofBool c.noLgthCheck ++    -- ena_10
    0#1 ++ 0#1 ++                            -- cntl_frm_ena, xoff_gen
    0#1 ++
    0#1 ++ 0#1 ++                            -- sleep, magic_ena
    0#3 ++ BitVec.ofBool c.loopEna ++        -- tx_addr_sel
    0#1 ++ BitVec.ofBool swReset ++          -- mhash_sel
    0#1 ++ 0#1 ++                            -- late_col, excess_col
    0#1 ++ BitVec.ofBool c.txAddrIns ++      -- hd_ena
    0#1 ++ 0#1 ++                            -- pause_ignore, pause_fwd
    BitVec.ofBool c.crcFwd ++ 1#1 ++         -- pad_en
    BitVec.ofBool c.promisEn ++ 1#1 ++       -- eth_speed
    0#1 ++ BitVec.ofBool rxEna ++ BitVec.ofBool txEna : BitVec 32)

end Controls

/-! ## Registers of the PCS, the PHY and the MAC -/

/-- The PCS registers that are only written, in this order (lines 548-578). -/
inductive PcsReg
  | autoTm0
  | autoTm1
  | ifMode
  | anEn
  | writeReset
  deriving DecidableEq

/-- The PHY registers that are read, changed and written, in this order
    (lines 644-816). -/
inductive MdioReg
  | ctrl0
  | an
  | base1000Ctrl
  | phyctrl
  | ephystatus
  | ephyctrl
  | reset
  deriving DecidableEq

/-- The MAC registers other than the command register, in the order in which
    they are written (lines 863-972). -/
inductive MacReg
  | fifoTxSe
  | fifoTxSf
  | fifoTxAe
  | fifoTxAf
  | fifoRxSe
  | fifoRxSf
  | fifoRxAe
  | fifoRxAf
  | macAddr0
  | macAddr1
  | frmLength
  | ipgLength
  | pauseQuanta
  | txCmdStat
  | rxCmdStat
  deriving DecidableEq

/-- The MAC registers in the order of their writes. -/
def MacReg.all : List MacReg :=
  [fifoTxSe, fifoTxSf, fifoTxAe, fifoTxAf, fifoRxSe, fifoRxSf, fifoRxAe, fifoRxAf, macAddr0,
    macAddr1, frmLength, ipgLength, pauseQuanta, txCmdStat, rxCmdStat]

/-- `state_type` (lines 197-229). -/
inductive StateType
  | hwReset
  | preConfig
  | macWriteMdioAddr
  | phyResetTrigger
  | phyResetWait
  | mdioWait
  | mdioRead (r : MdioReg)
  | mdioWrite (r : MdioReg)
  | pcsCfg (r : PcsReg)
  | pcsCfgReadReset
  | macCfgWriteEnaDb
  | macCfgWaitEnaDb
  | macCfg (r : MacReg)
  | macCfgSwReset
  | macCfgWaitSwReset
  | macCfgWriteEnaEn
  | macCfgWaitEnaEn
  | macCfgReady
  | macConfigError
  | mdioReadPhystatus
  | mdioProcessLinkstatus
  deriving DecidableEq

namespace PcsReg

/-- `PCS_LINK_TIMER0_ADDR` and the others (lines 131-137). -/
def address : PcsReg → TseConfigAddress
  | autoTm0 => 0x92
  | autoTm1 => 0x93
  | ifMode => 0x94
  | anEn => 0x80
  | writeReset => 0x80

def data (c : Controls) : PcsReg → Word
  | autoTm0 => (0#16 ++ c.pcsAnLinkTimer.extractLsb' 0 16 : BitVec 32)
  | autoTm1 => (0#27 ++ c.pcsAnLinkTimer.extractLsb' 16 5 : BitVec 32)
  | ifMode => c.pcsIfMode
  | anEn => c.pcsCommandWord
  | writeReset => c.pcsResetWord

def next : PcsReg → StateType
  | autoTm0 => .pcsCfg autoTm1
  | autoTm1 => .pcsCfg ifMode
  | ifMode => .pcsCfg anEn
  | anEn => .pcsCfg writeReset
  | writeReset => .pcsCfgReadReset

end PcsReg

namespace MdioReg

/-- `MDIO_CTRL_ADDR` and the others (lines 166-171). -/
def address : MdioReg → TseConfigAddress
  | ctrl0 => 0x80
  | an => 0x84
  | base1000Ctrl => 0x89
  | phyctrl => 0x90
  | ephystatus => 0x9B
  | ephyctrl => 0x94
  | reset => 0x80

/-- Whether the register is to be set. -/
def enabled (c : Controls) : MdioReg → Bool
  | ctrl0 => c.setMDIOCtrl0
  | an => c.setMDIOAN
  | base1000Ctrl => c.setMDIO1000base
  | phyctrl => c.setMDIOPhyctrl
  | ephystatus => c.setMDIOEphystatus
  | ephyctrl => c.setMDIOEphyctrl
  | reset => c.setMDIOSwReset

/-- The masks of a register: the configuration registers are numbered in the order
    of the six registers (lines 354-362), and the software reset has none. -/
def masks (regs : Fin 8 → Word) : MdioReg → Option Word
  | ctrl0 => some (regs 0)
  | an => some (regs 1)
  | base1000Ctrl => some (regs 2)
  | phyctrl => some (regs 3)
  | ephystatus => some (regs 4)
  | ephyctrl => some (regs 5)
  | reset => none

/-- What was read, with the mask of a configuration register applied. -/
def masked (reg readdata : Word) : Word :=
  (0#16 ++ ((lo readdata &&& hi reg) ||| lo reg) : BitVec 32)

/-- What `mac_command_word` becomes. -/
def word (regs : Fin 8 → Word) (readdata : Word) : MdioReg → Word
  | ctrl0 => masked (regs 0) readdata
  | an => masked (regs 1) readdata
  | base1000Ctrl => masked (regs 2) readdata
  | phyctrl => masked (regs 3) readdata
  | ephystatus => masked (regs 4) readdata
  | ephyctrl => masked (regs 5) readdata
  | reset => readdata ||| 0x00008000

/-- Whether that is put on `writedata`: `MDIO_WRITE_1000BASE_CTRL` does not. -/
def drivesWritedata : MdioReg → Bool
  | base1000Ctrl => false
  | ctrl0 | an | phyctrl | ephystatus | ephyctrl | reset => true

def next : MdioReg → StateType
  | ctrl0 => .mdioRead an
  | an => .mdioRead base1000Ctrl
  | base1000Ctrl => .mdioRead phyctrl
  | phyctrl => .mdioRead ephystatus
  | ephystatus => .mdioRead ephyctrl
  | ephyctrl => .mdioRead reset
  | reset => .macCfgWriteEnaDb

end MdioReg

/-- `MAC_COMMAND_ADDR` (line 110). -/
def macCommandAddr : TseConfigAddress := 0x02

namespace MacReg

/-- `TX_SECTION_EMPTY_ADDR` and the others (lines 111-125). -/
def address : MacReg → TseConfigAddress
  | fifoTxSe => 0x09
  | fifoTxSf => 0x0A
  | fifoTxAe => 0x0D
  | fifoTxAf => 0x0E
  | fifoRxSe => 0x07
  | fifoRxSf => 0x08
  | fifoRxAe => 0x0B
  | fifoRxAf => 0x0C
  | macAddr0 => 0x03
  | macAddr1 => 0x04
  | frmLength => 0x05
  | ipgLength => 0x17
  | pauseQuanta => 0x06
  | txCmdStat => 0x3A
  | rxCmdStat => 0x3B

def data (tseFifoSize : ℕ) (mac : MacAddr) : MacReg → Word
  | fifoTxSe => BitVec.ofNat 32 (tseFifoSize - 16)
  | fifoTxSf => 0
  | fifoTxAe => 8
  | fifoTxAf => 3
  | fifoRxSe => BitVec.ofNat 32 (tseFifoSize - 16)
  | fifoRxSf => 0
  | fifoRxAe => 8
  | fifoRxAf => 8
  | macAddr0 =>
    (mac.extractLsb' 16 8 ++ mac.extractLsb' 24 8 ++ mac.extractLsb' 32 8 ++
      mac.extractLsb' 40 8 : BitVec 32)
  | macAddr1 => (0#16 ++ mac.extractLsb' 0 8 ++ mac.extractLsb' 8 8 : BitVec 32)
  | frmLength => 1518
  | ipgLength => 12
  | pauseQuanta => 0x0000FFFF
  | txCmdStat => 0x00040000
  | rxCmdStat => 0x02000000

def next : MacReg → StateType
  | fifoTxSe => .macCfg fifoTxSf
  | fifoTxSf => .macCfg fifoTxAe
  | fifoTxAe => .macCfg fifoTxAf
  | fifoTxAf => .macCfg fifoRxSe
  | fifoRxSe => .macCfg fifoRxSf
  | fifoRxSf => .macCfg fifoRxAe
  | fifoRxAe => .macCfg fifoRxAf
  | fifoRxAf => .macCfg macAddr0
  | macAddr0 => .macCfg macAddr1
  | macAddr1 => .macCfg frmLength
  | frmLength => .macCfg ipgLength
  | ipgLength => .macCfg pauseQuanta
  | pauseQuanta => .macCfg txCmdStat
  | txCmdStat => .macCfg rxCmdStat
  | rxCmdStat => .macCfgSwReset

end MacReg

/-! ## Registers and ports -/

/-- The ports (lines 42-90), without `mac_sw_reset`, which is not read. -/
structure Input where
  reconfig : Bool
  readdata : Word
  waitrequest : Bool
  configIn : ConfigRegisterBlock.Input
  config : Word
  macAddr : MacAddr

/-- The registers and variables of `state_machine`. -/
structure Machine where
  state : StateType
  nextState : StateType
  macReady : Bool
  macError : Bool
  writeReq : Bool
  readReq : Bool
  inMdio : Bool
  address : TseConfigAddress
  writeData : Word
  linkStatusSig : Bool
  activateReset : Bool
  macCommandWord : Word
  txEna : Bool
  rxEna : Bool
  swReset : Bool
  counterReset : Bool
  mdioDelayCounter : ℕ
  linkReadTimer : ℕ
  deriving DecidableEq

/-- The registers and variables of `watch_dog`. -/
structure WatchDog where
  stateMachineReset : Bool
  stateMachineError : Bool
  timer : ℕ
  resetAttempts : ℕ
  deriving DecidableEq

structure State where
  controls : Controls
  linkStatus : Bool
  machine : Machine
  watchDog : WatchDog
  config : ConfigRegisterBlock.State 8
  resetController : ResetController

/-- The registers when `reset` is released after some edges at which `config` was
    the value given. -/
def reset (config : Word) : State where
  controls := configDff config
  linkStatus := false
  machine := {
    state := .hwReset
    nextState := .preConfig
    macReady := false
    macError := false
    writeReq := false
    readReq := false
    inMdio := false
    address := 0
    writeData := 0
    linkStatusSig := false
    activateReset := false
    macCommandWord := 0
    txEna := false
    rxEna := false
    swReset := false
    counterReset := false
    mdioDelayCounter := 0
    linkReadTimer := 0 }
  watchDog := {
    stateMachineReset := false
    stateMachineError := false
    timer := 0
    resetAttempts := 0 }
  config := ConfigRegisterBlock.initial defaultSettings
  resetController := {
    resetOut := false
    resetDoneSig := false
    resetDoneDelayed := false
    cycle := 0
    delayCycle := 0 }

/-! ## State machine -/

/-- The assignments of `HW_RESET` and of `PRE_CONFIG` (lines 513-545). -/
def Machine.cleared (m : Machine) : Machine :=
  { m with
    macReady := false
    macError := false
    writeReq := false
    writeData := 0
    readReq := false
    address := 0
    inMdio := false
    mdioDelayCounter := 0
    linkReadTimer := 0
    linkStatusSig := false }

/-- No request is made. -/
def Machine.quiet (m : Machine) : Machine := { m with writeReq := false, readReq := false }

/-- A register is read. -/
def Machine.read (address : TseConfigAddress) (m : Machine) : Machine :=
  { m with writeReq := false, readReq := true, address := address }

/-- A register is written. -/
def Machine.write (address : TseConfigAddress) (data : Word) (m : Machine) : Machine :=
  { m with readReq := false, writeReq := true, address := address, writeData := data }

/-- `mac_command_word` is composed. -/
def Machine.compose (c : Controls) (m : Machine) : Machine :=
  { m with macCommandWord := c.macCommandWord m.counterReset m.swReset m.rxEna m.txEna }

/-- `reconfig_sig` (line 405). -/
def reconfigSig (i : Input) (s : State) : Bool := i.reconfig || s.config.configChanged

/-- The branches of the `case` (lines 511-1114), with `state` already assigned. -/
def action (g : Generics) (i : Input) (s : State) (m : Machine) : StateType → Machine
  | .hwReset => { m.cleared with nextState := .preConfig }
  | .preConfig =>
    { m.cleared with
      nextState :=
        if s.controls.configPCS then .pcsCfg .autoTm0
        else if s.controls.configMDIO then .macWriteMdioAddr
        else .macCfgWriteEnaDb }
  | .pcsCfg r =>
    { m with
      writeReq := true
      address := r.address
      writeData := r.data s.controls
      nextState := r.next }
  | .pcsCfgReadReset =>
    { m.read 0x80 with
      nextState :=
        if i.readdata ≠ s.controls.pcsCommandWord then .pcsCfgReadReset
        else if s.controls.configMDIO then .macWriteMdioAddr
        else .macCfgWriteEnaDb }
  | .macWriteMdioAddr =>
    { m.write (if s.controls.mdioAddressMask = 0 then 0x0F else 0x10) 0 with
      nextState := .phyResetTrigger
      mdioDelayCounter := 0 }
  | .phyResetTrigger =>
    { m.quiet with
      inMdio := true
      activateReset := if s.controls.skipPhyReset = false then true else m.activateReset
      nextState := .phyResetWait }
  | .phyResetWait =>
    { m.quiet with
      inMdio := true
      activateReset := false
      nextState :=
        if s.controls.skipPhyReset = true ∨ s.resetController.resetDoneDelayed = true then .mdioWait
        else .phyResetWait }
  | .mdioWait =>
    { m.quiet with
      inMdio := true
      mdioDelayCounter := m.mdioDelayCounter + 1
      nextState :=
        if (s.config.configRegisters 7).toNat ≤ m.mdioDelayCounter + 1 ∨
            s.controls.skipMdioWait = true then .mdioRead .ctrl0
        else .mdioWait }
  | .mdioRead r =>
    { if r.enabled s.controls then m.read (r.address ||| s.controls.mdioAddressMask)
      else m.quiet with
      inMdio := if r = .ctrl0 then true else m.inMdio
      nextState := .mdioWrite r }
  | .mdioWrite r =>
    let w := r.word s.config.configRegisters i.readdata
    { if r.enabled s.controls then
        { m.write (r.address ||| s.controls.mdioAddressMask)
            (if r.drivesWritedata then w else m.writeData) with
          macCommandWord := w }
      else m.quiet with
      inMdio := if r = .reset then false else m.inMdio
      nextState := r.next }
  | .macCfgWriteEnaDb =>
    let m := Machine.compose s.controls { m with txEna := false, rxEna := false, swReset := false }
    { m.write macCommandAddr m.macCommandWord with
      inMdio := false
      nextState := .macCfgWaitEnaDb }
  | .macCfgWaitEnaDb =>
    { m.read macCommandAddr with
      nextState :=
        if i.readdata = m.macCommandWord then .macCfg .fifoTxSe else .macCfgWaitEnaDb }
  | .macCfg r => { m.write r.address (r.data g.tseFifoSize i.macAddr) with nextState := r.next }
  | .macCfgSwReset =>
    let m := Machine.compose s.controls { m with counterReset := false, swReset := true }
    { m.write macCommandAddr m.macCommandWord with nextState := .macCfgWaitSwReset }
  | .macCfgWaitSwReset =>
    let m := Machine.compose s.controls { m with swReset := false }
    { m.read macCommandAddr with
      writeData := 0
      nextState :=
        if i.readdata = m.macCommandWord then .macCfgWriteEnaEn else .macCfgWaitSwReset }
  | .macCfgWriteEnaEn =>
    let m := Machine.compose s.controls { m with txEna := true, rxEna := true }
    { m.write macCommandAddr m.macCommandWord with nextState := .macCfgWaitEnaEn }
  | .macCfgWaitEnaEn =>
    { m.read macCommandAddr with
      nextState := if i.readdata = m.macCommandWord then .macCfgReady else .macCfgWaitEnaEn }
  | .macCfgReady =>
    { m.quiet with
      writeData := 0
      address := 0
      macReady := true
      macError := false
      nextState :=
        if (s.config.configRegisters 7).toNat ≤ m.linkReadTimer then .mdioReadPhystatus
        else .macCfgReady
      linkReadTimer :=
        if s.controls.readLinkStatus then m.linkReadTimer + 1 else m.linkReadTimer }
  | .macConfigError =>
    { m.quiet with
      writeData := 0
      address := 0
      macReady := false
      macError := true
      nextState := .macConfigError }
  | .mdioReadPhystatus =>
    { m.read (0x91 ||| s.controls.mdioAddressMask) with
      inMdio := true
      nextState := .mdioProcessLinkstatus
      linkReadTimer := 0 }
  | .mdioProcessLinkstatus =>
    { m.quiet with
      inMdio := false
      address := 0
      nextState := .macCfgReady
      linkStatusSig := i.readdata.getLsbD 10 }

/-- `state_machine` (lines 474-1118). -/
def stateMachine (g : Generics) (i : Input) (s : State) : Machine :=
  if s.watchDog.stateMachineReset then { s.machine with nextState := .preConfig }
  else if s.watchDog.stateMachineError then { s.machine with nextState := .macConfigError }
  else if reconfigSig i s then { s.machine with nextState := .preConfig, macReady := false }
  else if i.waitrequest = true ∧ (s.machine.readReq = true ∨ s.machine.writeReq = true) then
    s.machine
  else action g i s { s.machine with state := s.machine.nextState } s.machine.nextState

/-! ## Watchdog -/

/-- `STATE_MACHINE_TIMEOUT` (line 95). -/
def stateMachineTimeout : ℕ := 5000

/-- `STATE_MACHINE_RESET_ATTEMPTS` (line 96). -/
def stateMachineResetAttempts : ℕ := 10

/-- The watchdog is not needed (line 1136). -/
def WatchDog.Idle (m : Machine) (w : WatchDog) : Prop :=
  m.nextState = .preConfig ∨ m.macReady = true ∨ w.stateMachineError = true

instance (m : Machine) (w : WatchDog) : Decidable (w.Idle m) :=
  inferInstanceAs (Decidable (_ ∨ _ ∨ _))

/-- `timer` after lines 1136-1149. -/
def WatchDog.timerNext (m : Machine) (w : WatchDog) : ℕ :=
  if w.Idle m then 0
  else if m.state = m.nextState then if m.inMdio = false then w.timer + 1 else w.timer
  else 0

/-- `watch_dog` (lines 1125-1161). -/
def WatchDog.step (m : Machine) (w : WatchDog) : WatchDog :=
  let timer := w.timerNext m
  let fires := decide (stateMachineTimeout ≤ timer) && !w.stateMachineReset
  let attempts := if fires then w.resetAttempts + 1 else w.resetAttempts
  { timer := timer
    resetAttempts := attempts
    stateMachineReset := if fires then true else if w.Idle m then false else w.stateMachineReset
    stateMachineError := w.stateMachineError || decide (stateMachineResetAttempts ≤ attempts) }

/-! ## Controller -/

/-- One edge of `clock`. -/
def step (g : Generics) (i : Input) (s : State) : State where
  controls := configDff i.config
  linkStatus := s.machine.linkStatusSig
  machine := stateMachine g i s
  watchDog := s.watchDog.step s.machine
  config := ConfigRegisterBlock.step (tseConfigAddresses g.portId) i.configIn s.config
  resetController :=
    s.resetController.step s.machine.activateReset (s.config.configRegisters 6).toNat

/-! ## Control flow -/

/-- The states that may follow a state, unless the watchdog or a reconfiguration
    intervenes. -/
def successors : StateType → List StateType
  | .hwReset => [.preConfig]
  | .preConfig => [.pcsCfg .autoTm0, .macWriteMdioAddr, .macCfgWriteEnaDb]
  | .pcsCfg r => [r.next]
  | .pcsCfgReadReset => [.pcsCfgReadReset, .macWriteMdioAddr, .macCfgWriteEnaDb]
  | .macWriteMdioAddr => [.phyResetTrigger]
  | .phyResetTrigger => [.phyResetWait]
  | .phyResetWait => [.phyResetWait, .mdioWait]
  | .mdioWait => [.mdioWait, .mdioRead .ctrl0]
  | .mdioRead r => [.mdioWrite r]
  | .mdioWrite r => [r.next]
  | .macCfgWriteEnaDb => [.macCfgWaitEnaDb]
  | .macCfgWaitEnaDb => [.macCfgWaitEnaDb, .macCfg .fifoTxSe]
  | .macCfg r => [r.next]
  | .macCfgSwReset => [.macCfgWaitSwReset]
  | .macCfgWaitSwReset => [.macCfgWaitSwReset, .macCfgWriteEnaEn]
  | .macCfgWriteEnaEn => [.macCfgWaitEnaEn]
  | .macCfgWaitEnaEn => [.macCfgWaitEnaEn, .macCfgReady]
  | .macCfgReady => [.macCfgReady, .mdioReadPhystatus]
  | .macConfigError => [.macConfigError]
  | .mdioReadPhystatus => [.mdioProcessLinkstatus]
  | .mdioProcessLinkstatus => [.macCfgReady]

/-- The MAC has been disabled and not been enabled again. -/
def isDisabled : StateType → Bool
  | .macCfgWaitEnaDb | .macCfg _ | .macCfgSwReset | .macCfgWaitSwReset | .macCfgWriteEnaEn => true
  | _ => false

/-- The MAC is ready, or its link status is being read. -/
def isReady : StateType → Bool
  | .macCfgReady | .mdioReadPhystatus | .mdioProcessLinkstatus => true
  | _ => false

/-- The state writes a register of the MAC. -/
def isMacWrite : StateType → Bool
  | .macCfgWriteEnaDb | .macCfg _ | .macCfgSwReset | .macCfgWriteEnaEn => true
  | _ => false

/-- How many registers of the MAC have been written, the last write perhaps not
    completed yet, when `next_state` is the state given. -/
def progress : StateType → Option ℕ
  | .macCfgWriteEnaDb => some 0
  | .macCfgWaitEnaDb => some 1
  | .macCfg r => some (1 + MacReg.all.idxOf r)
  | .macCfgSwReset => some 16
  | .macCfgWaitSwReset => some 17
  | .macCfgWriteEnaEn => some 17
  | .macCfgWaitEnaEn => some 18
  | .macCfgReady => some 18
  | .mdioReadPhystatus => some 18
  | .mdioProcessLinkstatus => some 18
  | _ => none

theorem isDisabled_successors (n n' : StateType) (hn : n' ∈ successors n)
    (h : isDisabled n' = true) :
    n = .macCfgWriteEnaDb ∨ isDisabled n = true ∧ n ≠ .macCfgWriteEnaEn := by
  cases n with
  | macCfgWriteEnaDb => exact Or.inl rfl
  | macCfgWaitEnaDb | macCfg r | macCfgSwReset | macCfgWaitSwReset => exact Or.inr ⟨rfl, nofun⟩
  | pcsCfg r | mdioWrite r =>
    obtain rfl := List.mem_singleton.1 hn
    cases r <;> exact absurd h Bool.false_ne_true
  | _ => fin_cases hn <;> exact absurd h Bool.false_ne_true

theorem isReady_successors (n n' : StateType) (hn : n' ∈ successors n) (h : isReady n = true) :
    isReady n' = true := by
  cases n with
  | macCfgReady | mdioReadPhystatus | mdioProcessLinkstatus =>
    fin_cases hn <;> rfl
  | _ => exact absurd h Bool.false_ne_true

theorem writeEnaEn_successors (n : StateType) (hn : .macCfgWriteEnaEn ∈ successors n) :
    n = .macCfgWaitSwReset := by
  cases n with
  | macCfgWaitSwReset => rfl
  | pcsCfg r | mdioWrite r | macCfg r =>
    cases r <;> simp [successors, PcsReg.next, MdioReg.next, MacReg.next] at hn
  | _ => simp [successors] at hn

theorem progress_successors (n n' : StateType) (hn : n' ∈ successors n) : progress n' = none ∨
    progress n' = some 0 ∨ progress n' = (progress n).map (· + (isMacWrite n).toNat) := by
  cases n with
  | macCfg r =>
    obtain rfl := List.mem_singleton.1 hn
    right
    right
    cases r <;> rfl
  | pcsCfg r | mdioWrite r =>
    obtain rfl := List.mem_singleton.1 hn
    cases r <;> simp [PcsReg.next, MdioReg.next, progress]
  | _ => fin_cases hn <;> simp [progress, isMacWrite, MacReg.all]

theorem progress_isReady (n : StateType) (h : isReady n = true) : progress n = some 18 := by
  cases n with
  | macCfgReady | mdioReadPhystatus | mdioProcessLinkstatus => rfl
  | _ => exact absurd h Bool.false_ne_true

variable {g : Generics} {i : Input} {s : State} {m : Machine} {n : StateType}

theorem action_nextState : (action g i s m n).nextState ∈ successors n := by
  cases n <;> simp only [action, successors] <;> (try split_ifs) <;> simp

theorem mem_successors {n' : StateType} (h : (action g i s m n).nextState = n') :
    n' ∈ successors n :=
  h ▸ action_nextState

/-! ## Variables -/

theorem action_ena (hdb : n ≠ .macCfgWriteEnaDb) (hen : n ≠ .macCfgWriteEnaEn) :
    (action g i s m n).txEna = m.txEna ∧ (action g i s m n).rxEna = m.rxEna := by
  cases n with
  | macCfgWriteEnaDb => exact absurd rfl hdb
  | macCfgWriteEnaEn => exact absurd rfl hen
  | mdioRead r | mdioWrite r =>
    simp only [action]
    split_ifs <;> exact ⟨rfl, rfl⟩
  | _ => exact ⟨rfl, rfl⟩

theorem action_counterReset (h : m.counterReset = false) :
    (action g i s m n).counterReset = false := by
  cases n with
  | macCfgSwReset => rfl
  | mdioRead r | mdioWrite r =>
    simp only [action]
    split_ifs <;> exact h
  | _ => exact h

theorem action_state : (action g i s m n).state = m.state := by
  cases n with
  | mdioRead r | mdioWrite r =>
    simp only [action]
    split_ifs <;> rfl
  | _ => rfl

/-- Only `MAC_CFG_READY` raises `mac_ready`. -/
theorem action_macReady (h : (action g i s m n).macReady = true) :
    n = .macCfgReady ∨ m.macReady = true := by
  cases n with
  | macCfgReady => exact Or.inl rfl
  | hwReset | preConfig | macConfigError => exact absurd h Bool.false_ne_true
  | mdioRead r | mdioWrite r =>
    simp only [action] at h
    split_ifs at h <;> exact Or.inr h
  | _ => exact Or.inr h

theorem action_writeReq (h : isReady n = true) : (action g i s m n).writeReq = false := by
  cases n with
  | macCfgReady | mdioReadPhystatus | mdioProcessLinkstatus => rfl
  | _ => exact absurd h Bool.false_ne_true

/-- The variables are such that the command words come out as they should, and
    `mac_ready` is high in the last states only. -/
structure Machine.Sound (m : Machine) : Prop where
  counterReset : m.counterReset = false
  ena : isDisabled m.nextState = true → m.txEna = false ∧ m.rxEna = false
  swReset : m.nextState = .macCfgWriteEnaEn → m.swReset = false
  ready : m.macReady = true → isReady m.nextState = true ∧ m.writeReq = false

theorem sound_reset (config : Word) : (reset config).machine.Sound where
  counterReset := rfl
  ena _ := ⟨rfl, rfl⟩
  swReset _ := rfl
  ready h := by cases h

theorem Machine.Sound.action (h : m.Sound) :
    (action g i s { m with state := m.nextState } m.nextState).Sound where
  counterReset := action_counterReset h.counterReset
  ena hd := by
    rcases isDisabled_successors _ _ action_nextState hd with hn | ⟨hn, hen⟩
    · rw [hn]
      exact ⟨rfl, rfl⟩
    · have hdb : m.nextState ≠ .macCfgWriteEnaDb := by
        intro heq
        rw [heq] at hn
        exact Bool.false_ne_true hn
      obtain ⟨htx, hrx⟩ := action_ena hdb hen
      exact ⟨htx.trans (h.ena hn).1, hrx.trans (h.ena hn).2⟩
  swReset hn := by
    rw [writeEnaEn_successors _ (mem_successors hn)]
    rfl
  ready hr := by
    have hn : isReady m.nextState = true := by
      rcases action_macReady hr with heq | hr
      · rw [heq]
        rfl
      · exact (h.ready hr).1
    exact ⟨isReady_successors _ _ action_nextState hn, action_writeReq hn⟩

/-! ## Steps -/

/-- What an edge does to the state machine: the watchdog intervenes, a
    reconfiguration does, a request goes on, or the next state is entered. -/
theorem stateMachine_cases (g : Generics) (i : Input) (s : State) :
    (s.watchDog.stateMachineReset = true ∨ s.watchDog.stateMachineError = true) ∧
        (∃ n, (n = .preConfig ∨ n = .macConfigError) ∧
          stateMachine g i s = { s.machine with nextState := n }) ∨
      reconfigSig i s = true ∧
        stateMachine g i s = { s.machine with nextState := .preConfig, macReady := false } ∨
      reconfigSig i s = false ∧ i.waitrequest = true ∧ stateMachine g i s = s.machine ∨
      (s.watchDog.stateMachineReset = false ∧ s.watchDog.stateMachineError = false) ∧
        reconfigSig i s = false ∧
        (s.machine.readReq = true ∨ s.machine.writeReq = true → i.waitrequest = false) ∧
        stateMachine g i s =
          action g i s { s.machine with state := s.machine.nextState } s.machine.nextState := by
  unfold stateMachine
  split_ifs with hreset herror hreconfig hwait
  · exact Or.inl ⟨Or.inl hreset, .preConfig, Or.inl rfl, rfl⟩
  · exact Or.inl ⟨Or.inr herror, .macConfigError, Or.inr rfl, rfl⟩
  · exact Or.inr (Or.inl ⟨hreconfig, rfl⟩)
  · exact Or.inr (Or.inr (Or.inl ⟨by simpa using hreconfig, hwait.1, rfl⟩))
  · refine Or.inr (Or.inr (Or.inr ⟨⟨by simpa using hreset, by simpa using herror⟩,
      by simpa using hreconfig, fun hreq => ?_, rfl⟩))
    by_contra hwaits
    exact hwait ⟨by simpa using hwaits, hreq⟩

/-- The watchdog does nothing while its timer stands at 0. -/
theorem WatchDog.calm {w : WatchDog} (htimer : w.timerNext m = 0)
    (hreset : w.stateMachineReset = false ∨ w.Idle m) (herror : w.stateMachineError = false)
    (hattempts : w.resetAttempts < stateMachineResetAttempts) :
    (w.step m).stateMachineReset = false ∧ (w.step m).stateMachineError = false := by
  have hfires : decide (stateMachineTimeout ≤ w.timerNext m) = false := by
    rw [htimer]
    rfl
  simp only [WatchDog.step, hfires, Bool.false_and, Bool.false_eq_true, if_false]
  constructor
  · split_ifs with hidle
    · rfl
    · exact hreset.resolve_right hidle
  · simpa [herror] using hattempts

/-- The watchdog lets a MAC that is ready be. -/
structure Guarded (m : Machine) (w : WatchDog) : Prop where
  attempts : w.stateMachineError = false → w.resetAttempts < stateMachineResetAttempts
  entered : m.nextState = .macCfgReady → m.macReady = true ∨ m.state ≠ .macCfgReady
  calm : m.macReady = true → w.stateMachineReset = false ∧ w.stateMachineError = false

theorem guarded_reset (config : Word) : Guarded (reset config).machine (reset config).watchDog where
  attempts _ := Nat.succ_pos _
  entered h := by cases h
  calm h := by cases h

theorem Guarded.calm_of_ready {w : WatchDog} (h : Guarded m w) (hr : m.macReady = true) :
    (w.step m).stateMachineReset = false ∧ (w.step m).stateMachineError = false := by
  have hidle : w.Idle m := Or.inr (Or.inl hr)
  have herror := (h.calm hr).2
  exact WatchDog.calm (if_pos hidle) (Or.inr hidle) herror (h.attempts herror)

theorem Guarded.step (h : Guarded s.machine s.watchDog) :
    Guarded (stateMachine g i s) (s.watchDog.step s.machine) where
  attempts he := by
    simp only [WatchDog.step, Bool.or_eq_false_iff, decide_eq_false_iff_not, not_le] at he ⊢
    exact he.2
  entered hn := by
    rcases stateMachine_cases g i s with ⟨-, n, hn', heq⟩ | ⟨-, heq⟩ | ⟨-, -, heq⟩ |
      ⟨-, -, -, heq⟩ <;> rw [heq] at hn ⊢
    · rcases hn' with rfl | rfl <;> cases hn
    · cases hn
    · exact h.entered hn
    · rw [action_state]
      by_cases hready : s.machine.nextState = .macCfgReady
      · rw [hready]
        exact Or.inl rfl
      · exact Or.inr hready
  calm hr := by
    rcases stateMachine_cases g i s with ⟨hdog, n, -, heq⟩ | ⟨-, heq⟩ | ⟨-, -, heq⟩ |
      ⟨⟨hreset, herror⟩, -, -, heq⟩ <;> rw [heq] at hr
    · have hcalm := h.calm hr
      rw [hcalm.1, hcalm.2] at hdog
      simp at hdog
    · cases hr
    · exact h.calm_of_ready hr
    · by_cases hready : s.machine.macReady = true
      · exact h.calm_of_ready hready
      · have hn := (action_macReady hr).resolve_right hready
        have hstate := (h.entered hn).resolve_left hready
        apply WatchDog.calm _ (Or.inl hreset) herror (h.attempts herror)
        rw [WatchDog.timerNext, hn, if_neg hstate, ite_self]

/-- Out of the way of the watchdog and of a reconfiguration nothing is asked of
    the variables. -/
theorem Machine.Sound.restart {r : Bool} (h : m.Sound) (hn : n = .preConfig ∨ n = .macConfigError)
    (hr : r = false) : Machine.Sound { m with nextState := n, macReady := r } where
  counterReset := h.counterReset
  ena hd := by rcases hn with rfl | rfl <;> exact absurd hd Bool.false_ne_true
  swReset hs := by rcases hn with rfl | rfl <;> cases hs
  ready hready := by
    rw [hr] at hready
    exact absurd hready Bool.false_ne_true

theorem Machine.Sound.step (h : s.machine.Sound) (hg : Guarded s.machine s.watchDog) :
    (stateMachine g i s).Sound := by
  rcases stateMachine_cases g i s with ⟨hdog, n, hn, heq⟩ | ⟨-, heq⟩ | ⟨-, -, heq⟩ |
    ⟨-, -, -, heq⟩ <;> rw [heq]
  · apply h.restart hn
    by_contra hready
    have hcalm := hg.calm (by simpa using hready)
    rw [hcalm.1, hcalm.2] at hdog
    simp at hdog
  · exact h.restart (Or.inl rfl) rfl
  · exact h
  · exact h.action

end FpgaEthernet.TseConfigController
