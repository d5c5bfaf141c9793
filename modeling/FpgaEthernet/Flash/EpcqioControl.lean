import FpgaEthernet.Clocked.Delay
import FpgaEthernet.Clocked.Run
import FpgaEthernet.Ethernet.EthCommon

/-!
# `epcqio_control`

Model of the two state machines of `top_remote_update/epcqio_control.vhd` and of
the registers between them. `data_state_machine` runs on `data_clock` and hands
commands to `epcio_control`, which runs on `epcq_clock`; each side sees the other
through `NSYNC_STAGES + 1` registers on its own clock.

A state or a code that exists once for each command is written as one with the
command as a parameter.
-/

namespace FpgaEthernet.EpcqioControl

open Clocked

/-! ## Commands -/

/-- The commands of the data side. -/
inductive Command
  | write
  | read
  | en4b
  | eraseSector
  deriving DecidableEq, Repr

/-- `ec_cmd_type` (`epcqio_control.vhd` line 191). -/
abbrev EcCmd := BitVec 8

/-- `ECMD_READ_START`, `ECMD_WRITE_START`, `ECMD_EN4B_START`,
    `ECMD_ERASE_SECTOR_START` (lines 204-216). -/
def ecmdStart : Command → EcCmd
  | .read => 0x01
  | .write => 0x02
  | .en4b => 0x03
  | .eraseSector => 0x04

/-- `ECMD_READ_STARTED` and its like (lines 205-217). -/
def ecmdStarted : Command → EcCmd
  | .read => 0x11
  | .write => 0x12
  | .en4b => 0x13
  | .eraseSector => 0x14

/-- `ECMD_READ_DONE` and its like (lines 206-218). -/
def ecmdDone : Command → EcCmd
  | .read => 0x81
  | .write => 0x82
  | .en4b => 0x83
  | .eraseSector => 0x84

/-- `NSYNC_STAGES` (line 185). -/
def nsyncStages : ℕ := 3

/-- The registers of a value that comes from the other clock, the newest first:
    the source's index 0 is the last of them. -/
abbrev Sync (α : Type) := Delay α (nsyncStages + 1)

/-- What the receiving side reads. -/
def Sync.last {α : Type} (l : Sync α) : α := l ⟨nsyncStages, Nat.lt_succ_self _⟩

/-! ## The data side -/

/-- `data_state_type` (lines 226-227), with one `SEND` state for each command. -/
inductive DataState
  | hwReset
  | idle
  | send (c : Command)
  | waitStart
  | waitDone
  deriving DecidableEq, Repr

/-- The inputs of `data_state_machine`. -/
structure DataInput where
  writeData : Bool
  readData : Bool
  enable4byte : Bool
  eraseSector : Bool
  address : BitVec 32
  numWords : BitVec 7
  deriving DecidableEq

/-- The registers on `data_clock`. -/
structure DataSide where
  dataNextState : DataState
  nwords : BitVec 7
  startAddress : BitVec 32
  timer : ℕ
  ecCmd : EcCmd
  writeBusy : Bool
  readBusySig : Bool
  eraseBusy : Bool
  done : Bool
  ecRspSync : Sync EcCmd

/-- The cycles after which `WAIT_START` is left (line 501). -/
def startTimeout : ℕ := 1000000

/-- The command asked for, the first of them if there are several
    (lines 453-465). -/
def commandIn (i : DataInput) : Option Command :=
  if i.writeData then some .write
  else if i.readData then some .read
  else if i.enable4byte then some .en4b
  else if i.eraseSector then some .eraseSector
  else none

/-- `data_state_machine` (lines 429-519). -/
def dataStateMachine (i : DataInput) (s : DataSide) : DataSide :=
  match s.dataNextState with
  | .hwReset => { s with dataNextState := .idle }
  | .idle =>
    let d := { s with
      writeBusy := false
      readBusySig := false
      eraseBusy := false
      done := false
      ecCmd := 0
      timer := 0 }
    match commandIn i with
    | some .write =>
      { d with dataNextState := .send .write, nwords := i.numWords, startAddress := i.address }
    | some .read =>
      { d with dataNextState := .send .read, startAddress := i.address, nwords := i.numWords }
    | some .en4b => { d with dataNextState := .send .en4b }
    | some .eraseSector => { d with dataNextState := .send .eraseSector, startAddress := i.address }
    | none => d
  | .send c =>
    { s with
      ecCmd := ecmdStart c
      dataNextState := .waitStart
      writeBusy := s.writeBusy || decide (c = .write)
      readBusySig := s.readBusySig || decide (c = .read)
      eraseBusy := s.eraseBusy || decide (c = .eraseSector) }
  | .waitStart =>
    { s with
      timer := s.timer + 1
      dataNextState :=
        if startTimeout ≤ s.timer + 1 then .idle
        else if s.ecRspSync.last.getLsbD 4 then .waitDone else .waitStart }
  | .waitDone =>
    { s with
      ecCmd := 0
      dataNextState := if s.ecRspSync.last.getLsbD 7 then .idle else .waitDone
      done := s.done || s.ecRspSync.last.getLsbD 7 }

/-- An edge of `data_clock`, with `data_sync_reg` (lines 544-554). -/
def dataStep (i : DataInput) (ecRsp : EcCmd) (s : DataSide) : DataSide :=
  { dataStateMachine i s with ecRspSync := s.ecRspSync.clock ecRsp }

/-! ## The flash side -/

/-- `epcqio_state` (lines 222-223), with the start state of each command
    (`ENABLE4B`, `START_READ`, `START_WRITE`, `START_ERASE_SECTOR`) as one. -/
inductive EpcqioState
  | hwReset
  | idle
  | start (c : Command)
  | readBuffer
  | waitFifo
  | shiftBytes
  | waitWrite
  | waitBusy
  deriving DecidableEq, Repr

/-- The inputs of `epcio_control` from the megafunction and the buffers. -/
structure EcInput where
  epcqioBusy : Bool
  epcqioDataValid : Bool
  epcqioDataout : BitVec 8
  epcqioReadAddress : BitVec 32
  wrbuffQ : BitVec 8
  rdbuffWrusedw : BitVec 9
  deriving DecidableEq

/-- The registers and variables on `epcq_clock`. -/
structure EcSide where
  ecNextState : EpcqioState
  currAddress : BitVec 32
  endAddress : BitVec 32
  en4bEnabled : Bool
  bytesDone : ℕ
  bytesTodo : ℕ
  fifoTimer : ℕ
  busyTimer : ℕ
  bytesShifted : ℕ
  waitTimer : ℕ
  lastCmd : EcCmd
  lastAddress : BitVec 32
  ecRsp : EcCmd
  epcqioAddr : BitVec 32
  epcqioDatain : BitVec 8
  epcqioWren : Bool
  epcqioWrite : Bool
  epcqioEn4bAddr : Bool
  epcqioRead : Bool
  epcqioRden : Bool
  epcqioSectorErase : Bool
  epcqioShiftBytes : Bool
  rdbuffDatain : BitVec 8
  rdbuffWrreq : Bool
  wrbuffRdreq : Bool
  nwordsSync : Sync (BitVec 7)
  addressSync : Sync (BitVec 32)
  ecCmdSync : Sync EcCmd

/-- `PAGE_SIZE` (line 98). -/
def pageSize : ℕ := 256

/-- `FIFO_DELAY` (line 96). -/
def fifoDelay : ℕ := 2

/-- `READBUFF_FULL` (line 153). -/
def readbuffFull : BitVec 9 := 0b111111100

/-- Whether `IDLE` takes a command, after `lastCmd` and with the address
    `currAddress` (lines 617-633). -/
def taken (lastCmd : EcCmd) (lastAddress currAddress : BitVec 32) (cmd : EcCmd) :
    Option Command :=
  if cmd = ecmdStart .en4b ∧ lastCmd ≠ ecmdStart .en4b then some .en4b
  else if cmd = ecmdStart .read then some .read
  else if cmd = ecmdStart .write then some .write
  else if cmd = ecmdStart .eraseSector ∧ lastAddress ≠ currAddress ∧
      lastCmd ≠ ecmdStart .eraseSector then some .eraseSector
  else none

/-- The assignments before the `case` (lines 584-599). -/
def ecDefaults (i : EcInput) (s : EcSide) : EcSide :=
  { s with
    rdbuffDatain := i.epcqioDataout.reverse
    epcqioDatain := i.wrbuffQ.reverse
    rdbuffWrreq := i.epcqioDataValid
    wrbuffRdreq := false
    epcqioWren := false
    epcqioWrite := false
    epcqioEn4bAddr := false
    epcqioRead := false
    epcqioRden := false
    epcqioSectorErase := false
    epcqioShiftBytes := false }

/-- The response at the end of `WAIT_BUSY` (lines 767-775). -/
def doneResponse (lastCmd ecRsp : EcCmd) : EcCmd :=
  if lastCmd = ecmdStart .en4b then ecmdDone .en4b
  else if lastCmd ≤ ecmdStart .read then ecmdDone .read
  else if lastCmd ≤ ecmdStart .write then ecmdDone .write
  else if lastCmd ≤ ecmdStart .eraseSector then ecmdDone .eraseSector
  else ecRsp

/-- `epcio_control` (lines 561-784). -/
def epcioControl (i : EcInput) (s : EcSide) : EcSide :=
  let d := ecDefaults i s
  match s.ecNextState with
  | .hwReset => { d with ecNextState := .idle }
  | .idle =>
    let d := { d with
      bytesDone := 0
      busyTimer := 0
      waitTimer := 0
      endAddress := s.addressSync.last + BitVec.ofNat 32 (s.nwordsSync.last.toNat * 4)
      bytesTodo := s.nwordsSync.last.toNat * 4
      currAddress := s.addressSync.last }
    if s.en4bEnabled = false then { d with ecNextState := .start .en4b }
    else
      match taken s.lastCmd s.lastAddress s.addressSync.last s.ecCmdSync.last with
      | some c => { d with ecNextState := .start c, lastCmd := ecmdStart c }
      | none => d
  | .start .en4b =>
    { d with
      epcqioWren := true
      epcqioEn4bAddr := true
      en4bEnabled := true
      ecNextState := .waitBusy
      waitTimer := 0
      ecRsp := ecmdStarted .en4b }
  | .start .read =>
    { d with
      ecRsp := ecmdStarted .read
      epcqioAddr := s.currAddress
      epcqioRden := true
      epcqioRead := true
      ecNextState := .readBuffer }
  | .readBuffer =>
    let bytesDone := if i.epcqioDataValid then s.bytesDone + 1 else s.bytesDone
    let ends := bytesDone + 1 = s.bytesTodo ∨ readbuffFull ≤ i.rdbuffWrusedw
    { d with
      epcqioRden := true
      currAddress := i.epcqioReadAddress
      bytesDone := bytesDone
      ecNextState := if ends then .waitBusy else .readBuffer
      waitTimer := if ends then 0 else s.waitTimer }
  | .start .write =>
    { d with
      ecRsp := ecmdStarted .write
      epcqioAddr := s.currAddress
      wrbuffRdreq := true
      fifoTimer := 1
      ecNextState := .waitFifo
      bytesShifted := 0 }
  | .waitFifo =>
    let valid := decide (fifoDelay ≤ s.fifoTimer)
    { d with
      wrbuffRdreq := !decide (pageSize ≤ s.fifoTimer)
      epcqioWren := valid
      epcqioShiftBytes := valid
      ecNextState := if valid then .shiftBytes else .waitFifo
      bytesShifted := if valid then 1 else s.bytesShifted
      bytesDone := if valid then s.bytesDone + 1 else s.bytesDone
      fifoTimer := s.fifoTimer + 1 }
  | .shiftBytes =>
    let d := { d with
      wrbuffRdreq := !decide (pageSize ≤ s.fifoTimer ∨ s.bytesTodo ≤ s.fifoTimer)
      fifoTimer := s.fifoTimer + 1 }
    if s.bytesTodo ≤ s.bytesDone then
      { d with epcqioWrite := true, epcqioWren := true, ecNextState := .waitWrite, waitTimer := 0 }
    else if s.bytesShifted < pageSize then
      { d with
        epcqioWren := true
        epcqioShiftBytes := true
        bytesShifted := s.bytesShifted + 1
        bytesDone := s.bytesDone + 1 }
    else
      { d with epcqioWrite := true, epcqioWren := true, ecNextState := .waitWrite, waitTimer := 0 }
  | .waitWrite =>
    if i.epcqioBusy then { d with waitTimer := 1 }
    else if s.waitTimer < 8 then { d with waitTimer := s.waitTimer + 1 }
    else if s.bytesTodo ≤ s.bytesDone then
      { d with ecNextState := .idle, ecRsp := ecmdDone .write, waitTimer := s.waitTimer + 1 }
    else
      { d with
        ecNextState := .start .write
        currAddress := s.currAddress + BitVec.ofNat 32 pageSize
        waitTimer := s.waitTimer + 1 }
  | .start .eraseSector =>
    { d with
      epcqioSectorErase := true
      epcqioWren := true
      ecNextState := .waitBusy
      ecRsp := ecmdStarted .eraseSector
      waitTimer := 0
      epcqioAddr := s.currAddress }
  | .waitBusy =>
    if i.epcqioBusy then { d with waitTimer := 1 }
    else if s.waitTimer < 4 then { d with waitTimer := s.waitTimer + 1 }
    else
      { d with
        ecNextState := .idle
        ecRsp := doneResponse s.lastCmd s.ecRsp
        waitTimer := s.waitTimer + 1 }

/-- An edge of `epcq_clock`, with `ec_sync_reg` (lines 525-541), while the data
    side holds `t`. -/
def ecStep (i : EcInput) (t : DataSide) (s : EcSide) : EcSide :=
  { epcioControl i s with
    nwordsSync := s.nwordsSync.clock t.nwords
    addressSync := s.addressSync.clock t.startAddress
    ecCmdSync := s.ecCmdSync.clock t.ecCmd }

/-! ## Both clocks -/

/-- Both sides. -/
structure System where
  data : DataSide
  ec : EcSide

/-- The clocks that have an edge, with the inputs they see. -/
structure Edge where
  dataClock : Option DataInput
  epcqClock : Option EcInput
  deriving DecidableEq

/-- One edge of either clock, or of both at once. -/
def step (e : Edge) (s : System) : System where
  data := match e.dataClock with
    | some i => dataStep i s.ec.ecRsp s.data
    | none => s.data
  ec := match e.epcqClock with
    | some i => ecStep i s.data s.ec
    | none => s.ec

/-- The registers of the data side at power-up, with reset released. -/
def dataReset : DataSide where
  dataNextState := .hwReset
  nwords := 0
  startAddress := 0
  timer := 0
  ecCmd := 0
  writeBusy := false
  readBusySig := false
  eraseBusy := false
  done := false
  ecRspSync := Delay.const 0

/-- The registers of the flash side at power-up, with reset released. -/
def ecReset : EcSide where
  ecNextState := .idle
  currAddress := BitVec.allOnes 32
  endAddress := BitVec.allOnes 32
  en4bEnabled := false
  bytesDone := 0
  bytesTodo := 0
  fifoTimer := 0
  busyTimer := 0
  bytesShifted := 0
  waitTimer := 0
  lastCmd := 0
  lastAddress := BitVec.allOnes 32
  ecRsp := 0
  epcqioAddr := BitVec.allOnes 32
  epcqioDatain := 0
  epcqioWren := true
  epcqioWrite := false
  epcqioEn4bAddr := false
  epcqioRead := false
  epcqioRden := false
  epcqioSectorErase := false
  epcqioShiftBytes := false
  rdbuffDatain := 0
  rdbuffWrreq := false
  wrbuffRdreq := false
  nwordsSync := Delay.const 0
  addressSync := fun j => if (j : ℕ) = 0 then 0 else BitVec.allOnes 32
  ecCmdSync := Delay.const 0

/-- Both sides at power-up. -/
def reset : System := ⟨dataReset, ecReset⟩

end FpgaEthernet.EpcqioControl
