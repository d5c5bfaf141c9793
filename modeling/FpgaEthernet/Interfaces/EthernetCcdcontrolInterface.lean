import FpgaEthernet.Clocked.Run
import FpgaEthernet.Arbiter.UdpDataArbiter

/-!
# `ethernet_ccdcontrol_interface`

Model of the processes of `interfaces/ethernet_ccdcontrol_interface.vhd` that
serve the sequencer memories: `data_register`, `write_multiplexer`,
`read_multiplexer` and `erase_data`. The CABAC and CROC buffers are entities of
their own; the registers they show are inputs, as are the memories' read ports.

The variable `index` of `read_multiplexer` counts to 3 although its range ends at
2; it is a natural number here.

Main results:

* `Phase.step`: how far a read is goes with what the arbiter shows, as long as no
  sequencer write interferes and no read starts while the arbiter still has this
  client as the current one.
* `Phase.dval`: a word is on the bus only while the line is with this client.
-/

namespace FpgaEthernet.EthernetCcdcontrolInterface

open Clocked UdpDataArbiter

/-! ## Model -/

/-- `UDP_PORT_SEQ_SERIAL` (`eth_common.vhd` line 89). -/
def udpPortSeqSerial : UdpPort := 0x1999

/-- `UDP_PORT_SEQ_PROGRAM`. -/
def udpPortSeqProgram : UdpPort := 0x2000

/-- `UDP_PORT_SEQ_TIME`. -/
def udpPortSeqTime : UdpPort := 0x2001

/-- `UDP_PORT_SEQ_OUT`. -/
def udpPortSeqOut : UdpPort := 0x2002

/-- `UDP_PORT_SEQ_IND_FUNC`. -/
def udpPortSeqIndFunc : UdpPort := 0x2003

/-- `UDP_PORT_SEQ_IND_REP`. -/
def udpPortSeqIndRep : UdpPort := 0x2004

/-- `UDP_PORT_SEQ_IND_SUB_ADD`. -/
def udpPortSeqIndSubAdd : UdpPort := 0x2005

/-- `UDP_PORT_SEQ_IND_SUB_REP`. -/
def udpPortSeqIndSubRep : UdpPort := 0x2006

/-- `UDP_PORT_CABAC_PROG`. -/
def udpPortCabacProg : UdpPort := 0x2100

/-- `UDP_PORT_CROC_PROG`. -/
def udpPortCrocProg : UdpPort := 0x2300

/-- `read_state_type` (`ethernet_ccdcontrol_interface.vhd` lines 147-148). -/
inductive ReadStateType
  | hwReset
  | idle
  | txReqWait
  | readAddr
  | readData
  | readCabacReg
  | readCrocReg
  deriving DecidableEq

/-- The input ports the four processes read (lines 38-100). -/
structure Input where
  dataIn : Word
  dataPort : UdpPort
  dataValid : Bool
  udpReady : Bool
  readTriggers : BitVec 16
  eraseSequencer : Bool
  progMemRedbk : Word
  timeMemReadbk : BitVec 16
  outMemReadbk : Word
  indFuncMemRedbk : BitVec 4
  indRepMemRedbk : BitVec 24
  indSubAddMemRedbk : BitVec 10
  indSubRepMemRedbk : BitVec 16
  reg32bCabacspiReadOnly : Word
  reg96bCrocspiReadOnly : BitVec 96

/-- The registers and variables of `write_multiplexer`. -/
structure WriteState where
  isWriteMode : Bool
  isAddress : Bool
  seqMemWAddWr : BitVec 10
  seqDestination : UdpPort
  seqMemDataIn : Word
  programMemWe : Bool
  timeMemWEn : Bool
  outMemWEn : Bool
  indFuncMemWe : Bool
  indRepMemWe : Bool
  indSubAddMemWe : Bool
  indSubRepMemWe : Bool
  opCodeErrorReset : Bool
  deriving DecidableEq

/-- The registers and variables of `read_multiplexer`. -/
structure ReadState where
  nextReadState : ReadStateType
  readMemPort : UdpPort
  readTriggersMem : BitVec 16
  dataOut : Word
  dataOutPort : UdpPort
  dataOutValid : Bool
  txReq : Bool
  txBusy : Bool
  readDone : Bool
  seqMemWAddRd : BitVec 10
  address : BitVec 10
  maxAddress : BitVec 10
  index : ℕ
  deriving DecidableEq

/-- The registers and variables of `erase_data`. -/
structure EraseState where
  eraseDone : Bool
  dataEraseValid : Bool
  dataErase : Word
  doErase : Bool
  address : BitVec 10
  maxAddress : BitVec 10
  blockAddress : UdpPort
  writeAddress : Bool
  deriving DecidableEq

/-- The registers of the entity. -/
structure State where
  dataValidReg : Bool
  dataPortReg : UdpPort
  dataInReg : Word
  write : WriteState
  read : ReadState
  erase : EraseState
  deriving DecidableEq

/-- The registers when `reset` is released. -/
def initial : State where
  dataValidReg := false
  dataPortReg := 0
  dataInReg := 0
  write := {
    isWriteMode := false
    isAddress := true
    seqMemWAddWr := 0
    seqDestination := 0
    seqMemDataIn := 0
    programMemWe := false
    timeMemWEn := false
    outMemWEn := false
    indFuncMemWe := false
    indRepMemWe := false
    indSubAddMemWe := false
    indSubRepMemWe := false
    opCodeErrorReset := false }
  read := {
    nextReadState := .hwReset
    readMemPort := 0
    readTriggersMem := 0
    dataOut := 0
    dataOutPort := 0
    dataOutValid := false
    txReq := false
    txBusy := false
    readDone := false
    seqMemWAddRd := 0
    address := 0
    maxAddress := 0
    index := 0 }
  erase := {
    eraseDone := false
    dataEraseValid := false
    dataErase := 0
    doErase := false
    address := 0
    maxAddress := 0
    blockAddress := 0
    writeAddress := false }

/-- `udp_out_bus` (lines 169-175); nothing drives `data_out_eop`. -/
def udpOutBus (s : State) : UdpBus where
  data := s.read.dataOut
  port := s.read.dataOutPort
  dval := s.read.dataOutValid
  eop := false
  txReq := s.read.txReq
  txBusy := s.read.txBusy

/-- `seq_mem_w_add` (lines 206-207). -/
def seqMemWAdd (s : State) : BitVec 10 :=
  if s.write.isWriteMode then s.write.seqMemWAddWr else s.read.seqMemWAddRd

/-- The ports whose words go to the sequencer (lines 252-253). -/
def IsSeqPort (port : UdpPort) : Prop :=
  port = udpPortSeqSerial ∨ port.extractLsb' 6 8 = 0b10000000

instance : DecidablePred IsSeqPort := fun _ => inferInstanceAs (Decidable (_ ∨ _))

/-- `data_register` (lines 210-227): `data_valid_reg`, `data_port_reg` and
    `data_in_reg`. -/
def dataRegister (i : Input) (s : State) : Bool × UdpPort × Word :=
  if i.dataValid then (true, i.dataPort, i.dataIn)
  else if s.erase.dataEraseValid then (true, udpPortSeqSerial, s.erase.dataErase)
  else (false, 0, s.dataInReg)

/-- `write_multiplexer` (lines 236-291). -/
def writeMultiplexer (s : State) : WriteState :=
  let w := { s.write with
    programMemWe := false
    timeMemWEn := false
    outMemWEn := false
    indFuncMemWe := false
    indRepMemWe := false
    indSubAddMemWe := false
    indSubRepMemWe := false
    opCodeErrorReset := false }
  if s.dataValidReg = true ∧ IsSeqPort s.dataPortReg then
    let w := { w with isWriteMode := true, opCodeErrorReset := true }
    if s.write.isAddress then
      { w with
        seqMemWAddWr := s.dataInReg.extractLsb' 0 10
        isAddress := false
        seqDestination :=
          if s.dataPortReg = udpPortSeqSerial then hi s.dataInReg else s.dataPortReg }
    else
      let w := { w with seqMemDataIn := s.dataInReg, isAddress := true }
      if s.write.seqDestination = udpPortSeqProgram then { w with programMemWe := true }
      else if s.write.seqDestination = udpPortSeqTime then { w with timeMemWEn := true }
      else if s.write.seqDestination = udpPortSeqOut then { w with outMemWEn := true }
      else if s.write.seqDestination = udpPortSeqIndFunc then { w with indFuncMemWe := true }
      else if s.write.seqDestination = udpPortSeqIndRep then { w with indRepMemWe := true }
      else if s.write.seqDestination = udpPortSeqIndSubAdd then { w with indSubAddMemWe := true }
      else if s.write.seqDestination = udpPortSeqIndSubRep then { w with indSubRepMemWe := true }
      else w
  else { w with isAddress := true, isWriteMode := false }

/-- The port and the last address a trigger stands for (lines 318-348). -/
def readTarget (triggers : BitVec 16) : UdpPort × BitVec 10 :=
  if triggers.getLsbD 0 then (udpPortSeqProgram, 0b1111111111)
  else if triggers.getLsbD 1 then (udpPortSeqTime, 0b0011111111)
  else if triggers.getLsbD 2 then (udpPortSeqOut, 0b0011111111)
  else if triggers.getLsbD 3 then (udpPortSeqIndFunc, 0b0000001111)
  else if triggers.getLsbD 4 then (udpPortSeqIndRep, 0b0000001111)
  else if triggers.getLsbD 5 then (udpPortSeqIndSubAdd, 0b0000001111)
  else if triggers.getLsbD 6 then (udpPortSeqIndSubRep, 0b0000001111)
  else if triggers.getLsbD 7 then (udpPortCabacProg, 0)
  else if triggers.getLsbD 8 then (udpPortCrocProg, 0)
  else (0, 0)

/-- The read port `READ_DATA` forwards (lines 382-396). -/
def readback (i : Input) (r : ReadState) : Word :=
  if r.readTriggersMem.getLsbD 0 then i.progMemRedbk
  else if r.readTriggersMem.getLsbD 1 then i.timeMemReadbk.setWidth 32
  else if r.readTriggersMem.getLsbD 2 then i.outMemReadbk
  else if r.readTriggersMem.getLsbD 3 then i.indFuncMemRedbk.setWidth 32
  else if r.readTriggersMem.getLsbD 4 then i.indRepMemRedbk.setWidth 32
  else if r.readTriggersMem.getLsbD 5 then i.indSubAddMemRedbk.setWidth 32
  else if r.readTriggersMem.getLsbD 6 then i.indSubRepMemRedbk.setWidth 32
  else r.dataOut

/-- Put a word into the registers of the bus. -/
def ReadState.send (r : ReadState) (port : UdpPort) (w : Word) (next : ReadStateType) :
    ReadState :=
  { r with
    dataOut := w
    dataOutPort := port
    dataOutValid := true
    txBusy := true
    nextReadState := next }

/-- The case statement of `read_multiplexer` (lines 314-430). What it reads is
    `r`; `d` has the default values in. -/
def readCase (i : Input) (r d : ReadState) : ReadState :=
  match r.nextReadState with
  | .hwReset => { d with nextReadState := .idle }
  | .idle =>
    let d := { d with
      maxAddress := (readTarget i.readTriggers).2
      readTriggersMem := i.readTriggers
      readMemPort := (readTarget i.readTriggers).1 }
    if i.readTriggers.extractLsb' 0 9 ≠ 0 then
      { d with nextReadState := .txReqWait, txReq := true, address := 0 }
    else { d with nextReadState := .idle }
  | .txReqWait =>
    let d := { d with txReq := true }
    if i.udpReady then
      if r.readTriggersMem.getLsbD 7 then { d with nextReadState := .readCabacReg }
      else if r.readTriggersMem.getLsbD 8 then { d with nextReadState := .readCrocReg, index := 0 }
      else { d with nextReadState := .readAddr }
    else { d with nextReadState := .txReqWait }
  | .readAddr =>
    d.send udpPortSeqSerial (r.readMemPort ++ (0 : BitVec 6) ++ r.address : BitVec 32) .readData
  | .readData =>
    let d := d.send udpPortSeqSerial (readback i r) .readAddr
    if r.address = r.maxAddress then { d with nextReadState := .idle, readDone := true }
    else { d with address := r.address + 1 }
  | .readCabacReg =>
    { d.send udpPortCabacProg i.reg32bCabacspiReadOnly .idle with readDone := true }
  | .readCrocReg =>
    let d := { d.send udpPortCrocProg (i.reg96bCrocspiReadOnly.extractLsb' (32 * r.index) 32)
      .readCrocReg with index := r.index + 1 }
    if r.index + 1 = 3 then { d with nextReadState := .idle, readDone := true } else d

/-- `read_multiplexer` (lines 297-434). -/
def readMultiplexer (i : Input) (s : State) : ReadState :=
  let d :=
    { s.read with txReq := false, txBusy := false, dataOutValid := false, readDone := false }
  let r := if s.write.isWriteMode then d else readCase i s.read d
  { r with seqMemWAddRd := r.address }

/-- `erase_data` (lines 437-488). -/
def eraseData (i : Input) (s : State) : EraseState :=
  let e := { s.erase with eraseDone := false, dataEraseValid := false }
  if s.erase.doErase then
    let e := { e with dataEraseValid := true }
    if s.erase.writeAddress then
      { e with
        dataErase := (s.erase.blockAddress ++ (0 : BitVec 6) ++ s.erase.address : BitVec 32)
        writeAddress := false }
    else
      let e := { e with dataErase := 0, writeAddress := true }
      if s.erase.address = s.erase.maxAddress then
        if s.erase.blockAddress = udpPortSeqIndSubRep then
          { e with doErase := false, eraseDone := true, address := 0 }
        else
          let block := s.erase.blockAddress + 1
          { e with
            blockAddress := block
            maxAddress :=
              if block = udpPortSeqTime ∨ block = udpPortSeqOut then 0b0011111111
              else 0b0000001111
            address := 0 }
      else { e with address := s.erase.address + 1 }
  else if i.eraseSequencer then
    { e with
      doErase := true
      writeAddress := true
      blockAddress := udpPortSeqProgram
      maxAddress := 0b1111111111
      address := 0 }
  else e

/-- One edge of `clock`. -/
def step (i : Input) (s : State) : State where
  dataValidReg := (dataRegister i s).1
  dataPortReg := (dataRegister i s).2.1
  dataInReg := (dataRegister i s).2.2
  write := writeMultiplexer s
  read := readMultiplexer i s
  erase := eraseData i s

/-! ## Without writes -/

/-- Nothing is written to the sequencer memories. -/
def NoWrite (i : Input) : Prop :=
  (i.dataValid = true → ¬IsSeqPort i.dataPort) ∧ i.eraseSequencer = false

instance (i : Input) : Decidable (NoWrite i) := inferInstanceAs (Decidable (_ ∧ _))

/-- Nothing on the way to the sequencer memories. -/
structure Undisturbed (s : State) : Prop where
  mode : s.write.isWriteMode = false
  port : s.dataValidReg = true → ¬IsSeqPort s.dataPortReg
  valid : s.erase.dataEraseValid = false
  erase : s.erase.doErase = false

theorem undisturbed_initial : Undisturbed initial := ⟨rfl, by simp [initial], rfl, rfl⟩

variable {i : Input} {s : State}

theorem Undisturbed.step (h : Undisturbed s) (hi : NoWrite i) :
    Undisturbed (EthernetCcdcontrolInterface.step i s) where
  mode := by
    have hp : ¬(s.dataValidReg = true ∧ IsSeqPort s.dataPortReg) := fun hp => h.port hp.1 hp.2
    simp only [EthernetCcdcontrolInterface.step, writeMultiplexer, if_neg hp]
  port := by
    intro hv
    cases hd : i.dataValid with
    | true =>
      have hp : (EthernetCcdcontrolInterface.step i s).dataPortReg = i.dataPort := by
        simp [EthernetCcdcontrolInterface.step, dataRegister, hd]
      rw [hp]
      exact hi.1 hd
    | false => simp [EthernetCcdcontrolInterface.step, dataRegister, hd, h.valid] at hv
  valid := by simp [EthernetCcdcontrolInterface.step, eraseData, h.erase, hi.2]
  erase := by simp [EthernetCcdcontrolInterface.step, eraseData, h.erase, hi.2]

/-! ## As a client of the arbiter -/

/-- `tx_req` is raised when a read is triggered and while it waits for the line. -/
theorem step_txReq (h : (step i s).read.txReq = true) :
    s.read.nextReadState = .idle ∧ (step i s).read.nextReadState = .txReqWait ∨
      s.read.nextReadState = .txReqWait ∧ (step i s).read.nextReadState ≠ .hwReset ∧
        (step i s).read.nextReadState ≠ .idle := by
  simp only [step, readMultiplexer] at h ⊢
  by_cases hw : s.write.isWriteMode = true
  · rw [if_pos hw] at h
    cases h
  rw [if_neg hw] at h ⊢
  unfold readCase at h ⊢
  cases hs : s.read.nextReadState with
  | idle =>
    rw [hs] at h
    dsimp only at h
    split_ifs at h with ht
    refine Or.inl ⟨rfl, ?_⟩
    dsimp only
    rw [if_pos ht]
  | txReqWait =>
    refine Or.inr ⟨rfl, ?_⟩
    dsimp only
    split_ifs <;> simp
  | hwReset | readAddr | readCabacReg =>
    rw [hs] at h
    cases h
  | readData | readCrocReg =>
    rw [hs] at h
    dsimp only at h
    split_ifs at h <;> cases h

/-- A read is triggered in `IDLE`, outside write mode. -/
def Triggered (i : Input) (s : State) : Prop :=
  s.read.nextReadState = .idle ∧ s.write.isWriteMode = false ∧
    i.readTriggers.extractLsb' 0 9 ≠ 0

/-- Without a trigger the machine stays in `IDLE`. -/
theorem step_rest (hs : s.read.nextReadState = .hwReset ∨ s.read.nextReadState = .idle)
    (hno : ¬Triggered i s) :
    (step i s).read.nextReadState = .hwReset ∨ (step i s).read.nextReadState = .idle := by
  simp only [step, readMultiplexer]
  by_cases hw : s.write.isWriteMode = true
  · rw [if_pos hw]
    exact hs
  rw [if_neg hw]
  rcases hs with hs | hs
  · simp [readCase, hs]
  · have ht : ¬i.readTriggers.extractLsb' 0 9 ≠ 0 := fun ht => hno ⟨hs, by simpa using hw, ht⟩
    simp only [readCase, hs, if_neg ht]
    exact Or.inr trivial

/-- The machine is sending. -/
def Sending (r : ReadState) : Prop :=
  r.nextReadState = .readAddr ∨ r.nextReadState = .readData ∨ r.nextReadState = .readCabacReg ∨
    r.nextReadState = .readCrocReg

/-- A word is put on the bus only by a machine that is sending. -/
theorem sending_of_valid (h : (step i s).read.dataOutValid = true) : Sending s.read := by
  simp only [step, readMultiplexer] at h
  by_cases hw : s.write.isWriteMode = true
  · rw [if_pos hw] at h
    cases h
  · rw [if_neg hw] at h
    cases hs : s.read.nextReadState with
    | readAddr | readData | readCabacReg | readCrocReg => simp [Sending, hs]
    | hwReset =>
      simp only [readCase, hs] at h
      cases h
    | idle | txReqWait =>
      simp only [readCase, hs] at h
      split_ifs at h

/-- Nothing on the bus. -/
def Quiet (r : ReadState) : Prop := r.dataOutValid = false ∧ r.txBusy = false

/-- A read is asked for while the machine is idle. -/
def Starts (i : Input) (s : State) : Prop :=
  s.read.nextReadState = .idle ∧ i.readTriggers.extractLsb' 0 9 ≠ 0

instance : Decidable (Starts i s) := inferInstanceAs (Decidable (_ ∧ _))

theorem step_read (h : Undisturbed s) :
    (step i s).read = { readCase i s.read { s.read with
        txReq := false, txBusy := false, dataOutValid := false, readDone := false } with
      seqMemWAddRd := (step i s).read.address } := by
  simp [step, readMultiplexer, h.mode]

/-- In `IDLE` nothing is put on the bus, and the machine waits for the line only
    if a read is asked for. -/
theorem step_idle (h : Undisturbed s) (hs : s.read.nextReadState = .idle) :
    Quiet (step i s).read ∧
      ((step i s).read.nextReadState = .idle ∧ (step i s).read.txReq = false ∨
        Starts i s ∧ (step i s).read.nextReadState = .txReqWait) := by
  rw [step_read h]
  by_cases ht : i.readTriggers.extractLsb' 0 9 ≠ 0
  · simp only [readCase, hs, if_pos ht]
    exact ⟨⟨rfl, rfl⟩, .inr ⟨⟨hs, ht⟩, trivial⟩⟩
  · simp only [readCase, hs, if_neg ht]
    exact ⟨⟨rfl, rfl⟩, .inl ⟨trivial, trivial⟩⟩

theorem step_hwReset (h : Undisturbed s) (hs : s.read.nextReadState = .hwReset) :
    Quiet (step i s).read ∧ (step i s).read.nextReadState = .idle ∧
      (step i s).read.txReq = false := by
  rw [step_read h]
  simp [readCase, hs, Quiet]

/-- The machine waits for `udp_ready` and then starts to send. -/
theorem step_txReqWait (h : Undisturbed s) (hs : s.read.nextReadState = .txReqWait) :
    Quiet (step i s).read ∧
      (if i.udpReady then Sending (step i s).read
        else (step i s).read.nextReadState = .txReqWait) := by
  rw [step_read h]
  cases hr : i.udpReady with
  | false => simp [readCase, hs, hr, Quiet]
  | true =>
    simp only [readCase, hs, hr, if_true]
    split_ifs <;> simp [Quiet, Sending]

/-- Every edge of a sending machine puts a word on the bus. -/
theorem step_sending (h : Undisturbed s) (hs : Sending s.read) :
    (step i s).read.txBusy = true ∧
      (Sending (step i s).read ∨ (step i s).read.nextReadState = .idle) := by
  rw [step_read h]
  rcases hs with hs | hs | hs | hs <;> simp only [readCase, hs] <;> (try split_ifs) <;>
    simp [ReadState.send, Sending]

/-- How far the machine is with a read, and what the arbiter shows it then. -/
inductive Phase (r : ReadState) : View → Prop
  | resting (b : Bool) :
      r.nextReadState = .hwReset ∨ r.nextReadState = .idle → Quiet r → r.txReq = false →
      Phase r (.away b)
  | asking : r.nextReadState = .txReqWait → Quiet r → Phase r (.away false)
  | granted (b : Bool) : r.nextReadState = .txReqWait → Quiet r → Phase r (.waiting b false)
  | opening : Sending r → Quiet r → Phase r (.waiting true false)
  | opened (b : Bool) :
      Sending r ∨ r.nextReadState = .idle → r.txBusy = true → Phase r (.waiting true b)
  | shut : r.nextReadState = .idle → Quiet r → Phase r (.waiting true true)
  | reading : Sending r → r.txBusy = true → Phase r (.serving true)
  | closing (b : Bool) : r.nextReadState = .idle → Phase r (.serving b)

theorem phase_initial : Phase initial.read (.away false) :=
  .resting _ (.inl rfl) ⟨rfl, rfl⟩ rfl

/-- A word is on the bus only while the line is with this client. -/
theorem Phase.dval {v : View} (hp : Phase s.read v) (hd : (udpOutBus s).dval = true) :
    ¬v.IsAway := by
  rintro hv
  cases hp with
  | resting b _ hq => simp [udpOutBus, hq.1] at hd
  | asking _ hq => simp [udpOutBus, hq.1] at hd
  | granted | opening | opened | shut | reading | closing => exact hv

/-- How far the machine is with a read goes with what the arbiter shows it. -/
theorem Phase.step {v v' : View} (h : Undisturbed s) (hp : Phase s.read v)
    (hv : View.Step (udpOutBus s) v v') (hi : i.udpReady = v.ready)
    (hn : Starts i s → v.IsAway) :
    Phase (EthernetCcdcontrolInterface.step i s).read v' := by
  cases hp with
  | resting b hs hq hreq =>
    have hv' : v' = .away false := by
      cases hv with
      | pass => rfl
      | grant _ hr => simp [udpOutBus, hreq] at hr
    subst hv'
    rcases hs with hs | hs
    · have h' := step_hwReset (i := i) h hs
      exact .resting _ (.inr h'.2.1) h'.1 h'.2.2
    · obtain ⟨hq', h' | h'⟩ := step_idle (i := i) h hs
      · exact .resting _ (.inr h'.1) hq' h'.2
      · exact .asking h'.2 hq'
  | asking hs hq =>
    have h' := step_txReqWait (i := i) h hs
    rw [hi] at h'
    cases hv with
    | pass => exact .asking h'.2 h'.1
    | grant => exact .granted _ h'.2 h'.1
  | granted b hs hq =>
    have h' := step_txReqWait (i := i) h hs
    rw [hi] at h'
    have hb : (udpOutBus s).txBusy = false := hq.2
    cases hv
    rw [hb]
    cases b with
    | false => exact .granted _ h'.2 h'.1
    | true => exact .opening h'.2 h'.1
  | opening hs hq =>
    have h' := step_sending (i := i) h hs
    have hb : (udpOutBus s).txBusy = false := hq.2
    cases hv
    rw [hb]
    exact .opened _ h'.2 h'.1
  | opened b hs hb =>
    have hb' : (udpOutBus s).txBusy = true := hb
    rcases hs with hs | hs
    · have h' := step_sending (i := i) h hs
      cases hv <;> rw [hb']
      · exact .opened _ h'.2 h'.1
      · rcases h'.2 with h'' | h''
        · exact .reading h'' h'.1
        · exact .closing _ h''
    · obtain ⟨hq', h' | h'⟩ := step_idle (i := i) h hs
      · cases hv <;> rw [hb']
        · exact .shut h'.1 hq'
        · exact .closing _ h'.1
      · exact absurd (hn h'.1) id
  | shut hs hq =>
    obtain ⟨hq', h' | h'⟩ := step_idle (i := i) h hs
    · cases hv
      exact .closing _ h'.1
    · exact absurd (hn h'.1) id
  | reading hs hb =>
    have h' := step_sending (i := i) h hs
    have hb' : (udpOutBus s).txBusy = true := hb
    cases hv
    rw [hb']
    rcases h'.2 with h'' | h''
    · exact .reading h'' h'.1
    · exact .closing _ h''
  | closing b hs =>
    obtain ⟨hq', h' | h'⟩ := step_idle (i := i) h hs
    · cases hv
      · exact .closing _ h'.1
      · exact .resting _ (.inr h'.1) hq' h'.2
    · exact absurd (hn h'.1) id

end FpgaEthernet.EthernetCcdcontrolInterface
