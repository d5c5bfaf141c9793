import FpgaEthernet.Clocked.Run
import FpgaEthernet.Arbiter.UdpDataArbiter

/-!
# `config_block_scanner`

Model of `config_scanner/config_block_scanner.vhd`. After a scan of one block the
busy bit is lowered and the machine pauses for eight cycles before it asks for
the line again.

Main results:

* `Phase.step`: how far the scan is goes with what the arbiter shows, as long as
  no scan starts while the arbiter still has this client as the current one.
* `Phase.dval`: a word is on the bus only while the line is with this client.
-/

namespace FpgaEthernet

/-- `UDP_PORT_CONFIG` (`eth_common.vhd` line 82). -/
def udpPortConfig : UdpPort := 0x4268

namespace ConfigBlockScanner

open Clocked UdpDataArbiter

/-! ## Model -/

/-- `read_state_type` (`config_block_scanner.vhd` lines 79-80). -/
inductive ReadStateType
  | hwReset
  | idle
  | startBlock
  | waitBlock
  | readBlock
  | nextBlock
  | txReqWait
  | txPause
  deriving DecidableEq

/-- `max_timer` (line 85). -/
def maxTimer : ℕ := 15

/-- The input ports (lines 48-72). -/
structure Input where
  configDataIn : Word
  configValidIn : Bool
  udpReady : Bool
  startScanBlocks : Bool
  startScanSingle : Bool
  startBlockAddress : BitVec 7
  deriving DecidableEq

/-- The registers, and the variables of the process. -/
structure State where
  configDataOut : Word
  configValidOut : Bool
  configDataInReg : Word
  configValidInReg : Bool
  configDataOutReg : Word
  configValidOutReg : Bool
  nextState : ReadStateType
  toreadBlockAddr : BitVec 7
  timer : ℕ
  pauseTimer : ℕ
  scanAll : Bool
  dataOut : Word
  dataOutValid : Bool
  txReq : Bool
  txBusy : Bool
  scanFinished : Bool
  busy : Bool
  deriving DecidableEq

/-- The registers when `reset` is released. -/
def initial : State where
  configDataOut := 0
  configValidOut := false
  configDataInReg := 0
  configValidInReg := false
  configDataOutReg := 0
  configValidOutReg := false
  nextState := .hwReset
  toreadBlockAddr := 0
  timer := 0
  pauseTimer := 0
  scanAll := false
  dataOut := 0
  dataOutValid := false
  txReq := false
  txBusy := false
  scanFinished := false
  busy := false

/-- `udp_out_bus` (lines 122-128); nothing drives `data_out_eop`. -/
def udpOutBus (s : State) : UdpBus where
  data := s.dataOut
  port := udpPortConfig
  dval := s.dataOutValid
  eop := false
  txReq := s.txReq
  txBusy := s.txBusy

/-- `output_register` (lines 108-116), and the values the registers of the
    machine take unless its state says otherwise (lines 145-151). -/
def outputRegister (i : Input) (s : State) : State :=
  { s with
    configDataOut := s.configDataOutReg
    configValidOut := s.configValidOutReg
    configDataInReg := i.configDataIn
    configValidInReg := i.configValidIn
    configDataOutReg := 0
    configValidOutReg := false
    scanFinished := false
    busy := true
    txReq := false
    dataOut := 0
    dataOutValid := false }

/-- The word that asks block `addr` for all its registers (line 185). -/
def readRequest (addr : BitVec 7) : Word :=
  (1#1 ++ addr ++ (0xFF : BitVec 8) ++ (0 : BitVec 16) : BitVec 32)

/-- `state_machine` (lines 130-243). What it reads is `s`; `d` has the default
    values in. -/
def stateMachine (i : Input) (s d : State) : State :=
  match s.nextState with
  | .hwReset => { d with nextState := .idle, busy := false }
  | .idle =>
    let d := { d with timer := 0, txBusy := false }
    if i.startScanBlocks then
      { d with nextState := .txReqWait, toreadBlockAddr := 0, scanAll := true }
    else if i.startScanSingle then
      { d with nextState := .txReqWait, toreadBlockAddr := i.startBlockAddress, scanAll := false }
    else { d with nextState := .idle, busy := false }
  | .txReqWait =>
    if i.udpReady then { d with txReq := true, nextState := .startBlock, txBusy := true }
    else { d with txReq := true, nextState := .txReqWait }
  | .startBlock =>
    { d with
      configDataOutReg := readRequest s.toreadBlockAddr
      configValidOutReg := true
      timer := 0
      nextState := .waitBlock }
  | .waitBlock =>
    { d with
      nextState :=
        if s.configValidInReg then .readBlock
        else if maxTimer ≤ s.timer then .nextBlock
        else .waitBlock
      timer := s.timer + 1
      dataOut := s.configDataInReg
      dataOutValid := s.configValidInReg }
  | .readBlock =>
    { d with
      nextState := if s.configValidInReg then .readBlock else .nextBlock
      dataOut := s.configDataInReg
      dataOutValid := s.configValidInReg }
  | .nextBlock =>
    if s.toreadBlockAddr = 0b1111111 ∨ s.scanAll = false then
      { d with nextState := .idle, scanFinished := true }
    else
      { d with
        toreadBlockAddr := s.toreadBlockAddr + 1
        nextState := .txPause
        txBusy := false
        pauseTimer := 0 }
  | .txPause =>
    if 8 ≤ s.pauseTimer then { d with nextState := .txReqWait }
    else { d with nextState := .txPause, pauseTimer := s.pauseTimer + 1 }

/-- One edge of `clock`. -/
def step (i : Input) (s : State) : State := stateMachine i s (outputRegister i s)

/-! ## As a client of the arbiter -/

variable {i : Input} {s : State}

/-- `tx_req` is raised only while the machine waits for the line. -/
theorem step_txReq (h : (step i s).txReq = true) :
    s.nextState = .txReqWait ∧
      ((step i s).nextState = .txReqWait ∨ (step i s).nextState = .startBlock) := by
  unfold step stateMachine at h ⊢
  cases hs : s.nextState with
  | txReqWait =>
    dsimp only
    split_ifs
    · exact ⟨rfl, Or.inr rfl⟩
    · exact ⟨rfl, Or.inl rfl⟩
  | hwReset | startBlock | waitBlock | readBlock =>
    rw [hs] at h
    cases h
  | idle | nextBlock | txPause =>
    rw [hs] at h
    dsimp only at h
    split_ifs at h <;> cases h

/-- Nothing on the bus. -/
def Quiet (s : State) : Prop := s.dataOutValid = false ∧ s.txBusy = false

/-- A scan is asked for while the machine is idle. -/
def Starts (i : Input) (s : State) : Prop :=
  s.nextState = .idle ∧ (i.startScanBlocks = true ∨ i.startScanSingle = true)

instance : Decidable (Starts i s) := inferInstanceAs (Decidable (_ ∧ _))

/-- How far the scan is, and what the arbiter shows it then. -/
inductive Phase (s : State) : View → Prop
  | resting (r : Bool) :
      s.nextState = .hwReset ∨ s.nextState = .idle ∨ s.nextState = .txPause → Quiet s →
      s.txReq = false → Phase s (.away r)
  | asking : s.nextState = .txReqWait → Quiet s → Phase s (.away false)
  | granted (r : Bool) : s.nextState = .txReqWait → Quiet s → Phase s (.waiting r false)
  | opening : s.nextState = .startBlock → s.txBusy = true → Phase s (.waiting true false)
  | opened : s.nextState = .waitBlock → s.txBusy = true → Phase s (.waiting true true)
  | scanning :
      s.nextState = .waitBlock ∨ s.nextState = .readBlock ∨ s.nextState = .nextBlock →
      s.txBusy = true → Phase s (.serving true)
  | pausing (b : Bool) :
      s.nextState = .txPause → Quiet s → s.pauseTimer ≤ (if b then 0 else 1) →
      Phase s (.serving b)
  | closing (b : Bool) : s.nextState = .idle → Phase s (.serving b)

theorem phase_initial : Phase initial (.away false) :=
  .resting _ (.inl rfl) ⟨rfl, rfl⟩ rfl

/-- A word is on the bus only while the line is with this client. -/
theorem Phase.dval {v : View} (hp : Phase s v) (hd : (udpOutBus s).dval = true) : ¬v.IsAway := by
  rintro hv
  cases hp with
  | resting r _ hq => simp [udpOutBus, hq.1] at hd
  | asking _ hq => simp [udpOutBus, hq.1] at hd
  | granted | opening | opened | scanning | pausing | closing => exact hv

/-- In `IDLE` nothing is put on the bus, and the machine waits for the line only
    if a scan is asked for. -/
theorem step_idle (hs : s.nextState = .idle) :
    Quiet (step i s) ∧ (step i s).txReq = false ∧
      ((step i s).nextState = .idle ∨ Starts i s ∧ (step i s).nextState = .txReqWait) := by
  cases h₁ : i.startScanBlocks <;> cases h₂ : i.startScanSingle <;>
    simp [step, stateMachine, outputRegister, hs, h₁, h₂, Quiet, Starts]

/-- Until a scan is asked for the machine stays in `IDLE`. -/
theorem step_rest (hs : s.nextState = .hwReset ∨ s.nextState = .idle) (hno : ¬Starts i s) :
    (step i s).nextState = .idle := by
  rcases hs with hs | hs
  · simp [step, stateMachine, hs]
  · exact (step_idle hs).2.2.resolve_right fun h => hno h.1

/-- A word is put on the bus only while a block is read. -/
theorem scanning_of_valid (h : (step i s).dataOutValid = true) :
    s.nextState = .waitBlock ∨ s.nextState = .readBlock := by
  unfold step stateMachine at h
  cases hs : s.nextState with
  | waitBlock => exact .inl rfl
  | readBlock => exact .inr rfl
  | hwReset | startBlock =>
    rw [hs] at h
    cases h
  | idle | txReqWait | nextBlock | txPause =>
    rw [hs] at h
    dsimp only at h
    split_ifs at h <;> cases h

theorem step_hwReset (hs : s.nextState = .hwReset) (hq : Quiet s) :
    Quiet (step i s) ∧ (step i s).txReq = false ∧ (step i s).nextState = .idle := by
  simp [step, stateMachine, outputRegister, hs, Quiet, hq.2]

/-- The pause ends in waiting for the line. -/
theorem step_txPause (hs : s.nextState = .txPause) (hq : Quiet s) :
    Quiet (step i s) ∧ (step i s).txReq = false ∧
      (if 8 ≤ s.pauseTimer then (step i s).nextState = .txReqWait
        else (step i s).nextState = .txPause ∧ (step i s).pauseTimer = s.pauseTimer + 1) := by
  by_cases h : 8 ≤ s.pauseTimer <;>
    simp [step, stateMachine, outputRegister, hs, h, Quiet, hq.2]

/-- The machine waits for `udp_ready` and then raises its busy bit. -/
theorem step_txReqWait (hs : s.nextState = .txReqWait) (hq : Quiet s) :
    if i.udpReady then (step i s).nextState = .startBlock ∧ (step i s).txBusy = true
    else (step i s).nextState = .txReqWait ∧ Quiet (step i s) := by
  cases h : i.udpReady <;> simp [step, stateMachine, outputRegister, hs, h, Quiet, hq.2]

theorem step_startBlock (hs : s.nextState = .startBlock) :
    (step i s).nextState = .waitBlock ∧ (step i s).txBusy = s.txBusy := by
  simp [step, stateMachine, outputRegister, hs]

/-- While a block is read the busy bit stays as it is. -/
theorem step_scanning (hs : s.nextState = .waitBlock ∨ s.nextState = .readBlock) :
    ((step i s).nextState = .waitBlock ∨ (step i s).nextState = .readBlock ∨
      (step i s).nextState = .nextBlock) ∧ (step i s).txBusy = s.txBusy := by
  rcases hs with hs | hs
  · refine ⟨?_, by simp [step, stateMachine, outputRegister, hs]⟩
    simp only [step, stateMachine, hs]
    split_ifs <;> simp
  · refine ⟨?_, by simp [step, stateMachine, outputRegister, hs]⟩
    simp only [step, stateMachine, hs]
    split_ifs <;> simp

/-- After a block the machine pauses or is done. -/
theorem step_nextBlock (hs : s.nextState = .nextBlock) :
    (step i s).nextState = .idle ∨
      (step i s).nextState = .txPause ∧ Quiet (step i s) ∧ (step i s).pauseTimer = 0 := by
  by_cases h : s.toreadBlockAddr = 0b1111111 ∨ s.scanAll = false
  · exact .inl (by simp only [step, stateMachine, hs, if_pos h])
  · refine .inr ?_
    simp only [step, stateMachine, hs, if_neg h]
    exact ⟨trivial, ⟨rfl, rfl⟩, trivial⟩

/-- How far the scan is goes with what the arbiter shows it. -/
theorem Phase.step {v v' : View} (hp : Phase s v) (hv : View.Step (udpOutBus s) v v')
    (hi : i.udpReady = v.ready) (hn : Starts i s → v.IsAway) :
    Phase (ConfigBlockScanner.step i s) v' := by
  cases hp with
  | resting r hs hq hreq =>
    have hv' : v' = .away false := by
      cases hv with
      | pass => rfl
      | grant _ hr => simp [udpOutBus, hreq] at hr
    subst hv'
    rcases hs with hs | hs | hs
    · have h := step_hwReset (i := i) hs hq
      exact .resting _ (.inr (.inl h.2.2)) h.1 h.2.1
    · obtain ⟨hq', hr, h | h⟩ := step_idle (i := i) hs
      · exact .resting _ (.inr (.inl h)) hq' hr
      · exact .asking h.2 hq'
    · obtain ⟨hq', hr, h⟩ := step_txPause (i := i) hs hq
      split_ifs at h with ht
      · exact .asking h hq'
      · exact .resting _ (.inr (.inr h.1)) hq' hr
  | asking hs hq =>
    have h := step_txReqWait (i := i) hs hq
    rw [hi] at h
    cases hv with
    | pass => exact .asking h.1 h.2
    | grant => exact .granted _ h.1 h.2
  | granted r hs hq =>
    have h := step_txReqWait (i := i) hs hq
    rw [hi] at h
    have hb : (udpOutBus s).txBusy = false := hq.2
    cases hv
    rw [hb]
    cases r with
    | false => exact .granted _ h.1 h.2
    | true => exact .opening h.1 h.2
  | opening hs hb =>
    have h := step_startBlock (i := i) hs
    have hb' : (udpOutBus s).txBusy = true := hb
    cases hv
    rw [hb']
    exact .opened h.1 (h.2.trans hb)
  | opened hs hb =>
    have h := step_scanning (i := i) (.inl hs)
    have hb' : (udpOutBus s).txBusy = true := hb
    cases hv
    rw [hb']
    exact .scanning h.1 (h.2.trans hb)
  | scanning hs hb =>
    have hb' : (udpOutBus s).txBusy = true := hb
    cases hv
    rw [hb']
    rcases hs with hs | hs | hs
    · have h := step_scanning (i := i) (.inl hs)
      exact .scanning h.1 (h.2.trans hb)
    · have h := step_scanning (i := i) (.inr hs)
      exact .scanning h.1 (h.2.trans hb)
    · rcases step_nextBlock (i := i) hs with h | h
      · exact .closing _ h
      · exact .pausing _ h.1 h.2.1 (by simp [h.2.2])
  | pausing b hs hq ht =>
    obtain ⟨hq', hr, h⟩ := step_txPause (i := i) hs hq
    have ht' : ¬8 ≤ s.pauseTimer := by
      split_ifs at ht <;> omega
    rw [if_neg ht'] at h
    have hb : (udpOutBus s).txBusy = false := hq.2
    cases hv with
    | serve =>
      rw [hb]
      refine .pausing _ h.1 hq' ?_
      simp only [if_true] at ht
      simp only [h.2, Bool.false_eq_true, if_false]
      omega
    | release => exact .resting _ (.inr (.inr h.1)) hq' hr
  | closing b hs =>
    obtain ⟨hq', hr, h | h⟩ := step_idle (i := i) hs
    · cases hv with
      | serve => exact .closing _ h
      | release => exact .resting _ (.inr (.inl h)) hq' hr
    · exact absurd (hn h.1) id

end ConfigBlockScanner

end FpgaEthernet
