import FpgaEthernet.Clocked.Run
import FpgaEthernet.Arbiter.UdpDataArbiter

/-!
# `ethernet_monitoring_interface`

Model of `interfaces/ethernet_monitoring_interface.vhd`. The array type of the
monitoring register comes from a package that is not part of the repository; it
has 18 words (`eth_common.vhd` line 50).

Main results:

* `reading_run`: after the grant the machine puts out the 18 words of the
  monitoring register in order and goes back to `IDLE`.
* `txReq_stuck`: once the machine has waited for the line, `tx_req` stays high.
-/

namespace FpgaEthernet

/-- `UDP_PORT_MONITORING` (`eth_common.vhd` line 98). -/
def udpPortMonitoring : UdpPort := 0x2200

namespace EthernetMonitoringInterface

open Clocked

/-! ## Model -/

/-- `state_type` (`ethernet_monitoring_interface.vhd` line 69). -/
inductive StateType
  | hwReset
  | idle
  | txReqWait
  | readReg
  | readDone
  deriving DecidableEq

/-- The input ports (lines 34-53). -/
structure Input where
  readRegister : Bool
  startMonitoringCmd : Bool
  monitoringBusy : Bool
  reg32bMonitoring : Fin 18 → Word
  udpReady : Bool

/-- The registers and the variable `index`. -/
structure State where
  reg32bMonitoringReg : Fin 18 → Word
  monitoringBusyReg : Bool
  startMonitoringReg : Bool
  startMonitoring : Bool
  dataOut : Word
  dataOutValid : Bool
  dataOutEop : Bool
  txReq : Bool
  txBusy : Bool
  nextState : StateType
  index : ℕ

/-- The registers when `reset` is released after power-up. -/
def initial : State where
  reg32bMonitoringReg := fun _ => 0
  monitoringBusyReg := false
  startMonitoringReg := false
  startMonitoring := false
  dataOut := 0
  dataOutValid := false
  dataOutEop := false
  txReq := false
  txBusy := false
  nextState := .hwReset
  index := 0

/-- `udp_out_bus` (lines 75-81). -/
def udpOutBus (s : State) : UdpBus where
  data := s.dataOut
  port := udpPortMonitoring
  dval := s.dataOutValid
  eop := s.dataOutEop
  txReq := s.txReq
  txBusy := s.txBusy

/-- `register_buffer` (lines 84-94), and the values the registers of the machine
    take unless its state says otherwise (lines 111-113). There is none for
    `tx_req`. -/
def registerBuffer (i : Input) (s : State) : State :=
  { s with
    reg32bMonitoringReg := i.reg32bMonitoring
    monitoringBusyReg := i.monitoringBusy
    startMonitoringReg := i.startMonitoringCmd
    startMonitoring := s.startMonitoringReg
    dataOutValid := false
    dataOutEop := false
    txBusy := false }

/-- `Reg32b_monitoring_reg(index)`. -/
def monitoringWord (s : State) : Word :=
  if h : s.index < 18 then s.reg32bMonitoringReg ⟨s.index, h⟩ else 0

/-- `state_machine` (lines 97-150). What it reads is `s`; `d` has the default
    values in. -/
def stateMachine (i : Input) (s d : State) : State :=
  match s.nextState with
  | .hwReset => { d with nextState := .idle }
  | .idle =>
    { d with
      dataOut := 0
      nextState := if i.readRegister then .txReqWait else .idle }
  | .txReqWait =>
    if i.udpReady then { d with txReq := true, nextState := .readReg, index := 0, txBusy := true }
    else { d with txReq := true, nextState := .txReqWait }
  | .readReg =>
    { d with
      dataOut := monitoringWord s
      dataOutValid := true
      txBusy := true
      nextState := if s.index = 17 then .readDone else .readReg
      index := if s.index = 17 then s.index else s.index + 1 }
  | .readDone => { d with nextState := .idle }

/-- One edge of `clock`. -/
def step (i : Input) (s : State) : State := stateMachine i s (registerBuffer i s)

/-! ## Transmissions -/

variable {i : Input} {is : List Input} {s : State}

/-- The word on the bus after an edge. -/
def sent (i : Input) (s : State) : List Word :=
  if (udpOutBus (step i s)).dval then [(udpOutBus (step i s)).data] else []

/-- The next word is put out, from the monitoring register as it is then. -/
theorem step_readReg (hs : s.nextState = .readReg) :
    sent i s = [monitoringWord s] ∧ (step i s).reg32bMonitoringReg = i.reg32bMonitoring ∧
      (step i s).nextState = (if s.index = 17 then .readDone else .readReg) ∧
      (step i s).index = if s.index = 17 then s.index else s.index + 1 := by
  simp [sent, udpOutBus, step, stateMachine, hs, registerBuffer]

/-- From word `k` on the rest of the monitoring register is put out, and then
    the machine is done. -/
theorem reading_run (hs : s.nextState = .readReg) (hlen : s.index + is.length = 18)
    (hreg : ∀ i ∈ is, i.reg32bMonitoring = s.reg32bMonitoringReg) (hne : is ≠ []) :
    log step sent s is = (List.ofFn s.reg32bMonitoringReg).drop s.index ∧
      (run step s is).nextState = .readDone := by
  induction is generalizing s with
  | nil => exact absurd rfl hne
  | cons i is ih =>
    rw [List.length_cons] at hlen
    obtain ⟨hsent, hregs, hnext, hindex⟩ := step_readReg (i := i) hs
    have hlt : s.index < 18 := by omega
    have hword : monitoringWord s = s.reg32bMonitoringReg ⟨s.index, hlt⟩ := dif_pos hlt
    have hdrop : (List.ofFn s.reg32bMonitoringReg).drop s.index =
        monitoringWord s :: (List.ofFn s.reg32bMonitoringReg).drop (s.index + 1) := by
      rw [List.drop_eq_getElem_cons (by simpa using hlt), hword, List.getElem_ofFn]
    rw [log_cons, run_cons, hsent, hdrop]
    by_cases h17 : s.index = 17
    · obtain rfl : is = [] := List.eq_nil_of_length_eq_zero (by omega)
      rw [if_pos h17] at hnext
      refine ⟨?_, hnext⟩
      rw [log_nil, h17]
      rfl
    · rw [if_neg h17] at hnext hindex
      have hsame : (step i s).reg32bMonitoringReg = s.reg32bMonitoringReg :=
        hregs.trans (hreg i List.mem_cons_self)
      obtain ⟨hlog, hdone⟩ := ih hnext (by omega)
        (fun j hj => (hreg j (List.mem_cons_of_mem i hj)).trans hsame.symm)
        (List.ne_nil_of_length_pos (by omega))
      refine ⟨?_, hdone⟩
      rw [hlog, hsame, hindex]
      rfl

/-- No state lowers `tx_req`. -/
theorem txReq_step (h : s.txReq = true) : (step i s).txReq = true := by
  unfold step stateMachine
  cases s.nextState <;> (try split_ifs) <;> first | exact h | rfl

/-- Once the machine has waited for the line, `tx_req` stays high. -/
theorem txReq_stuck (hs : s.nextState = .txReqWait) (hne : is ≠ []) :
    (run step s is).txReq = true := by
  obtain ⟨i, js, rfl⟩ := List.exists_cons_of_ne_nil hne
  have hfirst : (step i s).txReq = true := by
    cases hr : i.udpReady <;> simp [step, stateMachine, hs, hr]
  rw [run_cons]
  exact run_invariant (I := fun t => t.txReq = true) step hfirst (fun _ _ _ h => txReq_step h)
    (along_of_forall step (P := fun _ => True) fun _ _ => trivial)

/-- The grant. -/
theorem step_granted (hs : s.nextState = .txReqWait) (hr : i.udpReady = true) :
    (step i s).nextState = .readReg ∧ (step i s).index = 0 ∧ (step i s).txReq = true := by
  simp [step, stateMachine, hs, hr]

/-- Not granted, the machine goes on waiting. -/
theorem step_waiting (hs : s.nextState = .txReqWait) (hr : i.udpReady = false) :
    (step i s).nextState = .txReqWait := by
  simp [step, stateMachine, hs, hr]

/-- At rest `tx_req` is kept, and the machine begins to wait only for
    `read_register`. -/
theorem step_resting (hs : s.nextState = .hwReset ∨ s.nextState = .idle) :
    (step i s).txReq = s.txReq ∧ ((step i s).nextState = .idle ∨
      s.nextState = .idle ∧ i.readRegister = true ∧ (step i s).nextState = .txReqWait) := by
  rcases hs with hs | hs
  · simp [step, stateMachine, hs, registerBuffer]
  · cases hr : i.readRegister <;> simp [step, stateMachine, hs, hr, registerBuffer]

/-- A word is put on the bus only while the register is read. -/
theorem readReg_of_valid (h : (step i s).dataOutValid = true) : s.nextState = .readReg := by
  unfold step stateMachine at h
  cases hs : s.nextState with
  | readReg => rfl
  | hwReset | idle | readDone =>
    rw [hs] at h
    cases h
  | txReqWait =>
    rw [hs] at h
    dsimp only at h
    split_ifs at h <;> cases h

end EthernetMonitoringInterface

end FpgaEthernet
