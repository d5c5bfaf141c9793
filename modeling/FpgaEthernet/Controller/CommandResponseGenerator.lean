import FpgaEthernet.Clocked.Run
import FpgaEthernet.Clocked.Fifo
import FpgaEthernet.Arbiter.UdpDataArbiter
import FpgaEthernet.Controller.OdileController

/-!
# `command_response_generator`

Model of `controller/command_response_generator.vhd`, with the counter of
`controller/uptime_counter.vhd`. The compile time `datetime.EPOCH_INT` comes from
a generated package and is a parameter. The command buffer `scfifo_32x16` is an
ideal FIFO (`Clocked.Fifo`) with a registered output.

The reply states raise `udp_valid_sig`, which reaches the bus one edge later; the
busy bit is high from the moment the machine leaves `IDLE`.

Main results:

* `Phase.step`: how far the machine is with a reply goes with what the arbiter
  shows it, as long as it does not start a reply from rest while the arbiter
  still has it as the current client.
* `Phase.dval`: a word is on the bus only while the line is with this client.
-/

namespace FpgaEthernet

/-! ## The uptime counter -/

/-- The registers of `uptime_counter`. -/
structure UptimeCounter where
  counterInternal : BitVec 32
  uptimeInternal : BitVec 32
  uptimeSeconds : Word
  deriving DecidableEq

/-- `COUNTER_INTERVAL` at 100 MHz (`uptime_counter.vhd` line 43). -/
def counterInterval : BitVec 32 := 100000000

/-- One edge of `uptime_counter` (lines 47-67). -/
def UptimeCounter.step (u : UptimeCounter) : UptimeCounter where
  uptimeSeconds := u.uptimeInternal
  uptimeInternal :=
    if u.counterInternal = counterInterval then u.uptimeInternal + 1 else u.uptimeInternal
  counterInternal :=
    if u.counterInternal = counterInterval then 1 else u.counterInternal + 1

namespace CommandResponseGenerator

open Clocked UdpDataArbiter Command

/-! ## Model -/

/-- `UDP_PORT_COMMAND_REPLY` (`eth_common.vhd` line 101). -/
def udpPortCommandReply : UdpPort := udpPortCommand

/-- `state_type` (`command_response_generator.vhd` lines 103-105). -/
inductive StateType
  | hwReset
  | idle
  | waitBuffer
  | readBuffer
  | txReqWait
  | processReply
  | replyTimestamp
  | replyDone
  | replyCmdList
  | replyUptime
  | replyInvalid
  | replyErrorCode
  deriving DecidableEq

/-- The input ports (lines 46-61). -/
structure Input where
  sendCmdAck : Bool
  dataIn : Word
  commandDone : Bool
  commandError : Bool
  errorCode : Word
  udpReady : Bool

/-- The registers, the command buffer with its output register, and the variables
    of the processes. -/
structure State where
  dataOut : Word
  dataOutPort : UdpPort
  dataOutValid : Bool
  dataOutEop : Bool
  cmdbuffWrreq : Bool
  cmdbuffData : Word
  commandDoneReg : Bool
  commandErrorReg : Bool
  errorCodeReg : Word
  errorSent : Bool
  cmdbuff : Fifo Word 16
  cmdbuffQ : Word
  uptime : UptimeCounter
  nextState : StateType
  udpDataSig : Word
  udpPortSig : UdpPort
  udpValidSig : Bool
  udpEopSig : Bool
  cmdbuffRdreq : Bool
  busySig : Bool
  txReq : Bool
  repliedDone : Bool
  repliedError : Bool
  currCommand : Command
  commandPrefix : BitVec 8
  cmdIdx : ℕ

/-- The registers when `reset` is released. -/
def initial : State where
  dataOut := 0
  dataOutPort := 0
  dataOutValid := false
  dataOutEop := false
  cmdbuffWrreq := false
  cmdbuffData := 0
  commandDoneReg := false
  commandErrorReg := false
  errorCodeReg := 0
  errorSent := false
  cmdbuff := Fifo.empty
  cmdbuffQ := 0
  uptime := ⟨0, 0, 0⟩
  nextState := .hwReset
  udpDataSig := 0
  udpPortSig := 0
  udpValidSig := false
  udpEopSig := false
  cmdbuffRdreq := false
  busySig := false
  txReq := false
  repliedDone := false
  repliedError := false
  currCommand := 0
  commandPrefix := 0
  cmdIdx := 0

/-- `udp_out_bus` (lines 125-133). -/
def udpOutBus (s : State) : UdpBus where
  data := s.dataOut
  port := s.dataOutPort
  dval := s.dataOutValid
  eop := s.dataOutEop
  txReq := s.txReq
  txBusy := s.busySig

/-- The registers of `output_register` that follow `command_error` (lines 168-178):
    `command_error_reg`, `error_code_reg` and `error_sent`. -/
def errorRegister (i : Input) (s : State) : Bool × Word × Bool :=
  if s.repliedError then (false, s.errorCodeReg, true)
  else if i.commandError = true ∧ s.errorSent = false then (true, i.errorCode, s.errorSent)
  else if i.commandError = false ∧ s.errorSent = true then
    (s.commandErrorReg, s.errorCodeReg, false)
  else (s.commandErrorReg, s.errorCodeReg, s.errorSent)

/-- `output_register` (lines 146-181) and the command buffer (lines 188-196). -/
def outputRegister (i : Input) (s : State) : State :=
  { s with
    dataOut := s.udpDataSig
    dataOutPort := s.udpPortSig
    dataOutValid := s.udpValidSig
    dataOutEop := s.udpEopSig
    cmdbuffWrreq := i.sendCmdAck
    cmdbuffData := i.dataIn
    commandDoneReg :=
      if i.commandDone then true else if s.repliedDone then false else s.commandDoneReg
    commandErrorReg := (errorRegister i s).1
    errorCodeReg := (errorRegister i s).2.1
    errorSent := (errorRegister i s).2.2
    cmdbuff := s.cmdbuff.clock s.cmdbuffWrreq s.cmdbuffData s.cmdbuffRdreq
    cmdbuffQ := s.cmdbuff.nextQ s.cmdbuffRdreq s.cmdbuffQ
    uptime := s.uptime.step }

/-- The state after the echo of a command (lines 277-313). -/
def replyState (cmd : Command) : StateType :=
  if cmd = cmdClearError then .replyDone
  else if cmd = cmdResetCabac then .replyDone
  else if cmd = cmdDone then .idle
  else if cmd = cmdError then .idle
  else if cmd = cmdGetTs then .replyTimestamp
  else if cmd = cmdGetError then .replyErrorCode
  else if cmd = cmdEpcqSeta then .replyDone
  else if cmd = cmdEpcqClear then .replyDone
  else if cmd = cmdGetCmdList then .replyCmdList
  else if cmd = cmdGetUptime then .replyUptime
  else if isValidCommand cmd then .idle
  else .replyInvalid

/-- Put `w` into the registers of the reply and go to `next`. -/
def send (s : State) (w : Word) (next : StateType) : State :=
  { s with
    udpDataSig := w
    udpPortSig := udpPortCommandReply
    udpValidSig := true
    nextState := next }

/-- The values a clocked register takes unless its state says otherwise
    (lines 217-227). -/
def defaults (s : State) : State :=
  { s with
    udpDataSig := 0
    udpPortSig := 0
    udpValidSig := false
    udpEopSig := false
    cmdbuffRdreq := false
    busySig := true
    txReq := false
    repliedDone := false
    repliedError := false }

/-- `state_machine` (lines 204-364). What it reads is `s`; `d` has the default
    values in. -/
def stateMachine (epochInt : ℕ) (i : Input) (s d : State) : State :=
  match s.nextState with
  | .hwReset => { d with nextState := .idle, busySig := false }
  | .idle =>
    if s.cmdbuff.contents ≠ [] then { d with nextState := .waitBuffer, cmdbuffRdreq := true }
    else if s.commandErrorReg = true ∧ s.repliedError = false then
      { d with nextState := .txReqWait, currCommand := cmdError }
    else if s.commandDoneReg = true ∧ s.repliedDone = false then
      { d with nextState := .txReqWait, currCommand := cmdDone }
    else { d with nextState := .idle, busySig := false }
  | .waitBuffer => { d with nextState := .readBuffer }
  | .readBuffer =>
    { d with
      txReq := true
      currCommand := s.cmdbuffQ.extractLsb' 0 24
      commandPrefix := s.cmdbuffQ.extractLsb' 24 8
      nextState := .txReqWait }
  | .txReqWait =>
    if i.udpReady then { d with nextState := .processReply }
    else { d with txReq := true, nextState := .txReqWait }
  | .processReply =>
    { send d ((0xF0 : BitVec 8) ++ s.currCommand : BitVec 32) (replyState s.currCommand) with
      repliedDone := decide (s.currCommand = cmdDone)
      repliedError := decide (s.currCommand = cmdError)
      cmdIdx := if s.currCommand = cmdGetCmdList then 0 else s.cmdIdx }
  | .replyTimestamp => send d (BitVec.ofNat 32 epochInt) .replyDone
  | .replyErrorCode =>
    send d (BitVec.ofBool i.commandError ++ s.errorCodeReg.extractLsb' 0 31 : BitVec 32) .replyDone
  | .replyCmdList =>
    let w : Word := ((0x00 : BitVec 8) ++ validCommands.getD s.cmdIdx 0 : BitVec 32)
    if validCommands.length - 1 ≤ s.cmdIdx then send d w .replyDone
    else { send d w .replyCmdList with cmdIdx := s.cmdIdx + 1 }
  | .replyUptime => send d s.uptime.uptimeSeconds .replyDone
  | .replyDone => send d ((0xF0 : BitVec 8) ++ cmdDone : BitVec 32) .idle
  | .replyInvalid => send d ((0xF0 : BitVec 8) ++ cmdInvalid : BitVec 32) .idle

/-- One edge of `clock`. -/
def step (epochInt : ℕ) (i : Input) (s : State) : State :=
  stateMachine epochInt i s (defaults (outputRegister i s))

/-! ## As a client of the arbiter -/

variable {epochInt : ℕ} {i : Input} {s : State}

@[simp] theorem step_dataOutValid : (step epochInt i s).dataOutValid = s.udpValidSig := by
  unfold step stateMachine
  split <;> (try split_ifs) <;> rfl

/-- `tx_req` is raised only to wait for the line. -/
theorem step_txReq (h : (step epochInt i s).txReq = true) :
    (step epochInt i s).nextState = .txReqWait := by
  unfold step stateMachine at h ⊢
  cases hs : s.nextState with
  | readBuffer => rfl
  | txReqWait =>
    rw [hs] at h
    cases hr : i.udpReady
    · rfl
    · rw [hr] at h
      cases h
  | idle | replyCmdList =>
    rw [hs] at h
    dsimp only at h
    split_ifs at h <;> cases h
  | hwReset | waitBuffer | processReply | replyTimestamp | replyDone | replyUptime | replyInvalid
  | replyErrorCode =>
    rw [hs] at h
    cases h

/-- Without a command, an error or a finished command the machine stays in `IDLE`. -/
theorem step_rest (hs : s.nextState = .hwReset ∨ s.nextState = .idle)
    (hno : ¬(s.nextState = .idle ∧ (s.cmdbuff.contents ≠ [] ∨
      s.commandErrorReg = true ∧ s.repliedError = false ∨
      s.commandDoneReg = true ∧ s.repliedDone = false))) :
    (step epochInt i s).nextState = .idle := by
  rcases hs with hs | hs
  · simp [step, stateMachine, hs]
  · simp only [hs, true_and, not_or] at hno
    simp only [step, stateMachine, hs, if_neg hno.1, if_neg hno.2.1, if_neg hno.2.2]

/-- No word of a reply is under way. -/
def Quiet (s : State) : Prop := s.udpValidSig = false ∧ s.dataOutValid = false

/-- The machine leaves rest, its busy bit low, to report an error or a finished
    command. -/
def Starts (s : State) : Prop :=
  s.nextState = .idle ∧ s.busySig = false ∧ s.cmdbuff.contents = [] ∧
    (s.commandErrorReg = true ∧ s.repliedError = false ∨
      s.commandDoneReg = true ∧ s.repliedDone = false)

instance : Decidable (Starts s) := inferInstanceAs (Decidable (_ ∧ _))

/-- How far the machine is with a reply, and what the arbiter shows it then. -/
inductive Phase (s : State) : View → Prop
  | resting (r : Bool) :
      s.nextState = .hwReset ∨ s.nextState = .idle ∨ s.nextState = .waitBuffer ∨
        s.nextState = .readBuffer →
      Quiet s → s.txReq = false → Phase s (.away r)
  | asking : s.nextState = .txReqWait → Quiet s → s.busySig = true → Phase s (.away false)
  | granted (r : Bool) :
      s.nextState = .txReqWait → Quiet s → s.busySig = true → Phase s (.waiting r r)
  | replying : s.nextState ≠ .hwReset → s.busySig = true → Phase s (.serving true)
  | closing :
      s.nextState = .idle → s.busySig = false → s.udpValidSig = false → Phase s (.serving true)
  | closed :
      s.nextState = .idle ∧ s.busySig = false ∨ s.nextState = .waitBuffer → Quiet s →
      Phase s (.serving false)

theorem phase_initial : Phase initial (.away false) :=
  .resting _ (.inl rfl) ⟨rfl, rfl⟩ rfl

/-- A word is on the bus only while the line is with this client. -/
theorem Phase.dval {v : View} (hp : Phase s v) (hd : (udpOutBus s).dval = true) : ¬v.IsAway := by
  rintro hv
  cases hp with
  | resting r _ hq => simp [udpOutBus, hq.2] at hd
  | asking _ hq => simp [udpOutBus, hq.2] at hd
  | granted | replying | closing | closed => exact hv

/-- An edge in `IDLE` without a start leaves no word under way and asks for
    nothing. -/
theorem step_idle (hs : s.nextState = .idle) (hb : s.busySig = false) (hn : ¬Starts s) :
    (step epochInt i s).udpValidSig = false ∧ (step epochInt i s).txReq = false ∧
      ((step epochInt i s).nextState = .idle ∧ (step epochInt i s).busySig = false ∨
        (step epochInt i s).nextState = .waitBuffer) := by
  simp only [Starts, hs, hb, true_and] at hn
  by_cases he : s.cmdbuff.contents = []
  · simp only [he, true_and, not_or] at hn
    simp [step, stateMachine, defaults, outputRegister, hs, he, hn]
  · simp [step, stateMachine, defaults, outputRegister, hs, he]

theorem replyState_ne (cmd : Command) : replyState cmd ≠ .hwReset := by
  have hite : ∀ {p : Prop} [Decidable p] {a b : StateType}, a ≠ .hwReset → b ≠ .hwReset →
      (if p then a else b) ≠ .hwReset := fun ha hb => by
    split
    · exact ha
    · exact hb
  unfold replyState
  repeat' apply hite
  all_goals exact nofun

/-- Outside `IDLE` the busy bit stays up, and no state leads back to the reset. -/
theorem step_busy (hs : s.nextState ≠ .hwReset) (hi : s.nextState ≠ .idle) :
    (step epochInt i s).nextState ≠ .hwReset ∧ (step epochInt i s).busySig = true := by
  unfold step stateMachine
  cases h : s.nextState with
  | hwReset => exact absurd h hs
  | idle => exact absurd h hi
  | txReqWait => cases i.udpReady <;> exact ⟨by simp, rfl⟩
  | processReply => exact ⟨replyState_ne _, rfl⟩
  | replyCmdList =>
    by_cases hc : Command.validCommands.length - 1 ≤ s.cmdIdx
    · exact ⟨by simp [hc, send], by simp only [hc, if_true]; rfl⟩
    · exact ⟨by simp [hc, send], by simp only [hc, if_false]; rfl⟩
  | waitBuffer | readBuffer | replyTimestamp | replyDone | replyUptime | replyInvalid
  | replyErrorCode => exact ⟨by simp [send], rfl⟩

/-- From `IDLE` the machine keeps the busy bit up and goes on, or lowers it. -/
theorem step_idle_cases (hs : s.nextState = .idle) :
    (step epochInt i s).nextState ≠ .hwReset ∧ (step epochInt i s).udpValidSig = false ∧
      ((step epochInt i s).busySig = true ∨
        (step epochInt i s).nextState = .idle ∧ (step epochInt i s).busySig = false) := by
  unfold step stateMachine
  rw [hs]
  dsimp only
  split_ifs <;> simp [defaults]

/-- Reading a command out of the buffer ends in waiting for the line. -/
theorem step_readBuffer (hs : s.nextState = .readBuffer) :
    (step epochInt i s).nextState = .txReqWait ∧ (step epochInt i s).busySig = true ∧
      (step epochInt i s).udpValidSig = false := by
  simp [step, stateMachine, hs, defaults]

theorem step_hwReset (hs : s.nextState = .hwReset) :
    (step epochInt i s).nextState = .idle ∧ (step epochInt i s).udpValidSig = false ∧
      (step epochInt i s).txReq = false := by
  simp [step, stateMachine, hs, defaults]

theorem step_waitBuffer (hs : s.nextState = .waitBuffer) :
    (step epochInt i s).nextState = .readBuffer ∧ (step epochInt i s).udpValidSig = false ∧
      (step epochInt i s).txReq = false := by
  simp [step, stateMachine, hs, defaults]

/-- Without `udp_ready` the machine goes on waiting. -/
theorem step_txReqWait (hs : s.nextState = .txReqWait) (hi : i.udpReady = false) :
    (step epochInt i s).nextState = .txReqWait ∧ (step epochInt i s).busySig = true ∧
      (step epochInt i s).udpValidSig = false := by
  simp [step, stateMachine, hs, hi, defaults]

/-- From rest the machine stays at rest or waits for the line, with nothing under
    way and, while it rests, nothing asked for. -/
theorem step_resting
    (hs : s.nextState = .hwReset ∨ s.nextState = .idle ∨ s.nextState = .waitBuffer ∨
      s.nextState = .readBuffer) (hq : Quiet s) :
    Phase (step epochInt i s) (.away false) := by
  have hd : (step epochInt i s).dataOutValid = false := step_dataOutValid.trans hq.1
  rcases hs with hs | hs | hs | hs
  · have h := @step_hwReset epochInt i s hs
    exact .resting _ (.inr (.inl h.1)) ⟨h.2.1, hd⟩ h.2.2
  · obtain ⟨hn, hv, hb⟩ := @step_idle_cases epochInt i s hs
    by_cases hw : (step epochInt i s).nextState = .txReqWait
    · refine .asking hw ⟨hv, hd⟩ (hb.resolve_right fun h => ?_)
      rw [hw] at h
      cases h.1
    · have h : ((step epochInt i s).nextState = .idle ∨
          (step epochInt i s).nextState = .waitBuffer) ∧ (step epochInt i s).txReq = false := by
        revert hw
        unfold step stateMachine
        rw [hs]
        dsimp only
        split_ifs <;> simp [defaults]
      exact .resting _ (.inr (h.1.imp_right .inl)) ⟨hv, hd⟩ h.2
  · have h := @step_waitBuffer epochInt i s hs
    exact .resting _ (.inr (.inr (.inr h.1))) ⟨h.2.1, hd⟩ h.2.2
  · have h := @step_readBuffer epochInt i s hs
    exact .asking h.1 ⟨h.2.2, hd⟩ h.2.1

/-- How far the machine is with a reply goes with what the arbiter shows it. -/
theorem Phase.step {v v' : View} (hp : Phase s v) (hv : View.Step (udpOutBus s) v v')
    (hi : i.udpReady = v.ready) (hn : Starts s → v.IsAway) :
    Phase (CommandResponseGenerator.step epochInt i s) v' := by
  cases hp with
  | resting r hs hq hreq =>
    cases hv with
    | pass => exact step_resting hs hq
    | grant _ h => simp [udpOutBus, hreq] at h
  | asking hs hq hb =>
    have h := @step_txReqWait epochInt i s hs hi
    have hq' : Quiet (CommandResponseGenerator.step epochInt i s) :=
      ⟨h.2.2, step_dataOutValid.trans hq.1⟩
    cases hv with
    | pass => exact .asking h.1 hq' h.2.1
    | grant => exact .granted false h.1 hq' h.2.1
  | granted r hs hq hb =>
    cases hv with
    | wait =>
      have h := @step_txReqWait epochInt i s hs hi
      have hv' : (udpOutBus s).txBusy = true := hb
      rw [hv']
      exact .granted true h.1 ⟨h.2.2, step_dataOutValid.trans hq.1⟩ h.2.1
    | begin =>
      have h := @step_busy epochInt i s (by simp [hs]) (by simp [hs])
      have hv' : (udpOutBus s).txBusy = true := hb
      rw [hv']
      exact .replying h.1 h.2
  | replying hs hb =>
    cases hv
    have hv' : (udpOutBus s).txBusy = true := hb
    rw [hv']
    by_cases hidle : s.nextState = .idle
    · obtain ⟨hne, hval, hb' | hb'⟩ := @step_idle_cases epochInt i s hidle
      · exact .replying hne hb'
      · exact .closing hb'.1 hb'.2 hval
    · have h := @step_busy epochInt i s hs hidle
      exact .replying h.1 h.2
  | closing hs hb hval =>
    cases hv
    have hv' : (udpOutBus s).txBusy = false := hb
    rw [hv']
    have h := @step_idle epochInt i s hs hb hn
    exact .closed h.2.2 ⟨h.1, step_dataOutValid.trans hval⟩
  | closed hs hq =>
    cases hv
    rcases hs with ⟨hs, hb⟩ | hs
    · have h := @step_idle epochInt i s hs hb hn
      refine .resting true ?_ ⟨h.1, step_dataOutValid.trans hq.1⟩ h.2.1
      rcases h.2.2 with h' | h'
      · exact .inr (.inl h'.1)
      · exact .inr (.inr (.inl h'))
    · have h := @step_waitBuffer epochInt i s hs
      exact .resting true (.inr (.inr (.inr h.1))) ⟨h.2.1, step_dataOutValid.trans hq.1⟩ h.2.2

end CommandResponseGenerator

end FpgaEthernet
