import FpgaEthernet.Clocked.Run
import FpgaEthernet.Arbiter.UdpDataArbiter

/-!
# `udp_interface` of `epcqio_control`

Model of the process `udp_interface` and of the register in front of its bus
(`top_remote_update/epcqio_control.vhd`). The read buffer's used-word count and
output, and `read_busy`, are inputs.

Main results:

* `Phase.step`: how far a transmission is goes with what the arbiter shows, as
  long as none starts while the arbiter still has this client as the current one.
* `Phase.dval`: a word is on the bus only while the line is with this client.
-/

namespace FpgaEthernet

/-- `UDP_PORT_EPCQIO` (`eth_common.vhd` line 102). -/
def udpPortEpcqio : UdpPort := 0x4000

namespace UdpInterface

open Clocked UdpDataArbiter

/-! ## Model -/

/-- `udp_interface_state_type` (`epcqio_control.vhd` line 261). -/
inductive StateType
  | hwReset
  | idle
  | txReqWait
  | sendingData
  | txDone
  deriving DecidableEq

/-- `FIFO_DELAY` (line 96). -/
def fifoDelay : ℕ := 2

/-- What the process reads: `read_busy_sig`, the read buffer and `udp_ready`. -/
structure Input where
  readBusySig : Bool
  rdbuffRdusedw : BitVec 7
  rdbuffQ : Word
  udpReady : Bool
  deriving DecidableEq

/-- The registers, the variables of the process, and the registered bus. -/
structure State where
  nextState : StateType
  dataOut : Word
  dataOutValid : Bool
  dataOutEop : Bool
  txReq : Bool
  txBusy : Bool
  rdbuffRdreq : Bool
  fifoTimer : ℕ
  wordsToRead : ℕ
  wordsRead : ℕ
  udpOutBus : UdpBus
  deriving DecidableEq

/-- The registers when `reset` is released. -/
def initial : State where
  nextState := .hwReset
  dataOut := 0
  dataOutValid := false
  dataOutEop := false
  txReq := false
  txBusy := false
  rdbuffRdreq := false
  fifoTimer := 0
  wordsToRead := 0
  wordsRead := 0
  udpOutBus := .quiet

/-- `udp_bus_register` (lines 267-278), and the values the registers take unless
    the state says otherwise (lines 298-302). -/
def busRegister (i : Input) (s : State) : State :=
  { s with
    udpOutBus := ⟨s.dataOut, udpPortEpcqio, s.dataOutValid, s.dataOutEop, s.txReq, s.txBusy⟩
    txReq := false
    dataOut := i.rdbuffQ
    dataOutValid := false
    dataOutEop := false }

/-- `udp_interface` (lines 284-350). What it reads is `s`; `d` has the default
    values in. -/
def udpInterface (i : Input) (s d : State) : State :=
  match s.nextState with
  | .hwReset => { d with nextState := .idle, txBusy := false }
  | .idle =>
    let d := { d with wordsRead := 0, txBusy := false }
    if i.readBusySig = false ∧ i.rdbuffRdusedw.toNat ≠ 0 then
      { d with nextState := .txReqWait, wordsToRead := i.rdbuffRdusedw.toNat }
    else d
  | .txReqWait =>
    if i.udpReady then
      { d with
        txReq := true
        nextState := .sendingData
        fifoTimer := 1
        rdbuffRdreq := true
        txBusy := true }
    else { d with txReq := true }
  | .sendingData =>
    let wordsRead := if fifoDelay ≤ s.fifoTimer then s.wordsRead + 1 else s.wordsRead
    { d with
      txBusy := true
      dataOutValid := decide (fifoDelay ≤ s.fifoTimer)
      wordsRead := wordsRead
      rdbuffRdreq := decide (s.fifoTimer < s.wordsToRead)
      nextState := if s.wordsToRead ≤ wordsRead then .txDone else .sendingData
      fifoTimer := s.fifoTimer + 1 }
  | .txDone => { d with txBusy := false, nextState := .idle }

/-- One edge of `data_clock`. -/
def step (i : Input) (s : State) : State := udpInterface i s (busRegister i s)

/-! ## As a client of the arbiter -/

variable {i : Input} {s : State}

/-- `tx_req` is raised only while the machine waits for the line. -/
theorem step_txReq (h : (step i s).txReq = true) :
    s.nextState = .txReqWait ∧
      ((step i s).nextState = .txReqWait ∨ (step i s).nextState = .sendingData) := by
  unfold step udpInterface at h ⊢
  cases hs : s.nextState with
  | txReqWait =>
    dsimp only
    split_ifs
    · exact ⟨rfl, Or.inr rfl⟩
    · exact ⟨rfl, Or.inl hs⟩
  | hwReset | sendingData | txDone =>
    rw [hs] at h
    cases h
  | idle =>
    rw [hs] at h
    dsimp only at h
    split_ifs at h <;> cases h

/-- Nothing on the bus and nothing on its way to it. -/
def Quiet (s : State) : Prop :=
  s.dataOutValid = false ∧ s.txBusy = false ∧ s.udpOutBus.dval = false ∧
    s.udpOutBus.txBusy = false

/-- The words to be sent are counted, and none is sent yet. -/
def Counted (s : State) : Prop := 0 < s.wordsToRead ∧ s.wordsRead = 0

/-- There are words to send while the machine is idle. -/
def Starts (i : Input) (s : State) : Prop :=
  s.nextState = .idle ∧ i.readBusySig = false ∧ i.rdbuffRdusedw.toNat ≠ 0

instance : Decidable (Starts i s) := inferInstanceAs (Decidable (_ ∧ _ ∧ _))

/-- How far a transmission is, and what the arbiter shows then. -/
inductive Phase (s : State) : View → Prop
  | resting (r : Bool) :
      s.nextState = .hwReset ∨ s.nextState = .idle → Quiet s → s.txReq = false →
      s.udpOutBus.txReq = false → Phase s (.away r)
  | asking : s.nextState = .txReqWait → Quiet s → Counted s → Phase s (.away false)
  | granted (r : Bool) :
      s.nextState = .txReqWait → Quiet s → Counted s → Phase s (.waiting r false)
  | opening :
      s.nextState = .sendingData → s.txBusy = true → s.udpOutBus.txBusy = false →
      s.fifoTimer = 1 → Counted s → Phase s (.waiting true false)
  | opened :
      s.nextState = .sendingData → s.txBusy = true → s.udpOutBus.txBusy = true →
      Phase s (.waiting true false)
  | started :
      s.nextState = .sendingData ∨ s.nextState = .txDone → s.txBusy = true →
      s.udpOutBus.txBusy = true → Phase s (.waiting true true)
  | sending :
      s.nextState = .sendingData ∨ s.nextState = .txDone → s.txBusy = true →
      s.udpOutBus.txBusy = true → Phase s (.serving true)
  | closing (b : Bool) :
      s.nextState = .idle → s.dataOutValid = false → s.txBusy = false → s.txReq = false →
      Phase s (.serving b)

theorem phase_initial : Phase initial (.away false) :=
  .resting _ (.inl rfl) ⟨rfl, rfl, rfl, rfl⟩ rfl rfl

/-- A word is on the bus only while the line is with this client. -/
theorem Phase.dval {v : View} (hp : Phase s v) (hd : s.udpOutBus.dval = true) : ¬v.IsAway := by
  rintro hv
  cases hp with
  | resting r _ hq => simp [hq.2.2.1] at hd
  | asking _ hq => simp [hq.2.2.1] at hd
  | granted | opening | opened | started | sending | closing => exact hv

/-- The bus shows what the registers held. -/
theorem step_udpOutBus : (step i s).udpOutBus =
    ⟨s.dataOut, udpPortEpcqio, s.dataOutValid, s.dataOutEop, s.txReq, s.txBusy⟩ := by
  unfold step udpInterface
  cases s.nextState
  case idle => dsimp only; split_ifs <;> rfl
  case txReqWait => dsimp only; split_ifs <;> rfl
  all_goals rfl

theorem Quiet.step (hq : Quiet s) (hv : (UdpInterface.step i s).dataOutValid = false)
    (hb : (UdpInterface.step i s).txBusy = false) : Quiet (UdpInterface.step i s) := by
  refine ⟨hv, hb, ?_, ?_⟩
  · rw [step_udpOutBus]
    exact hq.1
  · rw [step_udpOutBus]
    exact hq.2.1

/-- From `HW_RESET` and `IDLE` the machine rests or waits for the line; it waits
    only if there are words to send. -/
theorem step_resting (hs : s.nextState = .hwReset ∨ s.nextState = .idle) :
    (step i s).dataOutValid = false ∧ (step i s).txBusy = false ∧ (step i s).txReq = false ∧
      ((step i s).nextState = .idle ∨
        Starts i s ∧ (step i s).nextState = .txReqWait ∧ Counted (step i s)) := by
  rcases hs with hs | hs
  · simp [step, udpInterface, busRegister, hs]
  · by_cases h : i.readBusySig = false ∧ i.rdbuffRdusedw.toNat ≠ 0
    · simp only [step, udpInterface, hs, if_pos h]
      exact ⟨rfl, trivial, rfl, .inr ⟨⟨hs, h.1, h.2⟩, trivial, Nat.pos_of_ne_zero h.2, rfl⟩⟩
    · simp only [step, udpInterface, hs, if_neg h]
      exact ⟨rfl, trivial, rfl, .inl (by simp [busRegister, hs])⟩

/-- The machine waits for `udp_ready` and then raises its busy bit. -/
theorem step_txReqWait (hs : s.nextState = .txReqWait) (hc : Counted s) (hb : s.txBusy = false) :
    (step i s).dataOutValid = false ∧ Counted (step i s) ∧
      (if i.udpReady then
        (step i s).nextState = .sendingData ∧ (step i s).txBusy = true ∧ (step i s).fifoTimer = 1
      else (step i s).nextState = .txReqWait ∧ (step i s).txBusy = false) := by
  cases h : i.udpReady <;>
    simp [step, udpInterface, busRegister, hs, h, Counted, hc.1, hc.2, hb]

/-- While the words are sent the busy bit is up; the first edge sends none. -/
theorem step_sendingData (hs : s.nextState = .sendingData) :
    (step i s).txBusy = true ∧
      ((step i s).nextState = .sendingData ∨ (step i s).nextState = .txDone) ∧
      (s.fifoTimer = 1 → Counted s → (step i s).nextState = .sendingData) := by
  simp only [step, udpInterface, hs]
  refine ⟨trivial, ?_, ?_⟩
  · split_ifs <;> simp
  · intro ht hc
    have h₁ : ¬s.wordsToRead ≤ s.wordsRead := by
      have := hc.1
      have := hc.2
      omega
    simp [ht, fifoDelay, h₁]

theorem step_txDone (hs : s.nextState = .txDone) :
    (step i s).nextState = .idle ∧ (step i s).dataOutValid = false ∧
      (step i s).txBusy = false ∧ (step i s).txReq = false := by
  simp [step, udpInterface, busRegister, hs]

/-- How far a transmission is goes with what the arbiter shows. -/
theorem Phase.step {v v' : View} (hp : Phase s v) (hv : View.Step s.udpOutBus v v')
    (hi : i.udpReady = v.ready) (hn : Starts i s → v.IsAway) :
    Phase (UdpInterface.step i s) v' := by
  have hbus : (UdpInterface.step i s).udpOutBus.txBusy = s.txBusy := by rw [step_udpOutBus]
  have hreq' : (UdpInterface.step i s).udpOutBus.txReq = s.txReq := by rw [step_udpOutBus]
  cases hp with
  | resting r hs hq hreq hbreq =>
    have hv' : v' = .away false := by
      cases hv with
      | pass => rfl
      | grant _ hr => simp [hbreq] at hr
    subst hv'
    obtain ⟨hdv, hb, hr, h | h⟩ := step_resting (i := i) hs
    · exact .resting _ (.inr h) (hq.step hdv hb) hr (hreq'.trans hreq)
    · exact .asking h.2.1 (hq.step hdv hb) h.2.2
  | asking hs hq hc =>
    obtain ⟨hdv, hc', h⟩ := step_txReqWait (i := i) hs hc hq.2.1
    rw [hi] at h
    cases hv with
    | pass => exact .asking h.1 (hq.step hdv h.2) hc'
    | grant => exact .granted _ h.1 (hq.step hdv h.2) hc'
  | granted r hs hq hc =>
    obtain ⟨hdv, hc', h⟩ := step_txReqWait (i := i) hs hc hq.2.1
    rw [hi] at h
    cases hv
    rw [hq.2.2.2]
    cases r with
    | false => exact .granted _ h.1 (hq.step hdv h.2) hc'
    | true => exact .opening h.1 h.2.1 (hbus.trans hq.2.1) h.2.2 hc'
  | opening hs hb hbb ht hc =>
    have h := step_sendingData (i := i) hs
    cases hv
    rw [hbb]
    exact .opened (h.2.2 ht hc) h.1 (hbus.trans hb)
  | opened hs hb hbb =>
    have h := step_sendingData (i := i) hs
    cases hv
    rw [hbb]
    exact .started h.2.1 h.1 (hbus.trans hb)
  | started hs hb hbb =>
    cases hv
    rw [hbb]
    rcases hs with hs | hs
    · have h := step_sendingData (i := i) hs
      exact .sending h.2.1 h.1 (hbus.trans hb)
    · have h := step_txDone (i := i) hs
      exact .closing _ h.1 h.2.1 h.2.2.1 h.2.2.2
  | sending hs hb hbb =>
    cases hv
    rw [hbb]
    rcases hs with hs | hs
    · have h := step_sendingData (i := i) hs
      exact .sending h.2.1 h.1 (hbus.trans hb)
    · have h := step_txDone (i := i) hs
      exact .closing _ h.1 h.2.1 h.2.2.1 h.2.2.2
  | closing b hs hdv hb hr =>
    obtain ⟨hdv', hb', hr', h | h⟩ := step_resting (i := i) (.inr hs)
    · cases hv with
      | serve => exact .closing _ h hdv' hb' hr'
      | release =>
        refine .resting _ (.inr h) ⟨hdv', hb', ?_, hbus.trans hb⟩ hr' (hreq'.trans hr)
        rw [step_udpOutBus]
        exact hdv
    · exact absurd (hn h.1) id

end UdpInterface

end FpgaEthernet
