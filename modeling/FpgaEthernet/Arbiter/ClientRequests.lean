import FpgaEthernet.Controller.CommandResponseGenerator
import FpgaEthernet.Interfaces.EthernetCcdcontrolInterface
import FpgaEthernet.Interfaces.EthernetMonitoringInterface
import FpgaEthernet.ConfigScanner.ConfigBlockScanner
import FpgaEthernet.Flash.UdpInterface

/-!
# The request lines of the arbiter's clients

When the five clients of `udp_data_arbiter` hold `tx_req` high. A client asks for
the line only while a transmission it was triggered for waits for its grant, and
leaves it alone from the end of the transmission to the next trigger. `tx_req` is
a register, and `epcqio_control` puts its whole bus through another one, so the
line follows the machine one or two edges late.

Main results:

* `conforms_of_step`: conformance from what one edge does.
* `conforms_iff_never_granted`: the client of the monitoring block conforms iff
  its requests are never granted.
* `clients_conform_iff`: all five clients conform iff this one is never granted.
-/

namespace FpgaEthernet.UdpDataArbiter

open Clocked

universe u v

/-! ## Conformance -/

/-- A client as far as its request line goes. -/
structure Requester (ι : Type u) (σ : Type v) where
  step : ι → σ → σ
  initial : σ
  txReq : σ → Bool
  /-- A triggered transmission waits for its grant. -/
  Waiting : σ → Prop
  /-- There is no transmission. -/
  Resting : σ → Prop
  /-- A transmission is triggered at this edge. -/
  Trigger : ι → σ → Prop
  /-- The edges by which the line follows the machine. -/
  latency : ℕ

variable {ι : Type u} {σ : Type v}

/-- In the run with the inputs `x`: the line is high only for a transmission that
    waits, or did so at most `latency` edges ago; it is low at rest; and the
    client stays at rest until it is triggered. -/
structure Requester.Conforms (r : Requester ι σ) (x : ℕ → ι) : Prop where
  waiting : ∀ n, r.txReq (trace r.step r.initial x n) = true →
    ∃ k ≤ r.latency, k ≤ n ∧ r.Waiting (trace r.step r.initial x (n - k))
  low : ∀ n, r.Resting (trace r.step r.initial x n) →
    r.txReq (trace r.step r.initial x n) = false
  rest : ∀ n, r.Resting (trace r.step r.initial x n) →
    ¬r.Trigger (x n) (trace r.step r.initial x n) →
      r.Resting (trace r.step r.initial x (n + 1))

/-- From the end of a transmission to the next trigger the line stays low. -/
theorem Requester.Conforms.low_until {r : Requester ι σ} {x : ℕ → ι} (h : r.Conforms x) {n : ℕ}
    (hn : r.Resting (trace r.step r.initial x n)) (k : ℕ)
    (hk : ∀ j < k, ¬r.Trigger (x (n + j)) (trace r.step r.initial x (n + j))) :
    r.txReq (trace r.step r.initial x (n + k)) = false := by
  have hrest : r.Resting (trace r.step r.initial x (n + k)) := by
    induction k with
    | zero => exact hn
    | succ k ih => exact h.rest (n + k) (ih fun j hj => hk j (by omega)) (hk k (by omega))
  exact h.low _ hrest

/-- A line that follows the machine by one edge conforms if every edge that
    meets `R` raises it only for a transmission that waits. -/
theorem conforms_of_step {r : Requester ι σ} {x : ℕ → ι} {R : ι → σ → Prop} {I : σ → Prop}
    (hlat : r.latency = 1) (h₀ : I r.initial) (hreq₀ : r.txReq r.initial = false)
    (hI : ∀ i s, R i s → I s → I (r.step i s))
    (hwaiting : ∀ i s, R i s → I s → r.txReq (r.step i s) = true →
      r.Waiting s ∨ r.Waiting (r.step i s))
    (hlow : ∀ i s, R i s → I s → r.Resting (r.step i s) → r.txReq (r.step i s) = false)
    (hrest : ∀ i s, r.Resting s → ¬r.Trigger i s → r.Resting (r.step i s))
    (hR : ∀ n, R (x n) (trace r.step r.initial x n)) : r.Conforms x := by
  have hinv : ∀ n, I (trace r.step r.initial x n) := by
    intro n
    induction n with
    | zero => exact h₀
    | succ n ih =>
      rw [trace_succ]
      exact hI _ _ (hR n) ih
  refine ⟨fun n hn => ?_, fun n hn => ?_, fun n hn hno => ?_⟩
  · cases n with
    | zero =>
      rw [trace_zero, hreq₀] at hn
      cases hn
    | succ n =>
      rw [trace_succ] at hn
      rcases hwaiting _ _ (hR n) (hinv n) hn with hw | hw
      · exact ⟨1, hlat.ge, by omega, hw⟩
      · exact ⟨0, Nat.zero_le _, Nat.zero_le _, by rw [Nat.sub_zero, trace_succ]; exact hw⟩
  · cases n with
    | zero => exact hreq₀
    | succ n =>
      rw [trace_succ] at hn ⊢
      exact hlow _ _ (hR n) (hinv n) hn
  · rw [trace_succ]
    exact hrest _ _ hn hno

/-! ## The clients that conform -/

/-- `command_response_generator`, triggered by a command in its buffer, an error
    or a finished command. -/
def commandResp (epochInt : ℕ) :
    Requester CommandResponseGenerator.Input CommandResponseGenerator.State where
  step := CommandResponseGenerator.step epochInt
  initial := CommandResponseGenerator.initial
  txReq s := (CommandResponseGenerator.udpOutBus s).txReq
  Waiting s := s.nextState = .txReqWait
  Resting s := s.nextState = .hwReset ∨ s.nextState = .idle
  Trigger _ s := s.nextState = .idle ∧ (s.cmdbuff.contents ≠ [] ∨
    s.commandErrorReg = true ∧ s.repliedError = false ∨
    s.commandDoneReg = true ∧ s.repliedDone = false)
  latency := 1

theorem commandResp_conforms (epochInt : ℕ) (x : ℕ → CommandResponseGenerator.Input) :
    (commandResp epochInt).Conforms x := by
  refine conforms_of_step (R := fun _ _ => True) (I := fun _ => True) rfl trivial rfl
    (fun _ _ _ _ => trivial) ?_ ?_ ?_ fun _ => trivial
  · intro i s _ _ h
    exact Or.inr (CommandResponseGenerator.step_txReq h)
  · intro i s _ _ hrest
    rw [← Bool.not_eq_true]
    intro h
    have hwait := CommandResponseGenerator.step_txReq h
    rcases hrest with hr | hr <;> exact absurd (hwait.symm.trans hr) (by decide)
  · intro i s hrest hno
    exact Or.inr (CommandResponseGenerator.step_rest hrest hno)

/-- `read_multiplexer` of `ethernet_ccdcontrol_interface`, triggered by a read
    trigger outside write mode. -/
def ccdInterface :
    Requester EthernetCcdcontrolInterface.Input EthernetCcdcontrolInterface.State where
  step := EthernetCcdcontrolInterface.step
  initial := EthernetCcdcontrolInterface.initial
  txReq s := (EthernetCcdcontrolInterface.udpOutBus s).txReq
  Waiting s := s.read.nextReadState = .txReqWait
  Resting s := s.read.nextReadState = .hwReset ∨ s.read.nextReadState = .idle
  Trigger := EthernetCcdcontrolInterface.Triggered
  latency := 1

theorem ccdInterface_conforms (x : ℕ → EthernetCcdcontrolInterface.Input) :
    ccdInterface.Conforms x := by
  refine conforms_of_step (R := fun _ _ => True) (I := fun _ => True) rfl trivial rfl
    (fun _ _ _ _ => trivial) ?_ ?_ ?_ fun _ => trivial
  · intro i s _ _ h
    rcases EthernetCcdcontrolInterface.step_txReq h with hw | hw
    · exact Or.inr hw.2
    · exact Or.inl hw.1
  · intro i s _ _ hrest
    rw [← Bool.not_eq_true]
    intro h
    rcases EthernetCcdcontrolInterface.step_txReq h with ⟨-, hw⟩ | ⟨-, hne⟩
    · rcases hrest with hr | hr <;> exact absurd (hw.symm.trans hr) (by decide)
    · rcases hrest with hr | hr
      · exact hne.1 hr
      · exact hne.2 hr
  · intro i s hrest hno
    exact EthernetCcdcontrolInterface.step_rest hrest hno

/-- `config_block_scanner`, triggered by a scan of one or all blocks. A scan of
    all blocks asks for the line once for every block. -/
def configScanner : Requester ConfigBlockScanner.Input ConfigBlockScanner.State where
  step := ConfigBlockScanner.step
  initial := ConfigBlockScanner.initial
  txReq s := (ConfigBlockScanner.udpOutBus s).txReq
  Waiting s := s.nextState = .txReqWait
  Resting s := s.nextState = .hwReset ∨ s.nextState = .idle
  Trigger := ConfigBlockScanner.Starts
  latency := 1

theorem configScanner_conforms (x : ℕ → ConfigBlockScanner.Input) : configScanner.Conforms x := by
  refine conforms_of_step (R := fun _ _ => True) (I := fun _ => True) rfl trivial rfl
    (fun _ _ _ _ => trivial) ?_ ?_ ?_ fun _ => trivial
  · intro i s _ _ h
    exact Or.inl (ConfigBlockScanner.step_txReq h).1
  · intro i s _ _ hrest
    rw [← Bool.not_eq_true]
    intro h
    rcases (ConfigBlockScanner.step_txReq h).2 with hw | hw <;>
      rcases hrest with hr | hr <;> exact absurd (hw.symm.trans hr) (by decide)
  · intro i s hrest hno
    exact Or.inr (ConfigBlockScanner.step_rest hrest hno)

/-- `udp_interface` of `epcqio_control`, triggered by words in the read buffer. -/
def epcqio : Requester UdpInterface.Input UdpInterface.State where
  step := UdpInterface.step
  initial := UdpInterface.initial
  txReq s := s.udpOutBus.txReq
  Waiting s := s.nextState = .txReqWait
  Resting s := s.nextState = .hwReset ∨ s.nextState = .idle
  Trigger := UdpInterface.Starts
  latency := 2

theorem epcqio_conforms (x : ℕ → UdpInterface.Input) : epcqio.Conforms x := by
  have hbus : ∀ n, (trace UdpInterface.step UdpInterface.initial x (n + 1)).udpOutBus.txReq =
      (trace UdpInterface.step UdpInterface.initial x n).txReq := by
    intro n
    rw [trace_succ, UdpInterface.step_udpOutBus]
  -- the line is high only two edges after an edge in `TX_REQ_WAIT`
  have hwait : ∀ n, (trace UdpInterface.step UdpInterface.initial x n).udpOutBus.txReq = true →
      ∃ m, n = m + 2 ∧
        (trace UdpInterface.step UdpInterface.initial x m).nextState = .txReqWait ∧
        ((trace UdpInterface.step UdpInterface.initial x (m + 1)).nextState = .txReqWait ∨
          (trace UdpInterface.step UdpInterface.initial x (m + 1)).nextState = .sendingData) := by
    intro n hn
    rcases n with _ | _ | m
    · cases hn
    · rw [hbus] at hn
      cases hn
    · rw [hbus, trace_succ] at hn
      obtain ⟨hw, hnext⟩ := UdpInterface.step_txReq hn
      exact ⟨m, rfl, hw, by rw [trace_succ]; exact hnext⟩
  refine ⟨fun n hn => ?_, fun n hrest => ?_, fun n hrest hno => ?_⟩
  · obtain ⟨m, rfl, hw, -⟩ := hwait n hn
    exact ⟨2, le_rfl, by omega, hw⟩
  · rw [← Bool.not_eq_true]
    intro hn
    obtain ⟨m, rfl, -, hnext⟩ := hwait n hn
    have hne : ∀ i s, s.nextState = .txReqWait ∨ s.nextState = .sendingData →
        (UdpInterface.step i s).nextState ≠ .hwReset ∧
          (UdpInterface.step i s).nextState ≠ .idle := by
      rintro i s (hs | hs)
      · unfold UdpInterface.step UdpInterface.udpInterface
        rw [hs]
        dsimp only
        split_ifs <;> simp [UdpInterface.busRegister, hs]
      · rcases (UdpInterface.step_sendingData (i := i) hs).2.1 with h | h <;> simp [h]
    have hlast := hne (x (m + 1)) _ hnext
    rw [trace_succ] at hrest
    rcases hrest with hr | hr
    · exact hlast.1 hr
    · exact hlast.2 hr
  · rw [trace_succ]
    obtain ⟨-, -, -, h | ⟨h, -⟩⟩ := UdpInterface.step_resting (i := x n) hrest
    · exact Or.inr h
    · exact absurd h hno

/-! ## The client of the monitoring block -/

/-- `ethernet_monitoring_interface`, triggered by `read_register`. -/
def monit : Requester EthernetMonitoringInterface.Input EthernetMonitoringInterface.State where
  step := EthernetMonitoringInterface.step
  initial := EthernetMonitoringInterface.initial
  txReq s := (EthernetMonitoringInterface.udpOutBus s).txReq
  Waiting s := s.nextState = .txReqWait
  Resting s := s.nextState = .hwReset ∨ s.nextState = .idle
  Trigger i s := s.nextState = .idle ∧ i.readRegister = true
  latency := 1

/-- The machine waits for the line and `udp_ready` answers it. -/
def Granted (i : EthernetMonitoringInterface.Input) (s : EthernetMonitoringInterface.State) :
    Prop :=
  s.nextState = .txReqWait ∧ i.udpReady = true

/-- The client of the monitoring block conforms iff its requests are never
    granted. -/
theorem conforms_iff_never_granted (x : ℕ → EthernetMonitoringInterface.Input) :
    monit.Conforms x ↔ ∀ n, ¬Granted (x n) (trace monit.step monit.initial x n) := by
  constructor
  · rintro h n ⟨hs, hr⟩
    obtain ⟨hn1, hi1, hq1⟩ := EthernetMonitoringInterface.step_granted hs hr
    -- two edges after the grant the line is still high
    have hn2 := (EthernetMonitoringInterface.step_readReg (i := x (n + 1)) hn1).2.2.1
    have hq2 := EthernetMonitoringInterface.txReq_step (i := x (n + 1)) hq1
    rw [if_neg (by rw [hi1]; decide)] at hn2
    have hsucc : ∀ m, trace monit.step monit.initial x (m + 1) =
        EthernetMonitoringInterface.step (x m) (trace monit.step monit.initial x m) :=
      fun m => trace_succ ..
    have hs1 : (trace monit.step monit.initial x (n + 1)).nextState = .readReg := by
      rw [hsucc]
      exact hn1
    have hs2 : (trace monit.step monit.initial x (n + 2)).nextState = .readReg := by
      rw [hsucc, hsucc]
      exact hn2
    obtain ⟨k, hk, -, hw⟩ := h.waiting (n + 2) (by rw [hsucc, hsucc]; exact hq2)
    have hw' : (trace monit.step monit.initial x (n + 2 - k)).nextState = .txReqWait := hw
    have hk' : k ≤ 1 := hk
    interval_cases k
    · rw [Nat.sub_zero, hs2] at hw'
      cases hw'
    · rw [show n + 2 - 1 = n + 1 from rfl, hs1] at hw'
      cases hw'
  · intro h
    refine conforms_of_step (R := fun i s => ¬Granted i s)
      (I := fun s => monit.Resting s ∧ monit.txReq s = false ∨ monit.Waiting s) rfl
      (Or.inl ⟨Or.inl rfl, rfl⟩) rfl ?_ ?_ ?_ ?_ h
    · rintro i s hno (⟨hrest, hq⟩ | hw)
      · obtain ⟨hkeep, hidle | ⟨-, -, hwait⟩⟩ :=
          EthernetMonitoringInterface.step_resting (i := i) hrest
        · exact Or.inl ⟨Or.inr hidle, hkeep.trans hq⟩
        · exact Or.inr hwait
      · exact Or.inr (EthernetMonitoringInterface.step_waiting hw
          (by simpa using fun hr => hno ⟨hw, hr⟩))
    · rintro i s - (⟨hrest, hq⟩ | hw) hup
      · have hkeep := (EthernetMonitoringInterface.step_resting (i := i) hrest).1
        exact absurd (hup.symm.trans (hkeep.trans hq)) (by decide)
      · exact Or.inl hw
    · rintro i s hno (⟨hrest, hq⟩ | hw) hrest'
      · exact (EthernetMonitoringInterface.step_resting (i := i) hrest).1.trans hq
      · have hwait := EthernetMonitoringInterface.step_waiting (i := i) hw
          (by simpa using fun hr => hno ⟨hw, hr⟩)
        rcases hrest' with hr | hr <;> exact absurd (hwait.symm.trans hr) (by decide)
    · intro i s hrest hno
      rcases (EthernetMonitoringInterface.step_resting (i := i) hrest).2 with hi | ⟨hs, hr, -⟩
      · exact Or.inr hi
      · exact absurd ⟨hs, hr⟩ hno

/-- In every run, all five clients conform iff the requests of the monitoring
    block's client are never granted. -/
theorem clients_conform_iff (epochInt : ℕ) (x₁ : ℕ → CommandResponseGenerator.Input)
    (x₂ : ℕ → EthernetCcdcontrolInterface.Input) (x₃ : ℕ → ConfigBlockScanner.Input)
    (x₄ : ℕ → UdpInterface.Input) (x₅ : ℕ → EthernetMonitoringInterface.Input) :
    (commandResp epochInt).Conforms x₁ ∧ ccdInterface.Conforms x₂ ∧ configScanner.Conforms x₃ ∧
        epcqio.Conforms x₄ ∧ monit.Conforms x₅ ↔
      ∀ n, ¬Granted (x₅ n) (trace monit.step monit.initial x₅ n) := by
  constructor
  · intro h
    exact (conforms_iff_never_granted x₅).1 h.2.2.2.2
  · intro h
    exact ⟨commandResp_conforms epochInt x₁, ccdInterface_conforms x₂, configScanner_conforms x₃,
      epcqio_conforms x₄, (conforms_iff_never_granted x₅).2 h⟩

/-- `read_register` at the second edge, and `udp_ready` always high. -/
def readOnce (n : ℕ) : EthernetMonitoringInterface.Input where
  readRegister := decide (n = 1)
  startMonitoringCmd := false
  monitoringBusy := false
  reg32bMonitoring := fun _ => 0
  udpReady := true

/-- The transmission is over, nothing has been triggered since, and the line is
    high. -/
theorem monit_asks_again :
    (trace monit.step monit.initial readOnce 2).nextState = .txReqWait ∧
      (trace monit.step monit.initial readOnce 22).nextState = .idle ∧
      monit.txReq (trace monit.step monit.initial readOnce 22) = true ∧
      ¬monit.Conforms readOnce := by
  have hrest : (trace monit.step monit.initial readOnce 22).nextState = .idle := by
    decide +kernel
  have hup : monit.txReq (trace monit.step monit.initial readOnce 22) = true := by
    decide +kernel
  refine ⟨by decide +kernel, hrest, hup, fun h => ?_⟩
  have hlow := h.low 22 (Or.inr hrest)
  rw [hup] at hlow
  cases hlow

end FpgaEthernet.UdpDataArbiter
