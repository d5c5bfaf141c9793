import FpgaEthernet.Clocked.Run
import FpgaEthernet.Ethernet.EthCommon

/-!
# `udp_data_arbiter`

Model of `ethernet/udp_data_arbiter.vhd`: the 52-bit bus of a client, the
process that puts the bus of the current client on the output registers, and
the state machine that grants the line.

A client sees three things of the arbiter: whether it is the current client, in
which state, and its `udp_ready` line. `View` is the arbiter reduced to that; it
is the abstract model on which the clients' invariants are stated.

Main results:

* `Sane.step`: there is a current client exactly while the line is waited for or
  in use, and its `udp_ready` line is up before the line counts as used.
* `view_step`: what an edge does to the view of one client, whatever the others
  ask for. It is the only fact about the arbiter that the clients need.
* `step_valid`: the word on the output is the word of the current client.
-/

namespace FpgaEthernet

/-- The bits of a client's bus (`udp_data_arbiter.vhd` lines 31-39 and 145-150). -/
structure UdpBus where
  data : Word
  port : UdpPort
  dval : Bool
  eop : Bool
  txReq : Bool
  txBusy : Bool
  deriving DecidableEq

/-- A bus on which nothing happens. -/
def UdpBus.quiet : UdpBus := ⟨0, 0, false, false, false, false⟩

namespace UdpDataArbiter

open Clocked

/-! ## Model -/

/-- `client_type` (line 139) without `NONE`. -/
inductive Client
  | commandResp
  | ccdInterface
  | configScanner
  | epcqio
  | monit
  deriving DecidableEq

/-- `state_type` (line 137). -/
inductive StateType
  | hwReset
  | idle
  | txWait
  | txBusy
  deriving DecidableEq

/-- `MAX_TIMEOUT` (line 142). -/
def maxTimeout : ℕ := 1000

/-- The buses of the clients, and the destination of the last command. -/
structure Input where
  bus : Client → UdpBus
  destIface : BitVec 4
  destAddr : BitVec 80

/-- The registers; `udpReady` holds the five `udp_ready` lines. -/
structure State where
  udpDataOut : Word
  udpPortOut : UdpPort
  udpValidOut : Bool
  udpEopOut : Bool
  udpAddrOut : BitVec 80
  udpDestIface : BitVec 4
  udpReady : Client → Bool
  clientBusy : Bool
  clientDval : Bool
  clientEop : Bool
  nextState : StateType
  currentClient : Option Client
  timeoutCount : ℕ
  udpTxBusy : Bool

/-- The registers when `reset` is released. -/
def initial : State where
  udpDataOut := 0
  udpPortOut := 0
  udpValidOut := false
  udpEopOut := false
  udpAddrOut := 0
  udpDestIface := 0
  udpReady := fun _ => false
  clientBusy := false
  clientDval := false
  clientEop := false
  nextState := .hwReset
  currentClient := none
  timeoutCount := 0
  udpTxBusy := false

/-- `output_multiplexer` (lines 182-249). -/
def outputMultiplexer (i : Input) (s : State) : State :=
  let s := { s with
    udpReady := fun c => decide (s.currentClient = some c)
    udpDestIface := i.destIface
    udpAddrOut := i.destAddr }
  match s.currentClient with
  | some c =>
    { s with
      clientBusy := (i.bus c).txBusy
      clientDval := (i.bus c).dval
      clientEop := (i.bus c).eop
      udpDataOut := (i.bus c).data
      udpPortOut := (i.bus c).port
      udpValidOut := (i.bus c).dval
      udpEopOut := (i.bus c).eop }
  | none =>
    { s with clientBusy := false, clientDval := false, clientEop := false, udpValidOut := false }

/-- The client that `IDLE` grants the line to (lines 273-291). -/
def request (bus : Client → UdpBus) : Option Client :=
  if (bus .commandResp).txReq then some .commandResp
  else if (bus .ccdInterface).txReq then some .ccdInterface
  else if (bus .configScanner).txReq then some .configScanner
  else if (bus .epcqio).txReq then some .epcqio
  else if (bus .monit).txReq then some .monit
  else none

/-- The registers of `state_machine` (lines 256-320): `next_state`,
    `current_client`, `timeout_count` and `udp_tx_busy`. -/
def stateMachine (i : Input) (s : State) : StateType × Option Client × ℕ × Bool :=
  match s.nextState with
  | .hwReset => (.idle, s.currentClient, s.timeoutCount, false)
  | .idle =>
    match request i.bus with
    | some c => (.txWait, some c, 0, false)
    | none => (.idle, none, 0, false)
  | .txWait =>
    if s.clientBusy then (.txBusy, s.currentClient, 0, true)
    else if maxTimeout ≤ s.timeoutCount then (.idle, none, s.timeoutCount, true)
    else (.txWait, s.currentClient, s.timeoutCount + 1, true)
  | .txBusy =>
    if s.clientBusy = false ∨ maxTimeout ≤ s.timeoutCount then
      (.idle, none, s.timeoutCount, true)
    else if s.clientDval = false then (.txBusy, s.currentClient, s.timeoutCount + 1, true)
    else (.txBusy, s.currentClient, s.timeoutCount, true)

/-- One edge of `clock`. -/
def step (i : Input) (s : State) : State :=
  { outputMultiplexer i s with
    nextState := (stateMachine i s).1
    currentClient := (stateMachine i s).2.1
    timeoutCount := (stateMachine i s).2.2.1
    udpTxBusy := (stateMachine i s).2.2.2 }

/-! ## What an edge does -/

variable {i : Input} {s : State} {c : Client}

@[simp] theorem step_udpReady : (step i s).udpReady c = decide (s.currentClient = some c) := by
  simp only [step, outputMultiplexer]
  cases s.currentClient <;> rfl

@[simp] theorem step_udpDestIface : (step i s).udpDestIface = i.destIface := by
  simp only [step, outputMultiplexer]
  cases s.currentClient <;> rfl

@[simp] theorem step_udpAddrOut : (step i s).udpAddrOut = i.destAddr := by
  simp only [step, outputMultiplexer]
  cases s.currentClient <;> rfl

theorem step_clientBusy (h : s.currentClient = some c) :
    (step i s).clientBusy = (i.bus c).txBusy := by
  simp [step, outputMultiplexer, h]

theorem step_clientBusy_none (h : s.currentClient = none) : (step i s).clientBusy = false := by
  simp [step, outputMultiplexer, h]

/-- The word on the output is the word of the current client. -/
theorem step_valid (h : s.currentClient = some c) :
    (step i s).udpValidOut = (i.bus c).dval ∧ (step i s).udpPortOut = (i.bus c).port ∧
      (step i s).udpDataOut = (i.bus c).data := by
  simp [step, outputMultiplexer, h]

theorem step_valid_none (h : s.currentClient = none) : (step i s).udpValidOut = false := by
  simp [step, outputMultiplexer, h]

/-- A client that is granted the line asked for it. -/
theorem txReq_of_request {bus : Client → UdpBus} (h : request bus = some c) :
    (bus c).txReq = true := by
  unfold request at h
  split_ifs at h <;> cases h <;> assumption

/-! ## The current client -/

/-- There is a current client exactly while the line is waited for or in use. Its
    `udp_ready` line is up by the time its busy bit has come through. -/
structure Sane (s : State) : Prop where
  current : s.currentClient = none ↔ s.nextState = .hwReset ∨ s.nextState = .idle
  ready : ∀ c, s.currentClient = some c → s.clientBusy = true → s.udpReady c = true
  served : ∀ c, s.currentClient = some c → s.nextState = .txBusy → s.udpReady c = true

theorem sane_initial : Sane initial := by
  refine ⟨?_, ?_, ?_⟩ <;> simp [initial]

/-- The arbiter takes the line from its client because of the timeout. -/
def TimesOut (s : State) : Prop :=
  maxTimeout ≤ s.timeoutCount ∧
    (s.nextState = .txWait ∧ s.clientBusy = false ∨ s.nextState = .txBusy ∧ s.clientBusy = true)

instance : Decidable (TimesOut s) := inferInstanceAs (Decidable (_ ∧ _))

theorem Sane.step (h : Sane s) : Sane (step i s) := by
  cases hc : s.currentClient with
  | none =>
    have hb := step_clientBusy_none (i := i) hc
    have hn := h.current.1 hc
    refine ⟨?_, ?_, ?_⟩
    · rcases hn with hn | hn
      · simp [UdpDataArbiter.step, stateMachine, hn, hc]
      · cases hr : request i.bus <;> simp [UdpDataArbiter.step, stateMachine, hn, hr]
    · intro c _ hcb
      rw [hb] at hcb
      cases hcb
    · intro c _ ht
      rcases hn with hn | hn
      · simp [UdpDataArbiter.step, stateMachine, hn] at ht
      · cases hr : request i.bus <;> simp [UdpDataArbiter.step, stateMachine, hn, hr] at ht
  | some d =>
    have hn : ¬(s.nextState = .hwReset ∨ s.nextState = .idle) := by
      rw [← h.current, hc]
      simp
    have hcur : (UdpDataArbiter.step i s).currentClient = some d ∨
        (UdpDataArbiter.step i s).currentClient = none := by
      simp only [UdpDataArbiter.step, stateMachine]
      split <;> (try split_ifs) <;> simp_all
    refine ⟨?_, ?_, ?_⟩
    · simp only [UdpDataArbiter.step, stateMachine]
      split <;> (try split_ifs) <;> simp_all
    · intro c hd _
      rcases hcur with h' | h' <;> rw [h'] at hd <;> cases hd
      simp [hc]
    · intro c hd _
      rcases hcur with h' | h' <;> rw [h'] at hd <;> cases hd
      simp [hc]

/-! ## The line as one client sees it -/

/-- The arbiter as one client sees it: the line is not with the client, it is
    the client's and its busy bit is awaited, or it is in use by the client. `ready`
    is the client's `udp_ready` line, `busy` the registered busy bit. -/
inductive View
  | away (ready : Bool)
  | waiting (ready busy : Bool)
  | serving (busy : Bool)
  deriving DecidableEq

/-- The view of client `c`. -/
def view (c : Client) (s : State) : View :=
  if s.currentClient = some c then
    if s.nextState = .txBusy then .serving s.clientBusy
    else .waiting (s.udpReady c) s.clientBusy
  else .away (s.udpReady c)

/-- The `udp_ready` line in a view. -/
def View.ready : View → Bool
  | .away r => r
  | .waiting r _ => r
  | .serving _ => true

/-- The line is with another client, or with none. -/
def View.IsAway : View → Prop
  | .away _ => True
  | _ => False

instance : DecidablePred View.IsAway
  | .away _ => isTrue trivial
  | .waiting _ _ => isFalse id
  | .serving _ => isFalse id

/-- What an edge can do to the view of a client whose bus shows `b`. -/
inductive View.Step (b : UdpBus) : View → View → Prop
  | pass (r : Bool) : Step b (.away r) (.away false)
  | grant (r : Bool) : b.txReq = true → Step b (.away r) (.waiting false false)
  | wait (r : Bool) : Step b (.waiting r false) (.waiting true b.txBusy)
  | begin : Step b (.waiting true true) (.serving b.txBusy)
  | serve : Step b (.serving true) (.serving b.txBusy)
  | release : Step b (.serving false) (.away true)

theorem isAway_view : (view c s).IsAway ↔ s.currentClient ≠ some c := by
  unfold view
  split_ifs with h <;> simp [View.IsAway, h]

theorem Sane.ready_view (h : Sane s) : (view c s).ready = s.udpReady c := by
  unfold view
  split_ifs with hc ht
  · exact (h.served c hc ht).symm
  · rfl
  · rfl

/-- An edge for the current client: its busy bit moves the line from waiting to
    serving and back. -/
theorem view_step_current (h : Sane s) (ht : ¬TimesOut s) (hc : s.currentClient = some c) :
    View.Step (i.bus c) (view c s) (view c (step i s)) := by
  have hb := step_clientBusy (i := i) hc
  have hr : (step i s).udpReady c = true := by simp [hc]
  have hn : ¬(s.nextState = .hwReset ∨ s.nextState = .idle) := by
    rw [← h.current, hc]
    simp
  cases hs : s.nextState with
  | hwReset => exact absurd (Or.inl hs) hn
  | idle => exact absurd (Or.inr hs) hn
  | txWait =>
    cases hcb : s.clientBusy with
    | true =>
      have h₁ : view c s = .waiting true true := by
        simp [view, hc, hs, hcb, h.ready c hc hcb]
      have h₂ : view c (step i s) = .serving (i.bus c).txBusy := by
        rw [← hb]
        simp [view, step, stateMachine, hs, hcb, hc]
      rw [h₁, h₂]
      exact .begin
    | false =>
      have hlt : ¬maxTimeout ≤ s.timeoutCount := fun hm => ht ⟨hm, .inl ⟨hs, hcb⟩⟩
      have h₁ : view c s = .waiting (s.udpReady c) false := by simp [view, hc, hs, hcb]
      have h₂ : view c (step i s) = .waiting true (i.bus c).txBusy := by
        rw [← hb, ← hr]
        simp [view, step, stateMachine, hs, hcb, hc, hlt]
      rw [h₁, h₂]
      exact .wait _
  | txBusy =>
    cases hcb : s.clientBusy with
    | true =>
      have hlt : ¬maxTimeout ≤ s.timeoutCount := fun hm => ht ⟨hm, .inr ⟨hs, hcb⟩⟩
      have h₁ : view c s = .serving true := by simp [view, hc, hs, hcb]
      have h₂ : view c (step i s) = .serving (i.bus c).txBusy := by
        rw [← hb]
        cases hd : s.clientDval <;> simp [view, step, stateMachine, hs, hcb, hc, hlt, hd]
      rw [h₁, h₂]
      exact .serve
    | false =>
      have h₁ : view c s = .serving false := by simp [view, hc, hs, hcb]
      have h₂ : view c (step i s) = .away true := by
        rw [← hr]
        simp [view, step, stateMachine, hs, hcb]
      rw [h₁, h₂]
      exact .release

/-- An edge while another client, or none, has the line: either it stays away,
    or the client is granted it because it asks. -/
theorem view_step_away (h : Sane s) (hc : s.currentClient ≠ some c) :
    View.Step (i.bus c) (view c s) (view c (step i s)) := by
  have hr : (step i s).udpReady c = false := by simp [hc]
  have h₁ : view c s = .away (s.udpReady c) := by simp [view, hc]
  rw [h₁]
  by_cases hg : (step i s).currentClient = some c
  · -- only `IDLE` makes another client the current one
    have hidle : s.nextState = .idle ∧ request i.bus = some c := by
      simp only [step, stateMachine] at hg
      cases hs : s.nextState <;> simp only [hs] at hg
      · exact absurd hg hc
      · cases hq : request i.bus <;> simp_all
      · split_ifs at hg
        · exact absurd hg hc
        · exact absurd hg hc
      · split_ifs at hg
        · exact absurd hg hc
        · exact absurd hg hc
    have hb := step_clientBusy_none (i := i) (h.current.2 (.inr hidle.1))
    have h₂ : view c (step i s) = .waiting false false := by
      simp only [view, hg, hr, hb, if_true]
      simp [step, stateMachine, hidle]
    rw [h₂]
    exact .grant _ (txReq_of_request hidle.2)
  · have h₂ : view c (step i s) = .away false := by simp [view, hg, hc]
    rw [h₂]
    exact .pass _

/-- What an edge does to the view of one client, unless the client is timed
    out. -/
theorem view_step (h : Sane s) (ht : s.currentClient = some c → ¬TimesOut s) :
    View.Step (i.bus c) (view c s) (view c (step i s)) := by
  by_cases hc : s.currentClient = some c
  · exact view_step_current h (ht hc) hc
  · exact view_step_away h hc

end UdpDataArbiter

end FpgaEthernet
