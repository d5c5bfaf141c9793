import FpgaEthernet.Clocked.Run
import FpgaEthernet.Ethernet.EthCommon
import Mathlib.Data.Fin.VecNotation

/-!
# `header_generator`

Model of `ethernet/header_generator.vhd`: the state machine that emits the
Ethernet, IPv4, UDP and application header words, and the checksum computer
that runs beside it.

Main results:

* `Running.step`: in every state the number of header words emitted so far is
  determined by the state, and a step emits one word or none.
* `AtRest.start`: `header_start` begins a header.
* `Running.edgesLeft_step`: a header takes a fixed number of edges.
-/

namespace FpgaEthernet.HeaderGenerator

/-! ## Model -/

/-- One proof for the numbers of the Ethernet header words. -/
instance neZeroFour : NeZero (4 : ℕ) := ⟨by decide⟩

/-- One proof for the numbers of the IPv4 header words. -/
instance neZeroFive : NeZero (5 : ℕ) := ⟨by decide⟩

/-- `state_type` (`header_generator.vhd` lines 81-87). -/
inductive StateType
  | idle | eth0 | eth1 | eth2 | eth3
  | ip0 | ip1 | ipPause0 | ipPause1
  | ip2 | ip3 | ip4
  | udp0 | udp1
  | hd0 | done
  deriving DecidableEq, Repr

/-- The header parameters: the input ports of `header_generator` that do not
    come from the frame generator (lines 52-73). -/
structure Fields where
  protocol : BitVec 8
  appHeader : Word
  config : Word
  sourceMacAddr : MacAddr
  destMacAddr : MacAddr
  etherType : BitVec 16
  sourceIp : IpAddr
  destIp : IpAddr
  sourcePort : UdpPort
  destPort : UdpPort
  deriving DecidableEq

/-- The input ports (lines 50-73). -/
structure Input extends Fields where
  headerStart : Bool
  payloadLen : BitVec 9
  deriving DecidableEq

/-- The registers and variables. `step` counts from `-1` and is an integer in
    the source. -/
structure State where
  nextState : StateType
  headerData : Word
  headerValid : Bool
  headerDone : Bool
  ethHeader : Fin 4 → Word
  ipHeader : Fin 5 → Word
  ipChecksum : BitVec 16
  sum : BitVec 23
  step : ℤ
  deriving DecidableEq

/-- `f_next_state` (lines 126-168). The source has no return for the states it
    is never called with. -/
def fNextState (currState : StateType) (config : Word) : StateType :=
  match currState with
  | .idle =>
    if config.getLsbD 0 then .eth0
    else if config.getLsbD 1 then .ip0
    else if config.getLsbD 2 then .udp0
    else if config.getLsbD 3 then .hd0
    else .done
  | .eth3 =>
    if config.getLsbD 1 then .ip0
    else if config.getLsbD 2 then .udp0
    else if config.getLsbD 3 then .hd0
    else .done
  | .ip4 =>
    if config.getLsbD 2 then .udp0
    else if config.getLsbD 3 then .hd0
    else .done
  | .udp1 =>
    if config.getLsbD 3 then .hd0
    else .done
  | s => s

/-- `header_len_sig` (lines 176-180), in words. -/
def headerLenSig (config : Word) : BitVec 9 :=
  if config.getLsbD 1 && config.getLsbD 2 then 7
  else if config.getLsbD 1 && !config.getLsbD 2 then 5
  else if !config.getLsbD 1 && config.getLsbD 2 then 2
  else 0

/-- `packet_len` (line 184), in bytes. The sum of the two 9-bit lengths is
    resized to 14 bits before the two zero bits are attached. -/
def packetLen (config : Word) (payloadLen : BitVec 9) : BitVec 16 :=
  (headerLenSig config + payloadLen).setWidth 14 ++ 0#2

/-- The IPv4 header words registered in `IDLE` (lines 206-211), the checksum
    field being zero. -/
def ipHeaderWords (i : Input) : Fin 5 → Word :=
  ![(4#4 ++ 5#4 ++ 0#8 ++ packetLen i.config i.payloadLen : BitVec 32),
    0#32,
    (255#8 ++ i.protocol ++ 0#16 : BitVec 32),
    i.sourceIp,
    i.destIp]

/-- The Ethernet header words registered in `IDLE` (lines 212-215). -/
def ethHeaderWords (i : Fields) : Fin 4 → Word :=
  ![(0#16 ++ i.destMacAddr.extractLsb' 32 16 : BitVec 32),
    i.destMacAddr.extractLsb' 0 32,
    i.sourceMacAddr.extractLsb' 16 32,
    (i.sourceMacAddr.extractLsb' 0 16 ++ i.etherType : BitVec 32)]

/-- The third IPv4 word (line 275), with the checksum. -/
def ip2Word (protocol : BitVec 8) (checksum : BitVec 16) : Word :=
  (255#8 ++ protocol ++ checksum : BitVec 32)

/-- The second UDP word (line 303): the length in bytes and no checksum. -/
def udp1Word (payloadLen : BitVec 9) : Word :=
  ((payloadLen + 2#9).setWidth 14 ++ 0#2 ++ 0#16 : BitVec 32)

/-- `state_machine` (lines 189-330). -/
def stateMachine (i : Input) (s : State) : State :=
  match s.nextState with
  | .idle =>
    { s with
      headerData := 0
      headerValid := false
      headerDone := false
      ipHeader := ipHeaderWords i
      ethHeader := ethHeaderWords i.toFields
      nextState := if i.headerStart then fNextState .idle i.config else .idle }
  | .eth0 => { s with headerData := s.ethHeader 0, headerValid := true, nextState := .eth1 }
  | .eth1 => { s with headerData := s.ethHeader 1, headerValid := true, nextState := .eth2 }
  | .eth2 => { s with headerData := s.ethHeader 2, headerValid := true, nextState := .eth3 }
  | .eth3 =>
    let nstate := fNextState .eth3 i.config
    { s with
      headerData := s.ethHeader 3
      headerValid := true
      nextState := nstate
      headerDone := if nstate = .done then true else s.headerDone }
  | .ip0 => { s with headerData := s.ipHeader 0, headerValid := true, nextState := .ip1 }
  | .ip1 => { s with headerData := s.ipHeader 1, headerValid := true, nextState := .ipPause0 }
  | .ipPause0 =>
    { s with headerData := BitVec.allOnes 32, headerValid := false, nextState := .ipPause1 }
  | .ipPause1 =>
    { s with headerData := BitVec.allOnes 32, headerValid := false, nextState := .ip2 }
  | .ip2 =>
    { s with
      headerData := ip2Word i.protocol s.ipChecksum
      headerValid := true
      nextState := .ip3 }
  | .ip3 => { s with headerData := s.ipHeader 3, headerValid := true, nextState := .ip4 }
  | .ip4 =>
    let nstate := fNextState .ip4 i.config
    { s with
      headerData := s.ipHeader 4
      headerValid := true
      nextState := nstate
      headerDone := if nstate = .done then true else s.headerDone }
  | .udp0 =>
    { s with
      headerData := (i.sourcePort ++ i.destPort : BitVec 32)
      headerValid := true
      nextState := .udp1 }
  | .udp1 =>
    let nstate := fNextState .udp1 i.config
    { s with
      headerData := udp1Word i.payloadLen
      headerValid := true
      nextState := nstate
      headerDone := if nstate = .done then true else s.headerDone }
  | .hd0 =>
    { s with
      headerData := i.appHeader
      headerValid := true
      headerDone := true
      nextState := .done }
  | .done =>
    { s with headerData := 0, headerValid := false, headerDone := false, nextState := .idle }

/-- One addition of `checksum_computer` (line 357): both halves of a header
    word, in 23 bits. -/
def addHalves (sum : BitVec 23) (w : Word) : BitVec 23 :=
  sum + (hi w).setWidth 23 + (lo w).setWidth 23

/-- One fold of `checksum_computer` (line 362). The addition of the 16-bit low
    part and the 7-bit high part is 16 bits wide; `resize` comes after it. -/
def foldCarry (sum : BitVec 23) : BitVec 23 :=
  (sum.extractLsb' 0 16 + (sum.extractLsb' 16 7).setWidth 16).setWidth 23

/-- `checksum_computer` (lines 334-369): the new `sum`, `step` and
    `ip_checksum`. -/
def checksumComputer (i : Input) (s : State) : BitVec 23 × ℤ × BitVec 16 :=
  if s.step = -1 then
    (0, if i.headerStart then 0 else -1, s.ipChecksum)
  else if s.step ≤ 4 then
    (addHalves s.sum (s.ipHeader (Fin.ofNat 5 s.step.toNat)), s.step + 1, s.ipChecksum)
  else if s.step ≤ 6 then
    (foldCarry s.sum, s.step + 1, s.ipChecksum)
  else if s.step = 7 then
    (s.sum, -1, ~~~ s.sum.extractLsb' 0 16)
  else (s.sum, s.step, s.ipChecksum)

/-- One clock edge: both processes read the signals as they were before it. -/
def step (i : Input) (s : State) : State :=
  { stateMachine i s with
    sum := (checksumComputer i s).1
    step := (checksumComputer i s).2.1
    ipChecksum := (checksumComputer i s).2.2 }

/-- The registers when reset is released. -/
def reset : State where
  nextState := .idle
  headerData := 0
  headerValid := false
  headerDone := false
  ethHeader := fun _ => 0
  ipHeader := fun _ => 0
  ipChecksum := 0
  sum := 0
  step := -1

/-! ## Header words and states -/

/-- The number of words the enabled header segments have. -/
def headerWords (config : Word) : ℕ :=
  (if config.getLsbD 0 then 4 else 0) + (if config.getLsbD 1 then 5 else 0) +
    (if config.getLsbD 2 then 2 else 0) + (if config.getLsbD 3 then 1 else 0)

/-- The number of header words emitted before a state is entered. -/
def position (config : Word) : StateType → ℕ
  | .idle | .eth0 => 0
  | .eth1 => 1
  | .eth2 => 2
  | .eth3 => 3
  | .ip0 => if config.getLsbD 0 then 4 else 0
  | .ip1 => (if config.getLsbD 0 then 4 else 0) + 1
  | .ipPause0 | .ipPause1 | .ip2 => (if config.getLsbD 0 then 4 else 0) + 2
  | .ip3 => (if config.getLsbD 0 then 4 else 0) + 3
  | .ip4 => (if config.getLsbD 0 then 4 else 0) + 4
  | .udp0 => (if config.getLsbD 0 then 4 else 0) + (if config.getLsbD 1 then 5 else 0)
  | .udp1 => (if config.getLsbD 0 then 4 else 0) + (if config.getLsbD 1 then 5 else 0) + 1
  | .hd0 => (if config.getLsbD 0 then 4 else 0) + (if config.getLsbD 1 then 5 else 0) +
      (if config.getLsbD 2 then 2 else 0)
  | .done => headerWords config

/-- The segment a state belongs to is enabled. -/
def Enabled (config : Word) : StateType → Prop
  | .idle | .done => True
  | .eth0 | .eth1 | .eth2 | .eth3 => config.getLsbD 0
  | .ip0 | .ip1 | .ipPause0 | .ipPause1 | .ip2 | .ip3 | .ip4 => config.getLsbD 1
  | .udp0 | .udp1 => config.getLsbD 2
  | .hd0 => config.getLsbD 3

theorem position_le (config : Word) (st : StateType) (h : Enabled config st) :
    position config st ≤ headerWords config := by
  unfold headerWords
  cases st <;> simp only [Enabled] at h <;> simp only [position, headerWords, h, if_true] <;> omega

/-- The first segment that is enabled comes after `IDLE`, with no word emitted. -/
theorem fNextState_idle (config : Word) :
    fNextState .idle config ≠ .idle ∧ Enabled config (fNextState .idle config) ∧
      position config (fNextState .idle config) = 0 := by
  unfold fNextState
  split_ifs <;>
    simp only [Enabled, position, headerWords, if_false, ne_eq, reduceCtorEq,
      not_false_eq_true, and_self, *]

/-- With the last word of a segment the next one that is enabled is entered. -/
theorem fNextState_segment {config : Word} {st : StateType}
    (hst : st = .eth3 ∨ st = .ip4 ∨ st = .udp1) (h : Enabled config st) :
    fNextState st config ≠ .idle ∧ Enabled config (fNextState st config) ∧
      position config (fNextState st config) = position config st + 1 := by
  obtain rfl | rfl | rfl := hst <;> simp only [Enabled] at h <;> unfold fNextState <;>
    split_ifs <;>
    simp only [Enabled, position, headerWords, if_true, if_false, ne_eq, reduceCtorEq,
      not_false_eq_true, and_self, *]

/-- The low nibble of the header configuration is 7. -/
def IsUdpConfig (config : Word) : Prop :=
  config.getLsbD 0 = true ∧ config.getLsbD 1 = true ∧ config.getLsbD 2 = true ∧
    config.getLsbD 3 = false

instance (config : Word) : Decidable (IsUdpConfig config) := by
  unfold IsUdpConfig
  infer_instance

theorem IsUdpConfig.headerWords {config : Word} (h : IsUdpConfig config) :
    headerWords config = 11 := by
  obtain ⟨h0, h1, h2, h3⟩ := h
  simp only [HeaderGenerator.headerWords, h0, h1, h2, h3, if_true, Bool.false_eq_true, if_false]

theorem IsUdpConfig.fNextState {config : Word} (h : IsUdpConfig config) :
    fNextState .idle config ≠ .done := by
  simp only [HeaderGenerator.fNextState, h.1, if_true]
  decide

/-- The generator is between headers: idle, with no word on its outputs. -/
def AtRest (s : State) : Prop :=
  s.nextState = .idle ∧ s.headerValid = false ∧ s.headerDone = false

/-- The generator is in the middle of a header for `config`: it has left `IDLE`,
    and `header_done` is up exactly when the last word is on the outputs. -/
structure Running (config : Word) (s : State) : Prop where
  notIdle : s.nextState ≠ .idle
  enabled : Enabled config s.nextState
  headerDone : s.headerDone = decide (s.nextState = .done)
  lastValid : s.nextState = .done → s.headerValid = true

@[simp] theorem step_nextState (i : Input) (s : State) :
    (step i s).nextState = (stateMachine i s).nextState := rfl

@[simp] theorem step_headerValid (i : Input) (s : State) :
    (step i s).headerValid = (stateMachine i s).headerValid := rfl

@[simp] theorem step_headerDone (i : Input) (s : State) :
    (step i s).headerDone = (stateMachine i s).headerDone := rfl

@[simp] theorem step_headerData (i : Input) (s : State) :
    (step i s).headerData = (stateMachine i s).headerData := rfl

/-- Without `header_start` the generator stays at rest. -/
theorem AtRest.step {i : Input} {s : State} (h : AtRest s) (hs : i.headerStart = false) :
    AtRest (step i s) := by
  obtain ⟨hn, -, -⟩ := h
  simp [AtRest, stateMachine, hn, hs]

/-- `header_start` in `IDLE` begins a header. -/
theorem start_running {i : Input} {s : State} (hn : s.nextState = .idle)
    (hs : i.headerStart = true) (hc : fNextState .idle i.config ≠ .done) :
    Running i.config (step i s) ∧ (step i s).headerValid = false ∧
      position i.config (step i s).nextState = 0 := by
  obtain ⟨hne, hen, hpos⟩ := fNextState_idle i.config
  refine ⟨⟨?_, ?_, ?_, ?_⟩, ?_, ?_⟩ <;> simp [stateMachine, hn, hs, hc, hne, hen, hpos]

/-- `header_start` begins a header. -/
theorem AtRest.start {i : Input} {s : State} (h : AtRest s) (hs : i.headerStart = true)
    (hc : fNextState .idle i.config ≠ .done) :
    Running i.config (HeaderGenerator.step i s) ∧
      (HeaderGenerator.step i s).headerValid = false ∧
      position i.config (HeaderGenerator.step i s).nextState = 0 :=
  start_running h.1 hs hc

/-- A step in the middle of a header emits the word at the current position, or
    pauses. -/
theorem Running.step {i : Input} {s : State} (h : Running i.config s)
    (hd : s.nextState ≠ .done) :
    Running i.config (HeaderGenerator.step i s) ∧
      position i.config (HeaderGenerator.step i s).nextState =
        position i.config s.nextState + (HeaderGenerator.step i s).headerValid.toNat := by
  have hni := h.notIdle
  have hen := h.enabled
  have hdone : s.headerDone = false := by simpa only [h.headerDone, decide_eq_false_iff_not]
  cases hn : s.nextState <;> simp only [hn, Enabled] at hni hen hd
  case idle => exact absurd rfl hni
  case done => exact absurd rfl hd
  case eth3 | ip4 | udp1 =>
    obtain ⟨hne, hen', hpos⟩ := fNextState_segment (by simp [hn]) h.enabled
    rw [hn] at hne hen' hpos
    refine ⟨⟨?_, ?_, ?_, ?_⟩, ?_⟩ <;> simp [stateMachine, hn, hne, hen', hpos, hdone]
  all_goals
    refine ⟨⟨?_, ?_, ?_, ?_⟩, ?_⟩ <;>
      simp [stateMachine, hn, hen, hdone, Enabled, position, headerWords]

/-- After the last word the generator comes to rest. -/
theorem step_of_done {i : Input} {s : State} (h : s.nextState = .done) :
    AtRest (step i s) := by
  simp [AtRest, stateMachine, h]

/-- `header_done` rises with a header word and the end of the header, whatever
    the configuration. -/
theorem headerDone_step {i : Input} {s : State} (h : s.headerDone = false)
    (h' : (step i s).headerDone = true) :
    (step i s).headerValid = true ∧ (step i s).nextState = .done := by
  cases hn : s.nextState <;> simp_all [step, stateMachine]

/-- The header registers are loaded in `IDLE` and kept in every other state. -/
theorem step_registers (i : Input) (s : State) :
    (step i s).ethHeader =
        (if s.nextState = .idle then ethHeaderWords i.toFields else s.ethHeader) ∧
      (step i s).ipHeader = if s.nextState = .idle then ipHeaderWords i else s.ipHeader := by
  cases hn : s.nextState <;> simp [step, stateMachine, hn]

/-! ## The time a header takes -/

/-- The pauses for the checksum that lie ahead. -/
def pausesLeft (config : Word) : StateType → ℕ
  | .eth0 | .eth1 | .eth2 | .eth3 => if config.getLsbD 1 then 2 else 0
  | .ip0 | .ip1 | .ipPause0 => 2
  | .ipPause1 => 1
  | _ => 0

/-- The edges until the last header word is on the outputs. -/
def edgesLeft (config : Word) (st : StateType) : ℕ :=
  headerWords config - position config st + pausesLeft config st

theorem edgesLeft_le (config : Word) (st : StateType) :
    edgesLeft config st ≤ headerWords config + 2 := by
  have hpause : pausesLeft config st ≤ 2 := by
    unfold pausesLeft
    split <;> (try split_ifs) <;> omega
  unfold edgesLeft
  omega

theorem pausesLeft_fNextState_idle (config : Word) :
    pausesLeft config (fNextState .idle config) = if config.getLsbD 1 then 2 else 0 := by
  unfold fNextState
  split_ifs <;> simp only [pausesLeft, if_true, Bool.false_eq_true, if_false, *]

/-- The pauses belong to the IPv4 segment. -/
theorem pausesLeft_fNextState_segment {config : Word} {st : StateType}
    (hst : st = .eth3 ∨ st = .ip4 ∨ st = .udp1) :
    pausesLeft config (fNextState st config) = pausesLeft config st := by
  obtain rfl | rfl | rfl := hst <;> unfold fNextState <;>
    split_ifs <;> simp only [pausesLeft, if_true, Bool.false_eq_true, if_false, *]

theorem edgesLeft_start {i : Input} {s : State} (hn : s.nextState = .idle)
    (hs : i.headerStart = true) :
    edgesLeft i.config (step i s).nextState =
      headerWords i.config + if i.config.getLsbD 1 then 2 else 0 := by
  rw [step_nextState, stateMachine, hn]
  simp only [hs, if_true]
  rw [edgesLeft, (fNextState_idle i.config).2.2, pausesLeft_fNextState_idle, Nat.sub_zero]

/-- A step in the middle of a header emits a word or uses up a pause. -/
theorem Running.pausesLeft_step {i : Input} {s : State} (h : Running i.config s)
    (hd : s.nextState ≠ .done) :
    pausesLeft i.config (HeaderGenerator.step i s).nextState + 1 =
      pausesLeft i.config s.nextState + (HeaderGenerator.step i s).headerValid.toNat := by
  obtain ⟨hni, hen, -, -⟩ := h
  rw [step_nextState, step_headerValid]
  cases hn : s.nextState <;> simp only [hn, Enabled] at hni hen hd
  case idle => exact absurd rfl hni
  case done => exact absurd rfl hd
  case eth3 | ip4 | udp1 =>
    simp only [stateMachine, hn]
    rw [pausesLeft_fNextState_segment (by simp), Bool.toNat_true]
  all_goals simp [stateMachine, hn, pausesLeft]

theorem Running.edgesLeft_step {i : Input} {s : State} (h : Running i.config s)
    (hd : s.nextState ≠ .done) :
    edgesLeft i.config (HeaderGenerator.step i s).nextState + 1 =
      edgesLeft i.config s.nextState := by
  obtain ⟨hrun, hpos⟩ := h.step hd
  have hpause := h.pausesLeft_step hd
  have hle := position_le i.config s.nextState h.enabled
  have hle' := position_le i.config _ hrun.enabled
  unfold edgesLeft
  omega

end FpgaEthernet.HeaderGenerator
