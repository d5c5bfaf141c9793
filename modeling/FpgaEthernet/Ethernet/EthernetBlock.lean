import FpgaEthernet.Ethernet.ArpBlock
import FpgaEthernet.Ethernet.EthernetDataBlock
import FpgaEthernet.Ethernet.Framing
import FpgaEthernet.Ethernet.IcmpBlock
import FpgaEthernet.Ethernet.UdpDataBlock
import Mathlib.Data.Fintype.Basic

/-!
# `ethernet_block`

Model of the transmit side of `ethernet/ethernet_block.vhd` with `is_testbench`
false: the four blocks that send frames, the signal `tx_ready` they share, and
the multiplexer in front of the MAC. What a block sends, and when it becomes
ready to send, is free: the other ports of the blocks are inputs of the model.

Main results:

* `Exclusive.step`: as long as no block takes the line at an edge at which
  another one takes or holds it, at most one block is busy.
* `Lined.step`: then the words on the line up to an end mark are those of one
  frame.
* `one_frame_at_a_time`: both for every run.
* `two_blocks_busy`: without the condition two blocks are busy at once.
-/

namespace FpgaEthernet.EthernetBlock

open Clocked Transmitter

variable {N : ℕ}

/-! ## Model -/

/-- The blocks that send frames. -/
inductive Source
  | data | udp | arp | icmp
  deriving DecidableEq, Repr

instance : Fintype Source where
  elems := {.data, .udp, .arp, .icmp}
  complete := fun b => by cases b <;> decide

/-- The inputs of the four blocks, whose `tx_ready` is not read, the header
    configuration of the data block, and `mac_ready` and `ff_tx_rdy`. The logic
    clock is `data.clock`. -/
structure Input (N : ℕ) where
  data : EthernetDataBlock.Input N
  headerConfig : Word
  udp : UdpDataBlock.Input
  arp : ArpBlock.Input
  icmp : IcmpBlock.Input
  macReady : Bool
  ffTxRdy : Bool

/-- The blocks, `mac_ready_reg`, and the registers of `tse_multiplexer`. -/
structure State (N : ℕ) where
  data : EthernetDataBlock.State N
  udp : UdpDataBlock.State
  arp : ArpBlock.State
  icmp : IcmpBlock.State
  macReadyReg : BitVec 4
  ffTxWrenSig : Bool
  ffTx : Beat

/-- One proof for the numbers of the configuration registers. -/
instance neZeroEleven : NeZero (11 : ℕ) := ⟨by decide⟩

/-- The MAC address in two of the configuration registers, as `config_dff` takes
    it (lines 516, 522). -/
def macIn (regs : Fin 11 → Word) (low high : Fin 11) : MacAddr :=
  ((regs high).extractLsb' 0 16 ++ regs low : BitVec 48)

/-- The constant frame generator ports of the data block (lines 404-406, 430). -/
def dataConfig : FrameGenerator.Config where
  payloadMaxLen := 300
  fifoInDly := 5
  fifoOutDly := 0
  genCrc := false

/-- The generators of a block. -/
def tx (b : Source) (s : State N) : Transmitter.State :=
  match b with
  | .data => s.data.tx
  | .udp => s.udp.tx
  | .arp => s.arp.tx
  | .icmp => s.icmp.tx

/-- `datablock_busy`, `udpblock_busy`, `arpblock_busy` and `icmpblock_busy`. -/
def busy (b : Source) (s : State N) : Bool := (tx b s).fg.fgBusy

/-- `tx_ready` (line 501). Without the testbench code `arp_req_busy` is low. -/
def txReady (i : Input N) (s : State N) : Bool :=
  s.macReadyReg.getLsbD 0 && i.ffTxRdy && !busy .data s && !busy .arp s && !busy .icmp s

/-- The inputs of the blocks, with `tx_ready`. -/
def dataInput (i : Input N) (s : State N) : EthernetDataBlock.Input N :=
  { i.data with txReady := txReady i s }

def udpInput (i : Input N) (s : State N) : UdpDataBlock.Input :=
  { i.udp with txReady := txReady i s }

def arpInput (i : Input N) (s : State N) : ArpBlock.Input :=
  { i.arp with txReady := txReady i s }

def icmpInput (i : Input N) (s : State N) : IcmpBlock.Input :=
  { i.icmp with txReady := txReady i s }

/-- The block `tse_multiplexer` takes its outputs from (lines 780-807). -/
def selected (s : State N) : Option Source :=
  if busy .data s then some .data
  else if busy .udp s then some .udp
  else if busy .arp s then some .arp
  else if busy .icmp s then some .icmp
  else none

/-- The word on the outputs of a block. -/
def beat (b : Source) (s : State N) : Beat :=
  ⟨(tx b s).fg.frameWord, (tx b s).fg.sopSig, (tx b s).fg.eopSig⟩

/-- The signals after the edges the input names: the blocks, `mac_ready_DFF`
    (lines 757-767) and `tse_multiplexer` (lines 772-813). -/
def step (i : Input N) (s : State N) : State N where
  data := EthernetDataBlock.step dataConfig i.headerConfig (dataInput i s) s.data
  udp := if i.data.clock then UdpDataBlock.step (udpInput i s) s.udp else s.udp
  arp := if i.data.clock then ArpBlock.step (arpInput i s) s.arp else s.arp
  icmp := if i.data.clock then IcmpBlock.step (icmpInput i s) s.icmp else s.icmp
  macReadyReg :=
    if i.data.clock then (BitVec.ofBool i.macReady ++ s.macReadyReg.extractLsb' 1 3 : BitVec 4)
    else s.macReadyReg
  ffTxWrenSig :=
    if i.data.clock then ((selected s).map fun b => (tx b s).fg.wrreqSig).getD false
    else s.ffTxWrenSig
  ffTx :=
    if i.data.clock then ((selected s).map fun b => beat b s).getD ⟨0, false, false⟩
    else s.ffTx

/-- The signals when reset is released. -/
def reset [NeZero N] (k : ℤ) : State N where
  data := EthernetDataBlock.reset k
  udp := UdpDataBlock.reset
  arp := ArpBlock.reset
  icmp := IcmpBlock.reset
  macReadyReg := 0
  ffTxWrenSig := false
  ffTx := ⟨0, false, false⟩

/-! ## Taking the line -/

/-- The constant ports of the frame generator of a block. -/
def fgConfig : Source → FrameGenerator.Config
  | .data => dataConfig
  | .udp => UdpDataBlock.fgConfig
  | .arp => ArpBlock.fgConfig
  | .icmp => IcmpBlock.fgConfig

/-- The inputs of the generators of a block. -/
def txInput (b : Source) (i : Input N) (s : State N) : Transmitter.Input :=
  match b with
  | .data => EthernetDataBlock.txInput i.headerConfig (dataInput i s) s.data
  | .udp => UdpDataBlock.txInput (udpInput i s) s.udp
  | .arp => ArpBlock.txInput (arpInput i s) s.arp
  | .icmp => IcmpBlock.txInput (icmpInput i s) s.icmp

/-- The edges at which a block sees `tx_ready` high and decides to send: the end
    of a scan of the data block, `trigger_icmp`, and the start of the frame
    generator of the two blocks that use `tx_ready` directly. -/
def decides (b : Source) (i : Input N) (s : State N) : Bool :=
  txReady i s &&
    match b with
    | .data => decide (s.data.ifm.step = N) && s.data.ifm.fullestFifo.isSome && !busy .data s
    | .udp => decide (s.udp.tx.fg.nextState = .idle) && UdpDataBuffer.payloadRdy s.udp.buffer
    | .arp => decide (s.arp.tx.fg.nextState = .idle) && s.arp.replyWait
    | .icmp => s.icmp.replyWait && !busy .icmp s

/-- `payload_rdy` of the two blocks in which it is a register. -/
def payloadRdyReg (b : Source) (s : State N) : Bool :=
  match b with
  | .data => s.data.ifm.payloadRdy
  | .icmp => s.icmp.payloadRdy
  | _ => false

/-- A block has decided to send and is not busy yet. -/
def pending (b : Source) (s : State N) : Bool := payloadRdyReg b s && !busy b s

/-- The UDP block, whose busy flag `tx_ready` does not contain, is done in time
    for a block that decides to send: `arp_block` becomes busy at the same edge,
    the two with a registered `payload_rdy` one edge later. -/
def udpLeaves (b : Source) (s : State N) : Bool :=
  match b with
  | .udp => true
  | .arp => s.udp.tx.fg.nextState = .idle
  | _ => s.udp.tx.fg.nextState = .idle ∨ s.udp.tx.fg.nextState = .done

/-- No block decides to send at an edge at which another one does, has done so
    and is not busy yet, or is the UDP block in the middle of a frame. -/
def Apart (i : Input N) (s : State N) : Prop :=
  i.data.clock = true → ∀ b, decides b i s = true →
    udpLeaves b s = true ∧ ∀ b', b' ≠ b → decides b' i s = false ∧ pending b' s = false

instance (i : Input N) (s : State N) : Decidable (Apart i s) := by
  unfold Apart
  infer_instance

section

variable {i : Input N} {s : State N}

theorem tx_step (b : Source) (hc : i.data.clock = true) :
    tx b (step i s) = Transmitter.step (fgConfig b) (txInput b i s) (tx b s) := by
  cases b
  · simp [tx, step, EthernetDataBlock.step, dataInput, hc, fgConfig, txInput]
  · simp [tx, step, UdpDataBlock.step, hc, fgConfig, txInput]
  · simp [tx, step, ArpBlock.step, hc, fgConfig, txInput]
  · simp [tx, step, IcmpBlock.step, hc, fgConfig, txInput]

theorem tx_step_of_not (b : Source) (hc : i.data.clock = false) : tx b (step i s) = tx b s := by
  cases b <;> simp [tx, step, EthernetDataBlock.step, dataInput, hc]

theorem busy_step (b : Source) (hc : i.data.clock = true) :
    busy b (step i s) =
      if (tx b s).fg.nextState = .idle then (txInput b i s).payloadRdy else busy b s := by
  rw [busy, tx_step b hc]
  exact FrameGenerator.fgBusy_step _ _ _

/-- A block that decides sees the three busy flags of `tx_ready` low. -/
theorem not_busy_of_decides {b b' : Source} (h : decides b i s = true) (hne : b' ≠ .udp) :
    busy b' s = false := by
  have hr : txReady i s = true := by
    unfold decides at h
    exact (Bool.and_eq_true _ _ ▸ h).1
  simp only [txReady, Bool.and_eq_true, Bool.not_eq_true'] at hr
  cases b'
  · exact hr.1.1.2
  · exact absurd rfl hne
  · exact hr.1.2
  · exact hr.2

end

/-! ## Exclusion -/

/-- At most one block is busy, and a block that is about to be busy will be the
    only one: the UDP block may still have to lower its flag. -/
structure Exclusive (s : State N) : Prop where
  control : EthernetDataBlock.Control s.data
  busyOk : ∀ b, FrameGenerator.BusyOk (tx b s).fg
  one : ∀ b b', busy b s = true → busy b' s = true → b = b'
  alone : ∀ b, pending b s = true → s.udp.tx.fg.nextState = .idle ∧
    ∀ b', b' ≠ b → pending b' s = false ∧ (busy b' s = true → b' = .udp)

theorem exclusive_reset [NeZero N] (k : ℤ) : Exclusive (reset k : State N) := by
  have hbusy : ∀ b, busy b (reset k : State N) = false := by intro b; cases b <;> rfl
  have hpend : ∀ b, pending b (reset k : State N) = false := by intro b; cases b <;> rfl
  refine ⟨EthernetDataBlock.Control.reset k, fun b => ?_, fun b b' hb => ?_, fun b hp => ?_⟩
  · cases b <;> exact fun _ => rfl
  · simp [hbusy] at hb
  · simp [hpend] at hp

section

variable {i : Input N} {s : State N}

/-- How a block comes to be busy after an edge. -/
theorem busy_cause (b : Source) (hc : i.data.clock = true)
    (hb : busy b (step i s) = true) :
    (busy b s = true ∧ (b = .udp → s.udp.tx.fg.nextState ≠ .idle)) ∨ pending b s = true ∨
      (decides b i s = true ∧ (b = .udp ∨ b = .arp)) := by
  rw [busy_step b hc] at hb
  by_cases hn : (tx b s).fg.nextState = .idle
  · rw [if_pos hn] at hb
    cases b
    · have hb : s.data.ifm.payloadRdy = true := hb
      cases hbusy : busy .data s
      · exact .inr (.inl (by simp [pending, payloadRdyReg, hb, hbusy]))
      · exact .inl ⟨rfl, by simp⟩
    · refine .inr (.inr ?_)
      have hn : s.udp.tx.fg.nextState = .idle := hn
      have hb : UdpDataBuffer.payloadRdy s.udp.buffer = true ∧ txReady i s = true := by
        simpa [txInput, UdpDataBlock.txInput, udpInput] using hb
      exact ⟨by simp [decides, hn, hb], by simp⟩
    · refine .inr (.inr ?_)
      have hn : s.arp.tx.fg.nextState = .idle := hn
      have hb : s.arp.replyWait = true ∧ txReady i s = true := by
        simpa [txInput, ArpBlock.txInput, ArpBlock.payloadRdy, arpInput] using hb
      exact ⟨by simp [decides, hn, hb], by simp⟩
    · have hb : s.icmp.payloadRdy = true := hb
      cases hbusy : busy .icmp s
      · exact .inr (.inl (by simp [pending, payloadRdyReg, hb, hbusy]))
      · exact .inl ⟨rfl, by simp⟩
  · rw [if_neg hn] at hb
    exact .inl ⟨hb, by rintro rfl; exact hn⟩

/-- A decision is pending only right after it. -/
theorem Exclusive.decides_of_pending (h : Exclusive s) {b : Source} (hc : i.data.clock = true)
    (hp : pending b (step i s) = true) : decides b i s = true := by
  obtain ⟨hp, hb⟩ : payloadRdyReg b (step i s) = true ∧ busy b (step i s) = false := by
    simpa [pending] using hp
  rw [busy_step b hc] at hb
  cases b with
  | data =>
    have hrdy : (InputFifoManager.triggerPayloadRdy
        (EthernetDataBlock.ifmInput (dataInput i s) s.data) s.data.ifm).payloadRdy = true := by
      simpa [payloadRdyReg, step, EthernetDataBlock.step, EthernetDataBlock.ifmInput, dataInput, hc]
        using hp
    rcases InputFifoManager.triggerPayloadRdy_cases
        (EthernetDataBlock.ifmInput (dataInput i s) s.data) s.data.ifm with
      ⟨-, -, hk⟩ | ⟨-, -, hf⟩ | ⟨hN, hsome, hbusy, -, -⟩
    · -- kept from before, it would have made the block busy
      have hold : (txInput .data i s).payloadRdy = true := hk.symm.trans hrdy
      split_ifs at hb with hn
      · simp [hold] at hb
      · exact absurd (h.busyOk .data hb) hn
    · simp [hf] at hrdy
    · have hr : busy .data s = false ∧ txReady i s = true := by
        simpa [EthernetDataBlock.ifmInput, dataInput, busy, tx] using hbusy
      simp [decides, hN, hsome, hr]
  | udp => simp [payloadRdyReg] at hp
  | arp => simp [payloadRdyReg] at hp
  | icmp =>
    have hrdy : (s.icmp.replyWait = true ∧ txReady i s = true) ∧ busy .icmp s = false := by
      simpa [payloadRdyReg, step, IcmpBlock.step, icmpInput, hc, busy, tx] using hp
    simp [decides, hrdy]

/-- The UDP block comes to rest while the decision of another block is
    pending. -/
theorem udp_idle_step {b : Source} (hc : i.data.clock = true)
    (hp : pending b (step i s) = true) (hd : decides b i s = true)
    (hleaves : udpLeaves b s = true)
    (hudp : .udp ≠ b → decides .udp i s = false ∧ pending .udp s = false) :
    (step i s).udp.tx.fg.nextState = .idle := by
  have hr : txReady i s = true := by
    unfold decides at hd
    exact (Bool.and_eq_true _ _ ▸ hd).1
  have hb : Source.udp ≠ b ∧
      (s.udp.tx.fg.nextState = .idle ∨ s.udp.tx.fg.nextState = .done) := by
    cases b <;> simp_all [pending, payloadRdyReg, udpLeaves]
  have htx : (step i s).udp.tx = Transmitter.step (fgConfig .udp) (txInput .udp i s) s.udp.tx :=
    tx_step .udp hc
  rw [htx]
  rcases hb.2 with hn | hn
  · have hrdy : (txInput .udp i s).payloadRdy = false := by
      have hd' := (hudp hb.1).1
      simpa [decides, hr, hn, txInput, UdpDataBlock.txInput, udpInput] using hd'
    simp [Transmitter.step, FrameGenerator.step, FrameGenerator.stateMachine, fgInput, hn, hrdy]
  · simp [Transmitter.step, FrameGenerator.step, FrameGenerator.stateMachine, hn, fgConfig,
      UdpDataBlock.fgConfig]

/-- An edge that keeps the blocks apart keeps them exclusive. -/
theorem Exclusive.step (h : Exclusive s) (hap : Apart i s) : Exclusive (step i s) := by
  cases hc : i.data.clock
  · have htx : ∀ b, tx b (EthernetBlock.step i s) = tx b s := fun b => tx_step_of_not b hc
    have hbusy : ∀ b, busy b (EthernetBlock.step i s) = busy b s := fun b => by rw [busy, htx, busy]
    have hudp : (EthernetBlock.step i s).udp.tx = s.udp.tx := htx .udp
    have hreg : ∀ b, payloadRdyReg b (EthernetBlock.step i s) = payloadRdyReg b s := by
      intro b
      cases b <;> simp [payloadRdyReg, EthernetBlock.step, EthernetDataBlock.step,
        EthernetDataBlock.ifmInput, dataInput, hc]
    have hpend : ∀ b, pending b (EthernetBlock.step i s) = pending b s := fun b => by
      rw [pending, hbusy, hreg, pending]
    refine ⟨h.control.step, fun b => ?_, ?_, ?_⟩
    · rw [htx]
      exact h.busyOk b
    · simpa only [hbusy] using h.one
    · simpa only [hpend, hbusy, hudp] using h.alone
  · have hap := hap hc
    -- two of the three ways to be busy after the edge cannot meet in two blocks
    have hbp : ∀ b b', b ≠ b' → busy b s = true → (b = .udp → s.udp.tx.fg.nextState ≠ .idle) →
        pending b' s = true → False := by
      intro b b' hne hb hu hp
      obtain ⟨hidle, halone⟩ := h.alone b' hp
      exact hu ((halone b hne).2 hb) hidle
    have hbd : ∀ b b', b ≠ b' → busy b s = true → (b = .udp → s.udp.tx.fg.nextState ≠ .idle) →
        decides b' i s = true → (b' = .udp ∨ b' = .arp) → False := by
      intro b b' hne hb hu hd hb'
      by_cases hudp : b = .udp
      · obtain rfl : b' = .arp := hb'.resolve_left fun he => hne (hudp.trans he.symm)
        exact hu hudp (by simpa [udpLeaves] using (hap _ hd).1)
      · simp [not_busy_of_decides hd hudp] at hb
    have hpd : ∀ b b', b ≠ b' → pending b s = true → decides b' i s = true → False := by
      intro b b' hne hp hd
      simp [((hap b' hd).2 b hne).2] at hp
    refine ⟨h.control.step, fun b => ?_, fun b b' hb hb' => ?_, fun b hp => ?_⟩
    · rw [tx_step b hc]
      exact (h.busyOk b).step
    · by_contra hne
      rcases busy_cause b hc hb with ⟨h1, hu⟩ | h1 | ⟨h1, hk⟩ <;>
        rcases busy_cause b' hc hb' with ⟨h2, hu'⟩ | h2 | ⟨h2, hk'⟩
      · exact hne (h.one b b' h1 h2)
      · exact hbp b b' hne h1 hu h2
      · exact hbd b b' hne h1 hu h2 hk'
      · exact hbp b' b (Ne.symm hne) h2 hu' h1
      · simp [((h.alone b h1).2 b' (Ne.symm hne)).1] at h2
      · exact hpd b b' hne h1 h2
      · exact hbd b' b (Ne.symm hne) h2 hu' h1 hk
      · exact hpd b' b (Ne.symm hne) h2 h1
      · simp [((hap b h1).2 b' (Ne.symm hne)).1] at h2
    · have hd := h.decides_of_pending hc hp
      obtain ⟨hleaves, hothers⟩ := hap b hd
      refine ⟨?_, fun b' hne => ⟨?_, fun hb' => ?_⟩⟩
      · exact udp_idle_step hc hp hd hleaves (hothers .udp)
      · by_contra hp'
        have hd' := h.decides_of_pending hc (by simpa using hp')
        simp [(hothers b' hne).1] at hd'
      · by_contra hudp
        rcases busy_cause b' hc hb' with ⟨h1, -⟩ | h1 | ⟨h1, -⟩
        · simp [not_busy_of_decides hd hudp] at h1
        · simp [(hothers b' hne).2] at h1
        · simp [(hothers b' hne).1] at h1

end

/-! ## The line -/

/-- The model with what an observer keeps beside it: the words each block has
    written, and the frame the word on `ff_tx` belongs to, which is its block and
    the number of frames this block had completed before. -/
structure Traced (N : ℕ) where
  s : State N
  sent : Source → List Beat
  origin : Source × ℕ

/-- What a block writes at an event. -/
def writes (b : Source) (i : Input N) (s : State N) : List Beat :=
  if i.data.clock then written (tx b s) else []

/-- The frame block `b` is sending, or will send next. -/
def frameOf (b : Source) (m : Traced N) : Source × ℕ := (b, (cut Beat.eop (m.sent b)).1.length)

/-- The model and the observer after an event. -/
def tracedStep (i : Input N) (m : Traced N) : Traced N where
  s := step i m.s
  sent := fun b => m.sent b ++ writes b i m.s
  origin :=
    if i.data.clock then ((selected m.s).map fun b => frameOf b m).getD m.origin else m.origin

def tracedReset [NeZero N] (k : ℤ) : Traced N where
  s := reset k
  sent := fun _ => []
  origin := (.data, 0)

/-- The word the MAC takes at an event, when `ff_tx_wren` is high. -/
def line (i : Input N) (m : Traced N) : List (Beat × Source × ℕ) :=
  if i.data.clock ∧ m.s.ffTxWrenSig ∧ i.ffTxRdy then [(m.s.ffTx, m.origin)] else []

/-- The word on `ff_tx`. -/
def onLine (m : Traced N) : List (Beat × Source × ℕ) :=
  if m.s.ffTxWrenSig then [(m.s.ffTx, m.origin)] else []

/-- The frame of a block is open. -/
def Open (b : Source) (m : Traced N) : Prop := (cut Beat.eop (m.sent b)).2 ≠ []

/-- The words `l` have been taken from the line. With the one on it they are
    frames each of one block, and the open one is that of the block whose frame
    is open. -/
structure Lined (l : List (Beat × Source × ℕ)) (m : Traced N) : Prop where
  framed : ∀ b, Framed (fgConfig b) (m.sent b) (tx b m.s)
  labelled : ∃ ts t, Labelled Beat.eop (l ++ onLine m) ts t ∧ ∀ b, Open b m → t = frameOf b m
  closed : (∀ b, ¬ Open b m) → (cut (Beat.eop ∘ Prod.fst) (l ++ onLine m)).2 = []

theorem lined_reset [NeZero N] (k : ℤ) : Lined [] (tracedReset k : Traced N) where
  framed := by intro b; cases b <;> exact framed_reset
  labelled := ⟨[], (.data, 0), labelled_nil _, fun b hb => absurd rfl hb⟩
  closed := fun _ => rfl

section

variable {i : Input N} {m : Traced N} {l : List (Beat × Source × ℕ)}

/-- A block that is not busy writes nothing and has no open frame. -/
theorem Lined.of_not_busy (h : Lined l m) (hex : Exclusive m.s) {b : Source}
    (hb : busy b m.s = false) : written (tx b m.s) = [] ∧ ¬ Open b m := by
  obtain ⟨hw, ho⟩ := (h.framed b).idle (hex.busyOk b hb)
  exact ⟨hw, fun hopen => hopen ho⟩

/-- The multiplexer takes its outputs from the block that is busy. -/
theorem Exclusive.selected {s : State N} (hex : Exclusive s) {b : Source}
    (hb : busy b s = true) : selected s = some b := by
  have hothers : ∀ b', b' ≠ b → busy b' s = false := by
    intro b' hne
    by_contra hb'
    exact hne (hex.one b' b (by simpa using hb') hb)
  cases b <;> simp [EthernetBlock.selected, hb, hothers]

theorem fgConfig_ok (b : Source) : (fgConfig b).genCrc = false ∧ 0 < (fgConfig b).fifoInDly.toNat :=
  by cases b <;> decide

theorem framed_tracedStep {b : Source} (h : Framed (fgConfig b) (m.sent b) (tx b m.s)) :
    Framed (fgConfig b) ((tracedStep i m).sent b) (tx b (tracedStep i m).s) := by
  cases hc : i.data.clock
  · simpa [tracedStep, writes, hc, tx_step_of_not b hc] using h
  · have := h.step (i := txInput b i m.s) (fgConfig_ok b).1 (fgConfig_ok b).2
    simpa [tracedStep, writes, hc, tx_step b hc] using this

/-- An event at which no block writes. -/
theorem Lined.step_quiet (h : Lined l m) (hsent : ∀ b, (tracedStep i m).sent b = m.sent b)
    (hline : (l ++ line i m) ++ onLine (tracedStep i m) = l ++ onLine m) :
    Lined (l ++ line i m) (tracedStep i m) := by
  have hopen : ∀ b, Open b (tracedStep i m) ↔ Open b m := fun b => by rw [Open, hsent, Open]
  have hframe : ∀ b, frameOf b (tracedStep i m) = frameOf b m := fun b => by
    rw [frameOf, hsent, frameOf]
  refine ⟨fun b => framed_tracedStep (h.framed b), ?_, ?_⟩
  · simpa only [hline, hopen, hframe] using h.labelled
  · simpa only [hline, hopen] using h.closed

/-- An edge at which block `b` writes the word on its outputs. -/
theorem Lined.step_write (h : Lined l m) (hex : Exclusive m.s) {b : Source}
    (hc : i.data.clock = true) (hrdy : i.ffTxRdy = true) (hb : busy b m.s = true)
    (hw : (tx b m.s).fg.wrreqSig = true) : Lined (l ++ line i m) (tracedStep i m) := by
  have hsel := hex.selected hb
  have hline : line i m = onLine m := by simp [line, onLine, hc, hrdy]
  have honline : onLine (tracedStep i m) = [(beat b m.s, frameOf b m)] := by
    simp [onLine, tracedStep, EthernetBlock.step, hc, hsel, hw]
  have hsent : (tracedStep i m).sent b = m.sent b ++ [beat b m.s] := by
    simp [tracedStep, writes, hc, written, hw, beat]
  have hquiet : ∀ b', b' ≠ b → ¬ Open b' m ∧ (tracedStep i m).sent b' = m.sent b' := by
    intro b' hne
    have hb' : busy b' m.s = false := by
      by_contra hb'
      exact hne (hex.one b' b (by simpa using hb') hb)
    obtain ⟨hwr, hopen⟩ := h.of_not_busy hex hb'
    exact ⟨hopen, by simp [tracedStep, writes, hc, hwr]⟩
  -- the open frame, if any, is the one this word belongs to
  obtain ⟨ts, t, hlab, ht⟩ := h.labelled
  have hlab : Labelled Beat.eop (l ++ onLine m) ts (frameOf b m) := by
    by_cases ho : Open b m
    · exact ht b ho ▸ hlab
    · refine hlab.relabel (h.closed fun b' => ?_) _
      by_cases hb' : b' = b
      · exact hb' ▸ ho
      · exact (hquiet b' hb').1
  have hothers : ∀ b', b' ≠ b → ¬ Open b' (tracedStep i m) := by
    intro b' hne
    rw [Open, (hquiet b' hne).2]
    exact (hquiet b' hne).1
  refine ⟨fun b => framed_tracedStep (h.framed b), ?_, ?_⟩ <;> rw [hline, honline]
  · cases he : (beat b m.s).eop
    · refine ⟨ts, frameOf b m, hlab.concat_open he, fun b' ho => ?_⟩
      obtain rfl : b' = b := by_contra fun hne => hothers b' hne ho
      rw [frameOf, frameOf, hsent, cut_concat_open Beat.eop _ _ he]
    · refine ⟨_, frameOf b m, hlab.concat_last he, fun b' ho => ?_⟩
      obtain rfl : b' = b := by_contra fun hne => hothers b' hne ho
      rw [Open, hsent, cut_concat_last Beat.eop _ _ he] at ho
      exact absurd rfl ho
  · intro hall
    have hclosed := hall b
    rw [Open, hsent] at hclosed
    cases he : (beat b m.s).eop
    · rw [cut_concat_open Beat.eop _ _ he] at hclosed
      simp at hclosed
    · have hcut := cut_concat_last (Beat.eop ∘ Prod.fst) (l ++ onLine m)
        (beat b m.s, frameOf b m) he
      rw [hcut]

/-- An event keeps the words on the line in frames of one block. -/
theorem Lined.step (h : Lined l m) (hex : Exclusive m.s) (hrdy : i.ffTxRdy = true) :
    Lined (l ++ line i m) (tracedStep i m) := by
  cases hc : i.data.clock
  · refine h.step_quiet (fun b => by simp [tracedStep, writes, hc]) ?_
    simp [line, onLine, tracedStep, EthernetBlock.step, hc]
  · have hline : line i m = onLine m := by simp [line, onLine, hc, hrdy]
    by_cases hb : ∃ b, busy b m.s = true ∧ (tx b m.s).fg.wrreqSig = true
    · obtain ⟨b, hb, hw⟩ := hb
      exact h.step_write hex hc hrdy hb hw
    · have hnone : ∀ b, written (tx b m.s) = [] := by
        intro b
        cases hbusy : busy b m.s
        · exact (h.of_not_busy hex hbusy).1
        · have hw : ¬ (tx b m.s).fg.wrreqSig = true := fun hw => hb ⟨b, hbusy, hw⟩
          simp [written, hw]
      refine h.step_quiet (fun b => by simp [tracedStep, writes, hc, hnone]) ?_
      have honline : onLine (tracedStep i m) = [] := by
        cases hsel : EthernetBlock.selected m.s with
        | none => simp [onLine, tracedStep, EthernetBlock.step, hc, hsel]
        | some b =>
          have hw : (tx b m.s).fg.wrreqSig = false := by
            by_contra hw
            have := hnone b
            simp [written, hw] at this
          simp [onLine, tracedStep, EthernetBlock.step, hc, hsel, hw]
      rw [hline, honline, List.append_nil]

end

/-! ## Runs -/

/-- The observer does not touch the model. -/
theorem run_tracedStep (m : Traced N) (is : List (Input N)) :
    (run tracedStep m is).s = run step m.s is := by
  induction is using List.reverseRecOn with
  | nil => rfl
  | append_singleton is i ih =>
    rw [run_concat, run_concat, ← ih]
    rfl

theorem exclusive_run [NeZero N] (k : ℤ) {is : List (Input N)}
    (hap : Along step Apart (reset k) is) : Exclusive (run step (reset k) is) :=
  run_invariant step (exclusive_reset k) (fun _ _ hap h => h.step hap) hap

theorem framed_run [NeZero N] (k : ℤ) (is : List (Input N)) (b : Source) :
    Framed (fgConfig b) ((run tracedStep (tracedReset k) is).sent b)
      (tx b (run step (reset k) is)) := by
  have h : Framed (fgConfig b) ((run tracedStep (tracedReset k) is).sent b)
      (tx b (run tracedStep (tracedReset k) is).s) := by
    induction is using List.reverseRecOn with
    | nil => cases b <;> exact framed_reset
    | append_singleton is i ih =>
      rw [run_concat]
      exact framed_tracedStep ih
  rwa [run_tracedStep] at h

theorem lined_run [NeZero N] (k : ℤ) {is : List (Input N)}
    (hap : Along step Apart (reset k) is) (hrdy : ∀ i ∈ is, i.ffTxRdy = true) :
    Lined (log tracedStep line (tracedReset k) is) (run tracedStep (tracedReset k) is) := by
  induction is using List.reverseRecOn with
  | nil => exact lined_reset k
  | append_singleton is i ih =>
    have hex : Exclusive (run tracedStep (tracedReset k) is).s := by
      rw [run_tracedStep]
      exact exclusive_run k hap.of_isPrefix
    rw [log_concat, run_concat]
    exact (ih hap.of_isPrefix fun j hj => hrdy j (List.mem_append_left _ hj)).step hex
      (hrdy i (by simp))

/-- In every run whose edges keep the blocks apart, at most one block is busy,
    every word a frame generator writes is put on `ff_tx`, and with `ff_tx_rdy`
    high the words taken from the line up to an end mark, and those after the
    last one, belong to one and the same frame. -/
theorem one_frame_at_a_time [NeZero N] (k : ℤ) (is : List (Input N))
    (hap : Along step Apart (reset k) is) :
    (∀ b b', busy b (run step (reset k) is) = true → busy b' (run step (reset k) is) = true →
      b = b') ∧
    (∀ i : Input N, i.data.clock = true → ∀ b, ∀ w ∈ written (tx b (run step (reset k) is)),
      (step i (run step (reset k) is)).ffTxWrenSig = true ∧
        (step i (run step (reset k) is)).ffTx = w) ∧
    ((∀ i ∈ is, i.ffTxRdy = true) →
      ∀ f ∈ (cut (Beat.eop ∘ Prod.fst) (log tracedStep line (tracedReset k) is)).1 ++
        [(cut (Beat.eop ∘ Prod.fst) (log tracedStep line (tracedReset k) is)).2],
        ∃ frame, ∀ w ∈ f, w.2 = frame) := by
  have hex := exclusive_run k hap
  refine ⟨hex.one, fun i hc b w hw => ?_, fun hrdy f hf => ?_⟩
  · have hb : busy b (run step (reset k) is) = true := by
      by_contra hb
      have hn := hex.busyOk b (by simpa [busy] using hb)
      simp [((framed_run k is b).idle hn).1] at hw
    obtain ⟨hwr, rfl⟩ : (tx b (run step (reset k) is)).fg.wrreqSig = true ∧
        w = beat b (run step (reset k) is) := by
      rw [written] at hw
      split_ifs at hw with hwr
      · exact ⟨hwr, List.mem_singleton.1 hw⟩
      · simp at hw
    simp [step, hc, hex.selected hb, hwr]
  · obtain ⟨ts, t, hlab, -⟩ := (lined_run k hap hrdy).labelled
    exact hlab.exists_label_of_append hf

/-- An edge of all clocks, with a word written to the UDP block when there is
    one, and an ARP request received when `reply` is set. -/
def edge (udp : Option (Word × UdpPort)) (reply : Bool) : Input 5 where
  data :=
    { clock := true
      wrclks := fun _ => true
      wrreqs := fun _ => false
      dataIn := fun _ => 0
      rdusedw := fun _ => 0
      txReady := false
      ifmFlags := fun _ => 0
      ifmPayloadSize := fun _ => 0
      sourceMacAddr := 0xEE1122334455
      destMacAddr := 0x6CB311517434
      sourceIpAddr := 0xC0A80003
      destIpAddr := 0xC0A80001
      baseUdpPort := 0x1000 }
  headerConfig := 0x00000007
  udp :=
    { dataIn := (udp.map Prod.fst).getD 0
      dataValidIn := udp.isSome
      dataPortIn := (udp.map Prod.snd).getD 0
      dataEopIn := false
      txReady := false
      sourceMacAddr := 0xEE1122334455
      destMacAddr := 0x6CB311517434
      sourceIpAddr := 0xC0A80003
      destIpAddr := 0xC0A80001 }
  arp :=
    { txReady := false
      generateReply := reply
      generateRequest := false
      sourceMacAddr := 0xEE1122334455
      destMacAddr := 0x6CB311517434
      sourceIpAddr := 0xC0A80003
      destIpAddr := 0xC0A80001
      reqIpAddr := 0xC0A80001 }
  icmp :=
    { frDataOut := 0
      frDval := false
      frEop := false
      icmpPing := false
      txReady := false
      sourceMacAddr := 0xEE1122334455
      destMacAddr := 0x6CB311517434
      sourceIpAddr := 0xC0A80003
      destIpAddr := 0xC0A80001 }
  macReady := true
  ffTxRdy := true

/-- A packet for the UDP block, and an ARP request `n` edges later. -/
def traffic (n : ℕ) : List (Input 5) :=
  [edge (some (0xCAFE, 0x3000)) false, edge (some (1, 0x4000)) false] ++
    List.replicate n (edge none false) ++ [edge none true] ++ List.replicate 30 (edge none false)

/-- The frame of the UDP block and then that of the ARP block. -/
theorem one_frame_at_a_time_traffic :
    ((cut (Beat.eop ∘ Prod.fst) (log tracedStep line (tracedReset (-1)) (traffic 30))).1.map
      fun f => (f.length, f.map Prod.snd |>.dedup)) = [(12, [(.udp, 0)]), (11, [(.arp, 0)])] ∧
    ∀ f ∈ (cut (Beat.eop ∘ Prod.fst) (log tracedStep line (tracedReset (-1)) (traffic 30))).1 ++
        [(cut (Beat.eop ∘ Prod.fst) (log tracedStep line (tracedReset (-1)) (traffic 30))).2],
      ∃ frame, ∀ w ∈ f, w.2 = frame :=
  ⟨by decide +kernel,
    (one_frame_at_a_time (-1) (traffic 30) (by decide +kernel)).2.2 (by decide +kernel)⟩

/-- An ARP request received while the UDP block sends: both are busy, and the
    multiplexer drops the first word of the reply. -/
theorem two_blocks_busy :
    (∀ i ∈ traffic 10, i.macReady = true ∧ i.ffTxRdy = true) ∧
    busy .udp (run step (reset (-1)) ((traffic 10).take 17)) = true ∧
    busy .arp (run step (reset (-1)) ((traffic 10).take 17)) = true ∧
    ∃ w ∈ written (tx .arp (run step (reset (-1)) ((traffic 10).take 17))), w.sop = true ∧
      (step (edge none false) (run step (reset (-1)) ((traffic 10).take 17))).ffTx ≠ w := by
  refine ⟨?_, ?_, ?_, ?_⟩ <;> decide +kernel

end FpgaEthernet.EthernetBlock
