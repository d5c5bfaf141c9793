import FpgaEthernet.Ethernet.Transmitter
import FpgaEthernet.Ethernet.InputFifoManager
import Mathlib.Data.Nat.Log

/-!
# `ethernet_data_block`

Model of `ethernet/ethernet_data_block.vhd`: the input FIFO manager with its `N`
data streams, a frame generator and a header generator.

Main results:

* `Control.muxSel`: the stream being read never changes while the frame generator
  is busy.
* `inv_step`: an event keeps the relation between the words accepted by each
  FIFO, the words the frame generator has requested and the packets sent.
* `stream_payloads`: the payloads of the frames sent for a stream are a prefix
  of the words its FIFO has accepted.
-/

namespace FpgaEthernet

/-- `f_num_bits` (`eth_common.vhd` lines 138-141). -/
def fNumBits (x : ℕ) : ℕ := Nat.clog 2 x

namespace EthernetDataBlock

open Clocked Transmitter

variable {N : ℕ}

/-! ## Model -/

/-- The rising edges and the input ports (`ethernet_data_block.vhd` lines
    44-110), and the used-word count each FIFO reports. -/
structure Input (N : ℕ) where
  clock : Bool
  wrclks : Fin N → Bool
  wrreqs : Fin N → Bool
  dataIn : Fin N → Word
  rdusedw : Fin N → BitVec 11
  txReady : Bool
  ifmFlags : Fin N → BitVec 2
  ifmPayloadSize : Fin N → BitVec 11
  sourceMacAddr : MacAddr
  destMacAddr : MacAddr
  sourceIpAddr : IpAddr
  destIpAddr : IpAddr
  baseUdpPort : UdpPort

/-- The FIFO manager, and the header generator and frame generator. -/
structure State (N : ℕ) where
  ifm : InputFifoManager.State N
  tx : Transmitter.State

/-- `source_port` and `dest_port` (lines 227-231): the base port with the number
    of the current FIFO in its low bits. -/
def streamPort (base : UdpPort) (I : Fin N) : UdpPort :=
  BitVec.ofNat 16 (base.toNat / 2 ^ fNumBits N * 2 ^ fNumBits N + I)

/-- The header parameters (lines 210-231, 270-275), with `header_config`. -/
def fields (config : Word) (i : Input N) (s : State N) : HeaderGenerator.Fields where
  protocol := 0x11
  appHeader := 0x00123456
  config := config
  sourceMacAddr := i.sourceMacAddr
  destMacAddr := i.destMacAddr
  etherType := 0x0800
  sourceIp := i.sourceIpAddr
  destIp := i.destIpAddr
  sourcePort := streamPort i.baseUdpPort s.ifm.muxSel
  destPort := streamPort i.baseUdpPort s.ifm.muxSel

/-- The inputs of the FIFO manager, with `tx_busy` (line 225). -/
def ifmInput (i : Input N) (s : State N) : InputFifoManager.Input N where
  clock := i.clock
  wrclks := i.wrclks
  wrreqs := i.wrreqs
  dataIn := i.dataIn
  rdusedw := i.rdusedw
  txBusy := s.tx.fg.fgBusy || !i.txReady
  rdreq := s.tx.fg.rdreqSig
  payloadSize := i.ifmPayloadSize
  flags := i.ifmFlags

/-- The inputs of the header generator and the frame generator. -/
def txInput (config : Word) (i : Input N) (s : State N) : Transmitter.Input where
  fields := fields config i s
  dataIn := s.ifm.dataOutSig
  usedwIn := i.rdusedw s.ifm.muxSel
  payloadRdy := s.ifm.payloadRdy

/-- The signals after the edges the input names. -/
def step (c : FrameGenerator.Config) (config : Word) (i : Input N) (s : State N) : State N where
  ifm := InputFifoManager.step (ifmInput i s) s.ifm
  tx := if i.clock then Transmitter.step c (txInput config i s) s.tx else s.tx

/-- The signals when reset is released; `k` is the value of the scan's `step`
    variable. -/
def reset [NeZero N] (k : ℤ) : State N where
  ifm := InputFifoManager.reset k
  tx := Transmitter.reset

/-- What is put on the outputs at an edge of the logic clock, with `curr_fifo`
    at that edge. -/
def output (i : Input N) (s : State N) : List (Beat × Fin N) :=
  if i.clock then (written s.tx).map fun b => (b, s.ifm.muxSel) else []

/-- The word FIFO `I` accepts at an event. -/
def accepted (I : Fin N) (i : Input N) (s : State N) : List Word :=
  InputFifoManager.accepted I (ifmInput i s) s.ifm

/-- No FIFO reports more words than it holds. -/
def NeverOverReports (i : Input N) (s : State N) : Prop :=
  InputFifoManager.NeverOverReports (ifmInput i s) s.ifm

instance (i : Input N) (s : State N) : Decidable (NeverOverReports i s) := by
  unfold NeverOverReports
  infer_instance

/-! ## The multiplexer -/

variable {c : FrameGenerator.Config} {config : Word}

/-- `fg_busy` covers every state but `IDLE`, and `payload_rdy` is only high when
    the frame generator is busy or about to be. -/
structure Control (s : State N) : Prop where
  busy : FrameGenerator.BusyOk s.tx.fg
  rdy : s.ifm.payloadRdy = true → s.tx.fg.fgBusy = true ∨ s.ifm.step = -1

theorem Control.reset [NeZero N] (k : ℤ) : Control (reset k : State N) where
  busy := fun _ => rfl
  rdy := by simp [EthernetDataBlock.reset, InputFifoManager.reset]

theorem fgBusy_tx (i : Input N) (s : State N) (hc : i.clock = true) :
    (step c config i s).tx.fg.fgBusy =
      if s.tx.fg.nextState = .idle then s.ifm.payloadRdy else s.tx.fg.fgBusy := by
  rw [step, if_pos hc]
  exact FrameGenerator.fgBusy_step _ _ _

theorem Control.step {i : Input N} {s : State N} (h : Control s) :
    Control (step c config i s) := by
  cases hc : i.clock
  · refine ⟨?_, ?_⟩
    · simpa [EthernetDataBlock.step, hc] using h.busy
    · simpa [EthernetDataBlock.step, hc, InputFifoManager.step, ifmInput] using h.rdy
  · refine ⟨?_, fun hr => ?_⟩
    · simp only [EthernetDataBlock.step, hc, if_true]
      exact h.busy.step
    · rw [fgBusy_tx i s hc]
      have hrdy : (InputFifoManager.triggerPayloadRdy (ifmInput i s) s.ifm).payloadRdy = true := by
        simpa [EthernetDataBlock.step, ifmInput, hc] using hr
      have hstep : (EthernetDataBlock.step c config i s).ifm.step =
          (InputFifoManager.triggerPayloadRdy (ifmInput i s) s.ifm).step := by
        simp [EthernetDataBlock.step, InputFifoManager.step, ifmInput, hc]
      rcases InputFifoManager.triggerPayloadRdy_cases (ifmInput i s) s.ifm with
        ⟨-, -, hk⟩ | ⟨-, -, hf⟩ | ⟨-, -, -, hs, -⟩
      · left
        rw [hk] at hrdy
        split_ifs with hn
        · exact hrdy
        · by_contra hb
          exact hn (h.busy (by simpa using hb))
      · simp [hf] at hrdy
      · exact .inr (hstep.trans hs)

/-- While the frame generator is busy, or becomes busy, the multiplexer does not
    move. -/
theorem Control.muxSel {i : Input N} {s : State N} (h : Control s)
    (hb : s.tx.fg.fgBusy = true ∨ (EthernetDataBlock.step c config i s).tx.fg.fgBusy = true) :
    (EthernetDataBlock.step c config i s).ifm.muxSel = s.ifm.muxSel := by
  cases hc : i.clock
  · simp [EthernetDataBlock.step, ifmInput, hc]
  · have hmux : (EthernetDataBlock.step c config i s).ifm.muxSel =
        (InputFifoManager.triggerPayloadRdy (ifmInput i s) s.ifm).muxSel := by
      simp [EthernetDataBlock.step, ifmInput, hc]
    rw [hmux]
    rcases InputFifoManager.triggerPayloadRdy_cases (ifmInput i s) s.ifm with
      ⟨-, hk, -⟩ | ⟨-, hk, -⟩ | ⟨hN, -, hbusy, -, -⟩
    · exact hk
    · exact hk
    · -- at a decision the frame generator is idle and `payload_rdy` is low
      have hfg : s.tx.fg.fgBusy = false := by
        simp only [ifmInput, Bool.or_eq_false_iff] at hbusy
        exact hbusy.1
      rw [fgBusy_tx i s hc, if_pos (h.busy hfg)] at hb
      rcases hb with hb | hb
      · simp [hfg] at hb
      · rcases h.rdy hb with hb | hs
        · simp [hfg] at hb
        · omega

/-! ## The read pipeline -/

/-- The words of FIFO `I` that are not requested yet. The requests of
    `read_req_multiplexer` are one edge behind `rdreq`. -/
def unread (s : State N) (I : Fin N) : List Word :=
  (s.ifm.fifos I).contents.drop (s.ifm.rdreqs I).toNat

/-- The word the frame generator requests from FIFO `I` at an event. -/
def requested (I : Fin N) (i : Input N) (s : State N) : List Word :=
  if i.clock ∧ s.tx.fg.rdreqSig ∧ I = s.ifm.muxSel then (unread s I).take 1 else []

theorem step_rdreqs (i : Input N) (s : State N) (I : Fin N) :
    (step c config i s).ifm.rdreqs I =
      if i.clock then (if I = s.ifm.muxSel then s.tx.fg.rdreqSig else false)
      else s.ifm.rdreqs I :=
  InputFifoManager.step_rdreqs _ _ _

theorem step_contents {i : Input N} {s : State N} (hc : i.clock = true) (I : Fin N) :
    ((step c config i s).ifm.fifos I).contents = unread s I ++ accepted I i s := by
  cases hr : s.ifm.rdreqs I <;>
    simp [step, InputFifoManager.step, unread, accepted, InputFifoManager.accepted, ifmInput, hc,
      hr]

theorem step_contents_of_not {i : Input N} {s : State N} (hc : i.clock = false) (I : Fin N) :
    ((step c config i s).ifm.fifos I).contents =
      (s.ifm.fifos I).contents ++ accepted I i s := by
  simp [step, InputFifoManager.step, accepted, InputFifoManager.accepted, ifmInput, hc]

/-- What is requested from a FIFO followed by what is not requested yet is what
    was not requested before followed by what the FIFO has accepted. -/
theorem requested_append_unread {i : Input N} {s : State N} {I : Fin N}
    (hne : s.ifm.rdreqs I = true → (s.ifm.fifos I).contents ≠ [])
    (hun : s.tx.fg.rdreqSig = true → unread s s.ifm.muxSel ≠ []) :
    requested I i s ++ unread (step c config i s) I = unread s I ++ accepted I i s := by
  cases hc : i.clock
  · have hreq : requested I i s = [] := by simp [requested, hc]
    rw [hreq, List.nil_append, unread, step_contents_of_not hc, step_rdreqs, unread]
    cases hr : s.ifm.rdreqs I
    · simp [hc]
    · obtain ⟨w, ws, hw⟩ := List.exists_cons_of_ne_nil (hne hr)
      simp [hc, hw]
  · rw [unread, step_contents hc, step_rdreqs]
    by_cases hr : s.tx.fg.rdreqSig = true ∧ I = s.ifm.muxSel
    · obtain ⟨hr, rfl⟩ := hr
      obtain ⟨w, ws, hw⟩ := List.exists_cons_of_ne_nil (hun hr)
      simp [requested, hc, hr, hw]
    · have hreq : requested I i s = [] := by simp [requested, hr]
      rw [hreq]
      by_cases hI : I = s.ifm.muxSel
      · simp [hI] at hr
        simp [hc, hI, hr]
      · simp [hc, hI]

theorem requested_length {i : Input N} {s : State N} (hc : i.clock = true)
    (hun : s.tx.fg.rdreqSig = true → unread s s.ifm.muxSel ≠ []) :
    (requested s.ifm.muxSel i s).length = s.tx.fg.rdreqSig.toNat := by
  cases hr : s.tx.fg.rdreqSig
  · simp [requested, hr]
  · obtain ⟨w, ws, hw⟩ := List.exists_cons_of_ne_nil (hun hr)
    simp [requested, hc, hr, hw]

/-- Where the words requested for a payload of `len` words are, `p` edges after
    the header ended: a request is registered one edge after it is made, the
    FIFO answers one edge later and `out_register` one after that. -/
structure InFlight (pay : List Word) (p len : ℕ) (s : State N) : Prop where
  rdreqs : s.ifm.rdreqs s.ifm.muxSel = decide (2 ≤ p ∧ p ≤ len + 1)
  next : ∀ k < len, p = k + 2 → pay[k]? = (s.ifm.fifos s.ifm.muxSel).contents.head?
  fifoOuts : ∀ k < len, p = k + 3 → pay[k]? = some (s.ifm.fifoOuts s.ifm.muxSel)
  dataOut : ∀ k < len, p = k + 4 → pay[k]? = some s.ifm.dataOutSig

/-- The word a registered request is about to take is there. -/
theorem InFlight.contents_ne {pay : List Word} {p len : ℕ} {s : State N}
    (h : InFlight pay p len s) (hlen : pay.length = min (p - 1) len)
    (hr : s.ifm.rdreqs s.ifm.muxSel = true) :
    ∃ w ws, (s.ifm.fifos s.ifm.muxSel).contents = w :: ws ∧ pay[p - 2]? = some w := by
  rw [h.rdreqs, decide_eq_true_eq] at hr
  have hget := h.next (p - 2) (by omega) (by omega)
  rw [List.getElem?_eq_getElem (by omega)] at hget
  cases hw : (s.ifm.fifos s.ifm.muxSel).contents with
  | nil => simp [hw] at hget
  | cons w ws =>
    refine ⟨w, ws, rfl, ?_⟩
    rw [List.getElem?_eq_getElem (by omega), hget, hw, List.head?_cons]

/-- An edge of the logic clock moves the words on. -/
theorem InFlight.step {pay : List Word} {p len : ℕ} {i : Input N} {s : State N}
    (h : InFlight pay p len s) (hc : i.clock = true) (hlen : pay.length = min (p - 1) len)
    (hreq : s.tx.fg.rdreqSig = decide (1 ≤ p ∧ p ≤ len))
    (hun : s.tx.fg.rdreqSig = true → unread s s.ifm.muxSel ≠ [])
    (hmux : (EthernetDataBlock.step c config i s).ifm.muxSel = s.ifm.muxSel) :
    InFlight (pay ++ requested s.ifm.muxSel i s) (p + 1) len (EthernetDataBlock.step c config i s)
    := by
  have hkeep : ∀ {k w}, pay[k]? = some w → (pay ++ requested s.ifm.muxSel i s)[k]? = some w :=
    fun hk => getElem?_of_isPrefix (List.prefix_append _ _) hk
  refine ⟨?_, fun k hk hp => ?_, fun k hk hp => ?_, fun k hk hp => ?_⟩
  · rw [hmux, step_rdreqs, if_pos hc, if_pos rfl, hreq, decide_eq_decide]
    omega
  · -- the word requested now is the next one of the FIFO
    have hr : s.tx.fg.rdreqSig = true := by
      rw [hreq, decide_eq_true_eq]
      omega
    obtain ⟨w, ws, hw⟩ := List.exists_cons_of_ne_nil (hun hr)
    rw [hmux, step_contents hc, hw, List.getElem?_append_right (by omega)]
    simp [requested, hc, hr, hw, show k - pay.length = 0 by omega]
  · have hr : s.ifm.rdreqs s.ifm.muxSel = true := by
      rw [h.rdreqs, decide_eq_true_eq]
      omega
    obtain ⟨w, ws, hw, hget⟩ := h.contents_ne hlen hr
    rw [show p - 2 = k by omega] at hget
    rw [hkeep hget, hmux]
    simp [EthernetDataBlock.step, ifmInput, hc, hr, Fifo.nextQ, hw]
  · rw [hkeep (h.fifoOuts k hk (by omega))]
    simp [EthernetDataBlock.step, ifmInput, hc]

/-- Between the edges of the logic clock the words stay where they are. -/
theorem InFlight.stay {pay : List Word} {p len : ℕ} {i : Input N} {s : State N}
    (h : InFlight pay p len s) (hc : i.clock = false) (hlen : pay.length = min (p - 1) len)
    (hmux : (EthernetDataBlock.step c config i s).ifm.muxSel = s.ifm.muxSel) :
    InFlight pay p len (EthernetDataBlock.step c config i s) := by
  refine ⟨?_, fun k hk hp => ?_, fun k hk hp => ?_, fun k hk hp => ?_⟩
  · rw [hmux, step_rdreqs, hc]
    exact h.rdreqs
  · have hr : s.ifm.rdreqs s.ifm.muxSel = true := by
      rw [h.rdreqs, decide_eq_true_eq]
      omega
    obtain ⟨w, ws, hw, hget⟩ := h.contents_ne hlen hr
    rw [show p - 2 = k by omega] at hget
    rw [hget, hmux, step_contents_of_not hc, hw]
    rfl
  · rw [h.fifoOuts k hk hp, hmux]
    simp [EthernetDataBlock.step, ifmInput, hc]
  · rw [h.dataOut k hk hp]
    simp [EthernetDataBlock.step, ifmInput, hc]

/-! ## The invariant -/

/-- Nothing is asked of the header words. -/
def anyHeader (_ : Fin N) (_ : ℕ) (_ : Word) : Prop := True

/-- The payload words the packets `ps` carry of stream `I`. -/
def sentOf (I : Fin N) (ps : List (Packet (Fin N))) : List Word :=
  (ps.filter fun p => p.tag = I).flatMap Packet.payload

/-- What has been sent is the packets `ps` and the beginning of one of stream
    `t`, of whose payload `pay` has been requested; `accepted` is what FIFO `I`
    has taken in. -/
structure Inv (c : FrameGenerator.Config) (config : Word) (I : Fin N) (accepted : List Word)
    (l : List (Beat × Fin N)) (ps : List (Packet (Fin N))) (t : Fin N) (pay : List Word)
    (s : State N) : Prop where
  control : Control s
  sends : Sends c config anyHeader (l.map Prod.fst) ps t pay s.tx
  labelled : Labelled Beat.eop l (ps.map Packet.tag) t
  current : Active s.tx → t = s.ifm.muxSel ∧
    s.tx.fg.payloadLength ≤ pay.length + (unread s s.ifm.muxSel).length
  stream : accepted = sentOf I ps ++ (if I = t then pay else []) ++ unread s I
  reading : ∀ J, s.ifm.rdreqs J = true → J = s.ifm.muxSel ∧
    ∃ sent, FrameGenerator.Reading c pay sent s.tx.fg
  flight : ∀ sent, FrameGenerator.Reading c pay sent s.tx.fg →
    InFlight pay (FrameGenerator.position c s.tx.fg) s.tx.fg.payloadLength s

theorem inv_reset [NeZero N] (k : ℤ) (I t : Fin N) : Inv c config I [] [] [] t [] (reset k) where
  control := Control.reset k
  sends := sends_reset t
  labelled := labelled_nil t
  current := by simp [Active, reset, Transmitter.reset, FrameGenerator.reset]
  stream := by simp [sentOf, unread, reset, InputFifoManager.reset]
  reading := by simp [reset, InputFifoManager.reset]
  flight := fun _ h => absurd rfl h.toInPayload.nextState_ne.1

section

variable {I : Fin N} {acc : List Word} {l : List (Beat × Fin N)} {ps : List (Packet (Fin N))}
  {t : Fin N} {pay : List Word} {i : Input N} {s : State N}

/-- A word asked for by a registered request is in its FIFO. -/
theorem Inv.contents_ne (h : Inv c config I acc l ps t pay s) (J : Fin N)
    (hr : s.ifm.rdreqs J = true) : (s.ifm.fifos J).contents ≠ [] := by
  obtain ⟨rfl, sent, hread⟩ := h.reading J hr
  obtain ⟨w, ws, hw, -⟩ := (h.flight sent hread).contents_ne hread.pay_length hr
  simp [hw]

/-- A word asked for by the frame generator is in the current FIFO. -/
theorem Inv.unread_ne (h : Inv c config I acc l ps t pay s) (hr : s.tx.fg.rdreqSig = true) :
    unread s s.ifm.muxSel ≠ [] := by
  rcases h.sends.reading with ⟨-, hr', -⟩ | ⟨sent, hread⟩
  · simp [hr'] at hr
  · have hact : Active s.tx := active_of_inPayload hread.toInPayload
    have hcur := (h.current hact).2
    have hlen := hread.pay_length
    rw [hread.rdreq, decide_eq_true_eq] at hr
    intro hnil
    rw [hnil, List.length_nil] at hcur
    omega

theorem Inv.conserve (h : Inv c config I acc l ps t pay s) (J : Fin N) :
    requested J i s ++ unread (step c config i s) J = unread s J ++ accepted J i s :=
  requested_append_unread (h.contents_ne J) h.unread_ne

/-- No word is requested while `rdreq` is low. -/
theorem Inv.conserve_of_not (h : Inv c config I acc l ps t pay s)
    (hr : s.tx.fg.rdreqSig = false ∨ i.clock = false) (J : Fin N) :
    unread (step c config i s) J = unread s J ++ accepted J i s := by
  have hreq : requested J i s = [] := by
    rcases hr with hr | hr <;> simp [requested, hr]
  rw [← h.conserve J, hreq, List.nil_append]

/-- Between the edges of the logic clock the FIFOs only take in words. -/
theorem Inv.stay (h : Inv c config I acc l ps t pay s) (hc : i.clock = false) :
    Inv c config I (acc ++ accepted I i s) l ps t pay (step c config i s) := by
  have htx : (step c config i s).tx = s.tx := by simp [step, hc]
  have hmux : (step c config i s).ifm.muxSel = s.ifm.muxSel := by simp [step, ifmInput, hc]
  have hrd : (step c config i s).ifm.rdreqs = s.ifm.rdreqs := by
    funext J
    rw [step_rdreqs, hc]
    rfl
  refine ⟨h.control.step, ?_, h.labelled, ?_, ?_, ?_, fun sent hread => ?_⟩
  · rw [htx]
    exact h.sends
  · rw [htx, hmux, h.conserve_of_not (.inr hc)]
    intro hact
    refine ⟨(h.current hact).1, (h.current hact).2.trans ?_⟩
    rw [List.length_append]
    omega
  · rw [h.conserve_of_not (.inr hc), h.stream, List.append_assoc]
  · rw [htx, hmux, hrd]
    exact h.reading
  · rw [htx] at hread ⊢
    exact (h.flight sent hread).stay hc hread.pay_length hmux

/-- An edge of the logic clock at which nothing is requested and after which the
    frame generator is not in a payload: what is left to show is about the
    packets. -/
theorem Inv.of_quiet (h : Inv c config I acc l ps t pay s) {ps' : List (Packet (Fin N))}
    {t' : Fin N} (hc : i.clock = true) (hrd : s.tx.fg.rdreqSig = false)
    (hsends : Sends c config anyHeader ((l ++ output i s).map Prod.fst) ps' t' []
      (step c config i s).tx)
    (hlabel : Labelled Beat.eop (l ++ output i s) (ps'.map Packet.tag) t')
    (hsent : sentOf I ps' = sentOf I ps ++ if I = t then pay else [])
    (hcur : Active (step c config i s).tx → t' = (step c config i s).ifm.muxSel ∧
      (step c config i s).tx.fg.payloadLength ≤
        (unread (step c config i s) (step c config i s).ifm.muxSel).length)
    (hnot : ¬ FrameGenerator.InPayload c (step c config i s).tx.fg) :
    Inv c config I (acc ++ accepted I i s) (l ++ output i s) ps' t' [] (step c config i s) where
  control := h.control.step
  sends := hsends
  labelled := hlabel
  current := by simpa using hcur
  stream := by
    rw [h.conserve_of_not (.inl hrd), h.stream, hsent]
    simp
  reading := by simp [step_rdreqs, hc, hrd]
  flight := fun _ hread => absurd hread.toInPayload hnot

theorem output_of_clock (hc : i.clock = true) :
    output i s = (written s.tx).map fun b => (b, s.ifm.muxSel) := by
  simp [output, hc]

theorem map_output (hc : i.clock = true) : (output i s).map Prod.fst = written s.tx := by
  simp [output_of_clock hc, Function.comp_def]

/-- Between packets. -/
theorem Inv.rest (h : Inv c config I acc l ps t pay s) (hc : i.clock = true)
    (hact : ¬ Active s.tx) (hi : s.tx.fg.nextState = .idle → s.ifm.payloadRdy = false) :
    Inv c config I (acc ++ accepted I i s) (l ++ output i s) ps t [] (step c config i s) := by
  obtain ⟨hs', hrest, hrest'⟩ := h.sends.hold (c := c) (i := txInput config i s) hact hi
  obtain ⟨-, -, rfl⟩ := h.sends.resting hact
  have htx : (step c config i s).tx = Transmitter.step c (txInput config i s) s.tx := by
    simp [step, hc]
  have hout : output i s = [] := by simp [output_of_clock hc, written, hrest.wrreq]
  refine h.of_quiet hc hrest.rdreq ?_ ?_ (by simp) ?_ ?_
  · rw [List.map_append, map_output hc, htx]
    exact hs'
  · rw [hout, List.append_nil]
    exact h.labelled
  · rw [htx]
    exact fun ha => absurd ha hrest'.not_active
  · rw [htx]
    exact fun hin => hrest'.not_active (active_of_inPayload hin)

/-- `payload_rdy` starts a packet of the current stream. -/
theorem Inv.start (h : Inv c config I acc l ps t pay s) (hc : i.clock = true)
    (hn : s.tx.fg.nextState = .idle) (hi : s.ifm.payloadRdy = true)
    (hcfg : HeaderGenerator.fNextState .idle config ≠ .done) (hrep : NeverOverReports i s) :
    Inv c config I (acc ++ accepted I i s) (l ++ output i s) ps s.ifm.muxSel []
      (step c config i s) := by
  obtain ⟨hs', rfl, hrest, hlen⟩ :=
    h.sends.start (c := c) (i := txInput config i s) hn hi hcfg s.ifm.muxSel
  obtain ⟨-, hopen, -⟩ := h.sends.resting hrest.not_active
  have htx : (step c config i s).tx = Transmitter.step c (txInput config i s) s.tx := by
    simp [step, hc]
  have hout : output i s = [] := by simp [output_of_clock hc, written, hrest.wrreq]
  have hmux : (step c config i s).ifm.muxSel = s.ifm.muxSel := by
    refine h.control.muxSel (.inr ?_)
    rw [fgBusy_tx i s hc, if_pos hn, hi]
  refine h.of_quiet hc hrest.rdreq ?_ ?_ (by simp) ?_ ?_
  · rw [List.map_append, map_output hc, htx]
    exact hs'
  · rw [hout, List.append_nil]
    refine h.labelled.relabel ?_ _
    rw [cut_map] at hopen
    exact List.map_eq_nil_iff.1 hopen
  · rw [htx, hmux, h.conserve_of_not (.inl hrest.rdreq), hlen, List.length_append]
    refine fun _ => ⟨rfl, ?_⟩
    have hrd : s.ifm.rdreqs s.ifm.muxSel = false := by
      by_contra hr
      obtain ⟨-, sent, hread⟩ := h.reading s.ifm.muxSel (by simpa using hr)
      exact hread.toInPayload.nextState_ne.1 hn
    have hrep : (i.rdusedw s.ifm.muxSel).toNat ≤ (unread s s.ifm.muxSel).length := by
      simpa [unread, hrd, ifmInput] using hrep s.ifm.muxSel
    exact (min_le_right _ _).trans (hrep.trans (Nat.le_add_right _ _))
  · intro hin
    refine hin.nextState_ne.2.2 ?_
    rw [htx]
    simp [Transmitter.step, FrameGenerator.step, FrameGenerator.stateMachine, fgInput, txInput, hn,
      hi]

/-- The word marked `eop` completes the packet. -/
theorem Inv.finish (h : Inv c config I acc l ps t pay s) (hc : i.clock = true)
    (hcrc : c.genCrc = false) (hdly : 2 ≤ c.fifoInDly.toNat) (he : s.tx.fg.eopSig = true) :
    ∃ p, Inv c config I (acc ++ accepted I i s) (l ++ output i s) (ps ++ [p]) t []
      (step c config i s) := by
  have hact : Active s.tx := by
    by_contra hact
    obtain ⟨hrest, -⟩ := h.sends.resting hact
    simp [hrest.eop] at he
  obtain ⟨hmux, -⟩ := h.current hact
  obtain ⟨hrd, -, hrest', p, htag, hpay, hs'⟩ :=
    h.sends.finish (i := txInput config i s) hcrc hdly he
  have htx : (step c config i s).tx = Transmitter.step c (txInput config i s) s.tx := by
    simp [step, hc]
  refine ⟨p, h.of_quiet hc hrd ?_ ?_ ?_ ?_ ?_⟩
  · rw [List.map_append, map_output hc, htx]
    exact hs'
  · rw [output_of_clock hc, h.sends.written_eop he, List.map_singleton, List.map_append,
      List.map_singleton, ← hmux, htag]
    exact h.labelled.concat_last rfl
  · by_cases hI : I = t
    · simp [sentOf, htag, hpay, hI]
    · simp [sentOf, htag, hI, Ne.symm hI]
  · rw [htx]
    exact fun ha => absurd ha hrest'.not_active
  · rw [htx]
    exact fun hin => hrest'.not_active (active_of_inPayload hin)

/-- Inside a packet, before its last word. -/
theorem Inv.advance (h : Inv c config I acc l ps t pay s) (hc : i.clock = true)
    (hcrc : c.genCrc = false) (hdly : c.fifoInDly = 5) (hact : Active s.tx)
    (he : s.tx.fg.eopSig = false) :
    Inv c config I (acc ++ accepted I i s) (l ++ output i s) ps t
      (pay ++ requested s.ifm.muxSel i s) (step c config i s) := by
  have hdly' : c.fifoInDly.toNat = 5 := by rw [hdly]; rfl
  obtain ⟨ht, hcur⟩ := h.current hact
  have htx : (step c config i s).tx = Transmitter.step c (txInput config i s) s.tx := by
    simp [step, hc]
  have hmux : (step c config i s).ifm.muxSel = s.ifm.muxSel := by
    refine h.control.muxSel (.inl ?_)
    by_contra hb
    exact hact.1 (h.control.busy (by simpa using hb))
  have hs' := h.sends.advance (i := txInput config i s)
    hcrc (by omega) rfl hact he (fun _ _ => trivial) (requested_length hc h.unread_ne) <| by
      intro sent hread k hk hp
      rw [hdly'] at hp
      exact getElem?_of_isPrefix (List.prefix_append _ _)
        ((h.flight sent hread).dataOut k hk (by omega))
  have hlen : (step c config i s).tx.fg.payloadLength = s.tx.fg.payloadLength := by
    rw [htx]
    exact FrameGenerator.payloadLength_step hact.1
  have hcons := h.conserve (i := i) s.ifm.muxSel
  refine ⟨h.control.step, ?_, ?_, fun _ => ⟨ht.trans hmux.symm, ?_⟩, ?_, fun J hJ => ?_,
    fun sent hread => ?_⟩
  · rw [List.map_append, map_output hc, htx]
    exact hs'
  · rw [output_of_clock hc, ← ht, written]
    split_ifs
    · exact h.labelled.concat_open he
    · simpa using h.labelled
  · have := congrArg List.length hcons
    rw [List.length_append, List.length_append] at this
    rw [hmux, hlen, List.length_append]
    omega
  · rw [h.stream, List.append_assoc _ _ (accepted I i s), ← h.conserve I, ← ht]
    by_cases hI : I = t
    · simp [hI]
    · have hreq : requested I i s = [] := by simp [requested, ← ht, hI]
      simp [hI, hreq]
  · -- a registered request was made by `rdreq`, so a word has been read
    rw [step_rdreqs, if_pos hc] at hJ
    have hJm : J = s.ifm.muxSel := by
      by_contra hne
      simp [hne] at hJ
    rw [if_pos hJm] at hJ
    refine ⟨hJm.trans hmux.symm, ?_⟩
    rw [htx]
    refine hs'.reading.resolve_left ?_
    rintro ⟨hnil, -⟩
    have := requested_length hc h.unread_ne
    rw [(List.append_eq_nil_iff.1 hnil).2, hJ] at this
    simp at this
  · rw [hlen]
    rcases h.sends.reading with ⟨hpay, hrd, hhead⟩ | ⟨sent', hread'⟩
    · -- the payload begins: nothing is under way
      obtain ⟨hn, hd⟩ := hhead hact he
      have hp : FrameGenerator.position c (step c config i s).tx.fg = 0 := by
        have hw : (step c config i s).tx.fg.nextState = .payloadWait := by
          have := hread.phase
          rw [htx] at this ⊢
          simp only [Transmitter.step, FrameGenerator.step, FrameGenerator.stateMachine, hn]
            at this ⊢
          split_ifs at this ⊢ <;> simp_all
        rw [FrameGenerator.position, hw, htx]
        simp [Transmitter.step, FrameGenerator.step, FrameGenerator.stateMachine, hn, hd]
      rw [hp]
      refine ⟨?_, fun k _ hk => by omega, fun k _ hk => by omega, fun k _ hk => by omega⟩
      rw [hmux, step_rdreqs, if_pos hc, if_pos rfl, hrd]
      simp
    · have hl : FrameGenerator.position c s.tx.fg < c.fifoInDly.toNat + s.tx.fg.payloadLength := by
        have hle := hread'.position_le
        rw [hread'.eop, decide_eq_false_iff_not] at he
        omega
      have hp : FrameGenerator.position c (step c config i s).tx.fg =
          FrameGenerator.position c s.tx.fg + 1 := by
        rw [htx]
        exact (hread'.toInPayload.step hl).2.1
      rw [hp]
      exact (h.flight sent' hread').step hc hread'.pay_length hread'.rdreq h.unread_ne hmux

/-- An event keeps the invariant. -/
theorem inv_step (hcrc : c.genCrc = false) (hdly : c.fifoInDly = 5)
    (hcfg : HeaderGenerator.fNextState .idle config ≠ .done)
    (h : Inv c config I acc l ps t pay s) (hrep : NeverOverReports i s) :
    ∃ ps' t' pay', Inv c config I (acc ++ accepted I i s) (l ++ output i s) ps' t' pay'
      (step c config i s) := by
  have hdly' : 2 ≤ c.fifoInDly.toNat := by rw [hdly]; decide
  cases hc : i.clock
  · have hout : output i s = [] := by simp [output, hc]
    rw [hout, List.append_nil]
    exact ⟨ps, t, pay, h.stay hc⟩
  · by_cases hact : Active s.tx
    · cases he : s.tx.fg.eopSig
      · exact ⟨ps, t, _, h.advance hc hcrc hdly hact he⟩
      · obtain ⟨p, h'⟩ := h.finish hc hcrc hdly' he
        exact ⟨ps ++ [p], t, [], h'⟩
    · by_cases hgo : s.tx.fg.nextState = .idle ∧ s.ifm.payloadRdy = true
      · exact ⟨ps, _, [], h.start hc hgo.1 hgo.2 hcfg hrep⟩
      · exact ⟨ps, t, [], h.rest hc hact fun hn => by simpa [hn] using hgo⟩

end

/-- The invariant holds after every run. -/
theorem inv_run [NeZero N] (hcrc : c.genCrc = false) (hdly : c.fifoInDly = 5)
    (hcfg : HeaderGenerator.fNextState .idle config ≠ .done) (I : Fin N) {k : ℤ}
    {is : List (Input N)} (hrep : Along (step c config) NeverOverReports (reset k) is) :
    ∃ ps t pay, Inv c config I (log (step c config) (accepted I) (reset k) is)
      (log (step c config) output (reset k) is) ps t pay (run (step c config) (reset k) is) := by
  refine log₂_invariant (R := NeverOverReports)
    (I := fun acc l s => ∃ ps t pay, Inv c config I acc l ps t pay s) (step c config)
    ⟨[], 0, [], inv_reset k I 0⟩ ?_ hrep
  rintro acc l i s hi ⟨ps, t, pay, h⟩
  exact inv_step hcrc hdly hcfg h hi

/-! ## The frames -/

/-- The words of a frame that follow the 11 header words. -/
def payload (f : List (Beat × Fin N)) : List Word := (f.map fun b => b.1.data).drop 11

/-- The frames sent while `curr_fifo` is `I`. -/
def framesOf (I : Fin N) (fs : List (List (Beat × Fin N))) : List (List (Beat × Fin N)) :=
  fs.filter fun f => f.all fun b => b.2 = I

/-- Frames with the words and the labels of valid packets carry their payloads. -/
theorem framesOf_payload (hcfg : HeaderGenerator.headerWords config = 11) (I : Fin N)
    {fs : List (List (Beat × Fin N))} {ps : List (Packet (Fin N))}
    (hlabel : List.Forall₂ (fun f t => ∀ x ∈ f, x.2 = t) fs (ps.map Packet.tag))
    (hwords : fs.map (List.map fun b => b.1.data) = ps.map Packet.words)
    (hvalid : ∀ p ∈ ps, p.Valid c config anyHeader) :
    (framesOf I fs).flatMap payload = sentOf I ps := by
  induction ps generalizing fs with
  | nil =>
    obtain rfl := List.forall₂_nil_right_iff.1 hlabel
    rfl
  | cons p ps ih =>
    cases hlabel with
    | cons hf hfs =>
      rename_i f fs
      obtain ⟨hw, hws⟩ := List.cons.inj hwords
      have hrest := ih hfs hws fun q hq => hvalid q (List.mem_cons_of_mem p hq)
      have hheader : p.header.length = 11 :=
        (hvalid p List.mem_cons_self).header_length.trans hcfg
      have hpay : payload f = p.payload := by
        rw [payload, hw, Packet.words, List.drop_left' hheader]
      have hall : (f.all fun b => b.2 = I) = decide (p.tag = I) := by
        obtain ⟨b, hb⟩ : ∃ b, b ∈ f := by
          refine List.exists_mem_of_ne_nil f ?_
          rintro rfl
          have := congrArg List.length hw
          simp [Packet.words, hheader] at this
          omega
        rw [Bool.eq_iff_iff, List.all_eq_true, decide_eq_true_eq]
        exact ⟨fun ha => hf b hb ▸ of_decide_eq_true (ha b hb),
          fun ht x hx => decide_eq_true ((hf x hx).trans ht)⟩
      rw [framesOf, List.filter_cons, hall, sentOf, List.filter_cons]
      by_cases ht : p.tag = I
      · simpa [ht, hpay, framesOf, sentOf] using hrest
      · simpa [ht, framesOf, sentOf] using hrest

/-- What the packet in progress carries of stream `I` has been requested. -/
theorem Inv.open_payload {I : Fin N} {acc : List Word} {l : List (Beat × Fin N)}
    {ps : List (Packet (Fin N))} {t : Fin N} {pay : List Word} {s : State N}
    (h : Inv c config I acc l ps t pay s) (hcfg : HeaderGenerator.headerWords config = 11) :
    (framesOf I [(cut (Beat.eop ∘ Prod.fst) l).2]).flatMap payload <+:
      if I = t then pay else [] := by
  have hpre := h.sends.open_payload.1
  have hrest := h.labelled.rest
  rw [cut_map, hcfg] at hpre
  generalize (cut (Beat.eop ∘ Prod.fst) l).2 = o at hpre hrest
  have hpre : payload o <+: pay := by simpa [payload, Function.comp_def] using hpre
  cases o with
  | nil =>
    rw [show (framesOf I [([] : List (Beat × Fin N))]).flatMap payload = [] from rfl]
    exact List.nil_prefix
  | cons b o =>
    have ht : b.2 = t := hrest b List.mem_cons_self
    by_cases hI : I = t
    · rw [if_pos hI, framesOf, List.filter_cons]
      split_ifs
      · simpa using hpre
      · simp
    · simp [framesOf, ht, Ne.symm hI]

/-- The multiplexer never moves while the frame generator is busy or becomes
    busy. Every frame is sent with one value of `curr_fifo`, and the payloads of
    the frames sent for a stream, the one in progress included, are a prefix of
    the words its FIFO has accepted. -/
theorem stream_payloads [NeZero N] (hcrc : c.genCrc = false) (hdly : c.fifoInDly = 5)
    (hcfg : HeaderGenerator.IsUdpConfig config) (k : ℤ) :
    (∀ (is : List (Input N)) (i : Input N),
      (run (step c config) (reset k) is).tx.fg.fgBusy = true ∨
        (step c config i (run (step c config) (reset k) is)).tx.fg.fgBusy = true →
      (step c config i (run (step c config) (reset k) is)).ifm.muxSel =
        (run (step c config) (reset k) is).ifm.muxSel) ∧
    ∀ is : List (Input N), Along (step c config) NeverOverReports (reset k) is →
      let frames := cut (Beat.eop ∘ Prod.fst) (log (step c config) output (reset k) is)
      (∀ f ∈ frames.1 ++ [frames.2], ∃ I, ∀ b ∈ f, b.2 = I) ∧
      ∀ I, (framesOf I (frames.1 ++ [frames.2])).flatMap payload <+:
        log (step c config) (accepted I) (reset k) is := by
  have hhead := hcfg.headerWords
  refine ⟨fun is i hb => ?_, fun is hrep => ⟨fun f hf => ?_, fun I => ?_⟩⟩
  · have hctrl : Control (run (step c config) (reset k) is) :=
      run_invariant (R := fun _ _ => True) (step c config) (Control.reset k)
        (fun _ _ _ h => h.step) (along_of_forall _ (P := fun _ => True) (by simp))
    exact hctrl.muxSel hb
  · obtain ⟨ps, t, pay, h⟩ := inv_run hcrc hdly hcfg.fNextState 0 hrep
    exact h.labelled.exists_label hf
  · obtain ⟨ps, t, pay, h⟩ := inv_run hcrc hdly hcfg.fNextState I hrep
    have hwords := h.sends.sent
    rw [cut_map, List.map_map] at hwords
    have hfin := framesOf_payload hhead I h.labelled.frames
      (by simpa [Function.comp_def] using hwords) h.sends.valid
    rw [framesOf, List.filter_append, List.flatMap_append, ← framesOf, ← framesOf, hfin, h.stream,
      List.append_assoc]
    exact (List.prefix_append_right_inj _).2 ((h.open_payload hhead).trans (List.prefix_append _ _))

/-- An edge of all clocks, with `w` written into FIFO `I` when there is one, and
    every FIFO reporting `n` words. -/
def sampleEdge (w : Option (Fin 2 × Word)) (n : BitVec 11) : Input 2 where
  clock := true
  wrclks := fun _ => true
  wrreqs := fun I => w.any fun x => x.1 = I
  dataIn := fun _ => (w.map Prod.snd).getD 0
  rdusedw := fun I => if I = 1 then n else 0
  txReady := true
  ifmFlags := fun _ => 0b11
  ifmPayloadSize := fun _ => 1
  sourceMacAddr := 0xEE1122334455
  destMacAddr := 0x6CB311517434
  sourceIpAddr := 0xC0A80003
  destIpAddr := 0xC0A80001
  baseUdpPort := 0x1000

/-- The generics `ethernet_block` gives. -/
def sampleConfig : FrameGenerator.Config where
  payloadMaxLen := 300
  fifoInDly := 5
  fifoOutDly := 0
  genCrc := false

/-- Two words for stream 1 and one for stream 0, and time to send a frame. -/
def sample : List (Input 2) :=
  [sampleEdge (some (1, 0xCAFE)) 0, sampleEdge (some (0, 0x1)) 0, sampleEdge (some (1, 0xBEEF)) 0,
    sampleEdge none 0] ++ List.replicate 5 (sampleEdge none 2) ++
    List.replicate 25 (sampleEdge none 0)

theorem stream_payloads_sample :
    let frames := cut (Beat.eop ∘ Prod.fst)
      (log (step sampleConfig 0x00000007) output (reset (-1)) sample)
    (framesOf 1 (frames.1 ++ [frames.2])).flatMap payload = [0xCAFE, 0xBEEF] ∧
      (framesOf 1 (frames.1 ++ [frames.2])).flatMap payload <+:
        log (step sampleConfig 0x00000007) (accepted 1) (reset (-1)) sample :=
  ⟨by decide +kernel, ((stream_payloads rfl rfl (by decide) (-1)).2 sample
    (by decide +kernel)).2 1⟩

end EthernetDataBlock

end FpgaEthernet
