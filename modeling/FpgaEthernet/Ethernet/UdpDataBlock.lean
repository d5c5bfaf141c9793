import FpgaEthernet.Ethernet.Transmitter
import FpgaEthernet.Ethernet.UdpDataBuffer

/-!
# `udp_data_block`

Model of `ethernet/udp_data_block.vhd` with `wrclock = rdclock`: the data buffer,
a frame generator and a header generator for UDP packets.

Main results:

* `inv_step`: the packets sent, the packets waiting in the buffer and the words
  of the packet not yet closed are the words accepted, in order.
* `frames_carry_input`: the payloads of the frames, each word with the
  destination port in its frame's UDP header, are a prefix of the words and
  ports written, and every frame has between 1 and 350 payload words.
-/

namespace FpgaEthernet.UdpDataBlock

open Clocked Transmitter

/-! ## Model -/

/-- The input ports (`udp_data_block.vhd` lines 42-75). -/
structure Input where
  dataIn : Word
  dataValidIn : Bool
  dataPortIn : UdpPort
  dataEopIn : Bool
  txReady : Bool
  sourceMacAddr : MacAddr
  destMacAddr : MacAddr
  sourceIpAddr : IpAddr
  destIpAddr : IpAddr
  deriving DecidableEq

/-- The buffer, and the header generator and frame generator. -/
structure State where
  buffer : UdpDataBuffer.State
  tx : Transmitter.State
  deriving DecidableEq

/-- The constant ports of the frame generator (lines 167-170). -/
def fgConfig : FrameGenerator.Config where
  payloadMaxLen := BitVec.allOnes 9
  fifoInDly := 3
  fifoOutDly := 0
  genCrc := false

/-- The constant `config` (line 176). -/
def config : Word := 0x00000007

/-- The header parameters (lines 174-177, 190-191, 256-258). -/
def fields (i : Input) (s : State) : HeaderGenerator.Fields where
  protocol := 0x11
  appHeader := 0x00123456
  config := config
  sourceMacAddr := i.sourceMacAddr
  destMacAddr := i.destMacAddr
  etherType := 0x0800
  sourceIp := i.sourceIpAddr
  destIp := i.destIpAddr
  sourcePort := UdpDataBuffer.dataPortOut s.buffer
  destPort := UdpDataBuffer.dataPortOut s.buffer

/-- The inputs of the buffer (lines 196-211). -/
def bufferInput (i : Input) (s : State) : UdpDataBuffer.Input where
  dataIn := i.dataIn
  dataValidIn := i.dataValidIn
  dataPortIn := i.dataPortIn
  dataRdreq := s.tx.fg.rdreqSig
  dataEopIn := i.dataEopIn
  packetFinished := s.tx.fg.eopSig

/-- The inputs of the frame generator and the header generator (lines
    193-194). -/
def txInput (i : Input) (s : State) : Transmitter.Input where
  fields := fields i s
  dataIn := s.buffer.dataOut
  usedwIn := (0#2 ++ UdpDataBuffer.payloadLen s.buffer : BitVec 11)
  payloadRdy := UdpDataBuffer.payloadRdy s.buffer && i.txReady

/-- One clock edge. -/
def step (i : Input) (s : State) : State where
  buffer := UdpDataBuffer.step (bufferInput i s) s.buffer
  tx := Transmitter.step fgConfig (txInput i s) s.tx

/-- The registers when reset is released. -/
def reset : State where
  buffer := UdpDataBuffer.reset
  tx := Transmitter.reset

/-- What is put on the outputs at an edge: `dval`, `data_out`, `sop`, `eop`. -/
def output (_ : Input) (s : State) : List Beat := written s.tx

/-- The word and port written into the block at an edge. -/
def presented (i : Input) (_ : State) : List (Word × UdpPort) :=
  if i.dataValidIn then [(i.dataIn, i.dataPortIn)] else []

/-- Neither FIFO of the buffer overflows at this edge. -/
def NoOverflow (i : Input) (s : State) : Prop :=
  UdpDataBuffer.NoOverflow (bufferInput i s) s.buffer

instance (i : Input) (s : State) : Decidable (NoOverflow i s) := by
  unfold NoOverflow
  infer_instance

/-- The payload words of a frame, which follow the 11 header words, each with
    the destination port in the UDP header, the low half of word 9. -/
def carried (f : List Word) : List (Word × UdpPort) :=
  (f.drop 11).map fun w => (w, lo (f.getD 9 0))

/-! ## Announcements -/

@[simp] theorem lo_infoWord (n : ℕ) (p : UdpPort) : lo (UdpDataBuffer.infoWord n p) = p :=
  lo_append _ _

theorem length_infoWord {n : ℕ} (p : UdpPort) (h : n < 512) :
    ((UdpDataBuffer.infoWord n p).extractLsb' 16 9).toNat = n := by
  have hlt := p.isLt
  rw [UdpDataBuffer.infoWord, BitVec.extractLsb'_toNat, BitVec.toNat_append,
    ← Nat.shiftLeft_add_eq_or_of_lt hlt, Nat.shiftLeft_eq, BitVec.toNat_ofNat,
    Nat.shiftRight_eq_div_pow]
  omega

/-- A non-empty info FIFO shows the announcement of the first waiting packet. -/
theorem infoOut_eq {accepted : List (Word × UdpPort)} {gone waiting : List (UdpPort × List Word)}
    {cur pay : List Word} {s : UdpDataBuffer.State}
    (h : UdpDataBuffer.Buffers accepted gone waiting cur pay s) (hne : s.infoFifo.contents ≠ []) :
    ∃ q rest, waiting = q :: rest ∧ UdpDataBuffer.dataPortOut s = q.1 ∧
      (UdpDataBuffer.payloadLen s).toNat = q.2.length := by
  obtain ⟨w, ws, hc⟩ := List.exists_cons_of_ne_nil hne
  cases waiting with
  | nil => simpa [UdpDataBuffer.announced, hc] using h.announced_eq
  | cons q rest =>
    have hw : w = UdpDataBuffer.announce q := by
      have := h.announced_eq
      rw [UdpDataBuffer.announced, hc] at this
      exact (List.cons.inj this).1.symm
    have hlen := (h.lengths q (by simp)).2
    unfold UdpDataBuffer.maxPacketLength at hlen
    refine ⟨q, rest, rfl, ?_, ?_⟩
    · simp [UdpDataBuffer.dataPortOut, UdpDataBuffer.infoOut, hc, hw, UdpDataBuffer.announce]
    · simp only [UdpDataBuffer.payloadLen, UdpDataBuffer.infoOut, hc, hw, List.headD_cons]
      exact length_infoWord q.1 (by omega)

/-! ## The invariant -/

/-- The word a UDP header has at place 9: the port twice. -/
def headerOk (t : UdpPort) (k : ℕ) (w : Word) : Prop := k = 9 → w = (t ++ t : BitVec 32)

/-- A packet as the buffer sees it. -/
def queued (p : Packet UdpPort) : UdpPort × List Word := (p.tag, p.payload)

/-- The packets sent are those the buffer has moved past, and a packet in
    progress is the first waiting one. -/
structure Inv (accepted : List (Word × UdpPort)) (l : List Beat) (ps : List (Packet UdpPort))
    (t : UdpPort) (pay : List Word) (waiting : List (UdpPort × List Word)) (cur : List Word)
    (s : State) : Prop where
  buffers : UdpDataBuffer.Buffers accepted (ps.map queued) waiting cur pay s.buffer
  sends : Sends fgConfig config headerOk l ps t pay s.tx
  current : Active s.tx → s.buffer.infoFifo.contents ≠ [] ∧ ∃ q rest, waiting = q :: rest ∧
    t = q.1 ∧ s.tx.fg.payloadLength = q.2.length

theorem inv_reset : Inv [] [] [] 0 [] [] [] reset where
  buffers := UdpDataBuffer.buffers_reset
  sends := sends_reset 0
  current := by simp [Active, reset, Transmitter.reset, FrameGenerator.reset]

/-- Only `UDP0` emits the header word at place 9, and it holds the port at the
    head of the info FIFO. -/
theorem emits_port {i : Input} {s : State} {t : UdpPort}
    (ht : UdpDataBuffer.dataPortOut s.buffer = t) :
    Emits config headerOk t (txInput i s) s.tx := by
  intro _ hv hk
  cases hn : s.tx.hg.nextState <;> simp [hn, HeaderGenerator.position, config,
    HeaderGenerator.headerWords] at hk
  simp [HeaderGenerator.stateMachine, hn, hgInput, txInput, fields, ht]

/-- An edge keeps the invariant. -/
theorem inv_step {accepted : List (Word × UdpPort)} {l : List Beat} {ps : List (Packet UdpPort)}
    {t : UdpPort} {pay : List Word} {waiting : List (UdpPort × List Word)} {cur : List Word}
    {i : Input} {s : State} (h : Inv accepted l ps t pay waiting cur s)
    (heop : i.dataEopIn = false) (hov : NoOverflow i s) :
    ∃ ps' t' pay' waiting' cur', Inv (accepted ++ presented i s) (l ++ output i s) ps' t' pay'
      waiting' cur' (step i s) := by
  obtain ⟨hb, hs, hcur⟩ := h
  have hkeep : s.tx.fg.eopSig = false → s.buffer.infoFifo.contents ≠ [] →
      (step i s).buffer.infoFifo.contents ≠ [] := by
    intro he hne
    simp [step, UdpDataBuffer.step, bufferInput, he, hne]
  by_cases hact : Active s.tx
  · obtain ⟨hinfo, q, rest, rfl, rfl, hlen⟩ := hcur hact
    cases he : s.tx.fg.eopSig
    · -- inside a packet
      have hport : UdpDataBuffer.dataPortOut s.buffer = q.1 := by
        obtain ⟨_, _, hw, hp, -⟩ := infoOut_eq hb hinfo
        rw [hp, (List.cons.inj hw).1]
      have hrd : s.tx.fg.rdreqSig = true → s.buffer.dataFifo.contents ≠ [] := by
        intro hr hempty
        have hdata := congrArg List.length hb.data
        rcases hs.reading with ⟨-, hr', -⟩ | ⟨sent, hread⟩
        · simp [hr'] at hr
        · have hpos : 1 ≤ FrameGenerator.position fgConfig s.tx.fg ∧
              FrameGenerator.position fgConfig s.tx.fg ≤ s.tx.fg.payloadLength := by
            simpa [hread.rdreq] using hr
          have hpl := hread.pay_length
          simp [hempty] at hdata
          omega
      obtain ⟨new, cur', hb'⟩ := hb.advance (i := bufferInput i s) heop hov he hrd
      refine ⟨ps, q.1, _, _, cur', hb', ?_, fun _ => ⟨hkeep he hinfo, q, rest ++ new, rfl, rfl, ?_⟩⟩
      · refine hs.advance rfl (by decide) rfl hact he (emits_port hport) ?_ fun sent hread =>
          hread.answers_of_getLast rfl hb.dataOut
        show (s.buffer.dataFifo.taken s.tx.fg.rdreqSig).length = _
        cases hr : s.tx.fg.rdreqSig
        · simp
        · exact Fifo.taken_length _ (hrd hr)
      · exact (FrameGenerator.payloadLength_step hact.1).trans hlen
    · -- the last word of a packet
      obtain ⟨hr, hpay, hrest, p, htag, hpayload, hs'⟩ := hs.finish rfl (by decide) he
      have hq : pay = q.2 := by
        have hdata := hb.data
        rw [List.flatMap_cons, List.append_assoc] at hdata
        exact (List.append_inj hdata (hpay.trans hlen)).1
      subst hq
      obtain ⟨new, cur', hb'⟩ := hb.pop (i := bufferInput i s) heop hov he hr hinfo
      refine ⟨ps ++ [p], q.1, [], rest ++ new, cur', ?_, hs', fun ha => absurd ha hrest.not_active⟩
      have hpq : queued p = q := by simp [queued, htag, hpayload]
      rw [List.map_append, List.map_singleton, hpq]
      exact hb'
  · by_cases hgo : s.tx.fg.nextState = .idle ∧ (txInput i s).payloadRdy = true
    · -- the start of a packet
      have hinfo : s.buffer.infoFifo.contents ≠ [] := by
        have := hgo.2
        simp only [txInput, UdpDataBuffer.payloadRdy, Bool.and_eq_true] at this
        simpa using this.1
      obtain ⟨q, rest, rfl, hport, hlen⟩ := infoOut_eq hb hinfo
      have hused : (txInput i s).usedwIn.toNat = q.2.length := by
        rw [txInput, BitVec.toNat_append, hlen]
        simp
      have hq := hb.lengths q (by simp)
      obtain ⟨hs', rfl, hrest, hlen'⟩ := hs.start (c := fgConfig) hgo.1 hgo.2 (by decide) q.1
      obtain ⟨new, cur', hb'⟩ := hb.advance (i := bufferInput i s) heop hov hrest.eop
        (by simp [bufferInput, hrest.rdreq])
      have hnil : s.buffer.dataFifo.taken (bufferInput i s).dataRdreq = [] := by
        simp [bufferInput, hrest.rdreq]
      rw [hnil] at hb'
      refine ⟨ps, q.1, [], _, cur', hb', hs', fun _ => ⟨hkeep hrest.eop hinfo, q, rest ++ new, rfl,
        rfl, hlen'.trans ?_⟩⟩
      unfold UdpDataBuffer.maxPacketLength at hq
      rw [hused, show fgConfig.payloadMaxLen.toNat = 511 from rfl]
      omega
    · -- between packets
      have hidle : s.tx.fg.nextState = .idle → (txInput i s).payloadRdy = false := fun hi => by
        simpa [hi] using hgo
      obtain ⟨hs', hrest, hrest'⟩ := hs.hold (c := fgConfig) hact hidle
      obtain ⟨new, cur', hb'⟩ := hb.advance (i := bufferInput i s) heop hov hrest.eop
        (by simp [bufferInput, hrest.rdreq])
      have hnil : s.buffer.dataFifo.taken (bufferInput i s).dataRdreq = [] := by
        simp [bufferInput, hrest.rdreq]
      rw [hnil, List.append_nil] at hb'
      exact ⟨ps, t, pay, _, cur', hb', hs', fun ha => absurd ha hrest'.not_active⟩

/-- The invariant holds after every run without overflow. -/
theorem inv_run {is : List Input} (heop : ∀ i ∈ is, i.dataEopIn = false)
    (hov : Along step NoOverflow reset is) :
    ∃ ps t pay waiting cur, Inv (log step presented reset is) (log step output reset is) ps t pay
      waiting cur (run step reset is) := by
  refine log₂_invariant (R := fun i s => i.dataEopIn = false ∧ NoOverflow i s)
    (I := fun acc l s => ∃ ps t pay waiting cur, Inv acc l ps t pay waiting cur s) step
    ⟨_, _, _, _, _, inv_reset⟩ ?_ ((along_of_forall step heop).and step hov)
  rintro acc l i s ⟨he, ho⟩ ⟨ps, t, pay, waiting, cur, h⟩
  exact inv_step h he ho

/-! ## The frames -/

/-- A valid packet is a frame that carries its payload, with its tag as the
    destination port. -/
theorem carried_words {p : Packet UdpPort} (h : p.Valid fgConfig config headerOk) :
    carried p.words = UdpDataBuffer.tagged (queued p) := by
  have hlen : p.header.length = 11 := h.header_length
  have hget : p.header[9]? = some (p.tag ++ p.tag : BitVec 32) := by
    rw [List.getElem?_eq_getElem (by omega),
      h.header_ok 9 _ (List.getElem?_eq_getElem (by omega)) rfl]
  have hport : p.words.getD 9 0 = (p.tag ++ p.tag : BitVec 32) := by
    rw [List.getD_eq_getElem?_getD, Packet.words, List.getElem?_append_left (by omega), hget]
    rfl
  rw [carried, hport, Packet.words, List.drop_left' hlen, lo_append]
  rfl

/-- The packet in progress carries a beginning of its payload. -/
theorem Inv.carried_open {accepted : List (Word × UdpPort)} {l : List Beat}
    {ps : List (Packet UdpPort)} {t : UdpPort} {pay : List Word}
    {waiting : List (UdpPort × List Word)} {cur : List Word} {s : State}
    (h : Inv accepted l ps t pay waiting cur s) :
    carried ((cut Beat.eop l).2.map Beat.data) <+: waiting.flatMap UdpDataBuffer.tagged := by
  obtain ⟨hpre, hok⟩ := h.sends.open_payload
  generalize (cut Beat.eop l).2.map Beat.data = o at hpre hok
  rw [show HeaderGenerator.headerWords config = 11 from rfl] at hpre hok
  by_cases hlen : o.length ≤ 11
  · rw [carried, List.drop_eq_nil_of_le hlen]
    exact List.nil_prefix
  · have hget : o[9]? = some (t ++ t : BitVec 32) := by
      rw [List.getElem?_eq_getElem (by omega),
        hok 9 (by omega) _ (List.getElem?_eq_getElem (by omega)) rfl]
    have hpay : pay ≠ [] := by
      rintro rfl
      have := hpre.length_le
      rw [List.length_drop, List.length_nil] at this
      omega
    obtain ⟨sent, hread⟩ := h.sends.reading.resolve_left fun hn => hpay hn.1
    have hact : Active s.tx := active_of_inPayload hread.toInPayload
    obtain ⟨-, q, rest, rfl, rfl, hl⟩ := h.current hact
    have hq : pay <+: q.2 := by
      have hdata : pay <+: q.2 ++ (rest.flatMap Prod.snd ++ cur) := by
        rw [← List.append_assoc, ← List.flatMap_cons, ← h.buffers.data]
        exact List.prefix_append _ _
      refine List.prefix_of_prefix_length_le hdata (List.prefix_append _ _) ?_
      rw [hread.pay_length, ← hl]
      exact min_le_right _ _
    rw [carried, List.getD_eq_getElem?_getD, hget, Option.getD_some, lo_append,
      List.flatMap_cons]
    exact ((hpre.trans hq).map _).trans (List.prefix_append _ _)

/-- The payloads of the frames put on the outputs, the one in progress
    included, are a prefix of the words written, and each word was written with
    the destination port in its frame's UDP header. Every frame has between 1
    and 350 payload words. -/
theorem frames_carry_input (is : List Input) (heop : ∀ i ∈ is, i.dataEopIn = false)
    (hov : Along step NoOverflow reset is) :
    ((cut Beat.eop (log step output reset is)).1 ++
        [(cut Beat.eop (log step output reset is)).2]).flatMap
      (fun f => carried (f.map Beat.data)) <+: log step presented reset is ∧
    ∀ f ∈ (cut Beat.eop (log step output reset is)).1,
      1 ≤ ((f.map Beat.data).drop 11).length ∧ ((f.map Beat.data).drop 11).length ≤ 350 := by
  obtain ⟨ps, t, pay, waiting, cur, h⟩ := inv_run heop hov
  have hopen := h.carried_open
  have hsent := h.sends.sent
  generalize cut Beat.eop (log step output reset is) = c at hopen hsent ⊢
  refine ⟨?_, fun f hf => ?_⟩
  · have hfin : c.1.flatMap (fun f => carried (f.map Beat.data)) =
        (ps.map queued).flatMap UdpDataBuffer.tagged := by
      rw [← List.flatMap_map (List.map Beat.data), hsent, List.flatMap_map, List.flatMap_map]
      exact List.flatMap_congr fun p hp => carried_words (h.sends.valid p hp)
    rw [List.flatMap_append, hfin, List.flatMap_singleton, h.buffers.accepted_eq,
      List.append_assoc]
    exact (List.prefix_append_right_inj _).2 (hopen.trans (List.prefix_append _ _))
  · have hmem : f.map Beat.data ∈ ps.map Packet.words := hsent ▸ List.mem_map_of_mem hf
    obtain ⟨p, hp, hw⟩ := List.mem_map.1 hmem
    have hlen : p.header.length = 11 := (h.sends.valid p hp).header_length
    rw [← hw, Packet.words, List.drop_left' hlen]
    exact h.buffers.lengths (queued p) (List.mem_append_left _ (List.mem_map_of_mem hp))

/-- An edge at which word `w` is written for port `p`. -/
def writes (w : Word) (p : UdpPort) : Input where
  dataIn := w
  dataValidIn := true
  dataPortIn := p
  dataEopIn := false
  txReady := true
  sourceMacAddr := 0xEE1122334455
  destMacAddr := 0x6CB311517434
  sourceIpAddr := 0xC0A80003
  destIpAddr := 0xC0A80001

/-- Two words for one port and one for another, and time to send a frame. -/
def sample : List Input :=
  [writes 0xCAFE 0x3000, writes 0xBEEF 0x3000, writes 0x1 0x4000] ++
    List.replicate 27 { writes 0 0 with dataValidIn := false }

theorem frames_carry_input_sample :
    ((cut Beat.eop (log step output reset sample)).1.map fun f => carried (f.map Beat.data)) =
      [[(0xCAFE, 0x3000), (0xBEEF, 0x3000)]] ∧
    ((cut Beat.eop (log step output reset sample)).1 ++
        [(cut Beat.eop (log step output reset sample)).2]).flatMap
      (fun f => carried (f.map Beat.data)) <+: log step presented reset sample ∧
    ∀ f ∈ (cut Beat.eop (log step output reset sample)).1,
      1 ≤ ((f.map Beat.data).drop 11).length ∧ ((f.map Beat.data).drop 11).length ≤ 350 :=
  ⟨by decide +kernel, frames_carry_input sample (by decide) (by decide +kernel)⟩

end FpgaEthernet.UdpDataBlock
