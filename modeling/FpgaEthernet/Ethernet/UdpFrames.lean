import FpgaEthernet.Ethernet.RoundTrip
import FpgaEthernet.Ethernet.UdpDataBlock

/-!
# The frames of `udp_data_block`, as the receiver reads them

With the addresses of the configuration held, every frame that `udp_data_block` completes is
a UDP frame in the sense of `ethernet_frame_reciever`: its length field covers exactly its
payload, and its header has the port of the words in it and the addresses.

Main results:

* `sending_step`: the header of a packet has the port that the buffer announces for it.
* `frame_heard`: what the receiver puts out for a frame, padded or not.
-/

namespace FpgaEthernet.UdpDataBlock

open Clocked Transmitter

/-- The addresses that go into the headers. -/
structure Addresses where
  sourceMac : MacAddr
  destMac : MacAddr
  sourceIp : IpAddr
  destIp : IpAddr

/-- The address ports have the addresses `a`. -/
structure Held (a : Addresses) (i : Input) : Prop where
  sourceMac : i.sourceMacAddr = a.sourceMac
  destMac : i.destMacAddr = a.destMac
  sourceIp : i.sourceIpAddr = a.sourceIp
  destIp : i.destIpAddr = a.destIp

/-- The header parameters of a packet for port `p`. -/
def fieldsFor (a : Addresses) (p : UdpPort) : HeaderGenerator.Fields where
  protocol := 0x11
  appHeader := 0x00123456
  config := config
  sourceMacAddr := a.sourceMac
  destMacAddr := a.destMac
  etherType := 0x0800
  sourceIp := a.sourceIp
  destIp := a.destIp
  sourcePort := p
  destPort := p

variable {a : Addresses} {i : Input} {s : State}

theorem Held.fields_eq (h : Held a i) (s : State) :
    fields i s = fieldsFor a (UdpDataBuffer.dataPortOut s.buffer) := by
  obtain ⟨h1, h2, h3, h4⟩ := h
  simp only [fields, fieldsFor, h1, h2, h3, h4]

/-- What the receiver relies on in the header of a packet with a port and a length. -/
def frameOk (a : Addresses) (t : UdpPort × ℕ) : ℕ → Word → Prop :=
  RoundTrip.headerOk (fieldsFor a t.1) t.2 ()

/-- The packets `ps` have been sent, each with its port and its length in its header, and one
    in progress has those that the buffer announces. -/
structure Sending (a : Addresses) (l : List Beat) (ps : List (Packet (UdpPort × ℕ)))
    (t : UdpPort × ℕ) (pay : List Word) (s : State) : Prop where
  sends : Sends fgConfig config (frameOk a) l ps t pay s.tx
  lengths : ∀ p ∈ ps, p.payload.length = p.tag.2
  latched : RoundTrip.Latched (fieldsFor a 0) s.tx.hg
  dataOut : ∀ w, pay.getLast? = some w → s.buffer.dataOut = w
  current : Active s.tx → s.buffer.infoFifo.contents ≠ [] ∧
    t = (UdpDataBuffer.dataPortOut s.buffer, s.tx.fg.payloadLength)

/-- An announcement stays at the head of the info FIFO until its packet is finished. -/
theorem infoFifo_step (he : s.tx.fg.eopSig = false) (hinfo : s.buffer.infoFifo.contents ≠ []) :
    (step i s).buffer.infoFifo.contents ≠ [] ∧
      UdpDataBuffer.dataPortOut (step i s).buffer = UdpDataBuffer.dataPortOut s.buffer := by
  obtain ⟨w, ws, hw⟩ := List.exists_cons_of_ne_nil hinfo
  have hkeep : (step i s).buffer.infoFifo.contents =
      w :: (ws ++ s.buffer.infoFifo.accepted s.buffer.infoWrreq s.buffer.infoIn) := by
    simp [step, UdpDataBuffer.step, bufferInput, he, hw]
  rw [UdpDataBuffer.dataPortOut, UdpDataBuffer.infoOut, hkeep, UdpDataBuffer.dataPortOut,
    UdpDataBuffer.infoOut, hw]
  exact ⟨List.cons_ne_nil _ _, rfl⟩

/-- The word that a read request brings to the output of the data FIFO. -/
def takenWord (i : Input) (s : State) : List Word :=
  if s.tx.fg.rdreqSig then [(step i s).buffer.dataOut] else []

theorem takenWord_dataOut {pay : List Word}
    (h : ∀ w, pay.getLast? = some w → s.buffer.dataOut = w) :
    ∀ w, (pay ++ takenWord i s).getLast? = some w → (step i s).buffer.dataOut = w := by
  intro w hw
  cases hr : s.tx.fg.rdreqSig
  · rw [takenWord, hr, if_neg Bool.false_ne_true, List.append_nil] at hw
    rw [← h w hw]
    simp [step, UdpDataBuffer.step, bufferInput, hr]
  · rw [takenWord, hr, if_pos rfl, List.getLast?_concat] at hw
    exact Option.some.inj hw

/-- An edge keeps the relation between the packets and the headers. -/
theorem sending_step {l : List Beat} {ps : List (Packet (UdpPort × ℕ))} {t : UdpPort × ℕ}
    {pay : List Word} (h : Sending a l ps t pay s) (hheld : Held a i) :
    ∃ ps' t' pay', Sending a (l ++ output i s) ps' t' pay' (step i s) := by
  obtain ⟨hs, hlengths, hlatch, hdata, hcur⟩ := h
  have hfields : (txInput i s).fields = fieldsFor a (UdpDataBuffer.dataPortOut s.buffer) :=
    hheld.fields_eq s
  have hlatch' : RoundTrip.Latched (fieldsFor a 0) (step i s).tx.hg := by
    have hregs : RoundTrip.Latched (txInput i s).fields s.tx.hg := by rwa [hfields]
    have hregs' := RoundTrip.latched_step (i := hgInput (txInput i s) s.tx) hregs rfl
    rwa [hfields] at hregs'
  by_cases hact : Active s.tx
  · obtain ⟨hinfo, rfl⟩ := hcur hact
    cases he : s.tx.fg.eopSig
    · -- inside a packet
      obtain ⟨hinfo', hport⟩ := infoFifo_step (i := i) he hinfo
      have hok : Emits config (frameOk a)
          (UdpDataBuffer.dataPortOut s.buffer, s.tx.fg.payloadLength) (txInput i s) s.tx :=
        RoundTrip.emits_fields (f := fieldsFor a (UdpDataBuffer.dataPortOut s.buffer))
          (show HeaderGenerator.IsUdpConfig config by decide) hfields hlatch rfl
      have htaken : (takenWord i s).length = s.tx.fg.rdreqSig.toNat := by
        cases hr : s.tx.fg.rdreqSig <;> simp [takenWord, hr]
      refine ⟨ps, (UdpDataBuffer.dataPortOut s.buffer, s.tx.fg.payloadLength), _, ?_, hlengths,
        hlatch', takenWord_dataOut hdata, fun _ => ⟨hinfo', ?_⟩⟩
      · exact hs.advance rfl (by decide) rfl hact he hok htaken fun sent hread =>
          hread.answers_of_getLast rfl hdata
      · rw [hport]
        exact congrArg _ (FrameGenerator.payloadLength_step hact.1).symm
    · -- the last word of a packet
      obtain ⟨-, hpay, hrest, p, htag, hpayload, hs'⟩ := hs.finish rfl (by decide) he
      refine ⟨ps ++ [p], _, [], hs', fun q hq => ?_, hlatch', by simp,
        fun ha => absurd ha hrest.not_active⟩
      rcases List.mem_append.1 hq with hq | hq
      · exact hlengths q hq
      · obtain rfl := List.mem_singleton.1 hq
        rw [hpayload, hpay, htag]
  · by_cases hgo : s.tx.fg.nextState = .idle ∧ (txInput i s).payloadRdy = true
    · -- the start of a packet
      have hinfo : s.buffer.infoFifo.contents ≠ [] := by
        have hready := hgo.2
        simp only [txInput, UdpDataBuffer.payloadRdy, Bool.and_eq_true] at hready
        simpa using hready.1
      obtain ⟨hs', rfl, hrest, -⟩ := hs.start (c := fgConfig) hgo.1 hgo.2 (by decide)
        (UdpDataBuffer.dataPortOut (step i s).buffer, (step i s).tx.fg.payloadLength)
      exact ⟨ps, _, [], hs', hlengths, hlatch', by simp,
        fun _ => ⟨(infoFifo_step hrest.eop hinfo).1, rfl⟩⟩
    · -- between packets
      have hidle : s.tx.fg.nextState = .idle → (txInput i s).payloadRdy = false := fun hi => by
        simpa [hi] using hgo
      obtain ⟨hs', hrest, hrest'⟩ := hs.hold (c := fgConfig) hact hidle
      refine ⟨ps, t, pay, hs', hlengths, hlatch', fun w hw => ?_,
        fun ha => absurd ha hrest'.not_active⟩
      rw [← hdata w hw]
      simp [step, UdpDataBuffer.step, bufferInput, hrest.rdreq]

/-- Nothing has been written yet. -/
structure Unwritten (s : State) : Prop where
  rest : Resting s.tx
  packetLengthIn : s.buffer.packetLengthIn = 0
  infoValid : s.buffer.infoValid = false
  infoWrreq : s.buffer.infoWrreq = false
  infoFifo : s.buffer.infoFifo.contents = []

theorem unwritten_reset : Unwritten reset :=
  ⟨⟨.inl rfl, ⟨rfl, rfl, rfl⟩, rfl, rfl, rfl, rfl⟩, rfl, rfl, rfl, rfl⟩

theorem Unwritten.step (h : Unwritten s) (hv : i.dataValidIn = false) :
    Unwritten (UdpDataBlock.step i s) := by
  obtain ⟨hrest, hlen, hvalid, hwrreq, hinfo⟩ := h
  have hready : (txInput i s).payloadRdy = false := by
    simp [txInput, UdpDataBuffer.payloadRdy, hinfo]
  have hwriter : UdpDataBuffer.writer (bufferInput i s) s.buffer =
      { s.buffer with timeoutCounter := 0, infoValid := false } := by
    simp [UdpDataBuffer.writer, bufferInput, hv, hlen]
  refine ⟨hrest.hold fun _ => hready, ?_, ?_, hvalid, ?_⟩
  · simp only [UdpDataBlock.step, UdpDataBuffer.step, hwriter, hlen]
  · simp only [UdpDataBlock.step, UdpDataBuffer.step, hwriter]
  · simp [UdpDataBlock.step, UdpDataBuffer.step, Fifo.clock, Fifo.accepted, hwrreq, hinfo]

theorem Unwritten.sending (h : Unwritten s) : Sending a [] [] (0, 0) [] s where
  sends := ⟨rfl, by simp, .rest h.rest⟩
  lengths := by simp
  latched := fun hn => absurd h.rest.hg_rest.1 hn
  dataOut := by simp
  current := fun ha => absurd ha h.rest.not_active

theorem unwritten_run {is : List Input} (hquiet : ∀ i ∈ is, i.dataValidIn = false) :
    log step output reset is = [] ∧ Unwritten (run step reset is) := by
  refine log_invariant (R := fun i _ => i.dataValidIn = false)
    (I := fun l s => l = [] ∧ Unwritten s) step ⟨rfl, unwritten_reset⟩ ?_
    (along_of_forall step hquiet)
  rintro l i s hv ⟨rfl, h⟩
  refine ⟨?_, h.step hv⟩
  simp [output, written, h.rest.wrreq]

/-- The addresses matter from the first word on. -/
theorem sending_run_append {is js : List Input} (hquiet : ∀ i ∈ is, i.dataValidIn = false)
    (hheld : ∀ i ∈ js, Held a i) :
    ∃ ps t pay, Sending a (log step output reset (is ++ js)) ps t pay
      (run step reset (is ++ js)) := by
  obtain ⟨hlog, hunwritten⟩ := unwritten_run hquiet
  rw [log_append, run_append, hlog, List.nil_append]
  refine log_invariant (R := fun i _ => Held a i)
    (I := fun l s => ∃ ps t pay, Sending a l ps t pay s)
    step ⟨_, _, _, hunwritten.sending⟩ ?_ (along_of_forall step hheld)
  rintro l i s hi ⟨ps, t, pay, h⟩
  exact sending_step h hi

theorem sending_run {is : List Input} (hheld : ∀ i ∈ is, Held a i) :
    ∃ ps t pay, Sending a (log step output reset is) ps t pay (run step reset is) :=
  sending_run_append (List.forall_mem_nil _) hheld

/-- What the receiver puts out for a word of a frame. -/
def heard (a : Addresses) (x : Word × UdpPort) : FrameReciever.Delivery :=
  ⟨x.1, x.2, x.2, a.sourceIp, a.destIp, a.sourceMac⟩

/-- A packet carries its payload to its port. -/
theorem carried_packet {p : Packet (UdpPort × ℕ)}
    (hvalid : p.Valid fgConfig config (frameOk a)) :
    carried p.words = p.payload.map fun w => (w, p.tag.1) := by
  have hhead : p.header.length = 11 := hvalid.header_length
  have hport : p.words.getD 9 0 = (p.tag.1 ++ p.tag.1 : BitVec 32) := by
    have hword := RoundTrip.headerOk_wordAt (f := fieldsFor a p.tag.1) hhead hvalid.header_ok []
      9 (by decide)
    rwa [List.append_nil] at hword
  rw [carried, hport, lo_append, Packet.words, List.drop_left' hhead]

/-- The words in a packet, as the receiver reads them. -/
theorem packet_heard {p : Packet (UdpPort × ℕ)} (hvalid : p.Valid fgConfig config (frameOk a))
    (htag : p.payload.length = p.tag.2) (hpos : 0 < p.payload.length)
    (h509 : p.payload.length ≤ 509) {pad : List Word} {r : FrameReciever.State}
    (hr : r.wordNum = 0) {js : List FrameReciever.Input}
    (hfed : FrameReciever.fed js = FrameReciever.framed (p.words ++ pad)) :
    log FrameReciever.step FrameReciever.delivered r js = (carried p.words).map (heard a) := by
  have hhead : p.header.length = 11 := hvalid.header_length
  have hlen : 11 ≤ p.words.length := by
    rw [Packet.words, List.length_append]
    omega
  have hunit : (Packet.mk () p.header p.payload).Valid fgConfig config
      (RoundTrip.headerOk (fieldsFor a p.tag.1) p.payload.length) :=
    ⟨hvalid.header_length, htag ▸ hvalid.header_ok, hvalid.payload_le⟩
  obtain ⟨hudp, hdel⟩ := RoundTrip.isUdpFrame_words (f := fieldsFor a p.tag.1)
    (p := ⟨(), p.header, p.payload⟩) (show HeaderGenerator.IsUdpConfig config by decide) rfl rfl
    h509 hpos hunit pad
  change FrameReciever.IsUdpFrame (p.words ++ pad) p.payload.length at hudp
  change ∀ w, FrameReciever.deliveryOf (p.words ++ pad) w = _ at hdel
  rw [FrameReciever.delivered_eq hudp hr js hfed, List.drop_append_of_le_length hlen,
    carried_packet hvalid, List.map_map, Packet.words, List.drop_left' hhead, List.take_left]
  exact List.map_congr_left fun w _ => hdel w

/-- The buffer closes packets after 350 words. -/
theorem packet_bounds {is : List Input} (heop : ∀ i ∈ is, i.dataEopIn = false)
    (hov : Along step NoOverflow reset is) {f : List Beat}
    (hf : f ∈ (cut Beat.eop (log step output reset is)).1) {p : Packet (UdpPort × ℕ)}
    (hw : p.words = f.map Beat.data) (hhead : p.header.length = 11) :
    1 ≤ p.payload.length ∧ p.payload.length ≤ 350 := by
  obtain ⟨qs, _, _, _, _, hinv⟩ := inv_run heop hov
  have hmem : f.map Beat.data ∈ qs.map Packet.words := hinv.sends.sent ▸ List.mem_map_of_mem hf
  obtain ⟨q, hq, hw'⟩ := List.mem_map.1 hmem
  have hhead' : q.header.length = 11 := (hinv.sends.valid q hq).header_length
  have hpayload : q.payload = p.payload := by
    have hdrop := congrArg (List.drop 11) (hw'.trans hw.symm)
    rwa [Packet.words, Packet.words, List.drop_left' hhead, List.drop_left' hhead'] at hdrop
  exact hpayload ▸ hinv.buffers.lengths (queued q) (List.mem_append_left _ (List.mem_map_of_mem hq))

/-- A frame of the block, with any words after it, makes the receiver put out the words in
    it, each with its port and with the addresses. -/
theorem frame_heard {is : List Input} (hheld : ∀ i ∈ is, Held a i)
    (heop : ∀ i ∈ is, i.dataEopIn = false) (hov : Along step NoOverflow reset is) {f : List Beat}
    (hf : f ∈ (cut Beat.eop (log step output reset is)).1) {pad : List Word}
    {r : FrameReciever.State} (hr : r.wordNum = 0) {js : List FrameReciever.Input}
    (hfed : FrameReciever.fed js = FrameReciever.framed (f.map Beat.data ++ pad)) :
    log FrameReciever.step FrameReciever.delivered r js =
      (carried (f.map Beat.data)).map (heard a) := by
  obtain ⟨ps, t, pay, h⟩ := sending_run hheld
  have hmem : f.map Beat.data ∈ ps.map Packet.words := h.sends.sent ▸ List.mem_map_of_mem hf
  obtain ⟨p, hp, hw⟩ := List.mem_map.1 hmem
  have hbounds := packet_bounds heop hov hf hw (h.sends.valid p hp).header_length
  rw [← hw] at hfed ⊢
  exact packet_heard (h.sends.valid p hp) (h.lengths p hp) hbounds.1
    (hbounds.2.trans (by decide)) hr hfed

/-- The completed frames carry a beginning of what was written. -/
theorem carried_frames {is : List Input} (heop : ∀ i ∈ is, i.dataEopIn = false)
    (hov : Along step NoOverflow reset is) :
    (cut Beat.eop (log step output reset is)).1.flatMap (fun f => carried (f.map Beat.data)) <+:
      log step presented reset is := by
  obtain ⟨ps, _, _, _, _, h⟩ := inv_run heop hov
  have hcarried : (cut Beat.eop (log step output reset is)).1.flatMap
      (fun f => carried (f.map Beat.data)) = (ps.map queued).flatMap UdpDataBuffer.tagged := by
    rw [← List.flatMap_map (List.map Beat.data), h.sends.sent, List.flatMap_map, List.flatMap_map]
    exact List.flatMap_congr fun p hp => carried_words (h.sends.valid p hp)
  rw [hcarried, h.buffers.accepted_eq, List.append_assoc]
  exact List.prefix_append _ _

end FpgaEthernet.UdpDataBlock
