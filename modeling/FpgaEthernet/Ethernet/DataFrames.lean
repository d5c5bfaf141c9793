import FpgaEthernet.Ethernet.EthernetDataBlock
import FpgaEthernet.Ethernet.RoundTrip

/-!
# The frames of `ethernet_data_block`

With the addresses and the base port of the configuration held, a frame that
`ethernet_data_block` completes is a UDP frame to the port of its stream, and its length field
covers exactly its payload.

Main results:

* `sending_step`: the header of a packet has the port of the stream and the length.
* `Sending.payloads`: the payloads of a stream are a beginning of what its FIFO has accepted.
* `streamPort_inj`: no two streams have the same port.
-/

namespace FpgaEthernet.EthernetDataBlock

open Clocked Transmitter

variable {N : ℕ}

/-- The addresses that go into the headers, and the base port. -/
structure Addresses where
  sourceMac : MacAddr
  destMac : MacAddr
  sourceIp : IpAddr
  destIp : IpAddr
  baseUdpPort : UdpPort

/-- The address ports have the addresses `a`. -/
structure Held (a : Addresses) (i : Input N) : Prop where
  sourceMac : i.sourceMacAddr = a.sourceMac
  destMac : i.destMacAddr = a.destMac
  sourceIp : i.sourceIpAddr = a.sourceIp
  destIp : i.destIpAddr = a.destIp
  baseUdpPort : i.baseUdpPort = a.baseUdpPort

/-- The header parameters of a packet of stream `I`. -/
def fieldsFor (config : Word) (a : Addresses) (I : Fin N) : HeaderGenerator.Fields where
  protocol := 0x11
  appHeader := 0x00123456
  config := config
  sourceMacAddr := a.sourceMac
  destMacAddr := a.destMac
  etherType := 0x0800
  sourceIp := a.sourceIp
  destIp := a.destIp
  sourcePort := streamPort a.baseUdpPort I
  destPort := streamPort a.baseUdpPort I

variable {a : Addresses} {c : FrameGenerator.Config} {config : Word} {i : Input N} {s : State N}
  {I : Fin N} {acc : List Word} {l : List (Beat × Fin N)} {ps : List (Packet (Fin N × ℕ))}
  {t : Fin N × ℕ} {pay : List Word}

theorem Held.fields_eq (h : Held a i) (config : Word) (s : State N) :
    fields config i s = fieldsFor config a s.ifm.muxSel := by
  obtain ⟨h1, h2, h3, h4, h5⟩ := h
  simp only [fields, fieldsFor, h1, h2, h3, h4, h5]

/-- What a receiver relies on in the header of a packet of a stream with a length. -/
def frameOk (config : Word) (a : Addresses) (t : Fin N × ℕ) : ℕ → Word → Prop :=
  RoundTrip.headerOk (fieldsFor config a t.1) t.2 ()

/-- The packets `ps` have been sent, each with the port of its stream and its length in its
    header, and one in progress has those of `t`. -/
structure Sending (c : FrameGenerator.Config) (config : Word) (a : Addresses) (I : Fin N)
    (acc : List Word) (l : List (Beat × Fin N)) (ps : List (Packet (Fin N × ℕ))) (t : Fin N × ℕ)
    (pay : List Word) (s : State N) : Prop where
  inv : ∃ qs, Inv c config I acc l qs t.1 pay s
  sends : Sends c config (frameOk config a) (l.map Prod.fst) ps t pay s.tx
  labelled : Labelled Beat.eop l (ps.map fun p => p.tag.1) t.1
  lengths : ∀ p ∈ ps, p.payload.length = p.tag.2
  latched : RoundTrip.Latched (fieldsFor config a t.1) s.tx.hg
  current : Active s.tx → t.2 = s.tx.fg.payloadLength

theorem sending_reset [NeZero N] (k : ℤ) (I : Fin N) :
    Sending c config a I [] [] [] (0, 0) [] (reset k) where
  inv := ⟨[], inv_reset k I 0⟩
  sends := sends_reset _
  labelled := labelled_nil _
  lengths := by simp
  latched := fun h => absurd rfl h
  current := by simp [Active, reset, Transmitter.reset, FrameGenerator.reset]

/-- The header registers of one stream are those of any other. -/
theorem latched_step (h : RoundTrip.Latched (fieldsFor config a I) s.tx.hg) (hheld : Held a i)
    (hc : i.clock = true) (J : Fin N) :
    RoundTrip.Latched (fieldsFor config a J) (step c config i s).tx.hg := by
  have hfields : (txInput config i s).fields = fieldsFor config a s.ifm.muxSel :=
    hheld.fields_eq config s
  have hregs : RoundTrip.Latched (txInput config i s).fields s.tx.hg := by
    rw [hfields]
    exact h
  have hregs' := RoundTrip.latched_step (i := hgInput (txInput config i s) s.tx) hregs rfl
  rw [hfields] at hregs'
  rw [step, if_pos hc]
  exact hregs'

/-- Inside a packet, before its last word. -/
theorem Sending.advance (h : Sending c config a I acc l ps t pay s) (hcrc : c.genCrc = false)
    (hdly : c.fifoInDly = 5) (hcfg : HeaderGenerator.IsUdpConfig config) (hheld : Held a i)
    (hc : i.clock = true) (hact : Active s.tx) (he : s.tx.fg.eopSig = false) :
    Sending c config a I (acc ++ accepted I i s) (l ++ output i s) ps t
      (pay ++ requested s.ifm.muxSel i s) (step c config i s) := by
  obtain ⟨⟨qs, hinv⟩, hs, hlabel, hlengths, hlatch, hcur⟩ := h
  have hdly' : c.fifoInDly.toNat = 5 := by rw [hdly]; rfl
  have hmux := (hinv.current hact).1
  have htx : (step c config i s).tx = Transmitter.step c (txInput config i s) s.tx := by
    simp [step, hc]
  have hfields : (txInput config i s).fields = fieldsFor config a t.1 :=
    hmux ▸ hheld.fields_eq config s
  have hok : Emits config (frameOk config a) t (txInput config i s) s.tx :=
    RoundTrip.emits_fields (f := fieldsFor config a t.1) hcfg hfields hlatch (hcur hact).symm
  refine ⟨⟨qs, hinv.advance hc hcrc hdly hact he⟩, ?_, ?_, hlengths,
    latched_step hlatch hheld hc t.1, fun _ => ?_⟩
  · rw [List.map_append, map_output hc, htx]
    refine hs.advance hcrc (by omega) rfl hact he hok (requested_length hc hinv.unread_ne) ?_
    intro sent hread k hk hp
    rw [hdly'] at hp
    exact getElem?_of_isPrefix (List.prefix_append _ _)
      ((hinv.flight sent hread).dataOut k hk (by omega))
  · rw [output_of_clock hc, ← hmux, written]
    split_ifs
    · exact hlabel.concat_open he
    · simpa using hlabel
  · rw [hcur hact, htx]
    exact (FrameGenerator.payloadLength_step hact.1).symm

/-- The word marked `eop` completes the packet. -/
theorem Sending.finish (h : Sending c config a I acc l ps t pay s) (hcrc : c.genCrc = false)
    (hdly : c.fifoInDly = 5) (hheld : Held a i) (hc : i.clock = true)
    (he : s.tx.fg.eopSig = true) :
    ∃ p, Sending c config a I (acc ++ accepted I i s) (l ++ output i s) (ps ++ [p]) t []
      (step c config i s) := by
  obtain ⟨⟨qs, hinv⟩, hs, hlabel, hlengths, hlatch, hcur⟩ := h
  have hdly' : 2 ≤ c.fifoInDly.toNat := by rw [hdly]; decide
  have hact : Active s.tx := by
    by_contra hact
    obtain ⟨hrest, -⟩ := hs.resting hact
    simp [hrest.eop] at he
  have hmux := (hinv.current hact).1
  have htx : (step c config i s).tx = Transmitter.step c (txInput config i s) s.tx := by
    simp [step, hc]
  obtain ⟨q, hinv'⟩ := hinv.finish hc hcrc hdly' he
  obtain ⟨-, hlen, hrest, p, htag, hpay, hs'⟩ :=
    hs.finish (i := txInput config i s) hcrc hdly' he
  refine ⟨p, ⟨_, hinv'⟩, ?_, ?_, fun p' hp' => ?_, latched_step hlatch hheld hc t.1, fun ha => ?_⟩
  · rw [List.map_append, map_output hc, htx]
    exact hs'
  · rw [output_of_clock hc, hs.written_eop he, List.map_singleton, List.map_append,
      List.map_singleton, ← hmux, htag]
    exact hlabel.concat_last rfl
  · rcases List.mem_append.1 hp' with hp' | hp'
    · exact hlengths p' hp'
    · obtain rfl := List.mem_singleton.1 hp'
      rw [hpay, hlen, htag, hcur hact]
  · rw [htx] at ha
    exact absurd ha hrest.not_active

/-- Outside a packet. -/
theorem Sending.quiet (h : Sending c config a I acc l ps t pay s)
    (hcfg : HeaderGenerator.IsUdpConfig config) (hheld : Held a i) (hc : i.clock = true)
    (hact : ¬Active s.tx) (hrep : NeverOverReports i s) :
    ∃ t', Sending c config a I (acc ++ accepted I i s) (l ++ output i s) ps t' []
      (step c config i s) := by
  obtain ⟨⟨qs, hinv⟩, hs, hlabel, hlengths, hlatch, hcur⟩ := h
  obtain ⟨hrest, hopen, rfl⟩ := hs.resting hact
  have htx : (step c config i s).tx = Transmitter.step c (txInput config i s) s.tx := by
    simp [step, hc]
  have hout : output i s = [] := by simp [output_of_clock hc, written, hrest.wrreq]
  by_cases hgo : s.tx.fg.nextState = .idle ∧ s.ifm.payloadRdy = true
  · -- the start of a packet
    have hs' := (hs.start (c := c) (i := txInput config i s) hgo.1 hgo.2 hcfg.fNextState
      (s.ifm.muxSel, (step c config i s).tx.fg.payloadLength)).1
    refine ⟨(s.ifm.muxSel, (step c config i s).tx.fg.payloadLength),
      ⟨qs, hinv.start hc hgo.1 hgo.2 hcfg.fNextState hrep⟩, ?_, ?_, hlengths,
      latched_step hlatch hheld hc s.ifm.muxSel, fun _ => rfl⟩
    · rw [List.map_append, map_output hc, htx]
      rw [htx] at hs'
      exact hs'
    · rw [hout, List.append_nil]
      refine hlabel.relabel ?_ _
      rw [cut_map] at hopen
      exact List.map_eq_nil_iff.1 hopen
  · -- between packets
    have hidle : s.tx.fg.nextState = .idle → s.ifm.payloadRdy = false := fun hi => by
      simpa [hi] using hgo
    obtain ⟨hs', -, hrest'⟩ := hs.hold (c := c) (i := txInput config i s) hact hidle
    refine ⟨t, ⟨qs, hinv.rest hc hact hidle⟩, ?_, ?_, hlengths, latched_step hlatch hheld hc t.1,
      fun ha => ?_⟩
    · rw [List.map_append, map_output hc, htx]
      exact hs'
    · rw [hout, List.append_nil]
      exact hlabel
    · rw [htx] at ha
      exact absurd ha hrest'.not_active

/-- An event keeps the relation between the packets and their headers. -/
theorem sending_step (h : Sending c config a I acc l ps t pay s) (hcrc : c.genCrc = false)
    (hdly : c.fifoInDly = 5) (hcfg : HeaderGenerator.IsUdpConfig config) (hheld : Held a i)
    (hrep : NeverOverReports i s) :
    ∃ ps' t' pay', Sending c config a I (acc ++ accepted I i s) (l ++ output i s) ps' t' pay'
      (step c config i s) := by
  cases hc : i.clock
  · obtain ⟨⟨qs, hinv⟩, hs, hlabel, hlengths, hlatch, hcur⟩ := h
    have hout : output i s = [] := by simp [output, hc]
    have htx : (step c config i s).tx = s.tx := by simp [step, hc]
    rw [hout, List.append_nil]
    exact ⟨ps, t, pay, ⟨qs, hinv.stay hc⟩, by rwa [htx], hlabel, hlengths, by rwa [htx],
      by rwa [htx]⟩
  · by_cases hact : Active s.tx
    · cases he : s.tx.fg.eopSig
      · exact ⟨ps, t, _, h.advance hcrc hdly hcfg hheld hc hact he⟩
      · obtain ⟨p, h'⟩ := h.finish hcrc hdly hheld hc he
        exact ⟨ps ++ [p], t, [], h'⟩
    · obtain ⟨t', h'⟩ := h.quiet hcfg hheld hc hact hrep
      exact ⟨ps, t', [], h'⟩

theorem sending_run [NeZero N] (hcrc : c.genCrc = false) (hdly : c.fifoInDly = 5)
    (hcfg : HeaderGenerator.IsUdpConfig config) (I : Fin N) {k : ℤ} {is : List (Input N)}
    (hheld : ∀ i ∈ is, Held a i) (hrep : Along (step c config) NeverOverReports (reset k) is) :
    ∃ ps t pay, Sending c config a I (log (step c config) (accepted I) (reset k) is)
      (log (step c config) output (reset k) is) ps t pay (run (step c config) (reset k) is) := by
  refine log₂_invariant (R := fun i s => Held a i ∧ NeverOverReports i s)
    (I := fun acc l s => ∃ ps t pay, Sending c config a I acc l ps t pay s) (step c config)
    ⟨[], _, [], sending_reset k I⟩ ?_ ((along_of_forall _ hheld).and _ hrep)
  rintro acc l i s ⟨hi, hrep⟩ ⟨ps, t, pay, h⟩
  exact sending_step h hcrc hdly hcfg hi hrep

/-! ## The frames -/

/-- A packet without its length. -/
def streamPacket (p : Packet (Fin N × ℕ)) : Packet (Fin N) := ⟨p.tag.1, p.header, p.payload⟩

/-- The payloads of the packets of a stream are a beginning of what its FIFO has accepted. -/
theorem Sending.payloads (h : Sending c config a I acc l ps t pay s)
    (hcfg : HeaderGenerator.headerWords config = 11) :
    sentOf I (ps.map streamPacket) <+: acc := by
  obtain ⟨⟨qs, hinv⟩, hs, hlabel, -, -, -⟩ := h
  have hdata : List.map Beat.data ∘ List.map Prod.fst =
      List.map fun b : Beat × Fin N => b.1.data := by
    funext f
    exact List.map_map
  have hwords := hs.sent
  have hwords' := hinv.sends.sent
  rw [cut_map, List.map_map, hdata] at hwords hwords'
  have hpay : (framesOf I (cut (Beat.eop ∘ Prod.fst) l).1).flatMap payload =
      sentOf I (ps.map streamPacket) := by
    refine framesOf_payload (c := c) hcfg I ?_ ?_ fun q hq => ?_
    · rw [List.map_map]
      exact hlabel.frames
    · rw [List.map_map]
      exact hwords
    · obtain ⟨p, hp, rfl⟩ := List.mem_map.1 hq
      exact ⟨(hs.valid p hp).header_length, fun _ _ _ => trivial, (hs.valid p hp).payload_le⟩
  have hpay' := framesOf_payload hcfg I hinv.labelled.frames hwords'
    hinv.sends.valid
  rw [← hpay, hpay', hinv.stream, List.append_assoc]
  exact List.prefix_append _ _

/-- The port of a stream is its own. -/
theorem streamPort_inj {base : UdpPort} {J : Fin N} (hN : fNumBits N ≤ 16)
    (h : streamPort base I = streamPort base J) : I = J := by
  have hle : N ≤ 2 ^ fNumBits N := Nat.le_pow_clog (by decide) N
  have hval : ∀ K : Fin N, (streamPort base K).toNat =
      base.toNat / 2 ^ fNumBits N * 2 ^ fNumBits N + K := by
    intro K
    have hK := K.isLt
    obtain ⟨m, hm⟩ := Nat.exists_eq_add_of_le hN
    have hpow : 2 ^ 16 = 2 ^ fNumBits N * 2 ^ m := by rw [← pow_add, ← hm]
    have hdiv : base.toNat / 2 ^ fNumBits N < 2 ^ m := by
      rw [Nat.div_lt_iff_lt_mul (Nat.two_pow_pos _), Nat.mul_comm, ← hpow]
      exact base.isLt
    rw [streamPort, BitVec.toNat_ofNat, Nat.mod_eq_of_lt]
    calc base.toNat / 2 ^ fNumBits N * 2 ^ fNumBits N + K
        < base.toNat / 2 ^ fNumBits N * 2 ^ fNumBits N + 2 ^ fNumBits N := by omega
      _ = (base.toNat / 2 ^ fNumBits N + 1) * 2 ^ fNumBits N := by rw [Nat.succ_mul]
      _ ≤ 2 ^ m * 2 ^ fNumBits N := Nat.mul_le_mul_right _ hdiv
      _ = 2 ^ 16 := by rw [hpow, Nat.mul_comm]
  have heq := congrArg BitVec.toNat h
  rw [hval, hval] at heq
  exact Fin.ext (by omega)

end FpgaEthernet.EthernetDataBlock
