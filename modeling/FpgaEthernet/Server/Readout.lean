import FpgaEthernet.Ethernet.DataFrames
import FpgaEthernet.Ethernet.UdpLink
import FpgaEthernet.Server.AsyncReceive

/-!
# What the host receives

The words of a data stream, from its FIFO in an `ethernet_block` to the file that `asyncRecieve`
writes, and those written to the UDP block: in frames among those of the other blocks and others,
and in the datagrams that the host finds in them.

Main results:

* `datagramOf_packet`: the datagram in the frame of a UDP packet.
* `arrived_isPrefix`: the datagrams for the port of a stream have a beginning of what its FIFO has
  accepted.
* `words_recorded`: a file has words of the stream in their order, none twice; if no datagram is
  lost, none is missing before the last one.
* `replies_received`: the datagrams for a port of the UDP block have a beginning of the words
  written for it.
-/

namespace FpgaEthernet.Readout

open Clocked EthernetBlock OdileServer Transmitter
open EthernetDataBlock (Addresses Held Sending fieldsFor frameOk sentOf streamPacket streamPort
  streamPort_inj)
open FrameReciever (IsUdp wordAt)
open Server (bswap32)
open UdpLink (Carries Frame carries_framesOf taken)

variable {N : ℕ} {config : Word} {a : Addresses} {I : Fin N} {s : State N} {is : List (Input N)}
  {fs : List Frame} {ws : List Word}

/-! ## The datagrams -/

/-- Words in the order of their bytes on the line. -/
def networkBytes (ws : List Word) : List (BitVec 8) := ws.flatMap fun w => (wordBytes w).reverse

/-- The datagram in a frame: its port, and the bytes that its length field covers. -/
def datagramOf (ws : List Word) : Option (UdpPort × List (BitVec 8)) :=
  if IsUdp ws then
    some (lo (wordAt ws 9), (networkBytes (ws.drop 11)).take ((hi (wordAt ws 10)).toNat - 8))
  else none

/-- The datagram in a frame, if it is one for the port. -/
def datagramFor (port : UdpPort) (f : Frame) : Option (List (BitVec 8)) :=
  (datagramOf f.words).bind fun d => if d.1 = port then some d.2 else none

/-- The datagrams for a port, of the frames that come in. -/
def arrived (port : UdpPort) (fs : List Frame) : List (List (BitVec 8)) :=
  fs.filterMap (datagramFor port)

theorem length_networkBytes (ws : List Word) : (networkBytes ws).length = 4 * ws.length := by
  rw [networkBytes, List.length_flatMap]
  induction ws with
  | nil => rfl
  | cons w ws ih =>
    rw [List.map_cons, List.sum_cons, ih, List.length_cons, List.length_reverse]
    change 4 + 4 * ws.length = _
    omega

/-- The host has the words back. -/
theorem packetWords_networkBytes (ws : List Word) : packetWords (networkBytes ws) = ws := by
  have hbytes : networkBytes ws = (ws.map bswap32).flatMap wordBytes := by
    rw [List.flatMap_map]
    exact List.flatMap_congr fun w _ => (wordBytes_bswap32 w).symm
  rw [packetWords, hbytes, hostWords_flatMap, map_bswap32_map]

/-- A UDP packet, with any words after it, is a datagram with its payload. -/
theorem datagramOf_packet {τ : Type} {q : Packet τ} {f : HeaderGenerator.Fields}
    (hproto : f.protocol = protoUdp) (hty : f.etherType = ethIPv4)
    (hhead : q.header.length = 11)
    (hok : ∀ k w, q.header[k]? = some w → RoundTrip.headerOk f q.payload.length () k w)
    (h509 : q.payload.length ≤ 509) (hws : q.words <+: ws) :
    datagramOf ws = some (f.destPort, networkBytes q.payload) := by
  obtain ⟨pad, rfl⟩ := hws
  have hat := RoundTrip.headerOk_wordAt (f := f) hhead hok pad
  have h3 := hat 3 (by decide)
  have h6 := hat 6 (by decide)
  have h9 := hat 9 (by decide)
  have h10 := hat 10 (by decide)
  simp only [RoundTrip.headerOk] at h3 h6 h9 h10
  have hudp : IsUdp (q.words ++ pad) := by
    refine ⟨?_, h6.trans hproto⟩
    rw [FrameReciever.IsIpv4, h3, lo_append, hty]
  have hcount : (hi (wordAt (q.words ++ pad) 10)).toNat - 8 = (networkBytes q.payload).length := by
    rw [h10, RoundTrip.toNat_udp1Word h509, length_networkBytes]
    omega
  have hdrop : (q.words ++ pad).drop 11 = q.payload ++ pad := by
    rw [Packet.words, List.append_assoc, List.drop_left' hhead]
  have hbytes : networkBytes (q.payload ++ pad) = networkBytes q.payload ++ networkBytes pad :=
    List.flatMap_append
  rw [datagramOf, if_pos hudp, hcount, hdrop, hbytes, List.take_left, h9, lo_append]

/-- The datagrams for a port are the payloads of the packets with this port. -/
theorem arrived_packets {τ : Type} (portOf : τ → UdpPort) {qs : List (Packet τ)} (port : UdpPort)
    (hqs : ∀ q ∈ qs, ∀ ws, q.words <+: ws →
      datagramOf ws = some (portOf q.tag, networkBytes q.payload))
    (h : List.Forall₂ (fun q f => Packet.words q <+: f.words) qs fs) :
    arrived port fs =
      (qs.filter fun q => portOf q.tag = port).map fun q => networkBytes q.payload := by
  induction h with
  | nil => rfl
  | @cons q f qs fs hqf _ ih =>
    obtain ⟨hq, hqs⟩ := List.forall_mem_cons.1 hqs
    have hone : datagramFor port f =
        if portOf q.tag = port then some (networkBytes q.payload) else none := by
      rw [datagramFor, hq f.words hqf]
      rfl
    have hrest := ih hqs
    rw [arrived] at hrest ⊢
    rw [List.filterMap_cons, hone, hrest, List.filter_cons]
    by_cases ht : portOf q.tag = port
    · simp only [ht, if_true, decide_true, List.map_cons]
    · simp only [ht, if_false, decide_false, Bool.false_eq_true]

/-- The host has the words of these packets. -/
theorem packetWords_packets {τ : Type} (qs : List (Packet τ)) :
    (qs.map fun q => networkBytes q.payload).flatMap packetWords = qs.flatMap Packet.payload := by
  rw [List.flatMap_map]
  exact List.flatMap_congr fun q _ => packetWords_networkBytes q.payload

/-- The packets whose words are in the frames of a block on the line, and the frames of this
    block that come in. -/
theorem packets_carried {τ : Type} {b : Source} {l : List (Beat × Source × ℕ)}
    {frames : List (List Beat)} (hsent : framesOf b l <+: frames)
    {qs : List (Packet τ)} (hwords : frames.map (List.map Beat.data) = qs.map Packet.words)
    (hfs : List.Forall₂ Carries (cut (Beat.eop ∘ Prod.fst) l).1
      (fs.filter fun f => f.origin.isSome)) :
    ∃ ps, ps <+: qs ∧ ps.map Packet.words = (framesOf b l).map (List.map Beat.data) ∧
      List.Forall₂ (fun q f => Packet.words q <+: f.words) ps
        (fs.filter fun f => f.origin = some b) := by
  obtain ⟨rest, rfl⟩ := hsent
  rw [List.map_append] at hwords
  obtain ⟨ps, qs', rfl, hps, -⟩ := List.map_eq_append_iff.1 hwords.symm
  refine ⟨ps, List.prefix_append _ _, hps, ?_⟩
  rw [← List.forall₂_map_left_iff (f := Packet.words)
    (R := fun (w : List Word) (f : Frame) => w <+: f.words), hps, List.forall₂_map_left_iff]
  exact carries_framesOf hfs

/-- Frames of other blocks and others do not matter where none is for the port. -/
theorem arrived_filter {port : UdpPort} {b : Source}
    (hown : ∀ f ∈ fs, f.origin ≠ some b → datagramFor port f = none) :
    arrived port fs = arrived port (fs.filter fun f => f.origin = some b) := by
  rw [arrived, arrived, List.filterMap_filter]
  refine List.filterMap_congr fun f hf => ?_
  by_cases hb : f.origin = some b
  · simp [hb]
  · simp [hb, hown f hf hb]

/-! ## The data block -/

/-- The words that the FIFO of a stream accepts at an event. -/
def accepted (I : Fin N) (i : Input N) (s : State N) : List Word :=
  EthernetDataBlock.accepted I (dataInput i s) s.data

/-- No FIFO of the data block reports more words than it holds. -/
def NeverOverReports (i : Input N) (s : State N) : Prop :=
  EthernetDataBlock.NeverOverReports (dataInput i s) s.data

instance (i : Input N) (s : State N) : Decidable (NeverOverReports i s) := by
  unfold NeverOverReports
  infer_instance

/-- The events of the data block. -/
def dataEvents (s : State N) (is : List (Input N)) : List (EthernetDataBlock.Input N) :=
  log step (fun i s => [dataInput i s]) s is

/-- An event with the header configuration `config`. -/
def stepWith (config : Word) (i : Input N) (s : State N) : State N :=
  step { i with headerConfig := config } s

theorem step_eq (h : ∀ i ∈ is, i.headerConfig = config) :
    ∀ i ∈ is, ∀ s, step i s = stepWith config i s := by
  intro i hi s
  rw [stepWith, ← h i hi]

theorem data_step (i : Input N) (s : State N) : (stepWith config i s).data =
    EthernetDataBlock.step dataConfig config (dataInput i s) s.data := rfl

/-- What an observer has seen who looks at the data block. -/
theorem log_data {α : Type} (h : ∀ i ∈ is, i.headerConfig = config)
    (obs : EthernetDataBlock.Input N → EthernetDataBlock.State N → List α) :
    log step (fun i s => obs (dataInput i s) s.data) s is =
      log (EthernetDataBlock.step dataConfig config) obs s.data (dataEvents s is) := by
  rw [dataEvents, log_congr _ (step_eq h), log_congr _ (step_eq h)]
  exact log_driven _ data_step obs s is

theorem along_data (h : ∀ i ∈ is, i.headerConfig = config)
    (hrep : Along step NeverOverReports s is) :
    Along (EthernetDataBlock.step dataConfig config) EthernetDataBlock.NeverOverReports s.data
      (dataEvents s is) := by
  rw [along_congr _ (step_eq h)] at hrep
  rw [dataEvents, log_congr _ (step_eq h), along_edges _ data_step]
  exact hrep.mono _ fun _ _ hi => ⟨hi, trivial⟩

theorem log_writes (h : ∀ i ∈ is, i.headerConfig = config) :
    log step (writes .data) s is =
      (log (EthernetDataBlock.step dataConfig config) EthernetDataBlock.output s.data
        (dataEvents s is)).map Prod.fst := by
  rw [← log_data h, ← List.filterMap_eq_map, ← log_filterMap]
  congr 1
  funext i s
  rw [List.filterMap_eq_map]
  cases hc : i.data.clock
  · simp [writes, EthernetDataBlock.output, dataInput, hc]
  · rw [EthernetDataBlock.map_output (i := dataInput i s) hc, writes, if_pos hc]
    rfl

theorem forall_dataEvents (hheld : ∀ i ∈ is, Held a i.data) :
    ∀ j ∈ dataEvents s is, Held a j := by
  intro j hj
  obtain ⟨is', i, hpre, hmem⟩ := (mem_log_iff _).1 hj
  obtain rfl := List.mem_singleton.1 hmem
  obtain ⟨h1, h2, h3, h4, h5⟩ := hheld i (hpre.subset (by simp))
  exact ⟨h1, h2, h3, h4, h5⟩

/-! ## The UDP block -/

/-- The words for a port. -/
def wordsFor (port : UdpPort) (xs : List (Word × UdpPort)) : List Word :=
  (xs.filter fun x => x.2 = port).map Prod.fst

theorem wordsFor_isPrefix {port : UdpPort} {xs ys : List (Word × UdpPort)} (h : xs <+: ys) :
    wordsFor port xs <+: wordsFor port ys := (h.filter _).map _

theorem wordsFor_carried {b : UdpDataBlock.Addresses} {port : UdpPort}
    {ps : List (Packet (UdpPort × ℕ))} (hvalid : ∀ p ∈ ps,
      p.Valid UdpDataBlock.fgConfig UdpDataBlock.config (UdpDataBlock.frameOk b)) :
    wordsFor port (ps.flatMap fun p => UdpDataBlock.carried p.words) =
      (ps.filter fun p => p.tag.1 = port).flatMap Packet.payload := by
  induction ps with
  | nil => rfl
  | cons p ps ih =>
    obtain ⟨hp, hps⟩ := List.forall_mem_cons.1 hvalid
    have hone : wordsFor port (UdpDataBlock.carried p.words) =
        if p.tag.1 = port then p.payload else [] := by
      rw [UdpDataBlock.carried_packet hp, wordsFor, List.filter_map, List.map_map]
      by_cases ht : p.tag.1 = port <;> simp [ht, Function.comp_def]
    have hrest := ih hps
    rw [wordsFor] at hone hrest ⊢
    rw [List.flatMap_cons, List.filter_append, List.map_append, hone, hrest, List.filter_cons]
    by_cases ht : p.tag.1 = port
    · simp only [ht, if_true, decide_true, List.flatMap_cons]
    · simp only [ht, if_false, decide_false, Bool.false_eq_true, List.nil_append]

/-- The datagrams of the UDP block. -/
theorem arrived_udp {b : UdpDataBlock.Addresses} {port : UdpPort}
    {qs : List (Packet (UdpPort × ℕ))} (hvalid : ∀ q ∈ qs,
      q.Valid UdpDataBlock.fgConfig UdpDataBlock.config (UdpDataBlock.frameOk b))
    (hlengths : ∀ q ∈ qs, q.payload.length = q.tag.2)
    (hbounds : ∀ q ∈ qs, q.payload.length ≤ 350)
    (hown : ∀ f ∈ fs, f.origin ≠ some .udp → datagramFor port f = none)
    (hpairs : List.Forall₂ (fun q f => Packet.words q <+: f.words) qs
      (fs.filter fun f => f.origin = some .udp)) :
    arrived port fs =
      (qs.filter fun q => q.tag.1 = port).map fun q => networkBytes q.payload := by
  rw [arrived_filter hown]
  refine arrived_packets Prod.fst port (fun q hq ws hws => ?_) hpairs
  exact datagramOf_packet (f := UdpDataBlock.fieldsFor b q.tag.1) rfl rfl
    (hvalid q hq).header_length (fun k w hw => hlengths q hq ▸ (hvalid q hq).header_ok k w hw)
    ((hbounds q hq).trans (by decide)) hws

/-- The datagrams for a port to which only the UDP block sends have a beginning of the words
    that were written to it for this port, and each of them fits into the buffer of the host.
    The addresses are those of `b` from the first word on. -/
theorem replies_received [NeZero N] (k : ℤ) {b : UdpDataBlock.Addresses} {port : UdpPort}
    {is₀ : List (Input N)} (hap : Along step Apart (reset k) (is₀ ++ is))
    (hrdy : ∀ i ∈ is₀ ++ is, i.ffTxRdy = true)
    (hquiet : ∀ i ∈ is₀, i.udp.dataValidIn = false)
    (hheld : ∀ i ∈ is, UdpDataBlock.Held b i.udp)
    (heop : ∀ i ∈ is₀ ++ is, i.udp.dataEopIn = false)
    (hov : Along step UdpLink.NoOverflow (reset k) (is₀ ++ is))
    (hfs : List.Forall₂ Carries (cut (Beat.eop ∘ Prod.fst) (taken k (is₀ ++ is))).1
      (fs.filter fun f => f.origin.isSome))
    (hown : ∀ f ∈ fs, f.origin ≠ some .udp → datagramFor port f = none) :
    (arrived port fs).flatMap packetWords <+:
        wordsFor port (log step UdpLink.presented (reset k) (is₀ ++ is)) ∧
      ∀ d ∈ arrived port fs, d.length % 4 = 0 ∧ 0 < d.length ∧ d.length ≤ buffSize := by
  have hquiet' : ∀ j ∈ log step UdpLink.udpEdge (reset k) is₀, j.dataValidIn = false :=
    UdpLink.forall_udpEdge fun i hi _ => hquiet i hi
  have heop' : ∀ j ∈ log step UdpLink.udpEdge (reset k) (is₀ ++ is), j.dataEopIn = false :=
    UdpLink.forall_udpEdge fun i hi _ => heop i hi
  have hov' := UdpLink.along_noOverflow hov
  obtain ⟨ps, t, pay, h⟩ := UdpDataBlock.sending_run_append hquiet'
    (UdpLink.held_udpEdge hheld)
  rw [← log_append] at h
  have hsent := framesOf_isPrefix k hap hrdy .udp
  rw [UdpLink.log_writes] at hsent
  obtain ⟨qs, hqs, hwords, hpairs⟩ := packets_carried hsent h.sends.sent hfs
  have hvalid : ∀ q ∈ qs,
      q.Valid UdpDataBlock.fgConfig UdpDataBlock.config (UdpDataBlock.frameOk b) := fun q hq =>
    h.sends.valid q (hqs.subset hq)
  have hbounds : ∀ q ∈ qs, 1 ≤ q.payload.length ∧ q.payload.length ≤ 350 := by
    intro q hq
    have hmem : q.words ∈ (framesOf .udp (taken k (is₀ ++ is))).map (List.map Beat.data) :=
      hwords ▸ List.mem_map_of_mem hq
    obtain ⟨f, hf, hfq⟩ := List.mem_map.1 hmem
    exact UdpDataBlock.packet_bounds heop' hov' (hsent.subset hf) hfq.symm
      (hvalid q hq).header_length
  have hlengths : ∀ q ∈ qs, q.payload.length = q.tag.2 := fun q hq => h.lengths q (hqs.subset hq)
  rw [arrived_udp hvalid hlengths (fun q hq => (hbounds q hq).2) hown hpairs]
  refine ⟨?_, fun d hd => ?_⟩
  · have hcarried : qs.flatMap (fun q => UdpDataBlock.carried q.words) =
        (framesOf .udp (taken k (is₀ ++ is))).flatMap fun f =>
          UdpDataBlock.carried (f.map Beat.data) := by
      rw [← List.flatMap_map Packet.words, hwords, List.flatMap_map]
      rfl
    rw [packetWords_packets, ← wordsFor_carried hvalid, hcarried, UdpLink.log_presented]
    exact wordsFor_isPrefix ((hsent.flatMap _).trans (UdpDataBlock.carried_frames heop' hov'))
  · obtain ⟨q, hq, rfl⟩ := List.mem_map.1 hd
    have hbound := hbounds q (List.mem_of_mem_filter hq)
    rw [length_networkBytes, buffSize]
    omega

/-! ## The file -/

/-- The datagrams of a stream. -/
theorem arrived_data {qs : List (Packet (Fin N × ℕ))} (hN : fNumBits N ≤ 16)
    (hcfg : HeaderGenerator.IsUdpConfig config)
    (hvalid : ∀ q ∈ qs, q.Valid dataConfig config (frameOk config a))
    (hlengths : ∀ q ∈ qs, q.payload.length = q.tag.2)
    (hown : ∀ f ∈ fs, f.origin ≠ some .data →
      datagramFor (streamPort a.baseUdpPort I) f = none)
    (hpairs : List.Forall₂ (fun q f => Packet.words q <+: f.words) qs
      (fs.filter fun f => f.origin = some .data)) :
    arrived (streamPort a.baseUdpPort I) fs =
      (qs.filter fun q => q.tag.1 = I).map fun q => networkBytes q.payload := by
  have hport : ∀ J : Fin N, streamPort a.baseUdpPort J = streamPort a.baseUdpPort I ↔ J = I :=
    fun J => ⟨streamPort_inj hN, fun h => h ▸ rfl⟩
  rw [arrived_filter hown, arrived_packets (fun t => streamPort a.baseUdpPort t.1) _
    (fun q hq ws hws => ?_) hpairs]
  · simp only [hport]
  · have hle : q.payload.length ≤ 300 := (hvalid q hq).payload_le
    exact datagramOf_packet (f := fieldsFor config a q.tag.1) rfl rfl
      ((hvalid q hq).header_length.trans hcfg.headerWords)
      (fun k w hw => hlengths q hq ▸ (hvalid q hq).header_ok k w hw)
      (hle.trans (by decide)) hws

/-- The datagrams for the port of a stream have a beginning of what its FIFO has accepted. -/
theorem arrived_isPrefix [NeZero N] (k : ℤ) (hN : fNumBits N ≤ 16)
    (hap : Along step Apart (reset k) is) (hrdy : ∀ i ∈ is, i.ffTxRdy = true)
    (hcfg : HeaderGenerator.IsUdpConfig config) (hconfig : ∀ i ∈ is, i.headerConfig = config)
    (hheld : ∀ i ∈ is, Held a i.data) (hrep : Along step NeverOverReports (reset k) is)
    (hfs : List.Forall₂ Carries (cut (Beat.eop ∘ Prod.fst) (taken k is)).1
      (fs.filter fun f => f.origin.isSome))
    (hown : ∀ f ∈ fs, f.origin ≠ some .data →
      datagramFor (streamPort a.baseUdpPort I) f = none) :
    (arrived (streamPort a.baseUdpPort I) fs).flatMap packetWords <+:
        log step (accepted I) (reset k) is ∧
      ∀ d ∈ arrived (streamPort a.baseUdpPort I) fs, d.length % 4 = 0 ∧ d.length ≤ buffSize := by
  obtain ⟨ps, t, pay, h⟩ := EthernetDataBlock.sending_run (c := dataConfig) rfl rfl hcfg I
    (forall_dataEvents hheld) (along_data hconfig hrep)
  have hsent := framesOf_isPrefix k hap hrdy .data
  rw [log_writes hconfig] at hsent
  obtain ⟨qs, hqs, -, hpairs⟩ := packets_carried hsent h.sends.sent hfs
  have hvalid : ∀ q ∈ qs, q.Valid dataConfig config (frameOk config a) := fun q hq =>
    h.sends.valid q (hqs.subset hq)
  have hlengths : ∀ q ∈ qs, q.payload.length = q.tag.2 := fun q hq => h.lengths q (hqs.subset hq)
  rw [arrived_data hN hcfg hvalid hlengths hown hpairs]
  refine ⟨?_, fun d hd => ?_⟩
  · have hpay : (qs.filter fun q => q.tag.1 = I).flatMap Packet.payload =
        sentOf I (qs.map streamPacket) := by
      rw [sentOf, List.filter_map, List.flatMap_map]
      rfl
    rw [packetWords_packets, hpay, show log step (accepted I) (reset k) is = _ from
      log_data hconfig _]
    exact (((hqs.map streamPacket).filter _).flatMap _).trans (h.payloads hcfg.headerWords)
  · obtain ⟨q, hq, rfl⟩ := List.mem_map.1 hd
    have hle : q.payload.length ≤ 300 := (hvalid q (List.mem_of_mem_filter hq)).payload_le
    rw [length_networkBytes, buffSize]
    omega

/-- With the MAC ready, the blocks kept apart, a UDP configuration and the addresses held, no
    FIFO that reports more words than it has, and no other frame that comes in for the port of the
    stream: whichever datagrams for the port reach the host, in their order, the file has words
    that the FIFO of the stream has accepted, in their order and none twice. If no datagram is
    lost before the last one, the words are a beginning of what the FIFO has accepted. -/
theorem words_recorded [NeZero N] (k : ℤ) (hN : fNumBits N ≤ 16)
    (hap : Along step Apart (reset k) is) (hrdy : ∀ i ∈ is, i.ffTxRdy = true)
    (hcfg : HeaderGenerator.IsUdpConfig config) (hconfig : ∀ i ∈ is, i.headerConfig = config)
    (hheld : ∀ i ∈ is, Held a i.data) (hrep : Along step NeverOverReports (reset k) is)
    (hfs : List.Forall₂ Carries (cut (Beat.eop ∘ Prod.fst) (taken k is)).1
      (fs.filter fun f => f.origin.isSome))
    (hown : ∀ f ∈ fs, f.origin ≠ some .data →
      datagramFor (streamPort a.baseUdpPort I) f = none)
    (garbage : BitVec 32) (arg : AsyncArg) {received : List (Option (List (BitVec 8)))}
    (hrec : (received.filterMap id).Sublist (arrived (streamPort a.baseUdpPort I) fs)) :
    ((asyncRecieve garbage arg received).file.words arg).Sublist
        (log step (accepted I) (reset k) is) ∧
      (received.filterMap id <+: arrived (streamPort a.baseUdpPort I) fs →
        (asyncRecieve garbage arg received).file.words arg <+:
          log step (accepted I) (reset k) is) := by
  obtain ⟨hwords, hsizes⟩ := arrived_isPrefix k hN hap hrdy hcfg hconfig hheld hrep hfs hown
  have hfit : ∀ d ∈ received.filterMap id, d.length ≤ buffSize := fun d hd =>
    (hsizes d (hrec.subset hd)).2
  have hwhole : ∀ d ∈ packets received, d.length % 4 = 0 := by
    intro d hd
    rw [packets_eq hfit] at hd
    exact (hsizes d (hrec.subset (List.mem_of_mem_filter hd))).1
  have hfile := (file_holds garbage arg received).words_isPrefix hwhole
  rw [flatMap_packets hfit] at hfile
  refine ⟨?_, fun hall => ?_⟩
  · exact (hfile.sublist.trans (hrec.flatMap packetWords)).trans hwords.sublist
  · exact (hfile.trans (hall.flatMap packetWords)).trans hwords

/-! ## A stream -/

/-- The frames on the line, all of block `b`, padded, and one from elsewhere. -/
def paddedFrames (b : Source) (l : List (Beat × Source × ℕ)) : List Frame :=
  (cut (Beat.eop ∘ Prod.fst) l).1.map
    (fun x => ⟨x.map (fun w => w.1.data) ++ [0, 0, 0], some b⟩) ++ [⟨[0x1, 0x2, 0x3], none⟩]

theorem carries_paddedFrames (b : Source) {l : List (Beat × Source × ℕ)}
    (h : ∀ x ∈ (cut (Beat.eop ∘ Prod.fst) l).1, ∀ w ∈ x, w.2.1 = b) :
    List.Forall₂ Carries (cut (Beat.eop ∘ Prod.fst) l).1
      ((paddedFrames b l).filter fun f => f.origin.isSome) := by
  have hfilter : (paddedFrames b l).filter (fun f => f.origin.isSome) =
      (cut (Beat.eop ∘ Prod.fst) l).1.map
        fun x => ⟨x.map (fun w => w.1.data) ++ [0, 0, 0], some b⟩ := by
    rw [paddedFrames, List.filter_append, List.filter_eq_self.2]
    · exact List.append_nil _
    · intro f hf
      obtain ⟨x, -, rfl⟩ := List.mem_map.1 hf
      rfl
  rw [hfilter, List.forall₂_map_right_iff, List.forall₂_same]
  exact fun x hx => ⟨List.prefix_append _ _, fun w hw => by rw [h x hx w hw]⟩

/-- An edge of all clocks, with a word for stream 1 when there is one, whose FIFO reports `n`
    words. -/
def streamEdge (w : Option Word) (n : BitVec 11) : Input 5 :=
  { edge none false with
    data :=
      { (edge none false).data with
        wrreqs := fun I => w.isSome && I = 1
        dataIn := fun _ => w.getD 0
        rdusedw := fun I => if I = 1 then n else 0
        ifmFlags := fun _ => 0b11
        ifmPayloadSize := fun _ => 1 } }

/-- Two words, time to send them, and a third one. -/
def stream : List (Input 5) :=
  [streamEdge (some 0xCAFE) 0, streamEdge (some 0xBEEF) 0] ++
    List.replicate 2 (streamEdge none 0) ++ List.replicate 12 (streamEdge none 2) ++
    List.replicate 26 (streamEdge none 0) ++ [streamEdge (some 0x1) 0]

def streamFrames : List Frame := paddedFrames .data (taken (-1) stream)

/-- The addresses of the block, and the base port of its streams. -/
def streamAddresses : Addresses :=
  ⟨0xEE1122334455, 0x6CB311517434, 0xC0A80003, 0xC0A80001, 0x1000⟩

/-- What comes out of the socket, and a time-out before and after it. -/
def streamReceived : List (Option (List (BitVec 8))) :=
  [none] ++ (arrived 0x1001 streamFrames).map some ++ [none]

theorem held_stream {i : Input 5} (h : i ∈ stream) : Held streamAddresses i.data := by
  have hedge : ∃ w n, i = streamEdge w n := by
    simp only [stream, List.mem_append, List.mem_pair, List.mem_replicate, List.mem_singleton] at h
    rcases h with ((((rfl | rfl) | ⟨-, rfl⟩) | ⟨-, rfl⟩) | ⟨-, rfl⟩) | rfl <;> exact ⟨_, _, rfl⟩
  obtain ⟨w, n, rfl⟩ := hedge
  exact ⟨rfl, rfl, rfl, rfl, rfl⟩

/-- A text file. -/
def textFile : AsyncArg := ⟨".txt".toList, 0, 0⟩

theorem words_recorded_stream :
    (asyncRecieve 0xDEAD textFile streamReceived).file.words textFile = [0xCAFE, 0xBEEF] ∧
      (asyncRecieve 0xDEAD textFile streamReceived).file.words textFile <+:
        log step (accepted 1) (reset (-1)) stream :=
  ⟨by decide +kernel, (words_recorded (a := streamAddresses) (-1) (by decide +kernel)
    (by decide +kernel) (by decide +kernel) (show HeaderGenerator.IsUdpConfig 0x7 by decide)
    (by decide +kernel) (fun i hi => held_stream hi) (by decide +kernel)
    (carries_paddedFrames .data (by decide +kernel)) (by decide +kernel)
    0xDEAD textFile (by decide +kernel)).2 (by decide +kernel)⟩

end FpgaEthernet.Readout
