import FpgaEthernet.Clocked.Run
import FpgaEthernet.Clocked.Cut
import FpgaEthernet.Ethernet.EthCommon

/-!
# `ethernet_frame_reciever`

Model of `ethernet/ethernet_frame_reciever.vhd`: the word counter and the parser
of Ethernet, IPv4, UDP, ICMP and ARP headers.

Main results:

* `Parsed.step`: after `n` words of a UDP frame the registers hold the header
  fields of the first `n` words, and the payload words among them have been put
  out with `dval` high.
* `delivered_eq`: fed a UDP frame with idle cycles anywhere, the receiver puts
  out exactly the payload words its length field announces, each with the
  frame's ports and addresses.
* `PingOk.step`: `icmp_ping` comes with `dval`, and ends with its frame.
-/

namespace FpgaEthernet

/-- `ETH_IPv4` (`eth_common.vhd` line 70). -/
def ethIPv4 : BitVec 16 := 0x0800

/-- `ETH_ARP` (`eth_common.vhd` line 71). -/
def ethArp : BitVec 16 := 0x0806

/-- `PROTO_UDP` (`eth_common.vhd` line 73). -/
def protoUdp : BitVec 8 := 0x11

/-- `PROTO_ICMP` (`eth_common.vhd` line 74). -/
def protoIcmp : BitVec 8 := 0x01

/-- `ARP_REQUEST` (`eth_common.vhd` line 76). -/
def arpRequest : BitVec 16 := 0x0001

/-- `ARP_REPLY` (`eth_common.vhd` line 77). -/
def arpReply : BitVec 16 := 0x0002

/-- `ICMP_ECHO_REQUEST` (`eth_common.vhd` line 79). -/
def icmpEchoRequest : BitVec 16 := 0x0800

/-- `ICMP_ECHO_REPLY` (`eth_common.vhd` line 80). -/
def icmpEchoReply : BitVec 16 := 0x0000

namespace FrameReciever

open Clocked

/-! ## Model -/

/-- The input ports the processes read (`ethernet_frame_reciever.vhd` lines
    36-42, 70). -/
structure Input where
  rxData : Word
  rxEop : Bool
  rxSop : Bool
  rxDval : Bool
  ourIpAddr : IpAddr
  deriving DecidableEq

/-- The registers. The variable `word_num_var` always equals the signal
    `word_num` at an edge, so there is one field for both. -/
structure State where
  frameWord : Word
  wordNum : ℕ
  dataValid : Bool
  rdySig : Bool
  payloadLen : ℤ
  optype : BitVec 16
  icmptype : BitVec 16
  ethertypeSig : BitVec 16
  destIpAddrSig : IpAddr
  ipv4Protocol : BitVec 8
  eop : Bool
  sourceMacAddr : MacAddr
  destMacAddr : MacAddr
  sourceIpAddr : IpAddr
  sourcePort : UdpPort
  destPort : UdpPort
  packetLength : BitVec 16
  generateArpReply : Bool
  arpReplyRecieved : Bool
  icmpPing : Bool
  deriving DecidableEq

/-- The Ethernet header branch of `word_parser` (lines 149-171). -/
def parseEthernet (i : Input) (s : State) : State :=
  if s.wordNum = 0 then
    { s with
      destMacAddr := (lo i.rxData ++ s.destMacAddr.extractLsb' 0 32 : BitVec 48)
      dataValid := false
      optype := 0
      icmptype := 0
      generateArpReply := false
      arpReplyRecieved := false
      icmpPing := false
      payloadLen := 0
      sourceMacAddr := 0
      sourceIpAddr := 0
      destIpAddrSig := 0
      sourcePort := 0
      destPort := 0
      ethertypeSig := 0 }
  else if s.wordNum = 1 then
    { s with destMacAddr := (s.destMacAddr.extractLsb' 32 16 ++ i.rxData : BitVec 48) }
  else if s.wordNum = 2 then
    { s with sourceMacAddr := (i.rxData ++ s.sourceMacAddr.extractLsb' 0 16 : BitVec 48) }
  else
    { s with
      sourceMacAddr := (s.sourceMacAddr.extractLsb' 16 32 ++ hi i.rxData : BitVec 48)
      ethertypeSig := lo i.rxData }

/-- The UDP parser (lines 190-202). The length field counts bytes and the two
    header words. -/
def parseUdp (i : Input) (s : State) : State :=
  if s.wordNum = 9 then { s with sourcePort := hi i.rxData, destPort := lo i.rxData }
  else if s.wordNum = 10 then { s with payloadLen := ((hi i.rxData).toNat / 4 : ℤ) - 2 }
  else { s with dataValid := decide (11 ≤ s.wordNum ∧ (s.wordNum : ℤ) ≤ s.payloadLen + 10) }

/-- The ICMP parser (lines 206-213). -/
def parseIcmp (i : Input) (s : State) : State :=
  if s.wordNum = 9 then { s with icmptype := hi i.rxData }
  else if 10 ≤ s.wordNum ∧ s.destIpAddrSig = i.ourIpAddr ∧ s.icmptype = icmpEchoRequest then
    { s with icmpPing := true, dataValid := true }
  else s

/-- The IPv4 header parser (lines 175-214). -/
def parseIpv4 (i : Input) (s : State) : State :=
  if s.wordNum = 4 then { s with packetLength := lo i.rxData }
  else if s.wordNum = 6 then { s with ipv4Protocol := i.rxData.extractLsb' 16 8 }
  else if s.wordNum = 7 then { s with sourceIpAddr := i.rxData }
  else if s.wordNum = 8 then { s with destIpAddrSig := i.rxData }
  else if 9 ≤ s.wordNum ∧ s.ipv4Protocol = protoUdp then parseUdp i s
  else if 9 ≤ s.wordNum ∧ s.ipv4Protocol = protoIcmp then parseIcmp i s
  else s

/-- The ARP parser (lines 218-230). -/
def parseArp (i : Input) (s : State) : State :=
  if s.wordNum = 5 then { s with optype := lo i.rxData }
  else if s.wordNum = 6 then
    { s with sourceMacAddr := (i.rxData ++ s.sourceMacAddr.extractLsb' 0 16 : BitVec 48) }
  else if s.wordNum = 7 then
    { s with
      sourceMacAddr := (s.sourceMacAddr.extractLsb' 16 32 ++ hi i.rxData : BitVec 48)
      sourceIpAddr := (lo i.rxData ++ s.sourceIpAddr.extractLsb' 0 16 : BitVec 32) }
  else if s.wordNum = 8 then
    { s with sourceIpAddr := (s.sourceIpAddr.extractLsb' 16 16 ++ hi i.rxData : BitVec 32) }
  else if s.wordNum = 10 then { s with destIpAddrSig := i.rxData }
  else s

/-- `word_parser` (lines 149-231). -/
def wordParser (i : Input) (s : State) : State :=
  if s.wordNum < 4 then parseEthernet i s
  else if s.ethertypeSig = ethIPv4 then parseIpv4 i s
  else if s.ethertypeSig = ethArp then parseArp i s
  else s

/-- `word_num_counter` (lines 233-252), reading the signals of `s` and writing
    over what `word_parser` made of them, `p`. -/
def wordNumCounter (i : Input) (s p : State) : State :=
  if i.rxSop then { p with wordNum := 1 }
  else if i.rxEop then
    { p with
      wordNum := 0
      generateArpReply :=
        if s.optype = arpRequest ∧ s.destIpAddrSig = i.ourIpAddr then true
        else p.generateArpReply
      arpReplyRecieved :=
        if s.optype = arpReply ∧ s.destIpAddrSig = i.ourIpAddr then true
        else p.arpReplyRecieved }
  else
    { p with wordNum := s.wordNum + 1, generateArpReply := false, arpReplyRecieved := false }

/-- One clock edge: `frame_reader` (lines 119-262) and `eop_delay` (lines
    111-116). -/
def step (i : Input) (s : State) : State :=
  if i.rxDval then
    { wordNumCounter i s (wordParser i s) with
      frameWord := i.rxData
      rdySig := true
      eop := i.rxEop }
  else
    { s with
      arpReplyRecieved := false
      generateArpReply := false
      dataValid := false
      icmpPing := false
      frameWord := 0
      rdySig := true
      eop := i.rxEop }

/-- The registers when reset is released. -/
def reset : State where
  frameWord := 0
  wordNum := 0
  dataValid := false
  rdySig := false
  payloadLen := 0
  optype := 0
  icmptype := 0
  ethertypeSig := 0
  destIpAddrSig := 0
  ipv4Protocol := 0
  eop := false
  sourceMacAddr := 0
  destMacAddr := 0
  sourceIpAddr := 0
  sourcePort := 0
  destPort := 0
  packetLength := 0
  generateArpReply := false
  arpReplyRecieved := false
  icmpPing := false

/-! ## Feeding a frame -/

/-- The words of a frame with `sop` on the first one and `eop` on the last. -/
def framed (ws : List Word) : List Beat :=
  ws.mapIdx fun k w => ⟨w, decide (k = 0), decide (k + 1 = ws.length)⟩

/-- The words presented with `rx_dval` high. -/
def fed (is : List Input) : List Beat :=
  is.filterMap fun i => if i.rxDval then some ⟨i.rxData, i.rxSop, i.rxEop⟩ else none

/-- A payload word put out with `dval`, and the frame information ports beside
    it. -/
structure Delivery where
  data : Word
  destPort : UdpPort
  sourcePort : UdpPort
  sourceIpAddr : IpAddr
  destIpAddr : IpAddr
  sourceMacAddr : MacAddr
  deriving DecidableEq

/-- What stands on the outputs after an edge, if `dval` is high. -/
def delivered (i : Input) (s : State) : List Delivery :=
  let s' := step i s
  if s'.dataValid then
    [⟨s'.frameWord, s'.destPort, s'.sourcePort, s'.sourceIpAddr, s'.destIpAddrSig,
      s'.sourceMacAddr⟩]
  else []

/-- The word at place `k` of a frame. -/
def wordAt (ws : List Word) (k : ℕ) : Word := ws.getD k 0

/-- The delivery of one payload word of the frame `ws`. -/
def deliveryOf (ws : List Word) (w : Word) : Delivery where
  data := w
  destPort := lo (wordAt ws 9)
  sourcePort := hi (wordAt ws 9)
  sourceIpAddr := wordAt ws 7
  destIpAddr := wordAt ws 8
  sourceMacAddr := (wordAt ws 2 ++ hi (wordAt ws 3) : BitVec 48)

/-- The words `ws` are a UDP frame that announces `len` payload words. -/
structure IsUdpFrame (ws : List Word) (len : ℕ) : Prop where
  length : 11 + len ≤ ws.length
  payload : 0 < len
  ethertype : lo (wordAt ws 3) = ethIPv4
  protocol : (wordAt ws 6).extractLsb' 16 8 = protoUdp
  lengthField : ((hi (wordAt ws 10)).toNat / 4 : ℤ) - 2 = len

/-- The registers after the first `n` words of the frame `ws`. -/
structure Parsed (ws : List Word) (n : ℕ) (s : State) : Prop where
  wordNum : n < ws.length → s.wordNum = n
  dataValid : 1 ≤ n → n ≤ 11 → s.dataValid = false
  sourceMacHigh : n = 3 → s.sourceMacAddr.extractLsb' 16 32 = wordAt ws 2
  sourceMac : 4 ≤ n → s.sourceMacAddr = (wordAt ws 2 ++ hi (wordAt ws 3) : BitVec 48)
  ethertype : 4 ≤ n → s.ethertypeSig = lo (wordAt ws 3)
  protocol : 7 ≤ n → s.ipv4Protocol = (wordAt ws 6).extractLsb' 16 8
  sourceIp : 8 ≤ n → s.sourceIpAddr = wordAt ws 7
  destIp : 9 ≤ n → s.destIpAddrSig = wordAt ws 8
  ports : 10 ≤ n → s.sourcePort = hi (wordAt ws 9) ∧ s.destPort = lo (wordAt ws 9)
  payloadLen : 11 ≤ n → s.payloadLen = ((hi (wordAt ws 10)).toNat / 4 : ℤ) - 2

/-- An idle cycle keeps what has been parsed, and puts nothing out. -/
theorem Parsed.idle {ws : List Word} {n : ℕ} {i : Input} {s : State} (h : Parsed ws n s)
    (hi : i.rxDval = false) : Parsed ws n (step i s) ∧ delivered i s = [] := by
  obtain ⟨h1, h2, h3, h4, h5, h6, h7, h8, h9, h10⟩ := h
  have hs : (step i s).dataValid = false := by simp [step, hi]
  refine ⟨?_, by simp [delivered, hs]⟩
  constructor <;> simp_all [step]

/-- The next header word. -/
theorem Parsed.header {ws : List Word} {len n : ℕ} {i : Input} {s : State} (h : Parsed ws n s)
    (hw : IsUdpFrame ws len) (hv : i.rxDval = true) (hn : n < 11) (hd : i.rxData = wordAt ws n)
    (hsop : i.rxSop = decide (n = 0)) (heop : i.rxEop = false) :
    Parsed ws (n + 1) (step i s) ∧ delivered i s = [] := by
  have hlen := hw.length
  have hnum := h.wordNum (by omega)
  obtain ⟨-, h2, h3, h4, h5, h6, h7, h8, h9, h10⟩ := h
  have hty := hw.ethertype
  have hproto := hw.protocol
  have hhi : ∀ (w : Word) (v : BitVec 16), (w ++ v).extractLsb' 16 32 = w := fun w v =>
    BitVec.extractLsb'_append_eq_left
  interval_cases n <;>
    refine ⟨⟨?_, ?_, ?_, ?_, ?_, ?_, ?_, ?_, ?_, ?_⟩, ?_⟩ <;>
    first
    | (intro hk; omega)
    | simp [delivered, step, wordNumCounter, wordParser, parseEthernet, parseIpv4, parseUdp,
        hv, hnum, hsop, heop, hd, hhi, h2, h3, h4, h5, h6, h7, h8, h9, hty, hproto]

/-- The next word after the header: it is put out when the length field covers
    it, and the last word of the frame resets the word counter. -/
theorem Parsed.payload {ws : List Word} {len n : ℕ} {i : Input} {s : State} (h : Parsed ws n s)
    (hw : IsUdpFrame ws len) (hv : i.rxDval = true) (hn : 11 ≤ n) (hlt : n < ws.length)
    (hd : i.rxData = wordAt ws n) (hsop : i.rxSop = false)
    (heop : i.rxEop = decide (n + 1 = ws.length)) :
    Parsed ws (n + 1) (step i s) ∧
      delivered i s = if n < 11 + len then [deliveryOf ws (wordAt ws n)] else [] := by
  have hnum := h.wordNum hlt
  have hty : s.ethertypeSig = ethIPv4 := (h.ethertype (by omega)).trans hw.ethertype
  have hproto : s.ipv4Protocol = protoUdp := (h.protocol (by omega)).trans hw.protocol
  have hlen : s.payloadLen = len := (h.payloadLen hn).trans hw.lengthField
  have hparse : wordParser i s = { s with dataValid := decide (n < 11 + len) } := by
    have hcond : (11 ≤ n ∧ (n : ℤ) ≤ (len : ℤ) + 10) ↔ n < 11 + len := by omega
    simp [wordParser, parseIpv4, parseUdp, hty, hproto, hnum, hlen, hcond,
      show ¬ n < 4 by omega, show n ≠ 4 by omega, show n ≠ 6 by omega, show n ≠ 7 by omega,
      show n ≠ 8 by omega, show 9 ≤ n by omega, show n ≠ 9 by omega, show n ≠ 10 by omega]
  have hnext : (step i s).wordNum = (if n + 1 = ws.length then 0 else n + 1) ∧
      (step i s).dataValid = decide (n < 11 + len) ∧
      (step i s).frameWord = i.rxData ∧
      (step i s).sourceMacAddr = s.sourceMacAddr ∧
      (step i s).ethertypeSig = s.ethertypeSig ∧
      (step i s).ipv4Protocol = s.ipv4Protocol ∧
      (step i s).sourceIpAddr = s.sourceIpAddr ∧
      (step i s).destIpAddrSig = s.destIpAddrSig ∧
      (step i s).sourcePort = s.sourcePort ∧ (step i s).destPort = s.destPort ∧
      (step i s).payloadLen = s.payloadLen := by
    by_cases hlast : n + 1 = ws.length <;>
      simp [step, hv, hparse, wordNumCounter, hsop, heop, hlast, hnum]
  obtain ⟨e1, e2, e3, e4, e5, e6, e7, e8, e9, e10, e11⟩ := hnext
  obtain ⟨hsrc, hdst⟩ := h.ports (by omega)
  refine ⟨⟨fun hk => ?_, fun _ hk => ?_, fun hk => ?_, fun _ => ?_, fun _ => ?_, fun _ => ?_,
    fun _ => ?_, fun _ => ?_, fun _ => ⟨?_, ?_⟩, fun _ => ?_⟩, ?_⟩
  · rw [e1, if_neg (by omega)]
  · omega
  · omega
  · rw [e4, h.sourceMac (by omega)]
  · rw [e5, h.ethertype (by omega)]
  · rw [e6, h.protocol (by omega)]
  · rw [e7, h.sourceIp (by omega)]
  · rw [e8, h.destIp (by omega)]
  · rw [e9, hsrc]
  · rw [e10, hdst]
  · rw [e11, h.payloadLen hn]
  · simp only [delivered, deliveryOf, e2, e3, e4, e7, e8, e9, e10, hd, hsrc, hdst,
      h.sourceMac (show 4 ≤ n by omega), h.sourceIp (show 8 ≤ n by omega),
      h.destIp (show 9 ≤ n by omega), decide_eq_true_eq]

theorem framed_length (ws : List Word) : (framed ws).length = ws.length := by
  simp [framed]

theorem framed_getElem? (ws : List Word) {n : ℕ} (h : n < ws.length) :
    (framed ws)[n]? = some ⟨wordAt ws n, decide (n = 0), decide (n + 1 = ws.length)⟩ := by
  simp [framed, wordAt, h]

/-- Between-frames registers have parsed nothing. -/
theorem parsed_zero {ws : List Word} {s : State} (h : s.wordNum = 0) : Parsed ws 0 s := by
  constructor <;> simp [h]

/-- The payload words among the first `n` words of a frame. -/
def payloadAmong (ws : List Word) (len n : ℕ) : List Word := ((ws.take n).drop 11).take len

theorem payloadAmong_succ {ws : List Word} {len n : ℕ} (h : n < ws.length) :
    payloadAmong ws len (n + 1) =
      payloadAmong ws len n ++ if 11 ≤ n ∧ n < 11 + len then [wordAt ws n] else [] := by
  have htake : ws.take (n + 1) = ws.take n ++ [wordAt ws n] := by
    rw [List.take_add_one, wordAt, List.getD_eq_getElem?_getD, List.getElem?_eq_getElem h]
    rfl
  have hlen : (ws.take n).length = n := List.length_take_of_le (by omega)
  rw [payloadAmong, payloadAmong, htake]
  rcases Nat.lt_or_ge n 11 with hn | hn
  · rw [List.drop_eq_nil_of_le (by simp; omega), List.drop_eq_nil_of_le (by omega),
      if_neg (by omega)]
    simp
  · rw [List.drop_append_of_le_length (by omega)]
    have hdrop : ((ws.take n).drop 11).length = n - 11 := by rw [List.length_drop, hlen]
    generalize (ws.take n).drop 11 = l at hdrop
    by_cases hl : n < 11 + len
    · rw [if_pos ⟨hn, hl⟩, List.take_of_length_le (by simp; omega),
        List.take_of_length_le (by omega)]
    · rw [if_neg (by omega), List.take_append_of_le_length (by omega), List.append_nil]

/-- Fed a beginning of a UDP frame, with idle cycles anywhere, the receiver has
    parsed it and has put out its payload words. -/
theorem parsed_run {ws : List Word} {len : ℕ} (hw : IsUdpFrame ws len) {s : State}
    (hs : s.wordNum = 0) (is : List Input) (hfed : fed is <+: framed ws) :
    Parsed ws (fed is).length (run step s is) ∧
      log step delivered s is =
        (payloadAmong ws len (fed is).length).map (deliveryOf ws) := by
  induction is using List.reverseRecOn with
  | nil => exact ⟨parsed_zero hs, by simp [fed, payloadAmong]⟩
  | append_singleton is i ih =>
    have hcat : fed (is ++ [i]) = fed is ++ fed [i] := List.filterMap_append
    rw [hcat] at hfed ⊢
    obtain ⟨hp, hl⟩ := ih ((List.prefix_append _ _).trans hfed)
    rw [run_concat, log_concat, hl]
    cases hv : i.rxDval
    · obtain ⟨hp', hd⟩ := hp.idle hv
      have hnil : fed [i] = [] := by simp [fed, hv]
      rw [hnil, List.append_nil, hd, List.append_nil]
      exact ⟨hp', rfl⟩
    · have hone : fed [i] = [⟨i.rxData, i.rxSop, i.rxEop⟩] := by simp [fed, hv]
      rw [hone] at hfed ⊢
      have hlt : (fed is).length < ws.length := by
        have := hfed.length_le
        rw [framed_length, List.length_append, List.length_singleton] at this
        omega
      have hbeat : (⟨i.rxData, i.rxSop, i.rxEop⟩ : Beat) = ⟨wordAt ws (fed is).length,
          decide ((fed is).length = 0), decide ((fed is).length + 1 = ws.length)⟩ := by
        have h := getElem?_of_isPrefix hfed (List.getElem?_concat_length ..)
        rw [framed_getElem? ws hlt] at h
        exact (Option.some.inj h).symm
      obtain ⟨hd, hsop, heop⟩ : i.rxData = wordAt ws (fed is).length ∧
          i.rxSop = decide ((fed is).length = 0) ∧
          i.rxEop = decide ((fed is).length + 1 = ws.length) := by simpa using hbeat
      rw [List.length_append, List.length_singleton, payloadAmong_succ hlt, List.map_append]
      have hlen := hw.length
      have hpos := hw.payload
      rcases Nat.lt_or_ge (fed is).length 11 with hn | hn
      · obtain ⟨hp', hout⟩ := hp.header hw hv hn hd hsop (by rw [heop]; simp; omega)
        rw [hout, if_neg (by omega)]
        exact ⟨hp', by simp⟩
      · obtain ⟨hp', hout⟩ := hp.payload hw hv hn hlt hd (by rw [hsop, decide_eq_false]; omega) heop
        refine ⟨hp', ?_⟩
        rw [hout]
        by_cases hl : (fed is).length < 11 + len
        · rw [if_pos hl, if_pos ⟨hn, hl⟩]
          rfl
        · rw [if_neg hl, if_neg (by omega)]
          rfl

/-- Fed a UDP frame with idle cycles anywhere, the receiver puts out exactly the
    payload words the length field announces, each with the ports and addresses
    of the frame. -/
theorem delivered_eq {ws : List Word} {len : ℕ} (hw : IsUdpFrame ws len) {s : State}
    (hs : s.wordNum = 0) (is : List Input) (hfed : fed is = framed ws) :
    log step delivered s is = ((ws.drop 11).take len).map (deliveryOf ws) := by
  obtain ⟨-, h⟩ := parsed_run hw hs is (hfed ▸ List.prefix_refl _)
  rw [h, hfed, framed_length, payloadAmong, List.take_length]

/-! ## Echo requests -/

/-- A frame starts, with `sop`, exactly between frames. -/
def WellFramed (i : Input) (s : State) : Prop :=
  i.rxDval = true → (i.rxSop = true ↔ s.wordNum = 0)

/-- `icmp_ping` is high inside an ICMP frame, and at its end between frames. -/
structure PingOk (s : State) : Prop where
  dataValid : s.icmpPing = true → s.dataValid = true
  eop : s.icmpPing = true → s.eop = true → s.wordNum = 0
  inside : s.icmpPing = true → s.wordNum = 0 ∨
    (11 ≤ s.wordNum ∧ s.ethertypeSig = ethIPv4 ∧ s.ipv4Protocol = protoIcmp)

theorem pingOk_reset : PingOk reset := by
  constructor <;> simp [reset]

/-- Between frames the next word is not an echo word. -/
theorem icmpPing_of_wordNum {i : Input} {s : State} (h : s.wordNum = 0) :
    (step i s).icmpPing = false := by
  cases hv : i.rxDval
  · simp [step, hv]
  · simp only [step, hv, if_true, wordNumCounter, wordParser, h, parseEthernet]
    split_ifs <;> simp_all

/-- Only the ICMP parser raises `icmp_ping`. -/
theorem icmpPing_of_wordParser {i : Input} {s : State} (h : (wordParser i s).icmpPing = true) :
    s.icmpPing = true ∨
      (10 ≤ s.wordNum ∧ s.ethertypeSig = ethIPv4 ∧ s.ipv4Protocol = protoIcmp) := by
  have hethernet : (parseEthernet i s).icmpPing = true → s.icmpPing = true := by
    unfold parseEthernet
    split_ifs <;> simp
  have harp : (parseArp i s).icmpPing = s.icmpPing := by
    unfold parseArp
    split_ifs <;> rfl
  have hudp : (parseUdp i s).icmpPing = s.icmpPing := by
    unfold parseUdp
    split_ifs <;> rfl
  have hicmp : (parseIcmp i s).icmpPing = true → s.icmpPing = true ∨ 10 ≤ s.wordNum := by
    unfold parseIcmp
    split_ifs with _ hc
    · exact .inl
    · exact fun _ => .inr hc.1
    · exact .inl
  unfold wordParser at h
  split_ifs at h with h4 hip harp'
  · exact .inl (hethernet h)
  · unfold parseIpv4 at h
    split_ifs at h with _ _ _ _ hu hi
    · exact .inl h
    · exact .inl h
    · exact .inl h
    · exact .inl h
    · exact .inl (hudp ▸ h)
    · exact (hicmp h).imp_right fun hn => ⟨hn, hip, hi.2⟩
    · exact .inl h
  · exact .inl (harp ▸ h)
  · exact .inl h

/-- After a word inside a frame `icmp_ping` is high only in the payload of an
    ICMP frame. -/
theorem PingOk.wordParser {i : Input} {s : State} (h : PingOk s) (hn : s.wordNum ≠ 0)
    (hping : (FrameReciever.wordParser i s).icmpPing = true) :
    (FrameReciever.wordParser i s).dataValid = true ∧ 10 ≤ s.wordNum ∧
      (FrameReciever.wordParser i s).ethertypeSig = ethIPv4 ∧
      (FrameReciever.wordParser i s).ipv4Protocol = protoIcmp := by
  have hin : 10 ≤ s.wordNum ∧ s.ethertypeSig = ethIPv4 ∧ s.ipv4Protocol = protoIcmp := by
    rcases icmpPing_of_wordParser hping with hp | hin
    · obtain ⟨hnum, hrest⟩ := (h.inside hp).resolve_left hn
      exact ⟨by omega, hrest⟩
    · exact hin
  obtain ⟨hnum, hty, hproto⟩ := hin
  have hparse : FrameReciever.wordParser i s = parseIcmp i s := by
    simp [FrameReciever.wordParser, parseIpv4, hty, hproto, protoIcmp, protoUdp,
      show ¬ s.wordNum < 4 by omega, show s.wordNum ≠ 4 by omega, show s.wordNum ≠ 6 by omega,
      show s.wordNum ≠ 7 by omega, show s.wordNum ≠ 8 by omega, show 9 ≤ s.wordNum by omega]
  rw [hparse] at hping ⊢
  unfold parseIcmp at hping ⊢
  rw [if_neg (show ¬ s.wordNum = 9 by omega)] at hping ⊢
  split_ifs at hping ⊢
  · exact ⟨rfl, hnum, hty, hproto⟩
  · exact ⟨h.dataValid hping, hnum, hty, hproto⟩

theorem PingOk.step {i : Input} {s : State} (h : PingOk s) (hw : WellFramed i s) :
    PingOk (step i s) := by
  cases hv : i.rxDval
  · constructor <;> simp [FrameReciever.step, hv]
  · by_cases hn : s.wordNum = 0
    · have := icmpPing_of_wordNum (i := i) hn
      constructor <;> simp [this]
    · have hsop : i.rxSop = false := by simpa [hn] using hw hv
      have hparse := h.wordParser (i := i) hn
      cases he : i.rxEop
      · refine ⟨fun hp => ?_, ?_, fun hp => .inr ?_⟩
        · simp only [FrameReciever.step, hv, if_true, wordNumCounter, hsop, he] at hp ⊢
          exact (hparse hp).1
        · simp [FrameReciever.step, hv, he]
        · simp only [FrameReciever.step, hv, if_true, wordNumCounter, hsop, he] at hp ⊢
          obtain ⟨-, hnum, hty, hproto⟩ := hparse hp
          exact ⟨by simpa using hnum, hty, hproto⟩
      · have hzero : (FrameReciever.step i s).wordNum = 0 := by
          simp [FrameReciever.step, hv, wordNumCounter, hsop, he]
        refine ⟨fun hp => ?_, fun _ _ => hzero, fun _ => .inl hzero⟩
        simp only [FrameReciever.step, hv, if_true, wordNumCounter, hsop, he] at hp ⊢
        exact (hparse hp).1

end FrameReciever

end FpgaEthernet
