import FpgaEthernet.Clocked.Fifo
import FpgaEthernet.Ethernet.Transmitter
import FpgaEthernet.Ethernet.FrameReciever

/-!
# `icmp_block`

Model of `ethernet/icmp_block.vhd`: the payload FIFO, the checksum computer, the
reply buffer, a frame generator and a header generator for echo replies.

The payload FIFO `fifo_32x256` is an ideal FIFO with a registered output.

Main results:

* `delivered_heard`: how the frame receiver delivers echo requests.
* `inv_step`: as long as no echo word arrives while an earlier request waits or
  is still being read, the FIFO, the checksum and the address registers belong
  to one request.
* `replies_carry_requests`: in every run of such edges each reply carries the
  words, the checksum and the addresses of one request.
* `overlapping_requests`: without the condition words of two requests are mixed.
-/

namespace FpgaEthernet.IcmpBlock

open Clocked Transmitter

/-! ## Model -/

/-- The input ports (`icmp_block.vhd` lines 34-69). -/
structure Input where
  frDataOut : Word
  frDval : Bool
  frEop : Bool
  icmpPing : Bool
  txReady : Bool
  sourceMacAddr : MacAddr
  destMacAddr : MacAddr
  sourceIpAddr : IpAddr
  destIpAddr : IpAddr
  deriving DecidableEq

/-- The registers, the FIFO with its output register, and the variables
    `word_num` and `sum`. -/
structure State where
  payloadRdy : Bool
  fgDataIn : Word
  wordNum : ℕ
  fifo : Fifo Word 256
  fifoQ : Word
  sum : BitVec 18
  checksum : BitVec 16
  checksumValid : Bool
  frEopDelayed : Bool
  icmpPingDelayed : Bool
  destMacAddrReg : MacAddr
  destIpAddrReg : IpAddr
  replyWait : Bool
  tx : Transmitter.State
  deriving DecidableEq

/-- The constant ports of the frame generator (lines 169-171, 288). -/
def fgConfig : FrameGenerator.Config where
  payloadMaxLen := BitVec.allOnes 9
  fifoInDly := 3
  fifoOutDly := 0
  genCrc := false

/-- `hg_config` (lines 147-149). -/
def hgConfig : Word := 0x00000003

/-- The header parameters (lines 145-155, 247-263). -/
def fields (i : Input) (s : State) : HeaderGenerator.Fields where
  protocol := protoIcmp
  appHeader := 0
  config := hgConfig
  sourceMacAddr := i.sourceMacAddr
  destMacAddr := s.destMacAddrReg
  etherType := ethIPv4
  sourceIp := i.sourceIpAddr
  destIp := s.destIpAddrReg
  sourcePort := 0
  destPort := 0

/-- `usedw_in` (line 199): the reply has one word more than the FIFO holds. The
    addition is done in the 8 bits of `fifo_usedw`; `resize` comes after it. -/
def usedwIn (s : State) : BitVec 11 := (BitVec.ofNat 8 s.fifo.usedw + 1).setWidth 11

theorem usedwIn_toNat (s : State) : (usedwIn s).toNat = (s.fifo.usedw + 1) % 256 := by
  rw [usedwIn, BitVec.toNat_setWidth, BitVec.toNat_add, BitVec.toNat_ofNat]
  simp
  omega

/-- The inputs of the frame generator and the header generator. -/
def txInput (i : Input) (s : State) : Transmitter.Input where
  fields := fields i s
  dataIn := s.fgDataIn
  usedwIn := usedwIn s
  payloadRdy := s.payloadRdy

/-- `fifo_wrreq` (line 195). -/
def fifoWrreq (i : Input) : Bool := i.frDval && i.icmpPing

/-- One addition of `checksum_computer` (lines 329-330), in 18 bits. -/
def addWord (sum : BitVec 18) (w : Word) : BitVec 18 :=
  (sum.extractLsb' 0 16).setWidth 18 + (hi w).setWidth 18 + (lo w).setWidth 18 +
    (sum.extractLsb' 16 2).setWidth 18

/-- The checksum word made of a sum (line 325). -/
def checksumOf (sum : BitVec 18) : BitVec 16 :=
  ~~~ (sum.extractLsb' 0 16 + (sum.extractLsb' 16 2).setWidth 16)

/-- The last word of a request went by at the previous edge (line 321). -/
def Closing (s : State) : Prop := s.frEopDelayed = true ∧ s.icmpPingDelayed = true

instance (s : State) : Decidable (Closing s) := by
  unfold Closing
  infer_instance

/-- `checksum_computer` (lines 307-336). -/
def checksumComputer (i : Input) (s : State) : State :=
  if Closing s then
    { s with checksum := checksumOf s.sum, checksumValid := true, sum := 0 }
  else if i.frDval ∧ i.icmpPing then
    { s with checksumValid := false, sum := addWord s.sum i.frDataOut }
  else s

/-- `reply_buffer` (lines 340-361). -/
def replyBuffer (i : Input) (s : State) : State :=
  if s.tx.fg.fgBusy then { s with replyWait := false }
  else if s.replyWait then s
  else if i.icmpPing ∧ i.frEop then
    { s with
      destMacAddrReg := i.destMacAddr
      destIpAddrReg := i.destIpAddr
      replyWait := true }
  else s

/-- The word `icmp_payload` hands to the frame generator (lines 229-233). -/
def payloadWord (s : State) : Word :=
  if s.wordNum = 0 then (icmpEchoReply ++ s.checksum : BitVec 32) else s.fifoQ

/-- One clock edge. Every process reads the signals as they were before. -/
def step (i : Input) (s : State) : State where
  payloadRdy := s.replyWait && i.txReady && !s.tx.fg.fgBusy
  fgDataIn := if s.tx.fg.rdreqSig then payloadWord s else s.fgDataIn
  wordNum :=
    if s.tx.fg.rdreqSig then s.wordNum + 1 else if s.tx.fg.fgBusy then s.wordNum else 0
  fifo := s.fifo.clock (fifoWrreq i) i.frDataOut s.tx.fg.rdreqSig
  fifoQ := s.fifo.nextQ s.tx.fg.rdreqSig s.fifoQ
  sum := (checksumComputer i s).sum
  checksum := (checksumComputer i s).checksum
  checksumValid := (checksumComputer i s).checksumValid
  frEopDelayed := i.frEop
  icmpPingDelayed := i.icmpPing
  destMacAddrReg := (replyBuffer i s).destMacAddrReg
  destIpAddrReg := (replyBuffer i s).destIpAddrReg
  replyWait := (replyBuffer i s).replyWait
  tx := Transmitter.step fgConfig (txInput i s) s.tx

/-- The registers when reset is released. -/
def reset : State where
  payloadRdy := false
  fgDataIn := 0
  wordNum := 0
  fifo := Fifo.empty
  fifoQ := 0
  sum := 0
  checksum := 0
  checksumValid := false
  frEopDelayed := false
  icmpPingDelayed := false
  destMacAddrReg := 0
  destIpAddrReg := 0
  replyWait := false
  tx := Transmitter.reset

/-- What is put on the outputs at an edge: `dval`, `data_out`, `sop`, `eop`. -/
def output (_ : Input) (s : State) : List Beat := written s.tx

/-! ## Requests and replies -/

/-- A word of an echo request, with the addresses of its sender. -/
structure Echo where
  data : Word
  mac : MacAddr
  ip : IpAddr
  eop : Bool
  deriving DecidableEq

/-- The echo word that arrives at an edge. -/
def arriving (i : Input) (_ : State) : List Echo :=
  if i.frDval ∧ i.icmpPing then [⟨i.frDataOut, i.destMacAddr, i.destIpAddr, i.frEop⟩] else []

/-- An echo request: its payload words, and the addresses of its sender. -/
structure Request where
  words : List Word
  mac : MacAddr
  ip : IpAddr
  deriving DecidableEq

/-- The request made of the words `f`, with the addresses that stand beside its
    last word. -/
def requestOf (f : List Echo) : Request where
  words := f.map Echo.data
  mac := (f.getLast?.map Echo.mac).getD 0
  ip := (f.getLast?.map Echo.ip).getD 0

/-- The checksum of a request, computed on its words alone. -/
def requestSum (ws : List Word) : BitVec 18 := ws.foldl addWord 0

/-- The payload of the reply to a request: the type and checksum word, and the
    payload words of the request. -/
def Request.payload (r : Request) : List Word :=
  (icmpEchoReply ++ checksumOf (requestSum r.words) : BitVec 32) :: r.words

/-- A reply: the addresses in its header and what follows the nine header
    words. -/
structure Reply where
  destMac : MacAddr
  destIp : IpAddr
  payload : List Word
  deriving DecidableEq

/-- The reply to a request. -/
def Request.reply (r : Request) : Reply := ⟨r.mac, r.ip, r.payload⟩

/-- What a frame of words `ws` is as a reply. -/
def replyOf (ws : List Word) : Reply where
  destMac := (lo (ws.getD 0 0) ++ ws.getD 1 0 : BitVec 48)
  destIp := ws.getD 8 0
  payload := ws.drop 9

/-- The requests received, and the words of the one not complete. -/
def requests (e : List Echo) : List (List Echo) × List Echo := cut Echo.eop e

/-- The frames put on the outputs. -/
def replies (l : List Beat) : List Reply :=
  (cut Beat.eop l).1.map fun f => replyOf (f.map Beat.data)

/-- How the frame receiver delivers echo words: `icmp_ping` comes with `dval`,
    and the word after the last one of a frame is not an echo word. -/
def Delivered (i : Input) (s : State) : Prop :=
  (i.icmpPing = true → i.frDval = true) ∧ (Closing s → i.icmpPing = false)

instance (i : Input) (s : State) : Decidable (Delivered i s) := by
  unfold Delivered
  infer_instance

/-- The frame generator has no word left to request. -/
def ReadsIssued (s : FrameGenerator.State) : Prop :=
  match s.nextState with
  | .idle | .done => True
  | .payloadHeader => False
  | _ => s.payloadLength ≤ FrameGenerator.position fgConfig s

instance (s : FrameGenerator.State) : Decidable (ReadsIssued s) := by
  unfold ReadsIssued
  split <;> infer_instance

/-- Requests do not overlap: an echo word only arrives when no request waits for
    its reply and the payload of the last reply has been read, and a request
    only ends when the frame generator is not busy. -/
def Apart (i : Input) (s : State) : Prop :=
  i.icmpPing = true → s.replyWait = false ∧ ReadsIssued s.tx.fg ∧
    (i.frEop = true → s.tx.fg.fgBusy = false)

instance (i : Input) (s : State) : Decidable (Apart i s) := by
  unfold Apart
  infer_instance

/-! ## The header -/

/-- The header words of a reply that carry the addresses. -/
def headerOk (r : Request) (k : ℕ) (w : Word) : Prop :=
  match k with
  | 0 => w = (0#16 ++ r.mac.extractLsb' 32 16 : BitVec 32)
  | 1 => w = r.mac.extractLsb' 0 32
  | 8 => w = r.ip
  | _ => True

/-- The header registers hold the addresses of `r`. -/
def Latched (r : Request) (s : HeaderGenerator.State) : Prop :=
  s.nextState ≠ .idle → s.ethHeader 0 = (0#16 ++ r.mac.extractLsb' 32 16 : BitVec 32) ∧
    s.ethHeader 1 = r.mac.extractLsb' 0 32 ∧ s.ipHeader 4 = r.ip

theorem latched_step {r : Request} {i : HeaderGenerator.Input} {s : HeaderGenerator.State}
    (h : Latched r s) (hmac : i.destMacAddr = r.mac) (hip : i.destIp = r.ip) :
    Latched r (HeaderGenerator.step i s) := by
  intro _
  obtain ⟨heth, hipw⟩ := HeaderGenerator.step_registers i s
  rw [heth, hipw]
  by_cases hn : s.nextState = .idle
  · simp [hn, HeaderGenerator.ethHeaderWords, HeaderGenerator.ipHeaderWords, hmac, hip]
  · simpa [hn] using h hn

/-- Latched addresses end up in the header words. -/
theorem emits_addresses {r : Request} {i : Input} {s : State} (h : Latched r s.tx.hg) :
    Emits hgConfig headerOk r (txInput i s) s.tx := by
  intro _ hv
  obtain ⟨h0, h1, h8⟩ := h fun hn => by simp [HeaderGenerator.stateMachine, hn] at hv
  cases hn : s.tx.hg.nextState <;>
    simp [HeaderGenerator.stateMachine, hn, HeaderGenerator.position, hgConfig, headerOk] at hv ⊢
  case eth0 => exact h0
  case eth1 => exact h1
  case ip4 => exact h8

/-- A valid packet is a reply to the addresses of its tag. -/
theorem replyOf_words {p : Packet Request} (h : p.Valid fgConfig hgConfig headerOk) :
    replyOf p.words = ⟨p.tag.mac, p.tag.ip, p.payload⟩ := by
  have hlen : p.header.length = 9 := h.header_length
  have hword : ∀ k < 9, ∃ w, p.words.getD k 0 = w ∧ headerOk p.tag k w := by
    intro k hk
    refine ⟨_, rfl, ?_⟩
    rw [List.getD_eq_getElem?_getD, Packet.words, List.getElem?_append_left (by omega),
      List.getElem?_eq_getElem (by omega)]
    exact h.header_ok k _ (List.getElem?_eq_getElem (by omega))
  obtain ⟨w0, e0, h0⟩ := hword 0 (by omega)
  obtain ⟨w1, e1, h1⟩ := hword 1 (by omega)
  obtain ⟨w8, e8, h8⟩ := hword 8 (by omega)
  have hmac : (lo w0 ++ w1 : BitVec 48) = p.tag.mac := by
    rw [h0, h1, lo_append]
    exact (BitVec.extractLsb'_append_extractLsb'_eq_extractLsb' rfl).trans
      BitVec.extractLsb'_eq_self
  have hpay : p.words.drop 9 = p.payload := List.drop_left' hlen
  rw [replyOf, e0, e1, e8, hmac, hpay, show w8 = p.tag.ip from h8]

/-! ## The invariant -/

/-- What has been received: the requests, and the words of the one not
    complete. -/
abbrev Received := List Request × List Word

/-- What has been received after an edge. -/
def receive (i : Input) (q : Received) : Received :=
  if i.icmpPing then
    if i.frEop then (q.1 ++ [⟨q.2 ++ [i.frDataOut], i.destMacAddr, i.destIpAddr⟩], [])
    else (q.1, q.2 ++ [i.frDataOut])
  else q

/-- No request waits: all are replied to, and the FIFO holds the words of the
    one not complete. -/
structure Quiet (q : Received) (done : List Request) (s : State) : Prop where
  replyWait : s.replyWait = false
  requests_eq : q.1 = done
  contents : s.fifo.contents = q.2

/-- The request `r` waits for its reply, and the FIFO holds its words. -/
structure Waiting (r : Request) (q : Received) (done : List Request) (s : State) : Prop where
  replyWait : s.replyWait = true
  fgBusy : s.tx.fg.fgBusy = false
  requests_eq : q.1 = done ++ [r]
  open_nil : q.2 = []
  contents : s.fifo.contents = r.words
  length_lt : r.words.length < 255
  mac : s.destMacAddrReg = r.mac
  ip : s.destIpAddrReg = r.ip
  sum : Closing s → s.sum = requestSum r.words
  checksum : ¬ Closing s → s.checksum = checksumOf (requestSum r.words)

/-- The request `r` is being replied to: `pay` of its reply has been read, and
    the FIFO holds the rest, followed by the words of the next request once the
    last read has been made. -/
structure Replying (r : Request) (pay : List Word) (q : Received) (done : List Request)
    (s : State) : Prop where
  requests_eq : q.1 = done ++ [r]
  length_eq : s.tx.fg.payloadLength = r.words.length + 1
  pay_eq : pay = r.payload.take pay.length
  wordNum : s.wordNum = pay.length
  fgDataIn : ∀ v, pay.getLast? = some v → s.fgDataIn = v
  contents : s.fifo.contents = r.words.drop pay.length ++ q.2
  fifoQ : ∀ k, pay.length = k + 1 → k < r.words.length → r.words[k]? = some s.fifoQ
  open_ne : q.2 ≠ [] → s.tx.fg.payloadLength ≤ pay.length
  checksum : pay = [] → s.checksum = checksumOf (requestSum r.words)
  mac : s.destMacAddrReg = r.mac
  ip : s.destIpAddrReg = r.ip
  latched : Latched r s.tx.hg

/-- What has been sent is the replies `ps` and the beginning of one, of whose
    payload `pay` has been read. -/
structure Inv (q : Received) (l : List Beat) (ps : List (Packet Request)) (t : Request)
    (pay : List Word) (s : State) : Prop where
  sends : Sends fgConfig hgConfig headerOk l ps t pay s.tx
  busy : FrameGenerator.BusyOk s.tx.fg
  payloads : ∀ p ∈ ps, p.payload = p.tag.payload
  rdy : s.payloadRdy = true → s.replyWait = true ∧ s.wordNum = 0
  closing : Closing s → s.replyWait = true ∧ s.payloadRdy = false ∧ ¬ Active s.tx
  sum : ¬ Closing s → s.sum = requestSum q.2
  between : ¬ Active s.tx →
    Quiet q (ps.map Packet.tag) s ∨ ∃ r, Waiting r q (ps.map Packet.tag) s
  replying : Active s.tx → Replying t pay q (ps.map Packet.tag) s

theorem inv_reset : Inv ([], []) [] [] ⟨[], 0, 0⟩ [] reset where
  sends := sends_reset _
  busy := fun _ => rfl
  payloads := by simp
  rdy := by simp [reset]
  closing := by simp [Closing, reset]
  sum := fun _ => rfl
  between := fun _ => .inl ⟨rfl, rfl, rfl⟩
  replying := by simp [Active, reset, Transmitter.reset, FrameGenerator.reset]

section

variable {q : Received} {l : List Beat} {ps : List (Packet Request)} {t : Request}
  {pay : List Word} {i : Input} {s : State}

/-- While `fg_busy` is low the frame generator is idle and reads nothing. -/
theorem Inv.idle (h : Inv q l ps t pay s) (hb : s.tx.fg.fgBusy = false) :
    s.tx.fg.nextState = .idle ∧ ¬ Active s.tx ∧ s.tx.fg.rdreqSig = false := by
  have hn := h.busy hb
  have hact : ¬ Active s.tx := fun ha => ha.1 hn
  exact ⟨hn, hact, (h.sends.resting hact).1.rdreq⟩

theorem Inv.fgBusy_of_active (h : Inv q l ps t pay s) (hact : Active s.tx) :
    s.tx.fg.fgBusy = true := by
  by_contra hb
  exact (h.idle (by simpa using hb)).2.1 hact

theorem closing_iff : Closing (step i s) ↔ i.frEop = true ∧ i.icmpPing = true := Iff.rfl

theorem replyWait_step :
    (step i s).replyWait = true ↔ s.tx.fg.fgBusy = false ∧
      (s.replyWait = true ∨ i.icmpPing = true ∧ i.frEop = true) := by
  simp only [step, replyBuffer]
  split_ifs <;> simp_all

theorem Inv.rdy_step (h : Inv q l ps t pay s) (hr : (step i s).payloadRdy = true) :
    (step i s).replyWait = true ∧ (step i s).wordNum = 0 := by
  have hr : (s.replyWait = true ∧ i.txReady = true) ∧ s.tx.fg.fgBusy = false := by
    simpa [step] using hr
  obtain ⟨⟨hw, -⟩, hb⟩ := hr
  refine ⟨replyWait_step.2 ⟨hb, .inl hw⟩, ?_⟩
  simp [step, hb, (h.idle hb).2.2]

/-- A request ends between replies, when none waits. -/
theorem Inv.closing_step (h : Inv q l ps t pay s) (hap : Apart i s) (hc : Closing (step i s)) :
    (step i s).replyWait = true ∧ (step i s).payloadRdy = false ∧ ¬ Active (step i s).tx := by
  obtain ⟨heop, hping⟩ := hc
  obtain ⟨hwait, -, hbusy⟩ := hap hping
  have hb := hbusy heop
  have hrdy : s.payloadRdy = false := by
    by_contra hr
    simp [(h.rdy (by simpa using hr)).1] at hwait
  refine ⟨replyWait_step.2 ⟨hb, .inr ⟨hping, heop⟩⟩, by simp [step, hwait], ?_⟩
  rintro ⟨hn, -⟩
  simp [step, Transmitter.step, FrameGenerator.step, FrameGenerator.stateMachine, fgInput, txInput,
    (h.idle hb).1, hrdy] at hn

/-- The sum is that of the words of the request not complete, and of the whole
    request at its end. -/
theorem Inv.sum_step (h : Inv q l ps t pay s) (hdel : Delivered i s) :
    (step i s).sum = requestSum (if i.icmpPing then q.2 ++ [i.frDataOut] else q.2) := by
  by_cases hc : Closing s
  · have hping := hdel.2 hc
    have hopen : q.2 = [] := by
      obtain ⟨hw, -, hact⟩ := h.closing hc
      rcases h.between hact with hq | ⟨r, hr⟩
      · simp [hq.replyWait] at hw
      · exact hr.open_nil
    simp [step, checksumComputer, hc, hping, hopen, requestSum]
  · cases hping : i.icmpPing
    · simp [step, checksumComputer, hc, hping, h.sum hc]
    · simp [step, checksumComputer, hc, hping, hdel.1 hping, h.sum hc, requestSum]

/-- An arriving word goes to the end of the FIFO. -/
theorem contents_step (hdel : Delivered i s)
    (hroom : i.icmpPing = true → s.fifo.contents.length < 256) :
    (step i s).fifo.contents =
      (if s.tx.fg.rdreqSig then s.fifo.contents.tail else s.fifo.contents) ++
        if i.icmpPing then [i.frDataOut] else [] := by
  cases hping : i.icmpPing
  · simp [step, fifoWrreq, hping]
  · simp [step, fifoWrreq, hping, hdel.1 hping, Fifo.accepted_of_lt _ _ (hroom hping)]

/-- What an edge has to show about the packets sent and the request in hand. -/
theorem Inv.assemble (h : Inv q l ps t pay s) (hdel : Delivered i s) (hap : Apart i s)
    {ps' : List (Packet Request)} {t' : Request} {pay' : List Word}
    (hsends : Sends fgConfig hgConfig headerOk (l ++ output i s) ps' t' pay' (step i s).tx)
    (hpay : ∀ p ∈ ps', p.payload = p.tag.payload)
    (hbetween : ¬ Active (step i s).tx → Quiet (receive i q) (ps'.map Packet.tag) (step i s) ∨
      ∃ r, Waiting r (receive i q) (ps'.map Packet.tag) (step i s))
    (hreplying : Active (step i s).tx →
      Replying t' pay' (receive i q) (ps'.map Packet.tag) (step i s)) :
    Inv (receive i q) (l ++ output i s) ps' t' pay' (step i s) where
  sends := hsends
  busy := h.busy.step
  payloads := hpay
  rdy := h.rdy_step
  closing := h.closing_step hap
  sum := by
    intro hc
    rw [h.sum_step hdel]
    cases hping : i.icmpPing
    · simp [receive, hping]
    · have heop : i.frEop = false := by
        by_contra he
        exact hc (closing_iff.2 ⟨by simpa using he, hping⟩)
      simp [receive, hping, heop]
  between := hbetween
  replying := hreplying

/-- Without a word the reception stands still. -/
theorem receive_of_not (hping : i.icmpPing = false) : receive i q = q := by
  simp [receive, hping]

/-- Nothing is read, and no request is in hand: a word goes to the FIFO, and the
    last word of a request makes it wait. -/
theorem Inv.quiet_step (h : Inv q l ps t pay s) {done : List Request}
    (hcontents : s.fifo.contents = q.2) (hreq : q.1 = done) (hrd : s.tx.fg.rdreqSig = false)
    (hbusy : s.replyWait = true → s.tx.fg.fgBusy = true) (hdel : Delivered i s)
    (hap : Apart i s) (hlen : i.icmpPing = true → q.2.length < 254) :
    Quiet (receive i q) done (step i s) ∨ ∃ r, Waiting r (receive i q) done (step i s) := by
  have hc : (step i s).fifo.contents = q.2 ++ if i.icmpPing then [i.frDataOut] else [] := by
    rw [contents_step hdel fun hp => by rw [hcontents]; have := hlen hp; omega, hrd, hcontents]
    rfl
  have hwait' : (step i s).replyWait = true ↔
      s.tx.fg.fgBusy = false ∧ i.icmpPing = true ∧ i.frEop = true := by
    rw [replyWait_step]
    refine and_congr_right fun hb => ⟨fun hw => hw.resolve_left fun hw => ?_, .inr⟩
    simp [hbusy hw] at hb
  by_cases hend : i.icmpPing = true ∧ i.frEop = true
  · obtain ⟨hping, heop⟩ := hend
    obtain ⟨hwait, -, hb⟩ := hap hping
    have hb := hb heop
    have hrdy : s.payloadRdy = false := by
      by_contra hr
      simp [(h.rdy (by simpa using hr)).1] at hwait
    have hlen := hlen hping
    refine .inr ⟨⟨q.2 ++ [i.frDataOut], i.destMacAddr, i.destIpAddr⟩, hwait'.2 ⟨hb, hping, heop⟩,
      ?_, ?_, ?_, ?_, ?_, ?_, ?_, fun _ => ?_, fun hn => absurd ⟨heop, hping⟩ hn⟩
    · exact (FrameGenerator.fgBusy_step _ _ _).trans (by rw [if_pos (h.idle hb).1]; exact hrdy)
    · simp [receive, hping, heop, hreq]
    · simp [receive, hping, heop]
    · simp [hc, hping]
    · rw [List.length_append, List.length_singleton]
      omega
    · simp [step, replyBuffer, hb, hwait, hping, heop]
    · simp [step, replyBuffer, hb, hwait, hping, heop]
    · rw [h.sum_step hdel, if_pos hping]
  · refine .inl ⟨?_, ?_, ?_⟩
    · by_contra hw
      exact hend (hwait'.1 (by simpa using hw)).2
    · rw [← hreq, receive]
      split_ifs with hp he
      · exact absurd ⟨hp, he⟩ hend
      · rfl
      · rfl
    · rw [hc, receive]
      split_ifs with hp he
      · exact absurd ⟨hp, he⟩ hend
      · rfl
      · rw [List.append_nil]

/-- Nothing is read, and a request waits: no word arrives, and the checksum is
    made at the first edge. -/
theorem Inv.waiting_step (h : Inv q l ps t pay s) {r : Request} {done : List Request}
    (hw : Waiting r q done s) (hdel : Delivered i s) (hap : Apart i s) :
    (step i s).replyWait = true ∧ receive i q = q ∧ (step i s).fifo.contents = r.words ∧
      (step i s).destMacAddrReg = r.mac ∧ (step i s).destIpAddrReg = r.ip ∧
      ¬ Closing (step i s) ∧ (step i s).checksum = checksumOf (requestSum r.words) := by
  have hping : i.icmpPing = false := by
    by_contra hp
    simpa [hw.replyWait] using (hap (by simpa using hp)).1
  have hrd := (h.idle hw.fgBusy).2.2
  refine ⟨replyWait_step.2 ⟨hw.fgBusy, .inl hw.replyWait⟩, receive_of_not hping, ?_, ?_, ?_, ?_, ?_⟩
  · rw [contents_step hdel (by simp [hping])]
    simp [hrd, hping, hw.contents]
  · simp [step, replyBuffer, hw.fgBusy, hw.replyWait, hw.mac]
  · simp [step, replyBuffer, hw.fgBusy, hw.replyWait, hw.ip]
  · simp [closing_iff, hping]
  · by_cases hc : Closing s
    · simp [step, checksumComputer, hc, hw.sum hc]
    · simp [step, checksumComputer, hc, hping, hw.checksum hc]

/-- Between replies. -/
theorem Inv.rest (h : Inv q l ps t pay s) (hdel : Delivered i s) (hap : Apart i s)
    (hlen : i.icmpPing = true → q.2.length < 254) (hact : ¬ Active s.tx)
    (hi : s.tx.fg.nextState = .idle → s.payloadRdy = false) :
    Inv (receive i q) (l ++ output i s) ps t pay (step i s) := by
  obtain ⟨hs', hrest, hrest'⟩ := h.sends.hold (c := fgConfig) (i := txInput i s) hact hi
  refine h.assemble hdel hap hs' h.payloads (fun _ => ?_) fun ha => absurd ha hrest'.not_active
  rcases h.between hact with hq | ⟨r, hw⟩
  · exact h.quiet_step hq.contents hq.requests_eq hrest.rdreq (by simp [hq.replyWait]) hdel hap hlen
  · obtain ⟨hwait, hrec, hc, hmac, hip, hcl, hsum⟩ := h.waiting_step hw hdel hap
    have hn := (h.idle hw.fgBusy).1
    rw [hrec]
    refine .inr ⟨r, hwait, ?_, hw.requests_eq, hw.open_nil, hc, hw.length_lt, hmac, hip,
      fun hc => absurd hc hcl, fun _ => hsum⟩
    exact (FrameGenerator.fgBusy_step _ _ _).trans (by rw [if_pos hn]; exact hi hn)

/-- `payload_rdy` starts the reply to the request that waits. -/
theorem Inv.start (h : Inv q l ps t pay s) (hdel : Delivered i s) (hap : Apart i s)
    (hn : s.tx.fg.nextState = .idle) (hi : s.payloadRdy = true) :
    ∃ r, Inv (receive i q) (l ++ output i s) ps r [] (step i s) := by
  have hact : ¬ Active s.tx := fun ha => ha.1 hn
  obtain ⟨hwait, hnum⟩ := h.rdy hi
  obtain ⟨r, hw⟩ := (h.between hact).resolve_left fun hq => by simp [hq.replyWait] at hwait
  obtain ⟨hs', rfl, hrest, hlen⟩ :=
    h.sends.start (c := fgConfig) (i := txInput i s) hn hi (by decide) r
  obtain ⟨-, hrec, hc, hmac, hip, -, hsum⟩ := h.waiting_step hw hdel hap
  have hnext : (step i s).tx.fg.nextState = .payloadHeader := by
    simp [step, Transmitter.step, FrameGenerator.step, FrameGenerator.stateMachine, fgInput,
      txInput, hn, hi]
  refine ⟨r, h.assemble hdel hap hs' h.payloads (fun ha => absurd ?_ ha) fun _ => ?_⟩
  · simp [Active, hnext]
  · have hlt := hw.length_lt
    have hused : (usedwIn s).toNat = r.words.length + 1 := by
      rw [usedwIn_toNat, Fifo.usedw, hw.contents, Nat.mod_eq_of_lt (by omega)]
    rw [hrec]
    refine ⟨hw.requests_eq, ?_, rfl, ?_, by simp, ?_, by simp, ?_, fun _ => hsum, hmac, hip, ?_⟩
    · refine hlen.trans ?_
      rw [show (txInput i s).usedwIn = usedwIn s from rfl, hused,
        show fgConfig.payloadMaxLen.toNat = 511 from rfl]
      omega
    · simp [step, hrest.rdreq, hw.fgBusy]
    · rw [hw.open_nil, hc]
      simp
    · simp [hw.open_nil]
    · have hidle : HeaderGenerator.AtRest (step i s).tx.hg := hrest.hg_rest.step hrest.headerStart
      exact fun hne => absurd hidle.1 hne

/-- A word that arrives during a reply comes when all its words have been
    requested. -/
theorem Inv.read_of_ping (h : Inv q l ps t pay s) (hact : Active s.tx) (hap : Apart i s)
    (hping : i.icmpPing = true) :
    s.tx.fg.payloadLength ≤ pay.length + s.tx.fg.rdreqSig.toNat := by
  obtain ⟨-, hri, -⟩ := hap hping
  cases he : s.tx.fg.eopSig
  · rcases h.sends.reading with ⟨-, -, hn⟩ | ⟨sent, hread⟩
    · simp [ReadsIssued, (hn hact he).1] at hri
    · have hpl := hread.pay_length
      have hpos := hread.length_pos
      have hle : s.tx.fg.payloadLength ≤ FrameGenerator.position fgConfig s.tx.fg := by
        rcases hread.phase with ⟨hn, -⟩ | ⟨hn, -⟩ | ⟨hn, -⟩ <;> simpa [ReadsIssued, hn] using hri
      rw [hread.rdreq]
      by_cases hp : FrameGenerator.position fgConfig s.tx.fg ≤ s.tx.fg.payloadLength
      · rw [decide_eq_true ⟨by omega, hp⟩, Bool.toNat_true]
        omega
      · omega
  · obtain ⟨-, hpay, -⟩ := h.sends.finish (i := txInput i s) rfl (by decide) he
    omega

/-- The word marked `eop` completes the reply. -/
theorem Inv.finish (h : Inv q l ps t pay s) (hdel : Delivered i s) (hap : Apart i s)
    (hlen : i.icmpPing = true → q.2.length < 254) (he : s.tx.fg.eopSig = true) :
    ∃ p, Inv (receive i q) (l ++ output i s) (ps ++ [p]) t [] (step i s) := by
  have hact : Active s.tx := by
    by_contra hact
    simp [(h.sends.resting hact).1.eop] at he
  obtain ⟨hrd, hpl, hrest', p, htag, hpay, hs'⟩ :=
    h.sends.finish (i := txInput i s) rfl (by decide) he
  have hrep := h.replying hact
  have hpl : pay.length = t.words.length + 1 := hpl.trans hrep.length_eq
  have hwhole : pay = t.payload := by
    rw [hrep.pay_eq, List.take_of_length_le]
    rw [Request.payload, List.length_cons, hpl]
  refine ⟨p, h.assemble hdel hap hs' ?_ (fun _ => ?_) fun ha => absurd ha hrest'.not_active⟩
  · intro p' hp'
    rcases List.mem_append.1 hp' with hp' | hp'
    · exact h.payloads p' hp'
    · rw [List.mem_singleton.1 hp', hpay, hwhole, htag]
  · have hreq : q.1 = (ps ++ [p]).map Packet.tag := by
      rw [hrep.requests_eq, List.map_append, List.map_singleton, htag]
    have hcontents : s.fifo.contents = q.2 := by
      rw [hrep.contents, List.drop_eq_nil_of_le (by omega), List.nil_append]
    exact h.quiet_step hcontents hreq hrd (fun _ => h.fgBusy_of_active hact) hdel hap hlen

/-- While words are read, the next word of the reply is handed over. -/
theorem Inv.payload_next (h : Inv q l ps t pay s) (hrd : s.tx.fg.rdreqSig = true) :
    Active s.tx ∧ pay.length ≤ t.words.length ∧ t.payload[pay.length]? = some (payloadWord s) := by
  obtain ⟨sent, hread⟩ := h.sends.reading.resolve_left fun hn => by simp [hn.2.1] at hrd
  have hact : Active s.tx := active_of_inPayload hread.toInPayload
  have hrep := h.replying hact
  have hlen := hrep.length_eq
  have hpl := hread.pay_length
  rw [hread.rdreq, decide_eq_true_eq] at hrd
  refine ⟨hact, by omega, ?_⟩
  rw [payloadWord, hrep.wordNum]
  cases hk : pay.length with
  | zero => simp [Request.payload, hrep.checksum (List.length_eq_zero_iff.1 hk)]
  | succ k => simpa [Request.payload] using hrep.fifoQ k hk (by omega)

/-- The FIFO gives up one word of the request for each word read. -/
theorem Replying.contents_tail {done : List Request} (h : Replying t pay q done s)
    (hle : pay.length ≤ t.words.length) :
    s.fifo.contents.tail = t.words.drop (pay.length + 1) ++ q.2 ∧
      ∀ w, t.words[pay.length]? = some w → s.fifo.nextQ true s.fifoQ = w := by
  rcases Nat.lt_or_ge pay.length t.words.length with hlt | hge
  · have hc : s.fifo.contents =
        t.words[pay.length] :: (t.words.drop (pay.length + 1) ++ q.2) := by
      rw [h.contents, List.drop_eq_getElem_cons hlt, List.cons_append]
    refine ⟨by rw [hc, List.tail_cons], fun w hw => ?_⟩
    rw [List.getElem?_eq_getElem hlt] at hw
    simpa [Fifo.nextQ, hc] using hw
  · have hopen : q.2 = [] := by
      by_contra hne
      have := h.open_ne hne
      rw [h.length_eq] at this
      omega
    refine ⟨?_, fun w hw => ?_⟩
    · rw [h.contents, hopen, List.drop_eq_nil_of_le hge, List.drop_eq_nil_of_le (by omega)]
      rfl
    · rw [List.getElem?_eq_none hge] at hw
      simp at hw

/-- Inside a reply, before its last word. -/
theorem Inv.advance (h : Inv q l ps t pay s) (hdel : Delivered i s) (hap : Apart i s)
    (hlen : i.icmpPing = true → q.2.length < 254) (hact : Active s.tx)
    (he : s.tx.fg.eopSig = false) :
    ∃ pay', Inv (receive i q) (l ++ output i s) ps t pay' (step i s) := by
  have hrep := h.replying hact
  have hbusy := h.fgBusy_of_active hact
  have hcl : ¬ Closing s := fun hc => (h.closing hc).2.2 hact
  have heop : i.icmpPing = true → i.frEop = false := by
    intro hp
    by_contra heop
    simpa [hbusy] using (hap hp).2.2 (by simpa using heop)
  have hrec : receive i q = (q.1, q.2 ++ if i.icmpPing then [i.frDataOut] else []) := by
    cases hp : i.icmpPing
    · simp [receive, hp]
    · simp [receive, hp, heop hp]
  have hroom : i.icmpPing = true → s.fifo.contents.length < 256 := by
    intro hp
    have hread := h.read_of_ping hact hap hp
    have hle : t.words.length ≤ pay.length := by
      have := Bool.toNat_le s.tx.fg.rdreqSig
      rw [hrep.length_eq] at hread
      omega
    rw [hrep.contents, List.drop_eq_nil_of_le hle, List.nil_append]
    have := hlen hp
    omega
  have hpl : (step i s).tx.fg.payloadLength = s.tx.fg.payloadLength :=
    FrameGenerator.payloadLength_step hact.1
  have hmac : (step i s).destMacAddrReg = t.mac := by simp [step, replyBuffer, hbusy, hrep.mac]
  have hip : (step i s).destIpAddrReg = t.ip := by simp [step, replyBuffer, hbusy, hrep.ip]
  have hsum : (step i s).checksum = s.checksum := by
    simp only [step, checksumComputer, if_neg hcl]
    split_ifs <;> rfl
  have hlatch : Latched t (step i s).tx.hg := latched_step hrep.latched hrep.mac hrep.ip
  have hcontents := contents_step (i := i) (s := s) hdel hroom
  have hs' : ∀ taken : List Word, taken.length = s.tx.fg.rdreqSig.toNat →
      Sends fgConfig hgConfig headerOk (l ++ output i s) ps t (pay ++ taken) (step i s).tx :=
    fun taken htaken => h.sends.advance rfl (by decide) rfl hact he (emits_addresses hrep.latched)
      htaken fun _ hread => hread.answers_of_getLast rfl hrep.fgDataIn
  have hact' : Active (step i s).tx :=
    (h.sends.edgesLeft_step (i := txInput i s) rfl hact he (by rw [hrep.length_eq]; omega)).1
  cases hrd : s.tx.fg.rdreqSig
  · refine ⟨pay, h.assemble hdel hap (by simpa using hs' [] (by simp [hrd])) h.payloads
      (fun ha => absurd hact' ha) fun _ => ?_⟩
    rw [hrec]
    refine ⟨hrep.requests_eq, hpl.trans hrep.length_eq, hrep.pay_eq, ?_, ?_, ?_, ?_, fun hne => ?_,
      fun hp => hsum.trans (hrep.checksum hp), hmac, hip, hlatch⟩
    · simp [step, hrd, hbusy, hrep.wordNum]
    · simpa [step, hrd] using hrep.fgDataIn
    · simp [hcontents, hrd, hrep.contents]
    · simpa [step, hrd] using hrep.fifoQ
    · rw [hpl]
      cases hp : i.icmpPing
      · exact hrep.open_ne (by simpa [hp] using hne)
      · simpa [hrd] using h.read_of_ping hact hap hp
  · obtain ⟨-, hle, hnext⟩ := h.payload_next hrd
    obtain ⟨htail, hq⟩ := hrep.contents_tail hle
    refine ⟨pay ++ [payloadWord s], h.assemble hdel hap (hs' _ (by simp [hrd])) h.payloads
      (fun ha => absurd hact' ha) fun _ => ?_⟩
    rw [hrec]
    refine ⟨hrep.requests_eq, hpl.trans hrep.length_eq, ?_, ?_, ?_, ?_, fun k hk hlt => ?_,
      fun hne => ?_, by simp, hmac, hip, hlatch⟩
    · rw [List.length_append, List.length_singleton, List.take_add_one, hnext, ← hrep.pay_eq]
      rfl
    · simp [step, hrd, hrep.wordNum]
    · simp [step, hrd]
    · simp [hcontents, hrd, htail]
    · have hk : pay.length = k := by simpa using hk
      rw [← hk] at hlt ⊢
      simp [step, hrd, hq _ (List.getElem?_eq_getElem hlt), hlt]
    · rw [hpl]
      cases hp : i.icmpPing
      · have := hrep.open_ne (by simpa [hp] using hne)
        rw [List.length_append]
        omega
      · simpa [hrd] using h.read_of_ping hact hap hp

/-- An edge keeps the invariant. -/
theorem inv_step (h : Inv q l ps t pay s) (hdel : Delivered i s) (hap : Apart i s)
    (hlen : i.icmpPing = true → q.2.length < 254) :
    ∃ ps' t' pay', Inv (receive i q) (l ++ output i s) ps' t' pay' (step i s) := by
  by_cases hact : Active s.tx
  · cases he : s.tx.fg.eopSig
    · exact ⟨ps, t, h.advance hdel hap hlen hact he⟩
    · obtain ⟨p, h'⟩ := h.finish hdel hap hlen he
      exact ⟨ps ++ [p], t, [], h'⟩
  · by_cases hgo : s.tx.fg.nextState = .idle ∧ s.payloadRdy = true
    · obtain ⟨r, h'⟩ := h.start hdel hap hgo.1 hgo.2
      exact ⟨ps, r, [], h'⟩
    · exact ⟨ps, t, pay, h.rest hdel hap hlen hact fun hn => by simpa [hn] using hgo⟩

end

/-! ## Runs -/

/-- What has been received, made of the echo words that arrived. -/
def received (e : List Echo) : Received :=
  ((requests e).1.map requestOf, (requests e).2.map Echo.data)

theorem received_step {i : Input} {s : State} (hdel : i.icmpPing = true → i.frDval = true)
    (e : List Echo) :
    received (e ++ arriving i s) = receive i (received e) := by
  cases hping : i.icmpPing
  · simp [arriving, receive, hping]
  · have harr : arriving i s = [⟨i.frDataOut, i.destMacAddr, i.destIpAddr, i.frEop⟩] := by
      simp [arriving, hping, hdel hping]
    rw [harr, received, requests]
    cases heop : i.frEop
    · rw [cut_concat_open Echo.eop e _ rfl]
      simp [receive, received, requests, hping, heop]
    · rw [cut_concat_last Echo.eop e _ rfl]
      simp [receive, received, requests, requestOf, hping, heop]

/-- The inputs when the ports of the frame receiver stand at the values of `r`,
    and the other inputs are those of `env`. -/
def heard (env : Input) (r : FrameReciever.State) : Input :=
  { env with
    frDataOut := r.frameWord
    frDval := r.dataValid
    frEop := r.eop
    icmpPing := r.icmpPing
    destMacAddr := r.sourceMacAddr
    destIpAddr := r.sourceIpAddr }

/-- The frame receiver delivers echo words as `Delivered` says. -/
theorem delivered_heard {xs : List (FrameReciever.Input × Input)}
    (hw : Along (fun x => FrameReciever.step x.1) (fun x => FrameReciever.WellFramed x.1)
      FrameReciever.reset xs) :
    Along step Delivered reset
      (log (fun x => FrameReciever.step x.1) (fun x r => [heard x.2 r])
        FrameReciever.reset xs) := by
  suffices h : ∀ is : List Input,
      is = log (fun x => FrameReciever.step x.1) (fun x r => [heard x.2 r]) FrameReciever.reset xs →
      Along step Delivered reset is ∧ (Closing (run step reset is) →
        (run (fun x => FrameReciever.step x.1) FrameReciever.reset xs).icmpPing = false) from
    (h _ rfl).1
  rintro is rfl
  induction xs using List.reverseRecOn with
  | nil => simp [Closing, reset]
  | append_singleton xs x ih =>
    rw [along_concat] at hw
    obtain ⟨hdel, hclose⟩ := ih hw.1
    have hok : FrameReciever.PingOk
        (run (fun x => FrameReciever.step x.1) FrameReciever.reset xs) :=
      run_invariant _ FrameReciever.pingOk_reset (fun _ _ hw h => h.step hw) hw.1
    rw [log_concat, run_concat, run_concat, along_concat]
    refine ⟨⟨hdel, hok.dataValid, hclose⟩, fun hc => ?_⟩
    obtain ⟨heop, hping⟩ := closing_iff.1 hc
    exact FrameReciever.icmpPing_of_wordNum (hok.eop hping heop)

/-- Every request received, the one not complete included, has at most 100
    words. -/
def Short (e : List Echo) : Prop := ∀ f ∈ (requests e).1 ++ [(requests e).2], f.length ≤ 100

instance (e : List Echo) : Decidable (Short e) := by
  unfold Short
  infer_instance

/-- The invariant holds after every run of edges that keep requests apart. -/
theorem inv_run {s : State} {t : Request} (h₀ : Inv ([], []) [] [] t [] s) {is : List Input}
    (hlen : ∀ f ∈ (requests (log step arriving s is)).1 ++ [(requests (log step arriving s is)).2],
      f.length ≤ 254)
    (hdel : Along step Delivered s is) (hap : Along step Apart s is) :
    ∃ ps t' pay, Inv (received (log step arriving s is)) (log step output s is) ps t' pay
      (run step s is) := by
  induction is using List.reverseRecOn with
  | nil => exact ⟨_, _, _, h₀⟩
  | append_singleton is i ih =>
    rw [along_concat] at hdel hap
    rw [log_concat] at hlen
    have hroom : (∀ f ∈ (requests (log step arriving s is)).1 ++
          [(requests (log step arriving s is)).2], f.length ≤ 254) ∧
        (i.icmpPing = true → (received (log step arriving s is)).2.length < 254) := by
      cases hping : i.icmpPing
      · exact ⟨by simpa [arriving, hping] using hlen, by simp⟩
      · have harr : arriving i (run step s is) =
            [⟨i.frDataOut, i.destMacAddr, i.destIpAddr, i.frEop⟩] := by
          simp [arriving, hping, hdel.2.1 hping]
        rw [harr] at hlen
        obtain ⟨hshort, hlt⟩ := cut_length_of_concat Echo.eop hlen
        exact ⟨hshort, fun _ => by simpa [received, requests] using hlt⟩
    obtain ⟨ps, t, pay, h⟩ := ih hroom.1 hdel.1 hap.1
    rw [log_concat, log_concat, run_concat, received_step hdel.2.1]
    exact inv_step h hdel.2 hap.2 hroom.2

/-- The packets sent are the replies to their tags. -/
theorem Inv.replies_eq {q : Received} {l : List Beat} {ps : List (Packet Request)} {t : Request}
    {pay : List Word} {s : State} (h : Inv q l ps t pay s) :
    replies l = (ps.map Packet.tag).map Request.reply := by
  rw [replies, show (fun f : List Beat => replyOf (f.map Beat.data)) =
    replyOf ∘ List.map Beat.data from rfl, ← List.map_map, h.sends.sent, List.map_map,
    List.map_map]
  refine List.map_congr_left fun p hp => ?_
  rw [Function.comp_apply, replyOf_words (h.sends.valid p hp), h.payloads p hp]
  rfl

/-- The replies are those to the first requests, in order. -/
theorem replies_in_order {is : List Input} (hlen : Short (log step arriving reset is))
    (hdel : Along step Delivered reset is) (hap : Along step Apart reset is) :
    replies (log step output reset is) <+:
      (requests (log step arriving reset is)).1.map fun f => (requestOf f).reply := by
  obtain ⟨ps, t, pay, h⟩ := inv_run inv_reset (fun f hf => (hlen f hf).trans (by decide)) hdel hap
  have hreq : ps.map Packet.tag <+: (received (log step arriving reset is)).1 := by
    by_cases hact : Active (run step reset is).tx
    · rw [(h.replying hact).requests_eq]
      exact List.prefix_append _ _
    · rcases h.between hact with hq | ⟨r, hw⟩
      · rw [hq.requests_eq]
      · rw [hw.requests_eq]
        exact List.prefix_append _ _
  rw [h.replies_eq]
  simpa [received, Function.comp_def] using hreq.map Request.reply

/-- Every reply frame sent in the run `is` carries the words, the checksum and
    the addresses of one request received. -/
def Faithful (is : List Input) : Prop :=
  ∀ r ∈ replies (log step output reset is),
    ∃ f ∈ (requests (log step arriving reset is)).1, r = (requestOf f).reply

instance (is : List Input) : Decidable (Faithful is) := by
  unfold Faithful
  infer_instance

/-- In every run in which requests do not overlap, every reply is that to one
    request. -/
theorem replies_carry_requests (is : List Input) (hlen : Short (log step arriving reset is))
    (hdel : Along step Delivered reset is) (hap : Along step Apart reset is) : Faithful is := by
  intro r hr
  obtain ⟨f, hf, rfl⟩ := List.mem_map.1 ((replies_in_order hlen hdel hap).subset hr)
  exact ⟨f, hf, rfl⟩

/-- An edge without an echo word. -/
def quietEdge (txReady : Bool) : Input where
  frDataOut := 0
  frDval := false
  frEop := false
  icmpPing := false
  txReady := txReady
  sourceMacAddr := 0xEE1122334455
  destMacAddr := 0
  sourceIpAddr := 0xC0A80003
  destIpAddr := 0

/-- The edges at which a request with the words `ws` from `ip` arrives, after the
    header of its frame. -/
def request (txReady : Bool) (ip : IpAddr) (ws : List Word) : List Input :=
  List.replicate 10 (quietEdge txReady) ++ ws.mapIdx fun k w =>
    { quietEdge txReady with
      frDataOut := w
      frDval := true
      frEop := decide (k + 1 = ws.length)
      icmpPing := true
      destMacAddr := 0x6CB311517434
      destIpAddr := ip }

/-- Two requests, the second one after the reply to the first. -/
def sample : List Input :=
  request true 0xC0A80001 [0x58F10001, 0x9219855D] ++ List.replicate 30 (quietEdge true) ++
    request true 0xC0A80002 [0x58F10002, 0x10111213, 0x14151617] ++
    List.replicate 30 (quietEdge true)

theorem replies_carry_requests_sample :
    (replies (log step output reset sample)).length = 2 ∧ Faithful sample :=
  ⟨by decide +kernel,
    replies_carry_requests sample (by decide +kernel) (by decide +kernel) (by decide +kernel)⟩

/-- Two requests, the second one while the first waits for `tx_ready`. -/
def overlap : List Input :=
  request false 0xC0A80001 [0x58F10001, 0x9219855D] ++
    request false 0xC0A80002 [0x58F10002, 0x10111213, 0x14151617] ++
    List.replicate 30 (quietEdge true)

/-- The words of both requests are in one reply. -/
theorem overlapping_requests :
    Short (log step arriving reset overlap) ∧ Along step Delivered reset overlap ∧
      ¬ Faithful overlap := by
  refine ⟨?_, ?_, ?_⟩ <;> decide +kernel

end FpgaEthernet.IcmpBlock
