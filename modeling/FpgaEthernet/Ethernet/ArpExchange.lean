import FpgaEthernet.Ethernet.ArpBlock
import FpgaEthernet.Ethernet.ArpReception

/-!
# `arp_block` behind the receiver

`ethernet_frame_reciever` and `arp_block` as `ethernet_block` connects them, with
the registers of `config_dff`. An order is what the reply buffer takes in: the
address of a requester, or a request of our own. Which addresses the header gets
is not the order's to say: they come from the receiver.

Main results:

* `Generating.step`: the payload generator puts out the words of the order.
* `Inv.step`: every frame carries the words of its order, as long as every edge
  is `Undisturbed`.
* `served_run`: in every such run the frames sent are those of the orders, in
  turn.
-/

namespace FpgaEthernet.ArpExchange

open Clocked Transmitter

/-! ## Model -/

/-- The MAC words, `tx_ready`, what the cache asks for, and the addresses in the
    configuration registers. -/
structure Input where
  rxData : Word
  rxEop : Bool
  rxSop : Bool
  rxDval : Bool
  txReady : Bool
  generateRequest : Bool
  configMac : MacAddr
  configIp : IpAddr
  configDestIp : IpAddr
  deriving DecidableEq

/-- The receiver, `arp_block`, and `source_mac_addr`, `source_ip_addr` and
    `dest_ip_addr` (`ethernet_block.vhd` lines 513-533). -/
structure State where
  rx : FrameReciever.State
  arp : ArpBlock.State
  sourceMacAddr : MacAddr
  sourceIpAddr : IpAddr
  destIpAddr : IpAddr

/-- The ports of the receiver (lines 605-632). -/
def rxInput (i : Input) (s : State) : FrameReciever.Input where
  rxData := i.rxData
  rxEop := i.rxEop
  rxSop := i.rxSop
  rxDval := i.rxDval
  ourIpAddr := s.sourceIpAddr

/-- The ports of `arp_block` (lines 635-651), with `arp_dest_mac_addr` and
    `arp_dest_ip_addr` (lines 565-566). -/
def arpInput (i : Input) (s : State) : ArpBlock.Input where
  txReady := i.txReady
  generateReply := s.rx.generateArpReply
  generateRequest := i.generateRequest
  sourceMacAddr := s.sourceMacAddr
  destMacAddr := s.rx.sourceMacAddr
  sourceIpAddr := s.sourceIpAddr
  destIpAddr := s.rx.sourceIpAddr
  reqIpAddr := s.destIpAddr

/-- One edge of `clock`. -/
def step (i : Input) (s : State) : State where
  rx := FrameReciever.step (rxInput i s) s.rx
  arp := ArpBlock.step (arpInput i s) s.arp
  sourceMacAddr := i.configMac
  sourceIpAddr := i.configIp
  destIpAddr := i.configDestIp

/-- The registers when reset is released, with any configuration. -/
def reset (mac : MacAddr) (ip destIp : IpAddr) : State where
  rx := FrameReciever.reset
  arp := ArpBlock.reset
  sourceMacAddr := mac
  sourceIpAddr := ip
  destIpAddr := destIp

/-! ## Orders -/

/-- What the reply buffer takes in, with our own addresses at that time. -/
structure Order where
  isRequest : Bool
  targetMac : MacAddr
  targetIp : IpAddr
  sourceMac : MacAddr
  sourceIp : IpAddr
  deriving DecidableEq

/-- The order taken in at an edge (`arp_block.vhd` lines 337-346). -/
def raised (i : Input) (s : State) : List Order :=
  if s.arp.tx.fg.fgBusy = false ∧ s.arp.replyWait = false then
    if s.rx.generateArpReply then
      [⟨false, s.rx.sourceMacAddr, s.rx.sourceIpAddr, i.configMac, i.configIp⟩]
    else if s.arp.generateRequestInt then
      [⟨true, 0, s.destIpAddr, i.configMac, i.configIp⟩]
    else []
  else []

/-- The words put on the outputs of `arp_block` with `dval` high. -/
def output (_ : Input) (s : State) : List Beat := written s.arp.tx

/-- The words fed to the receiver. -/
def fed (i : Input) (_ : State) : List Beat :=
  if i.rxDval then [⟨i.rxData, i.rxSop, i.rxEop⟩] else []

/-- The operation code of an order. -/
def Order.operation (o : Order) : BitVec 16 := if o.isRequest then arpRequest else arpReply

/-- Word `k` of the payload for an order, with the sender addresses `mac` and
    `ip`. -/
def arpWord (o : Order) (mac : MacAddr) (ip : IpAddr) : ℕ → Word
  | 0 => ArpReplier.typeWord
  | 1 => (ArpReplier.lengths ++ o.operation : BitVec 32)
  | 2 => mac.extractLsb' 16 32
  | 3 => (mac.extractLsb' 0 16 ++ hi ip : BitVec 32)
  | 4 => (lo ip ++ o.targetMac.extractLsb' 32 16 : BitVec 32)
  | 5 => o.targetMac.extractLsb' 0 32
  | _ => o.targetIp

/-- The order is in the reply buffer. -/
structure Held (o : Order) (s : State) : Prop where
  isRequest : s.arp.isRequest = o.isRequest
  targetMac : s.arp.destMacAddrReg = o.targetMac
  targetIp : s.arp.destIpAddrReg = o.targetIp

/-! ## What is asked of a frame -/

section

variable (dest : Order → Option MacAddr) (keep : Order → Prop)

/-- The header words of the frame for an order: the destination, if `dest` says
    one, and our own address, if it is to be as it was. -/
def HeaderOk (o : Order) (k : ℕ) (w : Word) : Prop :=
  match k with
  | 0 => ∀ m, dest o = some m → w = (0#16 ++ m.extractLsb' 32 16 : BitVec 32)
  | 1 => ∀ m, dest o = some m → w = m.extractLsb' 0 32
  | 2 => keep o → w = o.sourceMac.extractLsb' 16 32
  | 3 => keep o → w = (o.sourceMac.extractLsb' 0 16 ++ ethArp : BitVec 32)
  | _ => True

/-- The payload words. -/
def PayloadOk (o : Order) (k : ℕ) (w : Word) : Prop :=
  ∃ mac ip, w = arpWord o mac ip k ∧ (keep o → mac = o.sourceMac ∧ ip = o.sourceIp)

/-- At `header_start` the receiver shows the destination, and our addresses do
    not change while the order is pending. -/
structure Undisturbed (i : Input) (s : State) : Prop where
  header : s.arp.tx.fg.headerStart = true → ∀ o, Held o s → ∀ m, dest o = some m →
    s.rx.sourceMacAddr = m
  source : s.arp.replyWait = true ∨ s.arp.tx.fg.fgBusy = true → ∀ o, Held o s → keep o →
    i.configMac = s.sourceMacAddr ∧ i.configIp = s.sourceIpAddr

/-! ## The payload generator -/

/-- The state of the payload generator, by the position of the frame
    generator. -/
def stageAt : ℕ → ArpReplier.StateType
  | 2 => .arp0
  | 3 => .arp1
  | 4 => .arp2
  | 5 => .arp3
  | 6 => .arp4
  | 7 => .arp5
  | 8 => .arp6
  | 9 => .done
  | _ => .idle

/-- At position `p` the words `pay` have been requested. A word requested at an
    edge is made at the next one, from the addresses that hold then. -/
structure Generating (o : Order) (p : ℕ) (pay : List Word) (s : State) : Prop where
  stage : s.arp.replier.nextState = stageAt p
  optype : s.arp.replier.optype = o.operation
  next : ∀ k < 7, p = k + 2 → pay[k]? = some (arpWord o s.sourceMacAddr s.sourceIpAddr k)
  data : ∀ k < 7, p = k + 3 → pay[k]? = some s.arp.replier.dataOut
  reg : ∀ k < 7, p = k + 4 → pay[k]? = some s.arp.fgDataIn
  payload : ∀ k w, pay[k]? = some w → PayloadOk keep o k w

/-- The word requested at an edge. -/
def taken (o : Order) (p : ℕ) (i : Input) (s : State) : List Word :=
  if s.arp.tx.fg.rdreqSig then [arpWord o i.configMac i.configIp (p - 1)] else []

variable {keep} {o : Order} {p : ℕ} {pay : List Word} {i : Input} {s : State}

theorem Held.operation (h : Held o s) :
    (if s.arp.isRequest then arpRequest else arpReply) = o.operation := by
  rw [h.isRequest, Order.operation]

/-- The payload generator waits for a request. -/
theorem replier_idle (hs : s.arp.replier.nextState = .idle) (hrd : s.arp.tx.fg.rdreqSig = false) :
    (step i s).arp.replier.nextState = .idle := by
  simp [step, ArpBlock.step, ArpReplier.step, ArpReplier.stateMachine, ArpBlock.replierInput, hs,
    hrd]

/-- The payload generator in the middle of its words. -/
theorem replier_word {k : ℕ} (hk : k < 7) (hs : s.arp.replier.nextState = stageAt (k + 2))
    (hop : s.arp.replier.optype = o.operation) (hheld : Held o s) :
    (step i s).arp.replier.nextState = stageAt (k + 3) ∧
      (step i s).arp.replier.dataOut = arpWord o s.sourceMacAddr s.sourceIpAddr k := by
  obtain ⟨-, hmac, hip⟩ := hheld
  interval_cases k <;>
    simp [step, ArpBlock.step, ArpReplier.step, ArpReplier.stateMachine, ArpBlock.replierInput,
      arpInput, arpWord, stageAt, hs, hop, hmac, hip]

/-- Before the first request. -/
theorem Generating.hold (h : Generating keep o 0 [] s) (hheld : Held o s)
    (hrd : s.arp.tx.fg.rdreqSig = false) : Generating keep o 0 [] (step i s) where
  stage := replier_idle h.stage hrd
  optype := hheld.operation
  next k _ hk := by omega
  data k _ hk := by omega
  reg k _ hk := by omega
  payload k w hk := by simp at hk

/-- One edge of the payload. -/
theorem Generating.step (h : Generating keep o p pay s) (hheld : Held o s)
    (hrd : s.arp.tx.fg.rdreqSig = decide (1 ≤ p ∧ p ≤ 7)) (hlen : pay.length = min (p - 1) 7)
    (hsrc : keep o → i.configMac = o.sourceMac ∧ i.configIp = o.sourceIp) :
    Generating keep o (p + 1) (pay ++ taken o p i s) (ArpExchange.step i s) := by
  have hold : ∀ k w, pay[k]? = some w → (pay ++ taken o p i s)[k]? = some w := fun k w hk =>
    List.getElem?_append_left (List.getElem?_eq_some_iff.1 hk).1 ▸ hk
  refine ⟨?_, hheld.operation, fun k hk hp => ?_, fun k hk hp => ?_, fun k hk hp => ?_,
    fun k w hk => ?_⟩
  · rcases Nat.lt_or_ge p 2 with h2 | h2
    · have hidle : s.arp.replier.nextState = .idle := by
        rw [h.stage]
        interval_cases p <;> rfl
      rcases (show p = 0 ∨ p = 1 by omega) with rfl | rfl
      · exact replier_idle hidle hrd
      · simp [ArpExchange.step, ArpBlock.step, ArpReplier.step, ArpReplier.stateMachine,
          ArpBlock.replierInput, hidle, hrd, stageAt]
    obtain ⟨k, rfl⟩ := Nat.exists_eq_add_of_le' h2
    rcases Nat.lt_or_ge k 7 with h7 | h7
    · exact (replier_word h7 h.stage h.optype hheld).1
    · rw [decide_eq_false (by omega)] at hrd
      rcases Nat.eq_or_lt_of_le h7 with rfl | h8
      · have hdone : s.arp.replier.nextState = .done := h.stage
        simp [ArpExchange.step, ArpBlock.step, ArpReplier.step, ArpReplier.stateMachine, hdone,
          stageAt]
      · obtain ⟨j, rfl⟩ := Nat.exists_eq_add_of_le' (show 8 ≤ k from h8)
        exact replier_idle h.stage hrd
  · have hreq : s.arp.tx.fg.rdreqSig = true := by
      rw [hrd, decide_eq_true_eq]
      omega
    have hk' : pay.length = k := by omega
    rw [taken, if_pos hreq, show p - 1 = k by omega, ← hk', List.getElem?_concat_length]
    rfl
  · obtain rfl : p = k + 2 := by omega
    rw [(replier_word hk h.stage h.optype hheld).2]
    exact hold k _ (h.next k hk rfl)
  · exact hold k _ (h.data k hk (by omega))
  · rcases Nat.lt_or_ge k pay.length with hlt | hge
    · rw [List.getElem?_append_left hlt] at hk
      exact h.payload k w hk
    · rw [List.getElem?_append_right hge, taken] at hk
      split_ifs at hk with hreq
      · rw [hrd, decide_eq_true_eq] at hreq
        have hk0 : k - pay.length = 0 := by
          have := (List.getElem?_eq_some_iff.1 hk).1
          rw [List.length_singleton] at this
          omega
        rw [hk0] at hk
        have hw : arpWord o i.configMac i.configIp (p - 1) = w := by simpa using hk
        exact ⟨i.configMac, i.configIp, by rw [← hw]; congr 1; omega, hsrc⟩
      · simp at hk

/-! ## The header -/

variable {dest}

/-- The header registers hold the words of the order. -/
def Latched (dest : Order → Option MacAddr) (keep : Order → Prop) (o : Order) (s : State) : Prop :=
  s.arp.tx.hg.nextState ≠ .idle → ∀ k : Fin 4, HeaderOk dest keep o k (s.arp.tx.hg.ethHeader k)

/-- They are loaded at `header_start`, from what the receiver shows then. -/
theorem Latched.step (h : Latched dest keep o s)
    (hdest : s.arp.tx.fg.headerStart = true → ∀ m, dest o = some m → s.rx.sourceMacAddr = m)
    (hsrc : keep o → s.sourceMacAddr = o.sourceMac) : Latched dest keep o (step i s) := by
  intro hns k
  have hreg := (HeaderGenerator.step_registers
    (hgInput (ArpBlock.txInput (arpInput i s) s.arp) s.arp.tx) s.arp.tx.hg).1
  show HeaderOk dest keep o k ((HeaderGenerator.step _ _).ethHeader k)
  rw [hreg]
  by_cases hidle : s.arp.tx.hg.nextState = .idle
  · have hstart : s.arp.tx.fg.headerStart = true := by
      by_contra hno
      refine hns ?_
      have hno' : s.arp.tx.fg.headerStart = false := by simpa using hno
      simp [ArpExchange.step, ArpBlock.step, Transmitter.step, HeaderGenerator.stateMachine,
        hidle, hgInput, hno']
    rw [if_pos hidle]
    fin_cases k
    · intro m hm
      rw [← hdest hstart m hm]
      rfl
    · intro m hm
      rw [← hdest hstart m hm]
      rfl
    · intro hk
      rw [← hsrc hk]
      rfl
    · intro hk
      rw [← hsrc hk]
      rfl
  · rw [if_neg hidle]
    exact h hidle k

/-- The words of the header are those of its registers. -/
theorem Latched.emits (h : Latched dest keep o s) :
    Emits ArpBlock.hgConfig (HeaderOk dest keep) o (ArpBlock.txInput (arpInput i s) s.arp)
      s.arp.tx := by
  intro _ hv
  cases hn : s.arp.tx.hg.nextState with
  | idle => simp [HeaderGenerator.stateMachine, hn] at hv
  | done => simp [HeaderGenerator.stateMachine, hn] at hv
  | eth0 =>
    have := h (by simp [hn]) 0
    simpa [HeaderGenerator.stateMachine, hn, HeaderGenerator.position] using this
  | eth1 =>
    have := h (by simp [hn]) 1
    simpa [HeaderGenerator.stateMachine, hn, HeaderGenerator.position] using this
  | eth2 =>
    have := h (by simp [hn]) 2
    simpa [HeaderGenerator.stateMachine, hn, HeaderGenerator.position] using this
  | eth3 =>
    have := h (by simp [hn]) 3
    simpa [HeaderGenerator.stateMachine, hn, HeaderGenerator.position] using this
  | ip0 | ip1 | ipPause0 | ipPause1 | ip2 | ip3 | ip4 | udp0 | udp1 | hd0 =>
    simp [HeaderGenerator.position, HeaderOk, ArpBlock.hgConfig]

/-! ## Runs -/

/-- The order waits in the reply buffer, or is being sent. -/
structure Pending (keep : Order → Prop) (o : Order) (s : State) : Prop extends Held o s where
  source : keep o → s.sourceMacAddr = o.sourceMac ∧ s.sourceIpAddr = o.sourceIp

/-- The frame for the order is being sent; `pay` has been requested. -/
structure Sending (dest : Order → Option MacAddr) (keep : Order → Prop) (o : Order)
    (pay : List Word) (s : State) : Prop where
  pending : Pending keep o s
  length : s.arp.tx.fg.payloadLength = 7
  latched : Latched dest keep o s
  generating :
    Generating keep o (FrameGenerator.position ArpBlock.fgConfig s.arp.tx.fg) pay s

/-- With `l` the words sent and `os` the orders taken in so far: the frames `ps`
    have been sent, and the frame with order `o` is the last that was begun. -/
structure Inv (dest : Order → Option MacAddr) (keep : Order → Prop) (ps : List (Packet Order))
    (o : Order) (pay : List Word) (l : List Beat) (os : List Order) (s : State) : Prop where
  busyOk : FrameGenerator.BusyOk s.arp.tx.fg
  sends : Sends ArpBlock.fgConfig ArpBlock.hgConfig (HeaderOk dest keep) l ps o pay s.arp.tx
  sent : ∀ p ∈ ps, p.payload.length = 7 ∧
    ∀ k w, p.payload[k]? = some w → PayloadOk keep p.tag k w
  active : Active s.arp.tx → os = ps.map Packet.tag ++ [o] ∧ Sending dest keep o pay s
  waiting : ¬Active s.arp.tx → s.arp.replyWait = true →
    s.arp.tx.fg.fgBusy = false ∧ ∃ o', os = ps.map Packet.tag ++ [o'] ∧ Pending keep o' s
  free : ¬Active s.arp.tx → s.arp.replyWait = false → os = ps.map Packet.tag
  idle : ¬Active s.arp.tx → s.arp.replier.nextState = .idle

variable {ps : List (Packet Order)} {l : List Beat} {os : List Order}

theorem inv_reset (o : Order) (mac : MacAddr) (ip destIp : IpAddr) :
    Inv dest keep [] o [] [] [] (reset mac ip destIp) := by
  have hrest : ¬Active (reset mac ip destIp).arp.tx := fun h => h.1 rfl
  exact {
    busyOk := fun _ => rfl
    sends := sends_reset o
    sent := by simp
    active := fun h => absurd h hrest
    waiting := fun _ h => by cases h
    free := fun _ _ => rfl
    idle := fun _ => rfl }

/-- The registers of the reply buffer stay while an order is pending. -/
theorem Pending.step (h : Pending keep o s) (hu : Undisturbed dest keep i s)
    (hbusy : s.arp.replyWait = true ∨ s.arp.tx.fg.fgBusy = true) :
    Pending keep o (step i s) := by
  have hkeep : (ArpExchange.step i s).arp.isRequest = s.arp.isRequest ∧
      (ArpExchange.step i s).arp.destMacAddrReg = s.arp.destMacAddrReg ∧
      (ArpExchange.step i s).arp.destIpAddrReg = s.arp.destIpAddrReg := by
    simp only [ArpExchange.step, ArpBlock.step, ArpBlock.replyBuffer]
    rcases hbusy with hw | hb
    · by_cases hb : s.arp.tx.fg.fgBusy = true
      · simp [hb]
      · simp [hb, hw]
    · simp [hb]
  refine ⟨⟨hkeep.1.trans h.isRequest, hkeep.2.1.trans h.targetMac, hkeep.2.2.trans h.targetIp⟩,
    fun hk => ?_⟩
  obtain ⟨h1, h2⟩ := hu.source hbusy o h.toHeld hk
  obtain ⟨h3, h4⟩ := h.source hk
  exact ⟨h1.trans h3, h2.trans h4⟩

/-- While the line is taken, no order is taken in. -/
theorem raised_of_pending (h : s.arp.replyWait = true ∨ s.arp.tx.fg.fgBusy = true) :
    raised i s = [] := by
  rcases h with h | h <;> simp [raised, h]

theorem replyWait_of_busy (h : s.arp.tx.fg.fgBusy = true) :
    (step i s).arp.replyWait = false := by
  simp [step, ArpBlock.step, ArpBlock.replyBuffer, h]

/-- A frame is begun. -/
theorem Inv.start (h : Inv dest keep ps o pay l os s) (hu : Undisturbed dest keep i s)
    (hact : ¬Active s.arp.tx) (hidle : s.arp.tx.fg.nextState = .idle)
    (hwait : s.arp.replyWait = true) (hready : i.txReady = true) :
    ∃ o', Inv dest keep ps o' [] (l ++ output i s) (os ++ raised i s) (step i s) := by
  obtain ⟨hb, o', hos, hpend⟩ := h.waiting hact hwait
  have hrdy : (ArpBlock.txInput (arpInput i s) s.arp).payloadRdy = true := by
    simp [ArpBlock.txInput, ArpBlock.payloadRdy, arpInput, hwait, hready]
  obtain ⟨hsends, -, hrest, hlen⟩ := h.sends.start hidle hrdy (by decide) o'
  have hnext : (step i s).arp.tx.fg.nextState = .payloadHeader := by
    show (Transmitter.step _ _ _).fg.nextState = _
    simp [Transmitter.step, FrameGenerator.step, FrameGenerator.stateMachine, fgInput, hidle, hrdy]
  have hact' : Active (step i s).arp.tx := ⟨by simp [hnext], by simp [hnext]⟩
  have hpos : FrameGenerator.position ArpBlock.fgConfig (step i s).arp.tx.fg = 0 := by
    simp only [FrameGenerator.position, hnext]
    show (Transmitter.step _ _ _).fg.delayCounter = 0
    simp [Transmitter.step, FrameGenerator.step, FrameGenerator.stateMachine, hidle]
  have hstage := replier_idle (i := i) (h.idle hact) hrest.rdreq
  rw [raised_of_pending (.inl hwait), List.append_nil]
  refine ⟨o', {
    busyOk := h.busyOk.step
    sends := hsends
    sent := h.sent
    active := fun _ => ⟨hos, {
      pending := hpend.step hu (.inl hwait)
      length := hlen
      latched := fun hns => absurd ?_ hns
      generating := ?_ }⟩
    waiting := fun hn => absurd hact' hn
    free := fun hn => absurd hact' hn
    idle := fun hn => absurd hact' hn }⟩
  · exact (hrest.hg_rest.step (i := hgInput _ s.arp.tx) hrest.headerStart).1
  · rw [hpos]
    exact ⟨hstage, hpend.operation, fun k _ hk => by omega, fun k _ hk => by omega,
      fun k _ hk => by omega, fun k w hk => by simp at hk⟩

/-- Nothing is being sent. -/
theorem Inv.hold (h : Inv dest keep ps o pay l os s) (hu : Undisturbed dest keep i s)
    (hact : ¬Active s.arp.tx)
    (hno : s.arp.tx.fg.nextState = .idle → ¬(s.arp.replyWait = true ∧ i.txReady = true)) :
    Inv dest keep ps o pay (l ++ output i s) (os ++ raised i s) (step i s) := by
  have hrdy : s.arp.tx.fg.nextState = .idle →
      (ArpBlock.txInput (arpInput i s) s.arp).payloadRdy = false := fun hn => by
    simpa [ArpBlock.txInput, ArpBlock.payloadRdy, arpInput, or_iff_not_imp_left] using hno hn
  obtain ⟨hsends, hrest, hrest'⟩ := h.sends.hold hact hrdy
  have hact' : ¬Active (step i s).arp.tx := hrest'.not_active
  have hbusy' : s.arp.tx.fg.fgBusy = false → (step i s).arp.tx.fg.fgBusy = false := fun hb => by
    show (FrameGenerator.step _ _ _).fgBusy = false
    rw [FrameGenerator.fgBusy_step, if_pos (h.busyOk hb)]
    exact hrdy (h.busyOk hb)
  refine {
    busyOk := h.busyOk.step
    sends := hsends
    sent := h.sent
    active := fun hn => absurd hn hact'
    waiting := fun _ hwait => ?_
    free := fun _ hwait => ?_
    idle := fun _ => replier_idle (h.idle hact) hrest.rdreq }
  · by_cases hb : s.arp.tx.fg.fgBusy = true
    · rw [replyWait_of_busy hb] at hwait
      cases hwait
    have hb : s.arp.tx.fg.fgBusy = false := by simpa using hb
    refine ⟨hbusy' hb, ?_⟩
    by_cases hw : s.arp.replyWait = true
    · obtain ⟨-, o', hos, hpend⟩ := h.waiting hact hw
      rw [raised_of_pending (.inl hw), List.append_nil]
      exact ⟨o', hos, hpend.step hu (.inl hw)⟩
    · have hw : s.arp.replyWait = false := by simpa using hw
      rw [h.free hact hw]
      -- an order is taken in at this edge
      cases hrep : s.rx.generateArpReply with
      | true =>
        refine ⟨⟨false, s.rx.sourceMacAddr, s.rx.sourceIpAddr, i.configMac, i.configIp⟩, ?_, ?_⟩
        · simp [raised, hb, hw, hrep]
        · refine ⟨⟨?_, ?_, ?_⟩, fun _ => ⟨rfl, rfl⟩⟩ <;>
            simp [step, ArpBlock.step, ArpBlock.replyBuffer, arpInput, hb, hw, hrep]
      | false =>
        cases hreq : s.arp.generateRequestInt with
        | true =>
          refine ⟨⟨true, 0, s.destIpAddr, i.configMac, i.configIp⟩, ?_, ?_⟩
          · simp [raised, hb, hw, hrep, hreq]
          · refine ⟨⟨?_, ?_, ?_⟩, fun _ => ⟨rfl, rfl⟩⟩ <;>
              simp [step, ArpBlock.step, ArpBlock.replyBuffer, arpInput, hb, hw, hrep, hreq]
        | false =>
          simp [step, ArpBlock.step, ArpBlock.replyBuffer, arpInput, hb, hw, hrep, hreq] at hwait
  · have hw : s.arp.replyWait = false := by
      by_contra hw
      have hw : s.arp.replyWait = true := by simpa using hw
      obtain ⟨hb, -⟩ := h.waiting hact hw
      simp [step, ArpBlock.step, ArpBlock.replyBuffer, hb, hw] at hwait
    rw [h.free hact hw]
    have hnone : raised i s = [] := by
      unfold raised
      by_cases hb : s.arp.tx.fg.fgBusy = false
      · cases hrep : s.rx.generateArpReply <;> cases hreq : s.arp.generateRequestInt <;>
          simp_all [step, ArpBlock.step, ArpBlock.replyBuffer, arpInput]
      · rw [if_neg fun hc => hb hc.1]
    rw [hnone, List.append_nil]

/-- Up to the end of the header the position is 0. -/
theorem position_header (hn : s.arp.tx.fg.nextState = .payloadHeader)
    (hd : s.arp.tx.fg.delayCounter = 0) (hlen : s.arp.tx.fg.payloadLength ≠ 0) :
    FrameGenerator.position ArpBlock.fgConfig (step i s).arp.tx.fg = 0 := by
  show FrameGenerator.position _ (Transmitter.step _ _ _).fg = 0
  cases hdone : s.arp.tx.hg.headerDone <;>
    simp [FrameGenerator.position, Transmitter.step, FrameGenerator.step,
      FrameGenerator.stateMachine, fgInput, hn, hd, hlen, hdone]

/-- Inside a frame. -/
theorem Inv.advance (h : Inv dest keep ps o pay l os s) (hu : Undisturbed dest keep i s)
    (hact : Active s.arp.tx) (he : s.arp.tx.fg.eopSig = false) :
    ∃ pay', Inv dest keep ps o pay' (l ++ output i s) (os ++ raised i s) (step i s) := by
  obtain ⟨hos, hsend⟩ := h.active hact
  have hbusy : s.arp.tx.fg.fgBusy = true := by
    by_contra hb
    exact hact.1 (h.busyOk (by simpa using hb))
  have hpend := hsend.pending.step hu (.inr hbusy)
  have hact' : Active (step i s).arp.tx :=
    (h.sends.edgesLeft_step (i := ArpBlock.txInput (arpInput i s) s.arp) rfl hact he
      (by rw [hsend.length]; omega)).1
  have hlength : (step i s).arp.tx.fg.payloadLength = 7 :=
    (FrameGenerator.payloadLength_step hact.1).trans hsend.length
  have hlatched : Latched dest keep o (step i s) :=
    hsend.latched.step (fun hs m hm => hu.header hs o hsend.pending.toHeld m hm)
      fun hk => (hsend.pending.source hk).1
  have hgen : Generating keep o (FrameGenerator.position ArpBlock.fgConfig (step i s).arp.tx.fg)
      (pay ++ taken o (FrameGenerator.position ArpBlock.fgConfig s.arp.tx.fg) i s) (step i s) := by
    rcases h.sends.reading with ⟨rfl, hrd, hhead⟩ | ⟨sent, hread⟩
    · obtain ⟨hn, hd⟩ := hhead hact he
      have hpos : FrameGenerator.position ArpBlock.fgConfig s.arp.tx.fg = 0 := by
        simp only [FrameGenerator.position, hn, hd]
      have hpos' : FrameGenerator.position ArpBlock.fgConfig (step i s).arp.tx.fg = 0 :=
        position_header hn hd (by rw [hsend.length]; decide)
      have hgen := hsend.generating
      rw [hpos] at hgen
      rw [hpos', taken, hrd]
      exact hgen.hold hsend.pending.toHeld hrd
    · have hl := hread.position_lt he
      obtain ⟨-, hpos, -⟩ := hread.toInPayload.step
        (i := fgInput (ArpBlock.txInput (arpInput i s) s.arp) s.arp.tx) hl
      have hpos' : FrameGenerator.position ArpBlock.fgConfig (step i s).arp.tx.fg =
          FrameGenerator.position ArpBlock.fgConfig s.arp.tx.fg + 1 := hpos
      have hrd := hread.rdreq
      have hlen := hread.pay_length
      rw [hsend.length] at hrd hlen
      rw [hpos']
      exact hsend.generating.step hsend.pending.toHeld hrd hlen hpend.source
  have hsends : Sends ArpBlock.fgConfig ArpBlock.hgConfig (HeaderOk dest keep) (l ++ output i s) ps
      o (pay ++ taken o (FrameGenerator.position ArpBlock.fgConfig s.arp.tx.fg) i s)
      (step i s).arp.tx := by
    refine h.sends.advance (i := ArpBlock.txInput (arpInput i s) s.arp) rfl (by decide) rfl hact he
      hsend.latched.emits ?_ ?_
    · unfold taken
      cases s.arp.tx.fg.rdreqSig <;> rfl
    · intro sent hread k hk hp
      rw [hsend.length] at hk
      have hdly : ArpBlock.fgConfig.fifoInDly.toNat = 5 := rfl
      have hreg := hsend.generating.reg k hk (by omega)
      exact List.getElem?_append_left (List.getElem?_eq_some_iff.1 hreg).1 ▸ hreg
  rw [raised_of_pending (.inr hbusy), List.append_nil]
  exact ⟨_, {
    busyOk := h.busyOk.step
    sends := hsends
    sent := h.sent
    active := fun _ => ⟨hos, ⟨hpend, hlength, hlatched, hgen⟩⟩
    waiting := fun hn => absurd hact' hn
    free := fun hn => absurd hact' hn
    idle := fun hn => absurd hact' hn }⟩

/-- The word marked `eop`. -/
theorem Inv.finish (h : Inv dest keep ps o pay l os s) (hact : Active s.arp.tx)
    (he : s.arp.tx.fg.eopSig = true) :
    ∃ p, Inv dest keep (ps ++ [p]) o [] (l ++ output i s) (os ++ raised i s) (step i s) := by
  obtain ⟨hos, hsend⟩ := h.active hact
  have hbusy : s.arp.tx.fg.fgBusy = true := by
    by_contra hb
    exact hact.1 (h.busyOk (by simpa using hb))
  obtain ⟨hrd, hlen, hrest, p, htag, hpay, hsends⟩ :=
    h.sends.finish (i := ArpBlock.txInput (arpInput i s) s.arp) rfl (by decide) he
  have hact' : ¬Active (step i s).arp.tx := hrest.not_active
  have hstage : s.arp.replier.nextState = .idle := by
    rcases h.sends.reading with ⟨rfl, -, -⟩ | ⟨sent, hread⟩
    · rw [hsend.length] at hlen
      cases hlen
    · have heop := hread.eop
      rw [he, eq_comm, decide_eq_true_eq, hsend.length] at heop
      rw [hsend.generating.stage, heop]
      rfl
  rw [raised_of_pending (.inr hbusy), List.append_nil]
  refine ⟨p, {
    busyOk := h.busyOk.step
    sends := hsends
    sent := fun q hq => ?_
    active := fun hn => absurd hn hact'
    waiting := fun _ hwait => ?_
    free := fun _ _ => by rw [hos, List.map_append, List.map_singleton, htag]
    idle := fun _ => replier_idle hstage hrd }⟩
  · rcases List.mem_append.1 hq with hq | hq
    · exact h.sent q hq
    · obtain rfl := List.mem_singleton.1 hq
      rw [hpay, htag]
      exact ⟨hlen.trans hsend.length, hsend.generating.payload⟩
  · rw [replyWait_of_busy hbusy] at hwait
    cases hwait

/-- One edge. -/
theorem Inv.step (h : Inv dest keep ps o pay l os s) (hu : Undisturbed dest keep i s) :
    ∃ ps' o' pay',
      Inv dest keep ps' o' pay' (l ++ output i s) (os ++ raised i s) (ArpExchange.step i s) := by
  by_cases hact : Active s.arp.tx
  · cases he : s.arp.tx.fg.eopSig with
    | false =>
      obtain ⟨pay', h'⟩ := h.advance hu hact he
      exact ⟨_, _, _, h'⟩
    | true =>
      obtain ⟨p, h'⟩ := h.finish (i := i) hact he
      exact ⟨_, _, _, h'⟩
  · by_cases hst : s.arp.tx.fg.nextState = .idle ∧ s.arp.replyWait = true ∧ i.txReady = true
    · obtain ⟨o', h'⟩ := h.start hu hact hst.1 hst.2.1 hst.2.2
      exact ⟨_, _, _, h'⟩
    · exact ⟨_, _, _, h.hold hu hact fun hn hc => hst ⟨hn, hc⟩⟩

/-- The orders taken in along a run. -/
def orders (s : State) (is : List Input) : List Order := log ArpExchange.step raised s is

/-- The frames sent along a run, the open one left out. -/
def frames (s : State) (is : List Input) : List (List Word) :=
  (cut Beat.eop (log ArpExchange.step output s is)).1.map (List.map Beat.data)

/-- What is asked of the frame `f` for an order. -/
structure FrameOk (dest : Order → Option MacAddr) (keep : Order → Prop) (o : Order)
    (f : List Word) : Prop where
  length : f.length = 11
  header : ∀ k < 4, HeaderOk dest keep o k (FrameReciever.wordAt f k)
  payload : ∀ k < 7, PayloadOk keep o k (FrameReciever.wordAt f (4 + k))

theorem frameOk_words {p : Packet Order}
    (hv : p.Valid ArpBlock.fgConfig ArpBlock.hgConfig (HeaderOk dest keep))
    (hlen : p.payload.length = 7)
    (hpay : ∀ k w, p.payload[k]? = some w → PayloadOk keep p.tag k w) :
    FrameOk dest keep p.tag p.words := by
  have hhead : p.header.length = 4 := hv.header_length
  refine ⟨by rw [Packet.words, List.length_append, hhead, hlen], fun k hk => ?_, fun k hk => ?_⟩
  · refine hv.header_ok k _ ?_
    rw [FrameReciever.wordAt, Packet.words, List.getD_eq_getElem?_getD,
      List.getElem?_append_left (by omega), List.getElem?_eq_getElem (by omega)]
    rfl
  · refine hpay k _ ?_
    rw [FrameReciever.wordAt, Packet.words, List.getD_eq_getElem?_getD,
      List.getElem?_append_right (by omega), hhead, Nat.add_sub_cancel_left,
      List.getElem?_eq_getElem (by omega)]
    rfl

/-- In an undisturbed run the frames sent are those of the orders, in turn. -/
theorem served_run {mac : MacAddr} {ip destIp : IpAddr} {is : List Input}
    (hu : Along ArpExchange.step (Undisturbed dest keep) (reset mac ip destIp) is) :
    List.Forall₂ (FrameOk dest keep)
      ((orders (reset mac ip destIp) is).take (frames (reset mac ip destIp) is).length)
      (frames (reset mac ip destIp) is) := by
  have hinv : ∃ ps o pay, Inv dest keep ps o pay
      (log ArpExchange.step output (reset mac ip destIp) is)
      (log ArpExchange.step raised (reset mac ip destIp) is)
      (run ArpExchange.step (reset mac ip destIp) is) := by
    refine log₂_invariant (I := fun l os s => ∃ ps o pay, Inv dest keep ps o pay l os s)
      ArpExchange.step ⟨[], ⟨false, 0, 0, 0, 0⟩, [], inv_reset _ mac ip destIp⟩ ?_ hu
    rintro l os i s hR ⟨ps, o, pay, hI⟩
    exact hI.step hR
  obtain ⟨ps, o, pay, h⟩ := hinv
  have hframes : frames (reset mac ip destIp) is = ps.map Packet.words := h.sends.sent
  obtain ⟨q, hq⟩ : ∃ q, orders (reset mac ip destIp) is = ps.map Packet.tag ++ q := by
    by_cases hact : Active (run ArpExchange.step (reset mac ip destIp) is).arp.tx
    · exact ⟨_, (h.active hact).1⟩
    · cases hw : (run ArpExchange.step (reset mac ip destIp) is).arp.replyWait with
      | true =>
        obtain ⟨-, o', ho', -⟩ := h.waiting hact hw
        exact ⟨_, ho'⟩
      | false => exact ⟨[], by rw [List.append_nil]; exact h.free hact hw⟩
  rw [hframes, hq, List.length_map, List.take_left' (List.length_map _), List.forall₂_map_left_iff,
    List.forall₂_map_right_iff, List.forall₂_same]
  intro p hp
  exact frameOk_words (h.sends.valid p hp) (h.sent p hp).1 (h.sent p hp).2

end

end FpgaEthernet.ArpExchange
