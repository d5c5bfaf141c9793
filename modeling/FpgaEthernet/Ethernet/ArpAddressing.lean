import FpgaEthernet.Ethernet.ArpExchange
import FpgaEthernet.Ethernet.RoundTrip

/-!
# The addresses of ARP frames

The payload of an ARP frame takes the addresses the reply buffer registered
(`arp_block.vhd` lines 319-350). The header takes the destination from the
receiver, as it is one edge after `payload_rdy` (lines 217-242): that of the last
frame received, whatever it was.

Main results:

* `replies_to_requesters`: replies go to the requester, as long as the receiver
  still shows it at `header_start`.
* `requests_broadcast`: requests are broadcast, as long as the receiver shows the
  broadcast address at `header_start`.
-/

namespace FpgaEthernet.ArpExchange

open Clocked Transmitter

/-! ## The fields of a frame -/

/-- The Ethernet destination address. -/
def destination (f : List Word) : MacAddr :=
  (lo (FrameReciever.wordAt f 0) ++ FrameReciever.wordAt f 1 : BitVec 48)

/-- The operation code. -/
def operation (f : List Word) : BitVec 16 := lo (FrameReciever.wordAt f 5)

/-- The target hardware address. -/
def targetHardware (f : List Word) : MacAddr :=
  (lo (FrameReciever.wordAt f 8) ++ FrameReciever.wordAt f 9 : BitVec 48)

/-- The target protocol address. -/
def targetProtocol (f : List Word) : IpAddr := FrameReciever.wordAt f 10

/-- The address that stands for every host. -/
def broadcast : MacAddr := 0xFFFFFFFFFFFF

/-- The broadcast frame of an ARP request for `target`. -/
def requestFrame (mac : MacAddr) (ip target : IpAddr) : List Word :=
  [0x0000FFFF, 0xFFFFFFFF, mac.extractLsb' 16 32, (mac.extractLsb' 0 16 ++ 0x0806#16 : BitVec 32),
    0x00010800, 0x06040001, mac.extractLsb' 16 32, (mac.extractLsb' 0 16 ++ hi ip : BitVec 32),
    (lo ip ++ 0#16 : BitVec 32), 0, target]

/-- The frames received along a run, the open one left out. -/
def received (s : State) (is : List Input) : List (List Word) :=
  FrameReciever.receivedFrames (log ArpExchange.step fed s is)

/-- The frame `f` is a reply to the sender of one of the requests `rs`. -/
structure RepliesTo (rs : List (List Word)) (f : List Word) : Prop where
  operation : operation f = arpReply
  destination : destination f = targetHardware f
  requester : ∃ ws ∈ rs, FrameReciever.IsArpRequest ws ∧
    targetHardware f = FrameReciever.senderMac ws ∧ targetProtocol f = FrameReciever.senderIp ws

instance (rs : List (List Word)) (f : List Word) : Decidable (RepliesTo rs f) :=
  decidable_of_iff (operation f = arpReply ∧ destination f = targetHardware f ∧
      ∃ ws ∈ rs, FrameReciever.IsArpRequest ws ∧ targetHardware f = FrameReciever.senderMac ws ∧
        targetProtocol f = FrameReciever.senderIp ws)
    ⟨fun h => ⟨h.1, h.2.1, h.2.2⟩, fun h => ⟨h.1, h.2, h.3⟩⟩

/-! ## Stimuli -/

/-- No word; the cache is not valid, so that a request is asked for. -/
def idle (txReady : Bool) : Input where
  rxData := 0
  rxEop := false
  rxSop := false
  rxDval := false
  txReady := txReady
  generateRequest := true
  configMac := 0xEE1112131415
  configIp := 0xC0A80005
  configDestIp := 0xC0A80001

/-- The frame `ws`, padded to the least length, with `tx_ready` low. -/
def receive (ws : List Word) : List Input :=
  (FrameReciever.framed (ws ++ List.replicate (16 - ws.length) 0)).map fun b =>
    { idle false with rxData := b.data, rxSop := b.sop, rxEop := b.eop, rxDval := true }

/-- The header of an IPv4 frame from `mac`. -/
def otherFrame (mac : MacAddr) : List Word :=
  [0x0000EE11, 0x12131415, mac.extractLsb' 16 32, (mac.extractLsb' 0 16 ++ ethIPv4 : BitVec 32)]

/-- After reset, with the addresses that `idle` configures. -/
def start : State := reset 0xEE1112131415 0xC0A80005 0xC0A80001

/-- A request of our own goes out. Then an ARP request is received, and a frame
    from elsewhere before `tx_ready` comes. -/
def overtakenRun : List Input :=
  List.replicate 40 (idle true) ++ receive (requestFrame 0xEE0102030405 0xC0A80003 0xC0A80005) ++
    receive (otherFrame 0xEE0A0B0C0D0E) ++ List.replicate 40 (idle true)

/-- A frame with the broadcast address as its source is received before our
    request goes out, and an ARP request after it. -/
def undisturbedRun : List Input :=
  receive (otherFrame broadcast) ++ List.replicate 40 (idle true) ++
    receive (requestFrame 0xEE0102030405 0xC0A80003 0xC0A80005) ++ List.replicate 40 (idle true)

/-! ## Orders and requests -/

theorem fed_eq (i : Input) (s : State) : fed i s = FrameReciever.fed [rxInput i s] := by
  unfold fed
  cases hv : i.rxDval <;> simp [FrameReciever.fed, rxInput, hv]

/-- An order to reply is for the sender of one of the requests `rs`. -/
def Requests (rs : List (List Word)) (o : Order) : Prop :=
  o.isRequest = false → ∃ ws ∈ rs, FrameReciever.IsArpRequest ws ∧
    o.targetMac = FrameReciever.senderMac ws ∧ o.targetIp = FrameReciever.senderIp ws

/-- Frames are whole, and no ARP request ends before its sender addresses do. -/
def Requesting (i : Input) (s : State) : Prop :=
  FrameReciever.WholeFrames (rxInput i s) s.rx ∧ ¬FrameReciever.CutOff (rxInput i s) s.rx

instance (i : Input) (s : State) : Decidable (Requesting i s) := by
  unfold Requesting
  infer_instance

/-- The orders to reply are for senders of requests received. -/
theorem orders_requests {mac : MacAddr} {ip destIp : IpAddr} {is : List Input}
    (hR : Along ArpExchange.step Requesting (reset mac ip destIp) is) :
    ∀ o ∈ orders (reset mac ip destIp) is, Requests (received (reset mac ip destIp) is) o := by
  have hinv : FrameReciever.Requested (log ArpExchange.step fed (reset mac ip destIp) is)
        (run ArpExchange.step (reset mac ip destIp) is).rx ∧
      ∀ o ∈ orders (reset mac ip destIp) is, Requests (received (reset mac ip destIp) is) o := by
    refine log₂_invariant (I := fun l os s => FrameReciever.Requested l s.rx ∧
      ∀ o ∈ os, Requests (FrameReciever.receivedFrames l) o) ArpExchange.step
      ⟨FrameReciever.requested_reset, by simp⟩ ?_ hR
    rintro l os i s ⟨hwhole, hcut⟩ ⟨hreq, hold⟩
    refine ⟨fed_eq i s ▸ hreq.step hwhole hcut, fun o ho hrep => ?_⟩
    rcases List.mem_append.1 ho with ho | ho
    · obtain ⟨ws, hws, h⟩ := hold o ho hrep
      exact ⟨ws, FrameReciever.receivedFrames_mono hws, h⟩
    · have hgen : s.rx.generateArpReply = true ∧
          o = ⟨false, s.rx.sourceMacAddr, s.rx.sourceIpAddr, i.configMac, i.configIp⟩ := by
        unfold raised at ho
        split_ifs at ho with hfree hgen hint
        · exact ⟨hgen, List.mem_singleton.1 ho⟩
        · rw [List.mem_singleton.1 ho] at hrep
          cases hrep
        · cases ho
        · cases ho
      obtain ⟨-, ws, hws, h⟩ := hreq.request hgen.1
      rw [hgen.2]
      exact ⟨ws, FrameReciever.receivedFrames_mono hws, h⟩
  exact hinv.2

/-- A request of our own has no target hardware address. -/
theorem orders_targetMac {s : State} {is : List Input} :
    ∀ o ∈ orders s is, o.isRequest = true → o.targetMac = 0 := by
  induction is generalizing s with
  | nil => simp [orders]
  | cons i is ih =>
    intro o ho hreq
    rcases List.mem_append.1 ho with ho | ho
    · unfold raised at ho
      split_ifs at ho with hfree hgen hint
      · rw [List.mem_singleton.1 ho] at hreq
        cases hreq
      · rw [List.mem_singleton.1 ho]
      · cases ho
      · cases ho
    · exact ih o ho hreq

/-! ## Replies -/

section

variable {mac : MacAddr} {ip destIp : IpAddr} {is : List Input}

/-- The destination of a reply is the requester. -/
def replyDestination (o : Order) : Option MacAddr := if o.isRequest then none else some o.targetMac

/-- At `header_start` for a reply the receiver shows the requester. -/
def ShowsRequester (s : State) : Prop :=
  s.arp.tx.fg.headerStart = true → s.arp.isRequest = false →
    s.rx.sourceMacAddr = s.arp.destMacAddrReg

instance (s : State) : Decidable (ShowsRequester s) := by
  unfold ShowsRequester
  infer_instance

theorem undisturbed_of_showsRequester {i : Input} {s : State} (h : ShowsRequester s) :
    Undisturbed replyDestination (fun _ => False) i s where
  header hs o ho m hm := by
    unfold replyDestination at hm
    split_ifs at hm with hreq
    have hmac : o.targetMac = m := Option.some_injective _ hm
    rw [h hs (ho.isRequest.trans (by simpa using hreq)), ho.targetMac, hmac]
  source _ _ _ hk := hk.elim

/-- The frame of a reply, by what is asked of its words. -/
theorem repliesTo_of_frameOk {rs : List (List Word)} {o : Order} {f : List Word}
    (hf : FrameOk replyDestination (fun _ => False) o f) (ho : Requests rs o)
    (hrep : o.isRequest = false) : RepliesTo rs f := by
  have hdest : replyDestination o = some o.targetMac := by
    rw [replyDestination, hrep]
    rfl
  have h0 := hf.header 0 (by decide) _ hdest
  have h1 := hf.header 1 (by decide) _ hdest
  obtain ⟨mac₁, ip₁, hp1, -⟩ := hf.payload 1 (by decide)
  obtain ⟨mac₄, ip₄, hp4, -⟩ := hf.payload 4 (by decide)
  obtain ⟨mac₅, ip₅, hp5, -⟩ := hf.payload 5 (by decide)
  obtain ⟨mac₆, ip₆, hp6, -⟩ := hf.payload 6 (by decide)
  have hmac : (o.targetMac.extractLsb' 32 16 ++ o.targetMac.extractLsb' 0 32 : BitVec 48) =
      o.targetMac := BitVec.extractLsb'_append_extractLsb'
  have hto : targetHardware f = o.targetMac := by
    rw [targetHardware, hp4, hp5, arpWord, arpWord, lo_append, hmac]
  obtain ⟨ws, hws, hreq, hsm, hsi⟩ := ho hrep
  refine ⟨?_, ?_, ws, hws, hreq, hto.trans hsm, ?_⟩
  · rw [operation, hp1, arpWord, lo_append, Order.operation, hrep]
    rfl
  · rw [hto, destination, h0, h1, lo_append, hmac]
  · rw [targetProtocol, hp6, ← hsi]
    rfl

/-- Replies go to the requester, in every run in which the receiver still shows it
    whenever `header_start` is high for a reply. -/
theorem replies_to_requesters
    (h : Along ArpExchange.step (fun i s => Requesting i s ∧ ShowsRequester s)
      (reset mac ip destIp) is) :
    List.Forall₂ (fun o f => o.isRequest = false → RepliesTo (received (reset mac ip destIp) is) f)
      ((orders (reset mac ip destIp) is).take (frames (reset mac ip destIp) is).length)
      (frames (reset mac ip destIp) is) := by
  have hreq : ∀ o ∈ (orders (reset mac ip destIp) is).take (frames (reset mac ip destIp) is).length,
      Requests (received (reset mac ip destIp) is) o := fun o ho =>
    orders_requests (h.mono ArpExchange.step fun i s hR => hR.1) o (List.mem_of_mem_take ho)
  have hserved := served_run (h.mono ArpExchange.step
    fun i s hR => undisturbed_of_showsRequester hR.2)
  refine List.Forall₂.imp ?_ ((List.forall₂_and_left _ _).2 ⟨hreq, hserved⟩)
  rintro o f ⟨ho, hf⟩ hrep
  exact repliesTo_of_frameOk hf ho hrep

/-- A reply to a request received after our own request went out. -/
theorem replies_to_requesters_undisturbedRun :
    (frames start undisturbedRun).length = 2 ∧
      List.Forall₂ (fun o f => o.isRequest = false → RepliesTo (received start undisturbedRun) f)
        ((orders start undisturbedRun).take (frames start undisturbedRun).length)
        (frames start undisturbedRun) :=
  ⟨by decide +kernel, replies_to_requesters (by decide +kernel)⟩

/-- The header of a reply gets the source of the frame received last. -/
theorem reply_to_other_sender :
    Along ArpExchange.step Requesting start overtakenRun ∧
      ¬List.Forall₂ (fun o f => o.isRequest = false → RepliesTo (received start overtakenRun) f)
        ((orders start overtakenRun).take (frames start overtakenRun).length)
        (frames start overtakenRun) := by
  decide +kernel

end

/-! ## Requests of our own -/

section

variable {mac : MacAddr} {ip destIp : IpAddr} {is : List Input}

/-- The destination of a request is every host. -/
def requestDestination (o : Order) : Option MacAddr := if o.isRequest then some broadcast else none

/-- At `header_start` for a request the receiver shows the broadcast address. -/
def ShowsBroadcast (s : State) : Prop :=
  s.arp.tx.fg.headerStart = true → s.arp.isRequest = true → s.rx.sourceMacAddr = broadcast

instance (s : State) : Decidable (ShowsBroadcast s) := by
  unfold ShowsBroadcast
  infer_instance

/-- Our addresses do not change while a request is pending. -/
def KeepsAddresses (i : Input) (s : State) : Prop :=
  s.arp.isRequest = true → s.arp.replyWait = true ∨ s.arp.tx.fg.fgBusy = true →
    i.configMac = s.sourceMacAddr ∧ i.configIp = s.sourceIpAddr

instance (i : Input) (s : State) : Decidable (KeepsAddresses i s) := by
  unfold KeepsAddresses
  infer_instance

theorem undisturbed_of_showsBroadcast {i : Input} {s : State} (h : ShowsBroadcast s)
    (hk : KeepsAddresses i s) :
    Undisturbed requestDestination (fun o => o.isRequest = true) i s where
  header hs o ho m hm := by
    unfold requestDestination at hm
    split_ifs at hm with hreq
    rw [h hs (ho.isRequest.trans hreq)]
    exact Option.some_injective _ hm
  source hp o ho hreq := hk (ho.isRequest.trans hreq) hp

/-- The frame of a request, by what is asked of its words. -/
theorem requestFrame_of_frameOk {o : Order} {f : List Word}
    (hf : FrameOk requestDestination (fun o => o.isRequest = true) o f)
    (hreq : o.isRequest = true) (ht : o.targetMac = 0) :
    f = requestFrame o.sourceMac o.sourceIp o.targetIp := by
  have hdest : requestDestination o = some broadcast := by
    rw [requestDestination, hreq]
    rfl
  have hop : o.operation = arpRequest := by
    rw [Order.operation, hreq]
    rfl
  have hpay : ∀ k < 7, FrameReciever.wordAt f (4 + k) = arpWord o o.sourceMac o.sourceIp k := by
    intro k hk
    obtain ⟨mac', ip', hp, hkeep⟩ := hf.payload k hk
    rw [hp, (hkeep hreq).1, (hkeep hreq).2]
  have hwords : ∀ k < 11,
      FrameReciever.wordAt f k =
        FrameReciever.wordAt (requestFrame o.sourceMac o.sourceIp o.targetIp) k := by
    intro k hk
    rcases Nat.lt_or_ge k 4 with h4 | h4
    · have hhead := hf.header k h4
      interval_cases k
      · exact hhead _ hdest
      · exact hhead _ hdest
      · exact hhead hreq
      · exact hhead hreq
    · obtain ⟨j, rfl⟩ := Nat.exists_eq_add_of_le h4
      rw [hpay j (by omega)]
      have hj : j < 7 := by omega
      interval_cases j
      · rfl
      · rw [arpWord, hop]
        rfl
      · rfl
      · rfl
      · rw [arpWord, ht]
        rfl
      · rw [arpWord, ht]
        rfl
      · rfl
  refine List.ext_getElem (by rw [hf.length]; rfl) fun k hk hk' => ?_
  have h := hwords k (hf.length ▸ hk)
  rwa [FrameReciever.wordAt, FrameReciever.wordAt, List.getD_eq_getElem?_getD,
    List.getD_eq_getElem?_getD, List.getElem?_eq_getElem hk, List.getElem?_eq_getElem hk'] at h

/-- Requests are broadcast, in every run in which the receiver shows the broadcast
    address whenever `header_start` is high for a request. -/
theorem requests_broadcast
    (h : Along ArpExchange.step (fun i s => KeepsAddresses i s ∧ ShowsBroadcast s)
      (reset mac ip destIp) is) :
    List.Forall₂ (fun o f => o.isRequest = true →
        f = requestFrame o.sourceMac o.sourceIp o.targetIp)
      ((orders (reset mac ip destIp) is).take (frames (reset mac ip destIp) is).length)
      (frames (reset mac ip destIp) is) := by
  have htarget : ∀ o ∈ (orders (reset mac ip destIp) is).take
      (frames (reset mac ip destIp) is).length, o.isRequest = true → o.targetMac = 0 := fun o ho =>
    orders_targetMac o (List.mem_of_mem_take ho)
  have hserved := served_run (h.mono ArpExchange.step
    fun i s hR => undisturbed_of_showsBroadcast hR.2 hR.1)
  refine List.Forall₂.imp ?_ ((List.forall₂_and_left _ _).2 ⟨htarget, hserved⟩)
  rintro o f ⟨ht, hf⟩ hreq
  exact requestFrame_of_frameOk hf hreq (ht hreq)

/-- A request goes out while the receiver shows the broadcast address. -/
theorem requests_broadcast_undisturbedRun :
    (frames start undisturbedRun).length = 2 ∧
      List.Forall₂ (fun o f => o.isRequest = true →
          f = requestFrame o.sourceMac o.sourceIp o.targetIp)
        ((orders start undisturbedRun).take (frames start undisturbedRun).length)
        (frames start undisturbedRun) :=
  ⟨by decide +kernel, requests_broadcast (by decide +kernel)⟩

/-- The request after reset is addressed to 00:00:00:00:00:00. -/
theorem request_to_zero_address :
    Along ArpExchange.step KeepsAddresses start (List.replicate 40 (idle true)) ∧
      ¬List.Forall₂ (fun o f => o.isRequest = true →
          f = requestFrame o.sourceMac o.sourceIp o.targetIp)
        ((orders start (List.replicate 40 (idle true))).take
          (frames start (List.replicate 40 (idle true))).length)
        (frames start (List.replicate 40 (idle true))) := by
  decide +kernel

end

end FpgaEthernet.ArpExchange
