import FpgaEthernet.Ethernet.ArpReception

/-!
# Detection of ARP requests

Which received frames make `ethernet_frame_reciever` raise `generate_arp_reply`.
The decision is taken at the last word, from registers that hold the words
before it, so the target protocol address in word 10 is seen only if another
word follows it.

Main results:

* `TargetRead.step`: what `dest_ip_addr` holds of an ARP frame.
* `Detecting.step`: a reply is asked for exactly at the end of an ARP request for
  our address with a word after the target address.
* `arp_detection_iff`: every ARP request for our address is detected, once and
  with its sender, iff none ends with its target address.
-/

namespace FpgaEthernet.FrameReciever

open Clocked

/-! ## The target address -/

/-- An ARP request for the address `ip`, complete up to its target address. -/
structure IsRequestFor (ip : IpAddr) (ws : List Word) : Prop where
  length : 11 ≤ ws.length
  ethertype : IsArp ws
  operation : lo (wordAt ws 5) = arpRequest
  target : wordAt ws 10 = ip

instance (ip : IpAddr) : DecidablePred (IsRequestFor ip) := fun ws =>
  decidable_of_iff
    (11 ≤ ws.length ∧ IsArp ws ∧ lo (wordAt ws 5) = arpRequest ∧ wordAt ws 10 = ip)
    ⟨fun h => ⟨h.1, h.2.1, h.2.2.1, h.2.2.2⟩, fun h => ⟨h.1, h.2, h.3, h.4⟩⟩

/-- What `dest_ip_addr` holds after the words `ws` of a frame that may still be
    an ARP frame. -/
def TargetRead (ws : List Word) (s : State) : Prop :=
  1 ≤ ws.length → (4 ≤ ws.length → IsArp ws) →
    s.destIpAddrSig = if 11 ≤ ws.length then wordAt ws 10 else 0

variable {ws : List Word} {i : Input} {s : State}

/-- One more word. -/
theorem TargetRead.word (h : TargetRead ws s) (hf : ArpFields ws s)
    (hs : s.wordNum = ws.length) : TargetRead (ws ++ [i.rxData]) (wordParser i s) := by
  have hlen : (ws ++ [i.rxData]).length = ws.length + 1 := by simp
  intro _ hty
  rcases Nat.lt_or_ge ws.length 4 with hn | hn
  · rw [if_neg (by omega)]
    rcases Nat.eq_zero_or_pos ws.length with h0 | hpos
    · simp [wordParser, parseEthernet, hs, h0]
    · have hold := h hpos fun h4 => absurd h4 (by omega)
      rw [if_neg (by omega)] at hold
      simp only [wordParser, parseEthernet, hs, if_pos hn, if_neg (show ws.length ≠ 0 by omega)]
      split_ifs <;> exact hold
  · have harp : IsArp ws := (isArp_append hn).1 (hty (by omega))
    have he : s.ethertypeSig = ethArp := (hf.ethertype hn).trans harp
    have hparse : wordParser i s = parseArp i s := by
      simp [wordParser, hs, he, ethArp, ethIPv4, show ¬ws.length < 4 by omega]
    have hold := h (by omega) fun _ => harp
    rw [hparse]
    by_cases h10 : ws.length = 10
    · have hself : wordAt (ws ++ [i.rxData]) 10 = i.rxData := h10 ▸ wordAt_append_self
      rw [if_pos (by omega), hself]
      simp [parseArp, hs, h10]
    · have hkeep : (parseArp i s).destIpAddrSig = s.destIpAddrSig := by
        simp only [parseArp, hs, if_neg h10]
        split_ifs <;> rfl
      rw [hkeep, hold, hlen]
      rcases Nat.lt_or_ge ws.length 11 with h11 | h11
      · rw [if_neg (by omega), if_neg (by omega)]
      · rw [if_pos h11, if_pos (by omega), wordAt_append_of_lt (by omega)]

theorem TargetRead.step (h : TargetRead ws s) (hf : ArpFields ws s) (hs : s.wordNum = ws.length)
    (hv : i.rxDval = true) : TargetRead (ws ++ [i.rxData]) (FrameReciever.step i s) := by
  have hkeep : (FrameReciever.step i s).destIpAddrSig = (wordParser i s).destIpAddrSig := by
    simp only [FrameReciever.step, hv, if_true, wordNumCounter]
    split_ifs <;> rfl
  intro h1 h4
  rw [hkeep]
  exact h.word hf hs h1 h4

/-- One edge: the register holds the target address of the open frame. -/
theorem TargetRead.edge {l : List Beat} (h : TargetRead ((cut Beat.eop l).2.map Beat.data) s)
    (hr : ArpRead ((cut Beat.eop l).2.map Beat.data) s) :
    TargetRead ((cut Beat.eop (l ++ fed [i])).2.map Beat.data) (FrameReciever.step i s) := by
  cases hv : i.rxDval with
  | false =>
    have hnil : fed [i] = [] := by simp [fed, hv]
    have hdest : (FrameReciever.step i s).destIpAddrSig = s.destIpAddrSig := by
      simp [FrameReciever.step, hv]
    rw [hnil, List.append_nil]
    intro h1 h4
    rw [hdest]
    exact h h1 h4
  | true =>
    have hone : fed [i] = [⟨i.rxData, i.rxSop, i.rxEop⟩] := by simp [fed, hv]
    rw [hone]
    cases he : i.rxEop with
    | false =>
      rw [cut_concat_open Beat.eop l ⟨i.rxData, i.rxSop, false⟩ rfl, List.map_append]
      exact h.step hr.toArpFields hr.wordNum hv
    | true =>
      rw [cut_concat_last Beat.eop l ⟨i.rxData, i.rxSop, true⟩ rfl]
      intro h1
      exact absurd h1 (by simp)

/-! ## The decision -/

/-- The cycles in which a reply is asked for, with the sender they show. -/
def asked (i : Input) (s : State) : List (MacAddr × IpAddr) :=
  if (step i s).generateArpReply then
    [((step i s).sourceMacAddr, (step i s).sourceIpAddr)]
  else []

/-- The sender of an ARP frame. -/
def sender (ws : List Word) : MacAddr × IpAddr := (senderMac ws, senderIp ws)

/-- An ARP request for `ip` that does not end with its target address. -/
def IsSeen (ip : IpAddr) (ws : List Word) : Prop := IsRequestFor ip ws ∧ 12 ≤ ws.length

instance (ip : IpAddr) : DecidablePred (IsSeen ip) := fun ws =>
  inferInstanceAs (Decidable (IsRequestFor ip ws ∧ 12 ≤ ws.length))

/-- A reply is asked for at an edge iff it brings the last word of a request that
    is seen. -/
theorem generateArpReply_iff {ip : IpAddr} (hip : ip ≠ 0) (hi : i.ourIpAddr = ip)
    (hr : ArpRead ws s) (ht : TargetRead ws s) (hw : WholeFrames i s) (hv : i.rxDval = true)
    (hs : s.generateArpReply = true → s.wordNum = 0) :
    (step i s).generateArpReply = true ↔ i.rxEop = true ∧ IsSeen ip (ws ++ [i.rxData]) := by
  have hlen : (ws ++ [i.rxData]).length = ws.length + 1 := by simp
  constructor
  · intro h
    obtain ⟨he, hopt, hdest⟩ := generateArpReply_step hw hv hs h
    refine ⟨he, ?_⟩
    have hpos : 1 ≤ ws.length := by
      have := hw.2 hv he
      rw [hr.wordNum] at this
      omega
    have harp := hr.optype hpos
    rw [hopt] at harp
    by_cases hty : 6 ≤ ws.length ∧ IsArp ws
    · rw [if_pos hty] at harp
      have htarget := ht hpos fun _ => hty.2
      rw [hdest, hi] at htarget
      rcases Nat.lt_or_ge ws.length 11 with h11 | h11
      · rw [if_neg (by omega)] at htarget
        exact absurd htarget hip
      · rw [if_pos h11] at htarget
        refine ⟨⟨by omega, (isArp_append (by omega)).2 hty.2, ?_, ?_⟩, by omega⟩
        · rw [wordAt_append_of_lt (by omega), harp]
        · rw [wordAt_append_of_lt (by omega), htarget]
    · rw [if_neg hty] at harp
      exact absurd harp (by decide)
  · rintro ⟨he, ⟨-, hty, hopt, htarget⟩, h12⟩
    rw [hlen] at h12
    rw [isArp_append (by omega)] at hty
    rw [wordAt_append_of_lt (by omega)] at hopt htarget
    have hopt' := hr.optype (by omega)
    rw [if_pos ⟨by omega, hty⟩, hopt] at hopt'
    have hdest := ht (by omega) fun _ => hty
    rw [if_pos (by omega), htarget] at hdest
    have hsop : i.rxSop = false := by
      have h0 : s.wordNum ≠ 0 := by rw [hr.wordNum]; omega
      cases hp : i.rxSop
      · rfl
      · exact absurd ((hw.1 hv).1 hp) h0
    simp [step, hv, wordNumCounter, hsop, he, hopt', hdest, hi]

/-- With `l` the words fed so far and `a` the replies asked for. -/
structure Detecting (ip : IpAddr) (l : List Beat) (a : List (MacAddr × IpAddr)) (s : State) :
    Prop where
  read : ArpRead ((cut Beat.eop l).2.map Beat.data) s
  target : TargetRead ((cut Beat.eop l).2.map Beat.data) s
  atEnd : s.generateArpReply = true → s.wordNum = 0
  asked_eq : a = ((receivedFrames l).filter (IsSeen ip)).map sender

theorem detecting_reset (ip : IpAddr) : Detecting ip [] [] reset where
  read := requested_reset.read
  target h := absurd h (by simp)
  atEnd h := by simp [reset] at h
  asked_eq := rfl

/-- One edge: a word, or an idle cycle. -/
theorem Detecting.step {ip : IpAddr} {l : List Beat} {a : List (MacAddr × IpAddr)}
    (h : Detecting ip l a s) (hip : ip ≠ 0) (hi : i.ourIpAddr = ip) (hw : WholeFrames i s) :
    Detecting ip (l ++ fed [i]) (a ++ asked i s) (FrameReciever.step i s) := by
  refine ⟨h.read.edge hw, h.target.edge h.read, ?_, ?_⟩
  · intro hg
    cases hv : i.rxDval with
    | false => simp [FrameReciever.step, hv] at hg
    | true =>
      obtain ⟨he, -⟩ := (generateArpReply_iff hip hi h.read h.target hw hv h.atEnd).1 hg
      rw [wordNum_step hw hv, he]
      rfl
  · cases hv : i.rxDval with
    | false =>
      have hnil : fed [i] = [] := by simp [fed, hv]
      have hgen : (FrameReciever.step i s).generateArpReply = false := by
        simp [FrameReciever.step, hv]
      rw [asked, hgen, h.asked_eq, hnil]
      simp
    | true =>
      have hiff := generateArpReply_iff hip hi h.read h.target hw hv h.atEnd
      have hfields := h.read.toArpFields.step h.read.wordNum hv
      cases he : i.rxEop with
      | false =>
        have hgen : (FrameReciever.step i s).generateArpReply = false := by
          rw [← Bool.not_eq_true, hiff, he]
          simp
        have hone : fed [i] = [⟨i.rxData, i.rxSop, false⟩] := by simp [fed, hv, he]
        have hcut := cut_concat_open Beat.eop l ⟨i.rxData, i.rxSop, false⟩ rfl
        rw [asked, hgen, h.asked_eq, hone, receivedFrames, receivedFrames, hcut]
        simp
      | true =>
        rw [receivedFrames_last hv he, List.filter_append, List.map_append, ← h.asked_eq]
        congr 1
        by_cases hseen : IsSeen ip ((cut Beat.eop l).2.map Beat.data ++ [i.rxData])
        · have h12 := hseen.2
          rw [asked, if_pos (hiff.2 ⟨he, hseen⟩), hfields.mac (by omega) hseen.1.ethertype,
            hfields.ip (by omega) hseen.1.ethertype, List.filter_cons_of_pos (by simpa using hseen)]
          rfl
        · have hgen : ¬(FrameReciever.step i s).generateArpReply = true := fun hg =>
            hseen (hiff.1 hg).2
          rw [asked, if_neg hgen, List.filter_cons_of_neg (by simpa using hseen)]
          rfl

theorem detecting_run {ip : IpAddr} {is : List Input} (hip : ip ≠ 0)
    (hi : ∀ i ∈ is, i.ourIpAddr = ip) (hw : Along step WholeFrames reset is) :
    Detecting ip (fed is) (log step asked reset is) (run step reset is) := by
  induction is using List.reverseRecOn with
  | nil => exact detecting_reset ip
  | append_singleton is i ih =>
    rw [along_concat] at hw
    have hcat : fed (is ++ [i]) = fed is ++ fed [i] := List.filterMap_append
    rw [run_concat, log_concat, hcat]
    exact (ih (fun j hj => hi j (List.mem_append_left [i] hj)) hw.1).step hip
      (hi i (List.mem_append_right is (List.mem_singleton_self i))) hw.2

/-- In every run of whole frames with a constant address: a reply is asked for
    once for every ARP request for the address, with the sender of the request,
    and for no other frame, iff no such request has exactly eleven words. As this
    is so after every edge, the reply is asked for in the cycle after the last
    word. -/
theorem arp_detection_iff (ip : IpAddr) (is : List Input) (hip : ip ≠ 0)
    (hi : ∀ i ∈ is, i.ourIpAddr = ip) (hw : Along step WholeFrames reset is) :
    log step asked reset is =
        ((receivedFrames (fed is)).filter (IsRequestFor ip)).map sender ↔
      ∀ ws ∈ receivedFrames (fed is), IsRequestFor ip ws → ws.length ≠ 11 := by
  rw [(detecting_run hip hi hw).asked_eq]
  generalize receivedFrames (fed is) = frames
  constructor
  · intro h ws hmem hreq hlen
    have hcount := congrArg List.length h
    have hseen : frames.filter (IsSeen ip) =
        (frames.filter (IsRequestFor ip)).filter (IsSeen ip) := by
      rw [List.filter_filter]
      apply List.filter_congr
      intro v _
      rw [← Bool.decide_and, decide_eq_decide]
      exact ⟨fun hv => ⟨hv, hv.1⟩, fun hv => hv.1⟩
    rw [List.length_map, List.length_map, hseen, List.length_filter_eq_length_iff] at hcount
    have h12 := (of_decide_eq_true
      (hcount ws (List.mem_filter.2 ⟨hmem, decide_eq_true hreq⟩))).2
    omega
  · intro h
    congr 1
    apply List.filter_congr
    intro ws hmem
    rw [decide_eq_decide]
    constructor
    · exact fun hseen => hseen.1
    · intro hreq
      have h11 := hreq.length
      exact ⟨hreq, by have := h ws hmem hreq; omega⟩

/-! ## Requests of eleven and twelve words -/

/-- The words of an ARP request from `0A:0B:0C:0D:0E:0F` at `192.168.0.9`. -/
def requestFor (ip : IpAddr) (n : ℕ) : List Word :=
  [0x0000FFFF, 0xFFFFFFFF, 0x0A0B0C0D, 0x0E0F0806, 0x00010800, 0x06040001, 0x0A0B0C0D, 0x0E0FC0A8,
    0x00090000, 0x00000000, ip] ++ List.replicate n 0

/-- A frame word after word. -/
def fedFrame (ip : IpAddr) (ws : List Word) : List Input :=
  (framed ws).map fun b => ⟨b.data, b.eop, b.sop, true, ip⟩

theorem arp_detection_iff_twelve :
    log step asked reset (fedFrame 0xC0A80003 (requestFor 0xC0A80003 1)) =
        ((receivedFrames (fed (fedFrame 0xC0A80003 (requestFor 0xC0A80003 1)))).filter
          (IsRequestFor 0xC0A80003)).map sender ↔
      ∀ ws ∈ receivedFrames (fed (fedFrame 0xC0A80003 (requestFor 0xC0A80003 1))),
        IsRequestFor 0xC0A80003 ws → ws.length ≠ 11 :=
  arp_detection_iff 0xC0A80003 _ (by decide) (by decide +kernel) (by decide +kernel)

/-- A request that ends with its target address is not seen. -/
theorem eleven_words_missed :
    (∀ i ∈ fedFrame 0xC0A80003 (requestFor 0xC0A80003 0), i.ourIpAddr = 0xC0A80003) ∧
      Along step WholeFrames reset (fedFrame 0xC0A80003 (requestFor 0xC0A80003 0)) ∧
      receivedFrames (fed (fedFrame 0xC0A80003 (requestFor 0xC0A80003 0))) =
        [requestFor 0xC0A80003 0] ∧
      IsRequestFor 0xC0A80003 (requestFor 0xC0A80003 0) ∧
      log step asked reset (fedFrame 0xC0A80003 (requestFor 0xC0A80003 0)) = [] := by
  decide +kernel

end FpgaEthernet.FrameReciever
