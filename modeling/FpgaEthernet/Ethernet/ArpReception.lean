import FpgaEthernet.Ethernet.FrameReciever

/-!
# Received ARP requests

What `ethernet_frame_reciever` has read of an ARP request when it raises
`generate_arp_reply`. `ArpRead ws s` says what the registers hold after the words
`ws` of a frame of any type.

Main results:

* `ArpRead.step`: one more word of a frame.
* `Requested.step`: when `generate_arp_reply` is high, the address registers hold
  the sender of an ARP request that has been received.
-/

namespace FpgaEthernet.FrameReciever

open Clocked

/-! ## ARP requests -/

/-- An ARP frame. -/
def IsArp (ws : List Word) : Prop := lo (wordAt ws 3) = ethArp

instance : DecidablePred IsArp := fun _ => inferInstanceAs (Decidable (_ = _))

/-- An ARP request, as far as its sender addresses. -/
structure IsArpRequest (ws : List Word) : Prop where
  length : 9 ≤ ws.length
  ethertype : IsArp ws
  operation : lo (wordAt ws 5) = arpRequest

instance : DecidablePred IsArpRequest := fun ws =>
  decidable_of_iff (9 ≤ ws.length ∧ IsArp ws ∧ lo (wordAt ws 5) = arpRequest)
    ⟨fun h => ⟨h.1, h.2.1, h.2.2⟩, fun h => ⟨h.1, h.2, h.3⟩⟩

/-- The hardware address of the sender. -/
def senderMac (ws : List Word) : MacAddr := (wordAt ws 6 ++ hi (wordAt ws 7) : BitVec 48)

/-- The protocol address of the sender. -/
def senderIp (ws : List Word) : IpAddr := (lo (wordAt ws 7) ++ hi (wordAt ws 8) : BitVec 32)

/-- A frame has at least two words, `sop` comes with the first and `eop` with the
    last. -/
def WholeFrames (i : Input) (s : State) : Prop :=
  WellFramed i s ∧ (i.rxDval = true → i.rxEop = true → s.wordNum ≠ 0)

/-- A frame ends before the sender addresses of an ARP request are complete, and
    a reply is asked for all the same: the target address has not been read then
    and counts as 0.0.0.0. -/
def CutOff (i : Input) (s : State) : Prop :=
  i.rxDval = true ∧ i.rxEop = true ∧ s.wordNum < 8 ∧ s.optype = arpRequest ∧
    s.destIpAddrSig = i.ourIpAddr

instance (i : Input) (s : State) : Decidable (WholeFrames i s) := by
  unfold WholeFrames WellFramed
  infer_instance

instance (i : Input) (s : State) : Decidable (CutOff i s) := by
  unfold CutOff
  infer_instance

/-! ## Reading a frame -/

/-- What the registers hold of the words `ws` of a frame. -/
structure ArpFields (ws : List Word) (s : State) : Prop where
  ethertype : 4 ≤ ws.length → s.ethertypeSig = lo (wordAt ws 3)
  optype : 1 ≤ ws.length →
    s.optype = if 6 ≤ ws.length ∧ IsArp ws then lo (wordAt ws 5) else 0
  macHigh : 7 ≤ ws.length → IsArp ws → s.sourceMacAddr.extractLsb' 16 32 = wordAt ws 6
  mac : 8 ≤ ws.length → IsArp ws → s.sourceMacAddr = senderMac ws
  ipHigh : 8 ≤ ws.length → IsArp ws → s.sourceIpAddr.extractLsb' 16 16 = lo (wordAt ws 7)
  ip : 9 ≤ ws.length → IsArp ws → s.sourceIpAddr = senderIp ws

/-- The words `ws` of a frame have been read. -/
structure ArpRead (ws : List Word) (s : State) : Prop extends ArpFields ws s where
  wordNum : s.wordNum = ws.length

variable {ws : List Word} {i : Input} {s : State} {w : Word}

theorem wordAt_append_of_lt {k : ℕ} (hk : k < ws.length) : wordAt (ws ++ [w]) k = wordAt ws k := by
  simp [wordAt, List.getElem?_append_left hk]

theorem wordAt_append_self : wordAt (ws ++ [w]) ws.length = w := by
  simp [wordAt]

theorem isArp_append (h : 4 ≤ ws.length) : IsArp (ws ++ [w]) ↔ IsArp ws := by
  rw [IsArp, IsArp, wordAt_append_of_lt (by omega)]

/-- The registers `ArpFields` speaks of. -/
theorem ArpFields.congr {t : State} (h : ArpFields ws s)
    (he : t.ethertypeSig = s.ethertypeSig) (ho : t.optype = s.optype)
    (hm : t.sourceMacAddr = s.sourceMacAddr) (hi : t.sourceIpAddr = s.sourceIpAddr) :
    ArpFields ws t where
  ethertype := by rw [he]; exact h.ethertype
  optype := by rw [ho]; exact h.optype
  macHigh := by rw [hm]; exact h.macHigh
  mac := by rw [hm]; exact h.mac
  ipHigh := by rw [hi]; exact h.ipHigh
  ip := by rw [hi]; exact h.ip

/-- A word of the Ethernet header. -/
theorem ArpFields.ethernet (h : ArpFields ws s) (hn : ws.length < 4) (hs : s.wordNum = ws.length)
    (hd : i.rxData = w) : ArpFields (ws ++ [w]) (wordParser i s) := by
  have hlen : (ws ++ [w]).length = ws.length + 1 := by simp
  refine ⟨fun hk => ?_, fun _ => ?_, fun hk => absurd hk (by omega), fun hk => absurd hk (by omega),
    fun hk => absurd hk (by omega), fun hk => absurd hk (by omega)⟩
  · have h3 : ws.length = 3 := by omega
    have hw : wordAt (ws ++ [w]) 3 = w := by rw [← h3]; exact wordAt_append_self
    rw [hw]
    simp [wordParser, parseEthernet, hs, h3, hd]
  · rw [if_neg (by omega)]
    rcases Nat.eq_zero_or_pos ws.length with h0 | hpos
    · simp [wordParser, parseEthernet, hs, h0]
    · have hopt := h.optype hpos
      rw [if_neg (by omega)] at hopt
      simp only [wordParser, parseEthernet, hs, if_pos hn, if_neg (show ws.length ≠ 0 by omega)]
      split_ifs <;> exact hopt

/-- The words of an IPv4 frame leave the ARP registers alone. -/
theorem parseIpv4_keeps : (parseIpv4 i s).ethertypeSig = s.ethertypeSig ∧
    (parseIpv4 i s).optype = s.optype ∧
    (parseIpv4 i s).generateArpReply = s.generateArpReply ∧
    (parseIpv4 i s).arpReplyRecieved = s.arpReplyRecieved := by
  have hudp : (parseUdp i s).ethertypeSig = s.ethertypeSig ∧ (parseUdp i s).optype = s.optype ∧
      (parseUdp i s).generateArpReply = s.generateArpReply ∧
      (parseUdp i s).arpReplyRecieved = s.arpReplyRecieved := by
    unfold parseUdp
    split_ifs <;> exact ⟨rfl, rfl, rfl, rfl⟩
  have hicmp : (parseIcmp i s).ethertypeSig = s.ethertypeSig ∧ (parseIcmp i s).optype = s.optype ∧
      (parseIcmp i s).generateArpReply = s.generateArpReply ∧
      (parseIcmp i s).arpReplyRecieved = s.arpReplyRecieved := by
    unfold parseIcmp
    split_ifs <;> exact ⟨rfl, rfl, rfl, rfl⟩
  unfold parseIpv4
  split_ifs <;> first | exact ⟨rfl, rfl, rfl, rfl⟩ | exact hudp | exact hicmp

/-- A word after the Ethernet header of a frame that is not ARP. -/
theorem ArpFields.other (h : ArpFields ws s) (hn : 4 ≤ ws.length) (hs : s.wordNum = ws.length)
    (hty : ¬IsArp ws) : ArpFields (ws ++ [w]) (wordParser i s) := by
  have hty' : ¬IsArp (ws ++ [w]) := fun hc => hty ((isArp_append hn).1 hc)
  have hne : s.ethertypeSig ≠ ethArp := fun he => hty ((h.ethertype hn).symm.trans he)
  have hopt := h.optype (by omega)
  rw [if_neg fun hc => hty hc.2] at hopt
  have hkeep : (wordParser i s).ethertypeSig = s.ethertypeSig ∧
      (wordParser i s).optype = s.optype := by
    obtain ⟨h1, h2, -⟩ := parseIpv4_keeps (i := i) (s := s)
    simp only [wordParser, hs, if_neg (show ¬ws.length < 4 by omega), if_neg hne]
    split_ifs
    · exact ⟨h1, h2⟩
    · exact ⟨rfl, rfl⟩
  refine ⟨fun _ => ?_, fun _ => ?_, fun _ hc => absurd hc hty', fun _ hc => absurd hc hty',
    fun _ hc => absurd hc hty', fun _ hc => absurd hc hty'⟩
  · rw [hkeep.1, h.ethertype hn, wordAt_append_of_lt (by omega)]
  · rw [hkeep.2, hopt, if_neg fun hc => hty' hc.2]

/-- A word after the Ethernet header of an ARP frame. -/
theorem ArpFields.arp (h : ArpFields ws s) (hn : 4 ≤ ws.length) (hs : s.wordNum = ws.length)
    (hd : i.rxData = w) (hty : IsArp ws) : ArpFields (ws ++ [w]) (wordParser i s) := by
  have hlen : (ws ++ [w]).length = ws.length + 1 := by simp
  have hty' : IsArp (ws ++ [w]) := (isArp_append hn).2 hty
  have he : s.ethertypeSig = ethArp := (h.ethertype hn).trans hty
  have hparse : wordParser i s = parseArp i s := by
    simp [wordParser, hs, he, ethArp, ethIPv4, show ¬ws.length < 4 by omega]
  have hhi : ∀ (u : Word) (v : BitVec 16), (u ++ v).extractLsb' 16 32 = u := fun u v =>
    BitVec.extractLsb'_append_eq_left
  have hhi' : ∀ u v : BitVec 16, (u ++ v).extractLsb' 16 16 = u := fun u v =>
    BitVec.extractLsb'_append_eq_left
  have hself : ∀ k, ws.length = k → wordAt (ws ++ [w]) k = w := fun k hk => hk ▸ wordAt_append_self
  have hold : ∀ k, k < ws.length → wordAt (ws ++ [w]) k = wordAt ws k := fun k hk =>
    wordAt_append_of_lt hk
  have hopt := h.optype (by omega)
  have hety := h.ethertype hn
  have hmac : 8 ≤ ws.length → (parseArp i s).sourceMacAddr = s.sourceMacAddr := fun h8 => by
    simp only [parseArp, hs, if_neg (show ws.length ≠ 6 by omega),
      if_neg (show ws.length ≠ 7 by omega)]
    split_ifs <;> rfl
  have hip : 9 ≤ ws.length → (parseArp i s).sourceIpAddr = s.sourceIpAddr := fun h9 => by
    simp only [parseArp, hs, if_neg (show ws.length ≠ 7 by omega),
      if_neg (show ws.length ≠ 8 by omega)]
    split_ifs <;> rfl
  rw [hparse]
  refine ⟨fun _ => ?_, fun _ => ?_, fun hk _ => ?_, fun hk _ => ?_, fun hk _ => ?_, fun hk _ => ?_⟩
  · rw [hold 3 (by omega), ← hety]
    unfold parseArp
    split_ifs <;> rfl
  · rw [hlen]
    by_cases h5 : ws.length = 5
    · rw [if_pos ⟨by omega, hty'⟩, hself 5 h5]
      simp [parseArp, hs, h5, hd]
    · have hkeep : (parseArp i s).optype = s.optype := by
        simp only [parseArp, hs, if_neg h5]
        split_ifs <;> rfl
      rw [hkeep, hopt]
      by_cases h6 : 6 ≤ ws.length
      · rw [if_pos ⟨h6, hty⟩, if_pos ⟨by omega, hty'⟩, hold 5 (by omega)]
      · rw [if_neg fun hc => h6 hc.1, if_neg fun hc => h6 (by omega)]
  · rcases Nat.lt_or_ge ws.length 8 with h8 | h8
    · rcases (show ws.length = 6 ∨ ws.length = 7 by omega) with h6 | h7
      · rw [hself 6 h6]
        simp [parseArp, hs, h6, hd, hhi]
      · rw [hold 6 (by omega), ← h.macHigh (by omega) hty]
        simp [parseArp, hs, h7, hhi]
    · rw [(hmac (by omega)), hold 6 (by omega)]
      exact h.macHigh (by omega) hty
  · rcases Nat.lt_or_ge ws.length 8 with h8 | h8
    · have h7 : ws.length = 7 := by omega
      rw [senderMac, hold 6 (by omega), hself 7 h7, ← h.macHigh (by omega) hty]
      simp [parseArp, hs, h7, hd]
    · rw [hmac (by omega), senderMac, hold 6 (by omega), hold 7 (by omega)]
      exact h.mac (by omega) hty
  · rcases Nat.lt_or_ge ws.length 9 with h9 | h9
    · rcases (show ws.length = 7 ∨ ws.length = 8 by omega) with h7 | h8
      · rw [hself 7 h7]
        simp [parseArp, hs, h7, hd, hhi']
      · rw [hold 7 (by omega), ← h.ipHigh (by omega) hty]
        simp [parseArp, hs, h8, hhi']
    · rw [hip (by omega), hold 7 (by omega)]
      exact h.ipHigh (by omega) hty
  · rcases Nat.lt_or_ge ws.length 9 with h9 | h9
    · have h8 : ws.length = 8 := by omega
      rw [senderIp, hold 7 (by omega), hself 8 h8, ← h.ipHigh (by omega) hty]
      simp [parseArp, hs, h8, hd]
    · rw [hip (by omega), senderIp, hold 7 (by omega), hold 8 (by omega)]
      exact h.ip (by omega) hty

/-- One more word, of whatever type the frame is. -/
theorem ArpFields.word (h : ArpFields ws s) (hs : s.wordNum = ws.length) (hd : i.rxData = w) :
    ArpFields (ws ++ [w]) (wordParser i s) := by
  rcases Nat.lt_or_ge ws.length 4 with hn | hn
  · exact h.ethernet hn hs hd
  by_cases hty : IsArp ws
  · exact h.arp hn hs hd hty
  · exact h.other hn hs hty

/-- The registers of an edge with a word are those of the parser. -/
theorem ArpFields.step (h : ArpFields ws s) (hs : s.wordNum = ws.length) (hv : i.rxDval = true) :
    ArpFields (ws ++ [i.rxData]) (FrameReciever.step i s) := by
  have hkeep : ∀ p : State, (wordNumCounter i s p).ethertypeSig = p.ethertypeSig ∧
      (wordNumCounter i s p).optype = p.optype ∧
      (wordNumCounter i s p).sourceMacAddr = p.sourceMacAddr ∧
      (wordNumCounter i s p).sourceIpAddr = p.sourceIpAddr := by
    intro p
    unfold wordNumCounter
    split_ifs <;> exact ⟨rfl, rfl, rfl, rfl⟩
  obtain ⟨h1, h2, h3, h4⟩ := hkeep (wordParser i s)
  have hstep : FrameReciever.step i s = { wordNumCounter i s (wordParser i s) with
      frameWord := i.rxData
      rdySig := true
      eop := i.rxEop } := if_pos hv
  rw [hstep]
  exact (h.word hs rfl).congr h1 h2 h3 h4

/-! ## Requests -/

/-- The frames among the words fed, the last one open. -/
def receivedFrames (l : List Beat) : List (List Word) := (cut Beat.eop l).1.map (List.map Beat.data)

/-- With `l` the words fed so far: where the receiver is in a frame, and whose
    addresses it holds when it asks for a reply. -/
structure Requested (l : List Beat) (s : State) : Prop where
  read : ArpRead ((cut Beat.eop l).2.map Beat.data) s
  request : s.generateArpReply = true → s.wordNum = 0 ∧ ∃ ws ∈ receivedFrames l,
    IsArpRequest ws ∧ s.sourceMacAddr = senderMac ws ∧ s.sourceIpAddr = senderIp ws

theorem requested_reset : Requested [] reset where
  read := ⟨⟨by simp, by simp, by simp, by simp, by simp, by simp⟩, rfl⟩
  request h := by simp [reset] at h

/-- After the first word the parser leaves the two ARP signals alone. -/
theorem arpSignals_wordParser (h : s.wordNum ≠ 0) :
    (wordParser i s).generateArpReply = s.generateArpReply ∧
      (wordParser i s).arpReplyRecieved = s.arpReplyRecieved := by
  have hethernet : (parseEthernet i s).generateArpReply = s.generateArpReply ∧
      (parseEthernet i s).arpReplyRecieved = s.arpReplyRecieved := by
    unfold parseEthernet
    rw [if_neg h]
    split_ifs <;> exact ⟨rfl, rfl⟩
  have harp : (parseArp i s).generateArpReply = s.generateArpReply ∧
      (parseArp i s).arpReplyRecieved = s.arpReplyRecieved := by
    unfold parseArp
    split_ifs <;> exact ⟨rfl, rfl⟩
  unfold wordParser
  split_ifs
  · exact hethernet
  · exact parseIpv4_keeps.2.2
  · exact harp
  · exact ⟨rfl, rfl⟩

/-- The two ARP signals are raised by the last word of a frame only. -/
theorem arpSignals_step (hw : WholeFrames i s) (hv : i.rxDval = true) :
    ((FrameReciever.step i s).generateArpReply = true → s.wordNum ≠ 0 ∧ i.rxEop = true ∧
      (s.generateArpReply = false → s.optype = arpRequest ∧ s.destIpAddrSig = i.ourIpAddr)) ∧
    ((FrameReciever.step i s).arpReplyRecieved = true → s.wordNum ≠ 0 ∧ i.rxEop = true ∧
      (s.arpReplyRecieved = false → s.optype = arpReply ∧ s.destIpAddrSig = i.ourIpAddr)) := by
  have hsop := hw.1 hv
  have hgen : (FrameReciever.step i s).generateArpReply =
      (wordNumCounter i s (wordParser i s)).generateArpReply := by
    simp only [FrameReciever.step, hv, if_true]
  have hrep : (FrameReciever.step i s).arpReplyRecieved =
      (wordNumCounter i s (wordParser i s)).arpReplyRecieved := by
    simp only [FrameReciever.step, hv, if_true]
  rw [hgen, hrep]
  by_cases h0 : s.wordNum = 0
  · simp [wordNumCounter, hsop.2 h0, wordParser, parseEthernet, h0]
  · have hnot : i.rxSop = false := by
      cases hp : i.rxSop
      · rfl
      · exact absurd (hsop.1 hp) h0
    obtain ⟨hkeep, hkeep'⟩ := arpSignals_wordParser (i := i) h0
    cases he : i.rxEop with
    | false => simp [wordNumCounter, hnot, he]
    | true =>
      simp only [wordNumCounter, hnot, he, if_true, Bool.false_eq_true, if_false, hkeep, hkeep']
      constructor
      · intro h
        refine ⟨h0, trivial, fun hlow => ?_⟩
        by_contra hno
        rw [if_neg hno, hlow] at h
        exact Bool.false_ne_true h
      · intro h
        refine ⟨h0, trivial, fun hlow => ?_⟩
        by_contra hno
        rw [if_neg hno, hlow] at h
        exact Bool.false_ne_true h

/-- What happens to `generate_arp_reply` at a word. -/
theorem generateArpReply_step (hw : WholeFrames i s) (hv : i.rxDval = true)
    (hs : s.generateArpReply = true → s.wordNum = 0)
    (h : (FrameReciever.step i s).generateArpReply = true) :
    i.rxEop = true ∧ s.optype = arpRequest ∧ s.destIpAddrSig = i.ourIpAddr := by
  obtain ⟨h0, he, hop⟩ := (arpSignals_step hw hv).1 h
  refine ⟨he, hop ?_⟩
  by_contra hhigh
  exact h0 (hs (by simpa using hhigh))

/-- The word counter at a word of a frame. -/
theorem wordNum_step (hw : WholeFrames i s) (hv : i.rxDval = true) :
    (FrameReciever.step i s).wordNum = if i.rxEop then 0 else s.wordNum + 1 := by
  have hnum : (FrameReciever.step i s).wordNum =
      if i.rxSop then 1 else if i.rxEop then 0 else s.wordNum + 1 := by
    simp only [FrameReciever.step, hv, if_true, wordNumCounter]
    split_ifs <;> rfl
  rw [hnum]
  by_cases h0 : s.wordNum = 0
  · rw [if_pos ((hw.1 hv).2 h0), if_neg fun he => hw.2 hv he h0, h0]
  · rw [if_neg fun hp => h0 ((hw.1 hv).1 hp)]

/-- One edge: the registers hold what has been fed of the open frame. -/
theorem ArpRead.edge {l : List Beat} (h : ArpRead ((cut Beat.eop l).2.map Beat.data) s)
    (hw : WholeFrames i s) :
    ArpRead ((cut Beat.eop (l ++ fed [i])).2.map Beat.data) (FrameReciever.step i s) := by
  cases hv : i.rxDval with
  | false =>
    have hnil : fed [i] = [] := by simp [fed, hv]
    rw [hnil, List.append_nil]
    refine ⟨h.congr ?_ ?_ ?_ ?_, Eq.trans ?_ h.wordNum⟩ <;> simp [FrameReciever.step, hv]
  | true =>
    have hone : fed [i] = [⟨i.rxData, i.rxSop, i.rxEop⟩] := by simp [fed, hv]
    have hnum := wordNum_step hw hv
    rw [hone]
    cases he : i.rxEop with
    | false =>
      rw [cut_concat_open Beat.eop l ⟨i.rxData, i.rxSop, false⟩ rfl, List.map_append]
      refine ⟨h.toArpFields.step h.wordNum hv, ?_⟩
      rw [hnum, he, List.length_append, ← h.wordNum]
      rfl
    | true =>
      rw [cut_concat_last Beat.eop l ⟨i.rxData, i.rxSop, true⟩ rfl]
      refine ⟨⟨by simp, by simp, by simp, by simp, by simp, by simp⟩, ?_⟩
      rw [hnum, he]
      rfl

/-- The frames received after a last word. -/
theorem receivedFrames_last {l : List Beat} (hv : i.rxDval = true) (he : i.rxEop = true) :
    receivedFrames (l ++ fed [i]) =
      receivedFrames l ++ [(cut Beat.eop l).2.map Beat.data ++ [i.rxData]] := by
  have hone : fed [i] = [⟨i.rxData, i.rxSop, true⟩] := by simp [fed, hv, he]
  rw [hone, receivedFrames, cut_concat_last Beat.eop l ⟨i.rxData, i.rxSop, true⟩ rfl]
  simp [receivedFrames]

/-- One edge: a word, or an idle cycle. -/
theorem Requested.step {l : List Beat} (h : Requested l s) (hw : WholeFrames i s)
    (hc : ¬CutOff i s) : Requested (l ++ fed [i]) (FrameReciever.step i s) := by
  refine ⟨h.read.edge hw, fun hg => ?_⟩
  cases hv : i.rxDval with
  | false => simp [FrameReciever.step, hv] at hg
  | true =>
    have hfields := h.read.toArpFields.step h.read.wordNum hv
    obtain ⟨he, hopt, hdest⟩ := generateArpReply_step hw hv (fun hg => (h.request hg).1) hg
    refine ⟨by rw [wordNum_step hw hv, he]; rfl, ?_⟩
    have hlen : 8 ≤ s.wordNum := by
      by_contra hlt
      exact hc ⟨hv, he, by omega, hopt, hdest⟩
    rw [h.read.wordNum] at hlen
    have harp := h.read.optype (by omega)
    rw [hopt] at harp
    have hty : IsArp ((cut Beat.eop l).2.map Beat.data) := by
      by_contra hno
      rw [if_neg fun hc => hno hc.2] at harp
      exact absurd harp (by decide)
    rw [if_pos ⟨by omega, hty⟩] at harp
    have hty' := (isArp_append (w := i.rxData) (by omega)).2 hty
    refine ⟨(cut Beat.eop l).2.map Beat.data ++ [i.rxData], ?_, ⟨?_, hty', ?_⟩,
      hfields.mac ?_ hty', hfields.ip ?_ hty'⟩
    · rw [receivedFrames_last hv he]
      exact List.mem_append_right _ (List.mem_singleton_self _)
    · rw [List.length_append, List.length_singleton]
      omega
    · rw [wordAt_append_of_lt (by omega), ← harp]
    · rw [List.length_append, List.length_singleton]
      omega
    · rw [List.length_append, List.length_singleton]
      omega

/-- A frame that has been received stays one. -/
theorem receivedFrames_mono {l l' : List Beat} {ws : List Word} (h : ws ∈ receivedFrames l) :
    ws ∈ receivedFrames (l ++ l') :=
  (List.IsPrefix.map (List.map Beat.data) (cut_append_isPrefix Beat.eop l l')).subset h

end FpgaEthernet.FrameReciever
