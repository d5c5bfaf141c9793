import FpgaEthernet.Ethernet.FrameReciever

/-!
# A sequence of received frames

What `ethernet_frame_reciever` puts out when it is fed frame after frame: frames
of any type, truncated or padded, with idle cycles anywhere. `Reading ws n` says
what the registers hold after `n` words of the frame `ws`; a field is only
spoken of for the frame types that have it, so that nothing an earlier frame left
behind enters.

Main results:

* `Reading.step`: one word of a frame, of whatever type.
* `observed_frame`: the words of one frame that are put out.
* `observed_frames`: over a sequence of frames, `dval` without `icmp_ping` marks
  exactly the words that the length fields of the UDP frames cover.
-/

namespace FpgaEthernet.FrameReciever

open Clocked

/-! ## What is put out -/

/-- An IPv4 frame. -/
def IsIpv4 (ws : List Word) : Prop := lo (wordAt ws 3) = ethIPv4

/-- An IPv4 frame that carries UDP. -/
def IsUdp (ws : List Word) : Prop :=
  IsIpv4 ws ∧ (wordAt ws 6).extractLsb' 16 8 = protoUdp

instance : DecidablePred IsIpv4 := fun _ => inferInstanceAs (Decidable (_ = _))

instance : DecidablePred IsUdp := fun _ => inferInstanceAs (Decidable (_ ∧ _))

/-- The number of payload words of a UDP frame: what the length field announces,
    as far as the frame goes. -/
def payloadCount (ws : List Word) : ℕ :=
  min ((hi (wordAt ws 10)).toNat / 4 - 2) (ws.length - 11)

/-- What is to be put out at word `n` of the frame `ws`. -/
def deliveryAt (ws : List Word) (n : ℕ) : Option Delivery :=
  if IsUdp ws ∧ 11 ≤ n ∧ n < 11 + payloadCount ws then some (deliveryOf ws (wordAt ws n))
  else none

/-- What stands on the outputs after an edge, if `dval` is high and `icmp_ping`
    low. -/
def udpOut (i : Input) (s : State) : Option Delivery :=
  let s' := step i s
  if s'.dataValid = true ∧ s'.icmpPing = false then
    some ⟨s'.frameWord, s'.destPort, s'.sourcePort, s'.sourceIpAddr, s'.destIpAddrSig,
      s'.sourceMacAddr⟩
  else none

/-- One entry for every word fed, and one for every idle edge at which something
    is put out all the same. -/
def observed (i : Input) (s : State) : List (Option Delivery) :=
  if i.rxDval then [udpOut i s] else (udpOut i s).toList.map some

/-! ## One word -/

/-- What the registers hold of the first `n` words of the frame `ws`. -/
structure Fields (ws : List Word) (n : ℕ) (s : State) : Prop where
  macHigh : n = 3 → s.sourceMacAddr.extractLsb' 16 32 = wordAt ws 2
  ethertype : 4 ≤ n → s.ethertypeSig = lo (wordAt ws 3)
  sourceMac : 4 ≤ n → IsIpv4 ws →
    s.sourceMacAddr = (wordAt ws 2 ++ hi (wordAt ws 3) : BitVec 48)
  protocol : 7 ≤ n → IsIpv4 ws → s.ipv4Protocol = (wordAt ws 6).extractLsb' 16 8
  sourceIp : 8 ≤ n → IsIpv4 ws → s.sourceIpAddr = wordAt ws 7
  destIp : 9 ≤ n → IsIpv4 ws → s.destIpAddrSig = wordAt ws 8
  ports : 10 ≤ n → IsUdp ws →
    s.sourcePort = hi (wordAt ws 9) ∧ s.destPort = lo (wordAt ws 9)
  payloadLen : 11 ≤ n → IsUdp ws → s.payloadLen = ((hi (wordAt ws 10)).toNat / 4 : ℤ) - 2
  valid : 1 ≤ n → s.dataValid = true → s.icmpPing = true ∨ IsUdp ws ∧ 12 ≤ n
  ping : 1 ≤ n → IsUdp ws → s.icmpPing = false

/-- The registers after the first `n` words of the frame `ws`. -/
structure Reading (ws : List Word) (n : ℕ) (s : State) : Prop extends Fields ws n s where
  wordNum : s.wordNum = if n = ws.length then 0 else n

variable {ws : List Word} {n : ℕ} {i : Input} {s : State}

theorem fields_zero : Fields ws 0 s := by
  constructor <;> simp

/-- An idle cycle puts nothing out and keeps what has been read. -/
theorem Fields.idle (h : Fields ws n s) (hi : i.rxDval = false) :
    Fields ws n (step i s) ∧ observed i s = [] := by
  have hd : (step i s).dataValid = false := by simp [step, hi]
  refine ⟨?_, by simp [observed, hi, udpOut, hd]⟩
  obtain ⟨h1, h2, h3, h4, h5, h6, h7, h8, -, h10⟩ := h
  constructor <;> simp_all [step]

/-- A word of the Ethernet header. -/
theorem Fields.ethernet (h : Fields ws n s) (hn : n < 4) (hs : s.wordNum = n)
    (hd : i.rxData = wordAt ws n) : Fields ws (n + 1) (wordParser i s) := by
  have hhi : ∀ (w : Word) (v : BitVec 16), (w ++ v).extractLsb' 16 32 = w := fun w v =>
    BitVec.extractLsb'_append_eq_left
  obtain ⟨h1, -, -, -, -, -, -, -, h9, h10⟩ := h
  interval_cases n <;> refine ⟨?_, ?_, ?_, ?_, ?_, ?_, ?_, ?_, ?_, ?_⟩ <;>
    first
    | (intro hk; omega)
    | (simp [wordParser, parseEthernet, hs, hd, hhi, h1]; done)
    | simpa [wordParser, parseEthernet, hs] using h9
    | simpa [wordParser, parseEthernet, hs] using h10

/-- A word after the Ethernet header of a frame that is not IPv4. -/
theorem Fields.other (h : Fields ws n s) (hn : 4 ≤ n) (hs : s.wordNum = n)
    (hty : ¬IsIpv4 ws) : Fields ws (n + 1) (wordParser i s) := by
  have hudp : ¬IsUdp ws := fun hu => hty hu.1
  have hne : s.ethertypeSig ≠ ethIPv4 := fun he => hty ((h.ethertype hn).symm.trans he)
  have hkeep : (wordParser i s).ethertypeSig = s.ethertypeSig ∧
      (wordParser i s).dataValid = s.dataValid ∧ (wordParser i s).icmpPing = s.icmpPing := by
    simp only [wordParser, hs, if_neg (show ¬n < 4 by omega), if_neg hne, parseArp]
    split_ifs <;> exact ⟨rfl, rfl, rfl⟩
  obtain ⟨hk1, hk2, hk3⟩ := hkeep
  refine ⟨fun hk => absurd hk (by omega), fun _ => hk1.trans (h.ethertype hn),
    fun _ hk => absurd hk hty, fun _ hk => absurd hk hty, fun _ hk => absurd hk hty,
    fun _ hk => absurd hk hty, fun _ hk => absurd hk hudp, fun _ hk => absurd hk hudp, ?_,
    fun _ hk => absurd hk hudp⟩
  intro _ hv
  rw [hk2] at hv
  rw [hk3]
  exact (h.valid (by omega) hv).imp_right fun hu => absurd hu.1 hudp

/-- A word of the IPv4 header. -/
theorem Fields.ipv4 (h : Fields ws n s) (hn : 4 ≤ n) (hn' : n < 9) (hs : s.wordNum = n)
    (hd : i.rxData = wordAt ws n) (hty : IsIpv4 ws) : Fields ws (n + 1) (wordParser i s) := by
  have he : s.ethertypeSig = ethIPv4 := (h.ethertype hn).trans hty
  have hty' : lo (wordAt ws 3) = ethIPv4 := hty
  obtain ⟨-, -, h3, h4, h5, -, -, -, h9, h10⟩ := h
  interval_cases n <;> refine ⟨?_, ?_, ?_, ?_, ?_, ?_, ?_, ?_, ?_, ?_⟩ <;>
    first
    | (intro hk; omega)
    | simpa [wordParser, parseIpv4, hs, he] using h9
    | simpa [wordParser, parseIpv4, hs, he] using h10
    | simp [wordParser, parseIpv4, hs, hd, he, hty, hty', h3, h4, h5]

/-- A word after the IPv4 header of a frame that does not carry UDP. -/
theorem Fields.notUdp (h : Fields ws n s) (hn : 9 ≤ n) (hs : s.wordNum = n)
    (hty : IsIpv4 ws) (hudp : ¬IsUdp ws) : Fields ws (n + 1) (wordParser i s) := by
  have he : s.ethertypeSig = ethIPv4 := (h.ethertype (by omega)).trans hty
  have hp : s.ipv4Protocol ≠ protoUdp := fun hp =>
    hudp ⟨hty, (h.protocol (by omega) hty).symm.trans hp⟩
  have hparse : wordParser i s = if s.ipv4Protocol = protoIcmp then parseIcmp i s else s := by
    simp [wordParser, parseIpv4, he, hp, hs, hn, show ¬n < 4 by omega, show n ≠ 4 by omega,
      show n ≠ 6 by omega, show n ≠ 7 by omega, show n ≠ 8 by omega]
  have hkeep : (wordParser i s).ethertypeSig = s.ethertypeSig ∧
      (wordParser i s).sourceMacAddr = s.sourceMacAddr ∧
      (wordParser i s).ipv4Protocol = s.ipv4Protocol ∧
      (wordParser i s).sourceIpAddr = s.sourceIpAddr ∧
      (wordParser i s).destIpAddrSig = s.destIpAddrSig ∧
      ((wordParser i s).dataValid = true →
        (wordParser i s).icmpPing = true ∨ s.dataValid = true ∧ s.icmpPing = false) := by
    rw [hparse]
    unfold parseIcmp
    cases hv : s.dataValid <;> cases hq : s.icmpPing <;> split_ifs <;> simp [hv, hq]
  obtain ⟨hk1, hk2, hk3, hk4, hk5, hk6⟩ := hkeep
  refine ⟨fun hk => absurd hk (by omega), fun _ => hk1.trans (h.ethertype (by omega)),
    fun _ _ => hk2.trans (h.sourceMac (by omega) hty),
    fun _ _ => hk3.trans (h.protocol (by omega) hty),
    fun _ _ => hk4.trans (h.sourceIp (by omega) hty), fun _ _ => ?_,
    fun _ hk => absurd hk hudp, fun _ hk => absurd hk hudp, fun _ hv => ?_,
    fun _ hk => absurd hk hudp⟩
  · exact hk5.trans (h.destIp hn hty)
  · rcases hk6 hv with hq | ⟨hv', hq⟩
    · exact .inl hq
    · rcases h.valid (by omega) hv' with hq' | hu
      · simp [hq] at hq'
      · exact absurd hu.1 hudp

/-- A word of the UDP header. -/
theorem Fields.udpHeader (h : Fields ws n s) (hn : 9 ≤ n) (hn' : n < 11) (hs : s.wordNum = n)
    (hd : i.rxData = wordAt ws n) (hudp : IsUdp ws) : Fields ws (n + 1) (wordParser i s) := by
  have he : s.ethertypeSig = ethIPv4 := (h.ethertype (by omega)).trans hudp.1
  have hp : s.ipv4Protocol = protoUdp := (h.protocol (by omega) hudp.1).trans hudp.2
  have hty : IsIpv4 ws := hudp.1
  have hty' : lo (wordAt ws 3) = ethIPv4 := hudp.1
  have hp' : (wordAt ws 6).extractLsb' 16 8 = protoUdp := hudp.2
  obtain ⟨-, -, h3, -, h5, h6, h7, -, h9, h10⟩ := h
  interval_cases n <;> refine ⟨?_, ?_, ?_, ?_, ?_, ?_, ?_, ?_, ?_, ?_⟩ <;>
    first
    | (intro hk; omega)
    | simpa [wordParser, parseIpv4, parseUdp, hs, he, hp] using h9
    | simpa [wordParser, parseIpv4, parseUdp, hs, he, hp] using h10
    | simp [wordParser, parseIpv4, parseUdp, hs, hd, he, hp, hp', hty, hty', hudp, h3, h5, h6, h7]

/-- A word after the UDP header: only `dval` changes. -/
theorem Fields.wordParser_payload (h : Fields ws n s) (hn : 11 ≤ n) (hs : s.wordNum = n)
    (hudp : IsUdp ws) : wordParser i s =
      { s with dataValid := decide (n < 11 + ((hi (wordAt ws 10)).toNat / 4 - 2)) } := by
  have he : s.ethertypeSig = ethIPv4 := (h.ethertype (by omega)).trans hudp.1
  have hp : s.ipv4Protocol = protoUdp := (h.protocol (by omega) hudp.1).trans hudp.2
  have hlen := h.payloadLen hn hudp
  have hcond : (11 ≤ n ∧ (n : ℤ) ≤ s.payloadLen + 10) ↔
      n < 11 + ((hi (wordAt ws 10)).toNat / 4 - 2) := by
    rw [hlen]
    omega
  simp [wordParser, parseIpv4, parseUdp, he, hp, hs, hcond, show ¬n < 4 by omega,
    show n ≠ 4 by omega, show n ≠ 6 by omega, show n ≠ 7 by omega, show n ≠ 8 by omega,
    show 9 ≤ n by omega, show n ≠ 9 by omega, show n ≠ 10 by omega]

theorem Fields.payload (h : Fields ws n s) (hn : 11 ≤ n) (hs : s.wordNum = n)
    (hudp : IsUdp ws) : Fields ws (n + 1) (wordParser i s) := by
  rw [h.wordParser_payload hn hs hudp]
  obtain ⟨-, h2, h3, h4, h5, h6, h7, h8, -, h10⟩ := h
  refine ⟨fun hk => absurd hk (by omega), fun _ => h2 (by omega), fun _ => h3 (by omega),
    fun _ => h4 (by omega), fun _ => h5 (by omega), fun _ => h6 (by omega),
    fun _ => h7 (by omega), fun _ => h8 (by omega), fun _ _ => .inr ⟨hudp, by omega⟩,
    fun _ => h10 (by omega)⟩

/-- One more word, of whatever type the frame is. -/
theorem Fields.word (h : Fields ws n s) (hs : s.wordNum = n) (hd : i.rxData = wordAt ws n) :
    Fields ws (n + 1) (wordParser i s) := by
  rcases Nat.lt_or_ge n 4 with hn | hn
  · exact h.ethernet hn hs hd
  by_cases hty : IsIpv4 ws
  · rcases Nat.lt_or_ge n 9 with hn9 | hn9
    · exact h.ipv4 hn hn9 hs hd hty
    by_cases hudp : IsUdp ws
    · rcases Nat.lt_or_ge n 11 with hn11 | hn11
      · exact h.udpHeader hn9 hn11 hs hd hudp
      · exact h.payload hn11 hs hudp
    · exact h.notUdp hn9 hs hty hudp
  · exact h.other hn hs hty

/-- The edge of a word: the parser, the word counter, and the flags that the
    counter raises. -/
theorem step_word (hv : i.rxDval = true) : ∃ a b, step i s =
    { wordParser i s with
      wordNum := if i.rxSop then 1 else if i.rxEop then 0 else s.wordNum + 1
      generateArpReply := a
      arpReplyRecieved := b
      frameWord := i.rxData
      rdySig := true
      eop := i.rxEop } := by
  unfold step wordNumCounter
  rw [if_pos hv]
  cases i.rxSop
  · cases i.rxEop
    · exact ⟨_, _, rfl⟩
    · exact ⟨_, _, rfl⟩
  · exact ⟨_, _, rfl⟩

/-- The counter and the flags are not among what `Fields` speaks of. -/
theorem Fields.congr (h : Fields ws n s) (m : ℕ) (a b c d : Bool) (w : Word) :
    Fields ws n { s with
      wordNum := m
      generateArpReply := a
      arpReplyRecieved := b
      frameWord := w
      rdySig := c
      eop := d } := by
  obtain ⟨h1, h2, h3, h4, h5, h6, h7, h8, h9, h10⟩ := h
  exact ⟨h1, h2, h3, h4, h5, h6, h7, h8, h9, h10⟩

/-- One word of a frame: it is read, and put out exactly if it is one of the
    payload words that the length field of a UDP frame covers. -/
theorem Reading.step (h : Reading ws n s) (hv : i.rxDval = true) (hlt : n < ws.length)
    (h2 : 2 ≤ ws.length) (hd : i.rxData = wordAt ws n) (hsop : i.rxSop = decide (n = 0))
    (heop : i.rxEop = decide (n + 1 = ws.length)) :
    Reading ws (n + 1) (step i s) ∧ observed i s = [deliveryAt ws n] := by
  have hs : s.wordNum = n := by rw [h.wordNum, if_neg (by omega)]
  have hf := h.toFields.word hs hd
  obtain ⟨a, b, hstep⟩ := step_word (s := s) hv
  refine ⟨⟨?_, ?_⟩, ?_⟩
  · rw [hstep]
    exact hf.congr _ _ _ _ _ _
  · rw [hstep, hsop, heop, hs]
    by_cases h0 : n = 0
    · subst h0
      simp [show ¬1 = ws.length by omega]
    · simp [h0]
  · have hobs : observed i s = [udpOut i s] := by rw [observed, if_pos hv]
    rw [hobs, List.cons.injEq]
    refine ⟨?_, rfl⟩
    unfold udpOut deliveryAt
    rw [hstep]
    by_cases hpay : IsUdp ws ∧ 11 ≤ n
    · obtain ⟨hudp, hn⟩ := hpay
      have hping : s.icmpPing = false := h.ping (by omega) hudp
      have hmin : n < 11 + payloadCount ws ↔
          n < 11 + ((hi (wordAt ws 10)).toNat / 4 - 2) := by
        unfold payloadCount
        omega
      simp only [h.wordParser_payload hn hs hudp, hping, hudp, hn, hmin, true_and, and_true,
        decide_eq_true_eq, deliveryOf, h.sourceMac (show 4 ≤ n by omega) hudp.1,
        h.sourceIp (show 8 ≤ n by omega) hudp.1, h.destIp (show 9 ≤ n by omega) hudp.1,
        (h.ports (show 10 ≤ n by omega) hudp).1, (h.ports (show 10 ≤ n by omega) hudp).2, hd]
    · have hno : ¬((wordParser i s).dataValid = true ∧ (wordParser i s).icmpPing = false) := by
        rintro ⟨hval, hq⟩
        rcases hf.valid (by omega) hval with hp | ⟨hu, hn⟩
        · simp [hq] at hp
        · exact hpay ⟨hu, by omega⟩
      rw [if_neg hno, if_neg fun hc => hpay ⟨hc.1, hc.2.1⟩]

/-! ## Runs -/

/-- What is to be put out of the first `n` words of a frame. -/
def outAmong (ws : List Word) (n : ℕ) : List (Option Delivery) :=
  (List.range n).map (deliveryAt ws)

/-- Fed a beginning of a frame of any type, with idle cycles anywhere, the
    receiver has read it. -/
theorem reading_run {ws : List Word} (h2 : 2 ≤ ws.length) {s : State} (hs : s.wordNum = 0)
    (is : List Input) (hfed : fed is <+: framed ws) :
    Reading ws (fed is).length (run FrameReciever.step s is) ∧
      log FrameReciever.step observed s is = outAmong ws (fed is).length := by
  induction is using List.reverseRecOn with
  | nil =>
    refine ⟨⟨fields_zero, ?_⟩, rfl⟩
    exact hs.trans (ite_self 0).symm
  | append_singleton is i ih =>
    have hcat : fed (is ++ [i]) = fed is ++ fed [i] := List.filterMap_append
    rw [hcat] at hfed ⊢
    obtain ⟨hr, hl⟩ := ih ((List.prefix_append _ _).trans hfed)
    rw [run_concat, log_concat, hl]
    cases hv : i.rxDval
    · have hnil : fed [i] = [] := by simp [fed, hv]
      obtain ⟨hf, ho⟩ := hr.toFields.idle hv
      rw [hnil, List.append_nil, ho, List.append_nil]
      refine ⟨⟨hf, ?_⟩, rfl⟩
      have hnum : (step i (run step s is)).wordNum = (run step s is).wordNum := by
        simp [step, hv]
      rw [hnum, hr.wordNum]
    · have hone : fed [i] = [⟨i.rxData, i.rxSop, i.rxEop⟩] := by simp [fed, hv]
      rw [hone] at hfed ⊢
      have hlt : (fed is).length < ws.length := by
        have := hfed.length_le
        rw [framed_length, List.length_append, List.length_singleton] at this
        omega
      have hbeat := getElem?_of_isPrefix hfed (List.getElem?_concat_length ..)
      rw [framed_getElem? ws hlt, Option.some.injEq, Beat.mk.injEq] at hbeat
      obtain ⟨hd, hsop, heop⟩ := hbeat
      obtain ⟨hr', ho⟩ := hr.step hv hlt h2 hd.symm hsop.symm heop.symm
      rw [ho, List.length_append, List.length_singleton]
      exact ⟨hr', by simp [outAmong, List.range_succ]⟩

/-- One whole frame: the counter is back at zero for the next. -/
theorem observed_frame {ws : List Word} (h2 : 2 ≤ ws.length) {s : State} (hs : s.wordNum = 0)
    (is : List Input) (hfed : fed is = framed ws) :
    (run FrameReciever.step s is).wordNum = 0 ∧
      log FrameReciever.step observed s is = outAmong ws ws.length := by
  obtain ⟨hr, hl⟩ := reading_run h2 hs is (hfed ▸ List.prefix_refl _)
  rw [hfed, framed_length] at hr hl
  exact ⟨by rw [hr.wordNum, if_pos rfl], hl⟩

/-- Fed any sequence of frames with idle cycles anywhere, the receiver has
    `dval` high and `icmp_ping` low at exactly the words the length fields of
    the UDP frames cover, with the word and the fields of its own frame on the
    outputs. -/
theorem observed_frames {fs : List (List Word)} (h2 : ∀ ws ∈ fs, 2 ≤ ws.length) {s : State}
    (hs : s.wordNum = 0) (is : List Input) (hfed : fed is = fs.flatMap framed) :
    log FrameReciever.step observed s is = fs.flatMap fun ws => outAmong ws ws.length := by
  induction fs generalizing s is with
  | nil =>
    have hidle : fed is <+: framed [0, 0] := by simp [hfed]
    have hlen : (fed is).length = 0 := by simp [hfed]
    have h := (reading_run (by simp) hs is hidle).2
    rw [h, hlen]
    rfl
  | cons ws fs ih =>
    rw [List.flatMap_cons] at hfed
    obtain ⟨js, ks, rfl, hjs, hks⟩ := List.filterMap_eq_append_iff.1 hfed
    obtain ⟨hzero, hlog⟩ := observed_frame (h2 ws List.mem_cons_self) hs js hjs
    rw [log_append, hlog, List.flatMap_cons,
      ih (fun v hv => h2 v (List.mem_cons_of_mem ws hv)) hzero ks hks]

/-- An ARP frame that is cut off, and a UDP frame whose length field covers one
    of its two payload words. -/
def truncatedThenUdp : List (List Word) :=
  [[0x1, 0x2, 0x3, 0x0806, 0x5],
    [0x1, 0x2, 0x30405060, 0x70800800, 0x4, 0x5, 0x00110000, 0x0A000001, 0x0A000002, 0x40003000,
      0x000C0000, 0xCAFE, 0xBEEF]]

/-- The words of `truncatedThenUdp`, with an idle cycle after each of them. -/
def truncatedThenUdpInputs : List Input :=
  (truncatedThenUdp.flatMap framed).flatMap fun b =>
    [⟨b.data, b.eop, b.sop, true, 0⟩, ⟨0, false, false, false, 0⟩]

theorem observed_truncatedThenUdp :
    log FrameReciever.step observed reset truncatedThenUdpInputs =
      truncatedThenUdp.flatMap fun ws => outAmong ws ws.length :=
  observed_frames (by decide) rfl truncatedThenUdpInputs (by decide +kernel)

end FpgaEthernet.FrameReciever
