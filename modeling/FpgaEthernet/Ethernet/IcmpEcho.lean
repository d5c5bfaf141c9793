import FpgaEthernet.Ethernet.IcmpBlock

/-!
# One echo request from beginning to end

An echo request that reaches `ethernet/icmp_block.vhd` while nothing is under
way there. The reply has one word more than the FIFO holds, and the source adds
this one to the 8-bit used-word count of the FIFO in 8 bits.

Main results:

* `collecting_step`: how the words of the request come in.
* `due_step`: once `tx_ready` has been high, every edge brings the block nearer
  to being idle again.
* `clogged_step`: a request of 255 words or more stays in the FIFO for ever.
* `echoed_iff`: the request is replied to, and the FIFO is empty afterwards, iff
  it has at most 254 words.
-/

namespace FpgaEthernet.IcmpBlock

open Clocked Transmitter

/-! ## The request comes in -/

/-- The words `ws` of a request have come in, and nothing else is under way. -/
structure Collecting (ws : List Word) (s : State) : Prop where
  contents : s.fifo.contents = ws.take 256
  sum : s.sum = requestSum ws
  notClosing : ¬Closing s
  payloadRdy : s.payloadRdy = false
  replyWait : s.replyWait = false
  fgBusy : s.tx.fg.fgBusy = false
  nextState : s.tx.fg.nextState = .idle
  resting : Resting s.tx

/-- Nothing is under way: no request has begun, none waits or is being replied
    to, and the FIFO is empty. -/
abbrev Idle (s : State) : Prop := Collecting [] s

theorem idle_reset : Idle reset where
  contents := rfl
  sum := rfl
  notClosing := by decide
  payloadRdy := rfl
  replyWait := rfl
  fgBusy := rfl
  nextState := rfl
  resting := ⟨.inl rfl, ⟨rfl, rfl, rfl⟩, rfl, rfl, rfl, rfl⟩

variable {q : Received} {l : List Beat} {ps : List (Packet Request)} {t r : Request}
  {pay ws : List Word} {i : Input} {s : State}

theorem Collecting.output (h : Collecting ws s) : output i s = [] := by
  simp [IcmpBlock.output, written, h.resting.wrreq]

/-- The FIFO takes in an echo word as long as it has room. -/
theorem Collecting.contents_step (h : Collecting ws s)
    (hdel : i.icmpPing = true → i.frDval = true) :
    (step i s).fifo.contents = (if i.icmpPing then ws ++ [i.frDataOut] else ws).take 256 := by
  cases hping : i.icmpPing
  · simp [step, fifoWrreq, hping, h.resting.rdreq, h.contents]
  · have hwr : fifoWrreq i = true := by simp [fifoWrreq, hping, hdel hping]
    simp only [step, Fifo.clock_contents, h.resting.rdreq, hwr, h.contents, Fifo.accepted,
      List.length_take, Bool.false_eq_true, if_false, true_and, if_true]
    by_cases hroom : ws.length < 256
    · rw [if_pos (by omega), List.take_of_length_le (by omega),
        List.take_of_length_le (by rw [List.length_append, List.length_singleton]; omega)]
    · rw [if_neg (by omega), List.append_nil, List.take_append_of_le_length (by omega)]

/-- The transmitter stays at rest while no request waits. -/
theorem Collecting.tx_step (h : Collecting ws s) :
    Resting (step i s).tx ∧ (step i s).tx.fg.nextState = .idle ∧
      (step i s).tx.fg.fgBusy = false ∧ (step i s).payloadRdy = false := by
  have hidle : (step i s).tx.fg.nextState = .idle := by
    simp [step, Transmitter.step, FrameGenerator.step, FrameGenerator.stateMachine, fgInput,
      txInput, h.nextState, h.payloadRdy]
  refine ⟨h.resting.hold fun _ => h.payloadRdy, hidle, ?_, by simp [step, h.replyWait]⟩
  exact (FrameGenerator.fgBusy_step _ _ _).trans (by rw [if_pos h.nextState]; exact h.payloadRdy)

/-- A word that does not end the request, or none. -/
theorem collecting_step (h : Collecting ws s) (hdel : i.icmpPing = true → i.frDval = true)
    (hopen : i.icmpPing = true → i.frEop = false) :
    Collecting (if i.icmpPing then ws ++ [i.frDataOut] else ws) (step i s) := by
  obtain ⟨hrest, hidle, hbusy, hrdy⟩ := h.tx_step (i := i)
  refine ⟨h.contents_step hdel, ?_, ?_, hrdy, ?_, hbusy, hidle, hrest⟩
  · cases hping : i.icmpPing
    · simp [step, checksumComputer, h.notClosing, hping, h.sum]
    · simp [step, checksumComputer, h.notClosing, hping, hdel hping, h.sum, requestSum]
  · rintro ⟨heop, hping⟩
    rw [show i.frEop = true from heop] at hopen
    exact absurd (hopen hping) (by decide)
  · cases hping : i.icmpPing
    · simp [step, replyBuffer, h.fgBusy, h.replyWait, hping]
    · simp [step, replyBuffer, h.fgBusy, h.replyWait, hping, hopen hping]

/-- What has been received is one request at most. -/
def Single (q : Received) : Prop := q.1 = [] ∨ ∃ r, q = ([r], [])

theorem single_of_receive (h : Single (receive i q)) : Single q := by
  unfold receive at h
  split_ifs at h with hping heop
  · refine .inl ?_
    rcases h with h | ⟨r, h⟩
    · simp at h
    · simpa using (congrArg List.length (congrArg Prod.fst h))
  · refine .inl ?_
    rcases h with h | ⟨r, h⟩
    · exact h
    · simpa using congrArg Prod.snd h
  · exact h

/-- A request that goes through the block: `P` is what holds of it once its last
    word has come in. -/
theorem single_run {P : Request → List Beat → State → Prop}
    (hclose : ∀ {ws i s}, Collecting ws s → i.icmpPing = true → i.frDval = true →
      i.frEop = true →
      P ⟨ws ++ [i.frDataOut], i.destMacAddr, i.destIpAddr⟩ [] (step i s))
    (hquiet : ∀ {r l i s}, P r l s → i.icmpPing = false → P r (l ++ output i s) (step i s))
    (h : Idle s) {is : List Input} (hdel : ∀ i ∈ is, i.icmpPing = true → i.frDval = true)
    (hsingle : Single (received (log step arriving s is))) :
    ((received (log step arriving s is)).1 = [] ∧ log step output s is = [] ∧
        Collecting (received (log step arriving s is)).2 (run step s is)) ∨
      ∃ r, received (log step arriving s is) = ([r], []) ∧
        P r (log step output s is) (run step s is) := by
  induction is using List.reverseRecOn with
  | nil => exact .inl ⟨rfl, rfl, h⟩
  | append_singleton is i ih =>
    have hi : i.icmpPing = true → i.frDval = true := hdel i (by simp)
    rw [log_concat, received_step hi] at hsingle ⊢
    rw [log_concat, run_concat]
    rcases ih (fun j hj => hdel j (List.mem_append_left _ hj)) (single_of_receive hsingle) with
      ⟨hreq, hlog, hcol⟩ | ⟨r, hreq, hp⟩
    · rw [hlog, hcol.output]
      by_cases hend : i.icmpPing = true ∧ i.frEop = true
      · obtain ⟨hping, heop⟩ := hend
        refine .inr ⟨_, ?_, hclose hcol hping (hi hping) heop⟩
        simp [receive, hping, heop, hreq]
      · have hopen : i.icmpPing = true → i.frEop = false := by
          intro hping
          simpa [hping] using hend
        have hrec : receive i (received (log step arriving s is)) =
            ([], if i.icmpPing then (received (log step arriving s is)).2 ++ [i.frDataOut]
              else (received (log step arriving s is)).2) := by
          cases hping : i.icmpPing <;> apply Prod.ext <;> simp [receive, hping, hopen, hreq]
        rw [hrec]
        exact .inl ⟨rfl, rfl, collecting_step hcol hi hopen⟩
    · have hping : i.icmpPing = false := by
        by_contra hping
        rw [hreq, Single, receive, if_pos (by simpa using hping)] at hsingle
        split_ifs at hsingle <;> simp at hsingle
      refine .inr ⟨r, ?_, hquiet hp hping⟩
      rw [receive, hping, hreq]
      rfl

/-! ## A request of at most 254 words -/

/-- A request in progress meets the invariant of the block. -/
theorem Collecting.inv (h : Collecting ws s) (hlen : ws.length ≤ 256) (t : Request) :
    Inv ([], ws) [] [] t [] s where
  sends := ⟨rfl, by simp, .rest h.resting⟩
  busy := fun _ => h.nextState
  payloads := by simp
  rdy := by simp [h.payloadRdy]
  closing := fun hc => absurd hc h.notClosing
  sum := fun _ => h.sum
  between := fun _ => .inl ⟨h.replyWait, rfl, by rw [h.contents, List.take_of_length_le hlen]⟩
  replying := fun ha => absurd h.nextState ha.1

/-- The request `r` has come in; `l` has been sent since. -/
def Taken (r : Request) (l : List Beat) (s : State) : Prop :=
  ∃ ps t pay, Inv ([r], []) l ps t pay s

theorem delivered_of_quiet (h : i.icmpPing = false) : Delivered i s := by
  simp [Delivered, h]

theorem apart_of_quiet (h : i.icmpPing = false) : Apart i s := by
  simp [Apart, h]

theorem Collecting.taken (h : Collecting ws s) (hping : i.icmpPing = true)
    (hdval : i.frDval = true) (heop : i.frEop = true) (hlen : ws.length < 254) :
    Taken ⟨ws ++ [i.frDataOut], i.destMacAddr, i.destIpAddr⟩ [] (step i s) := by
  have hap : Apart i s := by
    intro _
    refine ⟨h.replyWait, ?_, fun _ => h.fgBusy⟩
    rw [ReadsIssued, h.nextState]
    trivial
  have hdel : Delivered i s := ⟨fun _ => hdval, fun hc => absurd hc h.notClosing⟩
  have hinv := inv_step (h.inv (by omega) ⟨[], 0, 0⟩) hdel hap fun _ => hlen
  simpa [Taken, receive, hping, heop, h.output] using hinv

theorem Taken.step (h : Taken r l s) (hping : i.icmpPing = false) :
    Taken r (l ++ output i s) (step i s) := by
  obtain ⟨ps, t, pay, hinv⟩ := h
  have hinv := inv_step hinv (delivered_of_quiet hping) (apart_of_quiet hping) (by simp [hping])
  rwa [receive_of_not hping] at hinv

/-- The edges until the block is idle again, once `tx_ready` has been high. -/
def due (s : State) : ℕ :=
  if Active s.tx then edgesLeft fgConfig hgConfig s.tx + 2
  else if s.replyWait then s.fifo.usedw + 21
  else if s.tx.fg.nextState = .done then 2
  else if s.tx.fg.fgBusy then 1
  else 0

/-- A request that waits has been announced to the frame generator. -/
def Going (s : State) : Prop := ¬Active s.tx → s.replyWait = true → s.payloadRdy = true

theorem replyWait_of_quiet (hping : i.icmpPing = false) :
    (step i s).replyWait = true ↔ s.tx.fg.fgBusy = false ∧ s.replyWait = true := by
  simp [replyWait_step, hping]

theorem going_of_txReady (hping : i.icmpPing = false) (htx : i.txReady = true) :
    Going (step i s) := by
  intro _ hwait
  obtain ⟨hbusy, hwait⟩ := (replyWait_of_quiet hping).1 hwait
  simp [step, hbusy, hwait, htx]

theorem due_of_not_active (hact : ¬Active s.tx) (hwait : s.replyWait = false) : due s ≤ 2 := by
  rw [due, if_neg hact, if_neg (by simp [hwait])]
  split_ifs <;> omega

theorem due_of_idle (hact : ¬Active s.tx) (hwait : s.replyWait = false)
    (hn : s.tx.fg.nextState = .idle) : due s = if s.tx.fg.fgBusy then 1 else 0 := by
  rw [due, if_neg hact, if_neg (by simp [hwait]), if_neg (by simp [hn])]

theorem due_le (h : Inv ([r], []) l ps t pay s) : due s ≤ r.words.length + 21 := by
  have hedges : edgesLeft fgConfig hgConfig s.tx ≤ _ := edgesLeft_le s.tx
  have hheader : HeaderGenerator.headerWords hgConfig + fgConfig.fifoInDly.toNat = 12 := rfl
  by_cases hact : Active s.tx
  · have hrep := h.replying hact
    have hreq : [r] = ps.map Packet.tag ++ [t] := hrep.requests_eq
    obtain ⟨-, rfl⟩ : ps = [] ∧ t = r := by simpa using List.append_eq_singleton_iff.1 hreq.symm
    have hlen := hrep.length_eq
    rw [due, if_pos hact]
    omega
  · rcases h.between hact with hq | ⟨r', hw⟩
    · have := due_of_not_active hact hq.replyWait
      omega
    · have hreq : [r] = ps.map Packet.tag ++ [r'] := hw.requests_eq
      obtain ⟨-, rfl⟩ : ps = [] ∧ r' = r := by simpa using List.append_eq_singleton_iff.1 hreq.symm
      rw [due, if_neg hact, if_pos hw.replyWait, Fifo.usedw, hw.contents]

/-- Every edge brings the block nearer to being idle again. -/
theorem due_step (h : Inv ([r], []) l ps t pay s) (hgo : Going s) (hping : i.icmpPing = false) :
    Going (step i s) ∧ due (step i s) ≤ due s - 1 := by
  have hdel : Delivered i s := delivered_of_quiet hping
  have hap : Apart i s := apart_of_quiet hping
  by_cases hact : Active s.tx
  · have hlen := (h.replying hact).length_eq
    have hwait : (step i s).replyWait = false := by
      by_contra hw
      have := ((replyWait_of_quiet hping).1 (by simpa using hw)).1
      simp [h.fgBusy_of_active hact] at this
    refine ⟨fun _ hw => by simp [hwait] at hw, ?_⟩
    rw [due.eq_1 s, if_pos hact]
    cases he : s.tx.fg.eopSig
    · obtain ⟨hact', hedges⟩ :=
        h.sends.edgesLeft_step (i := txInput i s) rfl hact he (by rw [hlen]; omega)
      have hact' : Active (step i s).tx := hact'
      have hedges : edgesLeft fgConfig hgConfig (step i s).tx + 1 =
        edgesLeft fgConfig hgConfig s.tx := hedges
      rw [due, if_pos hact']
      omega
    · obtain ⟨-, -, hrest, -⟩ := h.sends.finish (i := txInput i s) rfl (by decide) he
      have hedges := (h.sends.eop_iff hact (by rw [hlen]; omega)).1 he
      have := due_of_not_active (s := step i s) hrest.not_active hwait
      omega
  · obtain ⟨hrest, -, -⟩ := h.sends.resting hact
    cases hwait : s.replyWait
    · have hrdy : s.payloadRdy = false := by
        by_contra hr
        simp [(h.rdy (by simpa using hr)).1] at hwait
      obtain ⟨-, -, hrest'⟩ := h.sends.hold (i := txInput i s) hact fun _ => hrdy
      have hact' : ¬Active (step i s).tx := hrest'.not_active
      have hwait' : (step i s).replyWait = false := by
        by_contra hw
        simp [((replyWait_of_quiet hping).1 (by simpa using hw)).2] at hwait
      refine ⟨fun _ hw => by simp [hwait'] at hw, ?_⟩
      have hidle : (step i s).tx.fg.nextState = .idle := by
        rcases hrest.phase with hn | hn <;>
          simp [step, Transmitter.step, FrameGenerator.step, FrameGenerator.stateMachine, fgInput,
            txInput, fgConfig, hn, hrdy]
      have hbusy : (step i s).tx.fg.fgBusy =
          if s.tx.fg.nextState = .idle then s.payloadRdy else s.tx.fg.fgBusy :=
        FrameGenerator.fgBusy_step _ _ _
      rw [due_of_idle hact' hwait' hidle, hbusy, hrdy]
      rcases hrest.phase with hn | hn
      · simp [hn]
      · have hdue : due s = 2 := by rw [due, if_neg hact, if_neg (by simp [hwait]), if_pos hn]
        rw [hdue]
        split_ifs <;> omega
    · have hrdy := hgo hact hwait
      obtain ⟨r', hw⟩ := (h.between hact).resolve_left fun hq => by simp [hq.replyWait] at hwait
      have hn := (h.idle hw.fgBusy).1
      have hnext : (step i s).tx.fg.nextState = .payloadHeader := by
        simp [step, Transmitter.step, FrameGenerator.step, FrameGenerator.stateMachine, fgInput,
          txInput, hn, hrdy]
      have hact' : Active (step i s).tx := by simp [Active, hnext]
      refine ⟨fun ha => absurd hact' ha, ?_⟩
      obtain ⟨-, -, -, hlen⟩ :=
        h.sends.start (c := fgConfig) (i := txInput i s) hn hrdy (by decide) r
      have hlen : (step i s).tx.fg.payloadLength = min _ (usedwIn s).toNat := hlen
      have hedges : edgesLeft fgConfig hgConfig (step i s).tx ≤ _ := edgesLeft_le (step i s).tx
      have hheader : HeaderGenerator.headerWords hgConfig + fgConfig.fifoInDly.toNat = 12 := rfl
      have hused : (usedwIn s).toNat ≤ s.fifo.usedw + 1 := by
        rw [usedwIn_toNat]
        exact Nat.mod_le _ _
      rw [due, due, if_pos hact', if_neg hact, if_pos hwait]
      omega

/-- Once nothing is due the request has been replied to and the block is idle. -/
theorem Taken.echoed (h : Taken r l s) (hdue : due s = 0) :
    replies l = [r.reply] ∧ Idle s := by
  obtain ⟨ps, t, pay, h⟩ := h
  have hact : ¬Active s.tx := by
    intro ha
    rw [due, if_pos ha] at hdue
    omega
  have hwait : s.replyWait = false := by
    by_contra hw
    rw [due, if_neg hact, if_pos (by simpa using hw)] at hdue
    omega
  obtain ⟨hrest, -, -⟩ := h.sends.resting hact
  have hidle : s.tx.fg.nextState = .idle := by
    rcases hrest.phase with hn | hn
    · exact hn
    · rw [due, if_neg hact, if_neg (by simp [hwait]), if_pos hn] at hdue
      omega
  rw [due_of_idle hact hwait hidle] at hdue
  have hq := (h.between hact).resolve_right fun ⟨_, hw⟩ => by simp [hw.replyWait] at hwait
  have hclosing : ¬Closing s := fun hc => by simp [(h.closing hc).1] at hwait
  refine ⟨?_, hq.contents, h.sum hclosing, hclosing, ?_, hwait, ?_, hidle, hrest⟩
  · rw [h.replies_eq, ← hq.requests_eq]
    rfl
  · by_contra hr
    simp [(h.rdy (by simpa using hr)).1] at hwait
  · simpa using hdue

/-- After enough edges the request has been replied to. -/
theorem Taken.run {ks : List Input} (h : Taken r l s) (hgo : Going s)
    (hks : ∀ i ∈ ks, i.icmpPing = false) :
    Taken r (l ++ log IcmpBlock.step output s ks) (Clocked.run IcmpBlock.step s ks) ∧
      due (Clocked.run IcmpBlock.step s ks) ≤ due s - ks.length := by
  induction ks generalizing l s with
  | nil => exact ⟨by simpa using h, le_rfl⟩
  | cons i ks ih =>
    have hping := hks i List.mem_cons_self
    obtain ⟨ps, t, pay, hinv⟩ := id h
    obtain ⟨hgo', hdue⟩ := due_step hinv hgo hping
    obtain ⟨hrun, hle⟩ := ih (h.step hping) hgo' fun j hj => hks j (List.mem_cons_of_mem i hj)
    rw [log_cons, ← List.append_assoc]
    refine ⟨hrun, ?_⟩
    rw [run_cons, List.length_cons]
    omega

/-! ## A longer request -/

/-- No request waits, nor is one announced to the frame generator. -/
def Answered (s : State) : Prop := s.replyWait = false ∧ s.payloadRdy = false

/-- The FIFO holds at least 254 words of a request of whose reply at most one
    word is read. -/
def Clogged (s : State) : Prop :=
  match s.tx.fg.nextState with
  | .idle =>
    s.tx.fg.rdreqSig = false ∧
      (255 ≤ s.fifo.usedw ∨ 254 ≤ s.fifo.usedw ∧ Answered s)
  | .payloadHeader =>
    s.tx.fg.rdreqSig = false ∧ s.tx.fg.delayCounter = 0 ∧ s.tx.fg.payloadLength ≤ 1 ∧
      s.tx.fg.fgBusy = true ∧ 255 ≤ s.fifo.usedw
  | .payloadWait =>
    (s.tx.fg.rdreqSig = true → s.tx.fg.delayCounter = 1) ∧ s.tx.fg.payloadLength ≤ 1 ∧
      s.tx.fg.fgBusy = true ∧ Answered s ∧
      254 + (if s.tx.fg.delayCounter ≤ 1 then 1 else 0) ≤ s.fifo.usedw
  | _ =>
    s.tx.fg.rdreqSig = false ∧ s.tx.fg.payloadLength ≤ 1 ∧ s.tx.fg.fgBusy = true ∧ Answered s ∧
      254 ≤ s.fifo.usedw

theorem usedw_step (hping : i.icmpPing = false) :
    (step i s).fifo.usedw = s.fifo.usedw - s.tx.fg.rdreqSig.toNat := by
  cases hrd : s.tx.fg.rdreqSig <;> simp [step, Fifo.usedw, fifoWrreq, hping, hrd]

theorem answered_step (hping : i.icmpPing = false)
    (h : Answered s ∨ s.tx.fg.fgBusy = true) : Answered (step i s) := by
  rcases h with ⟨hwait, -⟩ | hbusy
  · simp only [Answered, step, replyBuffer, hwait, hping]
    split_ifs <;> simp_all
  · simp [Answered, step, replyBuffer, hbusy]

/-- With 255 or 256 words in the FIFO the count wraps: the reply has at most one
    word. -/
theorem usedwIn_le (h : 255 ≤ s.fifo.usedw) : (usedwIn s).toNat ≤ 1 := by
  have hle : s.fifo.usedw ≤ 256 := s.fifo.bounded
  rw [usedwIn_toNat]
  omega

theorem clogged_step (h : Clogged s) (hping : i.icmpPing = false) : Clogged (step i s) := by
  have hused := usedw_step (s := s) hping
  have hansw : Answered s ∨ s.tx.fg.fgBusy = true → Answered (step i s) := answered_step hping
  have hfg : (step i s).tx.fg =
    FrameGenerator.step fgConfig (fgInput (txInput i s) s.tx) s.tx.fg := rfl
  have hdly : fgConfig.fifoInDly.toNat = 3 := rfl
  unfold Clogged at h ⊢
  rw [hused, hfg]
  cases hn : s.tx.fg.nextState <;> simp only [hn] at h <;>
    simp only [FrameGenerator.step, FrameGenerator.stateMachine, hn]
  case idle =>
    obtain ⟨hrd, hfull⟩ := h
    have hrdy : (fgInput (txInput i s) s.tx).payloadRdy = s.payloadRdy := rfl
    have hlen : (fgInput (txInput i s) s.tx).usedwIn = usedwIn s := rfl
    rw [hrdy, hlen, hrd]
    cases hr : s.payloadRdy
    · exact ⟨trivial, hfull.imp id fun hf => ⟨hf.1, hansw (.inl hf.2)⟩⟩
    · have hfull : 255 ≤ s.fifo.usedw := hfull.resolve_right fun hf => by simp [hf.2.2] at hr
      have hle := usedwIn_le hfull
      have hmax : fgConfig.payloadMaxLen.toNat = 511 := rfl
      refine ⟨trivial, trivial, ?_, rfl, hfull⟩
      simp only [if_true, hmax]
      split_ifs <;> omega
  case payloadHeader =>
    obtain ⟨hrd, hcount, hlen, hbusy, hfull⟩ := h
    have ha := hansw (.inr hbusy)
    have hfull' : 254 ≤ s.fifo.usedw := by omega
    rw [hrd, hcount, hbusy]
    split_ifs <;> simp [ha, hlen, hfull, hfull']
  case payloadWait =>
    obtain ⟨hrd, hlen, hbusy, -, hfull⟩ := h
    have ha := hansw (.inr hbusy)
    have hread : 254 + (if s.tx.fg.delayCounter + 1 ≤ 1 then 1 else 0) ≤
        s.fifo.usedw - s.tx.fg.rdreqSig.toNat := by
      cases hr : s.tx.fg.rdreqSig
      · rw [Bool.toNat_false]
        split_ifs at hfull ⊢ <;> omega
      · rw [hrd hr] at hfull ⊢
        simpa using Nat.le_sub_one_of_lt hfull
    have hreq : s.tx.fg.delayCounter < s.tx.fg.payloadLength → s.tx.fg.delayCounter + 1 = 1 := by
      omega
    rw [hdly, hbusy]
    by_cases hend : 3 ≤ s.tx.fg.delayCounter + 1
    · rw [if_pos hend]
      exact ⟨decide_eq_false (by omega), hlen, rfl, ha, (Nat.le_add_right _ _).trans hread⟩
    · rw [if_neg hend]
      exact ⟨fun hd => hreq (of_decide_eq_true hd), hlen, rfl, ha, hread⟩
  all_goals
    obtain ⟨hrd, hlen, hbusy, -, hfull⟩ := h
    have ha := hansw (.inr hbusy)
    rw [hrd, hbusy, Bool.toNat_false, Nat.sub_zero]
  case payloadStart =>
    exact ⟨decide_eq_false (by omega), hlen, rfl, ha, hfull⟩
  case writePayload =>
    by_cases hlast : s.tx.fg.payloadLength ≤ s.tx.fg.wordsRead + 1
    · simp only [hlast, decide_true, if_true]
      exact ⟨decide_eq_false (by omega), hlen, trivial, ha, hfull⟩
    · omega
  case writeCrc =>
    exact ⟨rfl, hlen, rfl, ha, hfull⟩
  case done =>
    have hout : fgConfig.fifoOutDly.toNat = 0 := rfl
    simp only [hout, Nat.zero_le, decide_true, if_true]
    exact ⟨trivial, .inr ⟨hfull, ha⟩⟩

/-- The last word of a request of 255 words or more. -/
theorem Collecting.clogged (h : Collecting ws s) (hping : i.icmpPing = true)
    (hdval : i.frDval = true) (hlen : 254 ≤ ws.length) : Clogged (step i s) := by
  obtain ⟨hrest, hidle, -, -⟩ := h.tx_step (i := i)
  have hcontents := h.contents_step (i := i) fun _ => hdval
  have hused : 255 ≤ (step i s).fifo.usedw := by
    rw [Fifo.usedw, hcontents, if_pos hping, List.length_take, List.length_append,
      List.length_singleton]
    omega
  rw [Clogged, hidle]
  exact ⟨hrest.rdreq, .inl hused⟩

theorem Clogged.usedw_pos (h : Clogged s) : 254 ≤ s.fifo.usedw := by
  unfold Clogged at h
  split at h <;> omega

/-! ## The echo -/

/-- What holds of the request `r` once its last word has come in. -/
def Echoing (r : Request) (l : List Beat) (s : State) : Prop :=
  (r.words.length ≤ 254 → Taken r l s) ∧ (255 ≤ r.words.length → Clogged s)

theorem Collecting.echoing (h : Collecting ws s) (hping : i.icmpPing = true)
    (hdval : i.frDval = true) (heop : i.frEop = true) :
    Echoing ⟨ws ++ [i.frDataOut], i.destMacAddr, i.destIpAddr⟩ [] (step i s) := by
  have hlen : (ws ++ [i.frDataOut]).length = ws.length + 1 := List.length_append
  rw [Echoing, hlen]
  constructor
  · intro hle
    exact h.taken hping hdval heop (by omega)
  · intro hge
    exact h.clogged hping hdval (by omega)

theorem Echoing.step (h : Echoing r l s) (hping : i.icmpPing = false) :
    Echoing r (l ++ output i s) (IcmpBlock.step i s) :=
  ⟨fun hle => (h.1 hle).step hping, fun hge => clogged_step (h.2 hge) hping⟩

/-- An echo request that comes in while the block is idle. -/
theorem echoing_run {js : List Input} (h : Idle s)
    (hdel : ∀ i ∈ js, i.icmpPing = true → i.frDval = true)
    (hreq : received (log step arriving s js) = ([r], [])) :
    Echoing r (log step output s js) (run step s js) := by
  rcases single_run Collecting.echoing Echoing.step h hdel (.inr ⟨r, hreq⟩) with
    ⟨hnil, -⟩ | ⟨r', hreq', hecho⟩
  · simp [hreq] at hnil
  · obtain rfl : r' = r := by simpa [hreq] using hreq'.symm
    exact hecho

/-- A request of 255 words or more stays in the FIFO. -/
theorem clogged_run {js ks : List Input} (h : Idle s)
    (hdel : ∀ i ∈ js, i.icmpPing = true → i.frDval = true)
    (hreq : received (log step arriving s js) = ([r], []))
    (hquiet : ∀ i ∈ ks, i.icmpPing = false) (hlen : 255 ≤ r.words.length) :
    Clogged (run step s (js ++ ks)) := by
  rw [run_append]
  refine run_invariant (R := fun i _ => i.icmpPing = false) step
    ((echoing_run h hdel hreq).2 hlen) (fun i s hi hc => clogged_step hc hi) ?_
  exact along_of_forall step hquiet

theorem Clogged.not_idle (h : Clogged s) : ¬Idle s := by
  intro hidle
  have hpos := h.usedw_pos
  rw [Fifo.usedw, hidle.contents] at hpos
  simp at hpos

/-- An echo request that comes in while the block is idle is replied to with the
    type and checksum word and its own words, and leaves the block idle with an
    empty FIFO, iff it has at most 254 words. `k` is an edge with `tx_ready`. -/
theorem echoed_iff {js ks : List Input} {k : Input} (h : Idle s)
    (hdel : ∀ i ∈ js, i.icmpPing = true → i.frDval = true)
    (hreq : received (log step arriving s js) = ([r], []))
    (hquiet : ∀ i ∈ k :: ks, i.icmpPing = false) (htx : k.txReady = true)
    (hks : r.words.length + 21 ≤ ks.length) :
    replies (log step output s (js ++ k :: ks)) = [r.reply] ∧ Idle (run step s (js ++ k :: ks)) ↔
      r.words.length ≤ 254 := by
  constructor
  · rintro ⟨-, hidle⟩
    by_contra hlen
    exact (clogged_run h hdel hreq hquiet (by omega)).not_idle hidle
  · intro hlen
    have hping : k.icmpPing = false := hquiet k List.mem_cons_self
    have htaken := ((echoing_run h hdel hreq).1 hlen).step hping
    obtain ⟨hrun, hdue⟩ := htaken.run (going_of_txReady hping htx) fun i hi =>
      hquiet i (List.mem_cons_of_mem k hi)
    obtain ⟨ps, t, pay, hinv⟩ := htaken
    have hle := due_le hinv
    rw [log_append, run_append, log_cons, run_cons, ← List.append_assoc]
    exact hrun.echoed (by omega)

theorem request_dval (txReady : Bool) (ip : IpAddr) (ws : List Word) :
    ∀ i ∈ request txReady ip ws, i.icmpPing = true → i.frDval = true := by
  intro i hi
  rcases List.mem_append.1 hi with hi | hi
  · rw [List.eq_of_mem_replicate hi]
    exact id
  · obtain ⟨k, hk, rfl⟩ := List.mem_mapIdx.1 hi
    exact id

/-- A request of two words, the edges it takes to come in, and the reply. -/
theorem echoed_iff_twoWords :
    replies (log step output reset (request true 0xC0A80001 [0x58F10001, 0x9219855D] ++
        quietEdge true :: List.replicate 23 (quietEdge true))) =
      [Request.reply ⟨[0x58F10001, 0x9219855D], 0x6CB311517434, 0xC0A80001⟩] :=
  ((echoed_iff (r := ⟨[0x58F10001, 0x9219855D], 0x6CB311517434, 0xC0A80001⟩) idle_reset
    (request_dval _ _ _) (by decide +kernel) (by decide) rfl (by decide)).2 (by decide)).1

/-- An edge with an echo word. -/
def wordEdge (eop : Bool) : Input :=
  { quietEdge true with
    frDataOut := 0x58F10001
    frDval := true
    frEop := eop
    icmpPing := true
    destMacAddr := 0x6CB311517434
    destIpAddr := 0xC0A80001 }

/-- A request of 255 words. -/
def longRequest : Request :=
  ⟨List.replicate 254 0x58F10001 ++ [0x58F10001], 0x6CB311517434, 0xC0A80001⟩

/-- The edges at which it comes in. -/
def longRequestEdges : List Input := List.replicate 254 (wordEdge false) ++ [wordEdge true]

theorem received_words (n : ℕ) :
    received (log step arriving reset (List.replicate n (wordEdge false))) =
      ([], List.replicate n 0x58F10001) := by
  induction n with
  | zero => rfl
  | succ n ih =>
    rw [List.replicate_succ', List.replicate_succ', log_concat, received_step fun _ => rfl, ih]
    rfl

/-- It is not replied to with its words, and the FIFO does not become empty. -/
theorem long_request_lost :
    received (log step arriving reset longRequestEdges) = ([longRequest], []) ∧
      longRequest.words.length = 255 ∧
      ¬(replies (log step output reset (longRequestEdges ++
            List.replicate 300 (quietEdge true))) = [longRequest.reply] ∧
          Idle (run step reset (longRequestEdges ++ List.replicate 300 (quietEdge true)))) := by
  have hreq : received (log step arriving reset longRequestEdges) = ([longRequest], []) := by
    rw [longRequestEdges, log_concat, received_step fun _ => rfl, received_words]
    rfl
  have hlen : longRequest.words.length = 255 := by
    rw [longRequest, List.length_append, List.length_replicate, List.length_singleton]
  refine ⟨hreq, hlen, fun h => ?_⟩
  refine (clogged_run idle_reset (fun i hi _ => ?_) hreq (fun i hi => ?_) hlen.ge).not_idle h.2
  · rcases List.mem_append.1 hi with hi | hi
    · rw [List.eq_of_mem_replicate hi]
      rfl
    · rw [List.mem_singleton.1 hi]
      rfl
  · rw [List.eq_of_mem_replicate hi]
    rfl

end FpgaEthernet.IcmpBlock
