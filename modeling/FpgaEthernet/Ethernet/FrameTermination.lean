import FpgaEthernet.Ethernet.Transmitter

/-!
# The end of a frame

Once `payload_rdy` has been taken, `ethernet_frame_generator` waits in
`PAYLOAD_HEADER` for `header_done`. `header_generator` raises it with the last word
of the last segment that `config` enables, and not at all if there is none.

Main results:

* `Quiet.step`: outside `PAYLOAD_HEADER` the header generator is at rest, however
  `config` changes.
* `Sending.step`: with a segment enabled every edge brings `IDLE` nearer.
* `Stuck.step`: with none `PAYLOAD_HEADER` is never left.
* `frame_ends_iff`: a frame ends iff one of the four segments is enabled.
-/

namespace FpgaEthernet.Transmitter

open Clocked

variable {c : FrameGenerator.Config} {config : Word} {i : Input} {s : State} {is js : List Input}

/-! ## Specification -/

/-- One of the four segments of a header is enabled. -/
def AnySegment (config : Word) : Prop := ∃ k < 4, config.getLsbD k = true

instance (config : Word) : Decidable (AnySegment config) :=
  inferInstanceAs (Decidable (∃ k < 4, config.getLsbD k = true))

/-- The edges from the end of the header to `DONE`, for a payload of `len` words. -/
def payloadEdges (c : FrameGenerator.Config) (len : ℕ) : ℕ :=
  if len = 0 then 0 else max 1 c.fifoInDly.toNat + 1 + len + c.genCrc.toNat

/-- The edges a frame takes at most: its header with the two pauses for the checksum,
    its payload, and the delays. -/
def frameEdges (c : FrameGenerator.Config) (config : Word) (len : ℕ) : ℕ :=
  HeaderGenerator.headerWords config + 4 + payloadEdges c len + c.fifoOutDly.toNat + 1

/-- At one of the edges `js` the frame generator is back in `IDLE`, where `fg_busy` falls
    unless the next payload is ready. -/
def Ends (c : FrameGenerator.Config) (s : State) (js : List Input) : Prop :=
  ∃ ks, ks <+: js ∧ (run (step c) s ks).fg.nextState = .idle ∧
    ∀ j, (step c j (run (step c) s ks)).fg.fgBusy = j.payloadRdy

/-! ## Before the frame -/

/-- The header generator works for `PAYLOAD_HEADER` only. -/
structure Quiet (s : State) : Prop where
  rest : s.fg.nextState ≠ .payloadHeader ∨ s.fg.headerStart = true → HeaderGenerator.AtRest s.hg
  headerStart : s.fg.headerStart = true → s.fg.nextState = .payloadHeader
  headerDone : s.hg.headerDone = true → s.hg.nextState = .done

theorem quiet_reset : Quiet reset where
  rest _ := ⟨rfl, rfl, rfl⟩
  headerStart h := by cases h
  headerDone h := by cases h

theorem payloadHeader_step :
    (step c i s).fg.nextState = .payloadHeader ↔
      s.fg.nextState = .idle ∧ i.payloadRdy = true ∨
        s.fg.nextState = .payloadHeader ∧ s.hg.headerDone = false := by
  unfold step FrameGenerator.step FrameGenerator.stateMachine fgInput
  cases hn : s.fg.nextState with
  | idle => cases i.payloadRdy <;> simp
  | payloadHeader => cases s.hg.headerDone <;> simp; split_ifs <;> simp
  | payloadWait | writePayload | done => dsimp only; split_ifs <;> simp
  | payloadStart | writeCrc => simp

theorem headerStart_step : (step c i s).fg.headerStart =
    if s.fg.nextState = .idle then i.payloadRdy
    else if s.fg.nextState = .payloadHeader then false else s.fg.headerStart := by
  unfold step FrameGenerator.step FrameGenerator.stateMachine fgInput
  cases s.fg.nextState <;> rfl

theorem fgBusy_of_idle (h : s.fg.nextState = .idle) : (step c i s).fg.fgBusy = i.payloadRdy :=
  (FrameGenerator.fgBusy_step c (fgInput i s) s.fg).trans (if_pos h)

theorem Quiet.step (h : Quiet s) : Quiet (step c i s) := by
  obtain ⟨hrest, hstart, hdone⟩ := h
  refine ⟨fun hs => ?_, fun hs => ?_, fun hd => ?_⟩
  · rw [headerStart_step, ne_eq, payloadHeader_step] at hs
    by_cases hn : s.fg.nextState = .payloadHeader
    · -- the header is over, or `IDLE` would have been the state before
      have hd : s.hg.headerDone = true := by simpa [hn] using hs
      exact HeaderGenerator.step_of_done (hdone hd)
    · have hquiet : s.fg.headerStart = false := Bool.eq_false_iff.2 fun hs' => hn (hstart hs')
      exact (hrest (.inl hn)).step hquiet
  · rw [headerStart_step] at hs
    rw [payloadHeader_step]
    split_ifs at hs with hi hp
    · exact .inl ⟨hi, hs⟩
    · exact absurd (hstart hs) hp
  · cases hd' : s.hg.headerDone with
    | false => exact (HeaderGenerator.headerDone_step hd' hd).2
    | true =>
      have hcleared : (Transmitter.step c i s).hg.headerDone = false :=
        (HeaderGenerator.step_of_done (hdone hd')).2.2
      exact absurd hd (Bool.eq_false_iff.1 hcleared)

theorem quiet_run (is : List Input) : Quiet (run (Transmitter.step c) reset is) :=
  run_invariant (Transmitter.step c) (R := fun _ _ => True) quiet_reset
    (fun _ _ _ h => h.step) (along_of_forall _ fun _ _ => trivial)

/-! ## The frame -/

/-- In `PAYLOAD_HEADER` a header for `config` is about to begin or under way. -/
structure Sending (config : Word) (s : State) : Prop where
  starting : s.fg.nextState = .payloadHeader → s.fg.headerStart = true →
    HeaderGenerator.AtRest s.hg
  running : s.fg.nextState = .payloadHeader → s.fg.headerStart = false →
    HeaderGenerator.Running config s.hg

/-- `payload_rdy` is taken. -/
theorem Quiet.taken (h : Quiet s) (hn : s.fg.nextState = .idle) (hi : i.payloadRdy = true) :
    (Transmitter.step c i s).fg.nextState = .payloadHeader ∧
      (Transmitter.step c i s).fg.headerStart = true ∧
      HeaderGenerator.AtRest (Transmitter.step c i s).hg := by
  have hstart : (Transmitter.step c i s).fg.headerStart = true := by
    rw [headerStart_step, if_pos hn, hi]
  exact ⟨payloadHeader_step.2 (.inl ⟨hn, hi⟩), hstart, h.step.rest (.inr hstart)⟩

/-- The edges from a state to `IDLE`, at most. -/
def edgesToIdle (c : FrameGenerator.Config) (config : Word) (s : State) : ℕ :=
  match s.fg.nextState with
  | .idle => 0
  | .payloadHeader =>
    (if s.fg.headerStart then HeaderGenerator.headerWords config + 3
      else HeaderGenerator.edgesLeft config s.hg.nextState) +
        1 + payloadEdges c s.fg.payloadLength + c.fifoOutDly.toNat + 1
  | .payloadWait =>
    max 1 (c.fifoInDly.toNat - s.fg.delayCounter) + 1 + max 1 s.fg.payloadLength +
      c.genCrc.toNat + c.fifoOutDly.toNat + 1
  | .payloadStart =>
    1 + max 1 s.fg.payloadLength + c.genCrc.toNat + c.fifoOutDly.toNat + 1
  | .writePayload =>
    max 1 (s.fg.payloadLength - s.fg.wordsRead) + c.genCrc.toNat + c.fifoOutDly.toNat + 1
  | .writeCrc => 1 + c.fifoOutDly.toNat + 1
  | .done => c.fifoOutDly.toNat - s.fg.delayCounter + 1

theorem idle_of_edgesToIdle (h : edgesToIdle c config s = 0) : s.fg.nextState = .idle := by
  unfold edgesToIdle at h
  cases hn : s.fg.nextState <;> simp [hn] at h ⊢

/-- The time in a state of the payload, and in `DONE`. -/
theorem edgesToIdle_step (hi : s.fg.nextState ≠ .idle) (hp : s.fg.nextState ≠ .payloadHeader) :
    edgesToIdle c config (Transmitter.step c i s) < edgesToIdle c config s := by
  unfold edgesToIdle Transmitter.step FrameGenerator.step FrameGenerator.stateMachine
  cases hn : s.fg.nextState with
  | idle => exact absurd hn hi
  | payloadHeader => exact absurd hn hp
  | payloadWait =>
    dsimp only
    by_cases hd : c.fifoInDly.toNat ≤ s.fg.delayCounter + 1
    · simp only [hd, if_true]
      omega
    · simp only [hd, if_false]
      omega
  | payloadStart =>
    dsimp only
    omega
  | writePayload =>
    dsimp only
    by_cases hf : s.fg.payloadLength ≤ s.fg.wordsRead + 1
    · cases c.genCrc <;> simp [hf]
    · simp only [hf, decide_false, Bool.false_eq_true, if_false]
      omega
  | writeCrc =>
    dsimp only
    omega
  | done =>
    dsimp only
    by_cases hw : c.fifoOutDly.toNat ≤ s.fg.delayCounter
    · simp [hw]
    · simp only [hw, decide_false, Bool.false_eq_true, if_false]
      omega

/-- The end of the header. -/
theorem edgesToIdle_of_headerDone (c : FrameGenerator.Config) (config : Word) (i : Input)
    (hn : s.fg.nextState = .payloadHeader)
    (hdone : s.hg.headerDone = true) :
    edgesToIdle c config (Transmitter.step c i s) ≤
      payloadEdges c s.fg.payloadLength + c.fifoOutDly.toNat + 1 := by
  unfold edgesToIdle payloadEdges Transmitter.step FrameGenerator.step FrameGenerator.stateMachine
    fgInput
  by_cases hzero : s.fg.payloadLength = 0
  · simp [hn, hdone, hzero]
  · simp only [hn, hdone, hzero, if_true, if_false]
    omega

/-- A step of the header. -/
theorem Sending.header_step (h : Sending config s) (hcfg : i.fields.config = config)
    (hany : HeaderGenerator.fNextState .idle config ≠ .done)
    (hn : s.fg.nextState = .payloadHeader) :
    Sending config (Transmitter.step c i s) ∧
      edgesToIdle c config (Transmitter.step c i s) < edgesToIdle c config s := by
  subst hcfg
  have hstart : (Transmitter.step c i s).fg.headerStart = false := by
    rw [headerStart_step, if_neg (by rw [hn]; decide), if_pos hn]
  have hlen : (Transmitter.step c i s).fg.payloadLength = s.fg.payloadLength :=
    FrameGenerator.payloadLength_step (by rw [hn]; decide)
  have hleft : edgesToIdle c i.fields.config s =
      (if s.fg.headerStart then HeaderGenerator.headerWords i.fields.config + 3
        else HeaderGenerator.edgesLeft i.fields.config s.hg.nextState) +
          1 + payloadEdges c s.fg.payloadLength + c.fifoOutDly.toNat + 1 := by
    rw [edgesToIdle, hn]
  cases hdone : s.hg.headerDone with
  | true =>
    have hend := edgesToIdle_of_headerDone c i.fields.config i hn hdone
    refine ⟨⟨fun hn' => ?_, fun hn' => ?_⟩, by omega⟩ <;>
    · rcases payloadHeader_step.1 hn' with ⟨hi, -⟩ | ⟨-, hd⟩
      · rw [hn] at hi
        cases hi
      · rw [hdone] at hd
        cases hd
  | false =>
    have hnext : (Transmitter.step c i s).fg.nextState = .payloadHeader :=
      payloadHeader_step.2 (.inr ⟨hn, hdone⟩)
    have hleft' : edgesToIdle c i.fields.config (Transmitter.step c i s) =
        HeaderGenerator.edgesLeft i.fields.config (Transmitter.step c i s).hg.nextState +
          1 + payloadEdges c s.fg.payloadLength + c.fifoOutDly.toNat + 1 := by
      rw [edgesToIdle, hnext, hstart, hlen]
      rfl
    have hsending : HeaderGenerator.Running i.fields.config (Transmitter.step c i s).hg →
        Sending i.fields.config (Transmitter.step c i s) := fun hrun =>
      ⟨fun _ hs => absurd hs (Bool.eq_false_iff.1 hstart), fun _ _ => hrun⟩
    cases hs : s.fg.headerStart with
    | true =>
      obtain ⟨hrun, -, -⟩ := (h.starting hn hs).start (i := hgInput i s) hs hany
      have hle := HeaderGenerator.edgesLeft_le i.fields.config
        (Transmitter.step c i s).hg.nextState
      rw [hs, if_pos rfl] at hleft
      exact ⟨hsending hrun, by omega⟩
    | false =>
      have hrun := h.running hn hs
      have hd : s.hg.nextState ≠ .done := by
        simpa [hdone] using hrun.headerDone
      have hfall := HeaderGenerator.Running.edgesLeft_step (i := hgInput i s) hrun hd
      change HeaderGenerator.edgesLeft i.fields.config (Transmitter.step c i s).hg.nextState + 1 =
        HeaderGenerator.edgesLeft i.fields.config s.hg.nextState at hfall
      rw [hs, if_neg Bool.false_ne_true] at hleft
      exact ⟨hsending (HeaderGenerator.Running.step (i := hgInput i s) hrun hd).1, by omega⟩

/-- Until `IDLE` every edge brings it nearer. -/
theorem Sending.step (h : Sending config s) (hcfg : i.fields.config = config)
    (hany : HeaderGenerator.fNextState .idle config ≠ .done) (hi : s.fg.nextState ≠ .idle) :
    Sending config (Transmitter.step c i s) ∧
      edgesToIdle c config (Transmitter.step c i s) < edgesToIdle c config s := by
  by_cases hn : s.fg.nextState = .payloadHeader
  · exact h.header_step hcfg hany hn
  · refine ⟨⟨fun hn' => ?_, fun hn' => ?_⟩, edgesToIdle_step hi hn⟩ <;>
    · rcases payloadHeader_step.1 hn' with ⟨hi', -⟩ | ⟨hn', -⟩
      · exact absurd hi' hi
      · exact absurd hn' hn

/-! ## Without a header -/

/-- The frame generator waits for a header that has no words. -/
structure Stuck (s : State) : Prop where
  waits : s.fg.nextState = .payloadHeader
  empty : s.hg.nextState = .idle ∨ s.hg.nextState = .done
  headerDone : s.hg.headerDone = false

theorem Stuck.step (h : Stuck s) (hcfg : i.fields.config = config)
    (hnone : HeaderGenerator.fNextState .idle config = .done) : Stuck (Transmitter.step c i s) := by
  obtain ⟨hn, hempty, hdone⟩ := h
  have hconfig : (hgInput i s).config = config := hcfg
  refine ⟨payloadHeader_step.2 (.inr ⟨hn, hdone⟩), ?_, ?_⟩ <;>
    unfold Transmitter.step <;>
    rcases hempty with he | he
  · rw [HeaderGenerator.step_nextState, HeaderGenerator.stateMachine, he, hconfig, hnone]
    dsimp only
    split_ifs
    · exact .inr rfl
    · exact .inl rfl
  · rw [HeaderGenerator.step_nextState, HeaderGenerator.stateMachine, he]
    exact .inl rfl
  · rw [HeaderGenerator.step_headerDone, HeaderGenerator.stateMachine, he]
  · rw [HeaderGenerator.step_headerDone, HeaderGenerator.stateMachine, he]

/-- The header ends never. -/
theorem Stuck.not_ends (config : Word) (h : Stuck s) (hcfg : ∀ j ∈ js, j.fields.config = config)
    (hnone : HeaderGenerator.fNextState .idle config = .done) : ¬Ends c s js := by
  rintro ⟨ks, hks, hidle, -⟩
  have hstuck : Stuck (run (Transmitter.step c) s ks) :=
    run_invariant (Transmitter.step c) (R := fun i _ => i.fields.config = config) h
      (fun _ _ hj h => h.step hj hnone) (along_of_forall _ fun j hj => hcfg j (hks.subset hj))
  rw [hstuck.waits] at hidle
  cases hidle

theorem fNextState_idle_eq_done_iff :
    HeaderGenerator.fNextState .idle config = .done ↔ ¬AnySegment config := by
  unfold HeaderGenerator.fNextState AnySegment
  split_ifs with h0 h1 h2 h3
  · simpa using ⟨0, by decide, h0⟩
  · simpa using ⟨1, by decide, h1⟩
  · simpa using ⟨2, by decide, h2⟩
  · simpa using ⟨3, by decide, h3⟩
  · refine iff_of_true rfl ?_
    rintro ⟨k, hk, hbit⟩
    interval_cases k <;> contradiction

/-! ## Every frame -/

/-- Once `payload_rdy` has been taken and with `header_config` held, the frame ends, in
    no more edges than header, payload and delays take, iff one of the bits 0 to 3 of
    `header_config` is set. -/
theorem frame_ends_iff (hn : (run (Transmitter.step c) reset is).fg.nextState = .idle)
    (hi : i.payloadRdy = true) (hcfg : ∀ j ∈ js, j.fields.config = config)
    (hlen : frameEdges c config (run (Transmitter.step c) reset (is ++ [i])).fg.payloadLength ≤
      js.length) :
    Ends c (run (Transmitter.step c) reset (is ++ [i])) js ↔ AnySegment config := by
  have hquiet := quiet_run (c := c) is
  rw [run_concat] at hlen ⊢
  generalize run (Transmitter.step c) reset is = s at hn hquiet hlen ⊢
  obtain ⟨hheader, hstart, hrest⟩ := hquiet.taken (c := c) hn hi
  generalize Transmitter.step c i s = s at hheader hstart hrest hlen ⊢
  constructor
  · intro hends
    by_contra hnone
    have hstuck : Stuck s := ⟨hheader, .inl hrest.1, hrest.2.2⟩
    exact hstuck.not_ends config hcfg (fNextState_idle_eq_done_iff.2 hnone) hends
  · intro hany
    have hany : HeaderGenerator.fNextState .idle config ≠ .done := fun hd =>
      fNextState_idle_eq_done_iff.1 hd hany
    have hsending : Sending config s :=
      ⟨fun _ _ => hrest, fun _ hs => absurd hstart (Bool.eq_false_iff.1 hs)⟩
    have hedges : edgesToIdle c config s ≤ js.length := by
      rw [edgesToIdle, hheader, hstart]
      exact hlen
    obtain ⟨ks, hks, hidle⟩ := run_meets (Transmitter.step c) (edgesToIdle c config)
      (fun _ => idle_of_edgesToIdle) hsending (fun _ _ hj h hi => h.step hj hany hi)
      (along_of_forall _ hcfg) hedges
    exact ⟨ks, hks, hidle, fun _ => fgBusy_of_idle hidle⟩

/-- The constants of `ethernet_block.vhd` (lines 404-406). -/
def blockConfig : FrameGenerator.Config where
  payloadMaxLen := 300
  fifoInDly := 5
  fifoOutDly := 0
  genCrc := false

/-- A payload of two words that is ready. -/
def twoWordsReady (config : Word) : Input where
  fields := ⟨0, 0, config, 0, 0, 0, 0, 0, 0, 0⟩
  dataIn := 0
  usedwIn := 2
  payloadRdy := true

theorem frame_ends_iff_udp :
    Ends blockConfig (run (Transmitter.step blockConfig) reset ([] ++ [twoWordsReady 7]))
      (List.replicate 100 (twoWordsReady 7)) ↔ AnySegment 7 :=
  frame_ends_iff rfl rfl (fun _ hj => congrArg _ (congrArg _ (List.eq_of_mem_replicate hj)))
    (by decide)

/-- Without a segment `PAYLOAD_HEADER` is not left, however long one waits. -/
theorem no_segment_never_ends :
    ¬∃ n : ℕ, Ends blockConfig (run (Transmitter.step blockConfig) reset [twoWordsReady 0])
      (List.replicate n (twoWordsReady 0)) := by
  rintro ⟨n, hends⟩
  have hstuck : Stuck (run (Transmitter.step blockConfig) reset [twoWordsReady 0]) :=
    ⟨rfl, .inl rfl, rfl⟩
  exact hstuck.not_ends 0
    (fun _ hj => congrArg _ (congrArg _ (List.eq_of_mem_replicate hj))) rfl hends

end FpgaEthernet.Transmitter
