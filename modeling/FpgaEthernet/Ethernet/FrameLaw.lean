import FpgaEthernet.Ethernet.FrameGenerator

/-!
# The frame law

A frame of `ethernet_frame_generator` from `payload_rdy` in `IDLE` to the next
`IDLE`, for any header source and any contents of `data_in`: what is written to
the output FIFO, and when the input FIFO is read.

Main results:

* `Header.run`: the header words are written as they come.
* `payload_run`: along the payload every word written stood on `data_in` one
  edge earlier, and the read request is high for the first edges.
* `frame_law`: a frame writes its header words and its payload words with one
  start and one end mark, and reads as many words as its payload has.
-/

namespace FpgaEthernet.FrameGenerator

open Clocked

/-! ## Frames -/

/-- The word an edge writes to the output FIFO. -/
def writes (c : Config) (i : Input) (s : State) : List Beat :=
  if (step c i s).wrreqSig then
    [⟨(step c i s).frameWord, (step c i s).sopSig, (step c i s).eopSig⟩]
  else []

/-- `rdreq_in` after an edge. -/
def rdreqIn (c : Config) (i : Input) (s : State) : List Bool := [(step c i s).rdreqSig]

/-- The inputs of one frame: the edge that takes `payload_rdy`, the edges of the
    header up to the one with `header_done`, those from `PAYLOAD_WAIT` to the
    last payload word, and those until `IDLE`. -/
structure Frame where
  ready : Input
  header : List Input
  headerLast : Input
  payload : List Input
  ending : List Input

def Frame.inputs (f : Frame) : List Input :=
  f.ready :: (f.header ++ f.headerLast :: (f.payload ++ f.ending))

/-- The length of the payload (lines 195-199). -/
def Frame.payloadLength (c : Config) (f : Frame) : ℕ :=
  min c.payloadMaxLen.toNat f.ready.usedwIn.toNat

/-- A frame with a payload whose header source raises `header_done` with its
    last word. -/
structure Frame.Valid (c : Config) (f : Frame) : Prop where
  ready : f.ready.payloadRdy = true
  payload_pos : 1 ≤ f.payloadLength c
  notDone : ∀ i ∈ f.header, i.headerDone = false
  done : f.headerLast.headerDone = true
  doneValid : f.headerLast.headerValid = true
  payload_length : f.payload.length = c.fifoInDly.toNat + f.payloadLength c
  ending_length : f.ending.length = c.fifoOutDly.toNat + 2

/-- The valid words of header inputs. -/
def headerWords (is : List Input) : List Word := (is.filter Input.headerValid).map Input.headerData

/-- The words the header source delivers. -/
def Frame.headerWords (f : Frame) : List Word :=
  FrameGenerator.headerWords (f.header ++ [f.headerLast])

/-- Payload word `k` is on `data_in` at the edge `FIFO_in_dly - 1 + k` after the
    first edge in `PAYLOAD_WAIT`. -/
def Frame.payloadWords (c : Config) (f : Frame) : List Word :=
  ((f.payload.drop (c.fifoInDly.toNat - 1)).take (f.payloadLength c)).map Input.dataIn

/-- Words with a start mark on the first and an end mark on the last. -/
def beats (ws : List Word) : List Beat :=
  ws.mapIdx fun k w => ⟨w, decide (k = 0), decide (k + 1 = ws.length)⟩

/-! ## The header -/

/-- The generator has written the header words `ws`, and more are to come. -/
structure Header (ws : List Word) (s : State) : Prop where
  nextState : s.nextState = .payloadHeader
  frameSize : s.frameSize = ws.length
  delayCounter : s.delayCounter = 0
  rdreq : s.rdreqSig = false
  eop : s.eopSig = false

/-- Header words with a start mark on the first. -/
def headerBeats (ws : List Word) : List Beat := ws.mapIdx fun k w => ⟨w, decide (k = 0), false⟩

variable {c : Config} {i : Input} {is : List Input} {s : State} {ws : List Word}

/-- `payload_rdy` in `IDLE` begins a frame. -/
theorem Header.start (hn : s.nextState = .idle) (hr : i.payloadRdy = true) :
    Header [] (step c i s) ∧ writes c i s = [] ∧ (step c i s).rdreqSig = false ∧
      (step c i s).payloadLength = min c.payloadMaxLen.toNat i.usedwIn.toNat := by
  refine ⟨⟨?_, ?_, ?_, ?_, ?_⟩, ?_, ?_, ?_⟩ <;> simp [writes, step, stateMachine, hn, hr]
  split_ifs <;> omega

/-- A valid header word is written, with the start mark if it is the first. -/
theorem Header.writes_eq (h : Header ws s) (hl : 0 < s.payloadLength) :
    writes c i s =
      if i.headerValid then [⟨i.headerData, decide (ws.length = 0), false⟩] else [] := by
  have hl' : s.payloadLength ≠ 0 := by omega
  cases hv : i.headerValid <;>
    simp [writes, step, stateMachine, h.nextState, hv, h.frameSize, h.eop, hl']

theorem Header.step (h : Header ws s) (hd : i.headerDone = false) :
    Header (ws ++ headerWords [i]) (step c i s) := by
  refine ⟨?_, ?_, ?_, ?_, ?_⟩ <;>
    simp [FrameGenerator.step, stateMachine, h.nextState, hd, h.delayCounter, h.rdreq, h.eop]
  cases hv : i.headerValid <;> simp [headerWords, hv, h.frameSize]

theorem headerBeats_concat (ws : List Word) (i : Input) :
    headerBeats (ws ++ headerWords [i]) = headerBeats ws ++
      if i.headerValid then [⟨i.headerData, decide (ws.length = 0), false⟩] else [] := by
  cases hv : i.headerValid <;> simp [headerBeats, headerWords, hv, List.mapIdx_append]

/-- The header words are written as they come. -/
theorem Header.run (h : Header [] s) (hl : 0 < s.payloadLength)
    (hd : ∀ i ∈ is, i.headerDone = false) :
    Header (headerWords is) (run (FrameGenerator.step c) s is) ∧
      (run (FrameGenerator.step c) s is).payloadLength = s.payloadLength ∧
      log (FrameGenerator.step c) (writes c) s is = headerBeats (headerWords is) ∧
      log (FrameGenerator.step c) (rdreqIn c) s is = List.replicate is.length false := by
  induction is using List.reverseRecOn with
  | nil => exact ⟨h, rfl, rfl, rfl⟩
  | append_singleton is i ih =>
    obtain ⟨hh, hlen, hlog, hrd⟩ := ih fun j hj => hd j (List.mem_append_left [i] hj)
    have hdi := hd i (List.mem_append_right is (List.mem_singleton_self i))
    have hwords : headerWords (is ++ [i]) = headerWords is ++ headerWords [i] := by
      simp [headerWords]
    have hstep := hh.step (c := c) hdi
    have hne : (Clocked.run (FrameGenerator.step c) s is).nextState ≠ .idle := by
      rw [hh.nextState]
      decide
    refine ⟨?_, ?_, ?_, ?_⟩
    · rw [run_concat, hwords]
      exact hstep
    · rw [run_concat, payloadLength_step hne, hlen]
    · rw [log_concat, hlog, hwords, headerBeats_concat, hh.writes_eq (hlen ▸ hl)]
    · rw [log_concat, hrd, rdreqIn, hstep.rdreq, List.length_append, List.length_singleton,
        List.replicate_succ']

/-! ## The payload -/

/-- The payload words written after the edges `is` of the payload phase. -/
def payloadSoFar (c : Config) (is : List Input) : List Word :=
  ((is.drop (c.fifoInDly.toNat - 1)).take (is.length - c.fifoInDly.toNat)).map Input.dataIn

/-- Payload words with an end mark on word `length - 1`. -/
def payloadBeats (length : ℕ) (ws : List Word) : List Beat :=
  ws.mapIdx fun k w => ⟨w, false, decide (k + 1 = length)⟩

/-- From the `FIFO_in_dly`-th edge on every edge writes the word that stood on
    `data_in` one edge earlier. -/
theorem payloadSoFar_concat (is : List Input) (i : Input) (hdly : 2 ≤ c.fifoInDly.toNat) :
    payloadSoFar c (is ++ [i]) = payloadSoFar c is ++
      if c.fifoInDly.toNat ≤ is.length then (is.getLast?.map Input.dataIn).toList else [] := by
  unfold payloadSoFar
  rw [List.length_append, List.length_singleton]
  split_ifs with hle
  · have hlast : (is.drop (c.fifoInDly.toNat - 1))[is.length - c.fifoInDly.toNat]? =
        is.getLast? := by
      rw [List.getElem?_drop, List.getLast?_eq_getElem?]
      congr 1
      omega
    rw [List.drop_append_of_le_length (by omega), List.take_append_of_le_length (by simp; omega),
      show is.length + 1 - c.fifoInDly.toNat = is.length - c.fifoInDly.toNat + 1 by omega,
      List.take_add_one, hlast, List.map_append]
    cases is.getLast? <;> rfl
  · rw [show is.length + 1 - c.fifoInDly.toNat = 0 by omega,
      show is.length - c.fifoInDly.toNat = 0 by omega]
    simp

theorem payloadSoFar_length (hdly : 2 ≤ c.fifoInDly.toNat) :
    (payloadSoFar c is).length = is.length - c.fifoInDly.toNat := by
  simp [payloadSoFar]
  omega

/-- The start mark is down along the payload. -/
theorem InPayload.sop (h : InPayload c s) (hdly : 2 ≤ c.fifoInDly.toNat)
    (hs : s.sopSig = false ∨ position c s = 0) :
    (FrameGenerator.step c i s).sopSig = false := by
  have hpos := h.length_pos
  rcases h.phase with ⟨hn, -⟩ | ⟨hn, -⟩ | ⟨hn, -⟩
  · simp [FrameGenerator.step, stateMachine, hn]
  · rcases hs with hs | hs
    · simp [FrameGenerator.step, stateMachine, hn, hs]
    · simp only [position, hn] at hs
      omega
  · rcases hs with hs | hs
    · simp [FrameGenerator.step, stateMachine, hn, hs]
    · simp only [position, hn] at hs
      omega

/-- The edges of the payload phase write the words of `data_in`, each an edge
    late, and read for the first edges. -/
theorem payload_run (h : Paced c s) (h0 : position c s = 0) (hcrc : c.genCrc = false)
    (hdly : 2 ≤ c.fifoInDly.toNat) (hl : is.length ≤ c.fifoInDly.toNat + s.payloadLength) :
    Paced c (run (step c) s is) ∧ position c (run (step c) s is) = is.length ∧
      (run (step c) s is).payloadLength = s.payloadLength ∧
      (is ≠ [] → (run (step c) s is).sopSig = false) ∧
      (∀ i ∈ is.getLast?, (run (step c) s is).payloadWord = i.dataIn) ∧
      log (step c) (writes c) s is = payloadBeats s.payloadLength (payloadSoFar c is) ∧
      log (step c) (rdreqIn c) s is =
        List.replicate (min is.length s.payloadLength) true ++
          List.replicate (is.length - s.payloadLength) false := by
  induction is using List.reverseRecOn with
  | nil =>
    refine ⟨h, h0, rfl, fun hne => absurd rfl hne, ?_, ?_, ?_⟩ <;> simp [payloadBeats, payloadSoFar]
  | append_singleton is i ih =>
    rw [List.length_append, List.length_singleton] at hl
    obtain ⟨hp, hpos, hlen, hsop, hword, hlog, hrd⟩ := ih (by omega)
    rw [run_concat, log_concat, log_concat]
    generalize run (step c) s is = t at hp hpos hlen hsop hword
    have hlt : position c t < c.fifoInDly.toNat + t.payloadLength := by omega
    have he : t.eopSig = false := by
      rw [hp.eop, decide_eq_false_iff_not]
      omega
    obtain ⟨-, hpos', hlen'⟩ := hp.toInPayload.step (i := i) hlt
    obtain ⟨hrd', hwr', heop', hpw', hfw'⟩ := hp.toInPayload.registers (i := i) hlt hcrc he
    have hsop' : (step c i t).sopSig = false := by
      apply hp.toInPayload.sop hdly
      by_cases hne : is = []
      · exact Or.inr (by rw [hpos, hne]; rfl)
      · exact Or.inl (hsop hne)
    refine ⟨hp.step hcrc hlt, by rw [hpos', hpos]; simp, by rw [hlen', hlen], fun _ => hsop',
      ?_, ?_, ?_⟩
    · simpa using hpw'
    · -- the word written
      rw [hlog, payloadSoFar_concat is i hdly, payloadBeats, payloadBeats, List.mapIdx_append]
      congr 1
      rw [writes, hwr', hsop', heop', hpos, payloadSoFar_length hdly]
      split_ifs with hle hle' hle'
      · obtain ⟨j, hj⟩ : ∃ j, is.getLast? = some j :=
          ⟨_, List.getLast?_eq_getLast_of_ne_nil (List.ne_nil_of_length_pos (by omega))⟩
        rw [hfw' (by omega), hword j hj, hj]
        simp
        omega
      · simp at hle
        omega
      · simp at hle
        omega
      · rfl
    · rw [hrd, rdreqIn, hrd', hpos, hlen, List.length_append, List.length_singleton]
      by_cases hr : is.length < s.payloadLength
      · rw [decide_eq_true hr, show min (is.length + 1) s.payloadLength = is.length + 1 by omega,
          show min is.length s.payloadLength = is.length by omega,
          show is.length - s.payloadLength = 0 by omega,
          show is.length + 1 - s.payloadLength = 0 by omega, List.replicate_succ']
        simp
      · rw [decide_eq_false hr, show min (is.length + 1) s.payloadLength = s.payloadLength by omega,
          show min is.length s.payloadLength = s.payloadLength by omega,
          show is.length + 1 - s.payloadLength = is.length - s.payloadLength + 1 by omega,
          List.replicate_succ', List.append_assoc]

/-! ## The end of a frame -/

/-- The machine stays in `DONE` for the delay of the output FIFO and then goes
    back to `IDLE`. -/
theorem done_run (hn : s.nextState = .done)
    (hl : s.delayCounter + is.length = c.fifoOutDly.toNat + 1)
    (hle : s.delayCounter ≤ c.fifoOutDly.toNat) :
    (run (step c) s is).nextState = .idle ∧ log (step c) (writes c) s is = [] ∧
      log (step c) (rdreqIn c) s is = List.replicate is.length false := by
  induction is generalizing s with
  | nil =>
    rw [List.length_nil] at hl
    omega
  | cons i is ih =>
    rw [List.length_cons] at hl
    have hw : writes c i s = [] := by simp [writes, step, stateMachine, hn]
    have hr : rdreqIn c i s = [false] := by simp [rdreqIn, step, stateMachine, hn]
    rw [run_cons, log_cons, log_cons, hw, hr]
    by_cases hd : c.fifoOutDly.toNat ≤ s.delayCounter
    · obtain rfl : is = [] := List.eq_nil_of_length_eq_zero (by omega)
      refine ⟨?_, rfl, rfl⟩
      simp [step, stateMachine, hn, hd]
    · have hn' : (step c i s).nextState = .done := by simp [step, stateMachine, hn, hd]
      have hd' : (step c i s).delayCounter = s.delayCounter + 1 := by
        simp [step, stateMachine, hn, hd]
      obtain ⟨hidle, hws, hrs⟩ := ih hn' (by omega) (by omega)
      refine ⟨hidle, hws, ?_⟩
      rw [hrs]
      rfl

/-- The edge of the last payload word resets the delay counter. -/
theorem InPayload.finish_delayCounter (h : InPayload c s)
    (hl : position c s = c.fifoInDly.toNat + s.payloadLength) :
    (FrameGenerator.step c i s).delayCounter = 0 := by
  have hpos := h.length_pos
  rcases h.phase with ⟨hn, hp⟩ | ⟨hn, hp⟩ | ⟨hn, hp⟩ <;> simp only [position, hn] at hl
  · omega
  · omega
  · have hf : s.wordsRead + 1 = s.payloadLength := by omega
    simp [FrameGenerator.step, stateMachine, hn, hf]

/-- After the last payload word nothing more is written or read. -/
theorem ending_run (h : Paced c s) (hcrc : c.genCrc = false)
    (hpos : position c s = c.fifoInDly.toNat + s.payloadLength)
    (hl : is.length = c.fifoOutDly.toNat + 2) :
    (run (step c) s is).nextState = .idle ∧ log (step c) (writes c) s is = [] ∧
      log (step c) (rdreqIn c) s is = List.replicate is.length false := by
  obtain ⟨i, js, rfl⟩ := List.exists_cons_of_length_eq_add_one hl
  rw [List.length_cons] at hl
  obtain ⟨hn, hwr, -, hrd⟩ := h.toInPayload.finish (i := i) hcrc hpos
  have hdc := h.toInPayload.finish_delayCounter (i := i) hpos
  have hjs : (FrameGenerator.step c i s).delayCounter + js.length = c.fifoOutDly.toNat + 1 := by
    omega
  obtain ⟨hidle, hws, hrs⟩ := done_run hn hjs (by omega)
  refine ⟨hidle, ?_, ?_⟩
  · rw [log_cons, hws, writes, hwr]
    rfl
  · rw [log_cons, hrs, rdreqIn, hrd]
    rfl

/-! ## The frame -/

/-- Header words before payload words make up a frame. -/
theorem beats_append {ws pay : List Word} (hw : ws ≠ []) (hp : pay ≠ []) :
    beats (ws ++ pay) = headerBeats ws ++ payloadBeats pay.length pay := by
  have hw' := List.length_pos_of_ne_nil hw
  have hp' := List.length_pos_of_ne_nil hp
  rw [beats, headerBeats, payloadBeats, List.mapIdx_append]
  congr 1
  · apply List.ext_getElem (by simp)
    intro n h₁ h₂
    simp only [List.length_mapIdx] at h₁
    simp
    omega
  · apply List.ext_getElem (by simp)
    intro n h₁ h₂
    simp [hw]
    omega

/-- A frame writes the words of its header and the words of its payload, in
    order, with the start mark on the first and the end mark on the last, reads
    the input FIFO for as many consecutive edges as its payload has words, and
    ends in `IDLE`. -/
theorem frame_law (f : Frame) (hf : f.Valid c) (hs : s.nextState = .idle)
    (hcrc : c.genCrc = false) (hdly : 2 ≤ c.fifoInDly.toNat) :
    log (step c) (writes c) s f.inputs = beats (f.headerWords ++ f.payloadWords c) ∧
      log (step c) (rdreqIn c) s f.inputs =
        List.replicate (f.header.length + 2) false ++
          List.replicate (f.payloadLength c) true ++
          List.replicate (c.fifoInDly.toNat + f.ending.length) false ∧
      (run (step c) s f.inputs).nextState = .idle := by
  obtain ⟨hstart, hw0, hr0, hlen0⟩ := Header.start (c := c) hs hf.ready
  have hpos : 0 < (step c f.ready s).payloadLength := by
    rw [hlen0]
    exact hf.payload_pos
  obtain ⟨hhead, hhlen, hhlog, hhrd⟩ := hstart.run (c := c) hpos hf.notDone
  generalize ht : run (step c) (step c f.ready s) f.header = t at hhead hhlen
  -- the last header word
  have htlen : t.payloadLength = f.payloadLength c := hhlen.trans hlen0
  obtain ⟨hpaced, hpos0⟩ := Paced.start (c := c) hhead.nextState hf.done (htlen ▸ hf.payload_pos)
    hhead.delayCounter hhead.rdreq hhead.eop (by omega)
  have hlast : writes c f.headerLast t =
      [⟨f.headerLast.headerData, decide ((headerWords f.header).length = 0), false⟩] := by
    rw [hhead.writes_eq (htlen ▸ hf.payload_pos), hf.doneValid, if_pos rfl]
  have hlastrd : rdreqIn c f.headerLast t = [false] := by
    rw [rdreqIn, hpaced.rdreq, hpos0]
    rfl
  have hplen0 : (step c f.headerLast t).payloadLength = f.payloadLength c := by
    rw [payloadLength_step (by rw [hhead.nextState]; decide), htlen]
  -- the payload
  obtain ⟨hend, hendpos, hendlen, -, -, hplog, hprd⟩ := payload_run hpaced hpos0 hcrc hdly
    (hplen0 ▸ hf.payload_length.le)
  obtain ⟨hidle, helog, herd⟩ := ending_run hend hcrc
    (by rw [hendpos, hendlen, hplen0, hf.payload_length]) hf.ending_length
  have hpay : payloadSoFar c f.payload = f.payloadWords c := by
    rw [payloadSoFar, Frame.payloadWords, hf.payload_length, Nat.add_sub_cancel_left]
  have hpaylen : (f.payloadWords c).length = f.payloadLength c := by
    rw [← hpay, payloadSoFar_length hdly, hf.payload_length, Nat.add_sub_cancel_left]
  have hwords : f.headerWords = headerWords f.header ++ headerWords [f.headerLast] := by
    simp [Frame.headerWords, headerWords]
  have hbeats : headerBeats f.headerWords = headerBeats (headerWords f.header) ++
      [⟨f.headerLast.headerData, decide ((headerWords f.header).length = 0), false⟩] := by
    rw [hwords, headerBeats_concat, hf.doneValid, if_pos rfl]
  refine ⟨?_, ?_, ?_⟩
  · rw [beats_append, hbeats, Frame.inputs, log_cons, hw0, List.nil_append, log_append, hhlog, ht,
      log_cons, hlast, log_append, hplog, helog, hplen0, hpay, hpaylen]
    · simp
    · simp [hwords, headerWords, hf.doneValid]
    · exact List.ne_nil_of_length_pos (hpaylen ▸ hf.payload_pos)
  · rw [Frame.inputs, log_cons, log_append, hhrd, ht, log_cons, hlastrd, log_append, hprd, herd,
      hplen0, hf.payload_length, rdreqIn, hr0, Nat.min_eq_right (Nat.le_add_left _ _),
      Nat.add_sub_cancel, List.replicate_add (c.fifoInDly.toNat),
      List.replicate_succ (n := f.header.length + 1), List.replicate_succ' (n := f.header.length)]
    simp
  · rw [Frame.inputs, run_cons, run_append, ht, run_cons, run_append]
    exact hidle

/-- A three-word payload behind a two-word header with a gap. -/
def sampleConfig : Config where
  payloadMaxLen := 350
  fifoInDly := 3
  fifoOutDly := 1
  genCrc := false

def sampleInput (w : Word) : Input where
  headerData := w
  headerValid := true
  headerDone := false
  dataIn := w
  usedwIn := 3
  payloadRdy := true

def sampleFrame : Frame where
  ready := sampleInput 0
  header := [sampleInput 1, { sampleInput 2 with headerValid := false }]
  headerLast := { sampleInput 3 with headerDone := true }
  payload := [sampleInput 4, sampleInput 5, sampleInput 6, sampleInput 7, sampleInput 8,
    sampleInput 9]
  ending := [sampleInput 10, sampleInput 11, sampleInput 12]

theorem sampleFrame_valid : sampleFrame.Valid sampleConfig where
  ready := rfl
  payload_pos := by decide
  notDone := by decide
  done := rfl
  doneValid := rfl
  payload_length := rfl
  ending_length := rfl

theorem frame_law_sample :
    log (step sampleConfig) (writes sampleConfig) reset sampleFrame.inputs =
        beats (sampleFrame.headerWords ++ sampleFrame.payloadWords sampleConfig) ∧
      log (step sampleConfig) (rdreqIn sampleConfig) reset sampleFrame.inputs =
        List.replicate (sampleFrame.header.length + 2) false ++
          List.replicate (sampleFrame.payloadLength sampleConfig) true ++
          List.replicate (sampleConfig.fifoInDly.toNat + sampleFrame.ending.length) false ∧
      (run (step sampleConfig) reset sampleFrame.inputs).nextState = .idle :=
  frame_law sampleFrame sampleFrame_valid rfl rfl (by decide)

example : beats (sampleFrame.headerWords ++ sampleFrame.payloadWords sampleConfig) =
    [⟨1, true, false⟩, ⟨3, false, false⟩, ⟨6, false, false⟩, ⟨7, false, false⟩,
      ⟨8, false, true⟩] := by decide

end FpgaEthernet.FrameGenerator
