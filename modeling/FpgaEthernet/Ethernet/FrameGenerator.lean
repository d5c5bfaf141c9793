import FpgaEthernet.Clocked.Run
import FpgaEthernet.Ethernet.EthCommon

/-!
# `ethernet_frame_generator`

Model of `ethernet/ethernet_frame_generator.vhd`: the state machine that takes
one header from the header generator and one payload from the input FIFO and
writes them, with start and end marks, to the output FIFO.

Main results:

* `BusyOk.step`: `fg_busy` is high whenever the machine is not idle.
* `InPayload.step`: `position` counts the clock edges since the header ended,
  up to the last payload word.
* `Reading.step`: along the payload, `rdreq` is high for exactly as many edges
  as there are payload words, and the words written are the words that stood on
  `data_in` a fixed number of edges after each read.
-/

namespace FpgaEthernet.FrameGenerator

/-! ## Model -/

/-- `state_type` (`ethernet_frame_generator.vhd` lines 105-107). -/
inductive StateType
  | idle | payloadHeader
  | payloadWait | payloadStart
  | writePayload | writeCrc | done
  deriving DecidableEq, Repr

/-- The configuration ports (lines 87-97). -/
structure Config where
  payloadMaxLen : BitVec 9
  fifoInDly : BitVec 4
  fifoOutDly : BitVec 4
  genCrc : Bool
  deriving DecidableEq

/-- The input ports (lines 48-64). -/
structure Input where
  headerData : Word
  headerValid : Bool
  headerDone : Bool
  dataIn : Word
  usedwIn : BitVec 11
  payloadRdy : Bool
  deriving DecidableEq

/-- The registers, and the variables of `state_machine`. The unused CRC
    signals and the copy `state` are left out. -/
structure State where
  nextState : StateType
  delayCounter : ℕ
  frameSize : ℕ
  wordsRead : ℕ
  payloadLength : ℕ
  frameWord : Word
  payloadWord : Word
  headerStart : Bool
  rdreqSig : Bool
  wrreqSig : Bool
  sopSig : Bool
  eopSig : Bool
  fgBusy : Bool
  frameRdy : Bool
  frameLength : BitVec 9
  deriving DecidableEq

/-- The port `payload_len` (line 143). -/
def payloadLen (s : State) : BitVec 9 := BitVec.ofNat 9 s.payloadLength

/-- `state_machine` (lines 146-345). -/
def stateMachine (c : Config) (i : Input) (s : State) : State :=
  match s.nextState with
  | .idle =>
    { s with
      frameRdy := false
      frameSize := 0
      frameLength := BitVec.allOnes 9
      wrreqSig := false
      rdreqSig := false
      sopSig := false
      eopSig := false
      delayCounter := 0
      wordsRead := 0
      nextState := if i.payloadRdy then .payloadHeader else .idle
      headerStart := i.payloadRdy
      fgBusy := i.payloadRdy
      payloadLength :=
        if i.payloadRdy then
          if c.payloadMaxLen.toNat ≤ i.usedwIn.toNat then c.payloadMaxLen.toNat
          else i.usedwIn.toNat
        else s.payloadLength }
  | .payloadHeader =>
    { s with
      headerStart := false
      frameWord := i.headerData
      wrreqSig := i.headerValid
      sopSig := if i.headerValid then decide (s.frameSize = 0) else s.sopSig
      frameSize := if i.headerValid then s.frameSize + 1 else s.frameSize
      nextState :=
        if i.headerDone then (if s.payloadLength = 0 then .done else .payloadWait)
        else .payloadHeader
      eopSig := if i.headerDone ∧ s.payloadLength = 0 then true else s.eopSig }
  | .payloadWait =>
    { s with
      rdreqSig := decide (s.delayCounter < s.payloadLength)
      sopSig := false
      frameSize := if s.delayCounter = 0 then s.frameSize + s.payloadLength else s.frameSize
      delayCounter := s.delayCounter + 1
      nextState := if c.fifoInDly.toNat ≤ s.delayCounter + 1 then .payloadStart else .payloadWait
      wrreqSig := false
      wordsRead := 0 }
  | .payloadStart =>
    { s with
      wrreqSig := true
      rdreqSig := decide (c.fifoInDly.toNat < s.payloadLength)
      frameWord := s.payloadWord
      frameLength := BitVec.ofNat 9 s.frameSize
      nextState := .writePayload
      eopSig := if s.payloadLength = 1 then true else s.eopSig }
  | .writePayload =>
    let wordsRead := s.wordsRead + 1
    let finished := decide (s.payloadLength ≤ wordsRead)
    { s with
      wordsRead := wordsRead
      delayCounter := if finished then 0 else s.delayCounter
      nextState :=
        if finished then (if c.genCrc then .writeCrc else .done) else .writePayload
      wrreqSig := if finished then c.genCrc else true
      frameWord := if finished then 0 else s.payloadWord
      -- the test for the last word comes after the assignments above and wins
      eopSig :=
        if (wordsRead : ℤ) = s.payloadLength - 1 ∧ c.genCrc = false then true
        else if finished then c.genCrc else s.eopSig
      rdreqSig := decide ((wordsRead : ℤ) < (s.payloadLength : ℤ) - c.fifoInDly.toNat) }
  | .writeCrc =>
    { s with nextState := .done, eopSig := false, wrreqSig := false, frameWord := 0 }
  | .done =>
    let waited := decide (c.fifoOutDly.toNat ≤ s.delayCounter)
    { s with
      nextState := if waited then .idle else .done
      frameRdy := if waited then true else s.frameRdy
      delayCounter := if waited then 0 else s.delayCounter + 1
      eopSig := false
      rdreqSig := false
      wrreqSig := false
      wordsRead := 0 }

/-- One clock edge: `state_machine` and `payload_word_register` (lines
    146-355). -/
def step (c : Config) (i : Input) (s : State) : State :=
  { stateMachine c i s with payloadWord := i.dataIn }

/-- The registers when reset is released. -/
def reset : State where
  nextState := .idle
  delayCounter := 0
  frameSize := 0
  wordsRead := 0
  payloadLength := 0
  frameWord := 0
  payloadWord := 0
  headerStart := false
  rdreqSig := false
  wrreqSig := false
  sopSig := false
  eopSig := false
  fgBusy := false
  frameRdy := false
  frameLength := BitVec.allOnes 9

/-- `payload_length` is only loaded in `IDLE`. -/
theorem payloadLength_step {c : Config} {i : Input} {s : State} (h : s.nextState ≠ .idle) :
    (step c i s).payloadLength = s.payloadLength := by
  cases hn : s.nextState <;> simp_all [step, stateMachine]

/-- `fg_busy` is only loaded in `IDLE`, with `payload_rdy`. -/
theorem fgBusy_step (c : Config) (i : Input) (s : State) :
    (step c i s).fgBusy = if s.nextState = .idle then i.payloadRdy else s.fgBusy := by
  cases hn : s.nextState <;> simp [step, stateMachine, hn]

/-- `fg_busy` is high outside `IDLE`. -/
def BusyOk (s : State) : Prop := s.fgBusy = false → s.nextState = .idle

theorem BusyOk.step {c : Config} {i : Input} {s : State} (h : BusyOk s) :
    BusyOk (step c i s) := by
  intro hb
  rw [fgBusy_step] at hb
  by_cases hn : s.nextState = .idle
  · rw [if_pos hn] at hb
    simp [FrameGenerator.step, stateMachine, hn, hb]
  · rw [if_neg hn] at hb
    exact absurd (h hb) hn

/-! ## The payload phase -/

/-- The clock edges since the header ended, up to the last payload word. -/
def position (c : Config) (s : State) : ℕ :=
  match s.nextState with
  | .payloadStart => c.fifoInDly.toNat
  | .writePayload => c.fifoInDly.toNat + 1 + s.wordsRead
  | _ => s.delayCounter

/-- The generator is between the last header word and the last payload word of
    a frame that has a payload. -/
structure InPayload (c : Config) (s : State) : Prop where
  length_pos : 0 < s.payloadLength
  phase : (s.nextState = .payloadWait ∧ s.delayCounter < c.fifoInDly.toNat) ∨
    (s.nextState = .payloadStart ∧ s.wordsRead = 0) ∨
    (s.nextState = .writePayload ∧ s.wordsRead < s.payloadLength)

theorem InPayload.nextState_ne {c : Config} {s : State} (h : InPayload c s) :
    s.nextState ≠ .idle ∧ s.nextState ≠ .done ∧ s.nextState ≠ .payloadHeader := by
  rcases h.phase with ⟨hn, -⟩ | ⟨hn, -⟩ | ⟨hn, -⟩ <;> simp [hn]

theorem InPayload.position_le {c : Config} {s : State} (h : InPayload c s) :
    position c s ≤ c.fifoInDly.toNat + s.payloadLength := by
  have := h.length_pos
  rcases h.phase with ⟨hn, hp⟩ | ⟨hn, hp⟩ | ⟨hn, hp⟩ <;> simp only [position, hn] <;> omega

/-- Before the last payload word a step advances the position by one. -/
theorem InPayload.step {c : Config} {i : Input} {s : State} (h : InPayload c s)
    (hl : position c s < c.fifoInDly.toNat + s.payloadLength) :
    InPayload c (step c i s) ∧ position c (FrameGenerator.step c i s) = position c s + 1 ∧
      (FrameGenerator.step c i s).payloadLength = s.payloadLength := by
  have hpos := h.length_pos
  rcases h.phase with ⟨hn, hp⟩ | ⟨hn, hp⟩ | ⟨hn, hp⟩
  · by_cases hd : c.fifoInDly.toNat ≤ s.delayCounter + 1
    · refine ⟨⟨?_, ?_⟩, ?_, ?_⟩ <;>
        simp [FrameGenerator.step, stateMachine, position, hn, hd, hpos]
      omega
    · refine ⟨⟨?_, ?_⟩, ?_, ?_⟩ <;>
        simp [FrameGenerator.step, stateMachine, position, hn, hd, hpos]
      omega
  · refine ⟨⟨?_, ?_⟩, ?_, ?_⟩ <;>
      simp [FrameGenerator.step, stateMachine, position, hn, hp, hpos]
  · simp only [position, hn] at hl
    have hf : ¬ s.payloadLength ≤ s.wordsRead + 1 := by omega
    refine ⟨⟨?_, ?_⟩, ?_, ?_⟩ <;>
      simp [FrameGenerator.step, stateMachine, position, hn, hf, hpos]
    · omega
    · omega

/-- The last payload word ends the frame. -/
theorem InPayload.finish {c : Config} {i : Input} {s : State} (h : InPayload c s)
    (hc : c.genCrc = false) (hl : position c s = c.fifoInDly.toNat + s.payloadLength) :
    (FrameGenerator.step c i s).nextState = .done ∧ (FrameGenerator.step c i s).wrreqSig = false ∧
      (FrameGenerator.step c i s).eopSig = false ∧
        (FrameGenerator.step c i s).rdreqSig = false := by
  have hpos := h.length_pos
  rcases h.phase with ⟨hn, hp⟩ | ⟨hn, hp⟩ | ⟨hn, hp⟩ <;> simp only [position, hn] at hl
  · omega
  · omega
  · have hf : s.wordsRead + 1 = s.payloadLength := by omega
    have hz : ¬ (s.payloadLength : ℤ) = s.payloadLength - 1 := by omega
    simp [FrameGenerator.step, stateMachine, hn, hf, hc, hz]

/-- The registers after a step of the payload phase, by position. -/
theorem InPayload.registers {c : Config} {i : Input} {s : State} (h : InPayload c s)
    (hl : position c s < c.fifoInDly.toNat + s.payloadLength) (hc : c.genCrc = false)
    (he : s.eopSig = false) :
    (FrameGenerator.step c i s).rdreqSig = decide (position c s < s.payloadLength) ∧
      (FrameGenerator.step c i s).wrreqSig = decide (c.fifoInDly.toNat ≤ position c s) ∧
      (FrameGenerator.step c i s).eopSig =
        decide (position c s + 1 = c.fifoInDly.toNat + s.payloadLength) ∧
      (FrameGenerator.step c i s).payloadWord = i.dataIn ∧
      (c.fifoInDly.toNat ≤ position c s →
        (FrameGenerator.step c i s).frameWord = s.payloadWord) := by
  have hpos := h.length_pos
  rcases h.phase with ⟨hn, hp⟩ | ⟨hn, hp⟩ | ⟨hn, hp⟩ <;> simp only [position, hn] at hl ⊢
  · refine ⟨?_, ?_, ?_, ?_, ?_⟩ <;> simp [FrameGenerator.step, stateMachine, hn, he] <;> omega
  · refine ⟨?_, ?_, ?_, ?_, ?_⟩ <;> simp [FrameGenerator.step, stateMachine, hn, he]
    by_cases hone : s.payloadLength = 1
    · simp [hone]
    · simp [hone]
      omega
  · have hf : ¬ s.payloadLength ≤ s.wordsRead + 1 := by omega
    refine ⟨?_, ?_, ?_, ?_, ?_⟩ <;>
      simp [FrameGenerator.step, stateMachine, hn, he, hc, hf] <;> omega

@[simp] theorem InPayload.headerStart {c : Config} {i : Input} {s : State} (h : InPayload c s) :
    (FrameGenerator.step c i s).headerStart = s.headerStart := by
  rcases h.phase with ⟨hn, -⟩ | ⟨hn, -⟩ | ⟨hn, -⟩ <;>
    simp [FrameGenerator.step, stateMachine, hn]

/-- The strobes along the payload, by position. -/
structure Paced (c : Config) (s : State) : Prop extends InPayload c s where
  rdreq : s.rdreqSig = decide (1 ≤ position c s ∧ position c s ≤ s.payloadLength)
  wrreq : 1 ≤ position c s → s.wrreqSig = decide (c.fifoInDly.toNat < position c s)
  eop : s.eopSig = decide (position c s = c.fifoInDly.toNat + s.payloadLength)

/-- `header_done` begins the payload phase. -/
theorem Paced.start {c : Config} {i : Input} {s : State} (hn : s.nextState = .payloadHeader)
    (hd : i.headerDone = true) (hl : 0 < s.payloadLength) (hc : s.delayCounter = 0)
    (hr : s.rdreqSig = false) (he : s.eopSig = false) (hdly : 0 < c.fifoInDly.toNat) :
    Paced c (step c i s) ∧ position c (step c i s) = 0 := by
  have hl' : s.payloadLength ≠ 0 := by omega
  refine ⟨⟨⟨?_, ?_⟩, ?_, ?_, ?_⟩, ?_⟩ <;>
    simp [step, stateMachine, position, hn, hd, hl', hc, hr, he]
  · omega
  · exact hdly
  · omega

/-- Before the last payload word the strobes follow the position. -/
theorem Paced.step {c : Config} {i : Input} {s : State} (h : Paced c s) (hc : c.genCrc = false)
    (hl : position c s < c.fifoInDly.toNat + s.payloadLength) : Paced c (step c i s) := by
  have he : s.eopSig = false := by rw [h.eop]; simp; omega
  obtain ⟨hin, hpos', hlen⟩ := h.toInPayload.step (i := i) hl
  obtain ⟨hrd', hwr', heop', -, -⟩ := h.toInPayload.registers (i := i) hl hc he
  refine ⟨hin, ?_, fun _ => ?_, ?_⟩
  · rw [hrd', hpos', hlen, decide_eq_decide]
    omega
  · rw [hwr', hpos', decide_eq_decide]
    omega
  · rw [heop', hpos', hlen]

/-- Before the last word of the payload the position is not the last one. -/
theorem Paced.position_lt {c : Config} {s : State} (h : Paced c s) (he : s.eopSig = false) :
    position c s < c.fifoInDly.toNat + s.payloadLength := by
  have hle := h.position_le
  rw [h.eop, decide_eq_false_iff_not] at he
  omega

/-- What holds along the payload, with `pay` the words read from the input FIFO
    for this frame so far and `sent` the payload words written so far. -/
structure Reading (c : Config) (pay sent : List Word) (s : State) : Prop extends Paced c s where
  pay_length : pay.length = min (position c s - 1) s.payloadLength
  payloadWord : ∀ k < s.payloadLength, position c s = k + c.fifoInDly.toNat →
    pay[k]? = some s.payloadWord
  frameWord : ∀ k < s.payloadLength, position c s = k + c.fifoInDly.toNat + 1 →
    pay[k]? = some s.frameWord
  sent_eq : sent = pay.take (position c s - c.fifoInDly.toNat - 1)

/-- The input FIFO answers in time: the word on `data_in` is the one whose read
    was requested `FIFO_in_dly - 2` edges ago. `pay` holds the words read, the
    one read at this edge included. -/
def Answers (c : Config) (pay : List Word) (dataIn : Word) (s : State) : Prop :=
  ∀ k < s.payloadLength, position c s + 1 = k + c.fifoInDly.toNat → pay[k]? = some dataIn

/-- The payload phase starts with nothing read. -/
theorem Reading.start {c : Config} {i : Input} {s : State} (hn : s.nextState = .payloadHeader)
    (hd : i.headerDone = true) (hl : 0 < s.payloadLength) (hc : s.delayCounter = 0)
    (hr : s.rdreqSig = false) (he : s.eopSig = false) (hdly : 2 ≤ c.fifoInDly.toNat) :
    Reading c [] [] (step c i s) := by
  obtain ⟨hpaced, hpos⟩ := Paced.start hn hd hl hc hr he (by omega : 0 < c.fifoInDly.toNat)
  refine ⟨hpaced, ?_, ?_, ?_, ?_⟩ <;> simp [hpos]
  all_goals omega

/-- Along the payload a read request takes one word from the input FIFO, and the
    word read long enough ago is written out. -/
theorem Reading.step {c : Config} {i : Input} {s : State} {pay sent taken : List Word}
    (h : Reading c pay sent s) (hc : c.genCrc = false)
    (hl : position c s < c.fifoInDly.toNat + s.payloadLength)
    (htaken : taken.length = s.rdreqSig.toNat) (hans : Answers c (pay ++ taken) i.dataIn s) :
    Reading c (pay ++ taken)
      (sent ++ if c.fifoInDly.toNat < position c s then [s.frameWord] else []) (step c i s) := by
  have he : s.eopSig = false := by rw [h.eop]; simp; omega
  obtain ⟨-, hpos', hlen⟩ := h.toInPayload.step (i := i) hl
  obtain ⟨-, -, -, hpw', hfw'⟩ := h.toInPayload.registers (i := i) hl hc he
  have hpl := h.pay_length
  have hkeep : ∀ k w, pay[k]? = some w → (pay ++ taken)[k]? = some w := fun k w hk =>
    List.getElem?_append_left (List.getElem?_eq_some_iff.1 hk).1 ▸ hk
  refine ⟨h.toPaced.step hc hl, ?_, ?_, ?_, ?_⟩
  · rw [hpos', hlen, List.length_append, hpl, htaken, h.rdreq]
    by_cases hr : 1 ≤ position c s ∧ position c s ≤ s.payloadLength <;> simp [hr] <;> omega
  · intro k hk hp
    rw [hlen] at hk
    rw [hpos'] at hp
    rw [hpw']
    exact hans k hk hp
  · intro k hk hp
    rw [hlen] at hk
    rw [hpos'] at hp
    rw [hfw' (by omega)]
    exact hkeep k _ (h.payloadWord k hk (by omega))
  · rw [hpos', h.sent_eq]
    split_ifs with hp
    · obtain ⟨k, hk⟩ : ∃ k, position c s = k + c.fifoInDly.toNat + 1 :=
        ⟨position c s - c.fifoInDly.toNat - 1, by omega⟩
      have hw := h.frameWord k (by omega) hk
      have hkl := (List.getElem?_eq_some_iff.1 hw).1
      rw [hk, show k + c.fifoInDly.toNat + 1 - c.fifoInDly.toNat - 1 = k by omega,
        show k + c.fifoInDly.toNat + 1 + 1 - c.fifoInDly.toNat - 1 = k + 1 by omega,
        List.take_append_of_le_length hkl, List.take_add_one, hw]
      rfl
    · rw [show position c s - c.fifoInDly.toNat - 1 = 0 by omega,
        show position c s + 1 - c.fifoInDly.toNat - 1 = 0 by omega]
      simp

/-- With `FIFO_in_dly = 3` the word read last has to be on `data_in`. -/
theorem Reading.answers_of_getLast {c : Config} {s : State} {pay sent taken : List Word}
    {w : Word} (h : Reading c pay sent s) (hdly : c.fifoInDly = 3)
    (hw : ∀ v, pay.getLast? = some v → w = v) : Answers c (pay ++ taken) w s := by
  intro k hk hp
  have hp : position c s + 1 = k + 3 := by simpa [hdly] using hp
  have hlast : pay.length = k + 1 := by rw [h.pay_length]; omega
  have hget : pay.getLast? = pay[k]? := by rw [List.getLast?_eq_getElem?, hlast]; rfl
  obtain ⟨v, hv⟩ : ∃ v, pay[k]? = some v := ⟨_, List.getElem?_eq_getElem (by omega)⟩
  rw [List.getElem?_append_left (by omega), hv, hw v (hget.trans hv)]

/-- At the last payload word everything read has been written, and as many words
    have been read as the frame announced. -/
theorem Reading.complete {c : Config} {s : State} {pay sent : List Word}
    (h : Reading c pay sent s) (hdly : 2 ≤ c.fifoInDly.toNat)
    (hl : position c s = c.fifoInDly.toNat + s.payloadLength) :
    sent ++ [s.frameWord] = pay ∧ pay.length = s.payloadLength ∧ s.rdreqSig = false := by
  have hpos := h.length_pos
  have hlen : pay.length = s.payloadLength := by rw [h.pay_length, hl]; omega
  obtain ⟨k, hk⟩ : ∃ k, s.payloadLength = k + 1 := ⟨s.payloadLength - 1, by omega⟩
  refine ⟨?_, hlen, ?_⟩
  · have hw := h.frameWord k (by omega) (by omega)
    rw [h.sent_eq, hl,
      show c.fifoInDly.toNat + s.payloadLength - c.fifoInDly.toNat - 1 = k by omega,
      show [s.frameWord] = pay[k]?.toList by rw [hw]; rfl, ← List.take_add_one,
      List.take_of_length_le (by omega)]
  · rw [h.rdreq, hl]
    simp
    omega

end FpgaEthernet.FrameGenerator
