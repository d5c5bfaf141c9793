import FpgaEthernet.Clocked.InputBuffer
import FpgaEthernet.Interfaces.EthernetCcdcontrolInterface

/-!
# `ethernet_cabac_buffer`

Model of `interfaces/ethernet_cabac_buffer.vhd`, and the block together with a
programmer, which takes a start or a reset it sees while it is free, and is busy from
the edge after.

`reset_cabac` is looked at in `IDLE` only, and a reset is raised whether the programmer
is busy or not. `WAIT_SPI` takes any busy for the answer to the word, also that of a
reset. It keeps `start_cabac_SPI` up when it has seen busy, so that the programmer can
take the word again if it is free at the next edge.

Main results:

* `Supplying.step`: the words received, the word offered and those in the buffer are the
  words that came in, as long as each edge is `Clear`.
* `reset_taken_iff`: when a reset is taken.
* `cabac_programmed`: what the programmer receives along such a run.
-/

namespace FpgaEthernet.EthernetCabacBuffer

open Clocked
open EthernetCcdcontrolInterface (udpPortCabacProg)

/-! ## Model -/

/-- `state_type` (`ethernet_cabac_buffer.vhd` lines 84-85). -/
inductive StateType
  | hwReset
  | idle
  | startReset
  | readWord
  | startSpi
  | waitSpi
  | waitBusy
  deriving DecidableEq

/-- The input ports that are read (lines 36-50). -/
structure Input where
  ethDataIn : Word
  ethDataPort : UdpPort
  ethDataValid : Bool
  resetCabac : Bool
  cabacprogBusy : Bool
  deriving DecidableEq

/-- `fifo_wrreq`, `fifo_data`, the FIFO and `fifo_q`, which is `reg32b_cabacspi`, and the
    other registers. Nothing reads `state`. -/
structure State where
  buffer : InputBuffer Word 512
  fifoRdreq : Bool
  nextState : StateType
  startCabacSpi : Bool
  startCabacResetSpi : Bool

/-- The registers when `reset` is released after power-up. -/
def initial : State where
  buffer := ⟨false, 0, .empty, 0⟩
  fifoRdreq := false
  nextState := .hwReset
  startCabacSpi := false
  startCabacResetSpi := false

/-- A word for the CABAC is on the input (line 112). -/
def Input.forCabac (i : Input) : Bool := i.ethDataValid && i.ethDataPort = udpPortCabacProg

/-- `fifo_rdempty`. -/
def rdempty (s : State) : Bool := s.buffer.usedw = 0

/-- `fifo_writer` (lines 109-120) and the FIFO. -/
def fifoWriter (i : Input) (s : State) : InputBuffer Word 512 :=
  s.buffer.clock s.fifoRdreq i.forCabac (if i.forCabac then i.ethDataIn else 0)

/-- `cabac_writer_state_machine` (lines 125-191). -/
def cabacWriterStateMachine (i : Input) (s : State) : State :=
  let d := { s with startCabacResetSpi := false, startCabacSpi := false, fifoRdreq := false }
  match s.nextState with
  | .hwReset => { d with nextState := .idle }
  | .idle =>
    { d with
      nextState :=
        if i.resetCabac then .startReset else if rdempty s = false then .readWord else .idle }
  | .startReset => { d with startCabacResetSpi := true, nextState := .idle }
  | .readWord => { d with fifoRdreq := true, nextState := .startSpi }
  | .startSpi => { d with fifoRdreq := false, startCabacSpi := true, nextState := .waitSpi }
  | .waitSpi =>
    { d with
      startCabacSpi := true
      nextState := if i.cabacprogBusy then .waitBusy else .waitSpi }
  | .waitBusy =>
    { d with
      nextState :=
        if i.cabacprogBusy then .waitBusy else if rdempty s = false then .readWord else .idle }

/-- One edge of `clock`. -/
def step (i : Input) (s : State) : State :=
  { cabacWriterStateMachine i s with buffer := fifoWriter i s }

/-! ## Programmer -/

/-- A programmer: free, or busy with a word or a reset. -/
inductive Programmer
  | free
  | writing (w : Word)
  | resetting
  deriving DecidableEq

/-- The inputs, and whether a busy programmer stays busy. -/
structure Edge where
  data : Word
  port : UdpPort
  valid : Bool
  resetCabac : Bool
  stays : Bool
  deriving DecidableEq

/-- The block, its programmer, and `reset_cabac` at the edge before. -/
structure System where
  cabac : State
  programmer : Programmer
  lastReset : Bool

def Programmer.step (e : Edge) (s : State) : Programmer → Programmer
  | free =>
    if s.startCabacResetSpi then resetting
    else if s.startCabacSpi then writing s.buffer.q else free
  | writing w => if e.stays then writing w else free
  | resetting => if e.stays then resetting else free

def System.input (e : Edge) (s : System) : Input :=
  ⟨e.data, e.port, e.valid, e.resetCabac, s.programmer ≠ .free⟩

def System.step (e : Edge) (s : System) : System where
  cabac := EthernetCabacBuffer.step (s.input e) s.cabac
  programmer := s.programmer.step e s.cabac
  lastReset := e.resetCabac

def System.initial : System := ⟨EthernetCabacBuffer.initial, .free, false⟩

/-! ## Specification -/

/-- The words that come in for the CABAC. -/
def arrived (e : Edge) (s : System) : List Word :=
  if (s.input e).forCabac then [e.data] else []

/-- The words the programmer takes. -/
def received (_ : Edge) (s : System) : List Word :=
  if s.programmer = .free ∧ s.cabac.startCabacResetSpi = false ∧ s.cabac.startCabacSpi = true then
    [s.cabac.buffer.q]
  else []

/-- The programmer takes a reset. -/
def TakesReset (s : System) : Prop :=
  s.programmer = .free ∧ s.cabac.startCabacResetSpi = true

instance (s : System) : Decidable (TakesReset s) := inferInstanceAs (Decidable (_ ∧ _))

/-- A pulse of `reset_cabac` begins. -/
def Pulse (e : Edge) (s : System) : Prop := e.resetCabac = true ∧ s.lastReset = false

/-- A pulse of `reset_cabac` begins in `IDLE` and is over when `IDLE` is back; a reset is
    raised while the programmer is free; it is not busy with a reset in `WAIT_SPI`, and
    still busy with the word at the first edge of `WAIT_BUSY`. -/
structure Clear (e : Edge) (s : System) : Prop where
  pulse : e.resetCabac = true → (s.lastReset = false ↔ s.cabac.nextState = .idle)
  raised : s.cabac.startCabacResetSpi = true → s.programmer = .free
  answer : s.cabac.nextState = .waitSpi → s.programmer ≠ .resetting
  again : s.cabac.nextState = .waitBusy → s.cabac.startCabacSpi = true → s.programmer ≠ .free

instance (e : Edge) (s : System) : Decidable (Clear e s) :=
  decidable_of_iff
    ((e.resetCabac = true → (s.lastReset = false ↔ s.cabac.nextState = .idle)) ∧
      (s.cabac.startCabacResetSpi = true → s.programmer = .free) ∧
      (s.cabac.nextState = .waitSpi → s.programmer ≠ .resetting) ∧
      (s.cabac.nextState = .waitBusy → s.cabac.startCabacSpi = true → s.programmer ≠ .free))
    ⟨fun h => ⟨h.1, h.2.1, h.2.2.1, h.2.2.2⟩, fun h => ⟨h.1, h.2, h.3, h.4⟩⟩

/-- Neither a word nor a reset comes in. -/
def Calm (e : Edge) : Prop :=
  (e.valid && e.port = udpPortCabacProg) = false ∧ e.resetCabac = false

instance (e : Edge) : Decidable (Calm e) := inferInstanceAs (Decidable (_ ∧ _))

/-- Nothing is under way or left. -/
structure AtRest (s : System) : Prop where
  idle : s.cabac.nextState = .idle
  free : s.programmer = .free
  reset : s.cabac.startCabacResetSpi = false
  words : s.cabac.buffer.usedw = 0
  written : s.cabac.buffer.wrreq = false

/-- The programmer has received the first words, all of them at rest, and the register
    holds the word it is busy with. -/
structure Supplies (words got : List Word) (s : System) : Prop where
  order : got <+: words
  all : AtRest s → got = words
  stable : ∀ w, s.programmer = .writing w → s.cabac.buffer.q = w

/-! ## An edge -/

section

variable {i : Input} {s : State}

/-- What an edge does to the registers of the machine. -/
structure Moves (s' : State) (n : StateType) (rdreq start reset : Bool) : Prop where
  nextState : s'.nextState = n
  rdreq : s'.fifoRdreq = rdreq
  start : s'.startCabacSpi = start
  reset : s'.startCabacResetSpi = reset

theorem step_hwReset (hs : s.nextState = .hwReset) : Moves (step i s) .idle false false false := by
  constructor <;> simp [step, cabacWriterStateMachine, hs]

theorem step_idle (hs : s.nextState = .idle) :
    Moves (step i s)
      (if i.resetCabac then .startReset else if rdempty s = false then .readWord else .idle)
      false false false := by
  constructor <;> simp only [step, cabacWriterStateMachine, hs]

theorem step_startReset (hs : s.nextState = .startReset) :
    Moves (step i s) .idle false false true := by
  constructor <;> simp [step, cabacWriterStateMachine, hs]

theorem step_readWord (hs : s.nextState = .readWord) :
    Moves (step i s) .startSpi true false false := by
  constructor <;> simp [step, cabacWriterStateMachine, hs]

theorem step_startSpi (hs : s.nextState = .startSpi) :
    Moves (step i s) .waitSpi false true false := by
  constructor <;> simp [step, cabacWriterStateMachine, hs]

theorem step_waitSpi (hs : s.nextState = .waitSpi) :
    Moves (step i s) (if i.cabacprogBusy then .waitBusy else .waitSpi) false true false := by
  constructor <;> simp only [step, cabacWriterStateMachine, hs]

theorem step_waitBusy (hs : s.nextState = .waitBusy) :
    Moves (step i s)
      (if i.cabacprogBusy then .waitBusy else if rdempty s = false then .readWord else .idle)
      false false false := by
  constructor <;> simp only [step, cabacWriterStateMachine, hs]

theorem usedw_step (i : Input) (s : State) :
    (if s.fifoRdreq then s.buffer.usedw - 1 else s.buffer.usedw) ≤ (step i s).buffer.usedw :=
  InputBuffer.usedw_clock_le _ _

theorem usedw_of_rdempty (h : rdempty s = false) : 1 ≤ s.buffer.usedw := by
  rw [rdempty, decide_eq_false_iff_not] at h
  omega

/-- Without a read the register shows what it showed. -/
theorem q_step (i : Input) (hr : s.fifoRdreq = false) : (step i s).buffer.q = s.buffer.q := by
  unfold step fifoWriter
  rw [hr]
  exact InputBuffer.q_clock_false _ _

theorem startReset_iff :
    (step i s).nextState = .startReset ↔ s.nextState = .idle ∧ i.resetCabac = true := by
  unfold step cabacWriterStateMachine
  cases s.nextState <;> dsimp only <;> (try split_ifs) <;> simp_all

theorem resetSpi_iff : (step i s).startCabacResetSpi = true ↔ s.nextState = .startReset := by
  unfold step cabacWriterStateMachine
  cases s.nextState <;> simp

/-- A read shows the word it takes. -/
theorem taken_step (i : Input) (hr : s.fifoRdreq = true) (h : 1 ≤ s.buffer.usedw) :
    s.buffer.fifo.taken s.fifoRdreq = [(step i s).buffer.q] := by
  unfold step fifoWriter
  rw [hr]
  exact InputBuffer.taken_eq_q _ _ h

end

/-! ## With a programmer -/

section

variable {e : Edge} {s : System} {words got l : List Word} {es : List Edge}

/-- `l` is the word that has been read and not been received. -/
def Stage (l : List Word) (s : System) : Prop :=
  match s.cabac.nextState with
  | .hwReset | .idle | .startReset =>
    s.cabac.fifoRdreq = false ∧ s.cabac.startCabacSpi = false ∧ l = [] ∧
      ∀ w, s.programmer ≠ .writing w
  | .readWord =>
    s.cabac.fifoRdreq = false ∧ s.cabac.startCabacSpi = false ∧ l = [] ∧
      (∀ w, s.programmer ≠ .writing w) ∧ 1 ≤ s.cabac.buffer.usedw
  | .startSpi =>
    s.cabac.fifoRdreq = true ∧ s.cabac.startCabacSpi = false ∧ l = [] ∧
      (∀ w, s.programmer ≠ .writing w) ∧ 1 ≤ s.cabac.buffer.usedw
  | .waitSpi =>
    s.cabac.fifoRdreq = false ∧ s.cabac.startCabacSpi = true ∧
      (l = [s.cabac.buffer.q] ∧ (∀ w, s.programmer ≠ .writing w) ∨
        l = [] ∧ s.programmer = .writing s.cabac.buffer.q)
  | .waitBusy =>
    s.cabac.fifoRdreq = false ∧ l = [] ∧
      (s.programmer = .free ∨ s.programmer = .writing s.cabac.buffer.q)

/-- The words that have come in are those received, the one offered and those in the
    buffer. A reset is up in `IDLE` only. -/
structure Supplying (words got : List Word) (s : System) : Prop where
  words : ∃ l, words = got ++ l ++ s.cabac.buffer.held ∧ Stage l s
  reset : s.cabac.startCabacResetSpi = true → s.cabac.nextState = .idle

theorem supplying_initial : Supplying [] [] System.initial where
  words := ⟨[], rfl, rfl, rfl, rfl, fun _ => Programmer.noConfusion⟩
  reset h := by cases h

/-- A programmer to which no word is offered does not begin to write. -/
theorem notWriting_step (hstart : s.cabac.startCabacSpi = false)
    (hw : ∀ w, s.programmer ≠ .writing w) (w : Word) :
    (System.step e s).programmer ≠ .writing w := by
  change s.programmer.step e s.cabac ≠ _
  cases hp : s.programmer with
  | free =>
    rw [Programmer.step, hstart, if_neg Bool.false_ne_true]
    split_ifs <;> exact nofun
  | writing w' => exact absurd hp (hw w')
  | resetting =>
    rw [Programmer.step]
    split_ifs <;> exact nofun

theorem received_of_not_offered (hstart : s.cabac.startCabacSpi = false) : received e s = [] :=
  if_neg fun h => by rw [hstart] at h; exact absurd h.2.2 Bool.false_ne_true

/-- Without a read and without an offer no word moves. -/
theorem quiet_balance (hrdreq : s.cabac.fifoRdreq = false)
    (hstart : s.cabac.startCabacSpi = false) :
    [] ++ s.cabac.buffer.fifo.taken s.cabac.fifoRdreq = received e s ++ [] := by
  rw [hrdreq, Fifo.taken_false, received_of_not_offered hstart]

theorem received_of_busy (hbusy : s.programmer ≠ .free) : received e s = [] :=
  if_neg fun h => hbusy h.1

/-- Without a read the buffer gets no emptier. -/
theorem usedw_le_step (hrdreq : s.cabac.fifoRdreq = false) :
    s.cabac.buffer.usedw ≤ (System.step e s).cabac.buffer.usedw := by
  have h := usedw_step (s.input e) s.cabac
  rw [hrdreq, if_neg Bool.false_ne_true] at h
  exact h

/-- `WAIT_SPI` lasts until the programmer is busy. -/
theorem nextState_waitSpi (hn : s.cabac.nextState = .waitSpi) :
    (System.step e s).cabac.nextState = if s.programmer = .free then .waitSpi else .waitBusy := by
  have hm : Moves (System.step e s).cabac _ _ _ _ := step_waitSpi hn
  rw [hm.nextState]
  by_cases hfree : s.programmer = .free <;> simp [System.input, hfree]

/-- `WAIT_BUSY` lasts until the programmer is free. -/
theorem nextState_waitBusy (hn : s.cabac.nextState = .waitBusy) :
    (System.step e s).cabac.nextState =
      if s.programmer = .free then (if rdempty s.cabac = false then .readWord else .idle)
      else .waitBusy := by
  have hm : Moves (System.step e s).cabac _ _ _ _ := step_waitBusy hn
  rw [hm.nextState]
  by_cases hfree : s.programmer = .free <;> simp [System.input, hfree]

/-- The register still shows the word that a busy programmer writes. -/
theorem writing_step (hrdreq : s.cabac.fifoRdreq = false)
    (hw : s.programmer = .writing s.cabac.buffer.q) :
    (System.step e s).programmer = .free ∨
      (System.step e s).programmer = .writing (System.step e s).cabac.buffer.q := by
  have hq : (System.step e s).cabac.buffer.q = s.cabac.buffer.q := q_step _ hrdreq
  rw [hq]
  cases hstays : e.stays <;> simp [System.step, hw, Programmer.step, hstays]

/-- What has been read, with what is read now, is received now or still offered. -/
def PassesOn (l : List Word) (e : Edge) (s : System) : Prop :=
  ∃ l', Stage l' (System.step e s) ∧
    l ++ s.cabac.buffer.fifo.taken s.cabac.fifoRdreq = received e s ++ l'

theorem Stage.step_idle (h : Stage l s)
    (hn : s.cabac.nextState = .hwReset ∨ s.cabac.nextState = .idle ∨
      s.cabac.nextState = .startReset) : PassesOn l e s := by
  have hquiet : s.cabac.fifoRdreq = false ∧ s.cabac.startCabacSpi = false ∧ l = [] ∧
      ∀ w, s.programmer ≠ .writing w := by
    rcases hn with hn | hn | hn <;> simpa only [Stage, hn] using h
  obtain ⟨hrdreq, hstart, rfl, hw⟩ := hquiet
  have hw' := notWriting_step (e := e) hstart hw
  refine ⟨[], ?_, quiet_balance hrdreq hstart⟩
  unfold Stage
  rcases hn with hn | hn | hn
  · have hm : Moves (System.step e s).cabac _ _ _ _ := step_hwReset hn
    rw [hm.nextState]
    exact ⟨hm.rdreq, hm.start, rfl, hw'⟩
  · have hm : Moves (System.step e s).cabac _ _ _ _ := EthernetCabacBuffer.step_idle hn
    rw [hm.nextState]
    split_ifs with hr hempty
    · exact ⟨hm.rdreq, hm.start, rfl, hw'⟩
    · exact ⟨hm.rdreq, hm.start, rfl, hw', (usedw_of_rdempty hempty).trans (usedw_le_step hrdreq)⟩
    · exact ⟨hm.rdreq, hm.start, rfl, hw'⟩
  · have hm : Moves (System.step e s).cabac _ _ _ _ := step_startReset hn
    rw [hm.nextState]
    exact ⟨hm.rdreq, hm.start, rfl, hw'⟩

/-- The word is asked for. -/
theorem Stage.step_readWord (h : Stage l s) (hn : s.cabac.nextState = .readWord) :
    PassesOn l e s := by
  simp only [Stage, hn] at h
  obtain ⟨hrdreq, hstart, rfl, hw, hone⟩ := h
  have hm : Moves (System.step e s).cabac _ _ _ _ := EthernetCabacBuffer.step_readWord hn
  refine ⟨[], ?_, quiet_balance hrdreq hstart⟩
  unfold Stage
  rw [hm.nextState]
  exact ⟨hm.rdreq, hm.start, rfl, notWriting_step hstart hw, hone.trans (usedw_le_step hrdreq)⟩

/-- The word is read, and offered from now on. -/
theorem Stage.step_startSpi (h : Stage l s) (hn : s.cabac.nextState = .startSpi) :
    PassesOn l e s := by
  simp only [Stage, hn] at h
  obtain ⟨hrdreq, hstart, rfl, hw, hone⟩ := h
  have hm : Moves (System.step e s).cabac _ _ _ _ := EthernetCabacBuffer.step_startSpi hn
  refine ⟨[(System.step e s).cabac.buffer.q], ?_, ?_⟩
  · unfold Stage
    rw [hm.nextState]
    exact ⟨hm.rdreq, hm.start, Or.inl ⟨rfl, notWriting_step hstart hw⟩⟩
  · rw [taken_step (s.input e) hrdreq hone, received_of_not_offered hstart]
    rfl

/-- The programmer takes the word that is offered, or is busy with it. -/
theorem Stage.step_waitSpi (h : Stage l s) (hclear : Clear e s)
    (hnr : s.cabac.startCabacResetSpi = false) (hn : s.cabac.nextState = .waitSpi) :
    PassesOn l e s := by
  simp only [Stage, hn] at h
  obtain ⟨hrdreq, hstart, hoffered⟩ := h
  have hm : Moves (System.step e s).cabac _ _ _ _ := EthernetCabacBuffer.step_waitSpi hn
  have hnext := nextState_waitSpi (e := e) hn
  unfold PassesOn
  rw [hrdreq, Fifo.taken_false]
  refine ⟨[], ?_⟩
  rcases hoffered with ⟨rfl, hw⟩ | ⟨rfl, hw⟩
  · have hfree : s.programmer = .free := by
      cases hp : s.programmer with
      | free => rfl
      | writing w => exact absurd hp (hw w)
      | resetting => exact absurd hp (hclear.answer hn)
    have hq : (System.step e s).cabac.buffer.q = s.cabac.buffer.q := q_step _ hrdreq
    have hw' : (System.step e s).programmer = .writing (System.step e s).cabac.buffer.q := by
      rw [hq]
      simp [System.step, hfree, Programmer.step, hnr, hstart]
    rw [if_pos hfree] at hnext
    refine ⟨?_, ?_⟩
    · unfold Stage
      rw [hnext]
      exact ⟨hm.rdreq, hm.start, Or.inr ⟨rfl, hw'⟩⟩
    · rw [received, if_pos ⟨hfree, hnr, hstart⟩]
  · have hbusy : s.programmer ≠ .free := by rw [hw]; exact nofun
    rw [if_neg hbusy] at hnext
    refine ⟨?_, ?_⟩
    · unfold Stage
      rw [hnext]
      exact ⟨hm.rdreq, rfl, writing_step hrdreq hw⟩
    · rw [received_of_busy hbusy]

/-- The programmer is done with the word, or still busy with it. -/
theorem Stage.step_waitBusy (h : Stage l s) (hclear : Clear e s)
    (hn : s.cabac.nextState = .waitBusy) : PassesOn l e s := by
  simp only [Stage, hn] at h
  obtain ⟨hrdreq, rfl, hp⟩ := h
  have hm : Moves (System.step e s).cabac _ _ _ _ := EthernetCabacBuffer.step_waitBusy hn
  have hnext := nextState_waitBusy (e := e) hn
  unfold PassesOn
  rw [hrdreq, Fifo.taken_false]
  refine ⟨[], ?_⟩
  rcases hp with hfree | hw
  · have hstart : s.cabac.startCabacSpi = false :=
      Bool.eq_false_iff.2 fun hs => hclear.again hn hs hfree
    have hw' : ∀ w, (System.step e s).programmer ≠ .writing w := by
      apply notWriting_step hstart
      rw [hfree]
      exact nofun
    refine ⟨?_, by rw [received_of_not_offered hstart]⟩
    unfold Stage
    rw [hnext, if_pos hfree]
    split_ifs with hempty
    · exact ⟨hm.rdreq, hm.start, rfl, hw', (usedw_of_rdempty hempty).trans (usedw_le_step hrdreq)⟩
    · exact ⟨hm.rdreq, hm.start, rfl, hw'⟩
  · have hbusy : s.programmer ≠ .free := by rw [hw]; exact nofun
    refine ⟨?_, by rw [received_of_busy hbusy]⟩
    unfold Stage
    rw [hnext, if_neg hbusy]
    exact ⟨hm.rdreq, rfl, writing_step hrdreq hw⟩

/-- A word that has been read is offered and received, from edge to edge. -/
theorem Stage.step (h : Stage l s) (hclear : Clear e s)
    (hreset : s.cabac.startCabacResetSpi = true → s.cabac.nextState = .idle) :
    ∃ l', Stage l' (System.step e s) ∧
      l ++ s.cabac.buffer.fifo.taken s.cabac.fifoRdreq = received e s ++ l' := by
  cases hn : s.cabac.nextState with
  | hwReset => exact h.step_idle (.inl hn)
  | idle => exact h.step_idle (.inr (.inl hn))
  | startReset => exact h.step_idle (.inr (.inr hn))
  | readWord => exact h.step_readWord hn
  | startSpi => exact h.step_startSpi hn
  | waitSpi =>
    have hnr : s.cabac.startCabacResetSpi = false :=
      Bool.eq_false_iff.2 fun hr => by cases hn.symm.trans (hreset hr)
    exact h.step_waitSpi hclear hnr hn
  | waitBusy => exact h.step_waitBusy hclear hn

theorem Supplying.step (h : Supplying words got s) (hcap : s.cabac.buffer.usedw ≤ 511)
    (hclear : Clear e s) :
    Supplying (words ++ arrived e s) (got ++ received e s) (System.step e s) := by
  obtain ⟨l, rfl, hstage⟩ := h.words
  obtain ⟨l', hstage', hl'⟩ := hstage.step hclear h.reset
  have hheld : s.cabac.buffer.fifo.taken s.cabac.fifoRdreq ++ (System.step e s).cabac.buffer.held =
      s.cabac.buffer.held ++ arrived e s := by
    have hroom := InputBuffer.held_length_le.trans (Nat.succ_le_succ hcap)
    refine (InputBuffer.taken_append_held _ _ hroom).trans ?_
    unfold arrived
    split_ifs <;> rfl
  refine ⟨⟨l', ?_, hstage'⟩, ?_⟩
  · calc got ++ l ++ s.cabac.buffer.held ++ arrived e s
        = got ++ (l ++ s.cabac.buffer.fifo.taken s.cabac.fifoRdreq) ++
            (System.step e s).cabac.buffer.held := by
          simp only [List.append_assoc, hheld]
      _ = got ++ received e s ++ l' ++ (System.step e s).cabac.buffer.held := by
          simp only [hl', List.append_assoc]
  · intro hr
    exact (step_startReset (resetSpi_iff.1 hr)).nextState

/-- What the programmer receives is as it should be. -/
theorem Supplying.supplies (h : Supplying words got s) : Supplies words got s := by
  obtain ⟨l, rfl, hstage⟩ := h.words
  constructor
  · rw [List.append_assoc]
    exact List.prefix_append _ _
  · intro hrest
    have hempty : s.cabac.buffer.fifo.contents = [] := List.length_eq_zero_iff.1 hrest.words
    simp only [Stage, hrest.idle] at hstage
    rw [hstage.2.2.1, InputBuffer.held_of_wrreq hrest.written, hempty, List.append_nil,
      List.append_nil]
  · intro w hw
    unfold Stage at hstage
    cases hn : s.cabac.nextState with
    | hwReset | idle | startReset =>
      simp only [hn] at hstage
      exact absurd hw (hstage.2.2.2 w)
    | readWord | startSpi =>
      simp only [hn] at hstage
      exact absurd hw (hstage.2.2.2.1 w)
    | waitSpi =>
      simp only [hn] at hstage
      rcases hstage.2.2 with ⟨-, hnot⟩ | ⟨-, hw'⟩
      · exact absurd hw (hnot w)
      · rw [hw'] at hw
        injection hw
    | waitBusy =>
      simp only [hn] at hstage
      rcases hstage.2.2 with hfree | hw'
      · rw [hfree] at hw
        cases hw
      · rw [hw'] at hw
        injection hw

theorem supplying_run
    (hcap : Along System.step (fun _ s => s.cabac.buffer.usedw ≤ 511) .initial es)
    (hclear : Along System.step Clear .initial es) :
    Supplying (log System.step arrived .initial es) (log System.step received .initial es)
      (run System.step .initial es) :=
  log₂_invariant System.step (R := fun e s => s.cabac.buffer.usedw ≤ 511 ∧ Clear e s)
    supplying_initial (fun _ _ _ _ hR h => h.step hR.1 hR.2) (hcap.and System.step hclear)

/-! ## Resets -/

/-- A reset is raised at the edge after `START_RESET`, and `START_RESET` comes at the edge
    after a pulse has begun. -/
theorem startReset_iff_pulse (hclear : Clear e s) :
    (System.step e s).cabac.nextState = .startReset ↔ Pulse e s := by
  refine startReset_iff.trans ⟨fun h => ⟨h.2, (hclear.pulse h.2).2 h.1⟩, fun h => ?_⟩
  exact ⟨(hclear.pulse h.1).1 h.2, h.1⟩

/-- A reset is taken at an edge exactly if a pulse began two edges before. -/
theorem reset_taken_iff {js : List Edge} (hclear : Along System.step Clear .initial (js ++ [e])) :
    TakesReset (run System.step .initial js) ↔
      ∃ ls i j, js = ls ++ [i, j] ∧ Pulse i (run System.step .initial ls) := by
  rw [along_concat] at hclear
  have hlast : TakesReset (run System.step .initial js) ↔
      (run System.step .initial js).cabac.startCabacResetSpi = true :=
    ⟨And.right, fun h => ⟨hclear.2.raised h, h⟩⟩
  have hraised : (run System.step .initial js).cabac.startCabacResetSpi = true ↔
      ∃ js' j, js = js' ++ [j] ∧ (run System.step .initial js').cabac.nextState = .startReset :=
    run_iff_last System.step (P := fun s => s.cabac.startCabacResetSpi = true) (by decide)
      (fun _ _ _ => resetSpi_iff) hclear.1
  rw [hlast, hraised]
  constructor
  · rintro ⟨js', j, rfl, hstart⟩
    have hbegan : ∃ ls i, js' = ls ++ [i] ∧ Pulse i (run System.step .initial ls) :=
      (run_iff_last System.step (P := fun s => s.cabac.nextState = .startReset) (by decide)
        (fun _ _ => startReset_iff_pulse) (hclear.1.of_isPrefix System.step)).1 hstart
    obtain ⟨ls, i, rfl, hpulse⟩ := hbegan
    exact ⟨ls, i, j, by rw [List.append_assoc]; rfl, hpulse⟩
  · rintro ⟨ls, i, j, rfl, hpulse⟩
    refine ⟨ls ++ [i], j, by rw [List.append_assoc]; rfl, ?_⟩
    rw [run_concat]
    refine (startReset_iff_pulse ?_).2 hpulse
    have hi := hclear.1
    rw [along_append] at hi
    exact hi.2.1

/-! ## Termination -/

/-- The number of edges after which the block is at rest if nothing comes in, those at
    which the programmer stays busy not counted. -/
def remaining (s : System) : ℕ :=
  match s.cabac.nextState with
  | .hwReset | .startReset => 12 * s.cabac.buffer.usedw + 3
  | .idle =>
    12 * s.cabac.buffer.usedw +
      if s.cabac.startCabacResetSpi then 2 else if s.programmer = .free then 0 else 1
  | .readWord => 12 * (s.cabac.buffer.usedw - 1) + 10
  | .startSpi => 12 * (s.cabac.buffer.usedw - 1) + 9
  | .waitSpi => 12 * s.cabac.buffer.usedw + if s.programmer = .free then 8 else 7
  | .waitBusy =>
    12 * s.cabac.buffer.usedw +
      if s.cabac.startCabacSpi then 6 else if s.programmer = .free then 4 else 5

theorem remaining_lt (s : System) : remaining s < 6200 := by
  have hbounded : s.cabac.buffer.usedw ≤ 512 := s.cabac.buffer.fifo.bounded
  unfold remaining
  split <;> (try split_ifs) <;> omega

theorem Supplying.noReset (h : Supplying words got s) (hn : s.cabac.nextState ≠ .idle) :
    s.cabac.startCabacResetSpi = false :=
  Bool.eq_false_iff.2 fun hr => hn (h.reset hr)

theorem wrreq_calm (he : Calm e) : (System.step e s).cabac.buffer.wrreq = false := he.1

theorem Supplying.rest_step (h : Supplying words got s) (hrest : AtRest s) (he : Calm e) :
    AtRest (System.step e s) := by
  obtain ⟨l, -, hstage⟩ := h.words
  simp only [Stage, hrest.idle] at hstage
  have husedw : (System.step e s).cabac.buffer.usedw = _ :=
    InputBuffer.usedw_clock _ _ hrest.written
  rw [hstage.1, if_neg Bool.false_ne_true] at husedw
  have hm : Moves (System.step e s).cabac _ _ _ _ := step_idle hrest.idle
  have hempty : rdempty s.cabac = true := by simpa [rdempty] using hrest.words
  refine ⟨?_, ?_, hm.reset, husedw.trans hrest.words, wrreq_calm he⟩
  · rw [hm.nextState]
    simp [System.input, he.2, hempty]
  · simp [System.step, hrest.free, Programmer.step, hrest.reset, hstage.2.1]

/-- The edges that remain get fewer unless the programmer stays busy. -/
def Falls (e : Edge) (s : System) : Prop :=
  remaining (System.step e s) ≤ remaining s ∧
    (e.stays = false → remaining (System.step e s) < remaining s)

theorem falls_of_lt (h : remaining (System.step e s) < remaining s) : Falls e s :=
  ⟨h.le, fun _ => h⟩

/-- In `IDLE` a word is read, or a reset is taken or under way. -/
theorem Supplying.falls_idle (h : Supplying words got s) (hwrreq : s.cabac.buffer.wrreq = false)
    (he : Calm e) (hrest : ¬AtRest s) (hn : s.cabac.nextState = .idle) : Falls e s := by
  have husedw : (System.step e s).cabac.buffer.usedw = _ := InputBuffer.usedw_clock _ _ hwrreq
  obtain ⟨l, -, hstage⟩ := h.words
  simp only [Stage, hn] at hstage
  obtain ⟨hrdreq, hstart, -, hw⟩ := hstage
  have hm : Moves (System.step e s).cabac _ _ _ _ := step_idle hn
  have hnext : (System.step e s).cabac.nextState =
      if rdempty s.cabac = false then .readWord else .idle := by
    rw [hm.nextState]
    simp [System.input, he.2]
  rw [hrdreq, if_neg Bool.false_ne_true] at husedw
  by_cases hempty : rdempty s.cabac = false
  · rw [if_pos hempty] at hnext
    have hone := usedw_of_rdempty hempty
    apply falls_of_lt
    simp only [remaining, hnext, hn, husedw]
    omega
  · rw [if_neg hempty] at hnext
    simp only [Falls, remaining, hnext, hm.reset, hn, husedw, if_neg Bool.false_ne_true]
    by_cases hr : s.cabac.startCabacResetSpi = true
    · rw [if_pos hr]
      split_ifs <;> omega
    · rw [if_neg hr]
      cases hp : s.programmer with
      | free =>
        have hzero : s.cabac.buffer.usedw = 0 := by simpa [rdempty] using hempty
        exact absurd ⟨hn, hp, by simpa using hr, hzero, hwrreq⟩ hrest
      | writing w => exact absurd hp (hw w)
      | resetting =>
        cases hstays : e.stays <;> simp [System.step, hp, Programmer.step, hstays]

theorem Supplying.falls_waitSpi (h : Supplying words got s)
    (hwrreq : s.cabac.buffer.wrreq = false) (hn : s.cabac.nextState = .waitSpi) : Falls e s := by
  have husedw : (System.step e s).cabac.buffer.usedw = _ := InputBuffer.usedw_clock _ _ hwrreq
  obtain ⟨l, -, hstage⟩ := h.words
  simp only [Stage, hn] at hstage
  obtain ⟨hrdreq, hstart, -⟩ := hstage
  have hnr := h.noReset (by rw [hn]; exact nofun)
  have hm : Moves (System.step e s).cabac _ _ _ _ := step_waitSpi hn
  have hnext := nextState_waitSpi (e := e) hn
  rw [hrdreq, if_neg Bool.false_ne_true] at husedw
  apply falls_of_lt
  by_cases hfree : s.programmer = .free
  · have hbusy : (System.step e s).programmer ≠ .free := by
      simp [System.step, hfree, Programmer.step, hnr, hstart]
    rw [if_pos hfree] at hnext
    simp only [remaining, hnext, hn, husedw, if_pos hfree, if_neg hbusy]
    omega
  · rw [if_neg hfree] at hnext
    simp only [remaining, hnext, hm.start, hn, husedw, if_neg hfree, if_pos]
    omega

theorem Supplying.falls_waitBusy (h : Supplying words got s) (hclear : Clear e s)
    (hwrreq : s.cabac.buffer.wrreq = false) (hn : s.cabac.nextState = .waitBusy) : Falls e s := by
  have husedw : (System.step e s).cabac.buffer.usedw = _ := InputBuffer.usedw_clock _ _ hwrreq
  obtain ⟨l, -, hstage⟩ := h.words
  simp only [Stage, hn] at hstage
  obtain ⟨hrdreq, -, hp⟩ := hstage
  have hm : Moves (System.step e s).cabac _ _ _ _ := step_waitBusy hn
  have hnext := nextState_waitBusy (e := e) hn
  rw [hrdreq, if_neg Bool.false_ne_true] at husedw
  by_cases hfree : s.programmer = .free
  · have hstart : s.cabac.startCabacSpi = false :=
      Bool.eq_false_iff.2 fun hs => hclear.again hn hs hfree
    have hnr := h.noReset (by rw [hn]; exact nofun)
    have hfree' : (System.step e s).programmer = .free := by
      simp [System.step, hfree, Programmer.step, hnr, hstart]
    rw [if_pos hfree] at hnext
    apply falls_of_lt
    by_cases hempty : rdempty s.cabac = false
    · have hone := usedw_of_rdempty hempty
      rw [if_pos hempty] at hnext
      simp only [remaining, hnext, hn, husedw, hstart, hfree, if_neg Bool.false_ne_true, if_pos]
      omega
    · rw [if_neg hempty] at hnext
      simp [remaining, hnext, hm.reset, hn, husedw, hstart, hfree, hfree']
  · rw [if_neg hfree] at hnext
    simp only [Falls, remaining, hnext, hm.start, hn, husedw, if_neg hfree,
      if_neg Bool.false_ne_true]
    by_cases hs : s.cabac.startCabacSpi = true
    · rw [if_pos hs]
      split_ifs <;> omega
    · rw [if_neg hs]
      have hw := hp.resolve_left hfree
      cases hstays : e.stays <;> simp [System.step, hw, Programmer.step, hstays]

theorem Supplying.remaining_step (h : Supplying words got s) (hclear : Clear e s)
    (hwrreq : s.cabac.buffer.wrreq = false) (he : Calm e) (hrest : ¬AtRest s) :
    remaining (System.step e s) ≤ remaining s ∧
      (e.stays = false → remaining (System.step e s) < remaining s) := by
  have husedw : (System.step e s).cabac.buffer.usedw = _ := InputBuffer.usedw_clock _ _ hwrreq
  obtain ⟨l, -, hstage⟩ := h.words
  unfold Stage at hstage
  cases hn : s.cabac.nextState with
  | hwReset =>
    simp only [hn] at hstage
    have hm : Moves (System.step e s).cabac _ _ _ _ := step_hwReset hn
    rw [hstage.1, if_neg Bool.false_ne_true] at husedw
    apply falls_of_lt
    simp only [remaining, hm.nextState, hm.reset, hn, husedw]
    split_ifs <;> omega
  | idle => exact h.falls_idle hwrreq he hrest hn
  | startReset =>
    simp only [hn] at hstage
    have hm : Moves (System.step e s).cabac _ _ _ _ := step_startReset hn
    rw [hstage.1, if_neg Bool.false_ne_true] at husedw
    apply falls_of_lt
    simp only [remaining, hm.nextState, hm.reset, hn, husedw, if_pos]
    omega
  | readWord =>
    simp only [hn] at hstage
    have hm : Moves (System.step e s).cabac _ _ _ _ := step_readWord hn
    rw [hstage.1, if_neg Bool.false_ne_true] at husedw
    apply falls_of_lt
    simp only [remaining, hm.nextState, hn, husedw]
    omega
  | startSpi =>
    simp only [hn] at hstage
    have hm : Moves (System.step e s).cabac _ _ _ _ := step_startSpi hn
    rw [hstage.1, if_pos rfl] at husedw
    apply falls_of_lt
    simp only [remaining, hm.nextState, hn, husedw]
    split_ifs <;> omega
  | waitSpi => exact h.falls_waitSpi hwrreq hn
  | waitBusy => exact h.falls_waitBusy hclear hwrreq hn

/-- With nothing coming in the block comes to rest. -/
theorem Supplying.rests (h : Supplying words got s) {ks : List Edge}
    (hcap : Along System.step (fun _ s => s.cabac.buffer.usedw ≤ 511) s ks)
    (hclear : Along System.step Clear s ks) (hcalm : ∀ e ∈ ks, Calm e)
    (hcount : 6201 ≤ ks.countP (!·.stays)) : AtRest (run System.step s ks) := by
  have hR := (hcap.and System.step hclear).and System.step (along_of_forall System.step hcalm)
  refine run_settles System.step (K := fun s => s.cabac.buffer.wrreq = false) (P := AtRest)
    (J := fun s => ∃ words got, Supplying words got s) remaining (!·.stays) remaining_lt
    ⟨words, got, h⟩ ?_ ?_ ?_ hR hcount
  · rintro e s ⟨⟨hcap, hclear⟩, he⟩ ⟨words, got, h⟩
    exact ⟨⟨_, _, h.step (e := e) hcap hclear⟩, wrreq_calm he⟩
  · rintro e s ⟨-, he⟩ ⟨words, got, h⟩ - hrest
    exact h.rest_step hrest he
  · rintro e s ⟨⟨-, hclear⟩, he⟩ ⟨words, got, h⟩ hwrreq hrest
    simpa using h.remaining_step hclear hwrreq he hrest

end

/-! ## Runs -/

/-- Along clear edges the programmer receives the words as it should, all of them once the
    block has had the time, and takes one reset for each pulse of `reset_cabac`. -/
theorem cabac_programmed (es : List Edge)
    (hcap : Along System.step (fun _ s => s.cabac.buffer.usedw ≤ 511) .initial es)
    (hclear : Along System.step Clear .initial es) :
    (∀ js e, js ++ [e] <+: es →
      Supplies (log System.step arrived .initial js) (log System.step received .initial js)
        (run System.step .initial js) ∧
      (TakesReset (run System.step .initial js) ↔
        ∃ ls i j, js = ls ++ [i, j] ∧ Pulse i (run System.step .initial ls))) ∧
    (∀ js ks, es = js ++ ks → (∀ e ∈ ks, Calm e) → 6201 ≤ ks.countP (!·.stays) →
      log System.step received .initial es = log System.step arrived .initial es) := by
  constructor
  · rintro js e ⟨ks, rfl⟩
    have hcap := (hcap.of_isPrefix System.step).of_isPrefix System.step
    have hclear := hclear.of_isPrefix System.step
    exact ⟨(supplying_run hcap (hclear.of_isPrefix System.step)).supplies, reset_taken_iff hclear⟩
  · rintro js ks rfl hcalm hcount
    have hend := supplying_run hcap hclear
    have hrest : AtRest (run System.step .initial (js ++ ks)) := by
      rw [along_append] at hcap hclear
      rw [run_append]
      exact (supplying_run hcap.1 hclear.1).rests hcap.2 hclear.2 hcalm hcount
    exact hend.supplies.all hrest

/-- `n` edges at which nothing comes in. -/
def quiet (n : ℕ) (stays : Bool) : List Edge := List.replicate n ⟨0, 0, false, false, stays⟩

/-- A pulse in `IDLE`, and a word that waits for the programmer to be done with it. -/
def pulseThenWord : List Edge :=
  quiet 1 true ++ [⟨0, 0, false, true, true⟩] ++ quiet 1 true ++
    [⟨7, udpPortCabacProg, true, false, true⟩] ++ quiet 1 true ++ quiet 1 false ++ quiet 8 true ++
    quiet 4 false

theorem cabac_programmed_pulseThenWord :
    Along System.step (fun _ s => s.cabac.buffer.usedw ≤ 511) .initial pulseThenWord ∧
      Along System.step Clear .initial pulseThenWord ∧
      ∀ js e, js ++ [e] <+: pulseThenWord →
        Supplies (log System.step arrived .initial js) (log System.step received .initial js)
          (run System.step .initial js) ∧
        (TakesReset (run System.step .initial js) ↔
          ∃ ls i j, js = ls ++ [i, j] ∧ Pulse i (run System.step .initial ls)) := by
  have hcap : Along System.step (fun _ s => s.cabac.buffer.usedw ≤ 511) .initial pulseThenWord := by
    decide +kernel
  have hclear : Along System.step Clear .initial pulseThenWord := by decide +kernel
  exact ⟨hcap, hclear, (cabac_programmed _ hcap hclear).1⟩

/-- The edges before a pulse that comes while the programmer is busy with a word. -/
def wordBeforePulse : List Edge :=
  quiet 1 true ++ [⟨7, udpPortCabacProg, true, false, true⟩] ++ quiet 8 true

/-- The pulse, and the edges until the block is at rest. -/
def pulseWhileBusy : List Edge := [⟨0, 0, false, true, true⟩] ++ quiet 4 true ++ quiet 4 false

/-- The pulse is lost: no reset is taken until the block is at rest. -/
theorem reset_pulse_lost :
    Along System.step (fun _ s => s.cabac.buffer.usedw ≤ 511) .initial
        (wordBeforePulse ++ pulseWhileBusy) ∧
      (∃ e, pulseWhileBusy.head? = some e ∧ Pulse e (run System.step .initial wordBeforePulse)) ∧
      Along System.step (fun _ s => ¬TakesReset s) .initial (wordBeforePulse ++ pulseWhileBusy) ∧
      AtRest (run System.step .initial (wordBeforePulse ++ pulseWhileBusy)) := by
  refine ⟨by decide +kernel, ⟨_, rfl, by decide +kernel, by decide +kernel⟩, by decide +kernel, ?_⟩
  constructor <;> decide +kernel

end FpgaEthernet.EthernetCabacBuffer
