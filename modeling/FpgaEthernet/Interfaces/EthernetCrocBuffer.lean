import FpgaEthernet.Clocked.InputBuffer
import FpgaEthernet.Interfaces.EthernetCcdcontrolInterface

/-!
# `ethernet_croc_buffer`

Model of `interfaces/ethernet_croc_buffer.vhd`, and the block together with a
programmer. The programmer takes a request it sees when it is free, becomes busy one
or two edges later, and stays so for as long as it likes.

`WRITE_REGISTER` raises the request and goes to `IDLE`, which looks at `crocprog_busy`
at the edge at which the programmer sees the request: it is not busy yet.

Main results:

* `Programming.step`: no word is lost, doubled or moved, as long as no transfer begins
  before a request has been answered.
* `croc_programmed`: what the programmer receives along such a run.
-/

namespace FpgaEthernet.EthernetCrocBuffer

open Clocked
open EthernetCcdcontrolInterface (udpPortCrocProg)

/-! ## Model -/

/-- `state_type` (`ethernet_croc_buffer.vhd` line 86). -/
inductive StateType
  | hwReset
  | idle
  | startFifoRead
  | waitFifo
  | loadRegister
  | writeRegister
  | crocReadback
  deriving DecidableEq

/-- The 96 bits of `reg96b_crocspi`, the low word first. -/
structure Reg96b where
  low : Word
  mid : Word
  high : Word
  deriving DecidableEq

def Reg96b.bits (r : Reg96b) : BitVec 96 := (r.high ++ r.mid ++ r.low : BitVec 96)

/-- The assignment to bits `32 * n` to `32 * n - 31` (line 159). -/
def Reg96b.load (n : ℕ) (w : Word) (r : Reg96b) : Reg96b :=
  if n = 1 then { r with low := w } else if n = 2 then { r with mid := w } else r

/-- The input ports that are read (lines 43-57). -/
structure Input where
  ethDataIn : Word
  ethDataPort : UdpPort
  ethDataValid : Bool
  crocprogBusy : Bool
  deriving DecidableEq

/-- `fifo_wrreq`, `fifo_data`, the FIFO and `fifo_q`, the other registers and the variable
    `words_read`. -/
structure State where
  buffer : InputBuffer Word 512
  fifoRdreq : Bool
  nextState : StateType
  wordsRead : ℕ
  reg96bCrocspi : Reg96b
  writeCrocReq : Bool

/-- The registers when `reset` is released after power-up. -/
def initial : State where
  buffer := ⟨false, 0, .empty, 0⟩
  fifoRdreq := false
  nextState := .hwReset
  wordsRead := 0
  reg96bCrocspi := ⟨0, 0, 0⟩
  writeCrocReq := false

/-- A word for the CROC is on the input (line 114). -/
def Input.forCroc (i : Input) : Bool := i.ethDataValid && i.ethDataPort = udpPortCrocProg

/-- `fifo_rdusedw`, which has 9 bits. -/
def rdusedw (s : State) : ℕ := s.buffer.usedw % 512

/-- `fifo_writer` (lines 110-122) and the FIFO. -/
def fifoWriter (i : Input) (s : State) : InputBuffer Word 512 :=
  s.buffer.clock s.fifoRdreq i.forCroc (if i.forCroc then i.ethDataIn else 0)

/-- `croc_writer_state_machine` (lines 129-182). -/
def crocWriterStateMachine (i : Input) (s : State) : State :=
  let d := { s with writeCrocReq := false, fifoRdreq := false }
  match s.nextState with
  | .hwReset => { d with nextState := .idle }
  | .idle =>
    if 3 ≤ rdusedw s ∧ i.crocprogBusy = false then
      { d with nextState := .startFifoRead, wordsRead := 0 }
    else { d with nextState := .idle }
  | .startFifoRead => { d with fifoRdreq := true, nextState := .waitFifo }
  | .waitFifo => { d with fifoRdreq := true, nextState := .loadRegister }
  | .loadRegister =>
    let d := { d with
      wordsRead := s.wordsRead + 1
      reg96bCrocspi := s.reg96bCrocspi.load (s.wordsRead + 1) s.buffer.q }
    if 2 ≤ s.wordsRead + 1 then { d with nextState := .writeRegister, fifoRdreq := false }
    else { d with fifoRdreq := true }
  | .writeRegister =>
    { d with
      reg96bCrocspi := { s.reg96bCrocspi with high := s.buffer.q }
      writeCrocReq := true
      nextState := .idle
      fifoRdreq := false }
  | .crocReadback => { d with nextState := .idle }

/-- One edge of `clock`. -/
def step (i : Input) (s : State) : State :=
  { crocWriterStateMachine i s with buffer := fifoWriter i s }

/-! ## Programmer -/

/-- A programmer: free, asked and not busy yet, or busy. -/
inductive Programmer
  | free
  | asked
  | busy
  deriving DecidableEq

/-- The word on the input, whether the programmer takes an edge more to become busy,
    and whether it stays busy. -/
structure Edge where
  data : Word
  port : UdpPort
  valid : Bool
  late : Bool
  stays : Bool
  deriving DecidableEq

def Programmer.step (e : Edge) (request : Bool) : Programmer → Programmer
  | free => if request then if e.late then asked else busy else free
  | asked => busy
  | busy => if e.stays then busy else free

/-- The block and its programmer. -/
structure System where
  croc : State
  programmer : Programmer

def System.input (e : Edge) (s : System) : Input :=
  ⟨e.data, e.port, e.valid, s.programmer = .busy⟩

def System.step (e : Edge) (s : System) : System where
  croc := EthernetCrocBuffer.step (s.input e) s.croc
  programmer := s.programmer.step e s.croc.writeCrocReq

def System.initial : System := ⟨EthernetCrocBuffer.initial, .free⟩

/-! ## Specification -/

/-- The words that come in for the CROC. -/
def arrived (e : Edge) (s : System) : List Word :=
  if (s.input e).forCroc then [e.data] else []

/-- The bits the programmer takes. -/
def received (_ : Edge) (s : System) : List (BitVec 96) :=
  if s.programmer = .free ∧ s.croc.writeCrocReq = true then [s.croc.reg96bCrocspi.bits] else []

/-- Three words after another, packed with the first the lowest. -/
def triples : List Word → List (BitVec 96)
  | a :: b :: c :: l => Reg96b.bits ⟨a, b, c⟩ :: triples l
  | _ => []

/-- A transfer begins though the last request has not been answered. -/
def Early (s : System) : Prop :=
  s.croc.nextState = .idle ∧ 3 ≤ rdusedw s.croc ∧
    (s.programmer = .free ∧ s.croc.writeCrocReq = true ∨ s.programmer = .asked)

instance (s : System) : Decidable (Early s) := inferInstanceAs (Decidable (_ ∧ _ ∧ _))

/-- No word comes in for the CROC. -/
def Calm (e : Edge) : Prop := (e.valid && e.port = udpPortCrocProg) = false

instance (e : Edge) : Decidable (Calm e) := inferInstanceAs (Decidable (_ = _))

/-- Nothing is under way, and fewer than three words are left. -/
structure AtRest (s : System) : Prop where
  idle : s.croc.nextState = .idle
  free : s.programmer = .free
  request : s.croc.writeCrocReq = false
  words : s.croc.buffer.usedw < 3
  written : s.croc.buffer.wrreq = false

/-- The request is never up while the programmer is busy, the register stays as it is
    from a request until busy has fallen, and the programmer has received the first
    triples, all of them at rest. -/
structure Programs (words : List Word) (got : List (BitVec 96)) (e : Edge) (s : System) : Prop where
  request : s.croc.writeCrocReq = true → s.programmer ≠ .busy
  stable : s.croc.writeCrocReq = true ∨ s.programmer ≠ .free →
    (System.step e s).croc.reg96bCrocspi = s.croc.reg96bCrocspi
  order : got <+: triples words
  all : AtRest s → got = triples words

/-! ## Triples -/

theorem triples_append : ∀ (l l' : List Word), 3 ∣ l.length →
    triples (l ++ l') = triples l ++ triples l'
  | [], _, _ => rfl
  | [_], _, h => by
    rw [List.length_singleton] at h
    omega
  | [_, _], _, h => by
    rw [List.length_cons, List.length_singleton] at h
    omega
  | a :: b :: c :: l, l', h => by
    have hl : 3 ∣ l.length := by
      simp only [List.length_cons] at h
      omega
    rw [List.cons_append, List.cons_append, List.cons_append, triples, triples,
      triples_append l l' hl, List.cons_append]

theorem triples_of_short {l : List Word} (h : l.length < 3) : triples l = [] := by
  match l, h with
  | [], _ => rfl
  | [_], _ => rfl
  | [_, _], _ => rfl
  | _ :: _ :: _ :: _, h =>
    simp only [List.length_cons] at h
    omega

/-! ## A transfer -/

section

variable {i : Input} {s : State} {l : List Word}

/-- What has been asked for is in the FIFO: `l` are the words that have been read and not
    been asked to be written. -/
def Stage (l : List Word) (s : State) : Prop :=
  match s.nextState with
  | .hwReset | .idle => s.fifoRdreq = false ∧ l = []
  | .startFifoRead =>
    s.fifoRdreq = false ∧ l = [] ∧ 3 ≤ s.buffer.usedw ∧ s.wordsRead = 0
  | .waitFifo => s.fifoRdreq = true ∧ l = [] ∧ 3 ≤ s.buffer.usedw ∧ s.wordsRead = 0
  | .loadRegister =>
    s.fifoRdreq = true ∧
      (s.wordsRead = 0 ∧ l = [s.buffer.q] ∧ 2 ≤ s.buffer.usedw ∨
        s.wordsRead = 1 ∧ l = [s.reg96bCrocspi.low, s.buffer.q] ∧ 1 ≤ s.buffer.usedw)
  | .writeRegister =>
    s.fifoRdreq = false ∧ l = [s.reg96bCrocspi.low, s.reg96bCrocspi.mid, s.buffer.q]
  | .crocReadback => False

/-- A read shows the word it takes. -/
theorem taken_step (i : Input) (hr : s.fifoRdreq = true) (h : 1 ≤ s.buffer.usedw) :
    s.buffer.fifo.taken s.fifoRdreq = [(step i s).buffer.q] := by
  unfold step fifoWriter
  rw [hr]
  exact InputBuffer.taken_eq_q _ _ h

/-- What an edge does to the registers of the machine. -/
structure Moves (s' : State) (n : StateType) (rdreq : Bool) (wordsRead : ℕ) (reg : Reg96b)
    (req : Bool) : Prop where
  nextState : s'.nextState = n
  rdreq : s'.fifoRdreq = rdreq
  wordsRead : s'.wordsRead = wordsRead
  reg : s'.reg96bCrocspi = reg
  req : s'.writeCrocReq = req

theorem step_hwReset (hs : s.nextState = .hwReset) :
    Moves (step i s) .idle false s.wordsRead s.reg96bCrocspi false := by
  constructor <;> simp [step, crocWriterStateMachine, hs]

theorem step_idle_stays (hs : s.nextState = .idle) (h : ¬(3 ≤ rdusedw s ∧ i.crocprogBusy = false)) :
    Moves (step i s) .idle false s.wordsRead s.reg96bCrocspi false := by
  constructor <;> simp only [step, crocWriterStateMachine, hs, if_neg h]

theorem step_idle_starts (hs : s.nextState = .idle) (h : 3 ≤ rdusedw s ∧ i.crocprogBusy = false) :
    Moves (step i s) .startFifoRead false 0 s.reg96bCrocspi false := by
  constructor <;> simp only [step, crocWriterStateMachine, hs, if_pos h]

theorem step_startFifoRead (hs : s.nextState = .startFifoRead) :
    Moves (step i s) .waitFifo true s.wordsRead s.reg96bCrocspi false := by
  constructor <;> simp [step, crocWriterStateMachine, hs]

theorem step_waitFifo (hs : s.nextState = .waitFifo) :
    Moves (step i s) .loadRegister true s.wordsRead s.reg96bCrocspi false := by
  constructor <;> simp [step, crocWriterStateMachine, hs]

theorem step_loadRegister_first (hs : s.nextState = .loadRegister) (hw : s.wordsRead = 0) :
    Moves (step i s) .loadRegister true 1 { s.reg96bCrocspi with low := s.buffer.q } false := by
  constructor <;> simp [step, crocWriterStateMachine, hs, hw, Reg96b.load]

theorem step_loadRegister_second (hs : s.nextState = .loadRegister) (hw : s.wordsRead = 1) :
    Moves (step i s) .writeRegister false 2 { s.reg96bCrocspi with mid := s.buffer.q } false := by
  constructor <;> simp [step, crocWriterStateMachine, hs, hw, Reg96b.load]

theorem step_writeRegister (hs : s.nextState = .writeRegister) :
    Moves (step i s) .idle false s.wordsRead { s.reg96bCrocspi with high := s.buffer.q } true := by
  constructor <;> simp [step, crocWriterStateMachine, hs]

/-- The words that have been read, from edge to edge. -/
theorem Stage.step (h : Stage l s) (hs : s.nextState ≠ .writeRegister) :
    Stage (l ++ s.buffer.fifo.taken s.fifoRdreq) (EthernetCrocBuffer.step i s) ∧
      (EthernetCrocBuffer.step i s).writeCrocReq = false := by
  have husedw : (if s.fifoRdreq then s.buffer.usedw - 1 else s.buffer.usedw) ≤
      (EthernetCrocBuffer.step i s).buffer.usedw := InputBuffer.usedw_clock_le _ _
  unfold Stage at h
  cases hn : s.nextState with
  | hwReset =>
    simp only [hn] at h
    have hm := step_hwReset (i := i) hn
    simp [Stage, hm.nextState, hm.rdreq, hm.req, h]
  | idle =>
    simp only [hn] at h
    by_cases hstarts : 3 ≤ rdusedw s ∧ i.crocprogBusy = false
    · have hm := step_idle_starts hn hstarts
      have hthree : 3 ≤ (EthernetCrocBuffer.step i s).buffer.usedw := by
        have hmod := Nat.mod_le s.buffer.usedw 512
        rw [h.1, if_neg Bool.false_ne_true] at husedw
        exact (hstarts.1.trans hmod).trans husedw
      simp [Stage, hm.nextState, hm.rdreq, hm.wordsRead, hm.req, h, hthree]
    · have hm := step_idle_stays hn hstarts
      simp [Stage, hm.nextState, hm.rdreq, hm.req, h]
  | startFifoRead =>
    simp only [hn] at h
    obtain ⟨hrdreq, rfl, hthree, hw⟩ := h
    rw [hrdreq, if_neg Bool.false_ne_true] at husedw
    have hm := step_startFifoRead (i := i) hn
    simp [Stage, hm.nextState, hm.rdreq, hm.wordsRead, hm.req, hrdreq, hw, hthree.trans husedw]
  | waitFifo =>
    simp only [hn] at h
    obtain ⟨hrdreq, rfl, hthree, hw⟩ := h
    have htaken := taken_step (s := s) i hrdreq (by omega)
    rw [hrdreq, if_pos rfl] at husedw
    have hm := step_waitFifo (i := i) hn
    simp only [Stage, hm.nextState, hm.rdreq, hm.wordsRead, hm.req, htaken, hw]
    exact ⟨⟨trivial, Or.inl ⟨trivial, rfl, by omega⟩⟩, trivial⟩
  | loadRegister =>
    simp only [hn] at h
    obtain ⟨hrdreq, ⟨hw, rfl, htwo⟩ | ⟨hw, rfl, hone⟩⟩ := h
    · have htaken := taken_step (s := s) i hrdreq (by omega)
      rw [hrdreq, if_pos rfl] at husedw
      have hm := step_loadRegister_first (i := i) hn hw
      simp only [Stage, hm.nextState, hm.rdreq, hm.wordsRead, hm.req, hm.reg, htaken]
      exact ⟨⟨trivial, Or.inr ⟨trivial, rfl, by omega⟩⟩, trivial⟩
    · have htaken := taken_step (s := s) i hrdreq hone
      have hm := step_loadRegister_second (i := i) hn hw
      simp only [Stage, hm.nextState, hm.rdreq, hm.req, hm.reg, htaken]
      exact ⟨⟨trivial, rfl⟩, trivial⟩
  | writeRegister => exact absurd hn hs
  | crocReadback => simp only [hn] at h

end

/-! ## With a programmer -/

section

variable {e : Edge} {s : System} {words : List Word} {got : List (BitVec 96)} {es : List Edge}

/-- The bits the programmer is asked to take. -/
def asked (s : State) : List (BitVec 96) := if s.writeCrocReq then [s.reg96bCrocspi.bits] else []

/-- The words that have come in are those of the triples received or asked for, those
    that have been read since, and those in the FIFO. While the programmer is at work
    the machine is in `IDLE`. -/
structure Programming (words : List Word) (got : List (BitVec 96)) (s : System) : Prop where
  words : ∃ used l, words = used ++ l ++ s.croc.buffer.held ∧
    3 ∣ used.length ∧ triples used = got ++ asked s.croc ∧ Stage l s.croc
  request : s.croc.writeCrocReq = true → s.programmer = .free
  idle : s.croc.writeCrocReq = true ∨ s.programmer ≠ .free → s.croc.nextState = .idle

theorem programming_initial : Programming [] [] System.initial where
  words := ⟨[], [], rfl, dvd_zero 3, rfl, rfl, rfl⟩
  request h := by cases h
  idle h := by
    rcases h with h | h
    · cases h
    · exact absurd rfl h

theorem Programming.received (h : Programming words got s) : received e s = asked s.croc := by
  unfold EthernetCrocBuffer.received asked
  by_cases hreq : s.croc.writeCrocReq = true
  · rw [if_pos ⟨h.request hreq, hreq⟩, if_pos hreq]
  · rw [if_neg fun hr => hreq hr.2, if_neg hreq]

/-- While the programmer is at work no transfer begins. -/
theorem Programming.waits (h : Programming words got s) (hearly : ¬Early s)
    (hwork : s.croc.writeCrocReq = true ∨ s.programmer ≠ .free) :
    Moves (System.step e s).croc .idle false s.croc.wordsRead s.croc.reg96bCrocspi false := by
  have hidle := h.idle hwork
  apply step_idle_stays hidle
  rintro ⟨hthree, hbusy⟩
  have hbusy : s.programmer ≠ .busy := by simpa [System.input] using hbusy
  refine hearly ⟨hidle, hthree, ?_⟩
  cases hp : s.programmer with
  | free => exact Or.inl ⟨rfl, hwork.resolve_right (not_not.2 hp)⟩
  | asked => exact Or.inr rfl
  | busy => exact absurd hp hbusy

theorem Programming.step (h : Programming words got s) (hcap : s.croc.buffer.usedw ≤ 511)
    (hearly : ¬Early s) :
    Programming (words ++ arrived e s) (got ++ EthernetCrocBuffer.received e s)
      (System.step e s) := by
  rw [h.received]
  obtain ⟨used, l, rfl, hdvd, htriples, hstage⟩ := h.words
  have hfifo : s.croc.buffer.fifo.taken s.croc.fifoRdreq ++ (System.step e s).croc.buffer.held =
      s.croc.buffer.held ++ arrived e s := by
    have hroom := InputBuffer.held_length_le.trans (Nat.succ_le_succ hcap)
    refine (InputBuffer.taken_append_held _ _ hroom).trans ?_
    unfold arrived
    split_ifs <;> rfl
  have hwords : ∀ l', l' = l ++ s.croc.buffer.fifo.taken s.croc.fifoRdreq →
      used ++ l ++ s.croc.buffer.held ++ arrived e s =
        used ++ l' ++ (System.step e s).croc.buffer.held := by
    rintro l' rfl
    simp only [List.append_assoc, hfifo]
  by_cases hwork : s.croc.writeCrocReq = true ∨ s.programmer ≠ .free
  · -- the programmer is at work, and the machine waits
    have hm := h.waits (e := e) hearly hwork
    have hl : l = [] ∧ s.croc.fifoRdreq = false := by
      simp only [Stage, h.idle hwork] at hstage
      exact hstage.symm
    refine ⟨⟨used, [], hwords [] ?_, hdvd, ?_, ?_⟩, ?_, fun _ => hm.nextState⟩
    · rw [hl.1, hl.2, Fifo.taken_false, List.append_nil]
    · rw [htriples, asked, asked, hm.req, if_neg Bool.false_ne_true, List.append_nil]
    · simp only [Stage, hm.nextState, hm.rdreq, and_self]
    · intro hreq
      rw [hm.req] at hreq
      cases hreq
  · rw [not_or, not_not] at hwork
    obtain ⟨hreq, hfree⟩ := hwork
    have hasked : asked s.croc = [] := if_neg hreq
    have hfree' : (System.step e s).programmer = .free := by
      simp [System.step, hfree, Programmer.step, hreq]
    rw [hasked, List.append_nil] at htriples ⊢
    by_cases hwrite : s.croc.nextState = .writeRegister
    · -- the triple is complete
      have hm := step_writeRegister (i := s.input e) hwrite
      simp only [Stage, hwrite] at hstage
      obtain ⟨hrdreq, hl⟩ := hstage
      refine ⟨⟨used ++ l, [], ?_, ?_, ?_, ?_⟩, fun _ => hfree', fun _ => hm.nextState⟩
      · rw [List.append_nil]
        apply hwords
        rw [hrdreq, Fifo.taken_false, List.append_nil]
      · rw [List.length_append, hl]
        exact (Nat.dvd_add_right hdvd).2 (dvd_refl 3)
      · rw [triples_append _ _ hdvd, htriples, hl]
        congr 1
        change _ = if (EthernetCrocBuffer.step _ _).writeCrocReq then
          [(EthernetCrocBuffer.step _ _).reg96bCrocspi.bits] else []
        rw [hm.req, hm.reg]
        rfl
      · change Stage [] (EthernetCrocBuffer.step _ _)
        simp only [Stage, hm.nextState, hm.rdreq, and_self]
    · obtain ⟨hstage', hreq'⟩ := hstage.step (i := s.input e) hwrite
      have hreq' : (System.step e s).croc.writeCrocReq = false := hreq'
      refine ⟨⟨used, _, hwords _ rfl, hdvd, ?_, hstage'⟩, ?_, ?_⟩
      · rw [htriples, asked, hreq', if_neg Bool.false_ne_true, List.append_nil]
      · intro hr
        rw [hreq'] at hr
        cases hr
      · rintro (hr | hp)
        · rw [hreq'] at hr
          cases hr
        · exact absurd hfree' hp

/-- What the programmer has received, is asked to take and has not been asked to take. -/
theorem Programming.triples_eq (h : Programming words got s) : ∃ l, Stage l s.croc ∧
    triples words = got ++ (asked s.croc ++ triples (l ++ s.croc.buffer.held)) := by
  obtain ⟨used, l, hwords, hdvd, htriples, hstage⟩ := h.words
  refine ⟨l, hstage, ?_⟩
  rw [hwords, ← List.append_assoc, ← htriples, ← triples_append _ _ hdvd]
  simp only [List.append_assoc]

theorem Programming.all (h : Programming words got s) (hrest : AtRest s) : got = triples words := by
  obtain ⟨l, hstage, htriples⟩ := h.triples_eq
  simp only [Stage, hrest.idle] at hstage
  have hasked : asked s.croc = [] := by rw [asked, hrest.request]; rfl
  rw [htriples, hstage.2, hasked, InputBuffer.held_of_wrreq hrest.written, List.nil_append,
    List.nil_append, triples_of_short hrest.words, List.append_nil]

/-- What the programmer receives is as it should be. -/
theorem Programming.programs (h : Programming words got s) (hearly : ¬Early s) :
    Programs words got e s := by
  refine ⟨?_, fun hwork => (h.waits hearly hwork).reg, ?_, h.all⟩
  · intro hreq
    rw [h.request hreq]
    exact nofun
  · obtain ⟨l, -, htriples⟩ := h.triples_eq
    rw [htriples]
    exact List.prefix_append _ _

theorem programming_run
    (hcap : Along System.step (fun _ s => s.croc.buffer.usedw ≤ 511) .initial es)
    (hearly : Along System.step (fun _ s => ¬Early s) .initial es) :
    Programming (log System.step arrived .initial es) (log System.step received .initial es)
      (run System.step .initial es) :=
  log₂_invariant System.step (R := fun _ s => s.croc.buffer.usedw ≤ 511 ∧ ¬Early s)
    programming_initial (fun _ _ _ _ hR h => h.step hR.1 hR.2) (hcap.and System.step hearly)

/-! ## Termination -/

/-- The number of edges after which the block is at rest if no words come in, those at
    which the programmer stays busy not counted. -/
def remaining (s : System) : ℕ :=
  match s.croc.nextState with
  | .hwReset => 10 * s.croc.buffer.usedw + 5
  | .idle =>
    10 * s.croc.buffer.usedw +
      if s.croc.writeCrocReq then 4
      else if s.programmer = .asked then 3 else if s.programmer = .busy then 2 else 0
  | .startFifoRead => 10 * (s.croc.buffer.usedw - 3) + 12
  | .waitFifo => 10 * (s.croc.buffer.usedw - 3) + 11
  | .loadRegister =>
    if s.croc.wordsRead = 0 then 10 * (s.croc.buffer.usedw - 2) + 10
    else 10 * (s.croc.buffer.usedw - 1) + 9
  | .writeRegister => 10 * s.croc.buffer.usedw + 8
  | .crocReadback => 0

theorem remaining_lt (s : System) : remaining s < 5200 := by
  have hbounded : s.croc.buffer.usedw ≤ 512 := s.croc.buffer.fifo.bounded
  unfold remaining
  split <;> (try split_ifs) <;> omega

theorem Programming.rdreq_idle (h : Programming words got s) (hidle : s.croc.nextState = .idle) :
    s.croc.fifoRdreq = false := by
  obtain ⟨used, l, -, -, -, hstage⟩ := h.words
  simp only [Stage, hidle] at hstage
  exact hstage.1

theorem wrreq_calm (he : Calm e) : (System.step e s).croc.buffer.wrreq = false :=
  he

theorem Programming.rest_step (h : Programming words got s) (hrest : AtRest s) (he : Calm e) :
    AtRest (System.step e s) := by
  have husedw : (System.step e s).croc.buffer.usedw = _ :=
    InputBuffer.usedw_clock _ _ hrest.written
  rw [h.rdreq_idle hrest.idle, if_neg Bool.false_ne_true] at husedw
  have hm := step_idle_stays (i := s.input e) hrest.idle
    fun hstarts => absurd (hstarts.1.trans (Nat.mod_le _ _)) (not_le.2 hrest.words)
  refine ⟨hm.nextState, ?_, hm.req, husedw.trans_lt hrest.words, wrreq_calm he⟩
  simp [System.step, hrest.free, Programmer.step, hrest.request]

/-- While the programmer is at work the FIFO is not read. -/
theorem Programming.usedw_waits (h : Programming words got s)
    (hwork : s.croc.writeCrocReq = true ∨ s.programmer ≠ .free)
    (hwrreq : s.croc.buffer.wrreq = false) :
    (System.step e s).croc.buffer.usedw = s.croc.buffer.usedw := by
  have husedw : (System.step e s).croc.buffer.usedw = _ := InputBuffer.usedw_clock _ _ hwrreq
  rwa [h.rdreq_idle (h.idle hwork), if_neg Bool.false_ne_true] at husedw

theorem Programming.remaining_stays (h : Programming words got s) (hearly : ¬Early s)
    (hwrreq : s.croc.buffer.wrreq = false) (hbusy : s.programmer = .busy)
    (hstays : e.stays = true) : remaining (System.step e s) = remaining s := by
  have hwork : s.croc.writeCrocReq = true ∨ s.programmer ≠ .free :=
    Or.inr (by rw [hbusy]; exact nofun)
  have hm := h.waits (e := e) hearly hwork
  have hreq : s.croc.writeCrocReq = false := by
    by_contra hreq
    rw [h.request (by simpa using hreq)] at hbusy
    cases hbusy
  have hbusy' : (System.step e s).programmer = .busy := by
    simp [System.step, hbusy, Programmer.step, hstays]
  simp only [remaining, hm.nextState, hm.req, h.idle hwork, h.usedw_waits hwork hwrreq, hreq, hbusy,
    hbusy']

theorem Programming.remaining_step (h : Programming words got s) (hearly : ¬Early s)
    (hcap : s.croc.buffer.usedw ≤ 511) (hwrreq : s.croc.buffer.wrreq = false)
    (hgoes : s.programmer = .busy → e.stays = false) (hrest : ¬AtRest s) :
    remaining (System.step e s) < remaining s := by
  have husedw : (System.step e s).croc.buffer.usedw = _ := InputBuffer.usedw_clock _ _ hwrreq
  by_cases hwork : s.croc.writeCrocReq = true ∨ s.programmer ≠ .free
  · -- the programmer goes on
    have hm := h.waits (e := e) hearly hwork
    simp only [remaining, hm.nextState, hm.req, h.idle hwork, h.usedw_waits hwork hwrreq]
    cases hp : s.programmer with
    | free =>
      have hreq := hwork.resolve_right (not_not.2 hp)
      cases hlate : e.late <;> simp [System.step, Programmer.step, hp, hreq, hlate]
    | asked | busy =>
      have hreq : s.croc.writeCrocReq = false := by
        by_contra hreq
        rw [h.request (by simpa using hreq)] at hp
        cases hp
      simp [System.step, Programmer.step, hp, hreq, hgoes]
  · rw [not_or, not_not] at hwork
    obtain ⟨hreq, hfree⟩ := hwork
    have hfree' : (System.step e s).programmer = .free := by
      simp [System.step, hfree, Programmer.step, hreq]
    obtain ⟨used, l, -, -, -, hstage⟩ := h.words
    unfold Stage at hstage
    cases hn : s.croc.nextState with
    | hwReset =>
      simp only [hn] at hstage
      have hm := step_hwReset (i := s.input e) hn
      change Moves (System.step e s).croc _ _ _ _ _ at hm
      simp [remaining, hm.nextState, hm.req, hfree', husedw, hstage, hn]
    | idle =>
      simp only [hn] at hstage
      have hthree : 3 ≤ s.croc.buffer.usedw := by
        by_contra hless
        exact hrest ⟨hn, hfree, by simpa using hreq, by omega, hwrreq⟩
      have hstarts : 3 ≤ rdusedw s.croc ∧ (s.input e).crocprogBusy = false := by
        rw [rdusedw, Nat.mod_eq_of_lt (by omega)]
        exact ⟨hthree, by simp [System.input, hfree]⟩
      have hm := step_idle_starts hn hstarts
      change Moves (System.step e s).croc _ _ _ _ _ at hm
      rw [hstage.1, if_neg Bool.false_ne_true] at husedw
      simp only [remaining, hm.nextState, husedw, hn]
      omega
    | startFifoRead =>
      simp only [hn] at hstage
      have hm := step_startFifoRead (i := s.input e) hn
      change Moves (System.step e s).croc _ _ _ _ _ at hm
      simp [remaining, hm.nextState, husedw, hstage, hn]
    | waitFifo =>
      simp only [hn] at hstage
      obtain ⟨hrdreq, -, hthree, hw⟩ := hstage
      have hm := step_waitFifo (i := s.input e) hn
      change Moves (System.step e s).croc _ _ _ _ _ at hm
      rw [hrdreq, if_pos rfl] at husedw
      simp only [remaining, hm.nextState, hm.wordsRead, husedw, hn, hw, if_pos]
      omega
    | loadRegister =>
      simp only [hn] at hstage
      obtain ⟨hrdreq, ⟨hw, -, htwo⟩ | ⟨hw, -, hone⟩⟩ := hstage
      · have hm := step_loadRegister_first (i := s.input e) hn hw
        change Moves (System.step e s).croc _ _ _ _ _ at hm
        rw [hrdreq, if_pos rfl] at husedw
        simp only [remaining, hm.nextState, hm.wordsRead, husedw, hn, hw, if_pos]
        rw [if_neg one_ne_zero]
        omega
      · have hm := step_loadRegister_second (i := s.input e) hn hw
        change Moves (System.step e s).croc _ _ _ _ _ at hm
        rw [hrdreq, if_pos rfl] at husedw
        simp only [remaining, hm.nextState, husedw, hn, hw]
        rw [if_neg one_ne_zero]
        omega
    | writeRegister =>
      simp only [hn] at hstage
      have hm := step_writeRegister (i := s.input e) hn
      change Moves (System.step e s).croc _ _ _ _ _ at hm
      simp [remaining, hm.nextState, hm.req, husedw, hstage, hn]
    | crocReadback => simp only [hn] at hstage

/-- With no words coming in the block comes to rest. -/
theorem Programming.rests (h : Programming words got s) {ks : List Edge}
    (hcap : Along System.step (fun _ s => s.croc.buffer.usedw ≤ 511) s ks)
    (hearly : Along System.step (fun _ s => ¬Early s) s ks) (hcalm : ∀ e ∈ ks, Calm e)
    (hcount : 5201 ≤ ks.countP (!·.stays)) : AtRest (run System.step s ks) := by
  have hR := (hcap.and System.step hearly).and System.step (along_of_forall System.step hcalm)
  refine run_settles System.step (K := fun s => s.croc.buffer.wrreq = false) (P := AtRest)
    (J := fun s => ∃ words got, Programming words got s) remaining (!·.stays) remaining_lt
    ⟨words, got, h⟩ ?_ ?_ ?_ hR hcount
  · rintro e s ⟨⟨hcap, hearly⟩, he⟩ ⟨words, got, h⟩
    exact ⟨⟨_, _, h.step (e := e) hcap hearly⟩, wrreq_calm he⟩
  · rintro e s ⟨-, he⟩ ⟨words, got, h⟩ - hrest
    exact h.rest_step hrest he
  · rintro e s ⟨⟨hcap, hearly⟩, he⟩ ⟨words, got, h⟩ hwrreq hrest
    by_cases hstays : s.programmer = .busy ∧ e.stays = true
    · refine ⟨(h.remaining_stays hearly hwrreq hstays.1 hstays.2).le, fun hgoes => ?_⟩
      rw [hstays.2] at hgoes
      cases hgoes
    · have hgoes : s.programmer = .busy → e.stays = false := by
        intro hbusy
        simpa [hbusy] using hstays
      have hless := h.remaining_step hearly hcap hwrreq hgoes hrest
      exact ⟨hless.le, fun _ => hless⟩

end

/-! ## Runs -/

/-- In a run in which no transfer begins before a request has been answered the programmer
    receives the triples as it should; it has received all of them once the block has had
    the time. -/
theorem croc_programmed (es : List Edge)
    (hcap : Along System.step (fun _ s => s.croc.buffer.usedw ≤ 511) .initial es)
    (hearly : Along System.step (fun _ s => ¬Early s) .initial es) :
    (∀ js e, js ++ [e] <+: es →
      Programs (log System.step arrived .initial js) (log System.step received .initial js) e
        (run System.step .initial js)) ∧
    (∀ js ks, es = js ++ ks → (∀ e ∈ ks, Calm e) → 5201 ≤ ks.countP (!·.stays) →
      log System.step received .initial es = triples (log System.step arrived .initial es)) := by
  constructor
  · rintro js e ⟨ks, rfl⟩
    have hcap := (hcap.of_isPrefix System.step).of_isPrefix System.step
    have hnow := (along_concat System.step _ _ js e).1 (hearly.of_isPrefix System.step)
    exact (programming_run hcap hnow.1).programs hnow.2
  · rintro js ks rfl hcalm hcount
    have hend := programming_run hcap hearly
    have hrest : AtRest (run System.step .initial (js ++ ks)) := by
      rw [along_append] at hcap hearly
      rw [run_append]
      exact (programming_run hcap.1 hearly.1).rests hcap.2 hearly.2 hcalm hcount
    exact hend.all hrest

/-- The words come in one after another, and nothing for `n` edges. -/
def wordsIn (l : List Word) (n : ℕ) (stays : Bool) : List Edge :=
  ⟨0, 0, false, false, stays⟩ :: l.map (fun w => ⟨w, udpPortCrocProg, true, false, stays⟩) ++
    List.replicate n ⟨0, 0, false, false, stays⟩

/-- A word of a second triple is left over. -/
theorem croc_programmed_fourWords :
    Along System.step (fun _ s => s.croc.buffer.usedw ≤ 511) .initial
        (wordsIn [1, 2, 3, 4] 10 false) ∧
      Along System.step (fun _ s => ¬Early s) .initial (wordsIn [1, 2, 3, 4] 10 false) ∧
      ∀ js e, js ++ [e] <+: wordsIn [1, 2, 3, 4] 10 false →
        Programs (log System.step arrived .initial js) (log System.step received .initial js) e
          (run System.step .initial js) := by
  have hcap : Along System.step (fun _ s => s.croc.buffer.usedw ≤ 511) .initial
      (wordsIn [1, 2, 3, 4] 10 false) := by decide +kernel
  have hearly : Along System.step (fun _ s => ¬Early s) .initial
      (wordsIn [1, 2, 3, 4] 10 false) := by decide +kernel
  exact ⟨hcap, hearly, (croc_programmed _ hcap hearly).1⟩

/-- With six words in the FIFO the second request comes while the programmer is busy with
    the first. -/
theorem second_request_while_busy :
    Along System.step (fun _ s => s.croc.buffer.usedw ≤ 511) .initial
        (wordsIn [1, 2, 3, 4, 5, 6] 10 true) ∧
      ∀ e, ¬Programs (log System.step arrived .initial (wordsIn [1, 2, 3, 4, 5, 6] 10 true))
        (log System.step received .initial (wordsIn [1, 2, 3, 4, 5, 6] 10 true)) e
        (run System.step .initial (wordsIn [1, 2, 3, 4, 5, 6] 10 true)) := by
  refine ⟨by decide +kernel, fun e h => ?_⟩
  have hreq : (run System.step .initial
      (wordsIn [1, 2, 3, 4, 5, 6] 10 true)).croc.writeCrocReq = true := by decide +kernel
  have hbusy : (run System.step .initial
      (wordsIn [1, 2, 3, 4, 5, 6] 10 true)).programmer = .busy := by decide +kernel
  exact h.request hreq hbusy

end FpgaEthernet.EthernetCrocBuffer
