import FpgaEthernet.Clocked.Queue
import FpgaEthernet.Flash.EpcqioExecution

/-!
# What a write takes from its buffer

`epcio_control` reads the write buffer ahead of what it shifts into the flash
interface, and stops reading when `fifo_timer`, which counts the edges of a page,
has reached the page size or `bytes_todo`, which counts the bytes of the whole
command. For a second page the latter is never reached: the read request stays up
until the page has been written.

The buffer is an ideal FIFO of bytes. Bytes may come in at any edge.

Main results:

* `WriteStage.step`: a write goes on, begins with the next page, or is over.
* `consumed_iff`: the writes that leave the bytes behind theirs in the buffer.
-/

namespace FpgaEthernet.EpcqioControl

open Clocked

/-! ## The write buffer -/

/-- The inputs of `epcio_control`, what the data side holds, and the bytes that come
    into the write buffer. -/
structure WriterInput where
  ec : EcInput
  data : DataSide
  arrivals : List (BitVec 8)

/-- `epcio_control` with its write buffer. -/
structure Writer where
  ec : EcSide
  buffer : Queue (BitVec 8)

/-- One edge of `epcq_clock`. -/
def Writer.step (i : WriterInput) (w : Writer) : Writer where
  ec := ecStep { i.ec with wrbuffQ := w.buffer.q } i.data w.ec
  buffer := w.buffer.clock w.ec.wrbuffRdreq i.arrivals

/-- The registers at power-up, with an empty buffer. -/
def Writer.reset : Writer := ⟨ecReset, ⟨[], 0⟩⟩

/-! ## Specification -/

/-- What the flash interface is told at an edge. -/
inductive FlashEvent
  | shift (byte : BitVec 8)
  | write (address : BitVec 32)
  deriving DecidableEq

def EcSide.events (s : EcSide) : List FlashEvent :=
  (if s.epcqioWren && s.epcqioShiftBytes then [.shift s.epcqioDatain] else []) ++
    if s.epcqioWren && s.epcqioWrite then [.write s.epcqioAddr] else []

def flashEvents (_ : WriterInput) (w : Writer) : List FlashEvent := w.ec.events

def arrivals (i : WriterInput) (_ : Writer) : List (BitVec 8) := i.arrivals

/-- The bytes that come in before the last page is being written. -/
def earlyArrivals (i : WriterInput) (w : Writer) : List (BitVec 8) :=
  if w.ec.ecNextState = .waitWrite ∧ w.ec.bytesTodo ≤ w.ec.bytesDone then [] else i.arrivals

/-- A write command, and what is in the buffer when it is taken. -/
structure Job where
  address : BitVec 32
  nwords : ℕ
  stored : List (BitVec 8)
  pos : 1 ≤ nwords
  small : nwords ≤ 127
  enough : 4 * nwords ≤ stored.length

namespace Job

/-- The bytes to be written. -/
def bytes (j : Job) : List (BitVec 8) := j.stored.take (4 * j.nwords)

/-- The first bytes of page `p`, as they are shifted: the most significant bit of a
    byte is the last of `epcqio_datain` (lines 586-588). -/
def shifts (j : Job) (p n : ℕ) : List FlashEvent :=
  ((j.bytes.drop (pageSize * p)).take n).map fun b => .shift b.reverse

def pageAddress (j : Job) (p : ℕ) : BitVec 32 := j.address + BitVec.ofNat 32 (pageSize * p)

/-- The first `n` pages. -/
def pages (j : Job) (n : ℕ) : List FlashEvent :=
  (List.range n).flatMap fun p => j.shifts p pageSize ++ [.write (j.pageAddress p)]

/-- The number of pages. -/
def pageCount (j : Job) : ℕ := (4 * j.nwords + pageSize - 1) / pageSize

end Job

/-- A write shifts its bytes into the flash interface, page by page, and leaves those
    behind them in the buffer. -/
structure Consumes (j : Job) (come : List (BitVec 8)) (l : List FlashEvent) (w : Writer) :
    Prop where
  events : l = j.pages j.pageCount
  buffer : w.buffer.contents = j.stored.drop (4 * j.nwords) ++ come

/-- The edges from the one that takes a command in `IDLE` to the one that goes back
    there. -/
structure Completes (w : Writer) (is : List WriterInput) : Prop where
  ne_nil : is ≠ []
  back : (run Writer.step w is).ec.ecNextState = .idle
  first : ∀ js, js <+: is → js ≠ [] → js ≠ is →
    (run Writer.step w js).ec.ecNextState ≠ .idle

/-! ## A page -/

namespace Job

variable {j : Job} {p n : ℕ}

/-- The number of bytes of page `p`. -/
def pageBytes (j : Job) (p : ℕ) : ℕ := min pageSize (4 * j.nwords - pageSize * p)

/-- `fifo_timer` up to which bytes are read. -/
def limit (j : Job) : ℕ := min pageSize (4 * j.nwords)

theorem bytes_length (j : Job) : j.bytes.length = 4 * j.nwords := by
  rw [bytes, List.length_take, min_eq_left j.enough]

theorem shifts_zero (j : Job) (p : ℕ) : j.shifts p 0 = [] := by
  simp [shifts]

theorem shifts_succ {b : BitVec 8} (hn : n < j.pageBytes p)
    (hb : j.stored[pageSize * p + n]? = some b) :
    j.shifts p (n + 1) = j.shifts p n ++ [.shift b.reverse] := by
  have hlt : pageSize * p + n < 4 * j.nwords := by
    unfold pageBytes at hn
    omega
  have hget : (j.bytes.drop (pageSize * p))[n]? = some b := by
    rw [List.getElem?_drop, bytes, List.getElem?_take, if_pos hlt, hb]
  rw [shifts, List.take_add_one, hget, List.map_append]
  rfl

/-- A page has no more bytes than its own. -/
theorem shifts_pageBytes (j : Job) (p : ℕ) : j.shifts p (j.pageBytes p) = j.shifts p pageSize := by
  have hlength : (j.bytes.drop (pageSize * p)).length = 4 * j.nwords - pageSize * p := by
    rw [List.length_drop, bytes_length]
  rw [shifts, shifts, pageBytes, ← hlength]
  congr 1
  exact (List.take_eq_take_min ..).symm

theorem pages_succ (j : Job) (n : ℕ) :
    j.pages (n + 1) = j.pages n ++ (j.shifts n pageSize ++ [.write (j.pageAddress n)]) := by
  rw [pages, List.range_succ, List.flatMap_append, List.flatMap_singleton]
  rfl

end Job

section

variable {i : EcInput} {d : DataSide} {ec : EcSide}

theorem ecStep_startWrite (hs : ec.ecNextState = .start .write) :
    (ecStep i d ec).ecNextState = .waitFifo ∧ (ecStep i d ec).fifoTimer = 1 ∧
      (ecStep i d ec).wrbuffRdreq = true ∧ (ecStep i d ec).epcqioAddr = ec.currAddress ∧
      (ecStep i d ec).currAddress = ec.currAddress ∧ (ecStep i d ec).bytesDone = ec.bytesDone ∧
      (ecStep i d ec).bytesTodo = ec.bytesTodo ∧ (ecStep i d ec).events = [] := by
  simp [ecStep, epcioControl, hs, ecDefaults, EcSide.events]

theorem ecStep_waitFifo_one (hs : ec.ecNextState = .waitFifo) (ht : ec.fifoTimer = 1) :
    (ecStep i d ec).ecNextState = .waitFifo ∧ (ecStep i d ec).fifoTimer = 2 ∧
      (ecStep i d ec).wrbuffRdreq = true ∧ (ecStep i d ec).epcqioAddr = ec.epcqioAddr ∧
      (ecStep i d ec).currAddress = ec.currAddress ∧ (ecStep i d ec).bytesDone = ec.bytesDone ∧
      (ecStep i d ec).bytesTodo = ec.bytesTodo ∧ (ecStep i d ec).events = [] := by
  simp [ecStep, epcioControl, hs, ht, fifoDelay, pageSize, ecDefaults, EcSide.events]

/-- An edge that shifts a byte. -/
structure Shifts (i : EcInput) (ec ec' : EcSide) : Prop where
  state : ec'.ecNextState = .shiftBytes
  timer : ec'.fifoTimer = ec.fifoTimer + 1
  address : ec'.epcqioAddr = ec.epcqioAddr
  current : ec'.currAddress = ec.currAddress
  done : ec'.bytesDone = ec.bytesDone + 1
  todo : ec'.bytesTodo = ec.bytesTodo
  events : ec'.events = [.shift i.wrbuffQ.reverse]

theorem ecStep_waitFifo_two (hs : ec.ecNextState = .waitFifo) (ht : ec.fifoTimer = 2) :
    Shifts i ec (ecStep i d ec) ∧ (ecStep i d ec).bytesShifted = 1 ∧
      (ecStep i d ec).wrbuffRdreq = true := by
  refine ⟨⟨?_, ?_, ?_, ?_, ?_, ?_, ?_⟩, ?_, ?_⟩ <;>
    simp [ecStep, epcioControl, hs, ht, fifoDelay, pageSize, ecDefaults, EcSide.events]

/-- What `SHIFT_BYTES` asks of the buffer. -/
theorem ecStep_shiftBytes_rdreq (hs : ec.ecNextState = .shiftBytes) :
    (ecStep i d ec).wrbuffRdreq = decide (ec.fifoTimer < min pageSize ec.bytesTodo) := by
  have hreq : (!decide (pageSize ≤ ec.fifoTimer ∨ ec.bytesTodo ≤ ec.fifoTimer)) =
      decide (ec.fifoTimer < min pageSize ec.bytesTodo) := by
    rw [← decide_not]
    simp only [not_or, not_le, lt_min_iff]
  simp only [ecStep, epcioControl, hs]
  split_ifs <;> exact hreq

theorem ecStep_shiftBytes_more (hs : ec.ecNextState = .shiftBytes)
    (htodo : ec.bytesDone < ec.bytesTodo) (hpage : ec.bytesShifted < pageSize) :
    Shifts i ec (ecStep i d ec) ∧ (ecStep i d ec).bytesShifted = ec.bytesShifted + 1 := by
  refine ⟨⟨?_, ?_, ?_, ?_, ?_, ?_, ?_⟩, ?_⟩ <;>
    simp [ecStep, epcioControl, hs, hpage, Nat.not_le.2 htodo, ecDefaults, EcSide.events]

theorem ecStep_shiftBytes_last (hs : ec.ecNextState = .shiftBytes)
    (h : ec.bytesTodo ≤ ec.bytesDone ∨ pageSize ≤ ec.bytesShifted) :
    (ecStep i d ec).ecNextState = .waitWrite ∧ (ecStep i d ec).waitTimer = 0 ∧
      (ecStep i d ec).currAddress = ec.currAddress ∧ (ecStep i d ec).bytesDone = ec.bytesDone ∧
      (ecStep i d ec).bytesTodo = ec.bytesTodo ∧
      (ecStep i d ec).events = [.write ec.epcqioAddr] := by
  simp only [ecStep, epcioControl, hs]
  split_ifs with htodo hpage
  · simp [ecDefaults, EcSide.events]
  · exact absurd hpage (not_lt.2 (h.resolve_left htodo))
  · simp [ecDefaults, EcSide.events]

/-- In `WAIT_WRITE` a page is being written. -/
theorem ecStep_waitWrite (hs : ec.ecNextState = .waitWrite) :
    (ecStep i d ec).wrbuffRdreq = false ∧ (ecStep i d ec).bytesDone = ec.bytesDone ∧
      (ecStep i d ec).bytesTodo = ec.bytesTodo ∧ (ecStep i d ec).events = [] ∧
      ((ecStep i d ec).ecNextState = .waitWrite ∧
          (ecStep i d ec).currAddress = ec.currAddress ∨
        (ecStep i d ec).ecNextState = .idle ∧ ec.bytesTodo ≤ ec.bytesDone ∨
        (ecStep i d ec).ecNextState = .start .write ∧ ec.bytesDone < ec.bytesTodo ∧
          (ecStep i d ec).currAddress = ec.currAddress + BitVec.ofNat 32 pageSize) := by
  simp only [ecStep, epcioControl, hs]
  split_ifs with hbusy htimer htodo
  · simp [ecDefaults, EcSide.events, hs]
  · simp [ecDefaults, EcSide.events, hs]
  · simp [ecDefaults, EcSide.events, htodo]
  · simp [ecDefaults, EcSide.events, Nat.lt_of_not_le htodo]

end

/-! ## Stages -/

/-- `n` bytes of page `p` have been shifted; the bytes are read two ahead. -/
structure Filling (j : Job) (p n : ℕ) (come : List (BitVec 8)) (w : Writer) : Prop where
  timer : w.ec.fifoTimer = n + 2
  done : w.ec.bytesDone = pageSize * p + n
  request : w.ec.wrbuffRdreq = decide (n + 2 ≤ j.limit)
  ahead : Remains (4 * j.nwords) (pageSize * p + min (n + 1) j.limit) (j.stored ++ come)
    w.buffer.contents
  q : n < j.pageBytes p → j.stored[pageSize * p + n]? = some w.buffer.q

/-- When all pages have been written, the bytes behind are in the buffer if the
    command has one page, or no byte was there to be read too much. -/
def Over (j : Job) (come early : List (BitVec 8)) (w : Writer) : Prop :=
  ∃ k, w.buffer.contents = (j.stored ++ come).drop k ∧ 4 * j.nwords ≤ k ∧
    k ≤ (j.stored ++ come).length ∧
    (k = 4 * j.nwords ↔ j.nwords ≤ 64 ∨ (j.stored ++ early).length ≤ 4 * j.nwords)

/-- Where page `p` is; `l` is what the flash interface has been told and is being told
    now. -/
def WriteStage (j : Job) (p : ℕ) (come early : List (BitVec 8)) (l : List FlashEvent)
    (w : Writer) : Prop :=
  match w.ec.ecNextState with
  | .start c =>
    c = .write ∧ w.ec.bytesDone = pageSize * p ∧ w.ec.wrbuffRdreq = false ∧ l = j.pages p ∧
      Remains (4 * j.nwords) (pageSize * p) (j.stored ++ come) w.buffer.contents ∧ early = come
  | .waitFifo =>
    w.ec.epcqioAddr = j.pageAddress p ∧ l = j.pages p ∧ early = come ∧
      (w.ec.fifoTimer = 1 ∧ w.ec.bytesDone = pageSize * p ∧ w.ec.wrbuffRdreq = true ∧
          Remains (4 * j.nwords) (pageSize * p) (j.stored ++ come) w.buffer.contents ∨
        Filling j p 0 come w)
  | .shiftBytes =>
    w.ec.epcqioAddr = j.pageAddress p ∧ early = come ∧
      ∃ n, w.ec.bytesShifted = n ∧ n ≤ j.pageBytes p ∧ l = j.pages p ++ j.shifts p n ∧
        Filling j p n come w
  | .waitWrite =>
    w.ec.bytesDone = pageSize * p + j.pageBytes p ∧ l = j.pages (p + 1) ∧
      if 4 * j.nwords ≤ w.ec.bytesDone then
        w.ec.wrbuffRdreq = true ∧ 64 < j.nwords ∧ early = come ∧
            Remains (4 * j.nwords) (4 * j.nwords + 2) (j.stored ++ come) w.buffer.contents ∨
          w.ec.wrbuffRdreq = false ∧ Over j come early w
      else
        w.ec.wrbuffRdreq = false ∧ early = come ∧
          Remains (4 * j.nwords) (pageSize * (p + 1)) (j.stored ++ come) w.buffer.contents
  | .hwReset | .idle | .readBuffer | .waitBusy => False

/-- Page `p` of the write is under way. -/
structure Writing (j : Job) (p : ℕ) (come early : List (BitVec 8)) (l : List FlashEvent)
    (w : Writer) : Prop where
  page : pageSize * p < 4 * j.nwords
  todo : w.ec.bytesTodo = 4 * j.nwords
  current : w.ec.currAddress = j.pageAddress p
  stage : WriteStage j p come early l w

section

variable {i : WriterInput} {w : Writer} {j : Job} {p n : ℕ} {come early : List (BitVec 8)}
  {l : List FlashEvent}

theorem stored_length (j : Job) (come : List (BitVec 8)) :
    4 * j.nwords ≤ (j.stored ++ come).length := by
  rw [List.length_append]
  exact j.enough.trans (Nat.le_add_right _ _)

theorem buffer_wait (hr : w.ec.wrbuffRdreq = false)
    (h : Remains (4 * j.nwords) n (j.stored ++ come) w.buffer.contents) :
    Remains (4 * j.nwords) n (j.stored ++ (come ++ i.arrivals))
      (Writer.step i w).buffer.contents := by
  rw [← List.append_assoc, Writer.step, hr]
  exact h.clock_wait

theorem buffer_read (hr : w.ec.wrbuffRdreq = true)
    (h : Remains (4 * j.nwords) n (j.stored ++ come) w.buffer.contents) :
    Remains (4 * j.nwords) (n + 1) (j.stored ++ (come ++ i.arrivals))
      (Writer.step i w).buffer.contents := by
  rw [← List.append_assoc, Writer.step, hr]
  exact h.clock_read (stored_length j come)

/-- What the buffer puts out after a read. -/
theorem q_read (hr : w.ec.wrbuffRdreq = true)
    (h : Remains (4 * j.nwords) n (j.stored ++ come) w.buffer.contents) (hn : n < 4 * j.nwords) :
    j.stored[n]? = some (Writer.step i w).buffer.q := by
  have hq := h.q_eq hn (stored_length j come) i.arrivals
  rw [List.getElem?_append_left (hn.trans_le j.enough)] at hq
  rw [hq, Writer.step, hr]

theorem early_all (h : early = come) (hs : w.ec.ecNextState ≠ .waitWrite) :
    early ++ earlyArrivals i w = come ++ i.arrivals := by
  rw [h, earlyArrivals, if_neg fun hw => hs hw.1]

/-- The first byte is read. -/
theorem Writing.step_start {c : Command} (h : Writing j p come early l w)
    (hs : w.ec.ecNextState = .start c) :
    Writing j p (come ++ i.arrivals) (early ++ earlyArrivals i w)
      (l ++ (Writer.step i w).ec.events) (Writer.step i w) := by
  have hstage := h.stage
  simp only [WriteStage, hs] at hstage
  obtain ⟨rfl, hdone, hreq, hl, hbuffer, hearly⟩ := hstage
  obtain ⟨hstate, htimer, hreq', haddr, hcurr, hdone', htodo', hevents⟩ :=
    ecStep_startWrite (i := { i.ec with wrbuffQ := w.buffer.q }) (d := i.data) hs
  refine ⟨h.page, htodo'.trans h.todo, hcurr.trans h.current, ?_⟩
  have hstate : (Writer.step i w).ec.ecNextState = .waitFifo := hstate
  have hevents : (Writer.step i w).ec.events = [] := hevents
  simp only [WriteStage, hstate, hevents, List.append_nil]
  refine ⟨haddr.trans h.current, hl, early_all hearly (by simp [hs]),
    Or.inl ⟨htimer, ?_, hreq', ?_⟩⟩
  · exact hdone'.trans hdone
  · exact buffer_wait hreq hbuffer

theorem Filling.read (h : Filling j p n come w) :
    Remains (4 * j.nwords) (pageSize * p + min (n + 2) j.limit)
      (j.stored ++ (come ++ i.arrivals)) (Writer.step i w).buffer.contents := by
  have hrequest := h.request
  by_cases hn : n + 2 ≤ j.limit
  · rw [decide_eq_true hn] at hrequest
    have hread := buffer_read (i := i) hrequest h.ahead
    rwa [Nat.add_assoc, min_eq_left (by omega), ← min_eq_left hn] at hread
  · rw [decide_eq_false hn] at hrequest
    have hwait := buffer_wait (i := i) hrequest h.ahead
    rwa [min_eq_right (by omega), ← min_eq_right (by omega : j.limit ≤ n + 2)] at hwait

theorem Job.pageBytes_le (j : Job) (p : ℕ) : j.pageBytes p ≤ j.limit := by
  unfold Job.pageBytes Job.limit
  omega

/-- One byte more is shifted, and the next is read. -/
theorem Filling.shift (h : Filling j p n come w) (hn : n < j.pageBytes p)
    (hshift : Shifts { i.ec with wrbuffQ := w.buffer.q } w.ec (Writer.step i w).ec)
    (hrequest : (Writer.step i w).ec.wrbuffRdreq = decide (n + 3 ≤ j.limit))
    (hl : l = j.pages p ++ j.shifts p n) :
    Filling j p (n + 1) (come ++ i.arrivals) (Writer.step i w) ∧
      l ++ (Writer.step i w).ec.events = j.pages p ++ j.shifts p (n + 1) := by
  refine ⟨⟨?_, ?_, hrequest, h.read, ?_⟩, ?_⟩
  · rw [hshift.timer, h.timer]
  · rw [hshift.done, h.done, Nat.add_assoc]
  · intro hnext
    have hlimit : n + 2 ≤ j.limit := (Nat.succ_le_of_lt hnext).trans (j.pageBytes_le p)
    have hahead := h.ahead
    rw [min_eq_left (by omega)] at hahead
    have hreq := h.request
    rw [decide_eq_true hlimit] at hreq
    refine q_read hreq hahead ?_
    unfold Job.pageBytes at hnext
    omega
  · rw [hshift.events, hl, List.append_assoc, Job.shifts_succ hn (h.q hn)]

theorem Job.limit_pos (j : Job) : 4 ≤ j.limit := by
  have hpos := j.pos
  unfold Job.limit pageSize
  omega

theorem Writing.step_waitFifo (h : Writing j p come early l w) (hs : w.ec.ecNextState = .waitFifo) :
    Writing j p (come ++ i.arrivals) (early ++ earlyArrivals i w)
      (l ++ (Writer.step i w).ec.events) (Writer.step i w) := by
  have hstage := h.stage
  have hlimit := j.limit_pos
  simp only [WriteStage, hs] at hstage
  obtain ⟨haddr, hl, hearly, ⟨htimer, hdone, hreq, hbuffer⟩ | hfilling⟩ := hstage
  · obtain ⟨hstate, htimer', hreq', haddr', hcurr, hdone', htodo', hevents⟩ :=
      ecStep_waitFifo_one (i := { i.ec with wrbuffQ := w.buffer.q }) (d := i.data) hs htimer
    refine ⟨h.page, htodo'.trans h.todo, hcurr.trans h.current, ?_⟩
    have hstate : (Writer.step i w).ec.ecNextState = .waitFifo := hstate
    have hevents : (Writer.step i w).ec.events = [] := hevents
    simp only [WriteStage, hstate, hevents, List.append_nil]
    refine ⟨haddr'.trans haddr, hl, early_all hearly (by simp [hs]), Or.inr ?_⟩
    constructor
    · exact htimer'
    · exact hdone'.trans hdone
    · rw [decide_eq_true (by omega)]
      exact hreq'
    · rw [min_eq_left (by omega)]
      exact buffer_read hreq hbuffer
    · intro _
      exact q_read hreq hbuffer h.page
  · obtain ⟨hshift, hshifted, hreq'⟩ :=
      ecStep_waitFifo_two (i := { i.ec with wrbuffQ := w.buffer.q }) (d := i.data) hs hfilling.timer
    have hpos : 0 < j.pageBytes p := by
      have hpage := h.page
      unfold Job.pageBytes pageSize at *
      omega
    have hreq' : (Writer.step i w).ec.wrbuffRdreq = decide (0 + 3 ≤ j.limit) := by
      rw [decide_eq_true (by omega)]
      exact hreq'
    have hl : l = j.pages p ++ j.shifts p 0 := by rw [hl, j.shifts_zero, List.append_nil]
    obtain ⟨hfilling', hl'⟩ := hfilling.shift hpos hshift hreq' hl
    refine ⟨h.page, hshift.todo.trans h.todo, hshift.current.trans h.current, ?_⟩
    have hstate : (Writer.step i w).ec.ecNextState = .shiftBytes := hshift.state
    simp only [WriteStage, hstate]
    exact ⟨hshift.address.trans haddr, early_all hearly (by simp [hs]), 1, hshifted, hpos, hl',
      hfilling'⟩

theorem Writing.step_shiftBytes (h : Writing j p come early l w)
    (hs : w.ec.ecNextState = .shiftBytes) :
    Writing j p (come ++ i.arrivals) (early ++ earlyArrivals i w)
      (l ++ (Writer.step i w).ec.events) (Writer.step i w) := by
  have hstage := h.stage
  have hpage := h.page
  simp only [WriteStage, hs] at hstage
  obtain ⟨haddr, hearly, n, hshifted, hn, hl, hfilling⟩ := hstage
  have hrequest : (Writer.step i w).ec.wrbuffRdreq = decide (n + 3 ≤ j.limit) := by
    have hrequest :=
      ecStep_shiftBytes_rdreq (i := { i.ec with wrbuffQ := w.buffer.q }) (d := i.data) hs
    rwa [hfilling.timer, h.todo] at hrequest
  rcases hn.lt_or_eq with hlt | rfl
  · have htodo : w.ec.bytesDone < w.ec.bytesTodo ∧ w.ec.bytesShifted < pageSize := by
      rw [hfilling.done, h.todo, hshifted]
      unfold Job.pageBytes at hlt
      omega
    obtain ⟨hshift, hshifted'⟩ :=
      ecStep_shiftBytes_more (i := { i.ec with wrbuffQ := w.buffer.q }) (d := i.data) hs htodo.1
        htodo.2
    obtain ⟨hfilling', hl'⟩ := hfilling.shift hlt hshift hrequest hl
    refine ⟨hpage, hshift.todo.trans h.todo, hshift.current.trans h.current, ?_⟩
    have hstate : (Writer.step i w).ec.ecNextState = .shiftBytes := hshift.state
    simp only [WriteStage, hstate]
    exact ⟨hshift.address.trans haddr, early_all hearly (by simp [hs]), n + 1,
      hshifted'.trans (by rw [hshifted]), hlt, hl', hfilling'⟩
  · have hlast : w.ec.bytesTodo ≤ w.ec.bytesDone ∨ pageSize ≤ w.ec.bytesShifted := by
      rw [hfilling.done, h.todo, hshifted]
      unfold Job.pageBytes
      omega
    obtain ⟨hstate, -, hcurr, hdone, htodo, hevents⟩ :=
      ecStep_shiftBytes_last (i := { i.ec with wrbuffQ := w.buffer.q }) (d := i.data) hs hlast
    have hread := hfilling.read (i := i)
    refine ⟨hpage, htodo.trans h.todo, hcurr.trans h.current, ?_⟩
    have hstate : (Writer.step i w).ec.ecNextState = .waitWrite := hstate
    have hdone : (Writer.step i w).ec.bytesDone = pageSize * p + j.pageBytes p :=
      hdone.trans hfilling.done
    have hevents : (Writer.step i w).ec.events = [.write w.ec.epcqioAddr] := hevents
    have hl' : l ++ (Writer.step i w).ec.events = j.pages (p + 1) := by
      rw [hl, hevents, haddr, j.pages_succ, j.shifts_pageBytes, List.append_assoc]
    simp only [WriteStage, hstate]
    refine ⟨hdone, hl', ?_⟩
    rw [hdone, hrequest, early_all hearly (by simp [hs])]
    have hsmall := j.small
    unfold Job.pageBytes Job.limit pageSize at *
    split_ifs with hfull
    · by_cases hwords : j.nwords ≤ 64
      · -- all that is read has been shifted
        obtain ⟨k, hk, hlength, hexact, -⟩ := hread
        obtain rfl : k = 4 * j.nwords := by
          rw [hexact (by omega)]
          omega
        exact Or.inr ⟨decide_eq_false (by omega), _, hk, le_rfl, hlength, by simp [hwords]⟩
      · -- the second page is read on
        refine Or.inl ⟨decide_eq_true (by omega), by omega, rfl, ?_⟩
        rwa [show 256 * p + min (min 256 (4 * j.nwords - 256 * p) + 2) (min 256 (4 * j.nwords)) =
          4 * j.nwords + 2 by omega] at hread
    · refine ⟨decide_eq_false (by omega), rfl, ?_⟩
      rwa [show 256 * p + min (min 256 (4 * j.nwords - 256 * p) + 2) (min 256 (4 * j.nwords)) =
        256 * (p + 1) by omega] at hread

/-- The read of the second page that is one too many finds a byte if there is one. -/
theorem over_read (hr : w.ec.wrbuffRdreq = true) (hwords : 64 < j.nwords)
    (h : Remains (4 * j.nwords) (4 * j.nwords + 2) (j.stored ++ come) w.buffer.contents) :
    Over j (come ++ i.arrivals) come (Writer.step i w) := by
  obtain ⟨k, hk, hlength, -, hmore⟩ := h
  have hpast : 4 * j.nwords ≤ k := hmore (by omega)
  have hcontents : (Writer.step i w).buffer.contents =
      ((j.stored ++ come).drop k).tail ++ i.arrivals := by
    rw [Writer.step, hr, ← hk]
    rfl
  unfold Over
  rw [← List.append_assoc, hcontents]
  rcases hlength.lt_or_eq with hlt | rfl
  · refine ⟨k + 1, ?_, by omega, ?_, by omega⟩
    · rw [List.tail_drop, List.drop_append_of_le_length hlt]
    · rw [List.length_append]
      omega
  · refine ⟨(j.stored ++ come).length, by simp, hpast, by simp, by omega⟩

theorem Over.wait (h : Over j come early w) (hr : w.ec.wrbuffRdreq = false) :
    Over j (come ++ i.arrivals) early (Writer.step i w) := by
  obtain ⟨k, hk, hmore, hlength, hiff⟩ := h
  refine ⟨k, ?_, hmore, ?_, hiff⟩
  · rw [← List.append_assoc, List.drop_append_of_le_length hlength, ← hk, Writer.step, hr]
    rfl
  · rw [← List.append_assoc, List.length_append]
    omega

theorem Writing.step_waitWrite (h : Writing j p come early l w)
    (hs : w.ec.ecNextState = .waitWrite) :
    (∃ p', Writing j p' (come ++ i.arrivals) (early ++ earlyArrivals i w)
        (l ++ (Writer.step i w).ec.events) (Writer.step i w)) ∨
      (Writer.step i w).ec.ecNextState = .idle ∧ (Writer.step i w).ec.events = [] ∧
        l = j.pages j.pageCount ∧
        Over j (come ++ i.arrivals) (early ++ earlyArrivals i w) (Writer.step i w) := by
  have hstage := h.stage
  have hpage := h.page
  have htodo := h.todo
  simp only [WriteStage, hs] at hstage
  obtain ⟨hdone, hl, hstage⟩ := hstage
  obtain ⟨hreq', hdone', htodo', hevents', hnext⟩ :=
    ecStep_waitWrite (i := { i.ec with wrbuffQ := w.buffer.q }) (d := i.data) hs
  have hreq' : (Writer.step i w).ec.wrbuffRdreq = false := hreq'
  have hdone' : (Writer.step i w).ec.bytesDone = w.ec.bytesDone := hdone'
  have hevents' : (Writer.step i w).ec.events = [] := hevents'
  rw [hevents', List.append_nil]
  by_cases hfull : 4 * j.nwords ≤ w.ec.bytesDone
  · rw [if_pos hfull] at hstage
    have hearly : early ++ earlyArrivals i w = early := by
      rw [earlyArrivals, if_pos ⟨hs, htodo.le.trans hfull⟩, List.append_nil]
    have hover : Over j (come ++ i.arrivals) early (Writer.step i w) := by
      rcases hstage with ⟨hreq, hwords, rfl, hremains⟩ | ⟨hreq, hover⟩
      · exact over_read hreq hwords hremains
      · exact hover.wait hreq
    rw [hearly]
    rcases hnext with ⟨hstate, hcurr⟩ | ⟨hstate, -⟩ | ⟨-, hmore, -⟩
    · refine Or.inl ⟨p, hpage, htodo'.trans htodo, hcurr.trans h.current, ?_⟩
      have hstate : (Writer.step i w).ec.ecNextState = .waitWrite := hstate
      simp only [WriteStage, hstate, hdone', if_pos hfull]
      exact ⟨hdone, hl, Or.inr ⟨hreq', hover⟩⟩
    · refine Or.inr ⟨hstate, rfl, ?_, hover⟩
      have hcount : j.pageCount = p + 1 := by
        unfold Job.pageCount Job.pageBytes pageSize at *
        omega
      rw [hl, hcount]
    · omega
  · rw [if_neg hfull] at hstage
    obtain ⟨hreq, hearly, hremains⟩ := hstage
    have hbuffer := buffer_wait (i := i) hreq hremains
    have hearly : early ++ earlyArrivals i w = come ++ i.arrivals := by
      rw [hearly, earlyArrivals, if_neg fun hw => hfull (htodo ▸ hw.2)]
    rw [hearly]
    rcases hnext with ⟨hstate, hcurr⟩ | ⟨-, hless⟩ | ⟨hstate, hmore, hcurr⟩
    · refine Or.inl ⟨p, hpage, htodo'.trans htodo, hcurr.trans h.current, ?_⟩
      have hstate : (Writer.step i w).ec.ecNextState = .waitWrite := hstate
      simp only [WriteStage, hstate, hdone', if_neg hfull]
      exact ⟨hdone, hl, hreq', trivial, hbuffer⟩
    · omega
    · have hpageBytes : j.pageBytes p = pageSize := by
        unfold Job.pageBytes at *
        omega
      refine Or.inl ⟨p + 1, ?_, htodo'.trans htodo, ?_, ?_⟩
      · rw [hpageBytes] at hdone
        rw [Nat.mul_succ]
        omega
      · change (Writer.step i w).ec.currAddress = _ at hcurr
        rw [hcurr, h.current, Job.pageAddress, Job.pageAddress, Nat.mul_succ, BitVec.ofNat_add,
          BitVec.add_assoc]
      · have hstate : (Writer.step i w).ec.ecNextState = .start .write := hstate
        simp only [WriteStage, hstate]
        rw [hpageBytes] at hdone
        exact ⟨trivial, hdone'.trans hdone, hreq', hl, hbuffer, trivial⟩

/-- One edge of a write. -/
theorem Writing.step (h : Writing j p come early l w) :
    (∃ p', Writing j p' (come ++ i.arrivals) (early ++ earlyArrivals i w)
        (l ++ (Writer.step i w).ec.events) (Writer.step i w)) ∨
      (Writer.step i w).ec.ecNextState = .idle ∧ (Writer.step i w).ec.events = [] ∧
        l = j.pages j.pageCount ∧
        Over j (come ++ i.arrivals) (early ++ earlyArrivals i w) (Writer.step i w) := by
  cases hs : w.ec.ecNextState with
  | start c => exact Or.inl ⟨p, h.step_start hs⟩
  | waitFifo => exact Or.inl ⟨p, h.step_waitFifo hs⟩
  | shiftBytes => exact Or.inl ⟨p, h.step_shiftBytes hs⟩
  | waitWrite => exact h.step_waitWrite hs
  | hwReset | idle | readBuffer | waitBusy =>
    have hstage := h.stage
    simp only [WriteStage, hs] at hstage

theorem Writing.ne_idle (h : Writing j p come early l w) : w.ec.ecNextState ≠ .idle := by
  intro hs
  have hstage := h.stage
  simp only [WriteStage, hs] at hstage

end

/-! ## Runs -/

section

variable {i : WriterInput} {w : Writer} {j : Job} {is js ks : List WriterInput}

/-- In `IDLE` nothing is asked of the buffer or of the flash interface. -/
structure QuietIdle (s : EcSide) : Prop where
  request : s.ecNextState = .idle → s.wrbuffRdreq = false
  events : s.ecNextState = .idle → s.events = []

theorem quietIdle_step (i : EcInput) (d : DataSide) (s : EcSide) : QuietIdle (ecStep i d s) := by
  have h : (ecStep i d s).ecNextState = .idle →
      (ecStep i d s).wrbuffRdreq = false ∧ (ecStep i d s).events = [] := by
    cases hs : s.ecNextState with
    | start c => cases c <;> simp [ecStep, epcioControl, hs]
    | idle =>
      simp only [ecStep, epcioControl, hs]
      split_ifs
      · intro hidle
        cases hidle
      · split
        · intro hidle
          cases hidle
        · simp [ecDefaults, EcSide.events]
    | hwReset | readBuffer | waitFifo | shiftBytes | waitWrite | waitBusy =>
      simp only [ecStep, epcioControl, hs]
      (try split_ifs) <;> simp [ecDefaults, EcSide.events, hs]
  exact ⟨fun hs => (h hs).1, fun hs => (h hs).2⟩

theorem quietIdle_run (js : List WriterInput) : QuietIdle (run Writer.step .reset js).ec := by
  induction js using List.reverseRecOn with
  | nil => exact ⟨fun _ => rfl, fun _ => rfl⟩
  | append_singleton js i _ =>
    rw [run_concat]
    exact quietIdle_step ..

/-- The write is taken at the next edge. -/
structure Takes (j : Job) (w : Writer) : Prop where
  idle : w.ec.ecNextState = .idle
  en4b : w.ec.en4bEnabled = true
  command : w.ec.ecCmdSync.last = ecmdStart .write
  address : w.ec.addressSync.last = j.address
  nwords : w.ec.nwordsSync.last.toNat = j.nwords
  stored : w.buffer.contents = j.stored

theorem Writing.of_taken (h : Takes j w) (hq : QuietIdle w.ec) :
    Writing j 0 i.arrivals (earlyArrivals i w) (Writer.step i w).ec.events (Writer.step i w) := by
  have htaken : taken w.ec.lastCmd w.ec.lastAddress w.ec.addressSync.last w.ec.ecCmdSync.last =
      some .write := by
    rw [h.command]
    rfl
  obtain ⟨hstate, -, -, -, hcurr, htodo, hdone⟩ :=
    ecStep_taken (i := { i.ec with wrbuffQ := w.buffer.q }) (d := i.data) h.idle h.en4b htaken
  have hpos := j.pos
  rw [h.nwords] at htodo
  refine ⟨by omega, htodo.trans (Nat.mul_comm _ _), ?_, ?_⟩
  · exact (hcurr.trans h.address).trans (by simp [Job.pageAddress])
  · have hstate : (Writer.step i w).ec.ecNextState = .start .write := hstate
    simp only [WriteStage, hstate]
    have hquiet : (Writer.step i w).ec.wrbuffRdreq = false ∧ (Writer.step i w).ec.events = [] := by
      simp [Writer.step, ecStep, epcioControl, h.idle, h.en4b, htaken, ecDefaults, EcSide.events]
    refine ⟨trivial, hdone, hquiet.1, hquiet.2, ?_, ?_⟩
    · rw [← List.nil_append i.arrivals]
      apply buffer_wait (hq.request h.idle)
      rw [List.append_nil, h.stored]
      exact remains_zero _ _
    · rw [earlyArrivals, if_neg (by simp [h.idle])]

/-- Until `IDLE` is reached again the write is under way. -/
theorem writing_run (h : Takes j w) (hq : QuietIdle w.ec) (hne : is ≠ [])
    (hfirst : ∀ js, js <+: is → js ≠ [] → js ≠ is →
      (run Writer.step w js).ec.ecNextState ≠ .idle) :
    (∃ p, Writing j p (log Writer.step arrivals w is) (log Writer.step earlyArrivals w is)
        (log Writer.step flashEvents w is ++ (run Writer.step w is).ec.events)
        (run Writer.step w is)) ∨
      (run Writer.step w is).ec.ecNextState = .idle ∧
        log Writer.step flashEvents w is = j.pages j.pageCount ∧
        Over j (log Writer.step arrivals w is) (log Writer.step earlyArrivals w is)
          (run Writer.step w is) := by
  induction is using List.reverseRecOn with
  | nil => exact absurd rfl hne
  | append_singleton is i ih =>
    simp only [log_concat, run_concat]
    by_cases his : is = []
    · subst his
      have hevents : flashEvents i w = [] := hq.events h.idle
      simp only [log_nil, run_nil, List.nil_append, hevents]
      exact Or.inl ⟨0, Writing.of_taken h hq⟩
    · have hprefix : is <+: is ++ [i] := List.prefix_append _ _
      rcases ih his fun js hp hjs hne => hfirst js (hp.trans hprefix) hjs fun heq => by
        have hlength := hp.length_le
        rw [heq, List.length_append, List.length_singleton] at hlength
        omega with ⟨p, hwriting⟩ | ⟨hidle, -⟩
      · rcases hwriting.step (i := i) with hstep | ⟨hidle, -, hl, hover⟩
        · exact Or.inl hstep
        · exact Or.inr ⟨hidle, hl, hover⟩
      · exact absurd hidle
          (hfirst is hprefix his fun heq => by simpa using congrArg List.length heq)

/-- The bytes behind those that were written are in the buffer exactly if no byte too
    many has been read. -/
theorem Over.consumes_iff {come early : List (BitVec 8)} {l : List FlashEvent}
    (h : Over j come early w) (hl : l = j.pages j.pageCount) :
    Consumes j come l w ↔ j.nwords ≤ 64 ∨ (j.stored ++ early).length ≤ 4 * j.nwords := by
  obtain ⟨k, hk, hmore, hlength, hiff⟩ := h
  rw [← hiff]
  have hrest : j.stored.drop (4 * j.nwords) ++ come = (j.stored ++ come).drop (4 * j.nwords) := by
    rw [List.drop_append_of_le_length j.enough]
  constructor
  · rintro ⟨-, hbuffer⟩
    rw [hk, hrest] at hbuffer
    have hdrop := congrArg List.length hbuffer
    rw [List.length_drop, List.length_drop] at hdrop
    omega
  · rintro rfl
    exact ⟨hl, by rw [hk, hrest]⟩

/-! ## Termination -/

/-- The number of edges a write may still take while the flash interface is not busy. -/
def remaining (s : EcSide) : ℕ :=
  20 * (s.bytesTodo - s.bytesDone) +
    match s.ecNextState with
    | .start _ => 3
    | .waitFifo => 3 - s.fifoTimer
    | .shiftBytes => 14
    | .waitWrite => 4 + (9 - s.waitTimer)
    | _ => 0

theorem remaining_le (s : EcSide) : remaining s ≤ 20 * s.bytesTodo + 14 := by
  unfold remaining
  split <;> omega

theorem Writing.remaining_step {p : ℕ} {come early : List (BitVec 8)} {l : List FlashEvent}
    (h : Writing j p come early l w) (hbusy : i.ec.epcqioBusy = false) :
    (Writer.step i w).ec.ecNextState = .idle ∨
      remaining (Writer.step i w).ec < remaining w.ec := by
  have hstage := h.stage
  have hpage := h.page
  have htodo := h.todo
  change (ecStep _ _ _).ecNextState = _ ∨
    remaining (ecStep { i.ec with wrbuffQ := w.buffer.q } i.data w.ec) < _
  cases hs : w.ec.ecNextState with
  | start c =>
    simp only [WriteStage, hs] at hstage
    obtain ⟨rfl, -⟩ := hstage
    right
    simp [remaining, ecStep, epcioControl, hs, ecDefaults]
  | waitFifo =>
    simp only [WriteStage, hs] at hstage
    obtain ⟨-, -, -, ⟨htimer, -⟩ | hfilling⟩ := hstage
    · right
      simp [remaining, ecStep, epcioControl, hs, htimer, fifoDelay, ecDefaults]
    · right
      have hdone := hfilling.done
      simp [remaining, ecStep, epcioControl, hs, hfilling.timer, fifoDelay, ecDefaults]
      omega
  | shiftBytes =>
    right
    simp only [remaining, ecStep, epcioControl, hs]
    split_ifs <;> simp [ecDefaults, hs]
    omega
  | waitWrite =>
    simp only [remaining, ecStep, epcioControl, hs, hbusy]
    by_cases htimer : w.ec.waitTimer < 8
    · simp [htimer, ecDefaults, hs]
      omega
    · by_cases hdone : w.ec.bytesTodo ≤ w.ec.bytesDone
      · simp [htimer, hdone]
      · simp [htimer, hdone, ecDefaults]
        omega
  | hwReset | idle | readBuffer | waitBusy => simp only [WriteStage, hs] at hstage

/-- With the flash interface not busy a write comes to its end. -/
theorem Writing.ends {p : ℕ} {come early : List (BitVec 8)} {l : List FlashEvent}
    (h : Writing j p come early l w) (hbusy : ∀ i ∈ ks, i.ec.epcqioBusy = false)
    (hlength : remaining w.ec < ks.length) :
    ∃ js, js <+: ks ∧ js ≠ [] ∧ (run Writer.step w js).ec.ecNextState = .idle := by
  induction ks generalizing w p come early l with
  | nil => exact absurd hlength (Nat.not_lt_zero _)
  | cons i ks ih =>
    rcases h.step (i := i) with ⟨p', h'⟩ | ⟨hidle, -⟩
    · rcases h.remaining_step (hbusy i List.mem_cons_self) with hidle | hless
      · exact absurd hidle h'.ne_idle
      · rw [List.length_cons] at hlength
        obtain ⟨js, hp, hne, hidle⟩ :=
          ih h' (fun i hi => hbusy i (List.mem_cons_of_mem _ hi)) (by omega)
        exact ⟨i :: js, (List.cons_prefix_cons).2 ⟨rfl, hp⟩, by simp, hidle⟩
    · exact ⟨[i], by simp, by simp, hidle⟩

/-- A run that has been back in `IDLE` has been there for a first time. -/
theorem exists_completes (hp : js <+: is) (hne : js ≠ [])
    (hidle : (run Writer.step w js).ec.ecNextState = .idle) : ∃ js, js <+: is ∧ Completes w js := by
  induction hn : js.length using Nat.strong_induction_on generalizing js with
  | _ n ih =>
    by_cases hfirst : ∀ ks, ks <+: js → ks ≠ [] → ks ≠ js →
        (run Writer.step w ks).ec.ecNextState ≠ .idle
    · exact ⟨js, hp, hne, hidle, hfirst⟩
    · push Not at hfirst
      obtain ⟨ks, hks, hnil, hproper, hback⟩ := hfirst
      refine ih ks.length ?_ (hks.trans hp) hnil hback rfl
      rw [← hn]
      exact lt_of_le_of_ne hks.length_le fun heq => hproper (hks.eq_of_length heq)

/-- Unless the flash interface stays busy, a write ends. -/
theorem exists_completes_of_free (h : Takes j w) (hq : QuietIdle w.ec)
    (hbusy : ∀ i ∈ ks, i.ec.epcqioBusy = false) (hlength : 80 * j.nwords + 20 ≤ ks.length) :
    ∃ js, js <+: is ++ ks ∧ Completes w js := by
  obtain ⟨is₁, ks₁, heq, hne, hbusy₁, hlength₁⟩ : ∃ is₁ ks₁, is ++ ks = is₁ ++ ks₁ ∧ is₁ ≠ [] ∧
      (∀ i ∈ ks₁, i.ec.epcqioBusy = false) ∧ 80 * j.nwords + 19 ≤ ks₁.length := by
    cases is with
    | nil =>
      cases ks with
      | nil => exact absurd hlength (by simp)
      | cons i ks =>
        rw [List.length_cons] at hlength
        exact ⟨[i], ks, rfl, by simp, fun k hk => hbusy k (List.mem_cons_of_mem _ hk), by omega⟩
    | cons i is => exact ⟨i :: is, ks, rfl, by simp, hbusy, by omega⟩
  rw [heq]
  by_cases hback : ∃ js, js <+: is₁ ∧ js ≠ [] ∧ (run Writer.step w js).ec.ecNextState = .idle
  · obtain ⟨js, hp, hjs, hidle⟩ := hback
    exact exists_completes (hp.trans (List.prefix_append _ _)) hjs hidle
  · rcases writing_run h hq hne fun js hp hjs _ hidle => hback ⟨js, hp, hjs, hidle⟩ with
      ⟨p, hwriting⟩ | ⟨hidle, -⟩
    · have hremaining := remaining_le (run Writer.step w is₁).ec
      rw [hwriting.todo] at hremaining
      obtain ⟨js, hp, hjs, hidle⟩ := hwriting.ends hbusy₁ (by omega)
      rw [← run_append] at hidle
      exact exists_completes ((List.prefix_append_right_inj _).2 hp) (by simp [hne]) hidle
    · exact absurd ⟨is₁, List.prefix_refl _, hne, hidle⟩ hback

/-- When the write ends, the bytes behind its own are in the buffer exactly if it had
    one page, or none was there before the last page was being written. -/
theorem Completes.consumes_iff (h : Takes j w) (hq : QuietIdle w.ec) (hc : Completes w is) :
    Consumes j (log Writer.step arrivals w is) (log Writer.step flashEvents w is)
        (run Writer.step w is) ↔
      j.nwords ≤ 64 ∨ (j.stored ++ log Writer.step earlyArrivals w is).length ≤ 4 * j.nwords := by
  rcases writing_run h hq hc.ne_nil hc.first with ⟨p, hwriting⟩ | ⟨-, hl, hover⟩
  · exact absurd hc.back hwriting.ne_idle
  · exact hover.consumes_iff hl

/-- In every run, a write of 1 to 127 words that is taken when the buffer holds its
    bytes ends, unless the flash interface stays busy, and leaves the bytes behind
    its own exactly if it has one page, or none was there before the last page was
    being written. -/
theorem consumed_iff (h : Takes j (run Writer.step .reset js)) :
    (∀ is ks, (∀ i ∈ ks, i.ec.epcqioBusy = false) → 80 * j.nwords + 20 ≤ ks.length →
      ∃ is', is' <+: is ++ ks ∧ Completes (run Writer.step .reset js) is') ∧
    ∀ is, Completes (run Writer.step .reset js) is →
      (Consumes j (log Writer.step arrivals (run Writer.step .reset js) is)
          (log Writer.step flashEvents (run Writer.step .reset js) is)
          (run Writer.step (run Writer.step .reset js) is) ↔
        j.nwords ≤ 64 ∨
          (j.stored ++ log Writer.step earlyArrivals (run Writer.step .reset js) is).length ≤
            4 * j.nwords) :=
  ⟨fun _ _ hbusy hlength => exists_completes_of_free h (quietIdle_run js) hbusy hlength,
    fun _ hc => hc.consumes_iff h (quietIdle_run js)⟩

/-- An edge while the data side holds the command to write `n` words at address 0. -/
def writeEdge (n : BitVec 7) (arrivals : List (BitVec 8)) : WriterInput where
  ec := ⟨false, false, 0, 0, 0, 0⟩
  data := { dataReset with ecCmd := ecmdStart .write, nwords := n }
  arrivals := arrivals

/-- From power-up until the command is taken: 4-byte addressing is enabled first. -/
def untilTaken (n : BitVec 7) (stored : List (BitVec 8)) : List WriterInput :=
  writeEdge n stored :: List.replicate 6 (writeEdge n [])

theorem free_writeEdges (n : BitVec 7) (k : ℕ) :
    ∀ i ∈ List.replicate k (writeEdge n []), i.ec.epcqioBusy = false := by
  intro i hi
  rw [List.eq_of_mem_replicate hi]
  rfl

theorem earlyArrivals_writeEdges (n : BitVec 7) (k : ℕ) (w : Writer) :
    log Writer.step earlyArrivals w (List.replicate k (writeEdge n [])) = [] := by
  induction k generalizing w with
  | zero => rfl
  | succ k ih =>
    rw [List.replicate_succ, log_cons, ih, List.append_nil]
    exact ite_self []

/-- A page and one word more. -/
def pageAndWord : Job :=
  ⟨0, 65, List.replicate 260 0, by decide, by decide, by rw [List.length_replicate]⟩

theorem consumed_iff_pageAndWord :
    ∃ is, Completes (run Writer.step .reset (untilTaken 65 pageAndWord.stored)) is ∧
      Consumes pageAndWord
        (log Writer.step arrivals (run Writer.step .reset (untilTaken 65 pageAndWord.stored)) is)
        (log Writer.step flashEvents (run Writer.step .reset (untilTaken 65 pageAndWord.stored))
          is)
        (run Writer.step (run Writer.step .reset (untilTaken 65 pageAndWord.stored)) is) := by
  have htakes : Takes pageAndWord (run Writer.step .reset (untilTaken 65 pageAndWord.stored)) :=
    ⟨rfl, rfl, rfl, rfl, rfl, by decide +kernel⟩
  obtain ⟨is, hp, hc⟩ := (consumed_iff htakes).1 [] (List.replicate 5220 (writeEdge 65 []))
    (free_writeEdges 65 5220) (by rw [List.length_replicate]; decide)
  rw [List.nil_append, List.prefix_replicate_iff] at hp
  refine ⟨is, hc, ((consumed_iff htakes).2 is hc).2 (Or.inr ?_)⟩
  rw [hp.2, earlyArrivals_writeEdges, List.append_nil]
  exact List.length_replicate.le

/-- 65 words, with one more behind them. -/
def twoPages : Job :=
  ⟨0, 65, List.replicate 264 0, by decide, by decide, by rw [List.length_replicate]; decide⟩

/-- Bytes of the word behind are taken from the buffer. -/
theorem word_behind_consumed :
    Takes twoPages (run Writer.step .reset (untilTaken 65 twoPages.stored)) ∧
      ∃ n, Completes (run Writer.step .reset (untilTaken 65 twoPages.stored))
          (List.replicate n (writeEdge 65 [])) ∧
        ¬Consumes twoPages
          (log Writer.step arrivals (run Writer.step .reset (untilTaken 65 twoPages.stored))
            (List.replicate n (writeEdge 65 [])))
          (log Writer.step flashEvents (run Writer.step .reset (untilTaken 65 twoPages.stored))
            (List.replicate n (writeEdge 65 [])))
          (run Writer.step (run Writer.step .reset (untilTaken 65 twoPages.stored))
            (List.replicate n (writeEdge 65 []))) := by
  have htakes : Takes twoPages (run Writer.step .reset (untilTaken 65 twoPages.stored)) :=
    ⟨rfl, rfl, rfl, rfl, rfl, by decide +kernel⟩
  have hq := quietIdle_run (untilTaken 65 twoPages.stored)
  have hlength : 80 * twoPages.nwords + 20 ≤ (List.replicate 5220 (writeEdge 65 [])).length := by
    rw [List.length_replicate]
    decide
  obtain ⟨is, hp, hc⟩ : ∃ is', is' <+: [] ++ List.replicate 5220 (writeEdge 65 []) ∧
      Completes _ is' := exists_completes_of_free htakes hq (free_writeEdges 65 5220) hlength
  rw [List.nil_append, List.prefix_replicate_iff] at hp
  rw [hp.2] at hc
  refine ⟨htakes, is.length, hc, ?_⟩
  rw [hc.consumes_iff htakes hq, List.length_append]
  simp only [twoPages, List.length_replicate]
  omega

end

end FpgaEthernet.EpcqioControl
