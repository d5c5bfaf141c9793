import FpgaEthernet.Clocked.Run
import FpgaEthernet.Clocked.Fifo
import FpgaEthernet.Ethernet.UdpDataBuffer

/-!
# `input_fifo_manager`

Model of `ethernet/input_fifo_manager.vhd` for any number `N` of FIFOs. The
entity has `N + 1` clocks: an input says which of them have a rising edge, and
several may have one together.

The FIFOs are ideal (`Clocked.Fifo`) with a registered output. The used-word
counts they report are inputs of the model.

Main results:

* `triggerPayloadRdy_cases`: the multiplexer only moves at the end of a scan,
  when no transmission is under way, and `payload_rdy` rises with it.
* `step_fifos`: what is read from a FIFO followed by what stays is what it held
  followed by what it has accepted.
-/

namespace FpgaEthernet

/-- `IN_FIFO_AFULL` (`eth_common.vhd` line 55). -/
def inFifoAfull : ℕ := 1948

/-- `INFIFO_PRIORITY` (`eth_common.vhd` line 68). -/
def infifoPriority : BitVec 2 := 0b11

namespace InputFifoManager

open Clocked

variable {N : ℕ}

/-! ## Model -/

/-- The rising edges and the input ports (`input_fifo_manager.vhd` lines 68-101),
    and the used-word count each FIFO reports. -/
structure Input (N : ℕ) where
  clock : Bool
  wrclks : Fin N → Bool
  wrreqs : Fin N → Bool
  dataIn : Fin N → Word
  rdusedw : Fin N → BitVec 11
  txBusy : Bool
  rdreq : Bool
  payloadSize : Fin N → BitVec 11
  flags : Fin N → BitVec 2

/-- The registers, the FIFOs with their output registers, and the variables of
    the processes. `fullest_fifo` is `none` where the source has `NFIFOS`, whose
    entry in `fifo_used_words` is always zero. -/
structure State (N : ℕ) where
  fifos : Fin N → Fifo Word 2048
  fifoOuts : Fin N → Word
  wrreqsSig : Fin N → Bool
  dataInSig : Fin N → Word
  fifoNearfull : Fin N → Bool
  fifoFlush : Fin N → Bool
  flushCounter : Fin N → ℕ
  fifoFlushReg : Fin N → Bool
  flushLatch : Fin N → Bool
  fifoUsedWords : Fin N → ℕ
  fullestFifo : Option (Fin N)
  step : ℤ
  payloadRdy : Bool
  muxSel : Fin N
  rdreqs : Fin N → Bool
  dataOutSig : Word

/-- `fifo_in_reg` (lines 179-189) and `fifo_full_signaller` (lines 209-221). -/
def fifoInReg (i : Input N) (s : State N) : State N :=
  { s with
    wrreqsSig := fun I =>
      if i.wrclks I then (if s.fifoNearfull I then false else i.wrreqs I) else s.wrreqsSig I
    dataInSig := fun I => if i.wrclks I then i.dataIn I else s.dataInSig I
    fifoNearfull := fun I =>
      if i.wrclks I then decide ((i.rdusedw I).extractLsb' 7 4 = BitVec.allOnes 4)
      else s.fifoNearfull I }

/-- `flush_stale` (lines 226-248) of FIFO `I`: the new `fifo_flush` and counter. -/
def flushStale (i : Input N) (s : State N) (I : Fin N) : Bool × ℕ :=
  if s.wrreqsSig I || s.rdreqs I then (false, 0)
  else if inFifoStaleThreshold ≤ s.flushCounter I ∨ inFifoAfull ≤ (i.rdusedw I).toNat then
    (true, s.flushCounter I)
  else if 0 < (i.rdusedw I).toNat then (false, s.flushCounter I + 1)
  else (false, s.flushCounter I)

/-- One step of `flush_sig_synch` (lines 254-278) for FIFO `I`: the new
    `fifo_flush_reg` and `flush_latch`. -/
def flushSigSynch (s : State N) (I : Fin N) : Bool × Bool :=
  if s.fifoFlush I = false then (false, false)
  else if s.flushLatch I = false then
    if s.rdreqs I then (false, true) else (true, s.flushLatch I)
  else (s.fifoFlushReg I, s.flushLatch I)

/-- `fifo_used_words(fullest_fifo)`. -/
def fullestUsed (s : State N) : ℕ := (s.fullestFifo.map s.fifoUsedWords).getD 0

/-- The size check of `trigger_payload_rdy` for FIFO `I` (lines 322-338). -/
def scan (i : Input N) (s : State N) (I : Fin N) : State N :=
  if (i.flags I = infifoPriority ∧ (i.payloadSize I).toNat ≤ s.fifoUsedWords I) ∨
      s.fifoFlushReg I = true then
    -- the source sets `step` to `NFIFOS-1` here and adds one below
    { s with fullestFifo := some I, step := N }
  else if (i.flags I).getLsbD 0 = true ∧ fullestUsed s < s.fifoUsedWords I ∧
      (i.payloadSize I).toNat ≤ s.fifoUsedWords I then
    { s with fullestFifo := some I, step := s.step + 1 }
  else { s with step := s.step + 1 }

/-- `trigger_payload_rdy` (lines 282-344). -/
def triggerPayloadRdy (i : Input N) (s : State N) : State N :=
  if s.step = -1 then
    { s with
      fifoUsedWords := fun I => (i.rdusedw I).toNat
      fullestFifo := none
      step := 0 }
  else if s.step = N then
    { s with
      muxSel := match s.fullestFifo with
        | some I => if i.txBusy then s.muxSel else I
        | none => s.muxSel
      payloadRdy := s.fullestFifo.isSome && !i.txBusy
      step := -1 }
  else if h : 0 ≤ s.step ∧ s.step < N then scan i s ⟨s.step.toNat, by omega⟩
  else s

/-- The processes on the logic clock other than `trigger_payload_rdy`:
    `flush_sig_synch`, `read_req_multiplexer` (lines 350-365) and `out_register`
    (lines 368-375). -/
def clockRegisters (i : Input N) (s : State N) : State N :=
  { s with
    fifoFlushReg := fun I => (flushSigSynch s I).1
    flushLatch := fun I => (flushSigSynch s I).2
    rdreqs := fun I => if I = s.muxSel then i.rdreq else false
    dataOutSig := s.fifoOuts s.muxSel }

/-- The signals after the edges the input names. Every process reads the
    signals as they were before. -/
def step (i : Input N) (s : State N) : State N :=
  let w := fifoInReg i s
  let t := if i.clock then triggerPayloadRdy i s else s
  let c := if i.clock then clockRegisters i s else s
  { fifos := fun I =>
      (s.fifos I).clock (i.wrclks I && s.wrreqsSig I) (s.dataInSig I) (i.clock && s.rdreqs I)
    fifoOuts := fun I => (s.fifos I).nextQ (i.clock && s.rdreqs I) (s.fifoOuts I)
    wrreqsSig := w.wrreqsSig
    dataInSig := w.dataInSig
    fifoNearfull := w.fifoNearfull
    fifoFlush := fun I => if i.wrclks I then (flushStale i s I).1 else s.fifoFlush I
    flushCounter := fun I => if i.wrclks I then (flushStale i s I).2 else s.flushCounter I
    fifoFlushReg := c.fifoFlushReg
    flushLatch := c.flushLatch
    fifoUsedWords := t.fifoUsedWords
    fullestFifo := t.fullestFifo
    step := t.step
    payloadRdy := t.payloadRdy
    muxSel := t.muxSel
    rdreqs := c.rdreqs
    dataOutSig := c.dataOutSig }

/-- The signals when reset is released. The variable `step` is not reset, so it
    may have any value `k` of its range. -/
def reset [NeZero N] (k : ℤ) : State N where
  fifos := fun _ => Fifo.empty
  fifoOuts := fun _ => 0
  wrreqsSig := fun _ => false
  dataInSig := fun _ => 0
  fifoNearfull := fun _ => false
  fifoFlush := fun _ => false
  flushCounter := fun _ => 0
  fifoFlushReg := fun _ => false
  flushLatch := fun _ => false
  fifoUsedWords := fun _ => 0
  fullestFifo := none
  step := k
  payloadRdy := false
  muxSel := 0
  rdreqs := fun _ => false
  dataOutSig := 0

/-- The signals after the events `is`, counted from reset. -/
def after [NeZero N] (k : ℤ) (is : List (Input N)) : State N := run step (reset k) is

/-- The used-word count a FIFO reports never exceeds the number of words in
    it. -/
def NeverOverReports (i : Input N) (s : State N) : Prop :=
  ∀ I, (i.rdusedw I).toNat ≤ (s.fifos I).contents.length

instance (i : Input N) (s : State N) : Decidable (NeverOverReports i s) := by
  unfold NeverOverReports
  infer_instance

/-- The word FIFO `I` takes in at an event. -/
def accepted (I : Fin N) (i : Input N) (s : State N) : List Word :=
  (s.fifos I).accepted (i.wrclks I && s.wrreqsSig I) (s.dataInSig I)

/-! ## Steps -/

theorem scan_muxSel (i : Input N) (s : State N) (I : Fin N) :
    (scan i s I).muxSel = s.muxSel ∧ (scan i s I).payloadRdy = s.payloadRdy := by
  unfold scan
  split_ifs <;> exact ⟨rfl, rfl⟩

/-- What a step of the scan does to the multiplexer and to `payload_rdy`:
    nothing before its end, and at its end they change together, unless nothing
    was found or a transmission is under way. -/
theorem triggerPayloadRdy_cases (i : Input N) (s : State N) :
    (s.step ≠ N ∧ (triggerPayloadRdy i s).muxSel = s.muxSel ∧
      (triggerPayloadRdy i s).payloadRdy = s.payloadRdy) ∨
    (s.step = N ∧ (triggerPayloadRdy i s).muxSel = s.muxSel ∧
      (triggerPayloadRdy i s).payloadRdy = false) ∨
    (s.step = N ∧ s.fullestFifo.isSome = true ∧ i.txBusy = false ∧
      (triggerPayloadRdy i s).step = -1 ∧ (triggerPayloadRdy i s).payloadRdy = true) := by
  by_cases h1 : s.step = -1
  · refine .inl ⟨by omega, ?_⟩
    rw [triggerPayloadRdy, if_pos h1]
    exact ⟨rfl, rfl⟩
  by_cases h2 : s.step = N
  · rw [triggerPayloadRdy, if_neg h1, if_pos h2]
    cases hf : s.fullestFifo with
    | none => exact .inr (.inl ⟨h2, rfl, rfl⟩)
    | some I =>
      cases hb : i.txBusy
      · exact .inr (.inr ⟨h2, rfl, rfl, rfl, rfl⟩)
      · exact .inr (.inl ⟨h2, rfl, rfl⟩)
  · refine .inl ⟨h2, ?_⟩
    rw [triggerPayloadRdy, if_neg h1, if_neg h2]
    split_ifs with h3
    · exact scan_muxSel _ _ _
    · exact ⟨rfl, rfl⟩

/-- In the middle of a scan. -/
theorem triggerPayloadRdy_scan (i : Input N) {s : State N} {I : Fin N} (h : s.step = I) :
    triggerPayloadRdy i s = scan i s I := by
  have hI := I.isLt
  rw [triggerPayloadRdy, if_neg (by omega), if_neg (by omega), dif_pos ⟨by omega, by omega⟩]
  congr
  omega

@[simp] theorem after_concat [NeZero N] (k : ℤ) (js : List (Input N)) (i : Input N) :
    after k (js ++ [i]) = step i (after k js) := run_concat _ _ _ _

@[simp] theorem step_muxSel (i : Input N) (s : State N) :
    (step i s).muxSel = if i.clock then (triggerPayloadRdy i s).muxSel else s.muxSel := by
  cases hc : i.clock <;> simp [step, hc]

@[simp] theorem step_payloadRdy (i : Input N) (s : State N) :
    (step i s).payloadRdy =
      if i.clock then (triggerPayloadRdy i s).payloadRdy else s.payloadRdy := by
  cases hc : i.clock <;> simp [step, hc]

@[simp] theorem step_step (i : Input N) (s : State N) :
    (step i s).step = if i.clock then (triggerPayloadRdy i s).step else s.step := by
  cases hc : i.clock <;> simp [step, hc]

@[simp] theorem step_fullestFifo (i : Input N) (s : State N) :
    (step i s).fullestFifo =
      if i.clock then (triggerPayloadRdy i s).fullestFifo else s.fullestFifo := by
  cases hc : i.clock <;> simp [step, hc]

@[simp] theorem step_rdreqs (i : Input N) (s : State N) (I : Fin N) :
    (step i s).rdreqs I =
      if i.clock then (if I = s.muxSel then i.rdreq else false) else s.rdreqs I := by
  cases hc : i.clock <;> simp [step, hc, clockRegisters]

@[simp] theorem step_dataOutSig (i : Input N) (s : State N) :
    (step i s).dataOutSig = if i.clock then s.fifoOuts s.muxSel else s.dataOutSig := by
  cases hc : i.clock <;> simp [step, hc, clockRegisters]

@[simp] theorem step_fifoOuts (i : Input N) (s : State N) (I : Fin N) :
    (step i s).fifoOuts I = (s.fifos I).nextQ (i.clock && s.rdreqs I) (s.fifoOuts I) := rfl

/-- What is read from a FIFO followed by what stays is what it held followed by
    what it has accepted. -/
theorem step_fifos (i : Input N) (s : State N) (I : Fin N) :
    (s.fifos I).taken (i.clock && s.rdreqs I) ++ ((step i s).fifos I).contents =
      (s.fifos I).contents ++ accepted I i s :=
  Fifo.taken_append_clock _ _ _ _

end InputFifoManager

end FpgaEthernet
