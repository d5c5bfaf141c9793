import FpgaEthernet.ConfigScanner.ScanNetwork

/-!
# A complete scan

What `config_block_scanner` sends when it is told to scan all blocks, with the
blocks behind `config_read_multiplexer`.

Main results:

* `Asking.step`, `Asking.finish`: `c` edges after a block was asked the machine
  waits for it or reads it, until all its words have been sent.
* `inv_run`: in every run the machine either rests, with no configuration word
  on its way, or asks one block.
* `complete_scan`: after `start_scan_blocks` the words of all blocks are sent,
  block after block, and then `scan_finished` is raised once.
-/

namespace FpgaEthernet.ConfigScan

open Clocked ConfigRegisterBlock ConfigBlockScanner

/-! ## What is observed -/

/-- A word on the UDP bus with data valid, or a pulse of `scan_finished`. -/
inductive Event
  | word (w : Word)
  | scanFinished
  deriving DecidableEq

/-- The word the scanner sends, if data valid is high. -/
def sent (s : ConfigBlockScanner.State) : Option Word :=
  if (udpOutBus s).dval then some (udpOutBus s).data else none

/-- What is observed in one cycle. -/
def events (s : ConfigBlockScanner.State) : List Event :=
  (sent s).toList.map .word ++ if s.scanFinished then [.scanFinished] else []

section Scanner

variable {i : ConfigBlockScanner.Input} {s : ConfigBlockScanner.State}

/-- The registers between the scanner and the configuration bus. -/
theorem scanner_bus :
    scannerOut (ConfigBlockScanner.step i s) = scannerOutReg s ∧
      scannerInReg (ConfigBlockScanner.step i s) = ⟨i.configDataIn, i.configValidIn⟩ := by
  unfold ConfigBlockScanner.step stateMachine
  cases s.nextState <;> dsimp only <;> (try split_ifs) <;> exact ⟨rfl, rfl⟩

/-- A request is sent in `START_BLOCK` only. -/
theorem scanner_outReg :
    scannerOutReg (ConfigBlockScanner.step i s) =
      if s.nextState = .startBlock then ⟨readRequest s.toreadBlockAddr, true⟩ else .idle := by
  unfold ConfigBlockScanner.step stateMachine
  cases s.nextState <;> dsimp only <;> (try split_ifs) <;> first | rfl | simp_all

/-- Words are sent in `WAIT_BLOCK` and `READ_BLOCK` only. -/
theorem sent_step :
    sent (ConfigBlockScanner.step i s) =
      if s.nextState = .waitBlock ∨ s.nextState = .readBlock then (scannerInReg s).shown
      else none := by
  unfold ConfigBlockScanner.step stateMachine
  cases s.nextState <;> dsimp only <;> (try split_ifs) <;> first | rfl | simp_all

/-- `scan_finished` is raised in `NEXT_BLOCK` only. -/
theorem scanFinished_step (h : s.nextState ≠ .nextBlock) :
    (ConfigBlockScanner.step i s).scanFinished = false := by
  unfold ConfigBlockScanner.step stateMachine
  revert h
  cases s.nextState <;> intro h <;> dsimp only <;> (try split_ifs) <;>
    first | rfl | exact absurd rfl h

/-- Which block is read and whether all are changes in `IDLE` and `NEXT_BLOCK`
    only. -/
theorem toread_step (h : s.nextState ≠ .idle) (h' : s.nextState ≠ .nextBlock) :
    (ConfigBlockScanner.step i s).toreadBlockAddr = s.toreadBlockAddr ∧
      (ConfigBlockScanner.step i s).scanAll = s.scanAll := by
  unfold ConfigBlockScanner.step stateMachine
  revert h h'
  cases s.nextState <;> intro h h' <;> dsimp only <;> (try split_ifs) <;>
    first | exact ⟨rfl, rfl⟩ | exact absurd rfl h | exact absurd rfl h'

/-- `WAIT_BLOCK` is left for `READ_BLOCK` or `NEXT_BLOCK`, `READ_BLOCK` for
    `NEXT_BLOCK`; they are entered from `START_BLOCK` alone. -/
theorem away_step (h : s.nextState ≠ .waitBlock ∧ s.nextState ≠ .readBlock)
    (h' : s.nextState ≠ .startBlock) :
    (ConfigBlockScanner.step i s).nextState ≠ .waitBlock ∧
      (ConfigBlockScanner.step i s).nextState ≠ .readBlock := by
  unfold ConfigBlockScanner.step stateMachine
  revert h h'
  cases s.nextState <;> intro h h' <;> dsimp only <;> (try split_ifs) <;> simp_all

/-- The machine asks for the line until it is ready. -/
theorem scanner_txReqWait (h : s.nextState = .txReqWait) :
    (ConfigBlockScanner.step i s).txReq = true ∧
      (ConfigBlockScanner.step i s).nextState =
        if i.udpReady then .startBlock else .txReqWait := by
  cases hr : i.udpReady <;> simp [ConfigBlockScanner.step, stateMachine, h, hr]

/-- The pause of eight cycles. -/
theorem scanner_txPause (h : s.nextState = .txPause) :
    if 8 ≤ s.pauseTimer then (ConfigBlockScanner.step i s).nextState = .txReqWait
    else (ConfigBlockScanner.step i s).nextState = .txPause ∧
      (ConfigBlockScanner.step i s).pauseTimer = s.pauseTimer + 1 := by
  by_cases ht : 8 ≤ s.pauseTimer <;> simp [ConfigBlockScanner.step, stateMachine, h, ht]

/-- After a block comes the next one, unless it was the last. -/
theorem scanner_nextBlock (h : s.nextState = .nextBlock) (hall : s.scanAll = true) :
    (ConfigBlockScanner.step i s).scanAll = true ∧
    if s.toreadBlockAddr = 127 then
      (ConfigBlockScanner.step i s).nextState = .idle ∧
        (ConfigBlockScanner.step i s).scanFinished = true ∧
        (ConfigBlockScanner.step i s).toreadBlockAddr = s.toreadBlockAddr
    else
      (ConfigBlockScanner.step i s).nextState = .txPause ∧
        (ConfigBlockScanner.step i s).scanFinished = false ∧
        (ConfigBlockScanner.step i s).toreadBlockAddr = s.toreadBlockAddr + 1 ∧
        (ConfigBlockScanner.step i s).pauseTimer = 0 := by
  have hdef : s.toreadBlockAddr = 0b1111111 ∨ s.scanAll = false ↔ s.toreadBlockAddr = 127 := by
    rw [hall]
    simp
  by_cases h127 : s.toreadBlockAddr = 127
  · rw [if_pos h127]
    simp only [ConfigBlockScanner.step, stateMachine, h, if_pos (hdef.2 h127)]
    exact ⟨hall, trivial, trivial, rfl⟩
  · rw [if_neg h127]
    simp only [ConfigBlockScanner.step, stateMachine, h, if_neg fun hc => h127 (hdef.1 hc)]
    exact ⟨hall, trivial, rfl, trivial, trivial⟩

/-- A scan of all blocks begins with block 0. -/
theorem scanner_start (h : s.nextState = .idle) (hi : i.startScanBlocks = true) :
    (ConfigBlockScanner.step i s).nextState = .txReqWait ∧
      (ConfigBlockScanner.step i s).toreadBlockAddr = 0 ∧
      (ConfigBlockScanner.step i s).scanAll = true := by
  simp [ConfigBlockScanner.step, stateMachine, h, hi]

/-- Without a start the machine stays idle. -/
theorem scanner_idle (h : s.nextState = .idle) (hi : i.startScanBlocks = false)
    (hi' : i.startScanSingle = false) : (ConfigBlockScanner.step i s).nextState = .idle := by
  simp [ConfigBlockScanner.step, stateMachine, h, hi, hi']

end Scanner

/-! ## One block -/

variable {N : ℕ} {net : Network N} {A : Contents net} {a : BitVec 7} {first c : ℕ}
  {x : External} {y : System net}

/-- The machine asks no block, and no configuration word is on its way. -/
structure Resting (A : Contents net) (y : System net) : Prop where
  quiet : Quiet A y
  away : y.scanner.nextState ≠ .waitBlock ∧ y.scanner.nextState ≠ .readBlock
  sent : sent y.scanner = none

/-- `c` edges after the machine was about to ask block `a`. -/
structure Asking (A : Contents net) (a : BitVec 7) (first c : ℕ) (y : System net) : Prop where
  served : Served A (some a) first (words A a)
  fabric : Fabric A (some a) first (words A a) c y
  le : c ≤ first + (words A a).length
  toread : y.scanner.toreadBlockAddr = a
  nextState : y.scanner.nextState = if c ≤ first then .waitBlock else .readBlock
  timer : c ≤ first → y.scanner.timer + 1 = c
  sent : sent y.scanner = burst (first + 1) (words A a) c

theorem Resting.fabric_step (h : Resting A y) (hs : y.scanner.nextState ≠ .startBlock) :
    Quiet A (step x y) := by
  refine (h.quiet.step .none ?_ scanner_bus.1 scanner_bus.2).over .none (.inl rfl) .none (.inl rfl)
  show (scannerOutReg (ConfigBlockScanner.step _ _)).shown = _
  rw [scanner_outReg, if_neg hs]
  exact (burst_nil ..).symm

/-- The machine rests on. -/
theorem Resting.step (h : Resting A y) (hs : y.scanner.nextState ≠ .startBlock) :
    Resting A (step x y) where
  quiet := h.fabric_step hs
  away := away_step h.away hs
  sent := by
    show ConfigScan.sent (ConfigBlockScanner.step _ _) = _
    rw [sent_step, if_neg fun hc => hc.elim h.away.1 h.away.2]

/-- The machine asks a block. -/
theorem Resting.ask (h : Resting A y) (hs : y.scanner.nextState = .startBlock)
    (hserved : Served A (some y.scanner.toreadBlockAddr) first
      (words A y.scanner.toreadBlockAddr)) :
    Asking A y.scanner.toreadBlockAddr first 1 (ConfigScan.step x y) where
  served := hserved
  fabric := by
    have h0 := h.quiet.over (e := 0) .none (.inl rfl) hserved (.inr (.inl rfl))
    refine h0.step hserved ?_ scanner_bus.1 scanner_bus.2
    show (scannerOutReg (ConfigBlockScanner.step _ _)).shown = _
    rw [scanner_outReg, if_pos hs, Nat.zero_add, burst_start]
    rfl
  le := by have := hserved.le_first; omega
  toread := (toread_step (by simp [hs]) (by simp [hs])).1
  nextState := by
    rw [if_pos (by have := hserved.le_first; omega)]
    show (ConfigBlockScanner.step _ _).nextState = _
    simp only [ConfigBlockScanner.step, stateMachine, hs]
  timer _ := by
    show (ConfigBlockScanner.step _ _).timer + 1 = 1
    simp only [ConfigBlockScanner.step, stateMachine, hs]
  sent := by
    show ConfigScan.sent (ConfigBlockScanner.step _ _) = _
    rw [sent_step, if_neg (by simp [hs]), burst_of_lt (by have := hserved.le_first; omega)]

/-- The next state of a machine that asks, from what is in its input register. -/
theorem Asking.nextState_step (h : Asking A a first c y) :
    (ConfigScan.step x y).scanner.nextState =
        (if c < first then .waitBlock
          else if c < first + (words A a).length then .readBlock else .nextBlock) ∧
      (c < first → (ConfigScan.step x y).scanner.timer = c) := by
  have hfirst := h.served.first_le
  have hreg : y.scanner.configValidInReg = (burst first (words A a) c).isSome := by
    rw [← h.fabric.inReg]
    show _ = (if y.scanner.configValidInReg = true then _ else _ : Option Word).isSome
    cases y.scanner.configValidInReg <;> rfl
  rw [burst_isSome] at hreg
  show (ConfigBlockScanner.step _ _).nextState = _ ∧ (_ → (ConfigBlockScanner.step _ _).timer = _)
  have hns := h.nextState
  have hle := h.le
  by_cases hc : c ≤ first
  · have htimer := h.timer hc
    rw [if_pos hc] at hns
    simp only [ConfigBlockScanner.step, stateMachine, hns, hreg, decide_eq_true_eq]
    refine ⟨?_, fun _ => htimer⟩
    rcases Nat.lt_or_eq_of_le hc with hlt | rfl
    · rw [if_neg (by omega), if_neg (by omega), if_pos hlt]
    · rcases eq_or_ne (words A a) [] with hws | hws
      · have hmax := h.served.eq_nil hws
        simp only [hws, List.length_nil]
        rw [if_neg (by omega), if_pos (by omega), if_neg (by omega), if_neg (by omega)]
      · have hpos := List.length_pos_of_ne_nil hws
        rw [if_pos ⟨le_rfl, by omega⟩, if_neg (by omega), if_pos (by omega)]
  · rw [if_neg hc] at hns
    simp only [ConfigBlockScanner.step, stateMachine, hns, hreg, decide_eq_true_eq]
    refine ⟨?_, fun hlt => by omega⟩
    rw [if_neg (show ¬c < first by omega)]
    by_cases hlt : c < first + (words A a).length
    · rw [if_pos ⟨by omega, hlt⟩, if_pos hlt]
    · rw [if_neg (fun hcc => hlt hcc.2), if_neg hlt]

theorem Asking.away (h : Asking A a first c y) :
    y.scanner.nextState ≠ .idle ∧ y.scanner.nextState ≠ .nextBlock := by
  rw [h.nextState]
  split_ifs <;> simp

theorem Asking.fabric_step (h : Asking A a first c y) (hc : 1 ≤ c) :
    Fabric A (some a) first (words A a) (c + 1) (ConfigScan.step x y) := by
  refine h.fabric.step h.served ?_ scanner_bus.1 scanner_bus.2
  show (scannerOutReg (ConfigBlockScanner.step _ _)).shown = _
  rw [scanner_outReg, if_neg (by rw [h.nextState]; split_ifs <;> simp)]
  exact (burst_of_le (by simpa using hc)).symm

theorem Asking.sent_step (h : Asking A a first c y) :
    ConfigScan.sent (ConfigScan.step x y).scanner = burst (first + 1) (words A a) (c + 1) := by
  show ConfigScan.sent (ConfigBlockScanner.step _ _) = _
  rw [ConfigScan.sent_step, if_pos (by rw [h.nextState]; split_ifs <;> simp), h.fabric.inReg,
    burst_succ]

/-- The machine goes on waiting for the block or reading it. -/
theorem Asking.step (h : Asking A a first c y) (hc : 1 ≤ c)
    (hlt : c < first + (words A a).length) : Asking A a first (c + 1) (ConfigScan.step x y) where
  served := h.served
  fabric := h.fabric_step hc
  le := hlt
  toread := (toread_step h.away.1 h.away.2).1.trans h.toread
  nextState := by
    rw [h.nextState_step.1]
    by_cases hf : c < first
    · rw [if_pos hf, if_pos (by omega)]
    · rw [if_neg hf, if_pos hlt, if_neg (by omega)]
  timer hf := by rw [h.nextState_step.2 (by omega)]
  sent := h.sent_step

/-- When all words have been sent, the machine goes on to the next block. -/
theorem Asking.finish (h : Asking A a first c y) (hc : c = first + (words A a).length) :
    Resting A (ConfigScan.step x y) ∧ (ConfigScan.step x y).scanner.nextState = .nextBlock ∧
      (ConfigScan.step x y).scanner.toreadBlockAddr = a := by
  have h6 := h.served.le_first
  have hns : (ConfigScan.step x y).scanner.nextState = .nextBlock := by
    rw [h.nextState_step.1, if_neg (by omega), if_neg (by omega)]
  refine ⟨⟨?_, by rw [hns]; simp, ?_⟩, hns, (toread_step h.away.1 h.away.2).1.trans h.toread⟩
  · exact (h.fabric_step (by omega)).over h.served (.inr (.inr (by omega))) .none (.inl rfl)
  · rw [h.sent_step]
    exact burst_of_le (by omega)

/-! ## Runs -/

/-- The machine rests, or it asks a block. -/
def Inv (A : Contents net) (y : System net) : Prop :=
  Resting A y ∨ ∃ a first c, 1 ≤ c ∧ Asking A a first c y

theorem Inv.step (h : Inv A y) : Inv A (ConfigScan.step x y) := by
  rcases h with h | ⟨a, first, c, hc, h⟩
  · by_cases hs : y.scanner.nextState = .startBlock
    · obtain ⟨first, hserved⟩ := exists_served A y.scanner.toreadBlockAddr
      exact .inr ⟨_, _, _, le_rfl, h.ask hs hserved⟩
    · exact .inl (h.step hs)
  · rcases Nat.lt_or_eq_of_le h.le with hlt | heq
    · exact .inr ⟨a, first, c + 1, by omega, h.step hc hlt⟩
    · exact .inl (h.finish heq).1

theorem inv_initial (A : Contents net) : Inv A (initial A) :=
  .inl ⟨quiet_initial A, by simp [initial, ConfigBlockScanner.initial], rfl⟩

/-- The registers after `k` edges of a schedule. -/
def stateAt (A : Contents net) (x : ℕ → External) (k : ℕ) : System net :=
  trace ConfigScan.step (initial A) x k

theorem inv_run (A : Contents net) (x : ℕ → External) (k : ℕ) : Inv A (stateAt A x k) :=
  run_invariant (R := fun _ _ => True) _ (inv_initial A) (fun _ _ _ h => h.step)
    (along_of_forall _ fun _ _ => trivial)

/-- What is observed after the edges `t` to `e - 1`. -/
def observed (A : Contents net) (x : ℕ → External) (t e : ℕ) : List Event :=
  (List.Ico t e).flatMap fun k => events (stateAt A x (k + 1)).scanner

/-- A raised `tx_req` that stays is answered. -/
def Answers (A : Contents net) (x : ℕ → External) : Prop :=
  ∀ n, (∀ k, n ≤ k → (stateAt A x k).scanner.txReq = true) → ∃ k, n ≤ k ∧ (x k).udpReady = true

section Scan

variable {x : ℕ → External} {t m e n : ℕ}

theorem stateAt_succ (k : ℕ) : stateAt A x (k + 1) = ConfigScan.step (x k) (stateAt A x k) :=
  trace_succ ..

@[simp] theorem observed_self : observed A x t t = [] := by simp [observed]

theorem observed_append (h : t ≤ m) (h' : m ≤ e) :
    observed A x t m ++ observed A x m e = observed A x t e := by
  unfold observed
  rw [← List.flatMap_append, List.Ico.append_consecutive h h']

theorem observed_succ (h : t ≤ m) :
    observed A x t (m + 1) = observed A x t m ++ events (stateAt A x (m + 1)).scanner := by
  unfold observed
  rw [List.Ico.succ_top h, List.flatMap_append, List.flatMap_singleton]

theorem events_eq {s : ConfigBlockScanner.State} (h : s.scanFinished = false) :
    events s = (sent s).toList.map .word := by
  simp [events, h]

/-- In a state where the machine rests, with no pulse, nothing is observed. -/
theorem Resting.events_eq_nil (h : Resting A y) (hf : y.scanner.scanFinished = false) :
    events y.scanner = [] := by
  rw [events_eq hf, h.sent]
  rfl

/-- A word, if there is one. -/
theorem map_toList_eq (f : ℕ → Option Word) (k : ℕ) :
    (f k).toList = [k].filterMap f := by
  cases h : f k <;> simp [h]

/-- What is observed while block `a` is asked: `c` edges after. -/
theorem asking_run (h : Resting A (stateAt A x t))
    (hs : (stateAt A x t).scanner.nextState = .startBlock)
    (hserved : Served A (some (stateAt A x t).scanner.toreadBlockAddr) first
      (words A (stateAt A x t).scanner.toreadBlockAddr))
    (hc : 1 ≤ c) (hle : c ≤ first + (words A (stateAt A x t).scanner.toreadBlockAddr).length) :
    Asking A (stateAt A x t).scanner.toreadBlockAddr first c (stateAt A x (t + c)) ∧
      (stateAt A x (t + c)).scanner.scanAll = (stateAt A x t).scanner.scanAll ∧
      observed A x t (t + c) = ((List.Ico 1 (c + 1)).filterMap
        (burst (first + 1) (words A (stateAt A x t).scanner.toreadBlockAddr))).map .word := by
  generalize ha : (stateAt A x t).scanner.toreadBlockAddr = a at hserved hle ⊢
  induction c, hc using Nat.le_induction with
  | base =>
    have hask : Asking A a first 1 (stateAt A x (t + 1)) := by
      rw [stateAt_succ, ← ha]
      exact h.ask hs (ha.symm ▸ hserved)
    have hfin : (stateAt A x (t + 1)).scanner.scanFinished = false := by
      rw [stateAt_succ]
      exact scanFinished_step (by simp [hs])
    refine ⟨hask, ?_, ?_⟩
    · rw [stateAt_succ]
      exact (toread_step (by simp [hs]) (by simp [hs])).2
    · rw [observed_succ le_rfl, observed_self, List.nil_append, events_eq hfin, hask.sent,
        map_toList_eq, List.Ico.succ_singleton]
  | succ c hc ih =>
    obtain ⟨hask, hall, hobs⟩ := ih (by omega)
    have hask' : Asking A a first (c + 1) (stateAt A x (t + (c + 1))) := by
      rw [← Nat.add_assoc, stateAt_succ]
      exact hask.step hc (by omega)
    have hfin : (stateAt A x (t + c + 1)).scanner.scanFinished = false := by
      rw [stateAt_succ]
      exact scanFinished_step hask.away.2
    refine ⟨hask', ?_, ?_⟩
    · rw [← Nat.add_assoc, stateAt_succ]
      exact (toread_step hask.away.1 hask.away.2).2.trans hall
    · rw [← Nat.add_assoc, observed_succ (by omega), hobs, events_eq hfin, Nat.add_assoc,
        hask'.sent, map_toList_eq, List.Ico.succ_top (by omega : 1 ≤ c + 1), List.filterMap_append,
        List.map_append]

/-- From edge `t` to edge `m` the events `evs` are observed; then the machine
    rests in state `st`, with block `a` to read. -/
structure Leg (A : Contents net) (x : ℕ → External) (t m : ℕ) (st : ReadStateType) (a : BitVec 7)
    (evs : List Event) : Prop where
  le : t ≤ m
  resting : Resting A (stateAt A x m)
  nextState : (stateAt A x m).scanner.nextState = st
  toread : (stateAt A x m).scanner.toreadBlockAddr = a
  scanAll : (stateAt A x m).scanner.scanAll = (stateAt A x t).scanner.scanAll
  observed : observed A x t m = evs

variable {st st' : ReadStateType} {a' : BitVec 7} {evs evs' : List Event}

theorem Leg.trans (h : Leg A x t m st a evs) (h' : Leg A x m e st' a' evs') :
    Leg A x t e st' a' (evs ++ evs') where
  le := h.le.trans h'.le
  resting := h'.resting
  nextState := h'.nextState
  toread := h'.toread
  scanAll := h'.scanAll.trans h.scanAll
  observed := by rw [← observed_append h.le h'.le, h.observed, h'.observed]

theorem Resting.refl (h : Resting A (stateAt A x t)) :
    Leg A x t t (stateAt A x t).scanner.nextState (stateAt A x t).scanner.toreadBlockAddr [] :=
  ⟨le_rfl, h, rfl, rfl, rfl, observed_self⟩

/-- One edge of a machine that rests. -/
theorem Resting.leg (h : Resting A (stateAt A x t))
    (hs : (stateAt A x t).scanner.nextState ≠ .startBlock)
    (hall : (stateAt A x (t + 1)).scanner.scanAll = (stateAt A x t).scanner.scanAll) :
    Leg A x t (t + 1) (stateAt A x (t + 1)).scanner.nextState
      (stateAt A x (t + 1)).scanner.toreadBlockAddr
      (if (stateAt A x (t + 1)).scanner.scanFinished then [.scanFinished] else []) := by
  have hrest : Resting A (stateAt A x (t + 1)) := by
    rw [stateAt_succ]
    exact h.step hs
  refine ⟨Nat.le_succ t, hrest, rfl, rfl, hall, ?_⟩
  rw [observed_succ le_rfl, observed_self, List.nil_append, events, hrest.sent]
  rfl

/-- One edge in a state in which nothing happens. -/
theorem Leg.wait (h : Leg A x t m st a evs)
    (hst : st = .txReqWait ∨ st = .txPause) :
    Leg A x t (m + 1) (stateAt A x (m + 1)).scanner.nextState a evs := by
  have hns := h.nextState
  have hkeep := toread_step (i := (stateAt A x m).inputs (x m)) (s := (stateAt A x m).scanner)
    (by rw [hns]; rcases hst with rfl | rfl <;> simp)
    (by rw [hns]; rcases hst with rfl | rfl <;> simp)
  have hfin := scanFinished_step (i := (stateAt A x m).inputs (x m))
    (s := (stateAt A x m).scanner) (by rw [hns]; rcases hst with rfl | rfl <;> simp)
  have hleg := h.resting.leg (by rw [hns]; rcases hst with rfl | rfl <;> simp)
    (by rw [stateAt_succ]; exact hkeep.2)
  have hto : (stateAt A x (m + 1)).scanner.toreadBlockAddr = a := by
    rw [stateAt_succ]
    exact hkeep.1.trans h.toread
  have hnone : (stateAt A x (m + 1)).scanner.scanFinished = false := by
    rw [stateAt_succ]
    exact hfin
  rw [hto, hnone] at hleg
  simpa using h.trans hleg

/-- From `START_BLOCK` to `NEXT_BLOCK` the words of the block are observed. -/
theorem startBlock_run (h : Leg A x t m .startBlock a evs) :
    ∃ e, Leg A x m e .nextBlock a ((words A a).map .word) := by
  obtain ⟨first, hserved⟩ := exists_served A a
  have h6 := hserved.le_first
  obtain rfl := h.toread
  obtain ⟨hask, hall, hobs⟩ := asking_run h.resting h.nextState hserved (by omega) le_rfl
  rw [filterMap_burst (by omega) (by omega)] at hobs
  obtain ⟨hrest, hns, hto⟩ := hask.finish (x := x (m + _)) rfl
  rw [← stateAt_succ] at hrest hns hto
  refine ⟨_, by omega, hrest, hns, hto, ?_, ?_⟩
  · rw [stateAt_succ]
    exact (toread_step hask.away.1 hask.away.2).2.trans hall
  · rw [observed_succ (by omega), hobs, hrest.events_eq_nil, List.append_nil]
    rw [stateAt_succ]
    exact scanFinished_step hask.away.2

/-- The line is got in the end. -/
theorem txReqWait_run (hans : Answers A x) (h : Leg A x t m .txReqWait a evs) :
    ∃ e, Leg A x t e .startBlock a evs := by
  have hone : ∀ k, Leg A x t (m + k) .txReqWait a evs →
      (stateAt A x (m + k + 1)).scanner.txReq = true ∧ Leg A x t (m + k + 1)
        (if (x (m + k)).udpReady then .startBlock else .txReqWait) a evs := by
    intro k hk
    have hleg := hk.wait (.inl rfl)
    have hstep := scanner_txReqWait (i := (stateAt A x (m + k)).inputs (x (m + k))) hk.nextState
    rw [stateAt_succ] at hleg ⊢
    exact ⟨hstep.1, hstep.2 ▸ hleg⟩
  have hwait : ∀ k, (∀ j < k, (x (m + j)).udpReady = false) →
      Leg A x t (m + k) .txReqWait a evs ∧
        (1 ≤ k → (stateAt A x (m + k)).scanner.txReq = true) := by
    intro k hk
    induction k with
    | zero => exact ⟨h, fun hpos => absurd hpos (by omega)⟩
    | succ k ih =>
      obtain ⟨hreq, hleg⟩ := hone k (ih fun j hj => hk j (by omega)).1
      rw [hk k (Nat.lt_succ_self k)] at hleg
      exact ⟨hleg, fun _ => hreq⟩
  have hready : ∃ k, (x (m + k)).udpReady = true := by
    by_contra hno
    have hno' : ∀ k, (x (m + k)).udpReady = false := by simpa using hno
    obtain ⟨k, hk, hr⟩ := hans (m + 1) fun k hk => by
      have := (hwait (k - m) fun j _ => hno' j).2 (by omega)
      rwa [show m + (k - m) = k by omega] at this
    have := hno' (k - m)
    rw [show m + (k - m) = k by omega, hr] at this
    cases this
  classical
  have hfirst := Nat.find_spec hready
  have hmin : ∀ j < Nat.find hready, (x (m + j)).udpReady = false := fun j hj => by
    simpa using Nat.find_min hready hj
  have hleg := (hone _ (hwait _ hmin).1).2
  rw [hfirst] at hleg
  exact ⟨_, hleg⟩

/-- The pause between two blocks ends. -/
theorem txPause_run (h : Leg A x t m .txPause a evs) : ∃ e, Leg A x t e .txReqWait a evs := by
  induction hp : 8 - (stateAt A x m).scanner.pauseTimer generalizing m with
  | zero =>
    have hleg := h.wait (.inr rfl)
    have hstep := scanner_txPause (i := (stateAt A x m).inputs (x m)) h.nextState
    rw [if_pos (by omega)] at hstep
    rw [stateAt_succ] at hleg
    exact ⟨_, hstep ▸ hleg⟩
  | succ d ih =>
    have hleg := h.wait (.inr rfl)
    have hstep := scanner_txPause (i := (stateAt A x m).inputs (x m)) h.nextState
    rw [if_neg (by omega)] at hstep
    have hns : (stateAt A x (m + 1)).scanner.nextState = .txPause := by
      rw [stateAt_succ]
      exact hstep.1
    have htimer : (stateAt A x (m + 1)).scanner.pauseTimer =
        (stateAt A x m).scanner.pauseTimer + 1 := by
      rw [stateAt_succ]
      exact hstep.2
    exact ih (hns ▸ hleg) (by omega)

/-- After a block the scan is over, or the next block comes. -/
theorem nextBlock_run (h : Leg A x t m .nextBlock a evs)
    (hall : (stateAt A x t).scanner.scanAll = true) :
    if a = 127 then ∃ e, Leg A x t e .idle a (evs ++ [.scanFinished])
    else ∃ e, Leg A x t e .txReqWait (a + 1) evs := by
  have hallm : (stateAt A x m).scanner.scanAll = true := h.scanAll.trans hall
  obtain ⟨hkeep, hstep⟩ :=
    scanner_nextBlock (i := (stateAt A x m).inputs (x m)) h.nextState hallm
  have hleg := h.resting.leg (by simp [h.nextState])
    (by rw [stateAt_succ]; exact hkeep.trans hallm.symm)
  have hsucc : ConfigBlockScanner.step ((stateAt A x m).inputs (x m)) (stateAt A x m).scanner =
      (stateAt A x (m + 1)).scanner := by
    rw [stateAt_succ]
    rfl
  rw [hsucc, h.toread] at hstep
  by_cases ha : a = 127
  · rw [if_pos ha] at hstep ⊢
    rw [hstep.1, hstep.2.1, hstep.2.2] at hleg
    exact ⟨m + 1, h.trans hleg⟩
  · rw [if_neg ha] at hstep ⊢
    rw [hstep.1, hstep.2.1, hstep.2.2.1] at hleg
    have hpause := h.trans hleg
    rw [if_neg (by simp), List.append_nil] at hpause
    exact txPause_run hpause

/-- The scan from block `n` on: what one block adds, and the blocks after it. -/
theorem scan_run (hans : Answers A x) (hall : (stateAt A x t).scanner.scanAll = true) (d : ℕ) :
    ∀ {n m : ℕ} {evs : List Event}, n + d = 127 →
      Leg A x t m .txReqWait (BitVec.ofNat 7 n) evs → ∃ e, Leg A x t e .idle 127
        (evs ++ ((List.Ico n 128).flatMap fun k => words A (BitVec.ofNat 7 k)).map .word ++
          [.scanFinished]) := by
  induction d with
  | zero =>
    intro n m evs hn h
    obtain rfl : n = 127 := hn
    obtain ⟨m₁, h₁⟩ := txReqWait_run hans h
    obtain ⟨m₂, h₂⟩ := startBlock_run h₁
    have h₃ := nextBlock_run (h₁.trans h₂) hall
    rw [if_pos (show (127#7 : BitVec 7) = 127 from rfl)] at h₃
    rw [show List.Ico 127 128 = [127] from rfl, List.flatMap_singleton]
    exact h₃
  | succ d ih =>
    intro n m evs hn h
    obtain ⟨m₁, h₁⟩ := txReqWait_run hans h
    obtain ⟨m₂, h₂⟩ := startBlock_run h₁
    have h₃ := nextBlock_run (h₁.trans h₂) hall
    have hne : BitVec.ofNat 7 n ≠ 127 := by
      intro heq
      have := congrArg BitVec.toNat heq
      rw [BitVec.toNat_ofNat, Nat.mod_eq_of_lt (by omega)] at this
      exact absurd this (by simp; omega)
    rw [if_neg hne] at h₃
    obtain ⟨m₃, h₃⟩ := h₃
    have hsucc : BitVec.ofNat 7 n + 1 = BitVec.ofNat 7 (n + 1) := (BitVec.ofNat_add n 1).symm
    rw [hsucc] at h₃
    obtain ⟨e, he⟩ := ih (by omega) h₃
    refine ⟨e, ?_⟩
    rw [List.Ico.eq_cons (by omega), List.flatMap_cons, List.map_append, ← List.append_assoc evs]
    exact he

/-- Without a start nothing happens. -/
theorem idle_run (h : Leg A x t m .idle a evs) {e : ℕ} (hle : m ≤ e)
    (hno : ∀ k, m ≤ k → k < e → (x k).startScanBlocks = false ∧ (x k).startScanSingle = false) :
    observed A x t e = evs := by
  have key : Resting A (stateAt A x e) ∧ (stateAt A x e).scanner.nextState = .idle ∧
      observed A x t e = evs := by
    induction e, hle using Nat.le_induction with
    | base => exact ⟨h.resting, h.nextState, h.observed⟩
    | succ e hle ih =>
      obtain ⟨hrest, hns, hobs⟩ := ih fun k hk hk' => hno k hk (by omega)
      obtain ⟨h₁, h₂⟩ := hno e hle (Nat.lt_succ_self e)
      have hrest' : Resting A (stateAt A x (e + 1)) := by
        rw [stateAt_succ]
        exact hrest.step (by simp [hns])
      refine ⟨hrest', ?_, ?_⟩
      · rw [stateAt_succ]
        exact scanner_idle hns h₁ h₂
      · rw [observed_succ (h.le.trans hle), hobs, hrest'.events_eq_nil, List.append_nil]
        rw [stateAt_succ]
        exact scanFinished_step (by simp [hns])
  exact key.2.2

end Scan

/-- A complete scan. The machine is idle at edge `t` and is told to scan all
    blocks. What it sends from then on with data valid is the words of the
    existing blocks in increasing order of their addresses, each word once, and
    after them `scan_finished` is raised for one cycle. From then on nothing is
    sent until the next start. -/
theorem complete_scan {N : ℕ} {net : Network N} (A : Contents net) (x : ℕ → External)
    (hans : Answers A x) {t : ℕ} (hidle : (stateAt A x t).scanner.nextState = .idle)
    (hstart : (x t).startScanBlocks = true) :
    ∃ m, t < m ∧ ∀ e, m ≤ e →
      (∀ k, m ≤ k → k < e → (x k).startScanBlocks = false ∧ (x k).startScanSingle = false) →
      observed A x t e = ((List.range 128).flatMap fun k => words A (BitVec.ofNat 7 k)).map .word ++
        [.scanFinished] := by
  have hrest : Resting A (stateAt A x t) := by
    rcases inv_run A x t with h | ⟨a, first, c, -, h⟩
    · exact h
    · exact absurd hidle h.away.1
  obtain ⟨hns, hto, hall⟩ :=
    scanner_start (i := (stateAt A x t).inputs (x t)) hidle hstart
  have hsucc : ConfigBlockScanner.step ((stateAt A x t).inputs (x t)) (stateAt A x t).scanner =
      (stateAt A x (t + 1)).scanner := by
    rw [stateAt_succ]
    rfl
  have hfin := scanFinished_step (i := (stateAt A x t).inputs (x t))
    (s := (stateAt A x t).scanner) (by simp [hidle])
  rw [hsucc] at hns hto hall hfin
  have hrest' : Resting A (stateAt A x (t + 1)) := by
    rw [stateAt_succ]
    exact hrest.step (by simp [hidle])
  have hstarted := hrest'.refl
  rw [hns, hto] at hstarted
  obtain ⟨m, hm⟩ := scan_run hans hall 127 (n := 0) rfl hstarted
  refine ⟨m, hm.le, fun e he hno => ?_⟩
  have hrun := idle_run hm he hno
  rw [← observed_append (Nat.le_succ t) (hm.le.trans he), observed_succ le_rfl, observed_self,
    hrest'.events_eq_nil hfin, hrun]
  rfl

/-- Two blocks, the last of all addresses among them. -/
def twoBlocks : Network 2 where
  address := ![0x2A, 0x7F]
  size := ![1, 2]
  request := ![0, 3]
  reply := ![4, 2]
  back := 1
  address_injective := by decide
  one_le_size := by decide
  size_le := by decide
  near := by decide

/-- The line is always ready; a scan is asked for at edge 1. -/
def scanOnce (k : ℕ) : External := ⟨true, k = 1, false, 0⟩

/-- Registers to tell apart. -/
def twoBlocksContents : Contents twoBlocks := fun b j => BitVec.ofNat 32 (0x10001 * (b + j + 1))

theorem complete_scan_twoBlocks : ∃ m, 1 < m ∧ ∀ e, m ≤ e →
    (∀ k, m ≤ k → k < e →
      (scanOnce k).startScanBlocks = false ∧ (scanOnce k).startScanSingle = false) →
    observed twoBlocksContents scanOnce 1 e =
      [0x2A000001, 0x2A010001, 0x7F000002, 0x7F010002, 0x7F020003, 0x7F030003].map Event.word ++
        [.scanFinished] := by
  have hwords : ((List.range 128).flatMap fun k => words twoBlocksContents (BitVec.ofNat 7 k)) =
      [0x2A000001, 0x2A010001, 0x7F000002, 0x7F010002, 0x7F020003, 0x7F030003] := by
    decide +kernel
  rw [← hwords]
  exact complete_scan twoBlocksContents scanOnce (fun n _ => ⟨n, le_rfl, rfl⟩) rfl rfl

end FpgaEthernet.ConfigScan
