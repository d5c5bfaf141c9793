import FpgaEthernet.Flash.EpcqioExecution

/-!
# The handshake of `epcqio_control`

What happens to a command between the edge that issues it and the edge that
raises `done`, for any interleaving of the two clocks.

Main results:

* `Serving.ec_step`, `Serving.data_step`: an edge of either clock while a command
  is being served.
* `done_executed`: in every run, a command that is done has been started once, if
  commands are issued at rest and withdrawn in time.
* `read_not_started_once`: what happens otherwise.
-/

namespace FpgaEthernet.EpcqioControl

open Clocked

/-! ## Events -/

/-- What is to be seen of a run. -/
inductive Event
  | issued (r : Request)
  | entered (x : Entry)
  deriving DecidableEq

/-- The command that an edge issues: it leaves `IDLE` (lines 453-465). -/
def requests (i : DataInput) (s : DataSide) : List Request :=
  if s.dataNextState = .idle then
    (commandIn i).toList.map fun c =>
      ⟨c, (dataStateMachine i s).startAddress, (dataStateMachine i s).nwords⟩
  else []

/-- The events of an edge. -/
def events (e : Edge) (s : System) : List Event :=
  (match e.epcqClock with
    | some i => (entries (ecStep i s.data s.ec)).map .entered
    | none => []) ++
  match e.dataClock with
    | some i => (requests i s.data).map .issued
    | none => []

/-- The last command issued, and the entries since. -/
def track (g : Option (Request × List Entry)) : Event → Option (Request × List Entry)
  | .issued r => some (r, [])
  | .entered x => g.map fun y => (y.1, y.2 ++ [x])

def current (l : List Event) : Option (Request × List Entry) := l.foldl track none

/-- The edge raises `done` (lines 507-509). -/
def DoneRaised (e : Edge) (s : System) : Prop :=
  e.dataClock.isSome = true ∧ s.data.dataNextState = .waitDone ∧
    s.data.ecRspSync.last.getLsbD 7 = true

/-- The start state of the command has been entered as the request asks, and not
    again. -/
def Executed (r : Request) (xs : List Entry) : Prop :=
  xs.filter (fun x => decide (x.command = r.command)) = r.starts

instance (r : Request) (xs : List Entry) : Decidable (Executed r xs) :=
  inferInstanceAs (Decidable (_ = _))

/-! ## The conditions -/

/-- The flash side is idle and has nothing to take, and nothing that the data side
    will read as a response in `WAIT_START` says that something has started. -/
structure Rest (d : DataSide) (ec : EcSide) : Prop where
  idle : ec.ecNextState = .idle
  en4b : ec.en4bEnabled = true
  stages : ∀ j, UntakenAt ec j
  cmd : Untaken ec d.startAddress d.ecCmd
  rsp : ec.ecRsp.getLsbD 4 = false
  rsps : ∀ j : Fin (nsyncStages + 1), j < 2 → (d.ecRspSync j).getLsbD 4 = false

instance (d : DataSide) (ec : EcSide) : Decidable (Rest d ec) :=
  decidable_of_iff
    (ec.ecNextState = .idle ∧ ec.en4bEnabled = true ∧
      (∀ j, UntakenAt ec j) ∧ Untaken ec d.startAddress d.ecCmd ∧ ec.ecRsp.getLsbD 4 = false ∧
      ∀ j : Fin (nsyncStages + 1), j < 2 → (d.ecRspSync j).getLsbD 4 = false)
    ⟨fun h => ⟨h.1, h.2.1, h.2.2.1, h.2.2.2.1, h.2.2.2.2.1, h.2.2.2.2.2⟩,
      fun h => ⟨h.1, h.2, h.3, h.4, h.5, h.6⟩⟩

/-- A command is issued at rest only. -/
def IssuedAtRest (e : Edge) (s : System) : Prop :=
  ∀ i ∈ e.dataClock, s.data.dataNextState = .idle → commandIn i ≠ none → Rest s.data s.ec

/-- When `epcio_control` goes back to `IDLE`, there is nothing for it to take: not
    on the line and not in the registers that it will still read. -/
def WithdrawnInTime (e : Edge) (s : System) : Prop :=
  ∀ i ∈ e.epcqClock, Returns i s.ec →
    Untaken s.ec s.data.startAddress s.data.ecCmd ∧
      ∀ j < Fin.last nsyncStages, UntakenAt s.ec j

instance (e : Edge) (s : System) : Decidable (IssuedAtRest e s) := by
  unfold IssuedAtRest
  infer_instance

instance (e : Edge) (s : System) : Decidable (WithdrawnInTime e s) := by
  unfold WithdrawnInTime
  infer_instance

instance (e : Edge) (s : System) : Decidable (DoneRaised e s) := by
  unfold DoneRaised
  infer_instance

/-! ## Responses on their way -/

/-- After a response with the bit of a start, none with the bit of an end. -/
def Hush (a b : EcCmd) : Prop := a.getLsbD 4 = true → b.getLsbD 7 = false

/-- The responses in `ec_rsp_sync`, then `v`, which the next edge of `data_clock`
    registers, then `rsp`, are in this relation. -/
structure Ordered (l : Sync EcCmd) (v rsp : EcCmd) : Prop where
  sync : l.Pairs Hush
  seen : ∀ j, Hush (l j) v ∧ Hush (l j) rsp
  fresh : Hush v v ∧ Hush v rsp ∧ Hush rsp rsp

/-- None of them has bit `b`. -/
structure Low (b : ℕ) (l : Sync EcCmd) (v rsp : EcCmd) : Prop where
  sync : ∀ j, (l j).getLsbD b = false
  seen : v.getLsbD b = false
  fresh : rsp.getLsbD b = false

section

variable {b : ℕ} {l : Sync EcCmd} {v rsp : EcCmd}

theorem hush_of_low {x y : EcCmd} (h : x.getLsbD 4 = false) : Hush x y := by
  intro h'
  rw [h] at h'
  cases h'

theorem hush_of_quiet {x y : EcCmd} (h : y.getLsbD 7 = false) : Hush x y := fun _ => h

theorem Low.ordered (h : Low 4 l v rsp) : Ordered l v rsp where
  sync := fun j _ _ => hush_of_low (h.sync j)
  seen := fun j => ⟨hush_of_low (h.sync j), hush_of_low (h.sync j)⟩
  fresh := ⟨hush_of_low h.seen, hush_of_low h.seen, hush_of_low h.fresh⟩

/-- A start has been read: no end is on its way. -/
theorem Ordered.low (h : Ordered l v rsp) (hl : l.last.getLsbD 4 = true) : Low 7 l v rsp where
  sync := fun j => h.sync _ j (Fin.le_last j) hl
  seen := (h.seen _).1 hl
  fresh := (h.seen _).2 hl

/-- An edge of `data_clock`. -/
theorem Low.clock (h : Low b l v rsp) : Low b (l.clock v) rsp rsp :=
  ⟨Delay.forall_clock (P := fun x : EcCmd => x.getLsbD b = false) h.sync h.seen, h.fresh, h.fresh⟩

theorem Ordered.clock (h : Ordered l v rsp) : Ordered (l.clock v) rsp rsp where
  sync := h.sync.clock (fun j => (h.seen j).1) h.fresh.1
  seen := Delay.forall_clock (P := fun x => Hush x rsp ∧ Hush x rsp)
    (fun j => ⟨(h.seen j).2, (h.seen j).2⟩) ⟨h.fresh.2.1, h.fresh.2.1⟩
  fresh := ⟨h.fresh.2.2, h.fresh.2.2, h.fresh.2.2⟩

/-- What is about to be registered is not registered after all. -/
theorem Low.settle (h : Low b l v rsp) : Low b l rsp rsp := ⟨h.sync, h.fresh, h.fresh⟩

theorem Ordered.settle (h : Ordered l v rsp) : Ordered l rsp rsp where
  sync := h.sync
  seen := fun j => ⟨(h.seen j).2, (h.seen j).2⟩
  fresh := ⟨h.fresh.2.2, h.fresh.2.2, h.fresh.2.2⟩

/-- An edge of `epcq_clock` that keeps the response or says that something has
    started. -/
theorem Low.respond {c : Command} {rsp' : EcCmd} (h : Low 7 l rsp rsp)
    (hr : rsp' = rsp ∨ rsp' = ecmdStarted c) : Low 7 l rsp rsp' := by
  refine ⟨h.sync, h.seen, ?_⟩
  rcases hr with rfl | rfl
  · exact h.fresh
  · cases c <;> rfl

theorem Ordered.respond {c : Command} {rsp' : EcCmd} (h : Ordered l rsp rsp)
    (hr : rsp' = rsp ∨ rsp' = ecmdStarted c) : Ordered l rsp rsp' := by
  rcases hr with rfl | rfl
  · exact h
  · have hq : (ecmdStarted c).getLsbD 7 = false := by cases c <;> rfl
    exact ⟨h.sync, fun j => ⟨(h.seen j).1, hush_of_quiet hq⟩,
      h.fresh.1, hush_of_quiet hq, hush_of_quiet hq⟩

end

/-! ## A command from its issue to its end -/

/-- The command is on its way to `epcio_control`: it has passed the first `q`
    registers, and what is ahead of it will not be taken. -/
structure Asked (r : Request) (q : ℕ) (d : DataSide) (ec : EcSide) (v : EcCmd) : Prop where
  idle : ec.ecNextState = .idle
  en4b : ec.en4bEnabled = true
  passed : ∀ j : Fin (nsyncStages + 1), (j : ℕ) < q →
    ec.ecCmdSync j = ecmdStart r.command ∧ ec.addressSync j = r.address ∧
      ec.nwordsSync j = r.nwords
  ahead : ∀ j : Fin (nsyncStages + 1), q ≤ (j : ℕ) → UntakenAt ec j
  address : d.startAddress = r.address
  nwords : d.nwords = r.nwords
  phase : (d.dataNextState = .send r.command ∧ d.ecCmd = 0 ∧ q = 0 ∧
      (∀ j < Fin.last nsyncStages, (d.ecRspSync j).getLsbD 4 = false) ∧
      v.getLsbD 4 = false ∧ ec.ecRsp.getLsbD 4 = false) ∨
    (d.dataNextState = .waitStart ∧ d.ecCmd = ecmdStart r.command ∧
      Low 4 d.ecRspSync v ec.ecRsp)

/-- The command is being executed. -/
structure Running (r : Request) (p : ℕ) (d : DataSide) (ec : EcSide) (v : EcCmd) : Prop where
  executing : Executing r p ec
  phase : (d.dataNextState = .waitStart ∧ Ordered d.ecRspSync v ec.ecRsp) ∨
    (d.dataNextState = .waitDone ∧ Low 7 d.ecRspSync v ec.ecRsp)

/-- The command has been executed and will not be taken again. -/
structure Finished (d : DataSide) (ec : EcSide) : Prop where
  idle : ec.ecNextState = .idle
  en4b : ec.en4bEnabled = true
  stages : ∀ j, UntakenAt ec j
  cmd : Untaken ec d.startAddress d.ecCmd
  phase : d.dataNextState = .waitStart ∨ d.dataNextState = .waitDone

/-- A request with its entries so far. The next edge of `data_clock` registers the
    response `v`. -/
inductive Serving (r : Request) : List Entry → DataSide → EcSide → EcCmd → Prop
  | asked {q : ℕ} {d : DataSide} {ec : EcSide} {v : EcCmd} (h : Asked r q d ec v) :
      Serving r [] d ec v
  | running {p : ℕ} {d : DataSide} {ec : EcSide} {v : EcCmd} (h : Running r p d ec v) :
      Serving r (r.pages (p + 1)) d ec v
  | finished {d : DataSide} {ec : EcSide} {v : EcCmd} (h : Finished d ec) :
      Serving r r.starts d ec v

/-! ## An edge of `epcq_clock` -/

section

variable {i : EcInput} {d : DataSide} {ec : EcSide} {r : Request} {xs : List Entry} {p q : ℕ}

/-- No state assigns `last_address`. -/
theorem ecStep_lastAddress : (ecStep i d ec).lastAddress = ec.lastAddress := by
  simp only [ecStep, epcioControl]
  split
  · rfl
  · split_ifs
    · rfl
    · split <;> rfl
  all_goals first | rfl | (split_ifs <;> rfl)

theorem untaken_zero (address : BitVec 32) : Untaken ec address 0 := by
  simp [Untaken, taken, ecmdStart]

/-- The commands move on by one register. -/
theorem untakenAt_ecStep {j : Fin (nsyncStages + 1)}
    (hl : (ecStep i d ec).lastCmd = ec.lastCmd)
    (hcmd : (j : ℕ) = 0 → Untaken ec d.startAddress d.ecCmd)
    (hj : ∀ k : Fin (nsyncStages + 1), (k : ℕ) + 1 = j → UntakenAt ec k) :
    UntakenAt (ecStep i d ec) j := by
  unfold UntakenAt Untaken
  rw [hl, ecStep_lastAddress]
  show taken _ _ (ec.addressSync.clock d.startAddress j) (ec.ecCmdSync.clock d.ecCmd j) = none
  unfold Delay.clock
  by_cases h0 : (j : ℕ) = 0
  · rw [if_pos h0, if_pos h0]
    exact hcmd h0
  · rw [if_neg h0, if_neg h0]
    apply hj
    show (j : ℕ) - 1 + 1 = j
    omega

/-- The command moves on by one register, or is taken. -/
theorem Asked.ec_step (h : Asked r q d ec ec.ecRsp) :
    Serving r (entries (ecStep i d ec)) d (ecStep i d ec) ec.ecRsp := by
  by_cases hu : UntakenAt ec (Fin.last nsyncStages)
  · obtain ⟨hns, hen, hl, -, hrsp⟩ := ecStep_idle (i := i) (d := d) h.idle h.en4b hu
    have hx : entries (ecStep i d ec) = [] := entries_of_ne (by simp [hns])
    rw [hx]
    obtain ⟨hsend, hcmd, rfl, hsync, hv, hr⟩ | ⟨hwait, hcmd, hlow⟩ := h.phase
    · refine .asked (q := 0) ⟨hns, hen, ?_, ?_, h.address, h.nwords, .inl ?_⟩
      · intro j hj
        exact absurd hj (Nat.not_lt_zero _)
      · intro j _
        apply untakenAt_ecStep hl
        · intro _
          rw [hcmd]
          exact untaken_zero _
        · exact fun k _ => h.ahead k (Nat.zero_le _)
      · rw [hrsp]
        exact ⟨hsend, hcmd, rfl, hsync, hv, hr⟩
    · refine .asked (q := q + 1) ⟨hns, hen, ?_, ?_, h.address, h.nwords, .inr ?_⟩
      · intro j hj
        show ec.ecCmdSync.clock d.ecCmd j = _ ∧ ec.addressSync.clock d.startAddress j = _ ∧
          ec.nwordsSync.clock d.nwords j = _
        unfold Delay.clock
        by_cases h0 : (j : ℕ) = 0
        · rw [if_pos h0, if_pos h0, if_pos h0]
          exact ⟨hcmd, h.address, h.nwords⟩
        · rw [if_neg h0, if_neg h0, if_neg h0]
          apply h.passed
          show (j : ℕ) - 1 < q
          omega
      · intro j hj
        apply untakenAt_ecStep hl
        · intro h0
          omega
        · intro k hk
          apply h.ahead
          omega
      · rw [hrsp]
        exact ⟨hwait, hcmd, hlow⟩
  · have hq : nsyncStages < q := by
      by_contra hle
      exact hu (h.ahead _ (Nat.not_lt.1 hle))
    obtain ⟨hcmd, haddr, hnw⟩ := h.passed (Fin.last nsyncStages) hq
    obtain ⟨hex, hx, hrsp⟩ := Executing.of_taken (i := i) (d := d) h.idle h.en4b hcmd haddr hnw hu
    obtain ⟨-, -, rfl, -⟩ | ⟨hwait, -, hlow⟩ := h.phase
    · exact absurd hq (Nat.not_lt_zero _)
    · rw [hx]
      refine .running (p := 0) ⟨hex, .inl ⟨hwait, ?_⟩⟩
      rw [hrsp]
      exact hlow.ordered

/-- The execution goes on or is over. -/
theorem Running.ec_step (h : Running r p d ec ec.ecRsp)
    (hw : Returns i ec → Untaken ec d.startAddress d.ecCmd ∧
      ∀ j < Fin.last nsyncStages, UntakenAt ec j) :
    Serving r (r.pages (p + 1) ++ entries (ecStep i d ec)) d (ecStep i d ec) ec.ecRsp := by
  have hex := h.executing
  have hni : ec.ecNextState ≠ .idle := by
    intro hn
    have hst := hex.stage
    simp only [Stage, hn] at hst
  obtain ⟨hen, hl, htodo⟩ := ecStep_keeps (i := i) (d := d) hni hex.en4b
  have hphase : ¬Returns i ec →
      (d.dataNextState = .waitStart ∧ Ordered d.ecRspSync ec.ecRsp (ecStep i d ec).ecRsp) ∨
        (d.dataNextState = .waitDone ∧ Low 7 d.ecRspSync ec.ecRsp (ecStep i d ec).ecRsp) := by
    intro hr
    have hrsp := hex.ecRsp (d := d) hr
    rcases h.phase with ⟨hwait, hord⟩ | ⟨hwait, hlow⟩
    · exact .inl ⟨hwait, hord.respond hrsp⟩
    · exact .inr ⟨hwait, hlow.respond hrsp⟩
  obtain ⟨hst, hx, hr⟩ | ⟨hst, hx, hp, hr⟩ | ⟨hns, hx, hp, hr⟩ := hex.step (i := i) (d := d)
  · rw [hx, List.append_nil]
    refine .running ⟨⟨hst, hen, ?_, ?_, hex.page⟩, hphase hr⟩
    · rw [hl, hex.lastCmd]
    · rw [htodo, hex.bytesTodo]
  · rw [hx, ← Request.pages_succ]
    refine .running ⟨⟨hst, hen, ?_, ?_, hp⟩, hphase hr⟩
    · rw [hl, hex.lastCmd]
    · rw [htodo, hex.bytesTodo]
  · rw [hx, List.append_nil, hp, Request.pages_lastPage]
    obtain ⟨hcmd, hstages⟩ := hw hr
    refine .finished ⟨hns, hen, ?_, ?_, ?_⟩
    · intro j
      apply untakenAt_ecStep hl
      · exact fun _ => hcmd
      · intro k hk
        apply hstages
        have hj := j.isLt
        refine Fin.lt_def.2 ?_
        show (k : ℕ) < nsyncStages
        omega
    · unfold Untaken
      rw [hl, ecStep_lastAddress]
      exact hcmd
    · rcases h.phase with ⟨hwait, -⟩ | ⟨hwait, -⟩
      · exact .inl hwait
      · exact .inr hwait

theorem Finished.ec_step (h : Finished d ec) :
    Finished d (ecStep i d ec) ∧ entries (ecStep i d ec) = [] := by
  obtain ⟨hns, hen, hl, ha, -⟩ := ecStep_idle (i := i) (d := d) h.idle h.en4b
    (h.stages (Fin.last nsyncStages))
  refine ⟨⟨hns, hen, ?_, ?_, h.phase⟩, entries_of_ne (by simp [hns])⟩
  · intro j
    apply untakenAt_ecStep hl
    · exact fun _ => h.cmd
    · exact fun k _ => h.stages k
  · unfold Untaken
    rw [hl, ha]
    exact h.cmd

/-- An edge of `epcq_clock`. -/
theorem Serving.ec_step (h : Serving r xs d ec ec.ecRsp)
    (hw : Returns i ec → Untaken ec d.startAddress d.ecCmd ∧
      ∀ j < Fin.last nsyncStages, UntakenAt ec j) :
    Serving r (xs ++ entries (ecStep i d ec)) d (ecStep i d ec) ec.ecRsp := by
  cases h with
  | asked h => exact h.ec_step
  | running h => exact h.ec_step hw
  | finished h =>
    obtain ⟨hf, hx⟩ := h.ec_step (i := i)
    rw [hx, List.append_nil]
    exact .finished hf

end

/-! ## An edge of `data_clock` -/

section

variable {i : DataInput} {d : DataSide} {ec : EcSide} {r : Request} {xs : List Entry}
variable {p q : ℕ} {v : EcCmd}

theorem dataStep_send {c : Command} (hs : d.dataNextState = .send c) :
    (dataStep i v d).dataNextState = .waitStart ∧ (dataStep i v d).ecCmd = ecmdStart c ∧
      (dataStep i v d).startAddress = d.startAddress ∧ (dataStep i v d).nwords = d.nwords := by
  simp [dataStep, dataStateMachine, hs]

theorem dataStep_waitStart (hs : d.dataNextState = .waitStart) :
    ((dataStep i v d).dataNextState = .idle ∨
      (dataStep i v d).dataNextState = .waitDone ∧ d.ecRspSync.last.getLsbD 4 = true ∨
      (dataStep i v d).dataNextState = .waitStart ∧ d.ecRspSync.last.getLsbD 4 = false) ∧
      (dataStep i v d).ecCmd = d.ecCmd ∧ (dataStep i v d).startAddress = d.startAddress ∧
      (dataStep i v d).nwords = d.nwords := by
  simp only [dataStep, dataStateMachine, hs]
  refine ⟨?_, trivial, trivial, trivial⟩
  split_ifs with ht h4
  · exact .inl rfl
  · exact .inr (.inl ⟨rfl, h4⟩)
  · exact .inr (.inr ⟨rfl, by simpa using h4⟩)

theorem dataStep_waitDone (hs : d.dataNextState = .waitDone) :
    ((dataStep i v d).dataNextState = .idle ∧ d.ecRspSync.last.getLsbD 7 = true ∨
      (dataStep i v d).dataNextState = .waitDone ∧ d.ecRspSync.last.getLsbD 7 = false) ∧
      (dataStep i v d).ecCmd = 0 := by
  simp only [dataStep, dataStateMachine, hs]
  refine ⟨?_, trivial⟩
  split_ifs with h7
  · exact .inl ⟨rfl, h7⟩
  · exact .inr ⟨rfl, by simpa using h7⟩

/-- Until `epcio_control` takes the command, the data side does not get past
    `WAIT_START`. -/
theorem Asked.data_step (h : Asked r q d ec v) : (dataStep i v d).dataNextState = .idle ∨
    Serving r [] (dataStep i v d) ec ec.ecRsp := by
  obtain ⟨hsend, -, -, hsync, hv, hr⟩ | ⟨hwait, hcmd, hlow⟩ := h.phase
  · obtain ⟨hns, hcmd, haddr, hnw⟩ := dataStep_send (i := i) (v := v) hsend
    refine .inr (.asked ⟨h.idle, h.en4b, h.passed, h.ahead, ?_, ?_, .inr ⟨hns, hcmd, ?_, hr, hr⟩⟩)
    · rw [haddr, h.address]
    · rw [hnw, h.nwords]
    · intro j
      show (d.ecRspSync.clock v j).getLsbD 4 = false
      unfold Delay.clock
      by_cases h0 : (j : ℕ) = 0
      · rw [if_pos h0]
        exact hv
      · rw [if_neg h0]
        apply hsync
        have hj := j.isLt
        refine Fin.lt_def.2 ?_
        show (j : ℕ) - 1 < nsyncStages
        omega
  · obtain ⟨hns, hcmd', haddr, hnw⟩ := dataStep_waitStart (i := i) (v := v) hwait
    rcases hns with hns | ⟨-, h4⟩ | ⟨hns, -⟩
    · exact .inl hns
    · rw [Sync.last, hlow.sync] at h4
      cases h4
    · refine .inr (.asked ⟨h.idle, h.en4b, h.passed, h.ahead, ?_, ?_,
        .inr ⟨hns, ?_, hlow.clock⟩⟩)
      · rw [haddr, h.address]
      · rw [hnw, h.nwords]
      · rw [hcmd', hcmd]

/-- While the command is executed, the data side does not get past `WAIT_DONE`. -/
theorem Running.data_step (h : Running r p d ec v) : (dataStep i v d).dataNextState = .idle ∨
    Running r p (dataStep i v d) ec ec.ecRsp := by
  rcases h.phase with ⟨hwait, hord⟩ | ⟨hwait, hlow⟩
  · obtain ⟨hns | ⟨hns, h4⟩ | ⟨hns, -⟩, -⟩ := dataStep_waitStart (i := i) (v := v) hwait
    · exact .inl hns
    · exact .inr ⟨h.executing, .inr ⟨hns, (hord.low h4).clock⟩⟩
    · exact .inr ⟨h.executing, .inl ⟨hns, hord.clock⟩⟩
  · obtain ⟨⟨-, h7⟩ | ⟨hns, -⟩, -⟩ := dataStep_waitDone (i := i) (v := v) hwait
    · rw [Sync.last, hlow.sync] at h7
      cases h7
    · exact .inr ⟨h.executing, .inr ⟨hns, hlow.clock⟩⟩

theorem Finished.data_step (h : Finished d ec) : (dataStep i v d).dataNextState = .idle ∨
    Finished (dataStep i v d) ec := by
  rcases h.phase with hwait | hwait
  · obtain ⟨hns, hcmd, haddr, -⟩ := dataStep_waitStart (i := i) (v := v) hwait
    have hun : Untaken ec (dataStep i v d).startAddress (dataStep i v d).ecCmd := by
      rw [hcmd, haddr]
      exact h.cmd
    rcases hns with hns | ⟨hns, -⟩ | ⟨hns, -⟩
    · exact .inl hns
    · exact .inr ⟨h.idle, h.en4b, h.stages, hun, .inr hns⟩
    · exact .inr ⟨h.idle, h.en4b, h.stages, hun, .inl hns⟩
  · obtain ⟨⟨hns, -⟩ | ⟨hns, -⟩, hcmd⟩ := dataStep_waitDone (i := i) (v := v) hwait
    · exact .inl hns
    · refine .inr ⟨h.idle, h.en4b, h.stages, ?_, .inr hns⟩
      rw [hcmd]
      exact untaken_zero _

/-- An edge of `data_clock`. -/
theorem Serving.data_step (h : Serving r xs d ec v) : (dataStep i v d).dataNextState = .idle ∨
    Serving r xs (dataStep i v d) ec ec.ecRsp := by
  cases h with
  | asked h => exact h.data_step
  | running h => exact h.data_step.imp_right .running
  | finished h => exact h.data_step.imp_right .finished

/-- No edge of `data_clock`. -/
theorem Serving.settle (h : Serving r xs d ec v) : Serving r xs d ec ec.ecRsp := by
  cases h with
  | asked h =>
    refine .asked ⟨h.idle, h.en4b, h.passed, h.ahead, h.address, h.nwords, ?_⟩
    rcases h.phase with ⟨hsend, hcmd, hq, hsync, -, hr⟩ | ⟨hwait, hcmd, hlow⟩
    · exact .inl ⟨hsend, hcmd, hq, hsync, hr, hr⟩
    · exact .inr ⟨hwait, hcmd, hlow.settle⟩
  | running h =>
    refine .running ⟨h.executing, ?_⟩
    rcases h.phase with ⟨hwait, hord⟩ | ⟨hwait, hlow⟩
    · exact .inl ⟨hwait, hord.settle⟩
    · exact .inr ⟨hwait, hlow.settle⟩
  | finished h => exact .finished h

theorem Serving.ne_idle (h : Serving r xs d ec v) : d.dataNextState ≠ .idle := by
  intro hs
  cases h with
  | asked h => rcases h.phase with ⟨hn, -⟩ | ⟨hn, -⟩ <;> simp [hn] at hs
  | running h => rcases h.phase with ⟨hn, -⟩ | ⟨hn, -⟩ <;> simp [hn] at hs
  | finished h => rcases h.phase with hn | hn <;> simp [hn] at hs

/-- The data side reads the end of the command: it has been executed. -/
theorem Serving.executed (h : Serving r xs d ec v) (hs : d.dataNextState = .waitDone)
    (h7 : d.ecRspSync.last.getLsbD 7 = true) : Executed r xs := by
  cases h with
  | asked h => rcases h.phase with ⟨hn, -⟩ | ⟨hn, -⟩ <;> simp [hn] at hs
  | running h =>
    rcases h.phase with ⟨hn, -⟩ | ⟨-, hlow⟩
    · simp [hn] at hs
    · rw [Sync.last, hlow.sync] at h7
      cases h7
  | finished h =>
    unfold Executed
    rw [← Request.pages_lastPage, Request.filter_pages]

end

/-! ## Runs -/

section

variable {e : Edge} {i : DataInput} {d : DataSide} {ec : EcSide} {s : System} {r : Request}
variable {xs : List Entry} {g : Option (Request × List Entry)}

/-- At rest, `epcio_control` stays so. -/
theorem Rest.ec_step {i : EcInput} (h : Rest d ec) :
    Rest d (ecStep i d ec) ∧ entries (ecStep i d ec) = [] ∧ (ecStep i d ec).ecRsp = ec.ecRsp := by
  obtain ⟨hns, hen, hl, ha, hrsp⟩ := ecStep_idle (i := i) (d := d) h.idle h.en4b
    (h.stages (Fin.last nsyncStages))
  refine ⟨⟨hns, hen, ?_, ?_, ?_, h.rsps⟩, entries_of_ne (by simp [hns]), hrsp⟩
  · intro j
    apply untakenAt_ecStep hl
    · exact fun _ => h.cmd
    · exact fun k _ => h.stages k
  · unfold Untaken
    rw [hl, ha]
    exact h.cmd
  · rw [hrsp]
    exact h.rsp

/-- A command is issued. -/
theorem Rest.issue {c : Command} (h : Rest d ec) (hs : d.dataNextState = .idle)
    (hc : commandIn i = some c) :
    Serving ⟨c, (dataStateMachine i d).startAddress, (dataStateMachine i d).nwords⟩ []
      (dataStep i ec.ecRsp d) ec ec.ecRsp := by
  have hd : (dataStateMachine i d).dataNextState = .send c ∧ (dataStateMachine i d).ecCmd = 0 := by
    simp only [dataStateMachine, hs, hc]
    cases c <;> exact ⟨rfl, rfl⟩
  refine .asked (q := 0) ⟨h.idle, h.en4b, ?_, fun j _ => h.stages j, rfl, rfl,
    .inl ⟨hd.1, hd.2, rfl, ?_, h.rsp, h.rsp⟩⟩
  · intro j hj
    exact absurd hj (Nat.not_lt_zero _)
  · intro j hj
    show (d.ecRspSync.clock ec.ecRsp j).getLsbD 4 = false
    unfold Delay.clock
    by_cases h0 : (j : ℕ) = 0
    · rw [if_pos h0]
      exact h.rsp
    · rw [if_neg h0]
      apply h.rsps
      have hlt : (j : ℕ) < nsyncStages := Fin.lt_def.1 hj
      refine Fin.lt_def.2 ?_
      show (j : ℕ) - 1 < 2
      unfold nsyncStages at hlt
      omega

/-- The events of `epcio_control` at an edge. -/
def ecEntries (e : Edge) (s : System) : List Entry :=
  match e.epcqClock with
  | some i => entries (ecStep i s.data s.ec)
  | none => []

theorem foldl_entered (zs : List Entry) :
    (zs.map Event.entered).foldl track (some (r, xs)) = some (r, xs ++ zs) := by
  induction zs generalizing xs with
  | nil => rw [List.append_nil]; rfl
  | cons z zs ih =>
    rw [List.map_cons, List.foldl_cons]
    show (zs.map Event.entered).foldl track (some (r, xs ++ [z])) = _
    rw [ih, List.append_assoc]
    rfl

/-- What the events of an edge add, if it does not issue a command. -/
theorem foldl_events (hn : ∀ i ∈ e.dataClock, requests i s.data = []) :
    (events e s).foldl track (some (r, xs)) = some (r, xs ++ ecEntries e s) := by
  have hev : events e s = (ecEntries e s).map .entered := by
    unfold events ecEntries
    cases hd : e.dataClock with
    | none => cases e.epcqClock <;> simp
    | some i =>
      have hi := hn i (by rw [hd]; rfl)
      cases e.epcqClock <;> simp [hi]
  rw [hev, foldl_entered]

/-- Between two commands, or a command is being served. -/
def Inv (g : Option (Request × List Entry)) (s : System) : Prop :=
  s.data.dataNextState = .idle ∨ s.data.dataNextState = .hwReset ∨
    ∃ r xs, g = some (r, xs) ∧ Serving r xs s.data s.ec s.ec.ecRsp

/-- An edge while a command is being served. -/
theorem Serving.edge (h : Serving r xs s.data s.ec s.ec.ecRsp) (hw : WithdrawnInTime e s) :
    (step e s).data.dataNextState = .idle ∨
      Serving r (xs ++ ecEntries e s) (step e s).data (step e s).ec (step e s).ec.ecRsp := by
  have hec : Serving r (xs ++ ecEntries e s) s.data (step e s).ec s.ec.ecRsp := by
    unfold step ecEntries
    cases he : e.epcqClock with
    | none => simpa using h
    | some i => exact h.ec_step (hw i (by rw [he]; rfl))
  cases hd : e.dataClock with
  | none =>
    have hdata : (step e s).data = s.data := by simp [step, hd]
    rw [hdata]
    exact .inr hec.settle
  | some i =>
    have hdata : (step e s).data = dataStep i s.ec.ecRsp s.data := by simp [step, hd]
    rw [hdata]
    exact hec.data_step

/-- An edge of a run. -/
theorem Inv.edge (h : Inv g s) (hi : IssuedAtRest e s) (hw : WithdrawnInTime e s) :
    Inv ((events e s).foldl track g) (step e s) := by
  obtain hs | hs | ⟨r, xs, rfl, hserv⟩ := h
  · cases hd : e.dataClock with
    | none =>
      left
      simpa [step, hd] using hs
    | some i =>
      have hdata : (step e s).data = dataStep i s.ec.ecRsp s.data := by
        simp [step, hd]
      cases hc : commandIn i with
      | none =>
        left
        rw [hdata]
        simp [dataStep, dataStateMachine, hs, hc]
      | some c =>
        have hrest : Rest s.data s.ec := hi i (by rw [hd]; rfl) hs (by rw [hc]; simp)
        obtain ⟨hrest', hx, hrsp⟩ : Rest s.data (step e s).ec ∧
            ecEntries e s = [] ∧ (step e s).ec.ecRsp = s.ec.ecRsp := by
          unfold step ecEntries
          cases he : e.epcqClock with
          | none => exact ⟨hrest, rfl, rfl⟩
          | some k => exact hrest.ec_step
        have hev : events e s = [.issued ⟨c, (dataStateMachine i s.data).startAddress,
            (dataStateMachine i s.data).nwords⟩] := by
          unfold ecEntries at hx
          unfold events requests
          rw [hd]
          cases he : e.epcqClock with
          | none => simp [hs, hc]
          | some k =>
            rw [he] at hx
            simp [hs, hc, show entries (ecStep k s.data s.ec) = [] from hx]
        rw [hev]
        right
        right
        refine ⟨_, [], rfl, ?_⟩
        rw [hdata, ← hrsp]
        exact hrest'.issue hs hc
  · cases hd : e.dataClock with
    | none =>
      right
      left
      simpa [step, hd] using hs
    | some i =>
      left
      simp [step, hd, dataStep, dataStateMachine, hs]
  · have hev : (events e s).foldl track (some (r, xs)) = some (r, xs ++ ecEntries e s) := by
      apply foldl_events
      intro i _
      unfold requests
      rw [if_neg hserv.ne_idle]
    rw [hev]
    rcases hserv.edge hw with hidle | hserv'
    · exact .inl hidle
    · exact .inr (.inr ⟨r, _, rfl, hserv'⟩)

/-- Every run from the release of reset, whatever state the reset leaves
    `epcio_control` in: if commands are issued at rest only and withdrawn in time, a
    command that is done has been executed. -/
theorem done_executed {s₀ : System} {es : List Edge} (h₀ : s₀.data.dataNextState = .hwReset)
    (hR : Along step (fun e s => IssuedAtRest e s ∧ WithdrawnInTime e s) s₀ es) :
    ∀ js e, js ++ [e] <+: es → DoneRaised e (run step s₀ js) →
      ∃ r xs, current (log step events s₀ js) = some (r, xs) ∧ Executed r xs := by
  rintro js e ⟨ks, rfl⟩ ⟨-, hs, h7⟩
  rw [List.append_assoc] at hR
  have hinv : Inv (current (log step events s₀ js)) (run step s₀ js) := by
    refine log_invariant step (I := fun l s => Inv (current l) s) (.inr (.inl h₀)) ?_
      hR.of_isPrefix
    rintro l e s ⟨hi, hw⟩ h
    unfold current
    rw [List.foldl_append]
    exact h.edge hi hw
  obtain hn | hn | ⟨r, xs, hg, hserv⟩ := hinv
  · rw [hn] at hs
    cases hs
  · rw [hn] at hs
    cases hs
  · exact ⟨r, xs, hg, hserv.executed hs h7⟩

end

/-! ## Runs on fixed inputs -/

/-- No command. -/
def noCommand : DataInput := ⟨false, false, false, false, 0, 0⟩

/-- A read of one word. -/
def readOne : DataInput := ⟨false, true, false, false, 0x100, 1⟩

/-- The flash is never busy and always has a byte. -/
def promptFlash : EcInput := ⟨false, true, 0, 0, 0, 0⟩

/-- An edge of both clocks. -/
def bothClocks (i : DataInput) : Edge := ⟨some i, some promptFlash⟩

/-- Five edges of `data_clock`, the first of them also one of `epcq_clock`. -/
def fiveToOne (i : DataInput) : List Edge :=
  bothClocks i :: List.replicate 4 ⟨some noCommand, none⟩

/-- Nothing is asked for until 4-byte addressing has been enabled. -/
def afterReset : List Edge := (List.replicate 8 (fiveToOne noCommand)).flatten

/-- Then a word is read. -/
def readRun : List Edge :=
  afterReset ++ fiveToOne readOne ++ (List.replicate 14 (fiveToOne noCommand)).flatten

/-- The word is read while 4-byte addressing is being enabled. -/
def earlyRun : List Edge :=
  fiveToOne noCommand ++ fiveToOne readOne ++ (List.replicate 5 (fiveToOne noCommand)).flatten

/-- The word is read with both clocks alike. -/
def evenRun : List Edge :=
  afterReset ++ bothClocks readOne :: List.replicate 19 (bothClocks noCommand)

theorem done_executed_readRun :
    ∃ r xs, current (log step events reset readRun) = some (r, xs) ∧ Executed r xs :=
  done_executed rfl (by decide +kernel) readRun (bothClocks noCommand)
    (List.prefix_refl (readRun ++ [bothClocks noCommand])) (by decide +kernel)

/-- The responses to the 4-byte addressing that follows a reset are taken for those to
    the read, which is done and has not been started. And a read that ends before it
    is withdrawn is started twice. -/
theorem read_not_started_once :
    (DoneRaised (bothClocks noCommand) (run step reset earlyRun) ∧
      current (log step events reset earlyRun) = some (⟨.read, 0x100, 1⟩, []) ∧
      ¬Executed ⟨.read, 0x100, 1⟩ []) ∧
    (DoneRaised (bothClocks noCommand) (run step reset evenRun) ∧
      current (log step events reset evenRun) =
        some (⟨.read, 0x100, 1⟩, [⟨.read, 0x100, 4⟩, ⟨.read, 0x100, 4⟩]) ∧
      ¬Executed ⟨.read, 0x100, 1⟩ [⟨.read, 0x100, 4⟩, ⟨.read, 0x100, 4⟩]) := by
  decide +kernel

end FpgaEthernet.EpcqioControl
