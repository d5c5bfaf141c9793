import FpgaEthernet.Clocked.Run

/-!
# `remote_update_control`

Model of the process `reconfig_sm` of `top_remote_update/remote_update_control.vhd`, which
reads and writes the parameters of the remote update block and starts the
reconfiguration. What the block answers is an input. The process that kicks the
watchdog shares nothing with it and is left out.

The states that write a parameter, and those that read one, are written as one with
the parameter as an argument: `writeParam` and `readParam`.

Main results:

* `step_cases`: the ways in which an edge changes the registers.
* `sequenced`: in every run the block has time to answer before it is given the next
  parameter, and it is reconfigured only after the writes of the request that was
  accepted.
-/

namespace FpgaEthernet.RemoteUpdateControl

open Clocked

/-! ## Model -/

/-- `PARAM_RECONFIG` (`remote_update_control.vhd` line 76). -/
def paramReconfig : BitVec 3 := 0b000

/-- `PARAM_PAGE_ADDR` (line 77). -/
def paramPageAddr : BitVec 3 := 0b100

/-- `PARAM_ANF` (line 78). -/
def paramAnf : BitVec 3 := 0b101

/-- `PARAM_WD_TIMEOUT` (line 79). -/
def paramWdTimeout : BitVec 3 := 0b010

/-- `PARAM_WD_ENABLE` (line 80). -/
def paramWdEnable : BitVec 3 := 0b011

/-- `WATCHDOG_TIMEOUT` (line 52). -/
def watchdogTimeout : BitVec 12 := 0b000100000000

/-- `reconfig_state` (lines 87-88). -/
inductive ReconfigState
  | hwReset
  | idle
  | writeTimeout
  | writeWatchdogEnable
  | writePageAddress
  | writeAnf
  | startReconfig
  | readReconfig
  | readPageAddress
  | readAnf
  | readDone
  deriving DecidableEq

/-- The inputs at an edge, with the answers of the remote update block. -/
structure Input where
  reset : Bool
  doReconfig : Bool
  rereadParams : Bool
  applicationAddress : BitVec 24
  ruBusy : Bool
  ruDataOut : BitVec 24

/-- The registers and variables of `reconfig_sm`. -/
structure Registers where
  nextState : ReconfigState
  pageAddress : BitVec 24
  paramsRead : Bool
  timer : ℕ
  waitBusy : Bool
  ruParam : BitVec 3
  ruDataIn : BitVec 24
  ruWriteParam : Bool
  ruReadParam : Bool
  ruReconfig : Bool
  currReconfigStatus : BitVec 5
  currPageAddress : BitVec 24
  currAnf : Bool

/-- A state that writes a parameter. -/
def writeParam (param : BitVec 3) (data : BitVec 24) (next : ReconfigState) (r : Registers) :
    Registers :=
  { r with
    ruParam := param, ruDataIn := data, ruWriteParam := true, nextState := next, waitBusy := true }

/-- A state that reads a parameter. -/
def readParam (param : BitVec 3) (next : ReconfigState) (r : Registers) : Registers :=
  { r with ruParam := param, ruReadParam := true, nextState := next, waitBusy := true }

/-- The case statement (lines 159-244). -/
def stateMachine (i : Input) (r : Registers) : Registers :=
  match r.nextState with
  | .hwReset => { r with nextState := .idle }
  | .idle =>
    if r.paramsRead = false ∨ i.rereadParams = true then
      { r with timer := 0, nextState := .readReconfig, paramsRead := false }
    else if i.doReconfig then
      { r with timer := 0, pageAddress := i.applicationAddress, nextState := .writeTimeout }
    else { r with timer := 0 }
  | .writeTimeout =>
    writeParam paramWdTimeout (watchdogTimeout.setWidth 24) .writeWatchdogEnable r
  | .writeWatchdogEnable => writeParam paramWdEnable 1 .writePageAddress r
  | .writePageAddress => writeParam paramPageAddr r.pageAddress .writeAnf r
  | .writeAnf => { writeParam paramAnf 1 .startReconfig r with timer := 0 }
  | .startReconfig =>
    { r with
      timer := r.timer + 1
      ruReconfig := true
      nextState := if r.timer + 1 < 500 then .startReconfig else .idle }
  | .readReconfig => readParam paramReconfig .readPageAddress r
  | .readPageAddress =>
    { readParam paramPageAddr .readAnf r with currReconfigStatus := i.ruDataOut.setWidth 5 }
  | .readAnf => { readParam paramAnf .readDone r with currPageAddress := i.ruDataOut }
  | .readDone =>
    { r with currAnf := i.ruDataOut.getLsbD 0, nextState := .idle, paramsRead := true }

/-- The defaults (lines 136-139). -/
def defaults (r : Registers) : Registers :=
  { r with ruWriteParam := false, ruReconfig := false, ruReadParam := false }

/-- The branch for `reset`. -/
def reset (r : Registers) : Registers := { r with nextState := .hwReset, paramsRead := false }

/-- One edge (lines 126-249). -/
def step (i : Input) (r : Registers) : Registers :=
  if i.reset then reset r
  else if i.ruBusy then { defaults r with waitBusy := false, timer := 0 }
  else if r.waitBusy then
    if r.timer ≤ 60 then { defaults r with timer := r.timer + 1 }
    else { defaults r with waitBusy := false, timer := 0 }
  else stateMachine i (defaults r)

/-! ## Specification -/

variable {i j : Input} {r : Registers} {is : List Input}

/-- A parameter is read or written. Under `reset` the outputs only keep their values. -/
def Pulses (i : Input) (r : Registers) : Prop :=
  i.reset = false ∧ ((step i r).ruWriteParam = true ∨ (step i r).ruReadParam = true)

/-- The reconfiguration is started. -/
def Reconfigs (i : Input) (r : Registers) : Prop :=
  i.reset = false ∧ (step i r).ruReconfig = true

/-- An edge at which the block is seen busy. -/
def Input.seenBusy (i : Input) : Bool := !i.reset && i.ruBusy

/-- An edge at which the block is seen idle. -/
def Input.seenIdle (i : Input) : Bool := !i.reset && !i.ruBusy

/-- Between a parameter pulse and a later pulse or reconfiguration the block was busy and
    is so no longer, or it was idle for 60 cycles. -/
def Spaced (r : Registers) (is : List Input) : Prop :=
  ∀ before i between j after, is = before ++ i :: between ++ j :: after →
    Pulses i (run step r before) →
    Pulses j (run step r (before ++ i :: between)) ∨
      Reconfigs j (run step r (before ++ i :: between)) →
    (between.any Input.seenBusy = true ∧ j.seenIdle = true) ∨
      60 ≤ between.countP Input.seenIdle

/-- What happens at an edge. -/
inductive Event
  | accepted (address : BitVec 24)
  | wrote (param : BitVec 3) (data : BitVec 24)
  | read (param : BitVec 3)
  | reconfigures
  deriving DecidableEq

/-- The events of an edge. A request is accepted when it takes `reconfig_sm` from `IDLE`
    to `WRITE_TIMEOUT`. -/
def events (i : Input) (r : Registers) : List Event :=
  if i.reset then []
  else
    (if i.doReconfig = true ∧ r.nextState = .idle ∧ (step i r).nextState = .writeTimeout then
      [.accepted i.applicationAddress] else []) ++
    (if (step i r).ruWriteParam then [.wrote (step i r).ruParam (step i r).ruDataIn] else []) ++
    (if (step i r).ruReadParam then [.read (step i r).ruParam] else []) ++
    if (step i r).ruReconfig then [.reconfigures] else []

/-- A request for the firmware at `address`, with its writes. -/
def request (address : BitVec 24) : List Event :=
  [.accepted address, .wrote paramWdTimeout 0x000100, .wrote paramWdEnable 1,
    .wrote paramPageAddr address, .wrote paramAnf 1]

/-- The block is reconfigured only after the writes of a request. Once it has begun,
    `ru_reconfig` stays. -/
def Requested (r : Registers) (is : List Input) : Prop :=
  ∀ before i after, is = before ++ i :: after → Reconfigs i (run step r before) →
    ∃ address n, request address ++ List.replicate n .reconfigures <:+ log step events r before

/-! ## An edge -/

theorem step_cases (i : Input) (r : Registers) :
    (i.reset = true ∧ step i r = reset r) ∨
    (i.seenBusy = true ∧ step i r = { defaults r with waitBusy := false, timer := 0 }) ∨
    (i.seenIdle = true ∧ r.waitBusy = true ∧ r.timer ≤ 60 ∧
      step i r = { defaults r with timer := r.timer + 1 }) ∨
    (i.seenIdle = true ∧ r.waitBusy = true ∧ 60 < r.timer ∧
      step i r = { defaults r with waitBusy := false, timer := 0 }) ∨
    (i.seenIdle = true ∧ r.waitBusy = false ∧ step i r = stateMachine i (defaults r)) := by
  unfold step Input.seenBusy Input.seenIdle
  split_ifs with hreset hbusy hwait htimer
  · exact Or.inl ⟨hreset, rfl⟩
  · exact Or.inr (Or.inl ⟨by simp [hreset, hbusy], rfl⟩)
  · exact Or.inr (Or.inr (Or.inl ⟨by simp [hreset, hbusy], hwait, htimer, rfl⟩))
  · exact Or.inr (Or.inr (Or.inr (Or.inl ⟨by simp [hreset, hbusy], hwait, by omega, rfl⟩)))
  · exact Or.inr (Or.inr (Or.inr (Or.inr ⟨by simp [hreset, hbusy], by simpa using hwait, rfl⟩)))

/-- The states that read or write a parameter. -/
def ReconfigState.pulses : ReconfigState → Bool
  | .hwReset | .idle | .startReconfig | .readDone => false
  | _ => true

/-- A pulse or a reconfiguration is that of the state machine. -/
theorem eq_stateMachine (hreset : i.reset = false)
    (h : (step i r).ruWriteParam = true ∨ (step i r).ruReadParam = true ∨
      (step i r).ruReconfig = true) :
    i.seenIdle = true ∧ r.waitBusy = false ∧ step i r = stateMachine i (defaults r) := by
  rcases step_cases i r with ⟨hreset', -⟩ | ⟨-, heq⟩ | ⟨-, -, -, heq⟩ | ⟨-, -, -, heq⟩ | hmachine
  · simp [hreset] at hreset'
  · simp [heq, defaults] at h
  · simp [heq, defaults] at h
  · simp [heq, defaults] at h
  · exact hmachine

/-- A pulse comes from a state that reads or writes a parameter, and the block is then
    waited for. -/
theorem stateMachine_pulses
    (h : (stateMachine i (defaults r)).ruWriteParam = true ∨
      (stateMachine i (defaults r)).ruReadParam = true) :
    r.nextState.pulses = true ∧ (stateMachine i (defaults r)).waitBusy = true ∧
      (r.timer = 0 → (stateMachine i (defaults r)).timer = 0) := by
  unfold stateMachine at h ⊢
  cases hstate : r.nextState <;>
    simp only [hstate, defaults, writeParam, readParam, ReconfigState.pulses, imp_self,
      implies_true, and_self] at h ⊢
  · simp at h
  · split_ifs at h <;> simp at h
  · simp at h
  · simp at h

theorem stateMachine_reconfig (h : (stateMachine i (defaults r)).ruReconfig = true) :
    r.nextState = .startReconfig := by
  unfold stateMachine at h
  cases hstate : r.nextState <;>
    simp only [hstate, defaults, writeParam, readParam, Bool.false_eq_true] at h ⊢
  split_ifs at h

/-! ## Time between the pulses -/

/-- The timer is at zero where a parameter is about to be read or written. -/
def Timed (r : Registers) : Prop :=
  r.waitBusy = false → r.nextState.pulses = true → r.timer = 0

theorem timed_step (i : Input) (r : Registers) : Timed (step i r) := by
  rcases step_cases i r with ⟨-, heq⟩ | ⟨-, heq⟩ | ⟨-, hwait, -, heq⟩ | ⟨-, -, -, heq⟩ |
    ⟨-, hwait, heq⟩
  · rw [heq]
    intro _ hpulses
    cases hpulses
  · rw [heq]
    exact fun _ _ => rfl
  · rw [heq]
    intro hwait' _
    exact absurd (hwait.symm.trans hwait') Bool.noConfusion
  · rw [heq]
    exact fun _ _ => rfl
  · rw [heq]
    intro hwait' hpulses
    unfold stateMachine at hwait' hpulses ⊢
    cases hstate : r.nextState <;>
      simp only [hstate, defaults, writeParam, readParam, Bool.true_eq_false] at hwait' hpulses ⊢
    · cases hpulses
    · split_ifs <;> rfl
    · split_ifs at hpulses <;> cases hpulses
    · cases hpulses

/-- What has been seen since a pulse. -/
def Waited (between : List Input) (r : Registers) : Prop :=
  between.any Input.seenBusy = true ∨
    (r.waitBusy = true ∧ r.timer = between.countP Input.seenIdle) ∨
    60 ≤ between.countP Input.seenIdle

theorem Waited.concat {between : List Input} (h : Waited between r) (i : Input) :
    Waited (between ++ [i]) (step i r) := by
  unfold Waited at *
  rw [List.any_append, List.countP_append, List.countP_singleton]
  rcases h with hbusy | ⟨hwait, htimer⟩ | hidle
  · exact Or.inl (by rw [hbusy, Bool.true_or])
  · rcases step_cases i r with ⟨hreset, heq⟩ | ⟨hbusy, -⟩ | ⟨hidle, -, -, heq⟩ |
      ⟨hidle, -, hlong, -⟩ | ⟨-, hnowait, -⟩
    · refine Or.inr (Or.inl ?_)
      rw [heq]
      refine ⟨hwait, ?_⟩
      simp [Input.seenIdle, hreset, ← htimer, reset]
    · exact Or.inl (by simp [hbusy])
    · refine Or.inr (Or.inl ?_)
      rw [heq, if_pos hidle, ← htimer]
      exact ⟨hwait, rfl⟩
    · exact Or.inr (Or.inr (by omega))
    · simp [hwait] at hnowait
  · exact Or.inr (Or.inr (by omega))

theorem timed_run (h : r.nextState = .hwReset) (is : List Input) : Timed (run step r is) := by
  induction is using List.reverseRecOn with
  | nil =>
    intro _ hpulses
    rw [run_nil, h] at hpulses
    cases hpulses
  | append_singleton is i _ =>
    rw [run_concat]
    exact timed_step i _

/-- A pulse starts the wait. -/
theorem Pulses.waited (h : Pulses i r) (htimed : Timed r) : Waited [] (step i r) := by
  obtain ⟨hreset, hpulse⟩ := h
  obtain ⟨-, hwait, heq⟩ := eq_stateMachine hreset
    (hpulse.elim Or.inl fun hread => Or.inr (Or.inl hread))
  rw [heq] at hpulse ⊢
  obtain ⟨hstate, hwaits, htimer⟩ := stateMachine_pulses hpulse
  exact Or.inr (Or.inl ⟨hwaits, htimer (htimed hwait hstate)⟩)

theorem waited_run (h : Waited [] r) (between : List Input) :
    Waited between (run step r between) := by
  induction between using List.reverseRecOn with
  | nil => exact h
  | append_singleton between i ih =>
    rw [run_concat]
    exact ih.concat i

theorem spaced (h : r.nextState = .hwReset) (is : List Input) : Spaced r is := by
  intro before i between j after _ hpulse hacts
  have hwaited := waited_run (hpulse.waited (timed_run h before)) between
  have hnow : j.seenIdle = true ∧ (run step r (before ++ i :: between)).waitBusy = false := by
    rcases hacts with ⟨hreset, hpulses⟩ | ⟨hreset, hreconfig⟩
    · have hmachine := eq_stateMachine hreset
        (hpulses.elim Or.inl fun hread => Or.inr (Or.inl hread))
      exact ⟨hmachine.1, hmachine.2.1⟩
    · have hmachine := eq_stateMachine hreset (Or.inr (Or.inr hreconfig))
      exact ⟨hmachine.1, hmachine.2.1⟩
  rw [run_append, run_cons] at hnow
  rcases hwaited with hbusy | ⟨hwait, -⟩ | hidle
  · exact Or.inl ⟨hbusy, hnow.1⟩
  · exact absurd (hwait.symm.trans hnow.2) Bool.noConfusion
  · exact Or.inr hidle

/-! ## The writes before a reconfiguration -/

/-- What has happened of a request. -/
def Asked (l : List Event) (r : Registers) : Prop :=
  match r.nextState with
  | .writeTimeout => (request r.pageAddress).take 1 <:+ l
  | .writeWatchdogEnable => (request r.pageAddress).take 2 <:+ l
  | .writePageAddress => (request r.pageAddress).take 3 <:+ l
  | .writeAnf => (request r.pageAddress).take 4 <:+ l
  | .startReconfig => ∃ n, request r.pageAddress ++ List.replicate n .reconfigures <:+ l
  | _ => True

/-- At an edge that is not of the state machine nothing happens. -/
theorem Asked.pause {l : List Event} (h : Asked l r) {waitBusy : Bool} {timer : ℕ}
    (heq : step i r = { defaults r with waitBusy := waitBusy, timer := timer }) :
    Asked (l ++ events i r) (step i r) := by
  have hevents : events i r = [] := by
    simp only [events, heq, defaults, Bool.false_eq_true, if_false, List.append_nil]
    split_ifs with _ haccepts
    · rfl
    · rw [haccepts.2.1] at haccepts
      exact absurd haccepts.2.2 (by decide)
    · rfl
  rw [hevents, List.append_nil, heq]
  exact h

/-- The next event. -/
theorem concat_isSuffix {l l' : List Event} (h : l <:+ l') (e : Event) :
    l ++ [e] <:+ l' ++ [e] := by
  obtain ⟨before, rfl⟩ := h
  exact ⟨before, (List.append_assoc _ _ _).symm⟩

theorem Asked.step {l : List Event} (h : Asked l r) (i : Input) :
    Asked (l ++ events i r) (step i r) := by
  rcases step_cases i r with ⟨-, heq⟩ | ⟨-, heq⟩ | ⟨-, -, -, heq⟩ | ⟨-, -, -, heq⟩ | ⟨hidle, -, heq⟩
  · rw [heq]
    exact trivial
  · exact h.pause heq
  · exact h.pause heq
  · exact h.pause heq
  · have hreset : i.reset = false := by
      unfold Input.seenIdle at hidle
      simp_all
    unfold Asked at h
    unfold events
    rw [heq, hreset]
    unfold Asked stateMachine
    cases hstate : r.nextState <;>
      simp only [hstate, defaults, writeParam, readParam, Bool.false_eq_true, if_false, if_true,
        reduceCtorEq, false_and, and_false, List.nil_append, List.append_nil] at h ⊢
    · by_cases hread : r.paramsRead = false ∨ i.rereadParams = true
      · simp only [hread, if_true]
      · by_cases hdo : i.doReconfig = true
        · simp only [hread, hdo, if_true, if_false, true_and]
          exact ⟨l, rfl⟩
        · simp only [hread, hdo, if_false, Bool.false_eq_true]
    · exact concat_isSuffix h (.wrote paramWdTimeout 0x000100)
    · exact concat_isSuffix h (.wrote paramWdEnable 1)
    · exact concat_isSuffix h (.wrote paramPageAddr r.pageAddress)
    · exact ⟨0, concat_isSuffix h (.wrote paramAnf 1)⟩
    · obtain ⟨n, hn⟩ := h
      split_ifs
      · refine ⟨n + 1, ?_⟩
        rw [List.replicate_succ', ← List.append_assoc]
        exact concat_isSuffix hn .reconfigures
      · exact trivial

theorem requested (h : r.nextState = .hwReset) (is : List Input) : Requested r is := by
  intro before i after _ hreconfig
  obtain ⟨hreset, hreconfig⟩ := hreconfig
  have hasked : Asked (log step events r before) (run step r before) :=
    log_invariant step (R := fun _ _ => True) (by unfold Asked; rw [h]; trivial)
      (fun l i _ _ hl => hl.step i) (along_of_forall step fun _ _ => trivial)
  obtain ⟨-, -, heq⟩ := eq_stateMachine hreset (Or.inr (Or.inr hreconfig))
  have hstate := stateMachine_reconfig (heq ▸ hreconfig)
  unfold Asked at hasked
  rw [hstate] at hasked
  exact ⟨_, hasked⟩

/-- After a reset, whatever the registers were, and whatever the block answers: it has time
    to answer before it is given the next parameter, and it is reconfigured only after the
    writes of the request that was accepted, to the address it was accepted with. -/
theorem sequenced (r : Registers) (is : List Input) :
    Spaced (reset r) is ∧ Requested (reset r) is :=
  ⟨spaced rfl is, requested rfl is⟩

/-- A request for `0x010000`, with a block that is busy for an edge after each pulse: at the
    last edge the reconfiguration is started. -/
example :
    let idle : Input := ⟨false, true, false, 0x010000, false, 0⟩
    let answered := [idle, { idle with ruBusy := true }]
    (log step events (reset ⟨.idle, 0, true, 40, true, 0, 0, true, false, false, 0, 0, false⟩)
      ([{ idle with ruBusy := true }, idle, idle] ++ answered ++ answered ++ answered ++
        [idle, idle] ++ answered ++ answered ++ answered ++ answered ++ [idle])) =
      [.read paramReconfig, .read paramPageAddr, .read paramAnf] ++ request 0x010000 ++
        [.reconfigures] := by
  decide

end FpgaEthernet.RemoteUpdateControl
