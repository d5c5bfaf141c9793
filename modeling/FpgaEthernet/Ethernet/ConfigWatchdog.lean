import FpgaEthernet.Ethernet.BusCompliance

/-!
# The watchdog of the configuration

`watch_dog` of `tse_config_controller` counts the edges at which the state machine
stays in one state, and restarts it when they are too many. A state machine that
waits for the bus has been through its state already: `next_state` is the state
after it, unless that is the state itself, and the count is cleared at every edge.

Main results:

* `progresses_iff`: at an edge without an answer nothing moves exactly in the
  states `Stuck` describes.
* `Hung.run`: a transfer that keeps the watchdog from counting waits as long as
  the bus does not answer.
* `progress_along_iff`: the runs in which there is always progress.
* `frozen_run`, `failure_not_reported`: once the watchdog has given up, the outputs
  stay as they are, and `mac_error` is never set.
-/

namespace FpgaEthernet.TseConfigController

open Clocked

variable {g : Generics} {i : Input} {s : State} {m : Machine} {n : StateType} {config : Word}
  {is : List Input}

/-! ## Specification -/

/-- The bus does not answer during the configuration, MDIO apart, and no
    reconfiguration is asked for. -/
def Unanswered (i : Input) (s : State) : Prop :=
  s.machine.macReady = false ∧ s.machine.macError = false ∧ s.machine.inMdio = false ∧
    i.waitrequest = true ∧ i.reconfig = false

instance (i : Input) (s : State) : Decidable (Unanswered i s) :=
  inferInstanceAs (Decidable (_ ∧ _ ∧ _ ∧ _ ∧ _))

/-- An edge leaves the state machine, its outputs, the timer of the watchdog and
    the number of its attempts as they are. -/
def Unchanged (g : Generics) (i : Input) (s : State) : Prop :=
  (step g i s).machine = s.machine ∧ (step g i s).watchDog.timer = s.watchDog.timer ∧
    (step g i s).watchDog.resetAttempts = s.watchDog.resetAttempts

instance (g : Generics) (i : Input) (s : State) : Decidable (Unchanged g i s) :=
  inferInstanceAs (Decidable (_ ∧ _ ∧ _))

/-- There is no deadlock: something changes, and while the state machine stands
    still the watchdog counts. -/
structure Progresses (g : Generics) (i : Input) (s : State) : Prop where
  changes : ¬Unchanged g i s
  counts : (step g i s).machine = s.machine →
    (step g i s).watchDog.timer = s.watchDog.timer + 1

/-- A transfer has been asked for. -/
def Machine.Pending (m : Machine) : Prop := m.readReq = true ∨ m.writeReq = true

instance (m : Machine) : Decidable m.Pending := inferInstanceAs (Decidable (_ ∨ _))

/-- The state machine has been sent on already, or a transfer waits that does not
    leave it in its state. -/
def Stuck (s : State) : Prop :=
  if s.watchDog.stateMachineReset then s.machine.nextState = .preConfig
  else if s.watchDog.stateMachineError then s.machine.nextState = .macConfigError
  else if s.config.configChanged then s.machine.nextState = .preConfig
  else s.machine.Pending ∧
    (s.machine.nextState = .preConfig ∨ s.machine.nextState ≠ s.machine.state)

instance (s : State) : Decidable (Stuck s) := by
  unfold Stuck
  infer_instance

/-! ## One edge -/

theorem progresses_iff_or : Progresses g i s ↔ (step g i s).machine ≠ s.machine ∨
    s.watchDog.timerNext s.machine = s.watchDog.timer + 1 := by
  constructor
  · intro h
    by_cases hm : (step g i s).machine = s.machine
    · exact Or.inr (h.counts hm)
    · exact Or.inl hm
  · rintro (hm | ht)
    · exact ⟨fun hu => hm hu.1, fun heq => absurd heq hm⟩
    · refine ⟨fun hu => ?_, fun _ => ht⟩
      have htimer : s.watchDog.timerNext s.machine = s.watchDog.timer := hu.2.1
      omega

/-- What the watchdog counts where it is needed. -/
theorem WatchDog.timerNext_iff {w : WatchDog} (hm : m.inMdio = false) :
    w.timerNext m = w.timer + 1 ↔ ¬w.Idle m ∧ m.nextState = m.state := by
  unfold WatchDog.timerNext
  split_ifs with hidle hstate
  · simp [hidle]
  · simp [hidle, hstate]
  · simp [hidle, Ne.symm hstate]

/-- A restart leaves the state machine alone only if it has been restarted before. -/
theorem restart_eq_iff : { m with nextState := n } = m ↔ m.nextState = n := by
  constructor
  · intro h
    rw [← h]
  · rintro rfl
    rfl

theorem progresses_restart (hm : s.machine.inMdio = false)
    (heq : (step g i s).machine = { s.machine with nextState := n })
    (hidle : s.machine.nextState = n → s.watchDog.Idle s.machine) :
    Progresses g i s ↔ ¬s.machine.nextState = n := by
  rw [progresses_iff_or, WatchDog.timerNext_iff hm, heq, Ne, restart_eq_iff]
  constructor
  · rintro (hn | ⟨hcounts, -⟩) hn'
    · exact hn hn'
    · exact hcounts (hidle hn')
  · exact Or.inl

/-- When nothing is asked of the bus, the next state is entered: if that leaves the
    state machine as it is, the watchdog counts. -/
theorem progresses_action (hm : s.machine.inMdio = false) (hr : s.machine.macReady = false)
    (he : s.watchDog.stateMachineError = false)
    (heq : (step g i s).machine =
      action g i s { s.machine with state := s.machine.nextState } s.machine.nextState) :
    Progresses g i s := by
  rw [progresses_iff_or, WatchDog.timerNext_iff hm, heq]
  by_cases hsame : action g i s { s.machine with state := s.machine.nextState }
      s.machine.nextState = s.machine
  · right
    have hstate : s.machine.nextState = s.machine.state := by
      conv_rhs => rw [← hsame, action_state]
    refine ⟨?_, hstate⟩
    rintro (hpre | hready | herror)
    · have hsucc := mem_successors (congrArg Machine.nextState hsame)
      rw [hpre] at hsucc
      simp [successors] at hsucc
    · rw [hr] at hready
      exact Bool.false_ne_true hready
    · rw [he] at herror
      exact Bool.false_ne_true herror
  · exact Or.inl hsame

/-- At an edge without an answer there is progress unless the state machine is
    stuck. -/
theorem progresses_iff (h : Unanswered i s) : Progresses g i s ↔ ¬Stuck s := by
  obtain ⟨hready, -, hmdio, hwait, hreconfig⟩ := h
  have hsig : reconfigSig i s = s.config.configChanged := by
    rw [reconfigSig, hreconfig, Bool.false_or]
  have hidle : s.watchDog.stateMachineError = false →
      (s.watchDog.Idle s.machine ↔ s.machine.nextState = .preConfig) := by
    intro herror
    simp [WatchDog.Idle, hready, herror]
  unfold Stuck
  split_ifs with hr he hc
  · apply progresses_restart hmdio
    · simp [step, stateMachine, hr]
    · exact Or.inl
  · apply progresses_restart hmdio
    · simp [step, stateMachine, hr, he]
    · intro _
      exact Or.inr (Or.inr he)
  · apply progresses_restart hmdio
    · simp [step, stateMachine, hr, he, hsig, hc, hready]
    · exact Or.inl
  · have herror : s.watchDog.stateMachineError = false := by simpa using he
    by_cases hpending : s.machine.Pending
    · have hstep : (step g i s).machine = s.machine := by
        change stateMachine g i s = s.machine
        rw [stateMachine, if_neg hr, if_neg he, hsig, if_neg hc, if_pos ⟨hwait, hpending⟩]
      rw [progresses_iff_or, WatchDog.timerNext_iff hmdio, hstep, hidle herror]
      simp only [ne_eq, not_true_eq_false, false_or, hpending, true_and, not_or, not_not]
    · have hstep : (step g i s).machine =
          action g i s { s.machine with state := s.machine.nextState } s.machine.nextState := by
        change stateMachine g i s = _
        rw [stateMachine, if_neg hr, if_neg he, hsig, if_neg hc, if_neg fun hw => hpending hw.2]
      simp only [hpending, false_and, not_false_eq_true, iff_true]
      exact progresses_action hmdio hready herror hstep

/-! ## Runs -/

/-- A transfer waits that keeps the watchdog from counting. -/
structure Hung (s : State) : Prop where
  reset : s.watchDog.stateMachineReset = false
  error : s.watchDog.stateMachineError = false
  attempts : s.watchDog.resetAttempts < stateMachineResetAttempts
  pending : s.machine.Pending
  ahead : s.machine.nextState = .preConfig ∨ s.machine.nextState ≠ s.machine.state

theorem Hung.step (h : Hung s) (hwait : i.waitrequest = true) (hsig : reconfigSig i s = false) :
    Hung (step g i s) ∧ (TseConfigController.step g i s).machine = s.machine := by
  have hmachine : (TseConfigController.step g i s).machine = s.machine := by
    change stateMachine g i s = s.machine
    rw [stateMachine, if_neg (by simp [h.reset]), if_neg (by simp [h.error]),
      if_neg (by simp [hsig]), if_pos ⟨hwait, h.pending⟩]
  have htimer : s.watchDog.timerNext s.machine = 0 := by
    unfold WatchDog.timerNext
    split_ifs with hidle hstate
    · rfl
    · exact absurd (Or.inl (h.ahead.resolve_right (not_not.2 hstate.symm))) hidle
    · exact absurd (Or.inl (h.ahead.resolve_right (not_not.2 hstate.symm))) hidle
    · rfl
  obtain ⟨hreset, herror⟩ := WatchDog.calm htimer (Or.inl h.reset) h.error h.attempts
  refine ⟨⟨hreset, herror, ?_, ?_, ?_⟩, hmachine⟩
  · have hattempts : (s.watchDog.step s.machine).resetAttempts = s.watchDog.resetAttempts := by
      simp [WatchDog.step, htimer, stateMachineTimeout]
    exact hattempts.trans_lt h.attempts
  · rw [hmachine]
    exact h.pending
  · rw [hmachine]
    exact h.ahead

/-- It waits as long as the bus does not answer, unless a reconfiguration comes. -/
theorem Hung.run (h : Hung s)
    (hi : Along (TseConfigController.step g)
      (fun i s => i.waitrequest = true ∧ reconfigSig i s = false) s is) :
    Hung (run (TseConfigController.step g) s is) ∧
      (Clocked.run (TseConfigController.step g) s is).machine = s.machine := by
  induction is using List.reverseRecOn with
  | nil => exact ⟨h, rfl⟩
  | append_singleton is i ih =>
    rw [along_concat] at hi
    obtain ⟨hhung, hmachine⟩ := ih hi.1
    rw [run_concat, ← hmachine]
    exact hhung.step hi.2.1 hi.2.2

/-- In every run from reset there is progress at every edge without an answer
    exactly if the state machine is stuck at none of them. -/
theorem progress_along_iff (g : Generics) (config : Word) (is : List Input) :
    Along (step g) (fun i s => Unanswered i s → Progresses g i s) (reset config) is ↔
      Along (step g) (fun i s => Unanswered i s → ¬Stuck s) (reset config) is := by
  constructor
  · intro h
    exact h.mono (step g) fun i s hp hu => (progresses_iff hu).1 (hp hu)
  · intro h
    exact h.mono (step g) fun i s hs hu => (progresses_iff hu).2 (hs hu)

/-- An edge at which the bus does not answer. -/
def silentEdge : Input where
  reconfig := false
  readdata := 0
  waitrequest := true
  configIn := ⟨0, false⟩
  config := 0
  macAddr := 0

/-- The registers of the configuration when nothing is written to them. -/
def unwritten : ConfigRegisterBlock.State 8 :=
  { ConfigRegisterBlock.initial defaultSettings with
    reconfiged := false
    configChangedRegs := 0 }

/-- The registers while the configuration word is 0 and nothing is configured
    anew. -/
def settled (m : Machine) (w : WatchDog) : State where
  controls := configDff 0
  linkStatus := false
  machine := m
  watchDog := w
  config := unwritten
  resetController := (reset 0).resetController

/-- The state machine when it has asked for the first write to the MAC. -/
def disabling : Machine :=
  { (reset 0).machine with
    state := .macCfgWriteEnaDb
    nextState := .macCfgWaitEnaDb
    writeReq := true
    address := macCommandAddr
    writeData := 0x00000028
    macCommandWord := 0x00000028 }

theorem run_silent : run (step ⟨2048, 0⟩) (reset 0) (List.replicate 8 silentEdge) =
    settled disabling (reset 0).watchDog := rfl

theorem step_silent : step ⟨2048, 0⟩ silentEdge (settled disabling (reset 0).watchDog) =
    settled disabling (reset 0).watchDog := rfl

theorem run_silent_add (n : ℕ) :
    run (step ⟨2048, 0⟩) (reset 0) (List.replicate (8 + n) silentEdge) =
      settled disabling (reset 0).watchDog := by
  rw [List.replicate_add, run_append, run_silent]
  induction n with
  | zero => rfl
  | succ n ih => rw [List.replicate_succ, run_cons, step_silent, ih]

/-- The first write to the MAC gets no answer: the state machine waits for it for
    ever, and the watchdog does not count. -/
theorem silent_bus_stuck :
    Unanswered silentEdge (run (step ⟨2048, 0⟩) (reset 0) (List.replicate 8 silentEdge)) ∧
      ∀ n, Unchanged ⟨2048, 0⟩ silentEdge
        (run (step ⟨2048, 0⟩) (reset 0) (List.replicate (8 + n) silentEdge)) := by
  constructor
  · decide +kernel
  · intro n
    rw [run_silent_add]
    decide +kernel

/-! ## Giving up -/

/-- The failure is reported, and nothing is asked of the bus. -/
structure Reported (m : Machine) : Prop where
  macError : m.macError = true
  macReady : m.macReady = false
  readReq : m.readReq = false
  writeReq : m.writeReq = false

/-- `MAC_CONFIG_ERROR` is next only when the watchdog has given up, and then it is
    never entered. -/
structure Silent (s : State) : Prop where
  macError : s.machine.macError = false
  nextState : s.machine.nextState = .macConfigError → s.watchDog.stateMachineError = true

theorem silent_reset (config : Word) : Silent (reset config) where
  macError := rfl
  nextState h := by cases h

theorem macConfigError_successors (hn : .macConfigError ∈ successors n) : n = .macConfigError := by
  cases n with
  | macConfigError => rfl
  | pcsCfg r | mdioWrite r | macCfg r =>
    cases r <;> simp [successors, PcsReg.next, MdioReg.next, MacReg.next] at hn
  | _ => simp [successors] at hn

theorem action_macError (hn : n ≠ .macConfigError) (h : m.macError = false) :
    (action g i s m n).macError = false := by
  cases n with
  | macConfigError => exact absurd rfl hn
  | hwReset | preConfig | macCfgReady => rfl
  | mdioRead r | mdioWrite r =>
    simp only [action]
    split_ifs <;> exact h
  | _ => exact h

theorem WatchDog.step_error {w : WatchDog} (h : w.stateMachineError = true) :
    (w.step m).stateMachineError = true := by
  simp [WatchDog.step, h]

theorem Silent.step (h : Silent s) : Silent (TseConfigController.step g i s) := by
  have hkeep : s.watchDog.stateMachineError = true →
      (s.watchDog.step s.machine).stateMachineError = true := WatchDog.step_error
  have hmachine : (stateMachine g i s).macError = false ∧
      ((stateMachine g i s).nextState = .macConfigError → s.watchDog.stateMachineError = true) := by
    unfold stateMachine
    split_ifs with hr he hc hwait
    · exact ⟨h.macError, nofun⟩
    · exact ⟨h.macError, fun _ => he⟩
    · exact ⟨h.macError, nofun⟩
    · exact ⟨h.macError, h.nextState⟩
    · have hn : s.machine.nextState ≠ .macConfigError := fun hn => he (h.nextState hn)
      exact ⟨action_macError hn h.macError,
        fun hn' => absurd (macConfigError_successors (mem_successors hn')) hn⟩
  exact ⟨hmachine.1, fun hn => hkeep (hmachine.2 hn)⟩

theorem silent_run (config : Word) (is : List Input) :
    Silent (run (step g) (reset config) is) :=
  run_invariant (step g) (R := fun _ _ => True) (silent_reset config) (fun _ _ _ h => h.step)
    (along_of_forall (step g) fun _ _ => trivial)

/-- In no run is the failure reported once the watchdog has given up, whether the
    bus is free or not. -/
theorem failure_not_reported {js : List Input}
    (hgave : (run (step g) (reset config) js).watchDog.stateMachineError = true) (ks : List Input) :
    (run (step g) (reset config) (js ++ ks)).watchDog.stateMachineError = true ∧
      (run (step g) (reset config) (js ++ ks)).machine.macError = false ∧
      ¬Reported (run (step g) (reset config) (js ++ ks)).machine := by
  have herror : (run (step g) (reset config) (js ++ ks)).watchDog.stateMachineError = true := by
    rw [run_append]
    exact run_invariant (step g) (R := fun _ _ => True)
      (I := fun s => s.watchDog.stateMachineError = true) hgave
      (fun _ _ _ h => WatchDog.step_error h) (along_of_forall (step g) fun _ _ => trivial)
  have hlow := (silent_run (g := g) config (js ++ ks)).macError
  refine ⟨herror, hlow, ?_⟩
  intro h
  rw [h.macError] at hlow
  exact Bool.false_ne_true hlow.symm

/-! ## A MAC that is never configured -/

/-- An edge at which the bus answers at once, with 0. -/
def pollEdge : Input := { silentEdge with waitrequest := false }

/-- The state machine while it reads the command register of the MAC. -/
def polling : Machine :=
  { disabling with state := .macCfgWaitEnaDb, readReq := true, writeReq := false }

theorem unwritten_step :
    ConfigRegisterBlock.step (tseConfigAddresses 0) ⟨0, false⟩ unwritten = unwritten := rfl

theorem resetController_step :
    (reset 0).resetController.step false (unwritten.configRegisters 6).toNat =
      (reset 0).resetController := rfl

theorem step_settled (w : WatchDog) (hlink : m.linkStatusSig = false)
    (hreset : m.activateReset = false) : step ⟨2048, 0⟩ pollEdge (settled m w) =
      settled (stateMachine ⟨2048, 0⟩ pollEdge (settled m w)) (w.step m) := by
  have hconfig := unwritten_step
  have hcontroller := resetController_step
  rw [← hreset] at hcontroller
  rw [step]
  congr 1

theorem stateMachine_polling (t a : ℕ) : stateMachine ⟨2048, 0⟩ pollEdge
    (settled polling ⟨false, false, t, a⟩) = polling := rfl

theorem WatchDog.step_polling (r : Bool) (t a : ℕ) :
    WatchDog.step polling ⟨r, false, t, a⟩ =
      let fires := decide (stateMachineTimeout ≤ t + 1) && !r
      let attempts := if fires then a + 1 else a
      ⟨fires || r, decide (stateMachineResetAttempts ≤ attempts), t + 1, attempts⟩ := by
  have htimer : WatchDog.timerNext polling ⟨r, false, t, a⟩ = t + 1 := rfl
  have hidle : ¬WatchDog.Idle polling ⟨r, false, t, a⟩ := by
    simp [WatchDog.Idle, polling, disabling, reset]
  simp [WatchDog.step, htimer, hidle]

/-- The watchdog while the state machine moves on. -/
theorem WatchDog.step_moving (hmoves : m.nextState = .preConfig ∨ m.state ≠ m.nextState)
    (hready : m.macReady = false) {r : Bool} {t a : ℕ} (ha : a < stateMachineResetAttempts) :
    WatchDog.step m ⟨r, false, t, a⟩ =
      ⟨!decide (m.nextState = .preConfig) && r, false, 0, a⟩ := by
  have hidle : WatchDog.Idle m ⟨r, false, t, a⟩ ↔ m.nextState = .preConfig := by
    simp [WatchDog.Idle, hready]
  have htimer : WatchDog.timerNext m ⟨r, false, t, a⟩ = 0 := by
    unfold WatchDog.timerNext
    split_ifs with hi hstate
    · rfl
    · exact absurd (hidle.2 (hmoves.resolve_right (not_not.2 hstate))) hi
    · exact absurd (hidle.2 (hmoves.resolve_right (not_not.2 hstate))) hi
    · rfl
  by_cases hpre : m.nextState = .preConfig
  · simp [WatchDog.step, htimer, hidle, hpre, stateMachineTimeout, ha]
  · simp [WatchDog.step, htimer, hidle, hpre, stateMachineTimeout, ha]

/-- The register is polled until the watchdog fires. -/
theorem run_polling (n t a : ℕ) (ht : t + n < stateMachineTimeout)
    (ha : a < stateMachineResetAttempts) :
    run (step ⟨2048, 0⟩) (settled polling ⟨false, false, t, a⟩) (List.replicate n pollEdge) =
      settled polling ⟨false, false, t + n, a⟩ := by
  induction n generalizing t with
  | zero => rfl
  | succ n ih =>
    have hdog : WatchDog.step polling ⟨false, false, t, a⟩ = ⟨false, false, t + 1, a⟩ := by
      simp [WatchDog.step_polling, show ¬stateMachineTimeout ≤ t + 1 by omega, ha]
    rw [List.replicate_succ, run_cons, step_settled _ rfl rfl, stateMachine_polling, hdog,
      ih (t + 1) (by omega), Nat.add_right_comm, Nat.add_assoc]

/-- It fires after `STATE_MACHINE_TIMEOUT` edges. -/
theorem run_fires (a : ℕ) (ha : a < stateMachineResetAttempts) :
    run (step ⟨2048, 0⟩) (settled polling ⟨false, false, 0, a⟩)
        (List.replicate stateMachineTimeout pollEdge) =
      settled polling ⟨true, decide (stateMachineResetAttempts ≤ a + 1), stateMachineTimeout,
        a + 1⟩ := by
  have hsplit : stateMachineTimeout = 4999 + 1 := by decide
  have hdog : WatchDog.step polling ⟨false, false, 0 + 4999, a⟩ =
      ⟨true, decide (stateMachineResetAttempts ≤ a + 1), stateMachineTimeout, a + 1⟩ := by
    simp [WatchDog.step_polling, stateMachineTimeout]
  conv_lhs => rw [hsplit]
  rw [List.replicate_add, run_append, run_polling 4999 0 a (by decide) ha]
  rw [List.replicate_one, run_cons, run_nil, step_settled _ rfl rfl, stateMachine_polling, hdog]

/-- The state machine when it has been restarted. -/
def restarted : Machine := { polling with nextState := .preConfig }

/-- It goes through `PRE_CONFIG`. -/
def preconfigured : Machine :=
  { disabling with
    state := .preConfig
    nextState := .macCfgWriteEnaDb
    writeReq := false
    writeData := 0
    address := 0 }

theorem stateMachine_preconfigured :
    stateMachine ⟨2048, 0⟩ pollEdge (settled preconfigured (reset 0).watchDog) = disabling := rfl

/-- Five edges later the register is polled again. -/
theorem run_restart (t a : ℕ) (ha : a < stateMachineResetAttempts) :
    run (step ⟨2048, 0⟩) (settled polling ⟨true, false, t, a⟩) (List.replicate 5 pollEdge) =
      settled polling ⟨false, false, 0, a⟩ := by
  have h₀ : WatchDog.step polling ⟨true, false, t, a⟩ = ⟨true, false, t + 1, a⟩ := by
    simp [WatchDog.step_polling, ha]
  have h₁ : WatchDog.step restarted ⟨true, false, t + 1, a⟩ = ⟨false, false, 0, a⟩ :=
    WatchDog.step_moving (Or.inl rfl) rfl ha
  have h₂ : WatchDog.step restarted ⟨false, false, 0, a⟩ = ⟨false, false, 0, a⟩ :=
    WatchDog.step_moving (Or.inl rfl) rfl ha
  have h₃ : WatchDog.step preconfigured ⟨false, false, 0, a⟩ = ⟨false, false, 0, a⟩ :=
    WatchDog.step_moving (Or.inr (by decide)) rfl ha
  have h₄ : WatchDog.step disabling ⟨false, false, 0, a⟩ = ⟨false, false, 0, a⟩ :=
    WatchDog.step_moving (Or.inr (by decide)) rfl ha
  have m₀ : stateMachine ⟨2048, 0⟩ pollEdge (settled polling ⟨true, false, t, a⟩) = restarted := rfl
  have m₁ : stateMachine ⟨2048, 0⟩ pollEdge (settled restarted ⟨true, false, t + 1, a⟩) =
      restarted := rfl
  have m₂ : stateMachine ⟨2048, 0⟩ pollEdge (settled restarted ⟨false, false, 0, a⟩) =
      preconfigured := rfl
  have m₃ : stateMachine ⟨2048, 0⟩ pollEdge (settled preconfigured ⟨false, false, 0, a⟩) =
      disabling := stateMachine_preconfigured
  have m₄ : stateMachine ⟨2048, 0⟩ pollEdge (settled disabling ⟨false, false, 0, a⟩) =
      polling := rfl
  simp only [List.replicate, run_cons, run_nil]
  rw [step_settled _ rfl rfl, m₀, h₀, step_settled _ rfl rfl, m₁, h₁,
    step_settled _ rfl rfl, m₂, h₂, step_settled _ rfl rfl, m₃, h₃, step_settled _ rfl rfl, m₄, h₄]

theorem run_attempts (a : ℕ) (ha : a < stateMachineResetAttempts) :
    run (step ⟨2048, 0⟩) (settled polling ⟨false, false, 0, 0⟩)
        (List.replicate ((stateMachineTimeout + 5) * a) pollEdge) =
      settled polling ⟨false, false, 0, a⟩ := by
  induction a with
  | zero => rfl
  | succ a ih =>
    have hmore : decide (stateMachineResetAttempts ≤ a + 1) = false := by simp [ha]
    rw [Nat.mul_succ, List.replicate_add, run_append, ih (by omega), List.replicate_add, run_append,
      run_fires a (by omega), hmore, run_restart _ _ ha]

theorem run_disabling : run (step ⟨2048, 0⟩) (reset 0) (List.replicate 8 pollEdge) =
    settled disabling (reset 0).watchDog := rfl

theorem stateMachine_disabling :
    stateMachine ⟨2048, 0⟩ pollEdge (settled disabling (reset 0).watchDog) = polling := rfl

theorem run_polled : run (step ⟨2048, 0⟩) (reset 0) (List.replicate 9 pollEdge) =
    settled polling ⟨false, false, 0, 0⟩ := by
  have hdog : WatchDog.step disabling (reset 0).watchDog = ⟨false, false, 0, 0⟩ := by decide
  rw [List.replicate_succ', run_concat, run_disabling, step_settled _ rfl rfl,
    stateMachine_disabling, hdog]

/-- The register is polled until the watchdog gives up. -/
def pollEdges : List Input :=
  List.replicate 9 pollEdge ++ List.replicate ((stateMachineTimeout + 5) * 9) pollEdge ++
    List.replicate stateMachineTimeout pollEdge

theorem run_gaveUp : run (step ⟨2048, 0⟩) (reset 0) pollEdges =
    settled polling ⟨true, true, stateMachineTimeout, stateMachineResetAttempts⟩ := by
  have hmore : decide (stateMachineResetAttempts ≤ 9 + 1) = true := by decide
  rw [pollEdges, run_append, run_append, run_polled, run_attempts 9 (by decide),
    run_fires 9 (by decide), hmore]
  rfl

theorem failure_not_reported_polling :
    ¬Reported (run (step ⟨2048, 0⟩) (reset 0)
      (pollEdges ++ List.replicate 4 pollEdge)).machine :=
  (failure_not_reported (by rw [run_gaveUp]; rfl) (List.replicate 4 pollEdge)).2.2

/-- Once the watchdog has given up, the outputs of the state machine stay as they are. -/
theorem frozen_run {js : List Input}
    (hgave : (run (step g) s js).watchDog.stateMachineError = true) (ks : List Input) :
    ∃ n, (run (step g) s (js ++ ks)).machine = { (run (step g) s js).machine with nextState := n } ∧
      (run (step g) s (js ++ ks)).watchDog.stateMachineError = true := by
  induction ks using List.reverseRecOn with
  | nil =>
    rw [List.append_nil]
    exact ⟨_, rfl, hgave⟩
  | append_singleton ks i ih =>
    obtain ⟨n, hmachine, herror⟩ := ih
    rw [← List.append_assoc, run_concat]
    refine ⟨?_, ?_, WatchDog.step_error herror⟩
    · exact (stateMachine g i (run (step g) s (js ++ ks))).nextState
    · change stateMachine g i _ = _
      unfold stateMachine
      split_ifs <;> rw [hmachine]

/-- The MAC never answers with the expected word: the watchdog gives up, and the
    state machine goes on reading for ever, without `mac_error`. -/
theorem polling_not_reported :
    (run (step ⟨2048, 0⟩) (reset 0) (pollEdges)).watchDog.stateMachineError =
        true ∧
      pollEdge.waitrequest = false ∧
      ∀ n, (run (step ⟨2048, 0⟩) (reset 0)
          (pollEdges ++ List.replicate n pollEdge)).machine.macError = false ∧
        (run (step ⟨2048, 0⟩) (reset 0)
          (pollEdges ++ List.replicate n pollEdge)).machine.readReq =
            true := by
  have hgave : (run (step ⟨2048, 0⟩) (reset 0)
      (pollEdges)).watchDog.stateMachineError = true := by
    rw [run_gaveUp]
    rfl
  refine ⟨hgave, rfl, fun n => ?_⟩
  obtain ⟨n', hmachine, -⟩ := frozen_run hgave (List.replicate n pollEdge)
  rw [hmachine, run_gaveUp]
  exact ⟨rfl, rfl⟩

end FpgaEthernet.TseConfigController
