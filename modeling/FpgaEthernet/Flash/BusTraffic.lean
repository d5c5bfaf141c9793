import FpgaEthernet.Flash.ConfigDataManager

/-!
# Other traffic on the reply bus

`config_data_manager` listens on the bus that carries all replies. What it looks
for are the words on port EPCQIO; `WAIT_READ` checks the port of the word that
has arrived, `READ_DATA` takes every valid word.

Main results:

* `step_only`: as long as no word of another port arrives in `READ_DATA`, the
  manager goes on as it would if the bus carried the words of the memory only.
* `forwards_same`: two such runs with the same words of the memory forward the
  same words.
-/

namespace FpgaEthernet.ConfigDataManager

open Clocked

variable {i j : Input} {s : State} {is js : List Input}

/-! ## Specification -/

/-- The word of the memory on the bus. -/
def epcqioWord (i : Input) : Option Word :=
  if i.ethDvalIn = true ∧ i.ethPortIn = udpPortEpcqio then some i.ethDataIn else none

/-- The same requests, and the same words of the memory on the bus; words of
    other ports may differ. -/
def SameFlashData (i j : Input) : Prop :=
  i.loadConfig = j.loadConfig ∧ i.configPage = j.configPage ∧ epcqioWord i = epcqioWord j

instance : Decidable (SameFlashData i j) := inferInstanceAs (Decidable (_ ∧ _ ∧ _))

/-- A word of another port has arrived while a block is read. -/
def Intrudes (s : State) : Prop :=
  s.nextState = .readData ∧ s.wordsRead < epcqPageSize ∧ s.dvalInReg = true ∧
    s.portInReg ≠ udpPortEpcqio

instance : Decidable (Intrudes s) := inferInstanceAs (Decidable (_ ∧ _ ∧ _ ∧ _))

/-- The word on the output ports. -/
def portsOut (_ : Input) (s : State) : List (UdpPort × Word) :=
  if s.ethDvalOut then [(s.ethPortOut, s.ethDataOut)] else []

/-! ## The words of the memory only -/

/-- The word of the memory in the input register. -/
def arrived (s : State) : Option Word :=
  if s.dvalInReg = true ∧ s.portInReg = udpPortEpcqio then some s.dataInReg else none

/-- The bus without the words of other ports. -/
def Input.only (i : Input) : Input :=
  { i with
    ethDataIn := (epcqioWord i).getD 0
    ethPortIn := udpPortEpcqio
    ethDvalIn := (epcqioWord i).isSome }

/-- The registers as they are without the words of other ports. -/
def State.only (s : State) : State :=
  { s with
    dataInReg := (arrived s).getD 0
    portInReg := udpPortEpcqio
    dvalInReg := (arrived s).isSome }

theorem only_of_word (h : s.dvalInReg = true ∧ s.portInReg = udpPortEpcqio) : s.only = s := by
  have hword : arrived s = some s.dataInReg := if_pos h
  obtain ⟨hv, hp⟩ := h
  rw [State.only, hword, Option.getD_some, Option.isSome_some, ← hp, ← hv]

/-- The state machine does not notice the words of other ports outside of
    `READ_DATA`. -/
theorem stateMachine_only (h : ¬Intrudes s) : stateMachine i s.only =
    { stateMachine i s with
      dataInReg := s.only.dataInReg
      portInReg := s.only.portInReg
      dvalInReg := s.only.dvalInReg } := by
  by_cases hword : s.dvalInReg = true ∧ s.portInReg = udpPortEpcqio
  · have hkeep : (stateMachine i s).dataInReg = s.dataInReg ∧
        (stateMachine i s).portInReg = s.portInReg ∧
        (stateMachine i s).dvalInReg = s.dvalInReg := by
      unfold stateMachine
      split <;> (try split_ifs) <;> exact ⟨rfl, rfl, rfl⟩
    obtain ⟨hd, hp, hv⟩ := hkeep
    rw [only_of_word hword, ← hd, ← hp, ← hv]
  · have hnone : arrived s = none := if_neg hword
    have hidle : ¬s.only.dvalInReg = true := by
      rw [State.only, hnone]
      exact Bool.false_ne_true
    have htimer : epcqTimeout ≤ s.only.timer ↔ epcqTimeout ≤ s.timer := Iff.rfl
    cases hs : s.nextState with
    | waitRead =>
      have hs' : s.only.nextState = .waitRead := hs
      simp only [stateMachine, hs, hs', if_neg hword, if_neg fun h => hidle (And.left h), htimer]
      split_ifs <;> rfl
    | readData =>
      have hs' : s.only.nextState = .readData := hs
      have hcount : epcqPageSize ≤ s.only.wordsRead ↔ epcqPageSize ≤ s.wordsRead := Iff.rfl
      simp only [stateMachine, hs, hs', hcount, htimer]
      by_cases h64 : epcqPageSize ≤ s.wordsRead
      · rw [if_pos h64, if_pos h64]
        rfl
      · have hv : ¬s.dvalInReg = true := fun hv =>
          h ⟨hs, Nat.not_le.1 h64, hv, fun hp => hword ⟨hv, hp⟩⟩
        rw [if_neg h64, if_neg h64, if_neg hv, if_neg hidle]
        split_ifs <;> rfl
    | hwReset | idle | resetWait | startConfig | readCpage | configError | readDone =>
      simp only [stateMachine, hs, show s.only.nextState = _ from hs]
      rfl

/-- As long as no word of another port arrives in `READ_DATA`, the manager goes on
    as it would without the words of other ports. -/
theorem step_only (h : ¬Intrudes s) : step i.only s.only = (step i s).only := by
  have hinput : stateMachine i.only s.only = stateMachine i s.only := rfl
  rw [step, hinput, stateMachine_only h]
  rfl

/-- The words of other ports do not show on the output ports either. -/
theorem log_only (h : Along step (fun _ s => ¬Intrudes s) s is) :
    log step portsOut s.only (is.map Input.only) = log step portsOut s is := by
  induction is generalizing s with
  | nil => rfl
  | cons i is ih =>
    rw [List.map_cons, log_cons, log_cons, step_only h.1, ih h.2]
    rfl

/-! ## Two runs -/

theorem SameFlashData.only_eq (h : SameFlashData i j) : i.only = j.only := by
  obtain ⟨hload, hpage, hword⟩ := h
  rw [Input.only, Input.only, hload, hpage, hword]

theorem map_only_eq (h : List.Forall₂ SameFlashData is js) :
    is.map Input.only = js.map Input.only := by
  induction h with
  | nil => rfl
  | cons h _ ih => rw [List.map_cons, List.map_cons, h.only_eq, ih]

/-- Two runs with the same requests and the same words of the memory, in neither
    of which a word of another port arrives while a block is read, forward the
    same words. -/
theorem forwards_same (hsame : List.Forall₂ SameFlashData is js)
    (hi : Along step (fun _ s => ¬Intrudes s) reset is)
    (hj : Along step (fun _ s => ¬Intrudes s) reset js) :
    log step portsOut reset is = log step portsOut reset js := by
  rw [← log_only hi, ← log_only hj, map_only_eq hsame]

/-! ## A word of another port -/

/-- A cycle without a word. -/
def quiet : Input := ⟨false, 0, 0, 0, false⟩

/-- A cycle with a word for a port. -/
def busWord (port : UdpPort) (w : Word) : Input := ⟨false, 0, w, port, true⟩

/-- The wait after reset, with the timer at `t`. -/
def waiting (t : ℕ) : State :=
  { reset with nextState := .resetWait, timer := t, configBusy := true }

/-- The wait after reset is over. -/
def started : State :=
  { reset with nextState := .startConfig, timer := resetWaitCycles, configBusy := true }

theorem not_intrudes_of_ne (h : s.nextState ≠ .readData) : ¬Intrudes s := fun hi => h hi.1

theorem not_intrudes_waiting (t : ℕ) : ¬Intrudes (waiting t) :=
  not_intrudes_of_ne (by simp [waiting])

theorem step_waiting (t : ℕ) : step quiet (waiting t) =
    if resetWaitCycles ≤ t + 1 then { waiting (t + 1) with nextState := .startConfig }
    else waiting (t + 1) := by
  have hsm : stateMachine quiet (waiting t) = { waiting (t + 1) with
      nextState := if resetWaitCycles ≤ t + 1 then .startConfig else .resetWait } := rfl
  rw [step, hsm]
  split_ifs <;> rfl

theorem run_waiting (n t : ℕ) (h : t + n < resetWaitCycles) :
    run step (waiting t) (List.replicate n quiet) = waiting (t + n) ∧
      Along step (fun _ s => ¬Intrudes s) (waiting t) (List.replicate n quiet) := by
  induction n generalizing t with
  | zero => exact ⟨rfl, trivial⟩
  | succ n ih =>
    have hnext : step quiet (waiting t) = waiting (t + 1) := by
      rw [step_waiting, if_neg (by omega)]
    obtain ⟨hrun, halong⟩ := ih (t + 1) (by omega)
    rw [List.replicate_succ, run_cons, along_cons, hnext, hrun, Nat.add_right_comm]
    exact ⟨rfl, not_intrudes_waiting t, halong⟩

/-- The edges of the wait after reset. -/
def powerUp : List Input := quiet :: (List.replicate (resetWaitCycles - 1) quiet ++ [quiet])

theorem run_powerUp : run step reset powerUp = started ∧
    Along step (fun _ s => ¬Intrudes s) reset powerUp := by
  have hreset : step quiet reset = waiting 0 := rfl
  have hpos : 0 < resetWaitCycles := by decide
  obtain ⟨hrun, halong⟩ := run_waiting (resetWaitCycles - 1) 0 (by omega)
  rw [powerUp, run_cons, along_cons, hreset, run_concat, along_concat, hrun, step_waiting,
    Nat.zero_add, if_pos (by omega), Nat.sub_add_cancel hpos]
  exact ⟨rfl, not_intrudes_of_ne (by decide), halong, not_intrudes_waiting _⟩

/-- The header of a block of three words and the first of its words, with `a` in
    the cycle before the header and `b` in the one after it. -/
def loadRun (a b : Input) : List Input :=
  [quiet, quiet, quiet, a, busWord udpPortEpcqio 0xCD031042, b, busWord udpPortEpcqio 0x11111111,
    quiet, quiet, quiet]

/-- A word of another port does no harm while the header is awaited. -/
theorem forwards_same_header :
    log step portsOut reset (powerUp ++ loadRun quiet quiet) =
      log step portsOut reset (powerUp ++ loadRun (busWord 4096 0x22222222) quiet) := by
  obtain ⟨hrun, halong⟩ := run_powerUp
  have hrefl : List.Forall₂ SameFlashData powerUp powerUp :=
    List.forall₂_same.2 fun _ _ => ⟨rfl, rfl, rfl⟩
  have hload : List.Forall₂ SameFlashData (loadRun quiet quiet)
      (loadRun (busWord 4096 0x22222222) quiet) := by
    repeat' constructor
  apply forwards_same (List.rel_append hrefl hload)
  · rw [along_append, hrun]
    exact ⟨halong, by decide +kernel⟩
  · rw [along_append, hrun]
    exact ⟨halong, by decide +kernel⟩

/-- While a block is read, a word of another port is taken for one of its words.
    There is no timeout in either run. -/
theorem foreign_word_forwarded :
    List.Forall₂ SameFlashData (powerUp ++ loadRun quiet quiet)
        (powerUp ++ loadRun quiet (busWord 4096 0x22222222)) ∧
      (run step reset (powerUp ++ loadRun quiet quiet)).errorCodeReg = 0 ∧
      (run step reset (powerUp ++ loadRun quiet (busWord 4096 0x22222222))).errorCodeReg = 0 ∧
      log step portsOut reset (powerUp ++ loadRun quiet quiet) ≠
        log step portsOut reset (powerUp ++ loadRun quiet (busWord 4096 0x22222222)) := by
  have hrun := run_powerUp.1
  have hrefl : List.Forall₂ SameFlashData powerUp powerUp :=
    List.forall₂_same.2 fun _ _ => ⟨rfl, rfl, rfl⟩
  have hload : List.Forall₂ SameFlashData (loadRun quiet quiet)
      (loadRun quiet (busWord 4096 0x22222222)) := by
    repeat' constructor
  refine ⟨List.rel_append hrefl hload, ?_, ?_, fun heq => ?_⟩
  · rw [run_append, hrun]
    decide +kernel
  · rw [run_append, hrun]
    decide +kernel
  · rw [log_append, log_append, hrun] at heq
    exact absurd (List.append_cancel_left heq) (by decide +kernel)

end FpgaEthernet.ConfigDataManager
