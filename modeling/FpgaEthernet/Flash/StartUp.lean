import FpgaEthernet.CommonModules.RegisterMap
import FpgaEthernet.Ethernet.EthernetDataRouter
import FpgaEthernet.Flash.ConfigRoundTrip
import FpgaEthernet.Server.ConfigBlockList

/-!
# Settings, from the network and from the flash memory

The words for the configuration registers on their way from the Ethernet blocks and
`config_data_manager` through `ethernet_data_router` and the multiplexer of
`top_ethernet.vhd` to a block of registers.

Main results:

* `settled_step`, `expected_step`: what an edge adds to the registers that come of the
  words on the way.
* `sent_settings`: the settings that the host sends, whatever else comes in.
* `booted_settings`: the settings that are loaded from the flash memory after a reset.
-/

namespace FpgaEthernet.StartUp

open Clocked ConfigRegisterBlock Server
open ConfigDataManager (Loader Stimulus loaderStep forwarded Prompt epcqTimeout resetWaitCycles)
open EthernetDataRouter (Iface Arrival arrivalsFor word)
open Epcq (Flash)

/-! ## Model -/

/-- What the manager and its memory are given, the outputs of the Ethernet blocks, and
    those of `config_block_scanner`. -/
structure Input where
  stimulus : Stimulus
  iface0 : Iface
  iface1 : Iface
  iface2 : Iface
  configDataOutScan : Word
  configValidOutScan : Bool

/-- The manager beside its memory, the router, and a block of registers. -/
structure State (n : ℕ) where
  loader : Loader
  router : EthernetDataRouter.State
  block : ConfigRegisterBlock.State n

/-- The input ports of the router (`top_ethernet.vhd` lines 874-876, 1002-1016). -/
def routerInput (i : Input) (m : ConfigDataManager.State) : EthernetDataRouter.Input where
  iface0 := i.iface0
  iface1 := i.iface1
  iface2 := i.iface2
  intDataIn := m.ethDataOut
  intValidIn := m.ethDvalOut
  intPortIn := m.ethPortOut

/-- `config_data_out_sig` and `config_valid_out_sig` (lines 769-772). -/
def configOut (i : Input) (r : EthernetDataRouter.State) : ConfigRegisterBlock.Input where
  configDataIn :=
    if r.configValid then r.configDataOut
    else if i.configValidOutScan then i.configDataOutScan
    else 0
  configValidIn := r.configValid || i.configValidOutScan

variable {n : ℕ}

/-- One edge of `clock`. -/
def step (f : Flash) (addr : BitVec 7) (i : Input) (s : State n) : State n where
  loader := loaderStep f i.stimulus s.loader
  router := EthernetDataRouter.step (routerInput i s.loader.manager) s.router
  block := ConfigRegisterBlock.step addr (configOut i s.router) s.block

/-- The registers when `reset` is released. -/
def powerUp (settings : Fin n → Word) : State n :=
  ⟨⟨ConfigDataManager.reset, []⟩, EthernetDataRouter.initial, initial settings⟩

/-! ## Words on the way -/

variable {f : Flash} {addr : BitVec 7} {i j k : Input} {s : State n} {is : List Input}

/-- The scanner reads the registers and never writes one. -/
def OnlyReads (i : Input) : Prop :=
  i.configValidOutScan = true → isRead i.configDataOutScan = true

/-- The arrivals for the configuration lines. -/
def configArrivals (i : Input) (s : State n) : List Arrival :=
  arrivalsFor .config (routerInput i s.loader.manager)

/-- The word that the router takes. -/
def taken (i : Input) (s : State n) : List Word := ((configArrivals i s).take 1).map Arrival.data

/-- The registers as they will be when the words beyond the router have been written. -/
def settled (addr : BitVec 7) (s : State n) : Fin n → Word :=
  (word .config s.router).foldl (writeWord addr) (registerWriter addr s.block).1

theorem registerWriter_step (hi : OnlyReads i) :
    (registerWriter addr (step f addr i s).block).1 = settled addr s := by
  rw [registerWriter_fst, settled, word]
  show (if (s.router.configValid || i.configValidOutScan) = true then
      writeWord addr (registerWriter addr s.block).1 (configOut i s.router).configDataIn
    else (registerWriter addr s.block).1) = _
  cases hv : s.router.configValid with
  | true => simp [configOut, hv]
  | false =>
    cases hscan : i.configValidOutScan with
    | true => simp [configOut, hv, hscan, writeWord_of_read (hi hscan)]
    | false => simp

/-- An edge adds the word that the router takes. -/
theorem settled_step (hi : OnlyReads i) :
    settled addr (step f addr i s) = (taken i s).foldl (writeWord addr) (settled addr s) := by
  have hword : word .config (step f addr i s).router = taken i s :=
    EthernetDataRouter.word_step .config (routerInput i s.loader.manager) s.router
  rw [settled, hword, registerWriter_step hi]

/-- After two edges the words have been written. -/
theorem registers_step_step (hi : OnlyReads i) :
    (step f addr j (step f addr i s)).block.configRegistersReg = settled addr s :=
  registerWriter_step hi

/-- The registers after a run, two edges later. -/
theorem registers_run (his : ∀ i ∈ is, OnlyReads i) (hi : OnlyReads i) :
    (run (step f addr) s (is ++ [i, j])).block.configRegistersReg =
      (log (step f addr) taken s is).foldl (writeWord addr) (settled addr s) := by
  rw [run_append, run_cons, run_cons, run_nil, registers_step_step hi]
  exact foldl_run _ (fun i s hi => settled_step hi) (along_of_forall _ his)

/-! ## Settings from the network -/

/-- Two edges after the last word of the message, every setting is in the registers with
    its address: if there is never more than one word for the configuration lines, it does
    not matter where the words come from, when, and what comes in beside them. -/
theorem sent_settings {v : ℕ → ℕ → BitVec 16} {q : Slot} (hq : q ∈ configBlockList.slots)
    (hn : q.address.toNat < 2 * n) (s : State n) (his : ∀ i ∈ is, OnlyReads i)
    (hi : OnlyReads i) (j : Input)
    (hone : Along (step f (q.blockAddress.setWidth 7)) (fun i s => (configArrivals i s).length ≤ 1)
      s is)
    (hmessage : log (step f (q.blockAddress.setWidth 7))
      (fun i s => (configArrivals i s).map Arrival.data) s is =
        (configBlockList.withValues v).getConfigMessage.map bswap32) :
    halfOf (run (step f (q.blockAddress.setWidth 7)) s (is ++ [i, j])).block.configRegistersReg
      q.address.toNat = v q.block (winner q) := by
  have htaken : log (step f (q.blockAddress.setWidth 7)) taken s is =
      log (step f (q.blockAddress.setWidth 7)) (fun i s => (configArrivals i s).map Arrival.data)
        s is := by
    clear hmessage
    induction is generalizing s with
    | nil => rfl
    | cons i is ih =>
      rw [log_cons, log_cons, ih _ (List.forall_mem_cons.1 his).2 hone.2, taken,
        List.take_of_length_le hone.1]
  rw [registers_run his hi, htaken, hmessage, halfOf_foldl_message hq hn]

/-- The word `w` for the configuration lines comes in on an interface. -/
def configWord (w : Word) : Input :=
  ⟨⟨false, 0, false⟩, ⟨w, true, udpPortConfig, 0⟩, ⟨0, false, 0, 0⟩, ⟨0, false, 0, 0⟩, 0, false⟩

theorem onlyReads_configWord (w : Word) : OnlyReads (configWord w) := nofun

/-- The words of a message come in one after the other. -/
def sending (ws : List Word) : List Input := ws.map fun w => configWord (bswap32 w)

/-- `TSE_MDIO_ResetCycles0` of the third interface. -/
def resetCycles0 : Slot := ⟨5, 12, 0x15, 0x0C⟩

theorem sent_settings_blockNumbers :
    halfOf (run (step (fun _ => 0) (resetCycles0.blockAddress.setWidth 7))
      (powerUp fun _ : Fin 16 => 0)
        (sending (configBlockList.withValues blockNumbers).getConfigMessage ++
          [configWord 0, configWord 0])).block.configRegistersReg resetCycles0.address.toNat =
      blockNumbers 5 14 := by
  have honly : ∀ i ∈ sending (configBlockList.withValues blockNumbers).getConfigMessage,
      OnlyReads i := by
    intro i hi
    obtain ⟨w, -, rfl⟩ := List.mem_map.1 hi
    exact onlyReads_configWord _
  exact sent_settings (n := 16) (v := blockNumbers) (q := resetCycles0) (by decide) (by decide) _
    honly (onlyReads_configWord 0) _ (by decide +kernel) (by decide +kernel)

/-! ## A load -/

/-- No word for the configuration lines comes in on an interface. -/
def Clear (i : Input) : Prop :=
  ∀ x ∈ [i.iface0, i.iface1, i.iface2], ¬x.HasWord udpPortConfig

/-- The word on the data output of the manager. -/
def managerOut (m : ConfigDataManager.State) : List Word :=
  if m.ethDvalOut = true ∧ m.ethPortOut = udpPortConfig then [m.ethDataOut] else []

/-- The words that an edge puts on the data output for the configuration lines. -/
def configForwarded (x : Stimulus) (y : Loader) : List Word :=
  (forwarded x y).filterMap fun w => if w.1 = udpPortConfig then some w.2 else none

theorem taken_clear (hi : Clear i) : taken i s = managerOut s.loader.manager := by
  have h0 := hi i.iface0 (by simp)
  have h1 := hi i.iface1 (by simp)
  have h2 := hi i.iface2 (by simp)
  have hroute : (if (EthernetDataRouter.route udpPortConfig true
      (routerInput i s.loader.manager)).2 then
        [(EthernetDataRouter.route udpPortConfig true (routerInput i s.loader.manager)).1]
      else []) = taken i s := by
    rw [EthernetDataRouter.route_spec, taken, configArrivals, arrivalsFor,
      EthernetDataRouter.accepts_config]
  rw [← hroute, EthernetDataRouter.route, managerOut]
  simp only [routerInput, h0, h1, h2, if_false]
  by_cases hout : s.loader.manager.ethDvalOut = true ∧ s.loader.manager.ethPortOut = udpPortConfig
  · simp [hout]
  · simp [hout]

theorem managerOut_step : managerOut (step f addr i s).loader.manager =
    configForwarded i.stimulus s.loader := by
  unfold managerOut configForwarded forwarded
  show (if s.loader.manager.dvalOutReg = true ∧ s.loader.manager.portOutReg = udpPortConfig then
    [s.loader.manager.dataOutReg] else []) = _
  by_cases hv : s.loader.manager.dvalOutReg = true
  · by_cases hp : s.loader.manager.portOutReg = udpPortConfig <;> simp [hv, hp]
  · simp [hv]

/-- The registers as they will be when the words beyond the manager have been written. -/
def expected (addr : BitVec 7) (s : State n) : Fin n → Word :=
  (managerOut s.loader.manager).foldl (writeWord addr) (settled addr s)

theorem settled_step_clear (hclear : Clear i) (hi : OnlyReads i) :
    settled addr (step f addr i s) = expected addr s := by
  rw [settled_step hi, taken_clear hclear, expected]

/-- An edge adds what the manager forwards. -/
theorem expected_step (hclear : Clear i) (hi : OnlyReads i) :
    expected addr (step f addr i s) =
      (configForwarded i.stimulus s.loader).foldl (writeWord addr) (expected addr s) := by
  rw [expected, managerOut_step, settled_step_clear hclear hi]

/-- A run adds what the manager forwards. -/
theorem expected_run (his : ∀ i ∈ is, Clear i ∧ OnlyReads i) :
    expected addr (run (step f addr) s is) =
      (log (loaderStep f) configForwarded s.loader (is.map Input.stimulus)).foldl (writeWord addr)
        (expected addr s) := by
  have hlog := log_part (step f addr) (t := loaderStep f) (p := State.loader)
    (g := Input.stimulus) (fun _ _ => rfl) configForwarded s is
  rw [← hlog]
  exact foldl_run _ (fun i s hi => expected_step hi.1 hi.2) (along_of_forall _ his)

/-- The registers after a run, three edges later. -/
theorem registers_forwarded (his : ∀ i ∈ is, Clear i ∧ OnlyReads i) (hi : Clear i ∧ OnlyReads i)
    (hj : OnlyReads j) :
    (run (step f addr) s (is ++ [i, j, k])).block.configRegistersReg =
      (log (loaderStep f) configForwarded s.loader (is.map Input.stimulus)).foldl (writeWord addr)
        (expected addr s) := by
  rw [run_append, run_cons, run_cons, run_cons, run_nil, registers_step_step hj,
    settled_step_clear hi.1 hi.2, expected_run his]

/-- What a load brings of the words that were written. -/
def kept {α : Type} (l : List α) : List α :=
  (List.range (l.length / 63 + 1)).flatMap fun j => ((l.drop (63 * j)).take 63).dropLast

theorem kept_map {α β : Type} (g : α → β) (l : List α) : kept (l.map g) = (kept l).map g := by
  simp only [kept, List.length_map, List.map_flatMap, ← List.map_drop, ← List.map_take,
    List.map_dropLast]

variable {m : List Word} {page g : ℕ}

/-- The registers after the load of a page, three edges later. -/
theorem registers_load (hp : page < 10) (hfit : (frameConfig m).length * 4 ≤ 65536)
    (hg : g ≤ epcqTimeout)
    (hs : ConfigDataManager.Starts (writeFlashConfig f m page).1 page s.loader)
    (hR : Along (loaderStep (writeFlashConfig f m page).1) (Prompt g) s.loader
      (is.map Input.stimulus))
    (hlen : (m.length / 63 + 2) * (g + 66) + 2 ≤ is.length)
    (his : ∀ i ∈ is, Clear i ∧ OnlyReads i) (hi : Clear i ∧ OnlyReads i) (hj : OnlyReads j) :
    (run (step (writeFlashConfig f m page).1 addr) s (is ++ [i, j, k])).block.configRegistersReg =
      (kept (m.map bswap32)).foldl (writeWord addr) (expected addr s) := by
  have hloaded := ConfigRoundTrip.loaded_words hp hfit hg hs hR (by rwa [List.length_map])
  rw [registers_forwarded his hi hj]
  unfold configForwarded
  rw [log_filterMap, hloaded, List.filterMap_map, kept_map, ← List.filterMap_eq_map]
  rfl

/-! ## After a reset -/

/-- While the manager waits after a reset it forwards nothing. -/
theorem resetWait_silent {y : Loader} {xs : List Stimulus} {t : ℕ}
    (hs : y.manager.nextState = .resetWait) (ho : y.manager.dvalOutReg = false)
    (ht : y.manager.timer + t = resetWaitCycles) (hlen : xs.length ≤ t) :
    log (loaderStep f) forwarded y xs = [] := by
  induction xs generalizing t y with
  | nil => rfl
  | cons x xs ih =>
    have hsm : ConfigDataManager.stateMachine (ConfigDataManager.managerInput x y) y.manager =
        { ConfigDataManager.defaults y.manager with
          timer := y.manager.timer + 1
          nextState := if resetWaitCycles ≤ y.manager.timer + 1 then .startConfig
            else .resetWait } := by
      simp only [ConfigDataManager.stateMachine, hs]
    have hnone : forwarded x y = [] := by
      rw [forwarded, ho]
      rfl
    rw [List.length_cons] at hlen
    rw [log_cons, hnone, List.nil_append]
    rcases Nat.eq_zero_or_pos xs.length with hnil | hpos
    · rw [List.length_eq_zero_iff.1 hnil]
      rfl
    · refine ih (t := t - 1) ?_ ?_ ?_ (by omega)
      · show (ConfigDataManager.stateMachine _ _).nextState = _
        rw [hsm]
        exact if_neg (by omega)
      · show (ConfigDataManager.stateMachine _ _).dvalOutReg = _
        rw [hsm]
        rfl
      · show (ConfigDataManager.stateMachine _ _).timer + _ = _
        rw [hsm]
        show y.manager.timer + 1 + (t - 1) = _
        omega

theorem reset_silent {xs : List Stimulus} (hlen : xs.length ≤ resetWaitCycles + 1) :
    log (loaderStep f) forwarded ⟨ConfigDataManager.reset, []⟩ xs = [] := by
  cases xs with
  | nil => rfl
  | cons x xs =>
    rw [log_cons]
    exact resetWait_silent (t := resetWaitCycles) rfl rfl (Nat.zero_add _)
      (Nat.succ_le_succ_iff.1 hlen)

/-- The settings that a load does not bring: the last words of the two blocks in which the
    message is stored. -/
def lost (q : Slot) : Bool := q.block = 3 ∧ q.entry = 11 ∨ q.block = 6 ∧ q.entry = 7

theorem slots_kept : ∀ q ∈ configBlockList.slots,
    (((kept configBlockList.slots).filter fun r =>
      r.blockAddress = q.blockAddress ∧ r.address = q.address).getLast?).map
        (fun r => (r.block, r.entry)) = if lost q then none else some (q.block, winner q) := by
  decide +kernel

theorem length_message (v : ℕ → ℕ → BitVec 16) :
    (configBlockList.withValues v).getConfigMessage.length = 107 := by
  have hlength := congrArg List.length (message_eq slots_writeAll v)
  rw [List.length_map, List.length_map] at hlength
  rw [hlength]
  decide +kernel

theorem mem_of_mem_kept {α : Type} {l : List α} {a : α} (h : a ∈ kept l) : a ∈ l := by
  obtain ⟨j, -, hj⟩ := List.mem_flatMap.1 h
  exact List.mem_of_mem_drop (List.mem_of_mem_take (List.mem_of_mem_dropLast hj))

/-- The words that a load brings of the message leave in the half-register of a slot the
    value of its winner, unless it is lost. -/
theorem halfOf_foldl_kept {v : ℕ → ℕ → BitVec 16} {q : Slot} (hq : q ∈ configBlockList.slots)
    (hn : q.address.toNat < 2 * n) (regs : Fin n → Word) :
    halfOf ((kept ((configBlockList.withValues v).getConfigMessage.map bswap32)).foldl
      (writeWord (q.blockAddress.setWidth 7)) regs) q.address.toNat =
        if lost q then halfOf regs q.address.toNat else v q.block (winner q) := by
  rw [message_eq slots_writeAll, kept_map, halfOf_slots hq hn fun _ hr => mem_of_mem_kept hr]
  have hlast := slots_kept q hq
  by_cases hl : lost q = true
  · rw [if_pos hl] at hlast ⊢
    rw [Option.map_eq_none_iff.1 hlast]
    rfl
  · rw [if_neg hl] at hlast ⊢
    obtain ⟨r, hr, hwin⟩ := Option.map_eq_some_iff.1 hlast
    obtain ⟨hblock, hentry⟩ : r.block = q.block ∧ r.entry = winner q := by simpa using hwin
    rw [hr, Option.map_some, Option.getD_some, hblock, hentry]

/-- The flash memory, after the host has stored the settings in page 0. -/
def stored (f : Flash) (v : ℕ → ℕ → BitVec 16) : Flash :=
  (writeFlashConfig f (configBlockList.withValues v).getConfigMessage (0 : ℕ)).1

/-- Without a word from the network, from some time after a reset on the registers have what the
    host has stored in page 0: each the last setting with its address, for there are pairs of
    settings that share one. The registers of the two settings that are lost have what they had
    before. -/
theorem booted_settings {v : ℕ → ℕ → BitVec 16} {q : Slot} (hq : q ∈ configBlockList.slots)
    (hn : q.address.toNat < 2 * n) (f : Flash) (settings : Fin n → Word) (hg : g ≤ epcqTimeout)
    (his : ∀ i ∈ is, Clear i ∧ OnlyReads i)
    (hR : Along (loaderStep (stored f v)) (Prompt g) ⟨ConfigDataManager.reset, []⟩
      (is.map Input.stimulus))
    (hlen : resetWaitCycles + 3 * (g + 66) + 6 ≤ is.length) :
    halfOf (run (step (stored f v) (q.blockAddress.setWidth 7)) (powerUp settings)
      is).block.configRegistersReg q.address.toNat =
        if lost q then halfOf settings q.address.toNat else v q.block (winner q) := by
  -- the wait after the reset, the load, and three edges until its last word is in its register
  obtain ⟨is₀, is₁, i, j, k, rfl, hlen₀⟩ : ∃ is₀ is₁ i j k,
      is = is₀ ++ (is₁ ++ [i, j, k]) ∧ is₀.length = resetWaitCycles + 1 := by
    have h3 : ((is.drop (resetWaitCycles + 1)).drop (is.length - resetWaitCycles - 4)).length =
        3 := by
      rw [List.length_drop, List.length_drop]
      omega
    obtain ⟨i, j, k, hijk⟩ := List.length_eq_three.1 h3
    refine ⟨is.take (resetWaitCycles + 1),
      (is.drop (resetWaitCycles + 1)).take (is.length - resetWaitCycles - 4), i, j, k, ?_,
      List.length_take_of_le (by omega)⟩
    rw [← hijk, List.take_append_drop, List.take_append_drop]
  rw [List.forall_mem_append, List.forall_mem_append] at his
  obtain ⟨his₀, his₁, hlast⟩ := his
  set addr : BitVec 7 := q.blockAddress.setWidth 7
  set s₁ := run (step (stored f v) addr) (powerUp settings) is₀ with hs₁
  have hloader : s₁.loader = run (loaderStep (stored f v)) ⟨ConfigDataManager.reset, []⟩
      (is₀.map Input.stimulus) :=
    run_part _ (t := loaderStep (stored f v)) (p := State.loader) (g := Input.stimulus)
      (fun _ _ => rfl) (powerUp settings) is₀
  rw [List.map_append, along_append, ← hloader, List.map_append] at hR
  have hexpected : expected addr s₁ = settings := by
    have hsilent : log (loaderStep (stored f v)) configForwarded ⟨ConfigDataManager.reset, []⟩
        (is₀.map Input.stimulus) = [] := by
      unfold configForwarded
      rw [log_filterMap, reset_silent (by rw [List.length_map, hlen₀])]
      rfl
    rw [hs₁, expected_run his₀]
    exact congrArg (List.foldl (writeWord addr) _) hsilent
  have hfit : (frameConfig (configBlockList.withValues v).getConfigMessage).length * 4 ≤
      65536 := by
    rw [length_frameConfig, length_message]
    decide
  have hstarts : ConfigDataManager.Starts (stored f v) 0 s₁.loader := by
    rw [hloader]
    exact ConfigDataManager.starts_after_reset (by rw [List.length_map, hlen₀])
  have hlen₁ : ((configBlockList.withValues v).getConfigMessage.length / 63 + 2) * (g + 66) + 2 ≤
      is₁.length := by
    rw [length_message, show 107 / 63 + 2 = 3 from rfl]
    simp only [List.length_append, List.length_cons, List.length_nil, hlen₀] at hlen
    omega
  have hload : (run (step (stored f v) addr) s₁ (is₁ ++ [i, j, k])).block.configRegistersReg = _ :=
    registers_load (by decide) hfit hg hstarts hR.2.of_isPrefix hlen₁ his₁
      (hlast i (by simp)) (hlast j (by simp)).2
  rw [run_append, ← hs₁, hload, hexpected, halfOf_foldl_kept hq hn]

/-! ## A start -/

/-- The manager has waited for `t + 1` edges after a reset. -/
def waited (t : ℕ) : Loader :=
  ⟨{ ConfigDataManager.reset with
    nextState := .resetWait
    timer := t
    portInReg := udpPortEpcqio
    configBusy := true }, []⟩

/-- The load of page 0 begins. -/
def begun : Loader :=
  ⟨{ (waited resetWaitCycles).manager with nextState := .startConfig }, []⟩

/-- The memory delivers a word if it has one. -/
def delivering : Stimulus := ⟨false, 0, true⟩

/-- Nothing else comes in. -/
def idle : Input := ⟨delivering, ⟨0, false, 0, 0⟩, ⟨0, false, 0, 0⟩, ⟨0, false, 0, 0⟩, 0, false⟩

theorem waited_step {t : ℕ} (ht : t + 1 < resetWaitCycles) :
    loaderStep f delivering (waited t) = waited (t + 1) := by
  have hwait : (if resetWaitCycles ≤ t + 1 then ConfigDataManager.StateType.startConfig
      else .resetWait) = .resetWait := if_neg (by omega)
  show (⟨{ (waited (t + 1)).manager with
    nextState := if resetWaitCycles ≤ t + 1 then .startConfig else .resetWait }, []⟩ : Loader) = _
  rw [hwait]
  rfl

theorem waiting_run {t : ℕ} (ht : t < resetWaitCycles) :
    run (loaderStep f) ⟨ConfigDataManager.reset, []⟩ (List.replicate (t + 1) delivering) =
        waited t ∧
      Along (loaderStep f) (Prompt g) ⟨ConfigDataManager.reset, []⟩
        (List.replicate (t + 1) delivering) := by
  have hprompt : ∀ y : Loader, y.manager.nextState = .hwReset ∨ y.manager.nextState = .resetWait →
      Prompt g delivering y := by
    rintro y (hy | hy) <;> simp [Prompt, ConfigDataManager.Waiting, hy]
  induction t with
  | zero => exact ⟨rfl, hprompt _ (.inl rfl), trivial⟩
  | succ t ih =>
    obtain ⟨hrun, halong⟩ := ih (by omega)
    rw [List.replicate_succ', run_concat, along_concat, hrun, waited_step ht]
    exact ⟨rfl, halong, hprompt _ (.inr rfl)⟩

theorem begun_run :
    run (loaderStep f) ⟨ConfigDataManager.reset, []⟩
        (List.replicate (resetWaitCycles + 1) delivering) = begun ∧
      Along (loaderStep f) (Prompt g) ⟨ConfigDataManager.reset, []⟩
        (List.replicate (resetWaitCycles + 1) delivering) := by
  have hpos : resetWaitCycles - 1 + 1 = resetWaitCycles := Nat.sub_add_cancel (by decide)
  obtain ⟨hrun, halong⟩ := waiting_run (f := f) (g := g) (t := resetWaitCycles - 1) (by omega)
  rw [hpos] at hrun halong
  rw [List.replicate_succ', run_concat, along_concat, hrun]
  refine ⟨?_, halong, ?_⟩
  · have hstart : (if resetWaitCycles ≤ resetWaitCycles - 1 + 1 then
        ConfigDataManager.StateType.startConfig else .resetWait) = .startConfig :=
      if_pos (by omega)
    show (⟨{ (waited (resetWaitCycles - 1 + 1)).manager with
      nextState := if resetWaitCycles ≤ resetWaitCycles - 1 + 1 then .startConfig
        else .resetWait }, []⟩ : Loader) = _
    rw [hstart, hpos]
    rfl
  · simp [Prompt, ConfigDataManager.Waiting, waited]

theorem quiet_idle (t : ℕ) : ∀ i ∈ List.replicate t idle, Clear i ∧ OnlyReads i := by
  intro i hi
  obtain rfl := List.eq_of_mem_replicate hi
  exact ⟨by simp [Clear, idle, Iface.HasWord], nofun⟩

/-- An erased memory. -/
def erased : Flash := fun _ => BitVec.allOnes 32

/-- `SFP_ServerMAC0` of the second interface. -/
def serverMac0 : Slot := ⟨1, 4, 0x11, 0x04⟩

/-- The second `TSE_MDIO_ExtPHYCtrl` of the first interface. -/
def extPhyCtrl : Slot := ⟨3, 11, 0x13, 0x0B⟩

/-- The one is loaded, the other is the last word of its block. -/
theorem booted_settings_blockNumbers :
    halfOf (run (step (stored erased blockNumbers) (serverMac0.blockAddress.setWidth 7))
      (powerUp fun _ : Fin 16 => 0) (List.replicate (resetWaitCycles + 1 + 221)
        idle)).block.configRegistersReg serverMac0.address.toNat = 1 ∧
      halfOf (run (step (stored erased blockNumbers) (extPhyCtrl.blockAddress.setWidth 7))
        (powerUp fun _ : Fin 16 => 0) (List.replicate (resetWaitCycles + 1 + 221)
          idle)).block.configRegistersReg extPhyCtrl.address.toNat = 0 := by
  obtain ⟨hrun, halong⟩ := begun_run (f := stored erased blockNumbers) (g := 6)
  have hload : Along (loaderStep (stored erased blockNumbers)) (Prompt 6) begun
      (List.replicate 221 delivering) := by decide +kernel
  have hR : Along (loaderStep (stored erased blockNumbers)) (Prompt 6)
      ⟨ConfigDataManager.reset, []⟩
      ((List.replicate (resetWaitCycles + 1 + 221) idle).map Input.stimulus) := by
    rw [List.map_replicate, List.replicate_add, along_append]
    rw [← hrun] at hload
    exact ⟨halong, hload⟩
  have hlen : resetWaitCycles + 3 * (6 + 66) + 6 ≤
      (List.replicate (resetWaitCycles + 1 + 221) idle).length := by rw [List.length_replicate]
  have hkept := booted_settings (n := 16) (v := blockNumbers) (q := serverMac0) (by decide)
    (by decide) erased (fun _ => 0) (by decide) (quiet_idle _) hR hlen
  have hlost := booted_settings (n := 16) (v := blockNumbers) (q := extPhyCtrl) (by decide)
    (by decide) erased (fun _ => 0) (by decide) (quiet_idle _) hR hlen
  exact ⟨hkept.trans (by decide), hlost.trans (by decide)⟩

end FpgaEthernet.StartUp
