import FpgaEthernet.Ethernet.EthernetBlock
import FpgaEthernet.Ethernet.TseConfigController

/-!
# The MAC is ready

The part of `ethernet/ethernet_block.vhd` that configures the MAC: the
configuration registers, the registers of `config_dff` behind them, and
`tse_config_controller`.

A configuration write reaches the controller in two ways: as the pulse that
restarts it and, through two or three registers, as the settings it uses.

Main results:

* `Announced.steady`: the settings stay as they are while the controller is not
  restarted, and it uses the current ones.
* `Programming.step`: the writes that have been completed, and the one that
  stands on the bus, are the beginning of those the current settings ask for.
* `ready_configured`: when `mac_ready` is high, all of them have been completed.
-/

namespace FpgaEthernet.MacReady

open Clocked TseConfigController
open EthernetBlock (macIn)

/-! ## Model -/

/-- An edge of `clock`: the configuration word, and the bus of the MAC. -/
structure Input where
  configIn : ConfigRegisterBlock.Input
  readdata : Word
  waitrequest : Bool
  deriving DecidableEq

/-- The blocks, and the registers of `config_dff` (`ethernet_block.vhd` lines
    513-533). -/
structure State where
  config : ConfigRegisterBlock.State 11
  sourceMacAddr : MacAddr
  macConfig : Word
  tse : TseConfigController.State

/-- `ENET_CONFIG_ADDRESSES` (`eth_common.vhd` lines 107-109). -/
def enetConfigAddresses : Fin 3 → BitVec 7 := ![0x10, 0x11, 0x12]

/-- The ports of the controller (lines 674-698). -/
def tseInput (i : Input) (s : State) : TseConfigController.Input where
  reconfig := s.config.configChanged
  readdata := i.readdata
  waitrequest := i.waitrequest
  configIn := i.configIn
  config := s.macConfig
  macAddr := s.sourceMacAddr

/-- One edge of `clock`. -/
def step (g : Generics) (i : Input) (s : State) : State where
  config := ConfigRegisterBlock.step (enetConfigAddresses g.portId) i.configIn s.config
  sourceMacAddr := macIn s.config.configRegisters 0 1
  macConfig := s.config.configRegisters 6
  tse := TseConfigController.step g (tseInput i s) s.tse

/-- The registers when reset is released after some edges, with the default
    settings. -/
def reset (settings : Fin 11 → Word) : State where
  config := ConfigRegisterBlock.initial settings
  sourceMacAddr := macIn settings 0 1
  macConfig := settings 6
  tse := TseConfigController.reset (settings 6)

/-! ## Writes -/

/-- A write on the bus: the address and the data. -/
abbrev Write := TseConfigAddress × Word

/-- The write that stands on the bus. -/
def pending (m : Machine) : List Write := if m.writeReq then [(m.address, m.writeData)] else []

/-- The write that is completed at an edge. -/
def writes (i : Input) (s : State) : List Write :=
  if i.waitrequest then [] else pending s.tse.machine

/-- What the last of some writes to an address wrote. -/
def lastWrite (address : TseConfigAddress) (ws : List Write) : Option Word :=
  ws.reverse.lookup address

/-- The bytes of a MAC address in reverse order. -/
def byteReversed (mac : MacAddr) : BitVec 48 :=
  ((mac.extractLsb' 0 8 ++ mac.extractLsb' 8 8 : BitVec 16) ++
    (mac.extractLsb' 16 8 ++ mac.extractLsb' 24 8 ++ mac.extractLsb' 32 8 ++
      mac.extractLsb' 40 8 : BitVec 32) : BitVec 48)

/-- The command word that enables the MAC: both channels are on, and the software
    reset is clear. -/
def enableWord (config : Word) : Word := (configDff config).macCommandWord false false true true

/-- The writes from `MAC_CFG_WRITE_ENA_DB` to `MAC_CFG_WRITE_ENA_EN`. -/
def macWrites (tseFifoSize : ℕ) (mac : MacAddr) (config : Word) : List Write :=
  (macCommandAddr, (configDff config).macCommandWord false false false false) ::
    MacReg.all.map (fun r => (r.address, r.data tseFifoSize mac)) ++
    [(macCommandAddr, (configDff config).macCommandWord false true false false),
      (macCommandAddr, enableWord config)]

/-! ## The settings -/

variable {g : Generics} {i : Input} {s s₀ : State} {is : List Input} {k : ℕ}

/-- What the settings are loaded from, and what it was one and two edges ago:
    as long as they differ the controller is restarted. -/
def Announced (s : State) : Prop :=
  ∃ old older, ConfigRegisterBlock.Announced old s.config ∧
    (old ≠ older → s.config.configChanged = true) ∧ s.sourceMacAddr = macIn old 0 1 ∧
    s.macConfig = old 6 ∧ s.tse.controls = configDff (older 6)

theorem announced_reset (settings : Fin 11 → Word) : Announced (reset settings) :=
  ⟨settings, settings, ConfigRegisterBlock.announced_initial settings, fun h => absurd rfl h, rfl,
    rfl, rfl⟩

theorem Announced.step (h : Announced s) : Announced (step g i s) := by
  obtain ⟨old, older, hold, -, -, hconfig, -⟩ := h
  refine ⟨s.config.configRegisters, old, hold.step, fun hne => (hold.configChanged hne).2, rfl, rfl,
    ?_⟩
  rw [← hconfig]
  rfl

/-- Where the controller is not restarted, the settings are the same before and
    after the edge, and it uses them. -/
theorem Announced.steady (h : Announced s) (hr : reconfigSig (tseInput i s) s.tse = false) :
    (MacReady.step g i s).sourceMacAddr = s.sourceMacAddr ∧
      (MacReady.step g i s).macConfig = s.macConfig ∧
      s.tse.controls = configDff s.macConfig := by
  obtain ⟨old, older, hold, holder, hmac, hconfig, hcontrols⟩ := h
  have hlow : s.config.configChanged = false := by
    simpa [reconfigSig, tseInput] using (Bool.or_eq_false_iff.1 hr).1
  have heq : s.config.configRegisters = old := by
    by_contra hne
    rw [(hold.pending hne).1] at hlow
    exact Bool.false_ne_true hlow.symm
  have heq' : old = older := by
    by_contra hne
    rw [holder hne] at hlow
    exact Bool.false_ne_true hlow.symm
  refine ⟨?_, ?_, ?_⟩
  · rw [hmac, ← heq]
    rfl
  · rw [hconfig, ← heq]
    rfl
  · rw [hcontrols, hconfig, heq']

/-! ## The program -/

/-- What the enable word says: the channels are on and the software reset is clear,
    and the settings are those of `mac_config`. -/
theorem getLsbD_enableWord (config : Word) :
    (enableWord config).getLsbD 0 = true ∧ (enableWord config).getLsbD 1 = true ∧
      (enableWord config).getLsbD 13 = false ∧
      (enableWord config).getLsbD 15 = config.getLsbD 0 ∧
      (enableWord config).getLsbD 9 = config.getLsbD 1 ∧
      (enableWord config).getLsbD 4 = config.getLsbD 2 ∧
      (enableWord config).getLsbD 24 = config.getLsbD 3 := by
  simp only [enableWord, Controls.macCommandWord, configDff]
  generalize config.getLsbD 0 = loopEna
  generalize config.getLsbD 1 = txAddrIns
  generalize config.getLsbD 2 = promisEn
  generalize config.getLsbD 3 = noLgthCheck
  revert loopEna txAddrIns promisEn noLgthCheck
  decide

variable {j : TseConfigController.Input} {t : TseConfigController.State} {m : Machine}
  {n : StateType} {config : Word}

/-- A state that writes a register of the MAC puts the next write of the program
    on the bus. -/
theorem pending_macWrite (h : m.Sound) (hc : t.controls = configDff config)
    (hw : isMacWrite m.nextState = true) (hk : progress m.nextState = some k) :
    (macWrites g.tseFifoSize j.macAddr config)[k]?.toList =
      pending (action g j t { m with state := m.nextState } m.nextState) := by
  generalize hn : m.nextState = n at hw hk
  cases n with
  | macCfgWriteEnaDb =>
    cases hk
    simp [pending, action, Machine.write, Machine.compose, macWrites, hc, h.counterReset]
  | macCfg r =>
    cases r <;> cases hk <;> rfl
  | macCfgSwReset =>
    obtain ⟨htx, hrx⟩ := h.ena (by rw [hn]; rfl)
    cases hk
    simp [pending, action, Machine.write, Machine.compose, macWrites, hc, htx, hrx, MacReg.all]
  | macCfgWriteEnaEn =>
    cases hk
    simp [pending, action, Machine.write, Machine.compose, macWrites, hc, h.counterReset,
      h.swReset hn, MacReg.all, enableWord]
  | _ => exact absurd hw Bool.false_ne_true

/-- The other states of the program put nothing on the bus. -/
theorem pending_wait (hw : isMacWrite n = false) (hk : progress n = some k) :
    pending (action g j t m n) = [] := by
  cases n with
  | macCfgWaitEnaDb | macCfgWaitSwReset | macCfgWaitEnaEn | macCfgReady | mdioReadPhystatus
  | mdioProcessLinkstatus => rfl
  | macCfgWriteEnaDb | macCfg r | macCfgSwReset | macCfgWriteEnaEn =>
    exact absurd hw.symm Bool.false_ne_true
  | _ => cases hk

/-- What an edge at which the next state is entered adds to the writes. -/
theorem take_action (h : m.Sound) (hc : t.controls = configDff config) {k' : ℕ}
    (hk' :
      progress (action g j t { m with state := m.nextState } m.nextState).nextState = some k') :
    k' = 0 ∨ ∃ k, progress m.nextState = some k ∧
      (macWrites g.tseFifoSize j.macAddr config).take k' =
        (macWrites g.tseFifoSize j.macAddr config).take k ++
          pending (action g j t { m with state := m.nextState } m.nextState) := by
  rcases progress_successors _ _ (action_nextState (g := g) (i := j) (s := t)
    (m := { m with state := m.nextState }) (n := m.nextState)) with hnone | hzero | hnext
  · rw [hnone] at hk'
    cases hk'
  · rw [hzero] at hk'
    exact Or.inl (Option.some.inj hk').symm
  · right
    rw [hnext, Option.map_eq_some_iff] at hk'
    obtain ⟨k, hk, rfl⟩ := hk'
    refine ⟨k, hk, ?_⟩
    cases hw : isMacWrite m.nextState with
    | true => rw [← pending_macWrite h hc hw hk, Bool.toNat_true, List.take_add_one]
    | false => rw [pending_wait hw hk, Bool.toNat_false, Nat.add_zero, List.append_nil]

/-! ## Runs -/

/-- The controller is not restarted, and the settings are these. -/
structure Undisturbed (mac : MacAddr) (config : Word) (i : Input) (s : State) : Prop where
  reconfig : reconfigSig (tseInput i s) s.tse = false
  mac : s.sourceMacAddr = mac
  config : s.macConfig = config

/-- The edges `is` end with some at which the controller was not restarted and the
    settings were those of `s`, and what was written in these, with what stands
    on the bus, ends with the first `k` writes of the program. -/
def Issued (g : Generics) (s₀ : State) (is : List Input) (s : State) (k : ℕ) : Prop :=
  ∃ js ks, is = js ++ ks ∧
    Along (step g) (Undisturbed s.sourceMacAddr s.macConfig) (run (step g) s₀ js) ks ∧
    (macWrites g.tseFifoSize s.sourceMacAddr s.macConfig).take k <:+
      log (step g) writes (run (step g) s₀ js) ks ++ pending s.tse.machine

theorem issued_zero : Issued g s₀ is s 0 := by
  refine ⟨is, [], by simp, trivial, ?_⟩
  rw [List.take_zero]
  exact List.nil_suffix

/-- An edge without a restart, which puts `new` on the bus. -/
theorem Issued.concat {k' : ℕ} {new : List Write} (h : Issued g s₀ is s k)
    (hs : run (step g) s₀ is = s) (ha : Announced s)
    (hr : reconfigSig (tseInput i s) s.tse = false)
    (htake : (macWrites g.tseFifoSize s.sourceMacAddr s.macConfig).take k' =
      (macWrites g.tseFifoSize s.sourceMacAddr s.macConfig).take k ++ new)
    (hbus : writes i s ++ pending (step g i s).tse.machine = pending s.tse.machine ++ new) :
    Issued g s₀ (is ++ [i]) (step g i s) k' := by
  obtain ⟨js, ks, rfl, halong, ws, hws⟩ := h
  obtain ⟨hmac, hconfig, -⟩ := ha.steady (g := g) hr
  rw [run_append] at hs
  refine ⟨js, ks ++ [i], by simp, ?_, ws, ?_⟩
  · rw [hmac, hconfig, along_concat, hs]
    exact ⟨halong, hr, rfl, rfl⟩
  · rw [hmac, hconfig, htake, log_concat, hs, List.append_assoc, hbus, ← List.append_assoc, hws,
      List.append_assoc]

/-- After the edges `is`. -/
structure Programming (g : Generics) (s₀ : State) (is : List Input) (s : State) : Prop where
  announced : Announced s
  guarded : Guarded s.tse.machine s.tse.watchDog
  sound : s.tse.machine.Sound
  issued : ∀ k, progress s.tse.machine.nextState = some k → Issued g s₀ is s k

theorem programming_reset (g : Generics) (settings : Fin 11 → Word) :
    Programming g (reset settings) [] (reset settings) where
  announced := announced_reset settings
  guarded := guarded_reset (settings 6)
  sound := sound_reset (settings 6)
  issued k h := by cases h

theorem Programming.step (h : Programming g s₀ is s) (hs : run (step g) s₀ is = s) :
    Programming g s₀ (is ++ [i]) (MacReady.step g i s) where
  announced := h.announced.step
  guarded := h.guarded.step
  sound := h.sound.step h.guarded
  issued k' hk' := by
    have hmachine : (MacReady.step g i s).tse.machine = stateMachine g (tseInput i s) s.tse := rfl
    rw [hmachine] at hk'
    rcases stateMachine_cases g (tseInput i s) s.tse with ⟨-, n, hn, heq⟩ | ⟨-, heq⟩ |
      ⟨hr, hwait, heq⟩ | ⟨-, hr, hreq, heq⟩ <;> rw [heq] at hk'
    · rcases hn with rfl | rfl <;> cases hk'
    · cases hk'
    · apply (h.issued k' hk').concat hs h.announced hr (List.append_nil _).symm
      have hwait' : i.waitrequest = true := hwait
      rw [hmachine, heq, writes, if_pos hwait', List.nil_append, List.append_nil]
    · have hcontrols := (h.announced.steady (g := g) hr).2.2
      rcases take_action (g := g) (j := tseInput i s) h.sound hcontrols hk' with rfl |
        ⟨k, hk, htake⟩
      · exact issued_zero
      · apply (h.issued k hk).concat hs h.announced hr htake
        have hwrites : writes i s = pending s.tse.machine := by
          unfold writes pending
          split_ifs with hwait hw
          · exact absurd hwait (by rw [show i.waitrequest = false from hreq (Or.inr hw)]; simp)
          all_goals rfl
        rw [hmachine, heq, hwrites]

/-- The registers after the edges `is`. -/
def after (g : Generics) (settings : Fin 11 → Word) (is : List Input) : State :=
  run (step g) (reset settings) is

theorem programming_run (g : Generics) (settings : Fin 11 → Word) (is : List Input) :
    Programming g (reset settings) is (after g settings is) := by
  unfold after
  induction is using List.reverseRecOn with
  | nil => exact programming_reset g settings
  | append_singleton is i ih =>
    rw [run_concat]
    exact ih.step rfl

/-! ## Ready means configured -/

theorem lastWrite_of_isSuffix {address : TseConfigAddress} {ws l : List Write} {v : Word}
    (h : ws <:+ l) (hw : lastWrite address ws = some v) : lastWrite address l = some v := by
  obtain ⟨pre, rfl⟩ := h
  unfold lastWrite at hw ⊢
  rw [List.reverse_append, List.lookup_append, hw, Option.some_or]

/-- The registers of the MAC address get its bytes in reverse order. -/
theorem data_macAddr (tseFifoSize : ℕ) (mac : MacAddr) :
    MacReg.data tseFifoSize mac .macAddr0 = (byteReversed mac).extractLsb' 0 32 ∧
      MacReg.data tseFifoSize mac .macAddr1 =
        (0#16 ++ (byteReversed mac).extractLsb' 32 16 : BitVec 32) := by
  constructor
  · exact BitVec.extractLsb'_append_eq_right.symm
  · rw [byteReversed, BitVec.extractLsb'_append_eq_left]
    exact BitVec.append_assoc

/-- While `mac_ready` is high the last writes to the registers of the MAC address
    are those of the current address, the last one to the command register is the
    enable word of the current settings, and since the last restart, with the
    settings as they are now, all writes of the program have been completed, in
    order and as the last ones. -/
theorem ready_configured {settings : Fin 11 → Word}
    (h : (after g settings is).tse.machine.macReady = true) :
    lastWrite MacReg.macAddr0.address (log (step g) writes (reset settings) is) =
        some ((byteReversed (after g settings is).sourceMacAddr).extractLsb' 0 32) ∧
      lastWrite MacReg.macAddr1.address (log (step g) writes (reset settings) is) =
        some (0#16 ++ (byteReversed (after g settings is).sourceMacAddr).extractLsb' 32 16 :
          BitVec 32) ∧
      lastWrite macCommandAddr (log (step g) writes (reset settings) is) =
        some (enableWord (after g settings is).macConfig) ∧
      ∃ js ks, is = js ++ ks ∧
        Along (step g)
          (Undisturbed (after g settings is).sourceMacAddr (after g settings is).macConfig)
          (after g settings js) ks ∧
        macWrites g.tseFifoSize (after g settings is).sourceMacAddr
            (after g settings is).macConfig <:+
          log (step g) writes (after g settings js) ks := by
  have hp := programming_run g settings is
  obtain ⟨hn, hquiet⟩ := hp.sound.ready h
  obtain ⟨js, ks, his, halong, hsuffix⟩ := hp.issued 18 (progress_isReady _ hn)
  have hpending : pending (after g settings is).tse.machine = [] :=
    if_neg (by rw [hquiet]; exact Bool.false_ne_true)
  have hwrites : macWrites g.tseFifoSize (after g settings is).sourceMacAddr
      (after g settings is).macConfig <:+ log (step g) writes (after g settings js) ks := by
    rw [hpending, List.append_nil] at hsuffix
    exact hsuffix
  have hall : macWrites g.tseFifoSize (after g settings is).sourceMacAddr
      (after g settings is).macConfig <:+ log (step g) writes (reset settings) is := by
    rw [his, log_append, ← his]
    exact hwrites.trans (List.suffix_append _ _)
  obtain ⟨hlow, hhigh⟩ := data_macAddr g.tseFifoSize (after g settings is).sourceMacAddr
  refine ⟨lastWrite_of_isSuffix hall ?_, lastWrite_of_isSuffix hall ?_,
    lastWrite_of_isSuffix hall rfl, js, ks, his, halong, hwrites⟩
  · rw [← hlow]
    rfl
  · rw [← hhigh]
    rfl

/-- The default settings of an interface, without the PCS and the PHY. -/
def settings : Fin 11 → Word :=
  ![0x22334455, 0x0000EE11, 0x51747434, 0x00006CB3, 0xC0A80003, 0xC0A80001, 0, 0x1000, 0, 0, 7]

/-- The MAC address is changed at edge 12, while the FIFO levels are being
    written. -/
def changeRun : List Input :=
  (List.range 48).map fun t =>
    { configIn := if t = 12 then ⟨ConfigRegisterBlock.halfWord 0x10 0 0x0007, true⟩ else ⟨0, false⟩
      readdata := if t < 46 then 0x28 else 0x2B
      waitrequest := t % 5 = 3 }

theorem ready_configured_changeRun :
    lastWrite MacReg.macAddr0.address
          (log (step ⟨2048, 0⟩) writes (reset settings) changeRun) =
        some ((byteReversed (after ⟨2048, 0⟩ settings changeRun).sourceMacAddr).extractLsb' 0 32) ∧
      lastWrite MacReg.macAddr1.address
          (log (step ⟨2048, 0⟩) writes (reset settings) changeRun) =
        some (0#16 ++
          (byteReversed (after ⟨2048, 0⟩ settings changeRun).sourceMacAddr).extractLsb' 32 16 :
          BitVec 32) ∧
      lastWrite macCommandAddr (log (step ⟨2048, 0⟩) writes (reset settings) changeRun) =
        some (enableWord (after ⟨2048, 0⟩ settings changeRun).macConfig) ∧
      ∃ js ks, changeRun = js ++ ks ∧
        Along (step ⟨2048, 0⟩)
          (Undisturbed (after ⟨2048, 0⟩ settings changeRun).sourceMacAddr
            (after ⟨2048, 0⟩ settings changeRun).macConfig)
          (after ⟨2048, 0⟩ settings js) ks ∧
        macWrites 2048 (after ⟨2048, 0⟩ settings changeRun).sourceMacAddr
            (after ⟨2048, 0⟩ settings changeRun).macConfig <:+
          log (step ⟨2048, 0⟩) writes (after ⟨2048, 0⟩ settings js) ks :=
  @ready_configured ⟨2048, 0⟩ changeRun settings (by decide +kernel)

end FpgaEthernet.MacReady
