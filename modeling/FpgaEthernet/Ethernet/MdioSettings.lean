import FpgaEthernet.Ethernet.BusCompliance

/-!
# Settings of the PHY

`tse_config_controller` reads each enabled register of the PHY, applies the masks
of a configuration register to what it has read, and writes the register.
`MDIO_WRITE_1000BASE_CTRL` computes the word and does not put it on `writedata`,
where the word of the write before still stands.

A transfer is told by the state that asked for it, since CTRL0 and the software
reset have one address. The configuration word is the same throughout; masks and
data may change at any edge.

Main results:

* `Transfers.step`: which state asks for which transfer, and at which address.
* `Updating.step`: what stands on `writedata`.
* `updates_iff`: the registers are read and written as they should be exactly if
  each write to 1000BASE_CTRL is due the word of the write before it.
-/

namespace FpgaEthernet.TseConfigController

open Clocked

variable {g : Generics} {i : Input} {s : State} {m : Machine} {n : StateType} {c : Controls}
  {r r' : MdioReg} {l : List (MdioReg × Word)} {config : Word} {is : List Input}

/-! ## Specification -/

/-- The read of a register is completed at the edge. -/
def ReadDone (r : MdioReg) (i : Input) (m : Machine) : Prop :=
  m.state = .mdioRead r ∧ m.readReq = true ∧ i.waitrequest = false

/-- The write of a register is completed at the edge. -/
def WriteDone (r : MdioReg) (i : Input) (m : Machine) : Prop :=
  m.state = .mdioWrite r ∧ m.writeReq = true ∧ i.waitrequest = false

/-- The register whose read is completed at the edge, with what was read and then
    masked. -/
def reads (i : Input) (s : State) : List (MdioReg × Word) :=
  match s.machine.state with
  | .mdioRead r =>
    if s.machine.readReq = true ∧ i.waitrequest = false then
      (r.masks s.config.configRegisters).toList.map fun masks =>
        (r, MdioReg.masked masks i.readdata)
    else []
  | _ => []

/-- The word to be written to a register, from the last time it was read. -/
def due (r : MdioReg) (l : List (MdioReg × Word)) : Option Word := l.reverse.lookup r

/-- The word that was to be written before 1000BASE_CTRL: that of AN, else that of
    CTRL0, else the MDIO address of the PHY, which is 0. -/
def stale (c : Controls) (l : List (MdioReg × Word)) : Option Word :=
  if MdioReg.an.enabled c then due .an l
  else if MdioReg.ctrl0.enabled c then due .ctrl0 l
  else some 0

/-- The transfer at an edge, if it is one of the PHY's, is as it should be. -/
structure Updates (c : Controls) (l : List (MdioReg × Word)) (i : Input) (m : Machine) : Prop where
  /-- The register is enabled, and the address is its own. -/
  enabled : ∀ r, ReadDone r i m ∨ WriteDone r i m →
    r.enabled c = true ∧ m.address = r.address ||| c.mdioAddressMask
  /-- What is written is what was read, with the masks applied. -/
  word : ∀ r, r ≠ .reset → WriteDone r i m → due r l = some m.writeData
  /-- Nothing else is read or written at the addresses of the registers. -/
  own : c.configMDIO = true → m.readReq = true ∨ m.writeReq = true → i.waitrequest = false →
    ∀ r : MdioReg, m.address = r.address ||| c.mdioAddressMask →
      ∃ r', r'.address = r.address ∧ (ReadDone r' i m ∨ WriteDone r' i m)

/-! ## What is due -/

theorem due_concat (r : MdioReg) (w : Word) : due r (l ++ [(r, w)]) = some w := by
  simp [due]

theorem due_concat_of_ne (w : Word) (h : r ≠ r') : due r (l ++ [(r', w)]) = due r l := by
  simp [due, List.lookup_cons, beq_eq_false_iff_ne.2 h]

theorem MdioReg.masks_of_ne (regs : Fin 8 → Word) (h : r ≠ .reset) :
    ∃ masks, r.masks regs = some masks ∧ ∀ d, r.word regs d = MdioReg.masked masks d := by
  cases r with
  | reset => exact absurd rfl h
  | _ => exact ⟨_, rfl, fun _ => rfl⟩

theorem reads_of_readDone (h : ReadDone r i s.machine) (hr : r ≠ .reset) :
    reads i s = [(r, r.word s.config.configRegisters i.readdata)] := by
  obtain ⟨hstate, hread⟩ := h
  obtain ⟨masks, hmasks, hword⟩ := MdioReg.masks_of_ne s.config.configRegisters hr
  rw [reads, hstate]
  simp only [if_pos hread, hmasks, hword, Option.toList_some, List.map_cons, List.map_nil]

theorem reads_of_not_done (h : ¬(s.machine.readReq = true ∧ i.waitrequest = false)) :
    reads i s = [] := by
  unfold reads
  split
  · rw [if_neg h]
  · rfl

theorem reads_of_state (h : ∀ r, s.machine.state ≠ .mdioRead r) : reads i s = [] := by
  unfold reads
  split
  · exact absurd ‹_› (h _)
  · rfl

/-- Only the register that is being read is noted. -/
theorem due_reads (h : ∀ r', s.machine.state = .mdioRead r' → r ≠ r') :
    due r (l ++ reads i s) = due r l := by
  unfold reads
  split
  next r' hstate =>
    split_ifs
    · cases r'.masks s.config.configRegisters with
      | none => rw [Option.toList_none, List.map_nil, List.append_nil]
      | some masks => exact due_concat_of_ne _ (h r' hstate)
    · rw [List.append_nil]
  next => rw [List.append_nil]

theorem stale_reads (h : ∀ r', s.machine.state = .mdioRead r' → r' ≠ .ctrl0 ∧ r' ≠ .an) :
    stale c (l ++ reads i s) = stale c l := by
  rw [stale, stale, due_reads fun r' hr => (h r' hr).2.symm,
    due_reads fun r' hr => (h r' hr).1.symm]

/-! ## Transfers -/

/-- The states that the settings allow. -/
def allowed (c : Controls) : StateType → Bool
  | .pcsCfg _ | .pcsCfgReadReset => c.configPCS
  | .macWriteMdioAddr | .phyResetTrigger | .phyResetWait | .mdioWait | .mdioRead _ | .mdioWrite _ =>
    c.configMDIO
  | _ => true

/-- The address of the transfer that a state asks for. -/
def busAddress (c : Controls) : StateType → TseConfigAddress
  | .pcsCfg r => r.address
  | .pcsCfgReadReset => 0x80
  | .macWriteMdioAddr => if c.mdioAddressMask = 0 then 0x0F else 0x10
  | .mdioRead r | .mdioWrite r => r.address ||| c.mdioAddressMask
  | .macCfg r => r.address
  | .mdioReadPhystatus => 0x91 ||| c.mdioAddressMask
  | _ => macCommandAddr

theorem action_mdioRead (g : Generics) (i : Input) (s : State) (m : Machine) (r : MdioReg) :
    (action g i s m (.mdioRead r)).readReq = r.enabled s.controls ∧
      (action g i s m (.mdioRead r)).writeReq = false ∧
      (action g i s m (.mdioRead r)).writeData = m.writeData := by
  simp only [action]
  split_ifs with h
  · exact ⟨h.symm, rfl, rfl⟩
  · exact ⟨(Bool.eq_false_of_not_eq_true h).symm, rfl, rfl⟩

theorem action_mdioWrite (g : Generics) (i : Input) (s : State) (m : Machine) (r : MdioReg) :
    (action g i s m (.mdioWrite r)).writeReq = r.enabled s.controls ∧
      (action g i s m (.mdioWrite r)).readReq = false ∧
      (action g i s m (.mdioWrite r)).writeData =
        if r.enabled s.controls = true ∧ r.drivesWritedata = true then
          r.word s.config.configRegisters i.readdata
        else m.writeData := by
  simp only [action]
  by_cases h : r.enabled s.controls = true
  · simp only [h, true_and]
    exact ⟨rfl, rfl, rfl⟩
  · rw [if_neg h, if_neg fun hw => h (And.left hw)]
    exact ⟨(Bool.eq_false_of_not_eq_true h).symm, rfl, rfl⟩

theorem action_allowed (h : allowed s.controls n = true) :
    allowed s.controls (action g i s m n).nextState = true := by
  cases n with
  | pcsCfg r => cases r <;> exact h
  | mdioWrite r => cases r <;> first | exact h | rfl
  | macCfg r => cases r <;> rfl
  | mdioRead r => exact h
  | _ => simp only [action]; (try split_ifs) <;> first | assumption | rfl

theorem action_address
    (h : (action g i s m n).readReq = true ∨ (action g i s m n).writeReq = true) :
    (action g i s m n).address = busAddress s.controls n := by
  cases n with
  | mdioRead r | mdioWrite r =>
    by_cases henabled : r.enabled s.controls = true
    · simp only [action, if_pos henabled]
      rfl
    · simp [action, henabled, Machine.quiet] at h
  | hwReset | preConfig | phyResetTrigger | phyResetWait | mdioWait | macCfgReady | macConfigError
  | mdioProcessLinkstatus =>
    simp [action, Machine.cleared, Machine.quiet] at h
  | _ => rfl

theorem mdioAddressMask_eq (h : c.configMDIO = true) :
    c.mdioAddressMask = if c.configPCS then 0x20 else 0 := by
  cases hpcs : c.configPCS <;> simp [Controls.mdioAddressMask, Controls.ifaceMode, h, hpcs]

/-- The registers of the PHY are at addresses that no other state uses. -/
theorem busAddress_own (hmdio : c.configMDIO = true) (hn : allowed c n = true)
    (h : busAddress c n = r.address ||| c.mdioAddressMask) :
    ∃ r', r'.address = r.address ∧ (n = .mdioRead r' ∨ n = .mdioWrite r') := by
  have hmask : c.mdioAddressMask = 0 ∨ c.mdioAddressMask = 0x20 := by
    rw [mdioAddressMask_eq hmdio]
    split_ifs
    · exact Or.inr rfl
    · exact Or.inl rfl
  have hlow : ¬r.address ||| c.mdioAddressMask < 0x80 := by
    rcases hmask with hmask | hmask <;> rw [hmask] <;> cases r <;> decide
  cases n with
  | mdioRead r' | mdioWrite r' =>
    refine ⟨r', ?_, by simp⟩
    simp only [busAddress] at h
    rcases hmask with hmask | hmask <;> rw [hmask] at h <;> cases r <;> cases r' <;>
      first | rfl | exact absurd h (by decide)
  | mdioReadPhystatus =>
    simp only [busAddress] at h
    rcases hmask with hmask | hmask <;> rw [hmask] at h <;> cases r <;> exact absurd h (by decide)
  | pcsCfg r' =>
    -- with a PCS the PHY is in MDIO space 1
    simp only [allowed] at hn
    rw [mdioAddressMask_eq hmdio, if_pos hn, busAddress] at h
    cases r <;> cases r' <;> exact absurd h (by decide)
  | pcsCfgReadReset =>
    simp only [allowed] at hn
    rw [mdioAddressMask_eq hmdio, if_pos hn, busAddress] at h
    cases r <;> exact absurd h (by decide)
  | macWriteMdioAddr =>
    rw [← h] at hlow
    simp only [busAddress] at hlow
    split_ifs at hlow <;> exact absurd (by decide) hlow
  | macCfg r' =>
    have hlt : r'.address < 0x80 := by cases r' <;> decide
    exact absurd (h ▸ hlt) hlow
  | _ => exact absurd (h ▸ (by decide : macCommandAddr < 0x80)) hlow

/-- Which state asks for which transfer, and at which address. -/
structure Transfers (c : Controls) (m : Machine) : Prop where
  state : allowed c m.state = true
  nextState : allowed c m.nextState = true
  address : m.readReq = true ∨ m.writeReq = true → m.address = busAddress c m.state
  read : ∀ r, m.state = .mdioRead r →
    m.writeReq = false ∧ (m.readReq = true → r.enabled c = true)
  write : ∀ r, m.state = .mdioWrite r →
    m.readReq = false ∧ (m.writeReq = true → r.enabled c = true)

theorem transfers_reset (config : Word) (c : Controls) : Transfers c (reset config).machine where
  state := rfl
  nextState := rfl
  address h := by rcases h with h | h <;> cases h
  read r h := by cases h
  write r h := by cases h

theorem Transfers.restart {b : Bool} (h : Transfers c m) (hn : allowed c n = true) :
    Transfers c { m with nextState := n, macReady := b } :=
  { h with nextState := hn }

theorem transfers_action (hn : allowed s.controls n = true) (hstate : m.state = n) :
    Transfers s.controls (action g i s m n) where
  state := by
    rw [action_state, hstate]
    exact hn
  nextState := action_allowed hn
  address h := by
    rw [action_state, hstate]
    exact action_address h
  read r hr := by
    rw [action_state, hstate] at hr
    obtain ⟨hread, hwrite, -⟩ := action_mdioRead g i s m r
    rw [hr, hread, hwrite]
    exact ⟨rfl, id⟩
  write r hr := by
    rw [action_state, hstate] at hr
    obtain ⟨hwrite, hread, -⟩ := action_mdioWrite g i s m r
    rw [hr, hread, hwrite]
    exact ⟨rfl, id⟩

theorem Transfers.step (h : Transfers s.controls s.machine) :
    Transfers s.controls (stateMachine g i s) := by
  rcases stateMachine_cases g i s with ⟨-, n, hn, heq⟩ | ⟨-, heq⟩ | ⟨-, -, heq⟩ |
    ⟨-, -, -, heq⟩ <;> rw [heq]
  · apply h.restart
    rcases hn with rfl | rfl <;> rfl
  · exact h.restart rfl
  · exact h
  · exact transfers_action h.nextState rfl

/-! ## Data -/

/-- What stands on `writedata` before the writes of CTRL0, of AN and of
    1000BASE_CTRL. -/
def Standing (c : Controls) (l : List (MdioReg × Word)) (w : Word) : StateType → Prop
  | .phyResetTrigger | .phyResetWait | .mdioWait | .mdioRead .ctrl0 | .mdioWrite .ctrl0 => w = 0
  | .mdioRead .an | .mdioWrite .an =>
    (if MdioReg.ctrl0.enabled c then due .ctrl0 l else some 0) = some w
  | .mdioRead .base1000Ctrl | .mdioWrite .base1000Ctrl => stale c l = some w
  | _ => True

/-- Where the state machine is with the registers of the PHY, and what stands on
    `writedata`. -/
structure Updating (c : Controls) (l : List (MdioReg × Word)) (m : Machine) : Prop where
  /-- A register is read right before it is written. -/
  asked : ∀ r, m.nextState = .mdioWrite r → m.state = .mdioRead r ∧ m.readReq = r.enabled c
  /-- No register is being read when the next one is. -/
  apart : ∀ r r', m.nextState = .mdioRead r → m.state ≠ .mdioRead r'
  standing : Standing c l m.writeData m.nextState
  written : ∀ r, r ≠ .reset → m.state = .mdioWrite r → m.writeReq = true →
    (if r = .base1000Ctrl then stale c l else due r l) = some m.writeData

theorem updating_reset (config : Word) (c : Controls) : Updating c [] (reset config).machine where
  asked r h := by cases h
  apart r r' h := by cases h
  standing := trivial
  written r _ h := by cases h

theorem mdioWrite_successors (hn : .mdioWrite r ∈ successors n) : n = .mdioRead r := by
  cases n with
  | mdioRead r' =>
    cases List.mem_singleton.1 hn
    rfl
  | pcsCfg r' | mdioWrite r' | macCfg r' =>
    cases r' <;> simp [successors, PcsReg.next, MdioReg.next, MacReg.next] at hn
  | _ => simp [successors] at hn

/-- What is due to a register that is about to be written has just been read. -/
theorem Updating.due_written (h : Updating s.controls l s.machine)
    (hreq : s.machine.readReq = true ∨ s.machine.writeReq = true → i.waitrequest = false)
    (hn : s.machine.nextState = .mdioWrite r) (hr : r ≠ .reset)
    (henabled : r.enabled s.controls = true) :
    due r (l ++ reads i s) = some (r.word s.config.configRegisters i.readdata) := by
  obtain ⟨hstate, hread⟩ := h.asked r hn
  rw [henabled] at hread
  rw [reads_of_readDone ⟨hstate, hread, hreq (Or.inl hread)⟩ hr, due_concat]

theorem Updating.stale_written (h : Updating s.controls l s.machine)
    (hn : s.machine.nextState = .mdioWrite .base1000Ctrl) :
    stale s.controls (l ++ reads i s) = some s.machine.writeData := by
  have hstanding := h.standing
  rw [hn] at hstanding
  rw [← hstanding]
  apply stale_reads
  intro r' hr'
  rw [(h.asked _ hn).1] at hr'
  cases hr'
  exact ⟨nofun, nofun⟩

theorem Updating.standing_action (h : Updating s.controls l s.machine)
    (hreq : s.machine.readReq = true ∨ s.machine.writeReq = true → i.waitrequest = false)
    (hn : s.machine.nextState = n) (hw : m.writeData = s.machine.writeData) :
    Standing s.controls (l ++ reads i s) (action g i s m n).writeData
      (action g i s m n).nextState := by
  have hstanding := h.standing
  rw [hn] at hstanding
  cases n with
  | macWriteMdioAddr => rfl
  | phyResetTrigger => exact hw.trans hstanding
  | phyResetWait | mdioWait =>
    simp only [action]
    split_ifs <;> exact hw.trans hstanding
  | mdioRead r =>
    have hreads : reads i s = [] := reads_of_state fun r' => h.apart r r' hn
    rw [(action_mdioRead g i s m r).2.2, hw, hreads, List.append_nil]
    cases r <;> exact hstanding
  | mdioWrite r =>
    rw [(action_mdioWrite g i s m r).2.2]
    cases r with
    | ctrl0 =>
      change (if MdioReg.ctrl0.enabled s.controls then due .ctrl0 (l ++ reads i s) else some 0) = _
      by_cases he : MdioReg.ctrl0.enabled s.controls = true
      · rw [if_pos he, if_pos ⟨he, rfl⟩, h.due_written hreq hn (by decide) he]
      · rw [if_neg he, if_neg fun hd => he hd.1, hw, show s.machine.writeData = 0 from hstanding]
    | an =>
      change stale s.controls (l ++ reads i s) = _
      by_cases he : MdioReg.an.enabled s.controls = true
      · rw [stale, if_pos he, if_pos ⟨he, rfl⟩, h.due_written hreq hn (by decide) he]
      · have hctrl0 : due .ctrl0 (l ++ reads i s) = due .ctrl0 l := by
          apply due_reads
          intro r' hr'
          rw [(h.asked _ hn).1] at hr'
          cases hr'
          decide
        rw [if_neg fun hd => he (And.left hd), hw, stale, if_neg he, hctrl0]
        exact hstanding
    | _ => trivial
  | pcsCfg r => cases r <;> trivial
  | macCfg r => cases r <;> trivial
  | _ => simp only [action]; (try split_ifs) <;> trivial

theorem Updating.written_action (h : Updating s.controls l s.machine)
    (hreq : s.machine.readReq = true ∨ s.machine.writeReq = true → i.waitrequest = false)
    (hn : s.machine.nextState = .mdioWrite r) (hw : m.writeData = s.machine.writeData)
    (hr : r ≠ .reset) (hwrite : (action g i s m (.mdioWrite r)).writeReq = true) :
    (if r = .base1000Ctrl then stale s.controls (l ++ reads i s) else due r (l ++ reads i s)) =
      some (action g i s m (.mdioWrite r)).writeData := by
  obtain ⟨henabled, -, hdata⟩ := action_mdioWrite g i s m r
  rw [henabled] at hwrite
  rw [hdata]
  split_ifs with hbase hdrives hdrives
  · rw [hbase] at hdrives
    exact absurd hdrives.2 Bool.false_ne_true
  · rw [hbase] at hn
    rw [h.stale_written hn, hw]
  · exact h.due_written hreq hn hr hwrite
  · refine absurd ⟨hwrite, ?_⟩ hdrives
    cases r with
    | base1000Ctrl => exact absurd rfl hbase
    | _ => rfl

theorem Updating.action (h : Updating s.controls l s.machine)
    (hreq : s.machine.readReq = true ∨ s.machine.writeReq = true → i.waitrequest = false) :
    Updating s.controls (l ++ reads i s)
      (action g i s { s.machine with state := s.machine.nextState } s.machine.nextState) where
  asked r hr := by
    have hread := mdioWrite_successors (mem_successors hr)
    rw [action_state]
    refine ⟨hread, ?_⟩
    rw [hread]
    exact (action_mdioRead g i s _ r).1
  apart r r' hr := by
    rw [action_state]
    intro hstate
    have hsucc := mem_successors hr
    rw [show s.machine.nextState = .mdioRead r' from hstate] at hsucc
    cases List.mem_singleton.1 hsucc
  standing := h.standing_action hreq rfl rfl
  written r hr hstate hwrite := by
    rw [action_state] at hstate
    have hn : s.machine.nextState = .mdioWrite r := hstate
    rw [hn] at hwrite ⊢
    exact h.written_action hreq hn rfl hr hwrite

/-- Out of the way of the watchdog and of a reconfiguration, the transfer that has
    been asked for is all that counts. -/
theorem Updating.restart {b : Bool} (h : Updating s.controls l s.machine)
    (hn : n = .preConfig ∨ n = .macConfigError) :
    Updating s.controls (l ++ reads i s) { s.machine with nextState := n, macReady := b } where
  asked r hr := by rcases hn with rfl | rfl <;> cases hr
  apart r r' hr := by rcases hn with rfl | rfl <;> cases hr
  standing := by rcases hn with rfl | rfl <;> trivial
  written r hr hstate hwrite := by
    have hreads : reads i s = [] := by
      apply reads_of_state
      intro r' hr'
      cases hstate.symm.trans hr'
    rw [hreads, List.append_nil]
    exact h.written r hr hstate hwrite

theorem Updating.step (h : Updating s.controls l s.machine) :
    Updating s.controls (l ++ reads i s) (stateMachine g i s) := by
  rcases stateMachine_cases g i s with ⟨-, n, hn, heq⟩ | ⟨-, heq⟩ | ⟨-, hwait, heq⟩ |
    ⟨-, -, hreq, heq⟩ <;> rw [heq]
  · exact h.restart hn
  · exact h.restart (Or.inl rfl)
  · have hreads : reads i s = [] := by
      apply reads_of_not_done
      rw [hwait]
      intro hdone
      exact Bool.false_ne_true hdone.2.symm
    rw [hreads, List.append_nil]
    exact h
  · exact h.action hreq

/-! ## Runs -/

/-- The settings stay, and the machine is where it should be with the bus and with
    the registers of the PHY. -/
structure Serving (config : Word) (l : List (MdioReg × Word)) (s : State) : Prop where
  controls : s.controls = configDff config
  transfers : Transfers (configDff config) s.machine
  updating : Updating (configDff config) l s.machine

theorem serving_reset (config : Word) : Serving config [] (reset config) :=
  ⟨rfl, transfers_reset config _, updating_reset config _⟩

theorem Serving.step (h : Serving config l s) (hi : i.config = config) :
    Serving config (l ++ reads i s) (step g i s) where
  controls := congrArg configDff hi
  transfers := by
    rw [← h.controls]
    exact (h.controls ▸ h.transfers).step
  updating := by
    rw [← h.controls]
    exact (h.controls ▸ h.updating).step

theorem serving_run (hc : ∀ i ∈ is, i.config = config) :
    Serving config (log (step g) reads (reset config) is) (run (step g) (reset config) is) :=
  log_invariant (step g) (serving_reset config) (fun _ _ _ hi h => h.step hi)
    (along_of_forall (step g) hc)

/-- The transfer at an edge is as it should be, but for the word that is written to
    1000BASE_CTRL. -/
theorem updates_iff_stale (ht : Transfers c m) (hu : Updating c l m) :
    Updates c l i m ↔ (WriteDone .base1000Ctrl i m → due .base1000Ctrl l = stale c l) := by
  constructor
  · intro h hdone
    have hwritten := hu.written .base1000Ctrl nofun hdone.1 hdone.2.1
    rw [if_pos rfl] at hwritten
    rw [h.word .base1000Ctrl nofun hdone, hwritten]
  · intro h
    constructor
    · rintro r (⟨hstate, hreq, -⟩ | ⟨hstate, hreq, -⟩)
      · have haddress := ht.address (Or.inl hreq)
        rw [hstate] at haddress
        exact ⟨(ht.read r hstate).2 hreq, haddress⟩
      · have haddress := ht.address (Or.inr hreq)
        rw [hstate] at haddress
        exact ⟨(ht.write r hstate).2 hreq, haddress⟩
    · intro r hr hdone
      have hwritten := hu.written r hr hdone.1 hdone.2.1
      split_ifs at hwritten with hbase
      · subst hbase
        rw [h hdone, hwritten]
      · exact hwritten
    · intro hmdio hreq hwait r haddress
      rw [ht.address hreq] at haddress
      obtain ⟨r', hr', hstate⟩ := busAddress_own hmdio ht.state haddress
      refine ⟨r', hr', ?_⟩
      rcases hstate with hstate | hstate
      · have hwrite := (ht.read r' hstate).1
        exact Or.inl ⟨hstate, hreq.resolve_right (by simp [hwrite]), hwait⟩
      · have hread := (ht.write r' hstate).1
        exact Or.inr ⟨hstate, hreq.resolve_left (by simp [hread]), hwait⟩

/-- In a run with one configuration word, each enabled register is written what was
    read from it, with its masks applied, and nothing is asked of the others,
    exactly if what each write to 1000BASE_CTRL is due is what was to be written
    before it. -/
theorem updates_iff (hc : ∀ i ∈ is, i.config = config) :
    (∀ js i, js ++ [i] <+: is →
      Updates (configDff config) (log (step g) reads (reset config) js) i
        (run (step g) (reset config) js).machine) ↔
    ∀ js i, js ++ [i] <+: is →
      WriteDone .base1000Ctrl i (run (step g) (reset config) js).machine →
        due .base1000Ctrl (log (step g) reads (reset config) js) =
          stale (configDff config) (log (step g) reads (reset config) js) := by
  have hedge : ∀ js i, js ++ [i] <+: is →
      (Updates (configDff config) (log (step g) reads (reset config) js) i
          (run (step g) (reset config) js).machine ↔
        (WriteDone .base1000Ctrl i (run (step g) (reset config) js).machine →
          due .base1000Ctrl (log (step g) reads (reset config) js) =
            stale (configDff config) (log (step g) reads (reset config) js))) := by
    intro js i hp
    have hjs : ∀ j ∈ js, j.config = config := fun j hj =>
      hc j (hp.subset (List.mem_append_left [i] hj))
    have h := serving_run (g := g) hjs
    exact updates_iff_stale h.transfers h.updating
  constructor
  · intro h js i hp
    exact (hedge js i hp).1 (h js i hp)
  · intro h js i hp
    exact (hedge js i hp).2 (h js i hp)

/-- An edge at which the PHY answers with ones. CTRL0, AN and 1000BASE_CTRL are to
    be set, without a reset of the PHY and without a wait. -/
def phyInput : Input where
  reconfig := false
  readdata := 0x0000FFFF
  waitrequest := false
  configIn := ⟨0, false⟩
  config := 0xC0070080
  macAddr := 0

/-- The edges up to the write of 1000BASE_CTRL. -/
def phyRun : List Input := List.replicate 17 phyInput

theorem updates_iff_phyRun :
    (∀ js i, js ++ [i] <+: phyRun →
      Updates (configDff 0xC0070080) (log (step ⟨2048, 0⟩) reads (reset 0xC0070080) js) i
        (run (step ⟨2048, 0⟩) (reset 0xC0070080) js).machine) ↔
    ∀ js i, js ++ [i] <+: phyRun →
      WriteDone .base1000Ctrl i (run (step ⟨2048, 0⟩) (reset 0xC0070080) js).machine →
        due .base1000Ctrl (log (step ⟨2048, 0⟩) reads (reset 0xC0070080) js) =
          stale (configDff 0xC0070080) (log (step ⟨2048, 0⟩) reads (reset 0xC0070080) js) :=
  @updates_iff ⟨2048, 0⟩ 0xC0070080 phyRun (by decide)

/-- 1000BASE_CTRL is written the word of AN in place of its own. -/
theorem base1000Ctrl_not_updated :
    due .base1000Ctrl (log (step ⟨2048, 0⟩) reads (reset 0xC0070080) phyRun) = some 0x0000FEFF ∧
      (run (step ⟨2048, 0⟩) (reset 0xC0070080) phyRun).machine.writeData = 0x0000FC1F ∧
      ¬Updates (configDff 0xC0070080) (log (step ⟨2048, 0⟩) reads (reset 0xC0070080) phyRun)
        phyInput (run (step ⟨2048, 0⟩) (reset 0xC0070080) phyRun).machine := by
  have hdue : due .base1000Ctrl (log (step ⟨2048, 0⟩) reads (reset 0xC0070080) phyRun) =
      some 0x0000FEFF := by
    decide +kernel
  have hdata : (run (step ⟨2048, 0⟩) (reset 0xC0070080) phyRun).machine.writeData =
      0x0000FC1F := by
    decide +kernel
  refine ⟨hdue, hdata, fun h => ?_⟩
  have hdone : WriteDone .base1000Ctrl phyInput
      (run (step ⟨2048, 0⟩) (reset 0xC0070080) phyRun).machine := by
    unfold WriteDone
    decide +kernel
  have hword := h.word .base1000Ctrl nofun hdone
  rw [hdue, hdata] at hword
  exact absurd hword (by decide)

end FpgaEthernet.TseConfigController
