import FpgaEthernet.Ethernet.TseConfigController

/-!
# The bus of the MAC

`tse_config_controller` is the master of the Avalon bus to the registers of the
MAC. The bus asks two things of its master: not to read and write at once, and
not to change a request that the other side has not accepted.

Most states assign both request signals. Those of the PCS writes raise
`write_req` and leave `read_req` as they find it, which is low, since they are
entered from `PRE_CONFIG` only.

Main results:

* `Exclusive.step`: no edge leaves both requests high.
* `stateMachine_held`: a request that waits stays as it is, whatever intervenes.
* `bus_complies`: every edge of every run complies.
-/

namespace FpgaEthernet.TseConfigController

open Clocked

variable {g : Generics} {i : Input} {s : State} {m : Machine} {n : StateType}

/-! ## Specification -/

/-- The signals that the master drives. -/
structure Bus where
  address : TseConfigAddress
  writedata : Word
  readReq : Bool
  writeReq : Bool
  deriving DecidableEq

def Machine.bus (m : Machine) : Bus where
  address := m.address
  writedata := m.writeData
  readReq := m.readReq
  writeReq := m.writeReq

/-- What the bus asks of its master at an edge that takes `m` to `m'`. -/
structure Complies (i : Input) (m m' : Machine) : Prop where
  exclusive : ¬(m.bus.readReq = true ∧ m.bus.writeReq = true)
  held : m.bus.readReq = true ∨ m.bus.writeReq = true → i.waitrequest = true → m'.bus = m.bus

/-! ## One request -/

/-- The requests are not both high, and a PCS write finds no read. -/
structure Exclusive (m : Machine) : Prop where
  exclusive : ¬(m.readReq = true ∧ m.writeReq = true)
  pcs : ∀ r, m.nextState = .pcsCfg r → m.readReq = false

theorem exclusive_reset (config : Word) : Exclusive (reset config).machine where
  exclusive h := Bool.false_ne_true h.1
  pcs r h := by cases h

theorem pcsCfg_successors {r : PcsReg} (hn : .pcsCfg r ∈ successors n) :
    n = .preConfig ∨ ∃ r', n = .pcsCfg r' := by
  cases n with
  | preConfig => exact Or.inl rfl
  | pcsCfg r' => exact Or.inr ⟨r', rfl⟩
  | mdioWrite r' | macCfg r' => cases r' <;> simp [successors, MdioReg.next, MacReg.next] at hn
  | _ => simp [successors] at hn

theorem action_exclusive (h : ∀ r, n = .pcsCfg r → m.readReq = false) :
    ¬((action g i s m n).readReq = true ∧ (action g i s m n).writeReq = true) := by
  cases n with
  | pcsCfg r =>
    intro hboth
    have hread : m.readReq = true := hboth.1
    rw [h r rfl] at hread
    exact Bool.false_ne_true hread
  | mdioRead r | mdioWrite r =>
    simp only [action]
    split_ifs <;> simp [Machine.read, Machine.write, Machine.quiet]
  | _ => simp [action, Machine.cleared, Machine.read, Machine.write, Machine.quiet]

theorem action_pcs {r : PcsReg} (h : ∀ r, n = .pcsCfg r → m.readReq = false)
    (hn : (action g i s m n).nextState = .pcsCfg r) : (action g i s m n).readReq = false := by
  rcases pcsCfg_successors (mem_successors hn) with rfl | ⟨r', rfl⟩
  · rfl
  · exact h r' rfl

theorem Exclusive.restart {r : Bool} (h : Exclusive m) (hn : ∀ r, n ≠ .pcsCfg r) :
    Exclusive { m with nextState := n, macReady := r } where
  exclusive := h.exclusive
  pcs r hr := absurd hr (hn r)

theorem Exclusive.step (h : Exclusive s.machine) : Exclusive (stateMachine g i s) := by
  rcases stateMachine_cases g i s with ⟨-, n, hn, heq⟩ | ⟨-, heq⟩ | ⟨-, -, heq⟩ |
    ⟨-, -, -, heq⟩ <;> rw [heq]
  · apply h.restart
    rcases hn with rfl | rfl <;> exact nofun
  · exact h.restart nofun
  · exact h
  · exact ⟨action_exclusive h.pcs, fun r hr => action_pcs h.pcs hr⟩

/-! ## Waiting -/

/-- A request that waits stays as it is: the watchdog and a reconfiguration change
    `next_state` only, and otherwise nothing changes. -/
theorem stateMachine_held (hreq : s.machine.readReq = true ∨ s.machine.writeReq = true)
    (hwait : i.waitrequest = true) : (stateMachine g i s).bus = s.machine.bus := by
  rcases stateMachine_cases g i s with ⟨-, n, -, heq⟩ | ⟨-, heq⟩ | ⟨-, -, heq⟩ |
    ⟨-, -, haccepted, -⟩
  · rw [heq]
    rfl
  · rw [heq]
    rfl
  · rw [heq]
  · rw [haccepted hreq] at hwait
    exact absurd hwait Bool.false_ne_true

/-- Every edge of every run from reset complies. -/
theorem bus_complies (g : Generics) (config : Word) (is : List Input) (i : Input) :
    Complies i (run (step g) (reset config) is).machine
      (step g i (run (step g) (reset config) is)).machine where
  exclusive := by
    have h : Exclusive (run (step g) (reset config) is).machine :=
      run_invariant (step g) (R := fun _ _ => True) (I := fun s => Exclusive s.machine)
        (exclusive_reset config) (fun _ _ _ h => h.step)
        (along_of_forall (step g) fun _ _ => trivial)
    exact h.exclusive
  held := stateMachine_held

end FpgaEthernet.TseConfigController
