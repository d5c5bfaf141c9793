import FpgaEthernet.Ethernet.ConfigWatchdog

/-!
# Reads that verify a write

Four states of `tse_config_controller` read a command register that has just been
written, until the word read is the one expected. The comparison is made at every
edge at which the state machine moves, also at the one that enters the state. The
write is completed there, the read is only being asked for, and what stands on
`readdata` is left over.

Main results:

* `Verifying.step`: a state that is not entered on a left-over word is left only
  when a read has returned the word.
* `verified_of_fresh`: the same for whole runs.
-/

namespace FpgaEthernet.TseConfigController

open Clocked

variable {g : Generics} {i : Input} {s : State} {m : Machine} {n : StateType} {config : Word}
  {is : List Input}

/-! ## Specification -/

/-- The states that read back what has been written. -/
inductive Verification
  | pcsReset
  | enaDb
  | swReset
  | enaEn
  deriving DecidableEq

namespace Verification

/-- The state that reads. -/
def state : Verification → StateType
  | pcsReset => .pcsCfgReadReset
  | enaDb => .macCfgWaitEnaDb
  | swReset => .macCfgWaitSwReset
  | enaEn => .macCfgWaitEnaEn

/-- The state that writes. -/
def written : Verification → StateType
  | pcsReset => .pcsCfg .writeReset
  | enaDb => .macCfgWriteEnaDb
  | swReset => .macCfgSwReset
  | enaEn => .macCfgWriteEnaEn

/-- The register. -/
def address : Verification → TseConfigAddress
  | pcsReset => 0x80
  | _ => macCommandAddr

/-- The word that is expected: the PCS command word, the word that was written, and
    after the software reset that word with its bit clear. -/
def expected (v : Verification) (s : State) : Word :=
  match v with
  | pcsReset => s.controls.pcsCommandWord
  | enaDb | enaEn => s.machine.macCommandWord
  | swReset =>
    s.controls.macCommandWord s.machine.counterReset false s.machine.rxEna s.machine.txEna

end Verification

variable {v : Verification}

/-- A transfer that is completed on the bus; of a read, whether it has returned the
    word that is expected. -/
inductive Transfer
  | write (address : TseConfigAddress)
  | read (address : TseConfigAddress) (good : Bool)
  deriving DecidableEq

/-- The transfer that is completed at the edge. -/
def transfers (v : Verification) (i : Input) (s : State) : List Transfer :=
  if i.waitrequest = true then []
  else if s.machine.writeReq then [.write s.machine.address]
  else if s.machine.readReq then [.read s.machine.address (i.readdata = v.expected s)]
  else []

/-- A register has been written, and after that only been read. -/
def Since (a : TseConfigAddress) (l l' : List Transfer) : Prop :=
  (∃ l₀, l = l₀ ++ .write a :: l') ∧ ∀ t ∈ l', ∃ good, t = .read a good

/-- After it was written, a register has been read, and has returned the word. -/
def Verified (a : TseConfigAddress) (l : List Transfer) : Prop :=
  ∃ l', Since a l l' ∧ .read a true ∈ l'

/-- The state is entered at the edge. -/
def Enters (g : Generics) (i : Input) (s : State) (v : Verification) : Prop :=
  s.machine.state ≠ v.state ∧ (step g i s).machine.state = v.state

instance (g : Generics) (i : Input) (s : State) (v : Verification) : Decidable (Enters g i s v) :=
  inferInstanceAs (Decidable (_ ∧ _))

/-- The state is left at the edge, in forward direction. -/
structure Leaves (g : Generics) (i : Input) (s : State) (v : Verification) : Prop where
  before : s.machine.state = v.state
  after : (step g i s).machine.state ≠ v.state
  forward : (step g i s).machine.state ∈ successors v.state

/-! ## Transfers -/

theorem transfers_write (hwait : i.waitrequest = false) (hwrite : s.machine.writeReq = true) :
    transfers v i s = [.write s.machine.address] := by
  simp [transfers, hwait, hwrite]

theorem transfers_read (hwait : i.waitrequest = false) (hread : s.machine.readReq = true)
    (hwrite : s.machine.writeReq = false) :
    transfers v i s = [.read s.machine.address (i.readdata = v.expected s)] := by
  simp [transfers, hwait, hread, hwrite]

theorem transfers_held (hwait : i.waitrequest = true) : transfers v i s = [] := by
  simp [transfers, hwait]

section

variable {a : TseConfigAddress} {l l' : List Transfer} {good : Bool}

theorem since_write : Since a (l ++ [.write a]) [] := ⟨⟨l, rfl⟩, by simp⟩

theorem Since.read (h : Since a l l') : Since a (l ++ [.read a good]) (l' ++ [.read a good]) := by
  obtain ⟨⟨l₀, rfl⟩, hl'⟩ := h
  refine ⟨⟨l₀, by simp⟩, ?_⟩
  intro t ht
  rcases List.mem_append.1 ht with ht | ht
  · exact hl' t ht
  · exact ⟨good, List.mem_singleton.1 ht⟩

theorem Since.verified (h : Since a l l') : Verified a (l ++ [.read a true]) :=
  ⟨l' ++ [.read a true], h.read, by simp⟩

theorem Verified.read (h : Verified a l) : Verified a (l ++ [.read a good]) := by
  obtain ⟨l', hsince, hmem⟩ := h
  exact ⟨l' ++ [.read a good], hsince.read, List.mem_append_left _ hmem⟩

end

/-! ## States -/

/-- A verifying state is entered from the state that writes. -/
theorem Verification.state_successors (hn : v.state ∈ successors n) :
    n = v.state ∨ n = v.written := by
  cases v <;> cases n with
  | pcsCfg r | mdioWrite r | macCfg r =>
    cases r <;> simp_all [Verification.state, Verification.written, successors, PcsReg.next,
      MdioReg.next, MacReg.next]
  | _ => simp_all [Verification.state, Verification.written, successors]

theorem action_written (g : Generics) (i : Input) (s : State) (m : Machine) (v : Verification) :
    (action g i s m v.written).writeReq = true ∧
      (action g i s m v.written).address = v.address := by
  cases v <;> exact ⟨rfl, rfl⟩

theorem action_verifies (g : Generics) (i : Input) (s : State) (m : Machine) (v : Verification) :
    (action g i s m v.state).readReq = true ∧ (action g i s m v.state).writeReq = false ∧
      (action g i s m v.state).address = v.address := by
  cases v <;> exact ⟨rfl, rfl, rfl⟩

/-- The state is to be left when the word on `readdata` is the one expected. -/
theorem action_expected (h : (action g i s { s.machine with state := n } v.state).nextState ≠
    v.state) : i.readdata = v.expected s := by
  by_contra hne
  cases v <;> exact h (by simp_all [action, Verification.state, Verification.expected,
    Machine.read, Machine.compose])

/-! ## Runs -/

/-- Where the state machine is with a verification. -/
structure Verifying (v : Verification) (l : List Transfer) (m : Machine) : Prop where
  writing : m.nextState = v.state → m.state ≠ v.state → m.writeReq = true ∧ m.address = v.address
  reading : m.state = v.state → m.nextState ∈ successors v.state →
    m.readReq = true ∧ m.writeReq = false ∧ m.address = v.address ∧ ∃ l', Since v.address l l'
  verified : m.state = v.state → m.nextState ∈ successors v.state → m.nextState ≠ v.state →
    Verified v.address l

theorem verifying_reset (v : Verification) (config : Word) :
    Verifying v [] (reset config).machine where
  writing h := by cases v <;> cases h
  reading h := by cases v <;> cases h
  verified h := by cases v <;> cases h

/-- A state machine that is sent elsewhere is not asked to verify. -/
theorem Verifying.restart {l : List Transfer} {r : Bool}
    (hn : n = .preConfig ∨ n = .macConfigError) :
    Verifying v l { m with nextState := n, macReady := r } := by
  have hstate : n ≠ v.state := by rcases hn with rfl | rfl <;> cases v <;> exact nofun
  have hsucc : n ∉ successors v.state := by
    rcases hn with rfl | rfl <;> cases v <;> simp [Verification.state, successors]
  exact ⟨fun h => absurd h hstate, fun _ h => absurd h hsucc, fun _ h => absurd h hsucc⟩

/-- While the state waits for the word, each edge that moves the state machine
    completes a read. -/
theorem Verifying.transfers_reading {l : List Transfer} (h : Verifying v l s.machine)
    (hreq : s.machine.readReq = true ∨ s.machine.writeReq = true → i.waitrequest = false)
    (hstate : s.machine.state = v.state) (hn : s.machine.nextState ∈ successors v.state) :
    transfers v i s = [.read v.address (i.readdata = v.expected s)] := by
  obtain ⟨hread, hwrite, haddress, -⟩ := h.reading hstate hn
  rw [transfers_read (hreq (Or.inl hread)) hread hwrite, haddress]

theorem state_mem_successors (v : Verification) : v.state ∈ successors v.state := by
  cases v <;> simp [Verification.state, successors]

/-- When the state is next, the register has been written, at this edge or before. -/
theorem Verifying.since {l : List Transfer} (h : Verifying v l s.machine)
    (hreq : s.machine.readReq = true ∨ s.machine.writeReq = true → i.waitrequest = false)
    (hn : s.machine.nextState = v.state) : ∃ l', Since v.address (l ++ transfers v i s) l' := by
  by_cases hstate : s.machine.state = v.state
  · have hsucc : s.machine.nextState ∈ successors v.state := hn ▸ state_mem_successors v
    obtain ⟨-, -, -, l', hl'⟩ := h.reading hstate hsucc
    rw [h.transfers_reading hreq hstate hsucc]
    exact ⟨_, hl'.read⟩
  · obtain ⟨hwrite, haddress⟩ := h.writing hn hstate
    rw [transfers_write (hreq (Or.inr hwrite)) hwrite, haddress]
    exact ⟨_, since_write⟩

theorem Verifying.action {l : List Transfer} (h : Verifying v l s.machine)
    (hreq : s.machine.readReq = true ∨ s.machine.writeReq = true → i.waitrequest = false)
    (hn : s.machine.nextState = n)
    (hfresh : s.machine.state ≠ v.state → n = v.state → i.readdata ≠ v.expected s) :
    Verifying v (l ++ transfers v i s) (action g i s { s.machine with state := n } n) := by
  constructor
  · intro hnext hstate
    rw [action_state] at hstate
    rw [(Verification.state_successors (mem_successors hnext)).resolve_left hstate]
    exact action_written g i s _ v
  · intro hstate _
    rw [action_state] at hstate
    obtain rfl : n = v.state := hstate
    obtain ⟨hread, hwrite, haddress⟩ := action_verifies g i s { s.machine with state := v.state } v
    exact ⟨hread, hwrite, haddress, h.since hreq hn⟩
  · intro hstate _ hleaves
    rw [action_state] at hstate
    obtain rfl : n = v.state := hstate
    have hexpected := action_expected hleaves
    have hstate : s.machine.state = v.state := by
      by_contra hne
      exact hfresh hne rfl hexpected
    have hsucc : s.machine.nextState ∈ successors v.state := hn ▸ state_mem_successors v
    obtain ⟨-, -, -, l', hl'⟩ := h.reading hstate hsucc
    rw [h.transfers_reading hreq hstate hsucc, decide_eq_true hexpected]
    exact hl'.verified

theorem Verifying.step {l : List Transfer} (h : Verifying v l s.machine)
    (hfresh : Enters g i s v → i.readdata ≠ v.expected s) :
    Verifying v (l ++ transfers v i s) (step g i s).machine := by
  change Verifying v (l ++ transfers v i s) (stateMachine g i s)
  rcases stateMachine_cases g i s with ⟨-, n, hn, heq⟩ | ⟨-, heq⟩ | ⟨-, hwait, heq⟩ |
    ⟨-, -, hreq, heq⟩
  · rw [heq]
    exact Verifying.restart hn
  · rw [heq]
    exact Verifying.restart (Or.inl rfl)
  · rw [heq, transfers_held hwait, List.append_nil]
    exact h
  · rw [heq]
    refine h.action hreq rfl fun hstate hn => hfresh ⟨hstate, ?_⟩
    change (stateMachine g i s).state = v.state
    rw [heq, action_state]
    exact hn

/-- The state is left with a read, the last of those that have been made. -/
theorem Verifying.leaves {l : List Transfer} (h : Verifying v l s.machine)
    (hleaves : Leaves g i s v) : Verified v.address (l ++ transfers v i s) := by
  obtain ⟨hstate, hafter, hforward⟩ := hleaves
  change (stateMachine g i s).state ≠ v.state at hafter
  change (stateMachine g i s).state ∈ successors v.state at hforward
  rcases stateMachine_cases g i s with ⟨-, n, -, heq⟩ | ⟨-, heq⟩ | ⟨-, -, heq⟩ |
    ⟨-, -, hreq, heq⟩ <;> rw [heq] at hafter hforward
  · exact absurd hstate hafter
  · exact absurd hstate hafter
  · exact absurd hstate hafter
  · rw [action_state] at hafter hforward
    rw [h.transfers_reading hreq hstate hforward]
    exact (h.verified hstate hforward hafter).read

/-- In a run in which the word that is expected does not stand on `readdata` when
    the state is entered, the state is left in forward direction only when, after
    the register was written, a read of it has returned that word. -/
theorem verified_of_fresh
    (h : Along (step g) (fun i s => Enters g i s v → i.readdata ≠ v.expected s) (reset config) is)
    {js : List Input} (hp : js ++ [i] <+: is)
    (hleaves : Leaves g i (run (step g) (reset config) js) v) :
    Verified v.address (log (step g) (transfers v) (reset config) (js ++ [i])) := by
  obtain ⟨ks, rfl⟩ := hp
  rw [List.append_assoc] at h
  have hjs : Verifying v (log (step g) (transfers v) (reset config) js)
      (run (step g) (reset config) js).machine :=
    log_invariant (step g) (I := fun l s => Verifying v l s.machine) (verifying_reset v config)
      (fun _ _ _ hfresh h => h.step hfresh) (h.of_isPrefix (step g))
  rw [log_concat]
  exact hjs.leaves hleaves

/-- An edge at which the bus answers with the word that disables the MAC. -/
def disabledEdge : Input := { pollEdge with readdata := 0x00000028 }

/-- The first read returns 0, the second the word. -/
theorem verified_of_fresh_polling :
    Verified macCommandAddr (log (step ⟨2048, 0⟩) (transfers .enaDb) (reset 0)
      (List.replicate 9 pollEdge ++ [disabledEdge] ++ [pollEdge])) := by
  have hfresh : Along (step ⟨2048, 0⟩)
      (fun i s => Enters ⟨2048, 0⟩ i s .enaDb → i.readdata ≠ Verification.expected .enaDb s)
      (reset 0) (List.replicate 9 pollEdge ++ [disabledEdge] ++ [pollEdge]) := by decide +kernel
  exact verified_of_fresh hfresh (List.prefix_refl _)
    ⟨by decide +kernel, by decide +kernel, by decide +kernel⟩

/-- The word stands on `readdata` when the write is completed, and the read returns
    0: the state is left. -/
theorem left_over_word :
    Leaves ⟨2048, 0⟩ pollEdge
        (run (step ⟨2048, 0⟩) (reset 0) (List.replicate 8 pollEdge ++ [disabledEdge])) .enaDb ∧
      ¬Verified macCommandAddr (log (step ⟨2048, 0⟩) (transfers .enaDb) (reset 0)
        (List.replicate 8 pollEdge ++ [disabledEdge] ++ [pollEdge])) := by
  have hlog : log (step ⟨2048, 0⟩) (transfers .enaDb) (reset 0)
      (List.replicate 8 pollEdge ++ [disabledEdge] ++ [pollEdge]) =
        [.write macCommandAddr, .read macCommandAddr false] := by
    decide +kernel
  refine ⟨⟨by decide +kernel, by decide +kernel, by decide +kernel⟩, ?_⟩
  rw [hlog]
  rintro ⟨l', ⟨⟨l₀, heq⟩, -⟩, hmem⟩
  have hmem : Transfer.read macCommandAddr true ∈
      [.write macCommandAddr, .read macCommandAddr false] := by
    rw [heq]
    exact List.mem_append_right _ (List.mem_cons_of_mem _ hmem)
  exact absurd hmem (by decide)

end FpgaEthernet.TseConfigController
