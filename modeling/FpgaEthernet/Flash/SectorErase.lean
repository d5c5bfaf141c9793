import FpgaEthernet.Flash.Handshake

/-!
# Sector erases

`epcio_control` does not take an erase right after an erase, so that the flash is
not worn out by erasing one sector again and again. It is meant to compare the
addresses too, but `last_address` keeps the value it has from reset.

Main results:

* `Enabled.step`: in `IDLE` 4-byte addressing is enabled when there is a command.
* `erase_handled_iff`: the erases that are executed, or repeat the last command.
-/

namespace FpgaEthernet.EpcqioControl

open Clocked

variable {e : Edge} {s : System} {i : EcInput} {d : DataSide} {ec : EcSide} {l : List Entry}
  {a : BitVec 32}

/-! ## Specification -/

/-- An erase is presented in `IDLE`, at an edge of `epcq_clock`. -/
structure Presented (e : Edge) (s : System) : Prop where
  clock : e.epcqClock.isSome = true
  idle : s.ec.ecNextState = .idle
  command : s.ec.ecCmdSync.last = ecmdStart .eraseSector

/-- `START_ERASE_SECTOR` has been entered, and the next edge of `epcq_clock` pulses
    the erase with the address. -/
structure Erases (a : BitVec 32) (ec : EcSide) : Prop where
  state : ec.ecNextState = .start .eraseSector
  pulse : ∀ i d, (ecStep i d ec).epcqioSectorErase = true ∧ (ecStep i d ec).epcqioAddr = a

/-- The address of the last erase. -/
def lastErase (l : List Entry) : Option (BitVec 32) :=
  (l.filter fun x => x.command = .eraseSector).getLast?.map Entry.address

/-- The last command was an erase of the address. -/
def Repeats (l : List Entry) (a : BitVec 32) : Prop :=
  ∃ x, l.getLast? = some x ∧ x.command = .eraseSector ∧ x.address = a

/-- An erase that is presented is executed if its address is not that of the last
    erase, and left out only if it repeats the last command. -/
structure EraseHandled (l : List Entry) (e : Edge) (s : System) : Prop where
  executed : Presented e s → lastErase l ≠ some s.ec.addressSync.last →
    Erases s.ec.addressSync.last (step e s).ec
  suppressed : Presented e s → ¬Erases s.ec.addressSync.last (step e s).ec →
    Repeats l s.ec.addressSync.last

theorem Repeats.lastErase (h : Repeats l a) : lastErase l = some a := by
  obtain ⟨x, hlast, hcommand, haddress⟩ := h
  obtain ⟨l, rfl⟩ := List.getLast?_eq_some_iff.1 hlast
  simp [EpcqioControl.lastErase, hcommand, haddress]

/-! ## 4-byte addressing -/

theorem ecStep_en4bEnabled (h : ec.en4bEnabled = true) : (ecStep i d ec).en4bEnabled = true := by
  by_cases hs : ec.ecNextState = .idle
  · simp only [ecStep, epcioControl, hs, h]
    split
    · exact h
    · split <;> exact h
  · exact (ecStep_keeps hs h).1

/-- 4-byte addressing is enabled first of all. -/
structure Enabled (ec : EcSide) : Prop where
  lastAddress : ec.lastAddress = BitVec.allOnes 32
  en4b : ec.en4bEnabled = true ∨ ec = ecReset ∨ ec.ecNextState = .start .en4b

theorem Enabled.step (h : Enabled ec) : Enabled (ecStep i d ec) where
  lastAddress := ecStep_lastAddress.trans h.lastAddress
  en4b := by
    rcases h.en4b with hen | rfl | hstart
    · exact Or.inl (ecStep_en4bEnabled hen)
    · exact Or.inr (Or.inr rfl)
    · left
      simp [ecStep, epcioControl, hstart]

theorem enabled_run (es : List Edge) : Enabled (run step reset es).ec := by
  induction es using List.reverseRecOn with
  | nil => exact ⟨rfl, Or.inr (Or.inl rfl)⟩
  | append_singleton es e ih =>
    rw [run_concat]
    cases he : e.epcqClock with
    | none => simpa [step, he] using ih
    | some i => simpa [step, he] using ih.step

theorem Enabled.en4b_of_presented (h : Enabled s.ec) (hp : Presented e s) :
    s.ec.en4bEnabled = true := by
  rcases h.en4b with hen | hreset | hstart
  · exact hen
  · have hcommand := hp.command
    rw [hreset] at hcommand
    exact absurd hcommand (by decide)
  · rw [hp.idle] at hstart
    cases hstart

/-! ## Erases -/

theorem ecStep_startErase (hs : ec.ecNextState = .start .eraseSector) :
    (ecStep i d ec).epcqioSectorErase = true ∧ (ecStep i d ec).epcqioAddr = ec.currAddress := by
  simp [ecStep, epcioControl, hs]

/-- Which erases are taken. -/
theorem erases_iff (h : Enabled s.ec) (hp : Presented e s) :
    Erases s.ec.addressSync.last (step e s).ec ↔
      s.ec.lastCmd ≠ ecmdStart .eraseSector ∧ s.ec.addressSync.last ≠ BitVec.allOnes 32 := by
  obtain ⟨i, he⟩ := Option.isSome_iff_exists.1 hp.clock
  have hen := h.en4b_of_presented hp
  have hstep : (step e s).ec = ecStep i s.data s.ec := by simp [step, he]
  have htaken : taken s.ec.lastCmd s.ec.lastAddress s.ec.addressSync.last s.ec.ecCmdSync.last =
      if BitVec.allOnes 32 ≠ s.ec.addressSync.last ∧ s.ec.lastCmd ≠ ecmdStart .eraseSector then
        some .eraseSector
      else none := by
    rw [hp.command, h.lastAddress, taken, if_neg fun hc => absurd hc.1 (by decide),
      if_neg (by decide), if_neg (by decide)]
    exact if_congr (and_iff_right rfl) rfl rfl
  rw [hstep]
  constructor
  · intro herases
    by_contra hnot
    rw [if_neg fun hc => hnot ⟨hc.2, hc.1.symm⟩] at htaken
    have hidle := (ecStep_idle (i := i) (d := s.data) hp.idle hen htaken).1
    rw [herases.state] at hidle
    cases hidle
  · rintro ⟨hcmd, haddress⟩
    rw [if_pos ⟨haddress.symm, hcmd⟩] at htaken
    obtain ⟨hstate, -, -, -, hcurr, -⟩ := ecStep_taken (i := i) (d := s.data) hp.idle hen htaken
    refine ⟨hstate, fun i' d' => ?_⟩
    obtain ⟨hpulse, haddr⟩ := ecStep_startErase (i := i') (d := d') hstate
    exact ⟨hpulse, haddr.trans hcurr⟩

/-- In every run, at every edge, an erase that is presented is handled as it should be
    exactly if the last command was not an erase and the address is not the one that
    `last_address` has from reset, or the last command was an erase of that
    address. -/
theorem erase_handled_iff (es : List Edge) (e : Edge) :
    EraseHandled (log step ecEntries reset es) e (run step reset es) ↔
      (Presented e (run step reset es) →
        (run step reset es).ec.lastCmd ≠ ecmdStart .eraseSector ∧
            (run step reset es).ec.addressSync.last ≠ BitVec.allOnes 32 ∨
          Repeats (log step ecEntries reset es) (run step reset es).ec.addressSync.last) := by
  have henabled := enabled_run es
  constructor
  · intro h hp
    rw [← erases_iff henabled hp]
    by_contra hnot
    rw [not_or] at hnot
    exact hnot.2 (h.suppressed hp hnot.1)
  · intro h
    constructor
    · intro hp hlast
      rw [erases_iff henabled hp]
      exact (h hp).resolve_right fun hrepeats => hlast hrepeats.lastErase
    · intro hp herases
      rw [erases_iff henabled hp] at herases
      exact (h hp).resolve_left herases

/-- An erase of the sector at an address. -/
def eraseAt (address : BitVec 32) : DataInput := ⟨false, false, false, true, address, 0⟩

/-- A sector is erased, and then another is to be. -/
def twoErases : List Edge :=
  afterReset ++ fiveToOne (eraseAt 0x10000) ++ (List.replicate 14 (fiveToOne noCommand)).flatten ++
    fiveToOne (eraseAt 0x20000) ++ (List.replicate 4 (fiveToOne noCommand)).flatten

/-- The second erase is not executed. -/
theorem second_erase_swallowed :
    Presented (bothClocks noCommand) (run step reset twoErases) ∧
      (run step reset twoErases).ec.addressSync.last = 0x20000 ∧
      lastErase (log step ecEntries reset twoErases) = some 0x10000 ∧
      ¬EraseHandled (log step ecEntries reset twoErases) (bothClocks noCommand)
        (run step reset twoErases) := by
  have hpresented : Presented (bothClocks noCommand) (run step reset twoErases) :=
    ⟨rfl, by decide +kernel, by decide +kernel⟩
  have haddress : (run step reset twoErases).ec.addressSync.last = 0x20000 := by decide +kernel
  have hlast : lastErase (log step ecEntries reset twoErases) = some 0x10000 := by decide +kernel
  refine ⟨hpresented, haddress, hlast, fun h => ?_⟩
  have herases := h.executed hpresented (by rw [hlast, haddress]; decide)
  exact absurd herases.state (by decide +kernel)

end FpgaEthernet.EpcqioControl
