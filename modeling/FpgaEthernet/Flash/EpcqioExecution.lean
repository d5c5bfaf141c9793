import FpgaEthernet.Flash.EpcqioControl

/-!
# `epcio_control` executes a command

What `epcio_control` does between the edge that takes a command in `IDLE` and the
edge that goes back to `IDLE`, whatever the megafunction and the buffers do.

Main results:

* `Executing.of_taken`: a command that is taken begins with its first page.
* `Executing.step`: an edge goes on, begins with the next page, or is the last.
* `Executing.ecRsp`: until the last edge, the response stays or says that the
  command has been started.
-/

namespace FpgaEthernet.EpcqioControl

open Clocked

/-! ## Requests and entries -/

/-- A command issued by the data side, with the address and word count registered
    for it. -/
structure Request where
  command : Command
  address : BitVec 32
  nwords : BitVec 7
  deriving DecidableEq

/-- An entry into a start state, with `curr_address` and `bytes_todo`. -/
structure Entry where
  command : Command
  address : BitVec 32
  bytes : ℕ
  deriving DecidableEq

/-- The entry that an edge has made. -/
def entries (s : EcSide) : List Entry :=
  match s.ecNextState with
  | .start c => [⟨c, s.currAddress, s.bytesTodo⟩]
  | _ => []

/-- The entry that a request asks for, at an address. -/
def Request.entry (r : Request) (address : BitVec 32) : Entry :=
  ⟨r.command, address, r.nwords.toNat * 4⟩

/-- The entries a request asks for: one, with its address and word count. A write of
    more than 64 words enters `START_WRITE` again for the second page
    (lines 744-749). -/
def Request.starts (r : Request) : List Entry :=
  if r.command = .write ∧ 64 < r.nwords.toNat then
    [r.entry r.address, r.entry (r.address + BitVec.ofNat 32 pageSize)]
  else [r.entry r.address]

/-! ## Taking a command -/

/-- `epcio_control` would not take the command in `IDLE`. -/
def Untaken (ec : EcSide) (address : BitVec 32) (cmd : EcCmd) : Prop :=
  taken ec.lastCmd ec.lastAddress address cmd = none

instance (ec : EcSide) (address : BitVec 32) (cmd : EcCmd) : Decidable (Untaken ec address cmd) :=
  inferInstanceAs (Decidable (taken ec.lastCmd ec.lastAddress address cmd = none))

/-- The same of the command in register `j`. -/
def UntakenAt (ec : EcSide) (j : Fin (nsyncStages + 1)) : Prop :=
  Untaken ec (ec.addressSync j) (ec.ecCmdSync j)

instance (ec : EcSide) : DecidablePred (UntakenAt ec) := fun j =>
  inferInstanceAs (Decidable (Untaken ec (ec.addressSync j) (ec.ecCmdSync j)))

section

variable {i : EcInput} {d : DataSide} {ec : EcSide} {r : Request} {p : ℕ}

/-- In `IDLE`, with nothing to take. -/
theorem ecStep_idle (hs : ec.ecNextState = .idle) (hen : ec.en4bEnabled = true)
    (hn : taken ec.lastCmd ec.lastAddress ec.addressSync.last ec.ecCmdSync.last = none) :
    (ecStep i d ec).ecNextState = .idle ∧ (ecStep i d ec).en4bEnabled = true ∧
      (ecStep i d ec).lastCmd = ec.lastCmd ∧ (ecStep i d ec).lastAddress = ec.lastAddress ∧
      (ecStep i d ec).ecRsp = ec.ecRsp := by
  simp [ecStep, epcioControl, hs, hen, hn, ecDefaults]

/-- In `IDLE`, with a command to take. -/
theorem ecStep_taken {c : Command} (hs : ec.ecNextState = .idle) (hen : ec.en4bEnabled = true)
    (hc : taken ec.lastCmd ec.lastAddress ec.addressSync.last ec.ecCmdSync.last = some c) :
    (ecStep i d ec).ecNextState = .start c ∧ (ecStep i d ec).en4bEnabled = true ∧
      (ecStep i d ec).lastCmd = ecmdStart c ∧ (ecStep i d ec).ecRsp = ec.ecRsp ∧
      (ecStep i d ec).currAddress = ec.addressSync.last ∧
      (ecStep i d ec).bytesTodo = ec.nwordsSync.last.toNat * 4 ∧
      (ecStep i d ec).bytesDone = 0 := by
  simp [ecStep, epcioControl, hs, hen, hc, ecDefaults]

/-- A command that is taken is the one that is seen. -/
theorem taken_eq {lastCmd cmd : EcCmd} {a b : BitVec 32} {c : Command}
    (h : taken lastCmd a b cmd = some c) : cmd = ecmdStart c := by
  unfold taken at h
  split_ifs at h with h1 h2 h3 h4
  · obtain rfl := Option.some_injective _ h
    exact h1.1
  · obtain rfl := Option.some_injective _ h
    exact h2
  · obtain rfl := Option.some_injective _ h
    exact h3
  · obtain rfl := Option.some_injective _ h
    exact h4.1

theorem ecmdStart_injective : Function.Injective ecmdStart := by
  intro a b h
  cases a <;> cases b <;> first | rfl | exact absurd h (by decide)

end

/-! ## Executing it -/

/-- `epcio_control` goes back to `IDLE` with the last response of a command. -/
def Returns (i : EcInput) (s : EcSide) : Prop :=
  i.epcqioBusy = false ∧
    (s.ecNextState = .waitBusy ∧ 4 ≤ s.waitTimer ∨
      s.ecNextState = .waitWrite ∧ 8 ≤ s.waitTimer ∧ s.bytesTodo ≤ s.bytesDone)

instance (i : EcInput) (s : EcSide) : Decidable (Returns i s) := by
  unfold Returns
  infer_instance

section

variable {i : EcInput} {d : DataSide} {ec : EcSide} {r : Request} {p : ℕ}

/-- The entry for page `p`. -/
def Request.page (r : Request) (p : ℕ) : Entry :=
  r.entry (r.address + BitVec.ofNat 32 (pageSize * p))

/-- The first `n` of them. -/
def Request.pages (r : Request) (n : ℕ) : List Entry := (List.range n).map r.page

/-- The last page of a request. -/
def Request.lastPage (r : Request) : ℕ :=
  if r.command = .write ∧ 64 < r.nwords.toNat then 1 else 0

theorem Request.pages_succ (r : Request) (n : ℕ) : r.pages (n + 1) = r.pages n ++ [r.page n] := by
  simp [Request.pages, List.range_succ]

theorem Request.pages_one (r : Request) : r.pages 1 = [r.entry r.address] := by
  simp [Request.pages, Request.page, List.range_succ]

theorem Request.pages_lastPage (r : Request) : r.pages (r.lastPage + 1) = r.starts := by
  unfold Request.starts Request.lastPage
  by_cases h : r.command = .write ∧ 64 < r.nwords.toNat
  · rw [if_pos h, if_pos h, Request.pages_succ, Request.pages_one]
    rfl
  · rw [if_neg h, if_neg h, Request.pages_one]

theorem Request.filter_pages (r : Request) (n : ℕ) :
    (r.pages n).filter (fun x => decide (x.command = r.command)) = r.pages n := by
  rw [List.filter_eq_self]
  intro x hx
  obtain ⟨p, -, rfl⟩ := List.mem_map.1 hx
  exact decide_eq_true rfl

/-- Where `epcio_control` is in the execution of page `p` of a request. -/
def Stage (r : Request) (p : ℕ) (ec : EcSide) : Prop :=
  match ec.ecNextState with
  | .start c => c = r.command ∧ ec.currAddress = r.address + BitVec.ofNat 32 (pageSize * p) ∧
      ec.bytesDone = pageSize * p
  | .readBuffer => r.command = .read
  | .waitFifo => r.command = .write ∧
      ec.currAddress = r.address + BitVec.ofNat 32 (pageSize * p) ∧ ec.bytesDone = pageSize * p
  | .shiftBytes => r.command = .write ∧
      ec.currAddress = r.address + BitVec.ofNat 32 (pageSize * p) ∧
      ec.bytesDone = pageSize * p + ec.bytesShifted ∧ ec.bytesShifted ≤ pageSize
  | .waitWrite => r.command = .write ∧
      ec.currAddress = r.address + BitVec.ofNat 32 (pageSize * p) ∧
      ec.bytesDone ≤ pageSize * (p + 1) ∧
      (ec.bytesTodo ≤ ec.bytesDone ∨ ec.bytesDone = pageSize * (p + 1))
  | .waitBusy => r.command ≠ .write
  | .idle | .hwReset => False

/-- Page `p` of a request is being executed. -/
structure Executing (r : Request) (p : ℕ) (ec : EcSide) : Prop where
  stage : Stage r p ec
  en4b : ec.en4bEnabled = true
  lastCmd : ec.lastCmd = ecmdStart r.command
  bytesTodo : ec.bytesTodo = r.nwords.toNat * 4
  page : p ≤ r.lastPage

/-- What an edge leaves alone while a command is executed. -/
theorem ecStep_keeps (hs : ec.ecNextState ≠ .idle) (hen : ec.en4bEnabled = true) :
    (ecStep i d ec).en4bEnabled = true ∧ (ecStep i d ec).lastCmd = ec.lastCmd ∧
      (ecStep i d ec).bytesTodo = ec.bytesTodo := by
  cases hn : ec.ecNextState with
  | idle => exact absurd hn hs
  | hwReset => simp [ecStep, epcioControl, hn, hen, ecDefaults]
  | start c => cases c <;> simp [ecStep, epcioControl, hn, hen, ecDefaults]
  | readBuffer => simp [ecStep, epcioControl, hn, hen, ecDefaults]
  | waitFifo => simp [ecStep, epcioControl, hn, hen, ecDefaults]
  | shiftBytes =>
    simp only [ecStep, epcioControl, hn]
    split_ifs <;> exact ⟨hen, rfl, rfl⟩
  | waitWrite =>
    simp only [ecStep, epcioControl, hn]
    split_ifs <;> exact ⟨hen, rfl, rfl⟩
  | waitBusy =>
    simp only [ecStep, epcioControl, hn]
    split_ifs <;> exact ⟨hen, rfl, rfl⟩

/-- The response during an execution. -/
theorem Executing.ecRsp (h : Executing r p ec) (hr : ¬Returns i ec) :
    (ecStep i d ec).ecRsp = ec.ecRsp ∨ (ecStep i d ec).ecRsp = ecmdStarted r.command := by
  have hst := h.stage
  unfold Stage at hst
  cases hn : ec.ecNextState with
  | idle | hwReset => simp only [hn] at hst
  | start c =>
    simp only [hn] at hst
    rw [← hst.1]
    cases c <;> exact .inr (by simp [ecStep, epcioControl, hn])
  | readBuffer => exact .inl (by simp [ecStep, epcioControl, hn, ecDefaults])
  | waitFifo => exact .inl (by simp [ecStep, epcioControl, hn, ecDefaults])
  | shiftBytes =>
    simp only [ecStep, epcioControl, hn]
    split_ifs <;> exact .inl rfl
  | waitWrite =>
    simp only [ecStep, epcioControl, hn]
    split_ifs with hb ht hd
    · exact .inl rfl
    · exact .inl rfl
    · exact absurd ⟨by simpa using hb, .inr ⟨hn, by omega, hd⟩⟩ hr
    · exact .inl rfl
  | waitBusy =>
    simp only [ecStep, epcioControl, hn]
    split_ifs with hb ht
    · exact .inl rfl
    · exact .inl rfl
    · exact absurd ⟨by simpa using hb, .inl ⟨hn, by omega⟩⟩ hr

theorem entries_of_ne {s : EcSide} (h : ∀ c, s.ecNextState ≠ .start c) : entries s = [] := by
  unfold entries
  cases hn : s.ecNextState with
  | start c => exact absurd hn (h c)
  | idle | hwReset | readBuffer | waitFifo | shiftBytes | waitWrite | waitBusy => rfl

theorem not_returns (hb : ec.ecNextState ≠ .waitBusy) (hw : ec.ecNextState ≠ .waitWrite) :
    ¬Returns i ec := by
  rintro ⟨-, ⟨h, -⟩ | ⟨h, -⟩⟩
  · exact hb h
  · exact hw h

/-- An edge does not end page `p`. -/
def GoesOn (r : Request) (p : ℕ) (i : EcInput) (d : DataSide) (ec : EcSide) : Prop :=
  Stage r p (ecStep i d ec) ∧ entries (ecStep i d ec) = [] ∧ ¬Returns i ec

/-- A write waits for the buffer, a read reads it out, the others wait for the flash. -/
theorem Executing.step_start {c : Command} (h : Executing r p ec)
    (hs : ec.ecNextState = .start c) : GoesOn r p i d ec := by
  have hst := h.stage
  simp only [Stage, hs] at hst
  obtain ⟨rfl, haddr, hdone⟩ := hst
  have hr : ¬Returns i ec := not_returns (by simp [hs]) (by simp [hs])
  cases hc : r.command with
  | en4b | eraseSector =>
    rw [hc] at hs
    have hns : (ecStep i d ec).ecNextState = .waitBusy := by simp [ecStep, epcioControl, hs]
    exact ⟨by simp [Stage, hns, hc], entries_of_ne (by simp [hns]), hr⟩
  | read =>
    rw [hc] at hs
    have hns : (ecStep i d ec).ecNextState = .readBuffer := by simp [ecStep, epcioControl, hs]
    exact ⟨by simp [Stage, hns, hc], entries_of_ne (by simp [hns]), hr⟩
  | write =>
    rw [hc] at hs
    have hns : (ecStep i d ec).ecNextState = .waitFifo := by simp [ecStep, epcioControl, hs]
    refine ⟨?_, entries_of_ne (by simp [hns]), hr⟩
    simp only [Stage, hns]
    refine ⟨hc, ?_, ?_⟩
    · simpa [ecStep, epcioControl, hs, ecDefaults] using haddr
    · simpa [ecStep, epcioControl, hs, ecDefaults] using hdone

theorem Executing.step_readBuffer (h : Executing r p ec) (hs : ec.ecNextState = .readBuffer) :
    GoesOn r p i d ec := by
  have hc := h.stage
  simp only [Stage, hs] at hc
  have hr : ¬Returns i ec := not_returns (by simp [hs]) (by simp [hs])
  have hns : (ecStep i d ec).ecNextState = .waitBusy ∨
      (ecStep i d ec).ecNextState = .readBuffer := by
    simp only [ecStep, epcioControl, hs]
    split_ifs <;> simp
  rcases hns with hns | hns
  · exact ⟨by simp [Stage, hns, hc], entries_of_ne (by simp [hns]), hr⟩
  · exact ⟨by simp [Stage, hns, hc], entries_of_ne (by simp [hns]), hr⟩

theorem Executing.step_waitFifo (h : Executing r p ec) (hs : ec.ecNextState = .waitFifo) :
    GoesOn r p i d ec := by
  have hst := h.stage
  simp only [Stage, hs] at hst
  obtain ⟨hc, haddr, hdone⟩ := hst
  have hr : ¬Returns i ec := not_returns (by simp [hs]) (by simp [hs])
  have haddr' : (ecStep i d ec).currAddress = r.address + BitVec.ofNat 32 (pageSize * p) := by
    simpa [ecStep, epcioControl, hs, ecDefaults] using haddr
  by_cases hf : fifoDelay ≤ ec.fifoTimer
  · have hns : (ecStep i d ec).ecNextState = .shiftBytes := by
      simp [ecStep, epcioControl, hs, hf]
    refine ⟨?_, entries_of_ne (by simp [hns]), hr⟩
    simp only [Stage, hns]
    refine ⟨hc, haddr', ?_, ?_⟩
    · simp [ecStep, epcioControl, hs, hf, hdone]
    · simp [ecStep, epcioControl, hs, hf, pageSize]
  · have hns : (ecStep i d ec).ecNextState = .waitFifo := by
      simp [ecStep, epcioControl, hs, hf]
    refine ⟨?_, entries_of_ne (by simp [hns]), hr⟩
    simp only [Stage, hns]
    refine ⟨hc, haddr', ?_⟩
    simpa [ecStep, epcioControl, hs, hf, ecDefaults] using hdone

/-- A byte more has been shifted, or the page is full or the last byte was shifted. -/
theorem Executing.step_shiftBytes (h : Executing r p ec) (hs : ec.ecNextState = .shiftBytes) :
    GoesOn r p i d ec := by
  have hst := h.stage
  simp only [Stage, hs] at hst
  obtain ⟨hc, haddr, hdone, hshift⟩ := hst
  have hr : ¬Returns i ec := not_returns (by simp [hs]) (by simp [hs])
  have haddr' : (ecStep i d ec).currAddress = r.address + BitVec.ofNat 32 (pageSize * p) := by
    rw [← haddr]
    simp only [ecStep, epcioControl, hs]
    split_ifs <;> rfl
  have hbound : ec.bytesDone ≤ pageSize * (p + 1) := by
    rw [Nat.mul_succ, hdone]
    omega
  by_cases hall : ec.bytesTodo ≤ ec.bytesDone
  · have hns : (ecStep i d ec).ecNextState = .waitWrite := by
      simp [ecStep, epcioControl, hs, hall]
    refine ⟨?_, entries_of_ne (by simp [hns]), hr⟩
    simp only [Stage, hns]
    refine ⟨hc, haddr', ?_, .inl ?_⟩
    · simpa [ecStep, epcioControl, hs, hall, ecDefaults] using hbound
    · simp [ecStep, epcioControl, hs, hall, ecDefaults]
  by_cases hpage : ec.bytesShifted < pageSize
  · have hns : (ecStep i d ec).ecNextState = .shiftBytes := by
      simp [ecStep, epcioControl, hs, hall, hpage, ecDefaults]
    refine ⟨?_, entries_of_ne (by simp [hns]), hr⟩
    have hbytes : (ecStep i d ec).bytesDone = ec.bytesDone + 1 ∧
        (ecStep i d ec).bytesShifted = ec.bytesShifted + 1 := by
      simp [ecStep, epcioControl, hs, hall, hpage]
    simp only [Stage, hns]
    refine ⟨hc, haddr', ?_, ?_⟩
    · rw [hbytes.1, hbytes.2, hdone, Nat.add_assoc]
    · rw [hbytes.2]
      exact hpage
  · have hns : (ecStep i d ec).ecNextState = .waitWrite := by
      simp [ecStep, epcioControl, hs, hall, hpage]
    refine ⟨?_, entries_of_ne (by simp [hns]), hr⟩
    simp only [Stage, hns]
    have hfull : (ecStep i d ec).bytesDone = pageSize * (p + 1) := by
      rw [Nat.mul_succ, show (ecStep i d ec).bytesDone = ec.bytesDone by
        simp [ecStep, epcioControl, hs, hall, hpage, ecDefaults], hdone]
      omega
    exact ⟨hc, haddr', hfull.le, .inr hfull⟩

/-- While the flash is busy, or the timer has not run out, nothing changes. -/
theorem Executing.waitWrite_stays (h : Executing r p ec) (hs : ec.ecNextState = .waitWrite)
    (hstay : i.epcqioBusy = true ∨ ec.waitTimer < 8) : GoesOn r p i d ec := by
  have hst := h.stage
  simp only [Stage, hs] at hst
  obtain ⟨hc, haddr, hbound, hdone⟩ := hst
  have hr : ¬Returns i ec := by
    rintro ⟨hb, ⟨hw, -⟩ | ⟨-, ht, -⟩⟩
    · rw [hs] at hw
      cases hw
    · rcases hstay with hb' | ht'
      · rw [hb] at hb'
        cases hb'
      · omega
  have hns : (ecStep i d ec).ecNextState = .waitWrite ∧
      (ecStep i d ec).currAddress = ec.currAddress ∧
      (ecStep i d ec).bytesTodo = ec.bytesTodo ∧ (ecStep i d ec).bytesDone = ec.bytesDone := by
    rcases hstay with hb | ht
    · simp [ecStep, epcioControl, hs, hb, ecDefaults]
    · cases hb : i.epcqioBusy <;> simp [ecStep, epcioControl, hs, hb, ht, ecDefaults]
  obtain ⟨hns, hcurr, htodo', hdone'⟩ := hns
  refine ⟨?_, entries_of_ne (by simp [hns]), hr⟩
  simp only [Stage, hns, hcurr, htodo', hdone']
  exact ⟨hc, haddr, hbound, hdone⟩

/-- All bytes are written. -/
theorem Executing.waitWrite_ends (h : Executing r p ec) (hs : ec.ecNextState = .waitWrite)
    (hb : i.epcqioBusy = false) (ht : 8 ≤ ec.waitTimer) (hall : ec.bytesTodo ≤ ec.bytesDone) :
    (ecStep i d ec).ecNextState = .idle ∧ entries (ecStep i d ec) = [] ∧ p = r.lastPage ∧
      Returns i ec := by
  have hst := h.stage
  simp only [Stage, hs] at hst
  obtain ⟨hc, -, hbound, -⟩ := hst
  have hns : (ecStep i d ec).ecNextState = .idle := by
    simp [ecStep, epcioControl, hs, hb, Nat.not_lt.2 ht, hall]
  have hlast : p = r.lastPage := by
    have hp := h.page
    have htodo := h.bytesTodo
    unfold Request.lastPage pageSize at *
    split_ifs at hp ⊢ with hlong
    · omega
    · omega
  exact ⟨hns, entries_of_ne (by simp [hns]), hlast, hb, .inr ⟨hs, ht, hall⟩⟩

/-- The page is written, but not all bytes are: the next page begins. -/
theorem Executing.waitWrite_next (h : Executing r p ec) (hs : ec.ecNextState = .waitWrite)
    (hb : i.epcqioBusy = false) (ht : 8 ≤ ec.waitTimer) (hall : ¬ec.bytesTodo ≤ ec.bytesDone) :
    Stage r (p + 1) (ecStep i d ec) ∧ entries (ecStep i d ec) = [r.page (p + 1)] ∧
      p < r.lastPage ∧ ¬Returns i ec := by
  have hst := h.stage
  simp only [Stage, hs] at hst
  obtain ⟨hc, haddr, -, hdone⟩ := hst
  have hfull : ec.bytesDone = pageSize * (p + 1) := hdone.resolve_left hall
  have hlast : p < r.lastPage := by
    have hlt := r.nwords.isLt
    have hmore : ¬r.nwords.toNat * 4 ≤ 256 * (p + 1) := by
      rw [← h.bytesTodo, ← show pageSize = 256 from rfl, ← hfull]
      exact hall
    unfold Request.lastPage
    rw [if_pos ⟨hc, by omega⟩]
    omega
  have hr : ¬Returns i ec := by
    rintro ⟨-, ⟨hw, -⟩ | ⟨-, -, hd⟩⟩
    · rw [hs] at hw
      cases hw
    · exact hall hd
  have ht' : ¬ec.waitTimer < 8 := Nat.not_lt.2 ht
  have hns : (ecStep i d ec).ecNextState = .start .write := by
    simp [ecStep, epcioControl, hs, hb, ht', hall]
  have haddr' : (ecStep i d ec).currAddress =
      r.address + BitVec.ofNat 32 (pageSize * (p + 1)) := by
    rw [Nat.mul_succ, BitVec.ofNat_add, ← BitVec.add_assoc, ← haddr]
    simp [ecStep, epcioControl, hs, hb, ht', hall]
  have htodo : (ecStep i d ec).bytesTodo = r.nwords.toNat * 4 := by
    rw [← h.bytesTodo]
    exact (ecStep_keeps (by rw [hs]; decide) h.en4b).2.2
  refine ⟨?_, ?_, hlast, hr⟩
  · simp only [Stage, hns]
    refine ⟨hc.symm, haddr', ?_⟩
    simpa [ecStep, epcioControl, hs, hb, ht', hall, ecDefaults] using hfull
  · simp only [entries, hns, haddr', htodo, Request.page, Request.entry, hc]

/-- The other commands wait in the same way. -/
theorem Executing.waitBusy_stays (h : Executing r p ec) (hs : ec.ecNextState = .waitBusy)
    (hstay : i.epcqioBusy = true ∨ ec.waitTimer < 4) : GoesOn r p i d ec := by
  have hst := h.stage
  simp only [Stage, hs] at hst
  have hr : ¬Returns i ec := by
    rintro ⟨hb, ⟨-, ht⟩ | ⟨hw, -⟩⟩
    · rcases hstay with hb' | ht'
      · rw [hb] at hb'
        cases hb'
      · omega
    · rw [hs] at hw
      cases hw
  have hns : (ecStep i d ec).ecNextState = .waitBusy := by
    rcases hstay with hb | ht
    · simp [ecStep, epcioControl, hs, hb, ecDefaults]
    · cases hb : i.epcqioBusy <;> simp [ecStep, epcioControl, hs, hb, ht, ecDefaults]
  exact ⟨by simp [Stage, hns, hst], entries_of_ne (by simp [hns]), hr⟩

theorem Executing.waitBusy_ends (h : Executing r p ec) (hs : ec.ecNextState = .waitBusy)
    (hb : i.epcqioBusy = false) (ht : 4 ≤ ec.waitTimer) :
    (ecStep i d ec).ecNextState = .idle ∧ entries (ecStep i d ec) = [] ∧ p = r.lastPage ∧
      Returns i ec := by
  have hst := h.stage
  simp only [Stage, hs] at hst
  have hns : (ecStep i d ec).ecNextState = .idle := by
    simp [ecStep, epcioControl, hs, hb, Nat.not_lt.2 ht]
  have hlast : p = r.lastPage := by
    have hp := h.page
    unfold Request.lastPage at *
    rw [if_neg fun hw => hst hw.1] at *
    omega
  exact ⟨hns, entries_of_ne (by simp [hns]), hlast, hb, .inl ⟨hs, ht⟩⟩

/-- One edge of an execution: it goes on, begins with the next page, or is over. -/
theorem Executing.step (h : Executing r p ec) :
    (Stage r p (ecStep i d ec) ∧ entries (ecStep i d ec) = [] ∧ ¬Returns i ec) ∨
      (Stage r (p + 1) (ecStep i d ec) ∧ entries (ecStep i d ec) = [r.page (p + 1)] ∧
        p < r.lastPage ∧ ¬Returns i ec) ∨
      ((ecStep i d ec).ecNextState = .idle ∧ entries (ecStep i d ec) = [] ∧
        p = r.lastPage ∧ Returns i ec) := by
  cases hs : ec.ecNextState with
  | idle | hwReset => exact absurd h.stage (by simp [Stage, hs])
  | start c => exact .inl (h.step_start hs)
  | readBuffer => exact .inl (h.step_readBuffer hs)
  | waitFifo => exact .inl (h.step_waitFifo hs)
  | shiftBytes => exact .inl (h.step_shiftBytes hs)
  | waitWrite =>
    by_cases hstay : i.epcqioBusy = true ∨ ec.waitTimer < 8
    · exact .inl (h.waitWrite_stays hs hstay)
    · rw [not_or, Bool.not_eq_true, Nat.not_lt] at hstay
      obtain ⟨hb, ht⟩ := hstay
      by_cases hall : ec.bytesTodo ≤ ec.bytesDone
      · exact .inr (.inr (h.waitWrite_ends hs hb ht hall))
      · exact .inr (.inl (h.waitWrite_next hs hb ht hall))
  | waitBusy =>
    by_cases hstay : i.epcqioBusy = true ∨ ec.waitTimer < 4
    · exact .inl (h.waitBusy_stays hs hstay)
    · rw [not_or, Bool.not_eq_true, Nat.not_lt] at hstay
      exact .inr (.inr (h.waitBusy_ends hs hstay.1 hstay.2))

/-- The command is taken. -/
theorem Executing.of_taken (hs : ec.ecNextState = .idle) (hen : ec.en4bEnabled = true)
    (hcmd : ec.ecCmdSync.last = ecmdStart r.command) (haddr : ec.addressSync.last = r.address)
    (hnw : ec.nwordsSync.last = r.nwords)
    (ht : ¬Untaken ec ec.addressSync.last ec.ecCmdSync.last) :
    Executing r 0 (ecStep i d ec) ∧ entries (ecStep i d ec) = r.pages 1 ∧
      (ecStep i d ec).ecRsp = ec.ecRsp := by
  obtain ⟨c, hc⟩ := Option.ne_none_iff_exists'.1 ht
  obtain rfl : c = r.command := ecmdStart_injective ((taken_eq hc).symm.trans hcmd)
  obtain ⟨hns, hen', hlast, hrsp, hcurr, htodo, hdone⟩ := ecStep_taken (i := i) (d := d) hs hen hc
  rw [haddr] at hcurr
  rw [hnw] at htodo
  refine ⟨⟨?_, hen', hlast, htodo, Nat.zero_le _⟩, ?_, hrsp⟩
  · simp only [Stage, hns]
    refine ⟨trivial, ?_, hdone⟩
    rw [hcurr]
    simp
  · rw [Request.pages_one]
    simp only [entries, hns, hcurr, htodo, Request.entry]

end

end FpgaEthernet.EpcqioControl
