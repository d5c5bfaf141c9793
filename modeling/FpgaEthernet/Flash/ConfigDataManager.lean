import FpgaEthernet.Clocked.Run
import FpgaEthernet.Flash.Epcq
import FpgaEthernet.Flash.UdpInterface

/-!
# `config_data_manager`

Model of `config_scanner/config_data_manager.vhd`, and of the manager beside the
flash memory, which answers every page read with its 64 words, one at a time.

Main results:

* `pending_step`: the words between the memory and the manager stay in order.
* `load_run`: which words a load forwards, and how long it takes at most.
-/

namespace FpgaEthernet

namespace ConfigDataManager

open Clocked Epcq

/-! ## Model -/

/-- `RESET_WAIT_CYCLES` (`config_data_manager.vhd` line 70). -/
def resetWaitCycles : ℕ := 50000000

/-- `EPCQ_TIMEOUT` (line 71). -/
def epcqTimeout : ℕ := 1000000

/-- `EPCQ_PAGE_SIZE` (line 73). -/
def epcqPageSize : ℕ := 64

/-- `CPAGE_SIZE` (line 76). -/
def cpageSize : BitVec 32 := 0x00010000

/-- `CPAGE_START_ADDRESSES` (lines 77-86). -/
def cpageStartAddresses : List (BitVec 32) :=
  [0x01F60000, 0x01F70000, 0x01F80000, 0x01F90000, 0x01FA0000, 0x01FB0000, 0x01FC0000, 0x01FD0000,
    0x01FE0000, 0x01FF0000]

/-- `state_type` (lines 88-89). -/
inductive StateType
  | hwReset
  | idle
  | resetWait
  | startConfig
  | readCpage
  | waitRead
  | readData
  | configError
  | readDone
  deriving DecidableEq, Repr

/-- `ERR_TIMEOUT` (line 102). -/
def errTimeout : BitVec 16 := 0x0010

/-- The input ports (lines 36-59). -/
structure Input where
  loadConfig : Bool
  configPage : BitVec 4
  ethDataIn : Word
  ethPortIn : UdpPort
  ethDvalIn : Bool

/-- The registers, the variables `timer` and `words_read`, and the output
    ports. -/
structure State where
  nextState : StateType
  timer : ℕ
  wordsRead : ℕ
  blockSize : ℕ
  configPageReg : ℕ
  currAddrReg : BitVec 32
  epcqAddressReg : BitVec 32
  epcqReadDataReg : Bool
  dataInReg : Word
  portInReg : UdpPort
  dvalInReg : Bool
  dataOutReg : Word
  portOutReg : UdpPort
  dvalOutReg : Bool
  errorCodeReg : BitVec 16
  ethDataOut : Word
  ethPortOut : UdpPort
  ethDvalOut : Bool
  epcqReadData : Bool
  epcqAddress : BitVec 32
  configBusy : Bool
  configDone : Bool

/-- The address a page starts at. -/
def startAddress (page : ℕ) : BitVec 32 := cpageStartAddresses.getD page 0

/-- The header of a block says that it is one (line 184). -/
def IsHeader (w : Word) : Prop := w.extractLsb' 24 8 = 0xCD

instance : DecidablePred IsHeader := fun _ => inferInstanceAs (Decidable (_ = _))

/-- The size field of a header (line 191). -/
def sizeField (w : Word) : ℕ := (w.extractLsb' 16 8).toNat

/-- The default assignments of `state_machine` (lines 134-138). -/
def defaults (s : State) : State :=
  { s with
    dvalOutReg := false
    dataOutReg := 0
    configBusy := true
    configDone := false
    epcqReadDataReg := false }

/-- `state_machine` (lines 125-236). -/
def stateMachine (i : Input) (s : State) : State :=
  let d := defaults s
  match s.nextState with
  | .idle =>
    { d with
      configBusy := false
      timer := 0
      configPageReg := if i.loadConfig then i.configPage.toNat else s.configPageReg
      nextState := if i.loadConfig then .startConfig else .idle
      portOutReg := 0 }
  | .hwReset => { d with nextState := .resetWait, timer := 0, configPageReg := 0 }
  | .resetWait =>
    { d with
      timer := s.timer + 1
      nextState := if resetWaitCycles ≤ s.timer + 1 then .startConfig else .resetWait }
  | .startConfig =>
    { d with
      currAddrReg := startAddress s.configPageReg
      nextState := .readCpage
      portOutReg := 0 }
  | .readCpage =>
    { d with
      epcqAddressReg := s.currAddrReg
      epcqReadDataReg := true
      nextState := .waitRead
      timer := 0
      wordsRead := 0 }
  | .waitRead =>
    if s.dvalInReg = true ∧ s.portInReg = udpPortEpcqio then
      if ¬IsHeader s.dataInReg ∨
          (startAddress s.configPageReg + cpageSize).toNat ≤ s.currAddrReg.toNat then
        { d with nextState := .readDone }
      else
        { d with
          portOutReg := lo s.dataInReg
          blockSize := sizeField s.dataInReg
          nextState := .readData
          wordsRead := 1 }
    else if epcqTimeout ≤ s.timer then
      { d with nextState := .configError, errorCodeReg := errTimeout }
    else { d with nextState := .waitRead, timer := s.timer + 1 }
  | .readData =>
    if epcqPageSize ≤ s.wordsRead then
      { d with
        currAddrReg := s.currAddrReg + BitVec.ofNat 32 (epcqPageSize * 4)
        nextState := .readCpage }
    else if s.dvalInReg then
      { d with
        dataOutReg := s.dataInReg
        dvalOutReg := decide (s.wordsRead < s.blockSize)
        wordsRead := s.wordsRead + 1 }
    else if epcqTimeout ≤ s.timer then
      { d with nextState := .configError, errorCodeReg := errTimeout }
    else { d with timer := s.timer + 1 }
  | .configError => { d with nextState := .idle }
  | .readDone => { d with nextState := .idle, configDone := true }

/-- One clock edge, with `data_inout_reg` (lines 111-123). -/
def step (i : Input) (s : State) : State :=
  { stateMachine i s with
    dataInReg := i.ethDataIn
    portInReg := i.ethPortIn
    dvalInReg := i.ethDvalIn
    ethDataOut := s.dataOutReg
    ethPortOut := s.portOutReg
    ethDvalOut := s.dvalOutReg
    epcqReadData := s.epcqReadDataReg
    epcqAddress := s.epcqAddressReg }

/-- The registers at power-up, with reset released. -/
def reset : State where
  nextState := .hwReset
  timer := 0
  wordsRead := 0
  blockSize := 0
  configPageReg := 0
  currAddrReg := 0
  epcqAddressReg := 0
  epcqReadDataReg := false
  dataInReg := 0
  portInReg := 0
  dvalInReg := false
  dataOutReg := 0
  portOutReg := 0
  dvalOutReg := false
  errorCodeReg := 0
  ethDataOut := 0
  ethPortOut := 0
  ethDvalOut := false
  epcqReadData := false
  epcqAddress := 0
  configBusy := false
  configDone := false

/-! ## The manager beside the memory -/

/-- The manager, and the words of the page read that are still to come. -/
structure Loader where
  manager : State
  queue : List Word

/-- `load_config` and `config_page`, and whether the memory delivers a word if it
    has one. -/
structure Stimulus where
  loadConfig : Bool
  configPage : BitVec 4
  deliver : Bool
  deriving DecidableEq

/-- The ports of the manager. -/
def managerInput (x : Stimulus) (y : Loader) : Input where
  loadConfig := x.loadConfig
  configPage := x.configPage
  ethDataIn := y.queue.headD 0
  ethPortIn := udpPortEpcqio
  ethDvalIn := x.deliver && !y.queue.isEmpty

/-- One edge of `clock`. -/
def loaderStep (f : Flash) (x : Stimulus) (y : Loader) : Loader where
  manager := step (managerInput x y) y.manager
  queue := (if (managerInput x y).ethDvalIn then y.queue.tail else y.queue) ++
    if y.manager.epcqReadData then readPage f y.manager.epcqAddress else []

/-- What an edge puts on the data output, with its port. -/
def forwarded (_ : Stimulus) (y : Loader) : List (UdpPort × Word) :=
  if y.manager.dvalOutReg then [(y.manager.portOutReg, y.manager.dataOutReg)] else []

/-- The words on their way to the manager. -/
def pending (f : Flash) (y : Loader) : List Word :=
  (if y.manager.dvalInReg then [y.manager.dataInReg] else []) ++ (y.queue ++
    ((if y.manager.epcqReadData then readPage f y.manager.epcqAddress else []) ++
      if y.manager.epcqReadDataReg then readPage f y.manager.epcqAddressReg else []))

variable {f : Flash} {x : Stimulus} {y : Loader}

/-- A read is asked for in `READ_CPAGE` and nowhere else. -/
theorem stateMachine_read (i : Input) (s : State) :
    (stateMachine i s).epcqReadDataReg = decide (s.nextState = .readCpage) ∧
      (s.nextState = .readCpage → (stateMachine i s).epcqAddressReg = s.currAddrReg) := by
  unfold stateMachine
  cases hn : s.nextState with
  | waitRead =>
    dsimp only
    split_ifs <;> exact ⟨rfl, fun h => by cases h⟩
  | readData =>
    dsimp only
    split_ifs <;> exact ⟨rfl, fun h => by cases h⟩
  | readCpage => exact ⟨rfl, fun _ => rfl⟩
  | hwReset | idle | resetWait | startConfig | configError | readDone =>
    exact ⟨rfl, fun h => by cases h⟩

/-- One edge takes the word in the input register, and sends a new request after
    the others. -/
theorem pending_step : pending f (loaderStep f x y) =
    (pending f y).drop (if y.manager.dvalInReg then 1 else 0) ++
      if y.manager.nextState = .readCpage then readPage f y.manager.currAddrReg else [] := by
  have hdrop : (pending f y).drop (if y.manager.dvalInReg then 1 else 0) = y.queue ++
      ((if y.manager.epcqReadData then readPage f y.manager.epcqAddress else []) ++
        if y.manager.epcqReadDataReg then readPage f y.manager.epcqAddressReg else []) := by
    unfold pending
    cases y.manager.dvalInReg <;> rfl
  have hpop : (if (managerInput x y).ethDvalIn then [(managerInput x y).ethDataIn] else []) ++
      (if (managerInput x y).ethDvalIn then y.queue.tail else y.queue) = y.queue := by
    cases hq : y.queue with
    | nil => simp [managerInput, hq]
    | cons w ws => cases hd : x.deliver <;> simp [managerInput, hq, hd]
  obtain ⟨hread, haddr⟩ := stateMachine_read (managerInput x y) y.manager
  have hreq : (if (stateMachine (managerInput x y) y.manager).epcqReadDataReg then
      readPage f (stateMachine (managerInput x y) y.manager).epcqAddressReg else []) =
      if y.manager.nextState = .readCpage then readPage f y.manager.currAddrReg else [] := by
    rw [hread]
    by_cases hn : y.manager.nextState = .readCpage
    · rw [haddr hn]
      simp [hn]
    · simp [hn]
  rw [hdrop, ← hreq, ← hpop]
  simp only [pending, loaderStep, step, List.append_assoc]
  rfl

theorem pending_step_of_ne (h : y.manager.nextState ≠ .readCpage) :
    pending f (loaderStep f x y) = (pending f y).drop (if y.manager.dvalInReg then 1 else 0) := by
  rw [pending_step, if_neg h, List.append_nil]

/-! ## Loading a page -/

/-- The manager waits for a word, and none is there. -/
def Waiting (s : State) : Prop :=
  (s.nextState = .waitRead ∧ ¬(s.dvalInReg = true ∧ s.portInReg = udpPortEpcqio)) ∨
    (s.nextState = .readData ∧ s.wordsRead < epcqPageSize ∧ s.dvalInReg = false)

instance (s : State) : Decidable (Waiting s) := by
  unfold Waiting
  infer_instance

/-- The memory lets the manager wait less than `g` cycles in a page, and no other
    load is asked for. -/
def Prompt (g : ℕ) (x : Stimulus) (y : Loader) : Prop :=
  (Waiting y.manager → y.manager.timer < g) ∧
    ¬(y.manager.nextState = .idle ∧ x.loadConfig = true)

instance (g : ℕ) (x : Stimulus) (y : Loader) : Decidable (Prompt g x y) := by
  unfold Prompt
  infer_instance

/-- The load of a configuration page begins, with no word on its way. -/
structure Starts (f : Flash) (page : ℕ) (y : Loader) : Prop where
  nextState : y.manager.nextState = .startConfig
  configPageReg : y.manager.configPageReg = page
  dvalOutReg : y.manager.dvalOutReg = false
  pending : pending f y = []

/-- The address of a block. -/
def blockAddr (page j : ℕ) : BitVec 32 := startAddress page + BitVec.ofNat 32 (256 * j)

/-- The first word of a block. -/
def blockHeader (f : Flash) (page j : ℕ) : Word := f (wordAddr (blockAddr page j))

/-- The words after the header, up to the size it gives, with its port. -/
def payload (ws : List Word) (size : ℕ) : List (UdpPort × Word) :=
  ((ws.take size).drop 1).map fun w => (lo (ws.headD 0), w)

/-- What is forwarded of a block. -/
def blockPayload (f : Flash) (page j : ℕ) : List (UdpPort × Word) :=
  payload (readPage f (blockAddr page j)) (sizeField (blockHeader f page j))

/-- What is forwarded of the first `n` blocks. -/
def blocksPayload (f : Flash) (page n : ℕ) : List (UdpPort × Word) :=
  (List.range n).flatMap (blockPayload f page)

/-- The page holds `n` blocks. -/
structure Holds (f : Flash) (page n : ℕ) : Prop where
  page_lt : page < 10
  headers : ∀ j < n, IsHeader (blockHeader f page j)
  last : n = 256 ∨ n < 256 ∧ ¬IsHeader (blockHeader f page n)

/-- What the registers put on the data output next. -/
def outgoing (s : State) : List (UdpPort × Word) :=
  if s.dvalOutReg then [(s.portOutReg, s.dataOutReg)] else []

/-- At most `left` edges before the end of a load, with `total` forwarded or about
    to be. -/
inductive Loading (f : Flash) (page n g : ℕ) :
    ℕ → List (UdpPort × Word) → Loader → Prop
  | start {left : ℕ} {y : Loader} (hs : Starts f page y) (hl : (n + 1) * (g + 66) + 2 ≤ left) :
      Loading f page n g left [] y
  | request {left : ℕ} {y : Loader} (j r : ℕ) (hj : j + r = n)
      (hs : y.manager.nextState = .readCpage) (hp : y.manager.configPageReg = page)
      (ha : y.manager.currAddrReg = blockAddr page j) (hq : pending f y = [])
      (hl : (r + 1) * (g + 66) + 1 ≤ left) :
      Loading f page n g left (blocksPayload f page j) y
  | wait {left : ℕ} {y : Loader} (j r : ℕ) (hj : j + r = n)
      (hs : y.manager.nextState = .waitRead) (hp : y.manager.configPageReg = page)
      (ha : y.manager.currAddrReg = blockAddr page j)
      (hq : pending f y = readPage f (blockAddr page j))
      (hport : y.manager.dvalInReg = true → y.manager.portInReg = udpPortEpcqio)
      (ht : y.manager.timer ≤ g) (hl : (r + 1) * (g + 66) ≤ left + y.manager.timer) :
      Loading f page n g left (blocksPayload f page j) y
  | data {left : ℕ} {y : Loader} (j r w : ℕ) (hj : j + (r + 1) = n)
      (hs : y.manager.nextState = .readData) (hp : y.manager.configPageReg = page)
      (ha : y.manager.currAddrReg = blockAddr page j) (hw : 1 ≤ w) (hw' : w ≤ pageWords)
      (hr : y.manager.wordsRead = w)
      (hq : pending f y = (readPage f (blockAddr page j)).drop w)
      (hsize : y.manager.blockSize = sizeField (blockHeader f page j))
      (hport : y.manager.portOutReg = lo (blockHeader f page j))
      (ht : y.manager.timer ≤ g) (hl : (r + 2) * (g + 66) ≤ left + y.manager.timer + w) :
      Loading f page n g left (blocksPayload f page j ++
        payload (readPage f (blockAddr page j)) (min w (sizeField (blockHeader f page j)))) y
  | done {left : ℕ} {y : Loader} (hs : y.manager.nextState = .readDone) (hl : 1 ≤ left) :
      Loading f page n g left (blocksPayload f page n) y
  | idle {left : ℕ} {y : Loader} (hs : y.manager.nextState = .idle)
      (ho : y.manager.dvalOutReg = false) : Loading f page n g left (blocksPayload f page n) y

/-! ### Addresses -/

theorem startAddress_toNat {page : ℕ} (h : page < 10) :
    (startAddress page).toNat = 0x01F60000 + 0x10000 * page := by
  interval_cases page <;> rfl

theorem blockAddr_toNat {page j : ℕ} (h : page < 10) (hj : j ≤ 256) :
    (blockAddr page j).toNat = 0x01F60000 + 0x10000 * page + 256 * j := by
  rw [blockAddr, BitVec.toNat_add, startAddress_toNat h, BitVec.toNat_ofNat]
  omega

theorem blockAddr_succ (page j : ℕ) :
    blockAddr page j + BitVec.ofNat 32 (epcqPageSize * 4) = blockAddr page (j + 1) := by
  rw [blockAddr, blockAddr, BitVec.add_assoc, ← BitVec.ofNat_add]
  rfl

/-- A block of the page lies before its end, and what comes after the last one
    does not, or has no header. -/
theorem Holds.header_iff {page n j : ℕ} (h : Holds f page n) (hj : j ≤ n) :
    (IsHeader (blockHeader f page j) ∧
      ¬(startAddress page + cpageSize).toNat ≤ (blockAddr page j).toNat) ↔ j < n := by
  have hn : n ≤ 256 := by
    rcases h.last with hn | hn
    · omega
    · omega
  have hend : (startAddress page + cpageSize).toNat = 0x01F60000 + 0x10000 * page + 0x10000 := by
    have hp := h.page_lt
    rw [BitVec.toNat_add, startAddress_toNat hp, show cpageSize.toNat = 0x10000 from rfl]
    omega
  rw [hend, blockAddr_toNat h.page_lt (by omega)]
  constructor
  · rintro ⟨hh, ha⟩
    by_contra hlt
    obtain rfl : j = n := by omega
    rcases h.last with rfl | ⟨-, hno⟩
    · omega
    · exact hno hh
  · intro hlt
    exact ⟨h.headers j hlt, by omega⟩

/-! ### One edge -/

section

variable {page n g left : ℕ} {total : List (UdpPort × Word)}

/-- The word in the input register is the first of those on their way. -/
theorem head_pending (hv : y.manager.dvalInReg = true) :
    (pending f y)[0]? = some y.manager.dataInReg := by
  unfold pending
  rw [hv]
  rfl

theorem outgoing_of_not {s : State} (h : s.dvalOutReg = false) : outgoing s = [] := by
  rw [outgoing, h]
  rfl

/-- The edge of `START_CONFIG`. -/
theorem Starts.step (h : Starts f page y) (hl : (n + 1) * (g + 66) + 2 ≤ left) :
    Loading f page n g (left - 1) (outgoing (loaderStep f x y).manager) (loaderStep f x y) := by
  have hsm : stateMachine (managerInput x y) y.manager = { defaults y.manager with
      currAddrReg := startAddress y.manager.configPageReg
      nextState := .readCpage
      portOutReg := 0 } := by
    simp only [stateMachine, h.nextState]
  have hout : outgoing (loaderStep f x y).manager = blocksPayload f page 0 := by
    apply outgoing_of_not
    show (stateMachine _ _).dvalOutReg = false
    rw [hsm]
    rfl
  rw [hout]
  refine .request 0 n (Nat.zero_add n) ?_ ?_ ?_ ?_ (by omega)
  · show (stateMachine _ _).nextState = _
    rw [hsm]
  · show (stateMachine _ _).configPageReg = _
    rw [hsm]
    exact h.configPageReg
  · show (stateMachine _ _).currAddrReg = _
    rw [hsm, ← h.configPageReg, blockAddr]
    exact (BitVec.add_zero _).symm
  · rw [pending_step_of_ne (by rw [h.nextState]; decide), h.pending, List.drop_nil]

/-- The edge of `READ_CPAGE`: the read is asked for. -/
theorem request_step {j r : ℕ} (hj : j + r = n) (hs : y.manager.nextState = .readCpage)
    (hp : y.manager.configPageReg = page) (ha : y.manager.currAddrReg = blockAddr page j)
    (hq : pending f y = []) (hl : (r + 1) * (g + 66) + 1 ≤ left) :
    Loading f page n g (left - 1)
      (blocksPayload f page j ++ outgoing (loaderStep f x y).manager) (loaderStep f x y) := by
  have hsm : stateMachine (managerInput x y) y.manager = { defaults y.manager with
      epcqAddressReg := y.manager.currAddrReg
      epcqReadDataReg := true
      nextState := .waitRead
      timer := 0
      wordsRead := 0 } := by
    simp only [stateMachine, hs]
  have htimer : (loaderStep f x y).manager.timer = 0 := by
    show (stateMachine _ _).timer = _
    rw [hsm]
  have hout : outgoing (loaderStep f x y).manager = [] := by
    apply outgoing_of_not
    show (stateMachine _ _).dvalOutReg = false
    rw [hsm]
    rfl
  rw [hout, List.append_nil]
  refine .wait j r hj ?_ ?_ ?_ ?_ (fun _ => rfl) (by omega) (by omega)
  · show (stateMachine _ _).nextState = _
    rw [hsm]
  · show (stateMachine _ _).configPageReg = _
    rw [hsm]
    exact hp
  · show (stateMachine _ _).currAddrReg = _
    rw [hsm]
    exact ha
  · rw [pending_step, hq, if_pos hs, ha, List.drop_nil, List.nil_append]

/-- An edge that does not set `dval_out` forwards nothing. -/
theorem outgoing_of_quiet {m : State} (h : stateMachine (managerInput x y) y.manager = m)
    (hm : m.dvalOutReg = false) : outgoing (loaderStep f x y).manager = [] := by
  apply outgoing_of_not
  show (stateMachine _ _).dvalOutReg = false
  rw [h]
  exact hm

/-- In `WAIT_READ` the header of block `j` is to come. -/
structure AtHeader (f : Flash) (page j : ℕ) (y : Loader) : Prop where
  nextState : y.manager.nextState = .waitRead
  configPageReg : y.manager.configPageReg = page
  currAddrReg : y.manager.currAddrReg = blockAddr page j
  pending : pending f y = readPage f (blockAddr page j)
  portInReg : y.manager.dvalInReg = true → y.manager.portInReg = udpPortEpcqio

/-- In `READ_DATA` word `w` of block `j` is to come. -/
structure AtWord (f : Flash) (page j w : ℕ) (y : Loader) : Prop where
  nextState : y.manager.nextState = .readData
  configPageReg : y.manager.configPageReg = page
  currAddrReg : y.manager.currAddrReg = blockAddr page j
  wordsRead : y.manager.wordsRead = w
  pending : pending f y = (readPage f (blockAddr page j)).drop w
  blockSize : y.manager.blockSize = sizeField (blockHeader f page j)
  portOutReg : y.manager.portOutReg = lo (blockHeader f page j)

theorem AtHeader.waits {j : ℕ} (h : AtHeader f page j y) (hv : y.manager.dvalInReg = false)
    (ht : y.manager.timer < epcqTimeout) :
    AtHeader f page j (loaderStep f x y) ∧
      (loaderStep f x y).manager.timer = y.manager.timer + 1 ∧
      outgoing (loaderStep f x y).manager = [] := by
  have hw : ¬(y.manager.dvalInReg = true ∧ y.manager.portInReg = udpPortEpcqio) := by simp [hv]
  have hsm : stateMachine (managerInput x y) y.manager = { defaults y.manager with
      nextState := .waitRead
      timer := y.manager.timer + 1 } := by
    simp only [stateMachine, h.nextState]
    rw [if_neg hw, if_neg (Nat.not_le.2 ht)]
  refine ⟨⟨?_, ?_, ?_, ?_, fun _ => rfl⟩, ?_, outgoing_of_quiet hsm rfl⟩
  · show (stateMachine _ _).nextState = _
    rw [hsm]
  · show (stateMachine _ _).configPageReg = _
    rw [hsm]
    exact h.configPageReg
  · show (stateMachine _ _).currAddrReg = _
    rw [hsm]
    exact h.currAddrReg
  · rw [pending_step_of_ne (by rw [h.nextState]; decide), hv, h.pending]
    rfl
  · show (stateMachine _ _).timer = _
    rw [hsm]

/-- The word that comes is the header of the block, and is taken for the terminator of the
    page just behind its last block. -/
theorem AtHeader.word {j : ℕ} (h : AtHeader f page j y) (hv : y.manager.dvalInReg = true) :
    y.manager.dataInReg = blockHeader f page j ∧
      (Holds f page n → j ≤ n →
        ((¬IsHeader y.manager.dataInReg ∨ (startAddress y.manager.configPageReg +
          cpageSize).toNat ≤ y.manager.currAddrReg.toNat) ↔ ¬j < n)) := by
  have hword : y.manager.dataInReg = blockHeader f page j := by
    have h0 := head_pending (f := f) hv
    rw [h.pending, getElem?_readPage (by decide)] at h0
    exact (Option.some_injective _ h0).symm
  refine ⟨hword, fun hpage hj => ?_⟩
  rw [hword, h.configPageReg, h.currAddrReg, ← hpage.header_iff hj, not_and_or, not_not]

theorem AtHeader.terminator (h : AtHeader f page n y) (hpage : Holds f page n)
    (hv : y.manager.dvalInReg = true) : (loaderStep f x y).manager.nextState = .readDone ∧
      outgoing (loaderStep f x y).manager = [] := by
  have hend := ((h.word hv).2 hpage le_rfl).2 (lt_irrefl n)
  have hsm : stateMachine (managerInput x y) y.manager =
      { defaults y.manager with nextState := .readDone } := by
    simp only [stateMachine, h.nextState]
    rw [if_pos ⟨hv, h.portInReg hv⟩, if_pos hend]
  refine ⟨?_, outgoing_of_quiet hsm rfl⟩
  show (stateMachine _ _).nextState = _
  rw [hsm]

theorem AtHeader.header {j : ℕ} (h : AtHeader f page j y) (hpage : Holds f page n) (hj : j < n)
    (hv : y.manager.dvalInReg = true) :
    AtWord f page j 1 (loaderStep f x y) ∧
      (loaderStep f x y).manager.timer = y.manager.timer ∧
      outgoing (loaderStep f x y).manager = [] := by
  obtain ⟨hword, hend⟩ := h.word (n := n) hv
  have hsm : stateMachine (managerInput x y) y.manager = { defaults y.manager with
      portOutReg := lo y.manager.dataInReg
      blockSize := sizeField y.manager.dataInReg
      nextState := .readData
      wordsRead := 1 } := by
    simp only [stateMachine, h.nextState]
    rw [if_pos ⟨hv, h.portInReg hv⟩, if_neg fun hc => (hend hpage hj.le).1 hc hj]
  refine ⟨⟨?_, ?_, ?_, ?_, ?_, ?_, ?_⟩, ?_, outgoing_of_quiet hsm rfl⟩
  · show (stateMachine _ _).nextState = _
    rw [hsm]
  · show (stateMachine _ _).configPageReg = _
    rw [hsm]
    exact h.configPageReg
  · show (stateMachine _ _).currAddrReg = _
    rw [hsm]
    exact h.currAddrReg
  · show (stateMachine _ _).wordsRead = _
    rw [hsm]
  · rw [pending_step_of_ne (by rw [h.nextState]; decide), hv, h.pending, if_pos rfl]
  · show (stateMachine _ _).blockSize = _
    rw [hsm, hword]
  · show (stateMachine _ _).portOutReg = _
    rw [hsm, hword]
  · show (stateMachine _ _).timer = _
    rw [hsm]
    rfl

theorem AtWord.waits {j w : ℕ} (h : AtWord f page j w y) (hw : w < pageWords)
    (hv : y.manager.dvalInReg = false) (ht : y.manager.timer < epcqTimeout) :
    AtWord f page j w (loaderStep f x y) ∧
      (loaderStep f x y).manager.timer = y.manager.timer + 1 ∧
      outgoing (loaderStep f x y).manager = [] := by
  have hnot : ¬epcqPageSize ≤ y.manager.wordsRead := by
    rw [h.wordsRead]
    exact Nat.not_le.2 hw
  have hsm : stateMachine (managerInput x y) y.manager =
      { defaults y.manager with timer := y.manager.timer + 1 } := by
    simp only [stateMachine, h.nextState]
    rw [if_neg hnot, if_neg (by rw [hv]; exact Bool.false_ne_true), if_neg (Nat.not_le.2 ht)]
  refine ⟨⟨?_, ?_, ?_, ?_, ?_, ?_, ?_⟩, ?_, outgoing_of_quiet hsm rfl⟩
  · show (stateMachine _ _).nextState = _
    rw [hsm]
    exact h.nextState
  · show (stateMachine _ _).configPageReg = _
    rw [hsm]
    exact h.configPageReg
  · show (stateMachine _ _).currAddrReg = _
    rw [hsm]
    exact h.currAddrReg
  · show (stateMachine _ _).wordsRead = _
    rw [hsm]
    exact h.wordsRead
  · rw [pending_step_of_ne (by rw [h.nextState]; decide), hv, h.pending, if_neg Bool.false_ne_true,
      List.drop_zero]
  · show (stateMachine _ _).blockSize = _
    rw [hsm]
    exact h.blockSize
  · show (stateMachine _ _).portOutReg = _
    rw [hsm]
    exact h.portOutReg
  · show (stateMachine _ _).timer = _
    rw [hsm]

/-- A word comes, and is forwarded up to the size of the block. -/
theorem AtWord.word {j w : ℕ} (h : AtWord f page j w y) (hw : w < pageWords)
    (hv : y.manager.dvalInReg = true) :
    AtWord f page j (w + 1) (loaderStep f x y) ∧
      (loaderStep f x y).manager.timer = y.manager.timer ∧
      (readPage f (blockAddr page j))[w]? = some y.manager.dataInReg ∧
      outgoing (loaderStep f x y).manager = if w < sizeField (blockHeader f page j) then
        [(lo (blockHeader f page j), y.manager.dataInReg)] else [] := by
  have hnot : ¬epcqPageSize ≤ y.manager.wordsRead := by
    rw [h.wordsRead]
    exact Nat.not_le.2 hw
  have hword : (readPage f (blockAddr page j))[w]? = some y.manager.dataInReg := by
    have h0 := head_pending (f := f) hv
    rwa [h.pending, List.getElem?_drop, Nat.add_zero] at h0
  have hsm : stateMachine (managerInput x y) y.manager = { defaults y.manager with
      dataOutReg := y.manager.dataInReg
      dvalOutReg := decide (y.manager.wordsRead < y.manager.blockSize)
      wordsRead := y.manager.wordsRead + 1 } := by
    simp only [stateMachine, h.nextState]
    rw [if_neg hnot, if_pos hv]
  have hport : (loaderStep f x y).manager.portOutReg = lo (blockHeader f page j) := by
    show (stateMachine _ _).portOutReg = _
    rw [hsm]
    exact h.portOutReg
  refine ⟨⟨?_, ?_, ?_, ?_, ?_, ?_, hport⟩, ?_, hword, ?_⟩
  · show (stateMachine _ _).nextState = _
    rw [hsm]
    exact h.nextState
  · show (stateMachine _ _).configPageReg = _
    rw [hsm]
    exact h.configPageReg
  · show (stateMachine _ _).currAddrReg = _
    rw [hsm]
    exact h.currAddrReg
  · show (stateMachine _ _).wordsRead = _
    rw [hsm, h.wordsRead]
  · rw [pending_step_of_ne (by rw [h.nextState]; decide), hv, h.pending, if_pos rfl,
      List.drop_drop]
  · show (stateMachine _ _).blockSize = _
    rw [hsm]
    exact h.blockSize
  · show (stateMachine _ _).timer = _
    rw [hsm]
    rfl
  · have hdval : (loaderStep f x y).manager.dvalOutReg =
        decide (w < sizeField (blockHeader f page j)) := by
      show (stateMachine _ _).dvalOutReg = _
      rw [hsm, h.wordsRead, h.blockSize]
    have hdata : (loaderStep f x y).manager.dataOutReg = y.manager.dataInReg := by
      show (stateMachine _ _).dataOutReg = _
      rw [hsm]
    rw [outgoing, hdval, hdata, hport]
    simp

/-- When all words of a block have come the next block is asked for. -/
theorem AtWord.complete {j : ℕ} (h : AtWord f page j pageWords y) :
    (loaderStep f x y).manager.nextState = .readCpage ∧
      (loaderStep f x y).manager.configPageReg = page ∧
      (loaderStep f x y).manager.currAddrReg = blockAddr page (j + 1) ∧
      ConfigDataManager.pending f (loaderStep f x y) = [] ∧
      outgoing (loaderStep f x y).manager = [] := by
  have hsm : stateMachine (managerInput x y) y.manager = { defaults y.manager with
      currAddrReg := y.manager.currAddrReg + BitVec.ofNat 32 (epcqPageSize * 4)
      nextState := .readCpage } := by
    simp only [stateMachine, h.nextState]
    rw [if_pos (by rw [h.wordsRead]; decide)]
  refine ⟨?_, ?_, ?_, ?_, outgoing_of_quiet hsm rfl⟩
  · show (stateMachine _ _).nextState = _
    rw [hsm]
  · show (stateMachine _ _).configPageReg = _
    rw [hsm]
    exact h.configPageReg
  · show (stateMachine _ _).currAddrReg = _
    rw [hsm, h.currAddrReg]
    exact blockAddr_succ page j
  · rw [pending_step_of_ne (by rw [h.nextState]; decide), h.pending, List.drop_drop]
    exact List.drop_of_length_le (by rw [length_readPage]; omega)

/-- An edge of `WAIT_READ`: the header comes, or it does not. -/
theorem wait_step {j r : ℕ} (hpage : Holds f page n) (hg : g ≤ epcqTimeout)
    (hx : Prompt g x y) (hj : j + r = n) (hs : y.manager.nextState = .waitRead)
    (hp : y.manager.configPageReg = page) (ha : y.manager.currAddrReg = blockAddr page j)
    (hq : pending f y = readPage f (blockAddr page j))
    (hport : y.manager.dvalInReg = true → y.manager.portInReg = udpPortEpcqio)
    (ht : y.manager.timer ≤ g) (hl : (r + 1) * (g + 66) ≤ left + y.manager.timer) :
    Loading f page n g (left - 1)
      (blocksPayload f page j ++ outgoing (loaderStep f x y).manager) (loaderStep f x y) := by
  have hat : AtHeader f page j y := ⟨hs, hp, ha, hq, hport⟩
  cases hv : y.manager.dvalInReg with
  | false =>
    have htg : y.manager.timer < g := hx.1 (.inl ⟨hs, by simp [hv]⟩)
    obtain ⟨h, htimer, hout⟩ := hat.waits (x := x) hv (by omega)
    rw [hout, List.append_nil]
    exact .wait j r hj h.nextState h.configPageReg h.currAddrReg h.pending h.portInReg (by omega)
      (by omega)
  | true =>
    rcases Nat.eq_zero_or_pos r with rfl | hr
    · obtain rfl : j = n := hj
      obtain ⟨hdone, hout⟩ := hat.terminator (x := x) hpage hv
      rw [hout, List.append_nil]
      exact .done hdone (by omega)
    · obtain ⟨r, rfl⟩ : ∃ q, r = q + 1 := ⟨r - 1, by omega⟩
      obtain ⟨h, htimer, hout⟩ := hat.header (x := x) hpage (by omega) hv
      -- nothing of the block has been forwarded yet
      have hnone : payload (readPage f (blockAddr page j))
          (min 1 (sizeField (blockHeader f page j))) = [] := by
        rw [payload, List.drop_of_length_le (by rw [List.length_take]; omega)]
        rfl
      have hdata : Loading f page n g (left - 1) (blocksPayload f page j ++
          payload (readPage f (blockAddr page j)) (min 1 (sizeField (blockHeader f page j))))
          (loaderStep f x y) := by
        refine .data j r 1 hj h.nextState h.configPageReg h.currAddrReg le_rfl (by decide)
          h.wordsRead h.pending h.blockSize h.portOutReg (by omega) ?_
        rw [htimer, show r + 2 = r + 1 + 1 from rfl]
        omega
      rwa [hnone, ← hout] at hdata

/-- One more word of a payload. -/
theorem payload_succ {ws : List Word} {w size : ℕ} {v : Word} (hw : 1 ≤ w)
    (hv : ws[w]? = some v) : payload ws (min (w + 1) size) =
      payload ws (min w size) ++ if w < size then [(lo (ws.headD 0), v)] else [] := by
  by_cases hlt : w < size
  · have hlen : (ws.take w).length = w := by
      rw [List.length_take, Nat.min_eq_left (Nat.le_of_lt (List.getElem?_eq_some_iff.1 hv).1)]
    rw [if_pos hlt, Nat.min_eq_left hlt, Nat.min_eq_left hlt.le, payload, payload,
      List.take_add_one, hv, List.drop_append_of_le_length (by omega), List.map_append]
    rfl
  · rw [if_neg hlt, List.append_nil, Nat.min_eq_right (by omega), Nat.min_eq_right (by omega)]

/-- Of a whole page the payload of the block is forwarded. -/
theorem payload_pageWords (f : Flash) (page j : ℕ) :
    payload (readPage f (blockAddr page j)) (min pageWords (sizeField (blockHeader f page j))) =
      blockPayload f page j := by
  rw [blockPayload, payload, payload]
  congr 2
  rw [← List.take_take, List.take_of_length_le]
  rw [List.length_take, length_readPage]
  exact Nat.min_le_right _ _

theorem blocksPayload_append (f : Flash) (page j : ℕ) :
    blocksPayload f page j ++ blockPayload f page j = blocksPayload f page (j + 1) := by
  rw [blocksPayload, blocksPayload, List.range_succ, List.flatMap_append,
    List.flatMap_singleton]

/-- An edge of `READ_DATA`: the next word, an idle cycle, or the end of the
    block. -/
theorem data_step {j r w : ℕ} (hg : g ≤ epcqTimeout)
    (hx : Prompt g x y) (hj : j + (r + 1) = n) (hs : y.manager.nextState = .readData)
    (hp : y.manager.configPageReg = page) (ha : y.manager.currAddrReg = blockAddr page j)
    (hw : 1 ≤ w) (hw' : w ≤ pageWords) (hr : y.manager.wordsRead = w)
    (hq : pending f y = (readPage f (blockAddr page j)).drop w)
    (hsize : y.manager.blockSize = sizeField (blockHeader f page j))
    (hport : y.manager.portOutReg = lo (blockHeader f page j))
    (ht : y.manager.timer ≤ g) (hl : (r + 2) * (g + 66) ≤ left + y.manager.timer + w) :
    Loading f page n g (left - 1)
      (blocksPayload f page j ++
          payload (readPage f (blockAddr page j)) (min w (sizeField (blockHeader f page j))) ++
        outgoing (loaderStep f x y).manager) (loaderStep f x y) := by
  have hat : AtWord f page j w y := ⟨hs, hp, ha, hr, hq, hsize, hport⟩
  rcases Nat.eq_or_lt_of_le hw' with rfl | h64
  · -- the block is complete
    obtain ⟨hnext, hp', ha', hq', hout⟩ := hat.complete (x := x)
    rw [hout, List.append_nil, payload_pageWords, blocksPayload_append]
    refine .request (j + 1) r (by omega) hnext hp' ha' hq' ?_
    rw [show r + 2 = r + 1 + 1 from rfl, Nat.succ_mul, show pageWords = 64 from rfl] at hl
    omega
  · cases hv : y.manager.dvalInReg with
    | false =>
      have hless : y.manager.wordsRead < epcqPageSize := hr.trans_lt h64
      have htg : y.manager.timer < g := hx.1 (.inr ⟨hs, hless, hv⟩)
      obtain ⟨h, htimer, hout⟩ := hat.waits (x := x) h64 hv (by omega)
      rw [hout, List.append_nil]
      exact .data j r w hj h.nextState h.configPageReg h.currAddrReg hw hw' h.wordsRead h.pending
        h.blockSize h.portOutReg (by omega) (by omega)
    | true =>
      obtain ⟨h, htimer, hword, hout⟩ := hat.word (x := x) h64 hv
      have hhead : (readPage f (blockAddr page j)).headD 0 = blockHeader f page j := rfl
      rw [hout, List.append_assoc, ← hhead, ← payload_succ hw hword]
      exact .data j r (w + 1) hj h.nextState h.configPageReg h.currAddrReg (by omega) h64
        h.wordsRead h.pending h.blockSize h.portOutReg (by omega) (by omega)

/-- Without a request the manager stays in `IDLE`. -/
theorem idle_step (hx : Prompt g x y) (hs : y.manager.nextState = .idle) :
    (loaderStep f x y).manager.nextState = .idle ∧
      (loaderStep f x y).manager.dvalOutReg = false := by
  have hno : x.loadConfig = false := by
    by_contra hl
    exact hx.2 ⟨hs, by simpa using hl⟩
  have hno : (managerInput x y).loadConfig = false := hno
  constructor
  · show (stateMachine _ _).nextState = _
    simp [stateMachine, hs, hno]
  · show (stateMachine _ _).dvalOutReg = false
    simp only [stateMachine, hs]
    rfl

/-- One edge of a load. -/
theorem Loading.step (h : Loading f page n g left total y) (hpage : Holds f page n)
    (hg : g ≤ epcqTimeout) (hx : Prompt g x y) :
    Loading f page n g (left - 1) (total ++ outgoing (loaderStep f x y).manager)
      (loaderStep f x y) := by
  cases h with
  | start hs hl =>
    rw [List.nil_append]
    exact hs.step hl
  | request j r hj hs hp ha hq hl => exact request_step hj hs hp ha hq hl
  | wait j r hj hs hp ha hq hport ht hl =>
    exact wait_step hpage hg hx hj hs hp ha hq hport ht hl
  | data j r w hj hs hp ha hw hw' hr hq hsize hport ht hl =>
    exact data_step hg hx hj hs hp ha hw hw' hr hq hsize hport ht hl
  | done hs hl =>
    have hsm : stateMachine (managerInput x y) y.manager =
        { defaults y.manager with nextState := .idle, configDone := true } := by
      simp only [stateMachine, hs]
    have hout : (loaderStep f x y).manager.dvalOutReg = false := by
      show (stateMachine _ _).dvalOutReg = false
      rw [hsm]
      rfl
    rw [outgoing_of_not hout, List.append_nil]
    refine .idle ?_ hout
    show (stateMachine _ _).nextState = _
    rw [hsm]
  | idle hs ho =>
    obtain ⟨hnext, hout⟩ := idle_step (f := f) hx hs
    rw [outgoing_of_not hout, List.append_nil]
    exact .idle hnext hout

/-! ### Whole loads -/

theorem Loading.run {l : List (UdpPort × Word)} {is : List Stimulus} (hpage : Holds f page n)
    (hg : g ≤ epcqTimeout) (h : Loading f page n g left (l ++ outgoing y.manager) y)
    (hR : Along (loaderStep f) (Prompt g) y is) :
    Loading f page n g (left - is.length)
      (l ++ log (loaderStep f) forwarded y is ++ outgoing (run (loaderStep f) y is).manager)
      (run (loaderStep f) y is) := by
  induction is generalizing left l y with
  | nil => simpa using h
  | cons x is ih =>
    have hstep := ih (h.step hpage hg hR.1) hR.2
    rw [Nat.sub_sub, Nat.add_comm 1] at hstep
    have hlog : log (loaderStep f) forwarded y (x :: is) =
        outgoing y.manager ++ log (loaderStep f) forwarded (loaderStep f x y) is := rfl
    rw [hlog, ← List.append_assoc]
    exact hstep

/-- A load of a page with `n` blocks forwards the words of the blocks, and is over
    after at most `(n + 1) * (g + 66) + 2` edges. -/
theorem load_run {is : List Stimulus} (hpage : Holds f page n) (hg : g ≤ epcqTimeout)
    (hs : Starts f page y) (hR : Along (loaderStep f) (Prompt g) y is)
    (hlen : (n + 1) * (g + 66) + 2 ≤ is.length) :
    (run (loaderStep f) y is).manager.nextState = .idle ∧
      (run (loaderStep f) y is).manager.dvalOutReg = false ∧
      log (loaderStep f) forwarded y is = blocksPayload f page n := by
  have hstart : Loading f page n g ((n + 1) * (g + 66) + 2) ([] ++ outgoing y.manager) y := by
    rw [outgoing_of_not hs.dvalOutReg]
    exact .start hs le_rfl
  have hend := hstart.run hpage hg hR
  rw [Nat.sub_eq_zero_of_le hlen, List.nil_append] at hend
  generalize hl : log (loaderStep f) forwarded y is ++
    outgoing (run (loaderStep f) y is).manager = l at hend
  cases hend with
  | idle hidle hout =>
    rw [outgoing_of_not hout, List.append_nil] at hl
    exact ⟨hidle, hout, hl⟩
  | start _ h0 => omega
  | request _ _ _ _ _ _ _ h0 => omega
  | wait _ r _ _ _ _ _ _ ht h0 =>
    rw [Nat.succ_mul] at h0
    omega
  | data _ r _ _ _ _ _ _ hw _ _ _ _ ht h0 =>
    rw [show r + 2 = r + 1 + 1 from rfl, Nat.succ_mul] at h0
    rw [show pageWords = 64 from rfl] at hw
    omega
  | done _ h0 => omega

/-- A load asked for in `IDLE` begins. -/
theorem starts_of_load (hs : y.manager.nextState = .idle) (hl : x.loadConfig = true)
    (hq : pending f y = []) : Starts f x.configPage.toNat (loaderStep f x y) where
  nextState := by
    show (stateMachine _ _).nextState = _
    simp [stateMachine, hs, managerInput, hl]
  configPageReg := by
    show (stateMachine _ _).configPageReg = _
    simp [stateMachine, hs, managerInput, hl]
  dvalOutReg := by
    show (stateMachine _ _).dvalOutReg = _
    simp [stateMachine, hs, defaults]
  pending := by rw [pending_step_of_ne (by rw [hs]; decide), hq, List.drop_nil]

/-- The wait after reset, `RESET_WAIT_CYCLES` in all. -/
theorem resetWait_run {is : List Stimulus} {t : ℕ} (hs : y.manager.nextState = .resetWait)
    (hp : y.manager.configPageReg = 0) (ht : y.manager.timer + t = resetWaitCycles) (h0 : 1 ≤ t)
    (hq : pending f y = []) (hlen : is.length = t) :
    Starts f 0 (run (loaderStep f) y is) := by
  induction is generalizing t y with
  | nil =>
    rw [List.length_nil] at hlen
    omega
  | cons x is ih =>
    have hsm : stateMachine (managerInput x y) y.manager = { defaults y.manager with
        timer := y.manager.timer + 1
        nextState := if resetWaitCycles ≤ y.manager.timer + 1 then .startConfig
          else .resetWait } := by
      simp only [stateMachine, hs]
    have hpage : (loaderStep f x y).manager.configPageReg = 0 := by
      show (stateMachine _ _).configPageReg = _
      rw [hsm]
      exact hp
    have hpend : pending f (loaderStep f x y) = [] := by
      rw [pending_step_of_ne (by rw [hs]; decide), hq, List.drop_nil]
    rw [List.length_cons] at hlen
    rcases Nat.eq_or_lt_of_le h0 with rfl | h1
    · obtain rfl : is = [] := List.length_eq_zero_iff.1 (by omega)
      refine ⟨?_, hpage, ?_, hpend⟩
      · show (stateMachine _ _).nextState = _
        rw [hsm]
        exact if_pos (by omega)
      · show (stateMachine _ _).dvalOutReg = _
        rw [hsm]
        rfl
    · have htimer : (loaderStep f x y).manager.timer = y.manager.timer + 1 := by
        show (stateMachine _ _).timer = _
        rw [hsm]
      rw [run_cons]
      refine ih (t := t - 1) ?_ hpage (by omega) (by omega) hpend (by omega)
      show (stateMachine _ _).nextState = _
      rw [hsm]
      exact if_neg (by omega)

/-- After reset the load of page 0 begins by itself. -/
theorem starts_after_reset {is : List Stimulus} (hlen : is.length = resetWaitCycles + 1) :
    Starts f 0 (run (loaderStep f) ⟨reset, []⟩ is) := by
  cases is with
  | nil => cases hlen
  | cons x is =>
    have hq : pending f (loaderStep f x ⟨reset, []⟩) = [] := by
      rw [pending_step_of_ne (by decide)]
      rfl
    rw [run_cons]
    exact resetWait_run (t := resetWaitCycles) rfl rfl (Nat.zero_add _) (by decide) hq
      (Nat.succ_injective hlen)

end

end ConfigDataManager

end FpgaEthernet
