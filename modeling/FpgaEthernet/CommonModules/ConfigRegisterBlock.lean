import FpgaEthernet.Clocked.Run
import FpgaEthernet.Ethernet.EthCommon

/-!
# `config_register_block`

Model of `common_modules/config_register_block.vhd`: a block of `n` registers
that is written and read over a serial interface of 32-bit configuration words.

Main results:

* `Dumping.step`: what the reader puts out in the middle of a block read.
* `halfOf_foldl`: what a list of configuration words leaves in a half-register.
* `Announced.step`: `config_changed` is high while a register loaded from the
  registers is behind them.
* `dump_run`: a block read puts out the `2 * n` half-registers in order and
  then nothing, whatever is received meanwhile.
* `written_run`: what configuration words fed with idle cycles anywhere leave in
  the registers.
* `settings_dump_restore`: the words of a block read, fed into a block of the same size
  and address, make its registers those that were read, without an error.
-/

namespace FpgaEthernet.ConfigRegisterBlock

open Clocked

/-! ## Configuration words -/

/-- Bit 31: the write/read flag. -/
def isRead (w : Word) : Bool := w.getLsbD 31

/-- Bits 30 downto 24: the block address. -/
def blockAddress (w : Word) : BitVec 7 := w.extractLsb' 24 7

/-- Bits 23 downto 17: the register address. -/
def registerInt (w : Word) : ℕ := (w.extractLsb' 17 7).toNat

/-- Bit 16: lower or upper half of the register. -/
def isUpper (w : Word) : Bool := w.getLsbD 16

/-- The lower or upper 16 bits of a register. -/
def half (r : Word) (upper : Bool) : BitVec 16 := if upper then hi r else lo r

/-- A register with its lower or upper 16 bits replaced. -/
def setHalf (r : Word) (upper : Bool) (v : BitVec 16) : Word :=
  if upper then (v ++ lo r : BitVec 32) else (hi r ++ v : BitVec 32)

/-- The word that names half-register `k` of a block and has `v` as its data. -/
def halfWord (addr : BitVec 7) (k : ℕ) (v : BitVec 16) : Word :=
  (0#1 ++ addr ++ BitVec.ofNat 8 k ++ v : BitVec 32)

/-! ## Model -/

variable {n : ℕ}

/-- The input ports (`config_register_block.vhd` lines 61-64). -/
structure Input where
  configDataIn : Word
  configValidIn : Bool
  deriving DecidableEq

/-- The registers and variables of `register_reader`. -/
structure Reader where
  blockReadIndex : ℕ
  blockReadReg : ℕ
  blockReadUpper : Bool
  configDataOut : Word
  configValidOut : Bool
  readError : Bool
  deriving DecidableEq

/-- The registers of a block with `n` configuration registers. -/
structure State (n : ℕ) where
  configRegistersReg : Fin n → Word
  configRegisters : Fin n → Word
  configDataInReg : Word
  configValidInReg : Bool
  reconfiged : Bool
  writeError : Bool
  configChangedRegs : BitVec 4
  configChanged : Bool
  configError : Bool
  reader : Reader

/-- The registers when `reset` is released, with the default settings. -/
def initial (settings : Fin n → Word) : State n where
  configRegistersReg := settings
  configRegisters := settings
  configDataInReg := 0
  configValidInReg := false
  reconfiged := true
  writeError := false
  configChangedRegs := BitVec.allOnes 4
  configChanged := false
  configError := false
  reader := {
    blockReadIndex := 0
    blockReadReg := 0
    blockReadUpper := false
    configDataOut := 0
    configValidOut := false
    readError := false }

/-- `config_registers_reg(k)`. -/
def register (regs : Fin n → Word) (k : ℕ) : Word := if h : k < n then regs ⟨k, h⟩ else 0

/-- `register_writer` (lines 105-145): the registers, `reconfiged` and
    `write_error`. -/
def registerWriter (addr : BitVec 7) (s : State n) : (Fin n → Word) × Bool × Bool :=
  let w := s.configDataInReg
  if s.configValidInReg then
    if isRead w then (s.configRegistersReg, false, false)
    else if blockAddress w = addr then
      if h : registerInt w < n then
        (Function.update s.configRegistersReg ⟨registerInt w, h⟩
          (setHalf (s.configRegistersReg ⟨registerInt w, h⟩) (isUpper w) (lo w)), true, false)
      else (s.configRegistersReg, false, true)
    else (s.configRegistersReg, false, false)
  else (s.configRegistersReg, false, false)

/-- `config_change_ff` (lines 148-160). -/
def configChangeFf (s : State n) : BitVec 4 :=
  if s.reconfiged then BitVec.allOnes 4 else s.configChangedRegs >>> 1

/-- `register_reader` (lines 165-233). -/
def registerReader (addr : BitVec 7) (s : State n) : Reader :=
  let r := s.reader
  let w := s.configDataInReg
  if r.blockReadIndex = 0 ∧ isRead w = true ∧ s.configValidInReg = true ∧ blockAddress w = addr ∧
      registerInt w = 127 then
    { r with
      configValidOut := true
      configDataOut := halfWord addr 0 (lo (register s.configRegistersReg 0))
      blockReadIndex := 1
      blockReadUpper := true
      blockReadReg := 0 }
  else if 2 * n ≤ r.blockReadIndex then
    { r with configValidOut := false, configDataOut := 0, blockReadIndex := 0, blockReadReg := 0 }
  else if 1 ≤ r.blockReadIndex then
    let r := { r with configValidOut := true, blockReadIndex := r.blockReadIndex + 1 }
    if s.reader.blockReadUpper then
      { r with
        configDataOut := halfWord addr s.reader.blockReadIndex
          (hi (register s.configRegistersReg s.reader.blockReadReg))
        blockReadReg := s.reader.blockReadReg + 1
        blockReadUpper := false }
    else
      { r with
        configDataOut := halfWord addr s.reader.blockReadIndex
          (lo (register s.configRegistersReg s.reader.blockReadReg))
        blockReadUpper := true }
  else if isRead w = true ∧ s.configValidInReg = true ∧ blockAddress w = addr then
    if n ≤ registerInt w then
      { r with readError := true, configValidOut := false, configDataOut := 0 }
    else
      { r with
        readError := false
        configValidOut := true
        configDataOut := (0#1 ++ w.extractLsb' 16 15 ++
          half (register s.configRegistersReg (registerInt w)) (isUpper w) : BitVec 32) }
  else { r with configValidOut := false, configDataOut := 0, readError := false }

/-- One edge of `clock`, with `config_dff` (lines 93-102). -/
def step (addr : BitVec 7) (i : Input) (s : State n) : State n where
  configRegistersReg := (registerWriter addr s).1
  configRegisters := s.configRegistersReg
  configDataInReg := i.configDataIn
  configValidInReg := i.configValidIn
  reconfiged := (registerWriter addr s).2.1
  writeError := (registerWriter addr s).2.2
  configChangedRegs := configChangeFf s
  configChanged := s.reconfiged || s.configChangedRegs.getLsbD 0
  configError := s.writeError || s.reader.readError
  reader := registerReader addr s

/-- What stands on `config_data_out` after an edge, if `config_valid_out` is
    high. -/
def output (addr : BitVec 7) (i : Input) (s : State n) : Option Word :=
  let r := (step addr i s).reader
  if r.configValidOut then some r.configDataOut else none

/-- The words fed with `config_valid_in` high. -/
def fed (is : List Input) : List Word :=
  is.filterMap fun i => if i.configValidIn then some i.configDataIn else none

/-! ## Decoding -/

variable {addr : BitVec 7} {k : ℕ} {v : BitVec 16}

theorem getLsbD_halfWord (j : ℕ) : (halfWord addr k v).getLsbD j =
    if j < 16 then v.getLsbD j
    else if j < 24 then (BitVec.ofNat 8 k).getLsbD (j - 16)
    else if j < 31 then addr.getLsbD (j - 24)
    else false := by
  show (0#1 ++ addr ++ BitVec.ofNat 8 k ++ v : BitVec (1 + 7 + 8 + 16)).getLsbD j = _
  simp only [BitVec.getLsbD_append]
  by_cases h16 : j < 16
  · simp [h16]
  by_cases h24 : j < 24
  · simp [h16, h24, show j - 16 < 8 by omega]
  by_cases h31 : j < 31
  · simp [h16, h24, h31, show ¬j - 16 < 8 by omega, show j - 24 < 7 by omega,
      show j - 16 - 8 = j - 24 by omega]
  · simp [h16, h24, h31, show ¬j - 16 < 8 by omega, show ¬j - 16 - 8 < 7 by omega]

theorem isRead_halfWord : isRead (halfWord addr k v) = false := by
  rw [isRead, getLsbD_halfWord]
  rfl

theorem blockAddress_halfWord : blockAddress (halfWord addr k v) = addr := by
  apply BitVec.eq_of_getLsbD_eq
  intro j hj
  rw [blockAddress, BitVec.getLsbD_extractLsb', getLsbD_halfWord]
  simp [hj, show ¬24 + j < 16 by omega, show 24 + j < 31 by omega]

theorem registerInt_halfWord (hk : k < 256) : registerInt (halfWord addr k v) = k / 2 := by
  have h : (halfWord addr k v).extractLsb' 17 7 = BitVec.ofNat 7 (k / 2) := by
    apply BitVec.eq_of_getLsbD_eq
    intro j hj
    rw [BitVec.getLsbD_extractLsb', getLsbD_halfWord, BitVec.getLsbD_ofNat, BitVec.getLsbD_ofNat,
      Nat.testBit_div_two]
    simp [hj, show ¬17 + j < 16 by omega, show 17 + j < 24 by omega,
      show 17 + j - 16 = j + 1 by omega, show j + 1 < 8 by omega]
  rw [registerInt, h, BitVec.toNat_ofNat]
  omega

theorem isUpper_halfWord : isUpper (halfWord addr k v) = decide (k % 2 = 1) := by
  rw [isUpper, getLsbD_halfWord, if_neg (by omega), if_pos (by omega), BitVec.getLsbD_ofNat,
    Nat.testBit_zero]
  rfl

theorem lo_halfWord : lo (halfWord addr k v) = v := BitVec.extractLsb'_append_eq_right

/-! ## Half-registers -/

theorem half_setHalf (r : Word) (u u' : Bool) (v : BitVec 16) :
    half (setHalf r u v) u' = if u' = u then v else half r u' := by
  cases u <;> cases u' <;> simp [half, setHalf]

theorem eq_of_half {r r' : Word} (h : ∀ u, half r u = half r' u) : r = r' := by
  have hsplit : ∀ w : Word, w = (hi w ++ lo w : BitVec 32) := by
    intro w
    apply BitVec.eq_of_getLsbD_eq
    intro j hj
    show _ = (hi w ++ lo w : BitVec (16 + 16)).getLsbD j
    rw [BitVec.getLsbD_append, hi, lo, BitVec.getLsbD_extractLsb', BitVec.getLsbD_extractLsb']
    by_cases h16 : j < 16
    · simp [h16]
    · simp [h16, show j - 16 < 16 by omega, show 16 + (j - 16) = j by omega]
  rw [hsplit r, hsplit r']
  exact congrArg₂ _ (h true) (h false)

/-- Half-register `k`: register `k / 2`, its upper half if `k` is odd. -/
def halfOf (regs : Fin n → Word) (k : ℕ) : BitVec 16 :=
  half (register regs (k / 2)) (decide (k % 2 = 1))

/-- The registers are determined by their halves. -/
theorem eq_of_halfOf {A B : Fin n → Word} (h : ∀ k < 2 * n, halfOf A k = halfOf B k) : A = B := by
  funext j
  apply eq_of_half
  have hj := j.isLt
  intro u
  cases u with
  | false =>
    have := h (2 * j) (by omega)
    simpa [halfOf, register, show (2 * (j : ℕ)) / 2 = j by omega] using this
  | true =>
    have := h (2 * j + 1) (by omega)
    simpa [halfOf, register, show (2 * (j : ℕ) + 1) / 2 = j by omega,
      show (2 * (j : ℕ) + 1) % 2 = 1 by omega] using this

/-! ## Writing -/

/-- The registers after one configuration word. -/
def writeWord (addr : BitVec 7) (regs : Fin n → Word) (w : Word) : Fin n → Word :=
  if h : isRead w = false ∧ blockAddress w = addr ∧ registerInt w < n then
    Function.update regs ⟨registerInt w, h.2.2⟩
      (setHalf (regs ⟨registerInt w, h.2.2⟩) (isUpper w) (lo w))
  else regs

/-- The half-register a word is for. -/
def halfAddress (w : Word) : ℕ := 2 * registerInt w + (isUpper w).toNat

theorem halfOf_writeWord (regs : Fin n → Word) (w : Word) (hk : k < 2 * n) :
    halfOf (writeWord addr regs w) k =
      if isRead w = false ∧ blockAddress w = addr ∧ halfAddress w = k then lo w
      else halfOf regs k := by
  have hkey : halfAddress w = k ↔ k / 2 = registerInt w ∧ decide (k % 2 = 1) = isUpper w := by
    unfold halfAddress
    cases isUpper w <;> simp <;> omega
  unfold writeWord
  split_ifs with h hc hc
  · obtain ⟨hreg, hup⟩ := hkey.1 hc.2.2
    simp only [halfOf, register, hreg, dif_pos h.2.2, Function.update_self, half_setHalf, hup,
      if_true]
  · have hlt : k / 2 < n := by omega
    simp only [halfOf, register, dif_pos hlt]
    by_cases hreg : k / 2 = registerInt w
    · have hup : decide (k % 2 = 1) ≠ isUpper w := fun hup =>
        hc ⟨h.1, h.2.1, hkey.2 ⟨hreg, hup⟩⟩
      simp only [hreg, Function.update_self, half_setHalf, if_neg hup]
    · rw [Function.update_of_ne (by simpa using hreg)]
  · have hlt := (hkey.1 hc.2.2).1
    exact absurd ⟨hc.1, hc.2.1, by omega⟩ h
  · rfl

/-- What a list of words leaves in a half-register: the data of the last word for
    it. -/
theorem halfOf_foldl (ws : List Word) (regs : Fin n → Word) (hk : k < 2 * n) :
    halfOf (ws.foldl (writeWord addr) regs) k =
      (((ws.filter fun w =>
        isRead w = false ∧ blockAddress w = addr ∧ halfAddress w = k).getLast?).map lo).getD
          (halfOf regs k) := by
  induction ws using List.reverseRecOn with
  | nil => rfl
  | append_singleton ws w ih =>
    rw [List.foldl_append, List.foldl_cons, List.foldl_nil, halfOf_writeWord _ _ hk, ih,
      List.filter_append, List.filter_singleton]
    split_ifs with hw
    · simp [hw]
    · simp [hw]

variable {i : Input} {s : State n}

theorem registerWriter_fst : (registerWriter addr s).1 =
    if s.configValidInReg then writeWord addr s.configRegistersReg s.configDataInReg
    else s.configRegistersReg := by
  unfold registerWriter writeWord
  by_cases hv : s.configValidInReg = true
  · rw [if_pos hv, if_pos hv]
    by_cases hread : isRead s.configDataInReg = true
    · rw [if_pos hread, dif_neg (by simp [hread])]
    · rw [if_neg hread]
      by_cases hb : blockAddress s.configDataInReg = addr
      · rw [if_pos hb]
        by_cases hr : registerInt s.configDataInReg < n
        · rw [dif_pos hr, dif_pos ⟨by simpa using hread, hb, hr⟩]
        · rw [dif_neg hr, dif_neg fun h => hr h.2.2]
      · rw [if_neg hb, dif_neg fun h => hb h.2.1]
  · rw [if_neg hv, if_neg hv]

/-- What the words fed so far leave in the registers: the last of them is still
    in the input register. -/
theorem written_run (s : State n) (is : List Input) :
    (registerWriter addr (run (step addr) s is)).1 =
      (fed is).foldl (writeWord addr) (registerWriter addr s).1 := by
  induction is using List.reverseRecOn with
  | nil => rfl
  | append_singleton is i ih =>
    have hcat : fed (is ++ [i]) = fed is ++ fed [i] := List.filterMap_append
    rw [run_concat, hcat, List.foldl_append, ← ih, registerWriter_fst]
    cases hv : i.configValidIn with
    | false => simp [step, hv, fed]
    | true => simp [step, hv, fed]

/-! ## Announcing a change -/

theorem reconfiged_of_registerWriter (h : (registerWriter addr s).1 ≠ s.configRegistersReg) :
    (registerWriter addr s).2.1 = true := by
  simp only [registerWriter] at h ⊢
  split_ifs at h ⊢ <;> first | rfl | exact absurd rfl h

/-- `old` is what `config_registers` was one edge ago, which is what a register
    loaded from it holds. Until that register has changed too, the block says so:
    `reconfiged` is high while the new value is in the first register, and
    `config_changed` while it is in the second one and at the edge after that. -/
structure Announced (old : Fin n → Word) (s : State n) : Prop where
  written : s.configRegistersReg ≠ s.configRegisters → s.reconfiged = true
  pending : s.configRegisters ≠ old →
    s.configChanged = true ∧ s.configChangedRegs.getLsbD 0 = true

theorem announced_initial (settings : Fin n → Word) : Announced settings (initial settings) where
  written h := absurd rfl h
  pending h := absurd rfl h

variable {old : Fin n → Word}

theorem Announced.step (h : Announced old s) : Announced s.configRegisters (step addr i s) where
  written hne := reconfiged_of_registerWriter hne
  pending hne := by
    have hre := h.written hne
    constructor
    · simp [ConfigRegisterBlock.step, hre]
    · simp [ConfigRegisterBlock.step, configChangeFf, hre]

/-- An edge at which a register loaded from `config_registers` changes comes
    while `config_changed` is high, and leaves it high. -/
theorem Announced.configChanged (h : Announced old s) (hne : s.configRegisters ≠ old) :
    s.configChanged = true ∧ (ConfigRegisterBlock.step addr i s).configChanged = true := by
  obtain ⟨hchanged, hstretch⟩ := h.pending hne
  refine ⟨hchanged, ?_⟩
  simp [ConfigRegisterBlock.step, hstretch]

/-! ## Reading a block -/

/-- A block-read request. -/
def IsBlockRead (addr : BitVec 7) (w : Word) : Prop :=
  isRead w = true ∧ blockAddress w = addr ∧ registerInt w = 127

/-- Not a write to the block. -/
def NoWrite (addr : BitVec 7) (i : Input) : Prop :=
  i.configValidIn = true → isRead i.configDataIn = true ∨ blockAddress i.configDataIn ≠ addr

/-- The registers are `A`, and nothing in the input register changes them. -/
structure Keeps (addr : BitVec 7) (A : Fin n → Word) (s : State n) : Prop where
  regs : s.configRegistersReg = A
  reg : s.configValidInReg = true →
    isRead s.configDataInReg = true ∨ blockAddress s.configDataInReg ≠ addr

variable {A : Fin n → Word}

theorem Keeps.step (h : Keeps addr A s) (hi : NoWrite addr i) : Keeps addr A (step addr i s) where
  regs := by
    show (registerWriter addr s).1 = A
    rw [registerWriter_fst, ← h.regs]
    split_ifs with hv
    · refine dif_neg fun hw => ?_
      rcases h.reg hv with hr | hb
      · rw [hr] at hw
        exact Bool.noConfusion hw.1
      · exact hb hw.2.1
    · rfl
  reg := hi

/-- The reader has put out `k` half-registers. -/
structure Dumping (k : ℕ) (s : State n) : Prop where
  index : s.reader.blockReadIndex = k
  upper : s.reader.blockReadUpper = decide (k % 2 = 1)
  reg : s.reader.blockReadReg = k / 2

/-- The word for half-register `k`. -/
def dumpWord (addr : BitVec 7) (A : Fin n → Word) (k : ℕ) : Word := halfWord addr k (halfOf A k)

/-- All words of a block. -/
def dump (addr : BitVec 7) (A : Fin n → Word) : List Word :=
  (List.range (2 * n)).map (dumpWord addr A)

/-- The first word of a block read. -/
theorem dump_start (hv : s.configValidInReg = true)
    (hr : IsBlockRead addr s.configDataInReg) (h0 : s.reader.blockReadIndex = 0) :
    Dumping 1 (step addr i s) ∧ output addr i s = some (dumpWord addr s.configRegistersReg 0) := by
  have hread : (step addr i s).reader = { s.reader with
      configValidOut := true
      configDataOut := halfWord addr 0 (lo (register s.configRegistersReg 0))
      blockReadIndex := 1
      blockReadUpper := true
      blockReadReg := 0 } := if_pos ⟨h0, hr.1, hv, hr.2.1, hr.2.2⟩
  refine ⟨⟨by rw [hread], by rw [hread]; rfl, by rw [hread]⟩, ?_⟩
  simp only [output, hread, if_true]
  rfl

/-- The next word of a block read, whatever is in the input register. -/
theorem Dumping.step (hd : Dumping k s) (hpos : 1 ≤ k) (hk : k < 2 * n) :
    Dumping (k + 1) (step addr i s) ∧
      output addr i s = some (dumpWord addr s.configRegistersReg k) := by
  have h1 : ¬(s.reader.blockReadIndex = 0 ∧ isRead s.configDataInReg = true ∧
      s.configValidInReg = true ∧ blockAddress s.configDataInReg = addr ∧
      registerInt s.configDataInReg = 127) := by
    rintro ⟨h0, -⟩
    rw [hd.index] at h0
    omega
  have h2 : ¬2 * n ≤ s.reader.blockReadIndex := by rw [hd.index]; omega
  have h3 : 1 ≤ s.reader.blockReadIndex := by rw [hd.index]; omega
  have hread : (ConfigRegisterBlock.step addr i s).reader = { s.reader with
      configValidOut := true
      blockReadIndex := s.reader.blockReadIndex + 1
      configDataOut := dumpWord addr s.configRegistersReg k
      blockReadReg := (k + 1) / 2
      blockReadUpper := decide ((k + 1) % 2 = 1) } := by
    show registerReader addr s = _
    rw [registerReader, if_neg h1, if_neg h2, if_pos h3, hd.upper, hd.reg, hd.index]
    rcases Nat.mod_two_eq_zero_or_one k with hpar | hpar
    · have hup : decide (k % 2 = 1) = false := by simp [hpar]
      have hup' : decide ((k + 1) % 2 = 1) = true := by rw [decide_eq_true_eq]; omega
      simp only [hup, hup', Bool.false_eq_true, if_false, dumpWord, halfOf, half,
        show (k + 1) / 2 = k / 2 by omega]
    · have hup : decide (k % 2 = 1) = true := by simp [hpar]
      have hup' : decide ((k + 1) % 2 = 1) = false := by rw [decide_eq_false_iff_not]; omega
      simp only [hup, hup', if_true, dumpWord, halfOf, half, show (k + 1) / 2 = k / 2 + 1 by omega]
  refine ⟨⟨?_, by rw [hread], by rw [hread]⟩, ?_⟩
  · rw [hread, hd.index]
  · simp only [output, hread, if_true]

/-- The end of a block read. -/
theorem Dumping.finish (hd : Dumping (2 * n) s) (hn : 1 ≤ n) :
    (ConfigRegisterBlock.step addr i s).reader.blockReadIndex = 0 ∧ output addr i s = none := by
  have h1 : ¬(s.reader.blockReadIndex = 0 ∧ isRead s.configDataInReg = true ∧
      s.configValidInReg = true ∧ blockAddress s.configDataInReg = addr ∧
      registerInt s.configDataInReg = 127) := by
    rintro ⟨h0, -⟩
    rw [hd.index] at h0
    omega
  have hread : (ConfigRegisterBlock.step addr i s).reader = { s.reader with
      configValidOut := false
      configDataOut := 0
      blockReadIndex := 0
      blockReadReg := 0 } := by
    show registerReader addr s = _
    rw [registerReader, if_neg h1, if_pos (le_of_eq hd.index.symm)]
  exact ⟨by rw [hread], by simp only [output, hread]; rfl⟩

/-- Without a word for the block nothing is put out. -/
theorem silent_step (hn : 1 ≤ n) (h0 : s.reader.blockReadIndex = 0)
    (hreg : s.configValidInReg = true → blockAddress s.configDataInReg ≠ addr) :
    (step addr i s).reader.blockReadIndex = 0 ∧ output addr i s = none := by
  have hread : (step addr i s).reader = { s.reader with
      configValidOut := false
      configDataOut := 0
      readError := false } := by
    show registerReader addr s = _
    rw [registerReader, if_neg fun h => hreg h.2.2.1 h.2.2.2.1, if_neg (by omega),
      if_neg (by omega), if_neg fun h => hreg h.2.1 h.2.2]
  exact ⟨by rw [hread, h0], by simp only [output, hread]; rfl⟩

/-- What `config_data_out` shows after every edge. -/
def outputs (addr : BitVec 7) (s : State n) (is : List Input) : List (Option Word) :=
  log (step addr) (fun i s => [output addr i s]) s is

/-- A block read under way, whatever is received. Word `k` is taken from what the
    registers hold then. -/
theorem dumping_run (hv : s.configValidInReg = true) (hr : IsBlockRead addr s.configDataInReg)
    (h0 : s.reader.blockReadIndex = 0) {is : List Input} (hlen : is.length ≤ 2 * n) :
    (is ≠ [] → Dumping is.length (run (step addr) s is)) ∧
      outputs addr s is = (List.range is.length).map fun k =>
        some (dumpWord addr (run (step addr) s (is.take k)).configRegistersReg k) := by
  induction is using List.reverseRecOn with
  | nil => exact ⟨fun hne => absurd rfl hne, rfl⟩
  | append_singleton is i ih =>
    rw [List.length_append, List.length_singleton] at hlen
    obtain ⟨hd, ho⟩ := ih (by omega)
    have key : Dumping (is.length + 1) (step addr i (run (step addr) s is)) ∧
        output addr i (run (step addr) s is) =
          some (dumpWord addr (run (step addr) s is).configRegistersReg is.length) := by
      rcases List.eq_nil_or_concat is with rfl | ⟨js, j, rfl⟩
      · exact dump_start hv hr h0
      · exact (hd (by simp)).step (by simp) (by omega)
    rw [run_concat, List.length_append, List.length_singleton]
    refine ⟨fun _ => key.1, ?_⟩
    have hout : outputs addr s (is ++ [i]) = outputs addr s is ++
        [output addr i (run (step addr) s is)] := log_concat ..
    rw [hout, ho, key.2, List.range_succ, List.map_append, List.map_singleton,
      List.take_append_of_le_length le_rfl, List.take_length]
    congr 1
    refine List.map_congr_left fun k hk => ?_
    rw [List.take_append_of_le_length (List.mem_range.1 hk).le]

/-- A block read puts out `2 * n` words in consecutive cycles, then nothing. -/
theorem dump_run (hn : 1 ≤ n) (hv : s.configValidInReg = true)
    (hr : IsBlockRead addr s.configDataInReg) (h0 : s.reader.blockReadIndex = 0)
    {is : List Input} (hlen : is.length = 2 * n + 1) :
    outputs addr s is = ((List.range (2 * n)).map fun k =>
      dumpWord addr (run (step addr) s (is.take k)).configRegistersReg k).map some ++ [none] := by
  obtain ⟨js, j, rfl⟩ := (List.eq_nil_or_concat is).resolve_left (by rintro rfl; simp at hlen)
  rw [List.concat_eq_append] at hlen ⊢
  rw [List.length_append, List.length_singleton] at hlen
  have hjs : js.length = 2 * n := by omega
  obtain ⟨hd, ho⟩ := dumping_run hv hr h0 hjs.le
  have hne : js ≠ [] := by
    rintro rfl
    rw [List.length_nil] at hlen
    omega
  have hout : outputs addr s (js ++ [j]) = outputs addr s js ++
      [output addr j (run (step addr) s js)] := log_concat ..
  rw [hout, ho, ((hjs ▸ hd hne : Dumping (2 * n) _).finish hn).2, hjs, List.map_map]
  congr 1
  refine List.map_congr_left fun k hk => ?_
  have hk' := List.mem_range.1 hk
  rw [Function.comp_apply, List.take_append_of_le_length (by omega)]

/-- Without a write to the block the registers stay. -/
theorem Keeps.run {is : List Input} (h : Keeps addr A s) (hi : ∀ i ∈ is, NoWrite addr i) :
    Keeps addr A (Clocked.run (ConfigRegisterBlock.step addr) s is) :=
  run_invariant _ h (fun _ _ hi hs => hs.step hi) (along_of_forall _ hi)

/-! ## Dump and restore -/

/-- Writing the words of a block makes its registers those that were read. -/
theorem restored (hn : n ≤ 127) (A B : Fin n → Word) :
    (dump addr A).foldl (writeWord addr) B = A := by
  have key : ∀ p ≤ 2 * n, ∀ k < 2 * n,
      halfOf (((List.range p).map (dumpWord addr A)).foldl (writeWord addr) B) k =
        if k < p then halfOf A k else halfOf B k := by
    intro p hp
    induction p with
    | zero => simp
    | succ p ih =>
      intro k hk
      have haddr : halfAddress (dumpWord addr A p) = p := by
        rw [halfAddress, dumpWord, registerInt_halfWord (by omega), isUpper_halfWord]
        rcases Nat.mod_two_eq_zero_or_one p with hpar | hpar <;> simp [hpar] <;> omega
      rw [List.range_succ, List.map_append, List.foldl_append, List.map_singleton,
        List.foldl_cons, List.foldl_nil, halfOf_writeWord _ _ hk, ih (by omega) k hk, haddr]
      have hcond : isRead (dumpWord addr A p) = false ∧ blockAddress (dumpWord addr A p) = addr :=
        ⟨isRead_halfWord, blockAddress_halfWord⟩
      by_cases hpk : p = k
      · rw [if_pos ⟨hcond.1, hcond.2, hpk⟩, if_pos (by omega), dumpWord, lo_halfWord, hpk]
      · rw [if_neg fun h => hpk h.2.2]
        by_cases hlt : k < p
        · rw [if_pos hlt, if_pos (by omega)]
        · rw [if_neg hlt, if_neg (by omega)]
  refine eq_of_halfOf fun k hk => ?_
  rw [dump, key (2 * n) le_rfl k hk, if_pos hk]

/-- No error stands or is on its way. -/
structure Untroubled (addr : BitVec 7) (s : State n) : Prop where
  configError : s.configError = false
  writeError : s.writeError = false
  readError : s.reader.readError = false
  reg : s.configValidInReg = true → isRead s.configDataInReg = false ∧
    (blockAddress s.configDataInReg = addr → registerInt s.configDataInReg < n)

/-- The errors after an edge are those of the word that was in the input
    register. -/
theorem Untroubled.errors (h : Untroubled addr s) :
    (step addr i s).configError = false ∧ (step addr i s).writeError = false ∧
      (step addr i s).reader.readError = false := by
  refine ⟨?_, ?_, ?_⟩
  · show (s.writeError || s.reader.readError) = false
    rw [h.writeError, h.readError]
    rfl
  · show (registerWriter addr s).2.2 = false
    unfold registerWriter
    by_cases hv : s.configValidInReg = true
    · obtain ⟨hr, hreg⟩ := h.reg hv
      rw [if_pos hv, if_neg (by simp [hr])]
      by_cases hb : blockAddress s.configDataInReg = addr
      · rw [if_pos hb, dif_pos (hreg hb)]
      · rw [if_neg hb]
    · rw [if_neg hv]
  · have hno : ¬(isRead s.configDataInReg = true ∧ s.configValidInReg = true ∧
        blockAddress s.configDataInReg = addr) := by
      rintro ⟨hr, hv, -⟩
      rw [(h.reg hv).1] at hr
      cases hr
    show (registerReader addr s).readError = false
    rw [registerReader, if_neg fun hc => hno ⟨hc.2.1, hc.2.2.1, hc.2.2.2.1⟩, if_neg hno]
    split_ifs <;> first | exact h.readError | rfl

/-- Words of a block never cause an error. -/
theorem untroubled_run {is : List Input} (h : Untroubled addr s)
    (hfed : ∀ w ∈ fed is, isRead w = false ∧ (blockAddress w = addr → registerInt w < n)) :
    Untroubled addr (run (step addr) s is) := by
  induction is generalizing s with
  | nil => exact h
  | cons i is ih =>
    obtain ⟨h1, h2, h3⟩ := h.errors (i := i)
    refine ih ⟨h1, h2, h3, fun hv => hfed _ ?_⟩ fun w hw => hfed w ?_
    · have hv' : i.configValidIn = true := hv
      show i.configDataIn ∈ fed (i :: is)
      simp [fed, hv']
    · cases hv : i.configValidIn <;> simp_all [fed]

/-- Dump and restore. A block-read request that comes while no block read is
    running puts out `2 * n` words in consecutive cycles, and then nothing,
    whatever is received meanwhile. If this is no write to the block, the words,
    fed into a block of the same address and size whose registers hold anything,
    with idle cycles anywhere, make its registers what they were when the request
    was read, without an error. -/
theorem settings_dump_restore {n : ℕ} (hn : 1 ≤ n) (hn' : n ≤ 127) {addr : BitVec 7} {s : State n}
    {i₀ : Input} {is : List Input} (hv : i₀.configValidIn = true)
    (hr : IsBlockRead addr i₀.configDataIn) (hidle : (step addr i₀ s).reader.blockReadIndex = 0)
    (hlen : is.length = 2 * n + 1) :
    ∃ words : List Word, words.length = 2 * n ∧
      outputs addr (step addr i₀ s) is = words.map some ++ [none] ∧
      ((∀ i ∈ is, NoWrite addr i) → ∀ (t : State n) (js : List Input) (d₁ d₂ : Input),
        Untroubled addr t → fed js = words →
          (run (step addr) t (js ++ [d₁])).configRegistersReg =
              (step addr i₀ s).configRegistersReg ∧
            (run (step addr) t (js ++ [d₁, d₂])).configRegisters =
              (step addr i₀ s).configRegistersReg ∧
            ∀ ks, ks <+: js ++ [d₁, d₂] → (run (step addr) t ks).configError = false) := by
  have hdump := dump_run (s := step addr i₀ s) hn hv hr hidle hlen
  refine ⟨_, by simp, hdump, fun hquiet t js d₁ d₂ ht hfed => ?_⟩
  have hwords : fed js = dump addr (step addr i₀ s).configRegistersReg := by
    rw [hfed, dump]
    refine List.map_congr_left fun k _ => ?_
    have hkeeps : Keeps addr (step addr i₀ s).configRegistersReg (step addr i₀ s) :=
      ⟨rfl, fun _ => .inl hr.1⟩
    rw [(hkeeps.run fun i hi => hquiet i (List.mem_of_mem_take hi)).regs]
  have hregs : (run (step addr) t (js ++ [d₁])).configRegistersReg =
      (step addr i₀ s).configRegistersReg := by
    rw [run_concat]
    show (registerWriter addr _).1 = _
    rw [written_run, hwords, restored hn']
  have hclean : ∀ w ∈ fed js,
      isRead w = false ∧ (blockAddress w = addr → registerInt w < n) := by
    intro w hw
    rw [hwords, dump, List.mem_map] at hw
    obtain ⟨k, hk, rfl⟩ := hw
    rw [List.mem_range] at hk
    refine ⟨isRead_halfWord, fun _ => ?_⟩
    rw [dumpWord, registerInt_halfWord (by omega)]
    omega
  have hjs := untroubled_run ht hclean
  have hsplit : js ++ [d₁, d₂] = (js ++ [d₁]) ++ [d₂] := by simp
  refine ⟨hregs, ?_, fun ks hks => ?_⟩
  · rw [hsplit, run_concat]
    exact hregs
  · have herr := hjs.errors (i := d₁)
    rw [hsplit, List.prefix_concat_iff, List.prefix_concat_iff] at hks
    rcases hks with rfl | rfl | hks
    · rw [run_concat, run_concat]
      show (State.writeError _ || Reader.readError _) = false
      rw [herr.2.1, herr.2.2]
      rfl
    · rw [run_concat]
      exact herr.1
    · obtain ⟨ls, rfl⟩ := hks
      refine (untroubled_run ht fun w hw => hclean w ?_).configError
      have hcat : fed (ks ++ ls) = fed ks ++ fed ls := List.filterMap_append
      rw [hcat]
      exact List.mem_append_left _ hw

/-- A block of two registers. -/
def pair : State 2 := initial ![0x11112222, 0x33334444]

theorem settings_dump_restore_pair :
    ∃ words : List Word, words.length = 4 ∧
      outputs 0x10 (step 0x10 ⟨0x90FE0000, true⟩ pair) (List.replicate 5 ⟨0, false⟩) =
        words.map some ++ [none] ∧
      ((∀ i ∈ List.replicate 5 (⟨0, false⟩ : Input), NoWrite 0x10 i) →
        ∀ (t : State 2) (js : List Input) (d₁ d₂ : Input), Untroubled 0x10 t → fed js = words →
          (run (step 0x10) t (js ++ [d₁])).configRegistersReg = ![0x11112222, 0x33334444] ∧
            (run (step 0x10) t (js ++ [d₁, d₂])).configRegisters = ![0x11112222, 0x33334444] ∧
            ∀ ks, ks <+: js ++ [d₁, d₂] → (run (step 0x10) t ks).configError = false) :=
  @settings_dump_restore 2 (by decide) (by decide) 0x10 pair ⟨0x90FE0000, true⟩
    (List.replicate 5 ⟨0, false⟩) rfl ⟨by decide, by decide, by decide⟩ rfl rfl

end FpgaEthernet.ConfigRegisterBlock
