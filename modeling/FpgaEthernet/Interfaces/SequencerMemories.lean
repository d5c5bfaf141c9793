import FpgaEthernet.Interfaces.EthernetCcdcontrolInterface

/-!
# The sequencer memories

`ethernet_ccdcontrol_interface` with the seven memories of the sequencer on its
ports. A memory is synchronous: at an edge it takes the word on the data bus if
its write enable is high, and its read port shows the contents of the address
that was on the address bus. All memories share the two buses and use the lower
bits of them.

Main results:

* `Packet.step`: what the registers and the memories hold after `k` words of a
  packet of address and data words without a gap.
* `Packet.applied`: two edges after the last word all its writes are done.
-/

namespace FpgaEthernet.Sequencer

open Clocked EthernetCcdcontrolInterface

/-! ## Model -/

/-- The memories of the sequencer. -/
inductive Memory
  | program
  | time
  | out
  | indFunc
  | indRep
  | indSubAdd
  | indSubRep
  deriving DecidableEq

namespace Memory

/-- The width of an address: the last addresses are those that
    `read_multiplexer` and `erase_data` go up to. -/
def addrWidth : Memory → ℕ
  | program => 10
  | time => 8
  | out => 8
  | indFunc => 4
  | indRep => 4
  | indSubAdd => 4
  | indSubRep => 4

/-- The width of an entry (`ethernet_ccdcontrol_interface.vhd` lines 93-99). -/
def dataWidth : Memory → ℕ
  | program => 32
  | time => 16
  | out => 32
  | indFunc => 4
  | indRep => 24
  | indSubAdd => 10
  | indSubRep => 16

/-- The port that stands for the memory. -/
def port : Memory → UdpPort
  | program => udpPortSeqProgram
  | time => udpPortSeqTime
  | out => udpPortSeqOut
  | indFunc => udpPortSeqIndFunc
  | indRep => udpPortSeqIndRep
  | indSubAdd => udpPortSeqIndSubAdd
  | indSubRep => udpPortSeqIndSubRep

/-- The bit of `read_triggers` that asks for the memory. -/
def trigger : Memory → ℕ
  | program => 0
  | time => 1
  | out => 2
  | indFunc => 3
  | indRep => 4
  | indSubAdd => 5
  | indSubRep => 6

/-- The write enable of the memory. -/
def we (w : WriteState) : Memory → Bool
  | program => w.programMemWe
  | time => w.timeMemWEn
  | out => w.outMemWEn
  | indFunc => w.indFuncMemWe
  | indRep => w.indRepMemWe
  | indSubAdd => w.indSubAddMemWe
  | indSubRep => w.indSubRepMemWe

/-- The number of entries. -/
def depth (m : Memory) : ℕ := 2 ^ m.addrWidth

/-- The `read_triggers` that ask for this memory alone. -/
def triggers (m : Memory) : BitVec 16 := 1#16 <<< m.trigger

end Memory

/-- The contents of the memories. -/
abbrev Contents := (m : Memory) → BitVec m.addrWidth → BitVec m.dataWidth

/-- The input ports apart from the read ports of the memories. -/
structure External where
  dataIn : Word
  dataPort : UdpPort
  dataValid : Bool
  udpReady : Bool
  readTriggers : BitVec 16
  eraseSequencer : Bool
  reg32bCabacspiReadOnly : Word
  reg96bCrocspiReadOnly : BitVec 96
  deriving DecidableEq

/-- The interface, the memories and their registered read ports. -/
structure System where
  ifc : State
  mem : Contents
  redbk : (m : Memory) → BitVec m.dataWidth

/-- What the interface sees at an edge. -/
def System.inputs (x : External) (y : System) : Input where
  dataIn := x.dataIn
  dataPort := x.dataPort
  dataValid := x.dataValid
  udpReady := x.udpReady
  readTriggers := x.readTriggers
  eraseSequencer := x.eraseSequencer
  progMemRedbk := y.redbk .program
  timeMemReadbk := y.redbk .time
  outMemReadbk := y.redbk .out
  indFuncMemRedbk := y.redbk .indFunc
  indRepMemRedbk := y.redbk .indRep
  indSubAddMemRedbk := y.redbk .indSubAdd
  indSubRepMemRedbk := y.redbk .indSubRep
  reg32bCabacspiReadOnly := x.reg32bCabacspiReadOnly
  reg96bCrocspiReadOnly := x.reg96bCrocspiReadOnly

/-- The contents after an edge. -/
def Contents.clocked (c : Contents) (s : State) : Contents := fun m =>
  if m.we s.write then
    Function.update (c m) ((seqMemWAdd s).setWidth m.addrWidth)
      (s.write.seqMemDataIn.setWidth m.dataWidth)
  else c m

/-- One edge of `clock`. Writes are only enabled in write mode, when nothing is
    read, so that it does not matter what a memory shows of an address that is
    written at the same edge. -/
def step (x : External) (y : System) : System where
  ifc := EthernetCcdcontrolInterface.step (y.inputs x) y.ifc
  mem := y.mem.clocked y.ifc
  redbk := fun m => y.mem m ((seqMemWAdd y.ifc).setWidth m.addrWidth)

/-! ## Tags -/

/-- A tag: the address word for an entry of a memory. -/
def tag (m : Memory) (a : ℕ) : Word := (m.port ++ (0 : BitVec 6) ++ BitVec.ofNat 10 a : BitVec 32)

theorem hi_tag (m : Memory) (a : ℕ) : hi (tag m a) = m.port := by
  have h : tag m a = m.port ++ ((0 : BitVec 6) ++ BitVec.ofNat 10 a : BitVec 16) := by
    rw [tag]
    exact BitVec.append_assoc
  rw [h, hi_append]

theorem low_tag (m : Memory) (a : ℕ) : (tag m a).extractLsb' 0 10 = BitVec.ofNat 10 a :=
  BitVec.extractLsb'_append_eq_right

theorem port_inj {m m' : Memory} (h : m.port = m'.port) : m = m' := by
  revert h
  cases m <;> cases m' <;> decide

theorem setWidth_ofNat_addr (m : Memory) (a : ℕ) :
    (BitVec.ofNat 10 a).setWidth m.addrWidth = BitVec.ofNat m.addrWidth a := by
  have hle : m.addrWidth ≤ 10 := by cases m <;> decide
  apply BitVec.eq_of_toNat_eq
  rw [BitVec.toNat_setWidth, BitVec.toNat_ofNat, BitVec.toNat_ofNat,
    Nat.mod_mod_of_dvd _ (Nat.pow_dvd_pow 2 hle)]

/-! ## `write_multiplexer` -/

/-- The word for the sequencer in the input register. -/
def regWord (s : State) : Option (UdpPort × Word) :=
  if s.dataValidReg = true ∧ IsSeqPort s.dataPortReg then some (s.dataPortReg, s.dataInReg)
  else none

/-- No write is enabled. -/
def NoEnable (w : WriteState) : Prop := ∀ m : Memory, m.we w = false

/-- A write is under way: to the memory that `port` stands for, if it stands for
    one. -/
structure Enabled (port : UdpPort) (a : BitVec 10) (d : Word) (w : WriteState) : Prop where
  mode : w.isWriteMode = true
  we : ∀ m : Memory, m.we w = decide (port = m.port)
  address : w.seqMemWAddWr = a
  data : w.seqMemDataIn = d

/-- The contents after a write. -/
def Contents.write (c : Contents) (port : UdpPort) (a : BitVec 10) (d : Word) : Contents := fun m =>
  if port = m.port then
    Function.update (c m) (a.setWidth m.addrWidth) (d.setWidth m.dataWidth)
  else c m

variable {x : External} {y : System} {s : State} {c : Contents}

theorem clocked_of_noEnable (h : NoEnable s.write) : c.clocked s = c := by
  funext m
  simp [Contents.clocked, h m]

theorem clocked_of_enabled {port : UdpPort} {a : BitVec 10} {d : Word}
    (h : Enabled port a d s.write) : c.clocked s = c.write port a d := by
  funext m
  have ha : seqMemWAdd s = a := by simp [seqMemWAdd, h.mode, h.address]
  simp only [Contents.clocked, Contents.write, h.we m, ha, h.data, decide_eq_true_eq]

/-- Without a word for the sequencer the next word will be an address. -/
theorem write_none (h : regWord s = none) :
    (writeMultiplexer s).isAddress = true ∧ (writeMultiplexer s).isWriteMode = false ∧
      NoEnable (writeMultiplexer s) := by
  have hn : ¬(s.dataValidReg = true ∧ IsSeqPort s.dataPortReg) := by
    intro hp
    simp [regWord, hp.1, hp.2] at h
  refine ⟨?_, ?_, fun m => ?_⟩
  · rw [writeMultiplexer, if_neg hn]
  · rw [writeMultiplexer, if_neg hn]
  · rw [writeMultiplexer, if_neg hn]
    cases m <;> rfl

theorem of_regWord {port : UdpPort} {w : Word} (h : regWord s = some (port, w)) :
    (s.dataValidReg = true ∧ IsSeqPort s.dataPortReg) ∧ s.dataPortReg = port ∧
      s.dataInReg = w := by
  unfold regWord at h
  split_ifs at h with hp
  exact ⟨hp, by simpa using h⟩

/-- The memory an address word names: on the serial port its upper half does,
    elsewhere the port. -/
def destination (port : UdpPort) (w : Word) : UdpPort :=
  if port = udpPortSeqSerial then hi w else port

theorem write_address {port : UdpPort} {w : Word} (h : regWord s = some (port, w))
    (ha : s.write.isAddress = true) :
    (writeMultiplexer s).isAddress = false ∧ NoEnable (writeMultiplexer s) ∧
      (writeMultiplexer s).seqMemWAddWr = w.extractLsb' 0 10 ∧
      (writeMultiplexer s).seqDestination = destination port w := by
  obtain ⟨hp, rfl, rfl⟩ := of_regWord h
  have hw : writeMultiplexer s = { s.write with
      isWriteMode := true
      isAddress := false
      seqMemWAddWr := s.dataInReg.extractLsb' 0 10
      seqDestination := destination s.dataPortReg s.dataInReg
      programMemWe := false
      timeMemWEn := false
      outMemWEn := false
      indFuncMemWe := false
      indRepMemWe := false
      indSubAddMemWe := false
      indSubRepMemWe := false
      opCodeErrorReset := true } := by
    rw [writeMultiplexer, if_pos hp]
    simp only [ha, if_true]
    rfl
  rw [hw]
  exact ⟨rfl, fun m => by cases m <;> rfl, rfl, rfl⟩

theorem write_data {port : UdpPort} {w : Word} (h : regWord s = some (port, w))
    (ha : s.write.isAddress = false) :
    (writeMultiplexer s).isAddress = true ∧
      Enabled s.write.seqDestination s.write.seqMemWAddWr w (writeMultiplexer s) := by
  obtain ⟨hp, -, rfl⟩ := of_regWord h
  simp only [writeMultiplexer, if_pos hp, ha, Bool.false_eq_true, if_false]
  generalize s.write.seqDestination = q
  split_ifs with h1 h2 h3 h4 h5 h6 h7
  all_goals
    refine ⟨rfl, rfl, fun m => ?_, rfl, rfl⟩
    cases m <;> simp_all [Memory.we, Memory.port, udpPortSeqProgram, udpPortSeqTime,
      udpPortSeqOut, udpPortSeqIndFunc, udpPortSeqIndRep, udpPortSeqIndSubAdd, udpPortSeqIndSubRep]

/-! ## The input register -/

/-- A valid word for the sequencer. -/
theorem regWord_step_valid (hv : x.dataValid = true) (hp : IsSeqPort x.dataPort) :
    regWord (step x y).ifc = some (x.dataPort, x.dataIn) := by
  simp [step, EthernetCcdcontrolInterface.step, dataRegister, System.inputs, regWord, hv, hp]

/-- A valid word for someone else. -/
theorem regWord_step_other (hv : x.dataValid = true) (hp : ¬IsSeqPort x.dataPort) :
    regWord (step x y).ifc = none := by
  simp [step, EthernetCcdcontrolInterface.step, dataRegister, System.inputs, regWord, hv, hp]

/-- A word of the eraser goes in when no valid word comes. -/
theorem regWord_step_erase (hv : x.dataValid = false) (he : y.ifc.erase.dataEraseValid = true) :
    regWord (step x y).ifc = some (udpPortSeqSerial, y.ifc.erase.dataErase) := by
  simp [step, EthernetCcdcontrolInterface.step, dataRegister, System.inputs, regWord, hv, he,
    IsSeqPort]

theorem regWord_step_idle (hv : x.dataValid = false) (he : y.ifc.erase.dataEraseValid = false) :
    regWord (step x y).ifc = none := by
  simp [step, EthernetCcdcontrolInterface.step, dataRegister, System.inputs, regWord, hv, he]

/-! ## Packets -/

/-- The contents once the write that is under way is done. -/
def System.settled (y : System) : Contents := y.mem.clocked y.ifc

theorem step_mem : (step x y).mem = y.settled := rfl

theorem step_write : (step x y).ifc.write = writeMultiplexer y.ifc := rfl

theorem settled_step_of_noEnable (h : NoEnable (writeMultiplexer y.ifc)) :
    (step x y).settled = y.settled :=
  clocked_of_noEnable h

theorem settled_step_of_enabled {port : UdpPort} {a : BitVec 10} {d : Word}
    (h : Enabled port a d (writeMultiplexer y.ifc)) :
    (step x y).settled = y.settled.write port a d :=
  clocked_of_enabled h

/-- The contents after the first `p` pairs of an address word and a data word. -/
def applied (word : ℕ → Word) (c : Contents) : ℕ → Contents
  | 0 => c
  | p + 1 =>
    (applied word c p).write (hi (word (2 * p))) ((word (2 * p)).extractLsb' 0 10)
      (word (2 * p + 1))

/-- The first `k` words of a packet have come in without a gap, and found the
    memories with contents `c`. The address words come on the serial port. -/
inductive Packet (word : ℕ → Word) (c : Contents) : ℕ → System → Prop
  | start {y : System} : regWord y.ifc = none → y.settled = c → Packet word c 0 y
  | address {y : System} (p : ℕ) :
      regWord y.ifc = some (udpPortSeqSerial, word (2 * p)) → y.ifc.write.isAddress = true →
      y.settled = applied word c p → Packet word c (2 * p + 1) y
  | data {y : System} (p : ℕ) (port : UdpPort) :
      regWord y.ifc = some (port, word (2 * p + 1)) → y.ifc.write.isAddress = false →
      y.ifc.write.seqMemWAddWr = (word (2 * p)).extractLsb' 0 10 →
      y.ifc.write.seqDestination = hi (word (2 * p)) →
      y.settled = applied word c p → Packet word c (2 * p + 2) y

variable {word : ℕ → Word} {k : ℕ}

/-- The next word of the packet. -/
theorem Packet.step (h : Packet word c k y) {port : UdpPort}
    (hw : regWord (step x y).ifc = some (port, word k))
    (hport : k % 2 = 0 → port = udpPortSeqSerial) : Packet word c (k + 1) (step x y) := by
  cases h with
  | start hr hc =>
    obtain ⟨ha, -, hn⟩ := write_none hr
    obtain rfl := hport rfl
    exact .address 0 hw ha ((settled_step_of_noEnable hn).trans hc)
  | address p hr ha hc =>
    obtain ⟨ha', hn, hadd, hdest⟩ := write_address hr ha
    exact .data p port hw ha' hadd hdest ((settled_step_of_noEnable hn).trans hc)
  | data p q hr ha hadd hdest hc =>
    obtain ⟨ha', he⟩ := write_data hr ha
    obtain rfl := hport (by omega)
    refine .address (p + 1) hw ha' ?_
    rw [settled_step_of_enabled he, hc, hadd, hdest]
    rfl

/-- Two edges after the last word of a packet of `p` pairs all of them have been
    written, whatever comes next. -/
theorem Packet.applied {p : ℕ} (h : Packet word c (2 * p) y) (x₁ x₂ : External) :
    (Sequencer.step x₂ (Sequencer.step x₁ y)).mem = Sequencer.applied word c p := by
  rw [step_mem]
  generalize hk : 2 * p = k at h
  cases h with
  | start hr hc =>
    obtain rfl : p = 0 := by omega
    rw [settled_step_of_noEnable (write_none hr).2.2, hc]
    rfl
  | address q => omega
  | data q port hr ha hadd hdest hc =>
    obtain rfl : p = q + 1 := by omega
    rw [settled_step_of_enabled (write_data hr ha).2, hc, hadd, hdest]
    rfl

/-- A memory that no address word of the packet names is not written. -/
theorem applied_of_ne {m : Memory} {p : ℕ} (h : ∀ q < p, hi (word (2 * q)) ≠ m.port) :
    Sequencer.applied word c p m = c m := by
  induction p with
  | zero => rfl
  | succ p ih =>
    rw [Sequencer.applied, Contents.write, if_neg (h p (by omega)),
      ih fun q hq => h q (by omega)]

end FpgaEthernet.Sequencer
