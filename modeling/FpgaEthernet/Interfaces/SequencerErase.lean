import FpgaEthernet.Interfaces.SequencerMemories

/-!
# Erasing the sequencer memories

`erase_data` sends a packet of 1600 address and data words into the input
register, which it shares with the words that are received. Edge 0 is the one
that starts it; word `k` goes into the register at edge `k + 2`.

Main results:

* `Timed.step`: the eraser runs through all addresses, whatever is received.
* `erase_clears_iff`: for which schedules of received words the memories are
  empty at the end.
-/

namespace FpgaEthernet.Sequencer

open Clocked EthernetCcdcontrolInterface

/-! ## The order of the addresses -/

/-- The number of addresses that are erased before those of a memory. -/
def Memory.base : Memory → ℕ
  | .program => 0
  | .time => 1024
  | .out => 1280
  | .indFunc => 1536
  | .indRep => 1552
  | .indSubAdd => 1568
  | .indSubRep => 1584

/-- The memory and the address that are erased after `p` others. -/
def slot (p : ℕ) : Memory × ℕ :=
  if p < 1024 then (.program, p)
  else if p < 1280 then (.time, p - 1024)
  else if p < 1536 then (.out, p - 1280)
  else if p < 1552 then (.indFunc, p - 1536)
  else if p < 1568 then (.indRep, p - 1552)
  else if p < 1584 then (.indSubAdd, p - 1568)
  else (.indSubRep, p - 1584)

theorem slot_base {m : Memory} {a : ℕ} (h : a < m.depth) : slot (m.base + a) = (m, a) := by
  generalize hp : m.base + a = p
  unfold slot
  cases m <;> simp only [Memory.depth, Memory.addrWidth, Memory.base] at h hp
  case program => rw [if_pos (by omega), ← hp, Nat.zero_add]
  all_goals
    split_ifs <;> first | omega | (rw [← hp, Nat.add_sub_cancel_left])

theorem slot_spec {p : ℕ} (h : p < 1600) :
    (slot p).2 < (slot p).1.depth ∧ (slot p).1.base + (slot p).2 = p := by
  unfold slot
  split_ifs <;> simp only [Memory.depth, Memory.addrWidth, Memory.base] <;> omega

/-- Word `k` of the packet that erases the memories. -/
def eraseWord (k : ℕ) : Word := if k % 2 = 0 then tag (slot (k / 2)).1 (slot (k / 2)).2 else 0

/-! ## `erase_data` -/

/-- The eraser has sent `k` words of its packet, and not the last one. -/
structure Erasing (m : Memory) (a k : ℕ) (e : EraseState) : Prop where
  doErase : e.doErase = true
  lt : a < m.depth
  position : k / 2 = m.base + a
  blockAddress : e.blockAddress = m.port
  address : e.address = BitVec.ofNat 10 a
  maxAddress : e.maxAddress = BitVec.ofNat 10 (m.depth - 1)
  writeAddress : e.writeAddress = decide (k % 2 = 0)

/-- The registers of the eraser after `k` words. -/
structure Timed (k : ℕ) (e : EraseState) : Prop where
  running : k < 3200 → ∃ m a, Erasing m a k e
  stopped : k = 3200 → e.doErase = false
  valid : k ≤ 3201 → e.dataEraseValid = decide (1 ≤ k ∧ k ≤ 3200)
  word : 1 ≤ k → k ≤ 3200 → e.dataErase = eraseWord (k - 1)
  done : k ≤ 3200 → e.eraseDone = decide (k = 3200)

variable {i : Input} {s : State} {m : Memory} {a k : ℕ}

/-- The first edge. -/
theorem timed_zero (hs : s.erase.doErase = false) (hi : i.eraseSequencer = true) :
    Timed 0 (eraseData i s) := by
  have he : eraseData i s = { s.erase with
      eraseDone := false
      dataEraseValid := false
      doErase := true
      writeAddress := true
      blockAddress := udpPortSeqProgram
      maxAddress := 0b1111111111
      address := 0 } := by
    simp [eraseData, hs, hi]
  rw [he]
  refine ⟨fun _ => ⟨.program, 0, rfl, by decide, rfl, rfl, rfl, rfl, rfl⟩, ?_, ?_, ?_, ?_⟩ <;> simp

/-- An address word. -/
theorem Erasing.address_word (h : Erasing m a k s.erase) (hk : k % 2 = 0) :
    Erasing m a (k + 1) (eraseData i s) ∧ (eraseData i s).dataEraseValid = true ∧
      (eraseData i s).dataErase = eraseWord k ∧ (eraseData i s).eraseDone = false := by
  have hslot : slot (k / 2) = (m, a) := by rw [h.position, slot_base h.lt]
  have hw : s.erase.writeAddress = true := by rw [h.writeAddress, hk]; rfl
  have he : eraseData i s = { s.erase with
      eraseDone := false
      dataEraseValid := true
      dataErase := (s.erase.blockAddress ++ (0 : BitVec 6) ++ s.erase.address : BitVec 32)
      writeAddress := false } := by
    simp [eraseData, h.doErase, hw]
  rw [he]
  refine ⟨⟨h.doErase, h.lt, ?_, h.blockAddress, h.address, h.maxAddress, ?_⟩, rfl, ?_, rfl⟩
  · rw [← h.position]
    omega
  · rw [eq_comm, decide_eq_false_iff_not]
    omega
  · rw [eraseWord, if_pos hk, hslot, tag, ← h.blockAddress, ← h.address]

/-- A data word that is not the last of its memory. -/
theorem Erasing.data_word (h : Erasing m a k s.erase) (hk : k % 2 = 1) (ha : a + 1 < m.depth) :
    Erasing m (a + 1) (k + 1) (eraseData i s) ∧ (eraseData i s).dataEraseValid = true ∧
      (eraseData i s).dataErase = eraseWord k ∧ (eraseData i s).eraseDone = false := by
  have hw : s.erase.writeAddress = false := by rw [h.writeAddress, hk]; rfl
  have hdepth : m.depth ≤ 1024 := by cases m <;> decide
  have hmax : s.erase.address ≠ s.erase.maxAddress := by
    rw [h.address, h.maxAddress]
    intro heq
    have := congrArg BitVec.toNat heq
    rw [BitVec.toNat_ofNat, BitVec.toNat_ofNat, Nat.mod_eq_of_lt (by omega),
      Nat.mod_eq_of_lt (by omega)] at this
    omega
  have he : eraseData i s = { s.erase with
      eraseDone := false
      dataEraseValid := true
      dataErase := 0
      writeAddress := true
      address := s.erase.address + 1 } := by
    simp [eraseData, h.doErase, hw, hmax]
  rw [he]
  refine ⟨⟨h.doErase, ha, ?_, h.blockAddress, ?_, h.maxAddress, ?_⟩, rfl, ?_, rfl⟩
  · have := h.position
    omega
  · show s.erase.address + 1 = _
    rw [h.address]
    exact (BitVec.ofNat_add a 1).symm
  · rw [eq_comm, decide_eq_true_eq]
    omega
  · rw [eraseWord, if_neg (by omega)]

/-- The memory that is erased after this one. -/
def Memory.next : Memory → Memory
  | .program => .time
  | .time => .out
  | .out => .indFunc
  | .indFunc => .indRep
  | .indRep => .indSubAdd
  | .indSubAdd => .indSubRep
  | .indSubRep => .program

theorem next_spec (hm : m ≠ .indSubRep) :
    m.next.base = m.base + m.depth ∧ m.next.port = m.port + 1 ∧
      (if m.port + 1 = udpPortSeqTime ∨ m.port + 1 = udpPortSeqOut then 0b0011111111
        else 0b0000001111) = BitVec.ofNat 10 (m.next.depth - 1) ∧ 0 < m.next.depth := by
  cases m <;> first | exact absurd rfl hm | decide

/-- The last data word of a memory that is not the last one. -/
theorem Erasing.next_memory (h : Erasing m a k s.erase) (hk : k % 2 = 1) (ha : a + 1 = m.depth)
    (hm : m ≠ .indSubRep) :
    (∃ m', Erasing m' 0 (k + 1) (eraseData i s)) ∧ (eraseData i s).dataEraseValid = true ∧
      (eraseData i s).dataErase = eraseWord k ∧ (eraseData i s).eraseDone = false := by
  have hw : s.erase.writeAddress = false := by rw [h.writeAddress, hk]; rfl
  have hmax : s.erase.address = s.erase.maxAddress := by
    rw [h.address, h.maxAddress, ← ha, Nat.add_sub_cancel]
  have hlast : s.erase.blockAddress ≠ udpPortSeqIndSubRep := by
    rw [h.blockAddress]
    cases m <;> first | exact absurd rfl hm | decide
  have he : eraseData i s = { s.erase with
      eraseDone := false
      dataEraseValid := true
      dataErase := 0
      writeAddress := true
      blockAddress := s.erase.blockAddress + 1
      maxAddress :=
        if s.erase.blockAddress + 1 = udpPortSeqTime ∨ s.erase.blockAddress + 1 = udpPortSeqOut
        then 0b0011111111 else 0b0000001111
      address := 0 } := by
    simp [eraseData, h.doErase, hw, hmax, hlast]
  have hpos := h.position
  rw [he]
  obtain ⟨hbase, hport, hlimit, hnext⟩ := next_spec hm
  refine ⟨⟨m.next, h.doErase, hnext, ?_, ?_, rfl, ?_, ?_⟩, rfl, ?_, rfl⟩
  · rw [hbase]
    omega
  · show s.erase.blockAddress + 1 = _
    rw [h.blockAddress, hport]
  · show ite _ _ _ = _
    rw [h.blockAddress, hlimit]
  · rw [eq_comm, decide_eq_true_eq]
    omega
  · rw [eraseWord, if_neg (show ¬k % 2 = 0 by omega)]
/-- The last data word of all. -/
theorem Erasing.last_word (h : Erasing .indSubRep a k s.erase) (hk : k % 2 = 1)
    (ha : a + 1 = Memory.indSubRep.depth) :
    (eraseData i s).doErase = false ∧ (eraseData i s).dataEraseValid = true ∧
      (eraseData i s).dataErase = eraseWord k ∧ (eraseData i s).eraseDone = true := by
  have hw : s.erase.writeAddress = false := by rw [h.writeAddress, hk]; rfl
  have hmax : s.erase.address = s.erase.maxAddress := by
    rw [h.address, h.maxAddress, ← ha, Nat.add_sub_cancel]
  have hlast : s.erase.blockAddress = udpPortSeqIndSubRep := h.blockAddress
  have he : eraseData i s = { s.erase with
      eraseDone := true
      dataEraseValid := true
      dataErase := 0
      writeAddress := true
      doErase := false
      address := 0 } := by
    simp [eraseData, h.doErase, hw, hmax, hlast]
  rw [he]
  exact ⟨rfl, rfl, by rw [eraseWord, if_neg (by omega)], rfl⟩

/-- The eraser goes on whatever is received: it reads nothing but the request
    for the next erase. -/
theorem Timed.step (h : Timed k s.erase) (hk : k ≤ 3200) : Timed (k + 1) (eraseData i s) := by
  rcases Nat.lt_or_ge k 3200 with hlt | hge
  · obtain ⟨m, a, he⟩ := h.running hlt
    have hpos := he.position
    have key : ((k + 1 < 3200 → ∃ m a, Erasing m a (k + 1) (eraseData i s)) ∧
        (k + 1 = 3200 → (eraseData i s).doErase = false)) ∧
        (eraseData i s).dataEraseValid = true ∧ (eraseData i s).dataErase = eraseWord k ∧
        (eraseData i s).eraseDone = decide (k + 1 = 3200) := by
      rcases Nat.mod_two_eq_zero_or_one k with hk2 | hk2
      · obtain ⟨h1, h2, h3, h4⟩ := he.address_word (i := i) hk2
        exact ⟨⟨fun _ => ⟨m, a, h1⟩, by omega⟩, h2, h3, by rw [h4, eq_comm, decide_eq_false]; omega⟩
      · rcases Nat.lt_or_ge (a + 1) m.depth with ha | ha
        · have hsum : m.base + m.depth ≤ 1600 := by cases m <;> decide
          obtain ⟨h1, h2, h3, h4⟩ := he.data_word (i := i) hk2 ha
          exact ⟨⟨fun _ => ⟨m, _, h1⟩, by omega⟩, h2, h3, by
            rw [h4, eq_comm, decide_eq_false]; omega⟩
        · have ha' : a + 1 = m.depth := le_antisymm he.lt ha
          by_cases hm : m = .indSubRep
          · subst hm
            obtain ⟨h1, h2, h3, h4⟩ := he.last_word (i := i) hk2 ha'
            have : Memory.indSubRep.base + Memory.indSubRep.depth = 1600 := by decide
            exact ⟨⟨by omega, fun _ => h1⟩, h2, h3, by rw [h4, eq_comm, decide_eq_true]; omega⟩
          · have hsum : m.base + m.depth < 1600 := by
              cases m <;> first | exact absurd rfl hm | decide
            obtain ⟨⟨m', h1⟩, h2, h3, h4⟩ := he.next_memory (i := i) hk2 ha' hm
            exact ⟨⟨fun _ => ⟨m', 0, h1⟩, by omega⟩, h2, h3, by
              rw [h4, eq_comm, decide_eq_false]; omega⟩
    obtain ⟨⟨h1, h2⟩, h3, h4, h5⟩ := key
    refine ⟨h1, h2, fun _ => ?_, fun _ _ => h4, fun _ => h5⟩
    rw [h3, eq_comm, decide_eq_true_eq]
    omega
  · obtain rfl : k = 3200 := le_antisymm hk hge
    have hdo := h.stopped rfl
    have hv : (eraseData i s).dataEraseValid = false := by
      simp only [eraseData, hdo, Bool.false_eq_true, if_false]
      split_ifs <;> rfl
    refine ⟨by omega, by omega, fun _ => ?_, by omega, by omega⟩
    rw [hv]
    rfl

/-! ## Schedules -/

/-- The ports that are not the sequencer's. The address decoder ignores the upper
    two bits, and takes some of them for sequencer ports all the same. -/
def IsForeign (port : UdpPort) : Prop :=
  port ≠ udpPortSeqSerial ∧ ¬(0x2000 ≤ port.toNat ∧ port.toNat ≤ 0x203F)

instance : DecidablePred IsForeign := fun _ => inferInstanceAs (Decidable (_ ∧ _))

/-- A schedule of received words that does not disturb the erase: none comes when
    a word of the eraser is due, except in the place of a data word a word that
    is taken for one and that is zero as far as the memory goes. No word that is
    taken for a sequencer word comes right before the first one. -/
structure Harmless (x : ℕ → External) : Prop where
  start : (x 1).dataValid = true → ¬IsSeqPort (x 1).dataPort
  words : ∀ k < 3200, (x (k + 2)).dataValid = true →
    k % 2 = 1 ∧ IsSeqPort (x (k + 2)).dataPort ∧
      (x (k + 2)).dataIn.setWidth (slot (k / 2)).1.dataWidth = 0

/-- All entries are zero. -/
def Cleared (c : Contents) : Prop := ∀ m a, c m a = 0

variable {x : ℕ → External} {y : System}

theorem timed_trace (hy : y.ifc.erase.doErase = false) (hx : (x 0).eraseSequencer = true)
    (hk : k ≤ 3201) : Timed k (trace step y x (k + 1)).ifc.erase := by
  induction k with
  | zero =>
    rw [trace_succ, trace_zero]
    exact timed_zero hy hx
  | succ k ih =>
    rw [trace_succ]
    exact (ih (by omega)).step (by omega)

/-- The input register after an edge from 1 on. -/
theorem reg_free (hy : y.ifc.erase.doErase = false) (hx : (x 0).eraseSequencer = true)
    (hk : k ≤ 3201) (hv : (x (k + 1)).dataValid = false) :
    regWord (trace step y x (k + 2)).ifc =
      if 1 ≤ k ∧ k ≤ 3200 then some (udpPortSeqSerial, eraseWord (k - 1)) else none := by
  have ht := timed_trace hy hx hk
  rw [trace_succ]
  split_ifs with hin
  · have hval : (trace step y x (k + 1)).ifc.erase.dataEraseValid = true := by
      rw [ht.valid hk, decide_eq_true hin]
    rw [regWord_step_erase hv hval, ht.word hin.1 hin.2]
  · have hval : (trace step y x (k + 1)).ifc.erase.dataEraseValid = false := by
      rw [ht.valid hk, decide_eq_false hin]
    exact regWord_step_idle hv hval

/-! ## Undisturbed schedules -/

/-- Writing a zero keeps zeros, and adds one. -/
theorem write_zero {c : Contents} {d : Word} (hd : d.setWidth m.dataWidth = 0)
    (m' : Memory) (b : BitVec m'.addrWidth)
    (h : (⟨m', b⟩ : (m : Memory) × BitVec m.addrWidth) ≠ ⟨m, BitVec.ofNat m.addrWidth a⟩ →
      c m' b = 0) : c.write m.port (BitVec.ofNat 10 a) d m' b = 0 := by
  unfold Contents.write
  split_ifs with hp
  · obtain rfl := port_inj hp
    rw [setWidth_ofNat_addr, hd]
    by_cases hb : b = BitVec.ofNat m.addrWidth a
    · rw [hb, Function.update_self]
    · rw [Function.update_of_ne hb]
      exact h fun he => hb (by simpa using he)
  · refine h fun he => hp ?_
    rw [(Sigma.mk.inj_iff.1 he).1]

/-- A packet of zeros for the first `p` addresses. -/
theorem applied_zero {word : ℕ → Word} {c : Contents}
    (haddr : ∀ p < 1600, word (2 * p) = tag (slot p).1 (slot p).2)
    (hdata : ∀ p < 1600, (word (2 * p + 1)).setWidth (slot p).1.dataWidth = 0) {p : ℕ}
    (hp : p ≤ 1600) (m : Memory) (a : ℕ) (ha : a < m.depth) (hlt : m.base + a < p) :
    applied word c p m (BitVec.ofNat m.addrWidth a) = 0 := by
  induction p with
  | zero => omega
  | succ p ih =>
    rw [applied, haddr p hp, hi_tag, low_tag]
    refine write_zero (hdata p hp) m _ fun hne => ih (by omega) (lt_of_le_of_ne (by omega) ?_)
    intro heq
    apply hne
    rw [← heq, slot_base ha]

/-- The words that go into the input register in the place of those of the
    eraser. -/
def received (x : ℕ → External) (k : ℕ) : Word :=
  if (x (k + 2)).dataValid then (x (k + 2)).dataIn else eraseWord k

/-- Under a harmless schedule the words go in without a gap. -/
theorem Harmless.packet (h : Harmless x) (hy : y.ifc.erase.doErase = false)
    (hx : (x 0).eraseSequencer = true) (hk : k ≤ 3200) :
    Packet (received x) (trace step y x 2).settled k (trace step y x (k + 2)) := by
  induction k with
  | zero =>
    refine .start ?_ rfl
    cases hv : (x 1).dataValid with
    | true =>
      rw [trace_succ]
      exact regWord_step_other hv (h.start hv)
    | false =>
      have hreg := reg_free (k := 0) hy hx (by omega) hv
      rwa [if_neg (by omega)] at hreg
  | succ k ih =>
    rw [trace_succ step y x (k + 2)]
    cases hv : (x (k + 2)).dataValid with
    | true =>
      obtain ⟨hodd, hseq, -⟩ := h.words k hk hv
      have hreg : regWord (step (x (k + 2)) (trace step y x (k + 2))).ifc =
          some ((x (k + 2)).dataPort, received x k) := by
        rw [regWord_step_valid hv hseq, received, if_pos hv]
      exact (ih (by omega)).step hreg (by omega)
    | false =>
      have hreg := reg_free (k := k + 1) hy hx (by omega) hv
      rw [if_pos (by omega), trace_succ] at hreg
      have hword : received x k = eraseWord k := by simp [received, hv]
      exact (ih (by omega)).step (hword ▸ hreg) fun _ => rfl

/-- Under a harmless schedule the memories are empty two edges after the last
    word. -/
theorem Harmless.cleared (h : Harmless x) (hy : y.ifc.erase.doErase = false)
    (hx : (x 0).eraseSequencer = true) : Cleared (trace step y x 3204).mem := by
  have hpacket : Packet (received x) (trace step y x 2).settled (2 * 1600) (trace step y x 3202) :=
    h.packet hy hx le_rfl
  have haddr : ∀ p < 1600, received x (2 * p) = tag (slot p).1 (slot p).2 := by
    intro p hp
    have hv : (x (2 * p + 2)).dataValid = false := by
      by_contra hv
      have := (h.words (2 * p) (by omega) (by simpa using hv)).1
      omega
    have hword : received x (2 * p) = eraseWord (2 * p) := by simp [received, hv]
    rw [hword, eraseWord, if_pos (by omega), Nat.mul_div_cancel_left p (by omega)]
  have hdata : ∀ p < 1600, (received x (2 * p + 1)).setWidth (slot p).1.dataWidth = 0 := by
    intro p hp
    unfold received
    split_ifs with hv
    · have := (h.words (2 * p + 1) (by omega) hv).2.2
      rwa [show (2 * p + 1) / 2 = p by omega] at this
    · rw [eraseWord, if_neg (by omega)]
      exact BitVec.setWidth_zero _ _
  intro m a
  rw [trace_succ, trace_succ, hpacket.applied]
  have ha : a.toNat < m.depth := a.isLt
  have hsum : m.base + m.depth ≤ 1600 := by cases m <;> decide
  have := applied_zero haddr hdata le_rfl m a.toNat ha (c := (trace step y x 2).settled) (by omega)
  rwa [BitVec.ofNat_toNat, BitVec.setWidth_eq] at this

/-! ## Disturbed schedules -/

/-- The entry is not zero, and is not the target of the write that is being
    received. -/
structure Spared (m : Memory) (a : BitVec m.addrWidth) (y : System) : Prop where
  ne : y.settled m a ≠ 0
  other : y.ifc.write.isAddress = false → y.ifc.write.seqDestination = m.port →
    y.ifc.write.seqMemWAddWr.setWidth m.addrWidth ≠ a

/-- An address word for the entry. -/
def Names (m : Memory) (a : BitVec m.addrWidth) (port : UdpPort) (w : Word) : Prop :=
  destination port w = m.port ∧ (w.extractLsb' 0 10).setWidth m.addrWidth = a

/-- An entry is spared until an address word for it is taken for one. -/
theorem Spared.step {m : Memory} {a : BitVec m.addrWidth} {x : External} (h : Spared m a y)
    (hr : ∀ port w, regWord y.ifc = some (port, w) → y.ifc.write.isAddress = true →
      ¬Names m a port w) : Spared m a (step x y) := by
  cases hreg : regWord y.ifc with
  | none =>
    obtain ⟨ha, -, hn⟩ := write_none hreg
    refine ⟨?_, fun hf => ?_⟩
    · rw [settled_step_of_noEnable hn]
      exact h.ne
    · rw [step_write, ha] at hf
      cases hf
  | some q =>
    obtain ⟨port, w⟩ := q
    cases ha : y.ifc.write.isAddress with
    | true =>
      obtain ⟨-, hn, hadd, hdest⟩ := write_address hreg ha
      refine ⟨?_, fun _ hd => ?_⟩
      · rw [settled_step_of_noEnable hn]
        exact h.ne
      · rw [step_write, hdest] at hd
        rw [step_write, hadd]
        exact fun hadd' => hr port w hreg ha ⟨hd, hadd'⟩
    | false =>
      obtain ⟨ha', he⟩ := write_data hreg ha
      refine ⟨?_, fun hf => ?_⟩
      · rw [settled_step_of_enabled he, Contents.write]
        split_ifs with hd
        · rw [Function.update_of_ne (h.other ha hd).symm]
          exact h.ne
        · exact h.ne
      · rw [step_write, ha'] at hf
        cases hf

/-- The entry that word `2 * p` of the eraser is for. -/
theorem names_eraseWord {p : ℕ} (hp : p < 1600) (hk : k < 3200)
    (h : Names (slot p).1 (BitVec.ofNat _ (slot p).2) udpPortSeqSerial (eraseWord k)) :
    k = 2 * p := by
  obtain ⟨hdest, haddr⟩ := h
  rw [destination, if_pos rfl] at hdest
  unfold eraseWord at hdest haddr
  split_ifs at hdest haddr with hpar
  · rw [hi_tag] at hdest
    have hm := port_inj hdest
    rw [low_tag] at haddr
    obtain ⟨hlt, hpos⟩ := slot_spec hp
    obtain ⟨hlt', hpos'⟩ := slot_spec (show k / 2 < 1600 by omega)
    rw [setWidth_ofNat_addr, hm] at *
    have := congrArg BitVec.toNat haddr
    unfold Memory.depth at hlt hlt'
    rw [BitVec.toNat_ofNat, BitVec.toNat_ofNat, Nat.mod_eq_of_lt hlt', Nat.mod_eq_of_lt hlt] at this
    omega
  · exfalso
    revert hdest
    cases (slot p).1 <;> decide

theorem IsForeign.ne_port {port : UdpPort} (h : IsForeign port) (m : Memory) : port ≠ m.port := by
  rintro rfl
  revert h
  cases m <;> decide

/-- The eraser is at rest, and no word of a sequencer port is in the input
    register. -/
structure Ready (y : System) : Prop where
  doErase : y.ifc.erase.doErase = false
  valid : y.ifc.erase.dataEraseValid = false
  reg : ∀ port w, regWord y.ifc = some (port, w) → IsForeign port

/-- A sequencer word in the input register is that of the eraser, or has been
    taken for one. -/
theorem Ready.reg_cases (h : Ready y) (hx : (x 0).eraseSequencer = true)
    (hforeign : ∀ n < 3204, (x n).dataValid = true → IsForeign (x n).dataPort) {t : ℕ}
    (ht : t ≤ 3202) {port : UdpPort} {w : Word}
    (hreg : regWord (trace step y x t).ifc = some (port, w)) :
    IsForeign port ∨ port = udpPortSeqSerial ∧
      ∃ k < 3200, t = k + 3 ∧ (x (k + 2)).dataValid = false ∧ w = eraseWord k := by
  cases t with
  | zero => exact .inl (h.reg port w hreg)
  | succ n =>
    cases hv : (x n).dataValid with
    | true =>
      rw [trace_succ] at hreg
      by_cases hseq : IsSeqPort (x n).dataPort
      · rw [regWord_step_valid hv hseq] at hreg
        obtain ⟨rfl, -⟩ : (x n).dataPort = port ∧ (x n).dataIn = w := by simpa using hreg
        exact .inl (hforeign n (by omega) hv)
      · rw [regWord_step_other hv hseq] at hreg
        cases hreg
    | false =>
      cases n with
      | zero =>
        rw [trace_succ, trace_zero, regWord_step_idle hv h.valid] at hreg
        cases hreg
      | succ k =>
        rw [reg_free h.doErase hx (by omega) hv] at hreg
        split_ifs at hreg with hin
        obtain ⟨rfl, rfl⟩ : udpPortSeqSerial = port ∧ eraseWord (k - 1) = w := by simpa using hreg
        refine .inr ⟨rfl, k - 1, by omega, by omega, ?_, rfl⟩
        rwa [show k - 1 + 2 = k + 1 by omega]

/-- An entry stays spared if its address word is not taken for one. -/
theorem Ready.spared (h : Ready y) (hx : (x 0).eraseSequencer = true)
    (hforeign : ∀ n < 3204, (x n).dataValid = true → IsForeign (x n).dataPort) {p t n : ℕ}
    (hp : p < 1600) (htn : t ≤ n) (hn : n ≤ 3203)
    (hs : Spared (slot p).1 (BitVec.ofNat _ (slot p).2) (trace step y x t))
    (hmiss : t ≤ 2 * p + 3 → 2 * p + 3 < n → (x (2 * p + 2)).dataValid = false →
      (trace step y x (2 * p + 3)).ifc.write.isAddress = false) :
    Spared (slot p).1 (BitVec.ofNat _ (slot p).2) (trace step y x n) := by
  induction n, htn using Nat.le_induction with
  | base => exact hs
  | succ n htn ih =>
    rw [trace_succ]
    refine (ih (by omega) fun h1 h2 => hmiss h1 (by omega)).step fun port w hreg ha hnames => ?_
    rcases h.reg_cases hx hforeign (by omega) hreg with hf | ⟨rfl, k, hk, rfl, hv, rfl⟩
    · have hport : destination port w = port := if_neg hf.1
      exact hf.ne_port _ (hport.symm.trans hnames.1)
    · obtain rfl := names_eraseWord hp hk hnames
      rw [hmiss htn (by omega) hv] at ha
      cases ha

/-- A spared entry is not zero at the end. -/
theorem not_cleared {m : Memory} {a : BitVec m.addrWidth} {n : ℕ}
    (h : Spared m a (trace step y x n)) : ¬Cleared (trace step y x (n + 1)).mem := by
  intro hc
  rw [trace_succ, step_mem] at hc
  exact h.ne (hc m a)

/-- A word that comes in the place of an address word. -/
theorem Ready.lost_address (h : Ready y) (hx : (x 0).eraseSequencer = true)
    (hforeign : ∀ n < 3204, (x n).dataValid = true → IsForeign (x n).dataPort) {p : ℕ}
    (hp : p < 1600) (hs : Spared (slot p).1 (BitVec.ofNat _ (slot p).2) y)
    (hv : (x (2 * p + 2)).dataValid = true) : ¬Cleared (trace step y x 3204).mem := by
  refine not_cleared (h.spared hx hforeign hp (Nat.zero_le 3203) le_rfl hs fun _ _ hf => ?_)
  rw [hv] at hf
  cases hf

/-- An address word that is taken for data. -/
theorem Ready.wrong_phase (h : Ready y) (hx : (x 0).eraseSequencer = true)
    (hforeign : ∀ n < 3204, (x n).dataValid = true → IsForeign (x n).dataPort) {p : ℕ}
    (hp : p < 1600) (hs : Spared (slot p).1 (BitVec.ofNat _ (slot p).2) y)
    (ha : (trace step y x (2 * p + 3)).ifc.write.isAddress = false) :
    ¬Cleared (trace step y x 3204).mem :=
  not_cleared (h.spared hx hforeign hp (Nat.zero_le 3203) le_rfl hs fun _ _ _ => ha)

/-- A word that comes in the place of a data word and is not taken for a zero. -/
theorem Ready.lost_data (h : Ready y) (hx : (x 0).eraseSequencer = true)
    (hforeign : ∀ n < 3204, (x n).dataValid = true → IsForeign (x n).dataPort) {p : ℕ}
    (hp : p < 1600) (hs : Spared (slot p).1 (BitVec.ofNat _ (slot p).2) y)
    (hv : (x (2 * p + 3)).dataValid = true)
    (hd : IsSeqPort (x (2 * p + 3)).dataPort →
      (x (2 * p + 3)).dataIn.setWidth (slot p).1.dataWidth ≠ 0) :
    ¬Cleared (trace step y x 3204).mem := by
  cases hva : (x (2 * p + 2)).dataValid with
  | true => exact h.lost_address hx hforeign hp hs hva
  | false =>
  cases ha : (trace step y x (2 * p + 3)).ifc.write.isAddress with
  | false => exact h.wrong_phase hx hforeign hp hs ha
  | true =>
  have hbefore := h.spared hx hforeign hp (Nat.zero_le (2 * p + 3)) (by omega) hs (by omega)
  have hreg : regWord (trace step y x (2 * p + 3)).ifc =
      some (udpPortSeqSerial, tag (slot p).1 (slot p).2) := by
    have := reg_free (k := 2 * p + 1) h.doErase hx (by omega) hva
    rwa [if_pos (by omega), Nat.add_sub_cancel, eraseWord, if_pos (by omega),
      Nat.mul_div_cancel_left p (by omega)] at this
  obtain ⟨ha', hno, hadd, hdest⟩ := write_address hreg ha
  rw [destination, if_pos rfl, hi_tag] at hdest
  rw [low_tag] at hadd
  have hne : (trace step y x (2 * p + 4)).settled (slot p).1 (BitVec.ofNat _ (slot p).2) ≠ 0 := by
    rw [trace_succ, settled_step_of_noEnable hno]
    exact hbefore.ne
  have hafter : Spared (slot p).1 (BitVec.ofNat _ (slot p).2) (trace step y x (2 * p + 5)) := by
    have hw : (trace step y x (2 * p + 4)).ifc.write =
        writeMultiplexer (trace step y x (2 * p + 3)).ifc := by
      rw [trace_succ, step_write]
    rw [← hw] at ha' hadd hdest
    by_cases hseq : IsSeqPort (x (2 * p + 3)).dataPort
    · have hreg' : regWord (trace step y x (2 * p + 4)).ifc =
          some ((x (2 * p + 3)).dataPort, (x (2 * p + 3)).dataIn) := by
        rw [trace_succ]
        exact regWord_step_valid hv hseq
      obtain ⟨ha'', he⟩ := write_data hreg' ha'
      rw [trace_succ]
      refine ⟨?_, fun hf => ?_⟩
      · rw [settled_step_of_enabled he, Contents.write, if_pos hdest, hadd, setWidth_ofNat_addr,
          Function.update_self]
        exact hd hseq
      · rw [step_write, ha''] at hf
        cases hf
    · have hreg' : regWord (trace step y x (2 * p + 4)).ifc = none := by
        rw [trace_succ]
        exact regWord_step_other hv hseq
      obtain ⟨ha'', -, hn⟩ := write_none hreg'
      rw [trace_succ]
      refine ⟨?_, fun hf => ?_⟩
      · rw [settled_step_of_noEnable hn]
        exact hne
      · rw [step_write, ha''] at hf
        cases hf
  exact not_cleared (h.spared hx hforeign hp (show 2 * p + 5 ≤ 3203 by omega) le_rfl hafter
    (by omega))

/-- All bits of the memories set. -/
def filled (s : State) : System := ⟨s, fun _ _ => BitVec.allOnes _, fun _ => 0⟩

theorem spared_filled {s : State} (hn : NoEnable s.write) (ha : s.write.isAddress = true)
    (m : Memory) (a : BitVec m.addrWidth) : Spared m a (filled s) := by
  refine ⟨?_, fun hf => ?_⟩
  · have hset : (filled s).settled = (filled s).mem := clocked_of_noEnable hn
    rw [hset]
    show BitVec.allOnes m.dataWidth ≠ 0
    cases m <;> decide
  · rw [show (filled s).ifc.write.isAddress = true from ha] at hf
    cases hf

/-- The registers after a word on a port that only the decoder takes for a
    sequencer port. -/
def aliased : State := { initial with dataValidReg := true, dataPortReg := 0x6000 }

theorem noEnable_initial : NoEnable initial.write := fun m => by cases m <;> rfl

theorem ready_initial : Ready (filled initial) := ⟨rfl, rfl, fun _ _ h => by cases h⟩

theorem ready_aliased : Ready (filled aliased) := by
  refine ⟨rfl, rfl, fun port w h => ?_⟩
  obtain ⟨-, rfl, -⟩ := of_regWord h
  decide

/-- A sequencer word right before the first word of the eraser shifts the phase,
    for one of the two states before. -/
theorem wrong_phase_of_start (hv : (x 1).dataValid = true) (hseq : IsSeqPort (x 1).dataPort) :
    ∃ s, Ready (filled s) ∧ NoEnable s.write ∧ s.write.isAddress = true ∧
      (trace step (filled s) x 3).ifc.write.isAddress = false := by
  have hlast : ∀ y : System, (trace step y x 2).ifc.write.isAddress = true →
      (trace step y x 3).ifc.write.isAddress = false := by
    intro y ha
    have hreg : regWord (trace step y x 2).ifc = some ((x 1).dataPort, (x 1).dataIn) := by
      rw [trace_succ]
      exact regWord_step_valid hv hseq
    rw [trace_succ, step_write]
    exact (write_address hreg ha).1
  by_cases h0 : (x 0).dataValid = true ∧ IsSeqPort (x 0).dataPort
  · refine ⟨aliased, ready_aliased, noEnable_initial, rfl, hlast _ ?_⟩
    have hreg₀ : regWord aliased = some (0x6000, 0) := rfl
    have ha : (trace step (filled aliased) x 1).ifc.write.isAddress = false :=
      (write_address hreg₀ rfl).1
    have hreg : regWord (trace step (filled aliased) x 1).ifc =
        some ((x 0).dataPort, (x 0).dataIn) := by
      rw [trace_succ]
      exact regWord_step_valid h0.1 h0.2
    rw [trace_succ, step_write]
    exact (write_data hreg ha).1
  · refine ⟨initial, ready_initial, noEnable_initial, rfl, hlast _ ?_⟩
    have hreg : regWord (trace step (filled initial) x 1).ifc = none := by
      rw [trace_succ]
      cases hv0 : (x 0).dataValid with
      | true => exact regWord_step_other hv0 fun h => h0 ⟨hv0, h⟩
      | false => exact regWord_step_idle hv0 rfl
    rw [trace_succ, step_write]
    exact (write_none hreg).1

/-- After 3201 edges `erase_done` is raised. Two cycles later, at the edge that
    ends the last write pulse, the memories are empty whatever they held, exactly
    if the schedule of received words is harmless. -/
theorem erase_clears_iff {x : ℕ → External} (hx : (x 0).eraseSequencer = true)
    (hforeign : ∀ n < 3204, (x n).dataValid = true → IsForeign (x n).dataPort) :
    (∀ y : System, y.ifc.erase.doErase = false → ∀ n, 1 ≤ n → n ≤ 3201 →
      (trace step y x n).ifc.erase.eraseDone = decide (n = 3201)) ∧
    ((∀ y : System, y.ifc.erase.doErase = false → Cleared (trace step y x 3204).mem) ↔
      Harmless x) := by
  constructor
  · intro y hy n h1 hn
    obtain ⟨k, rfl⟩ := Nat.exists_eq_add_of_le' h1
    rw [(timed_trace hy hx (by omega)).done (by omega), decide_eq_decide]
    omega
  constructor
  · intro hall
    have hspared := spared_filled noEnable_initial rfl
    have hclear := hall (filled initial) rfl
    constructor
    · intro hv hseq
      obtain ⟨s, hready, hno, ha, hphase⟩ := wrong_phase_of_start hv hseq
      exact hready.wrong_phase hx hforeign (p := 0) (by decide) (spared_filled hno ha _ _) hphase
        (hall (filled s) hready.doErase)
    · intro k hk hv
      rcases Nat.even_or_odd' k with ⟨p, rfl | rfl⟩
      · exact absurd hclear (ready_initial.lost_address hx hforeign (by omega) (hspared _ _) hv)
      · by_contra hbad
        refine ready_initial.lost_data hx hforeign (p := p) (by omega) (hspared _ _) hv ?_ hclear
        intro hseq hd
        refine hbad ⟨by omega, hseq, ?_⟩
        rwa [show (2 * p + 1) / 2 = p by omega]
  · intro h y hy
    exact h.cleared hy hx

/-- The start of an erase with nothing received. -/
def quietErase : ℕ → External := fun n => ⟨0, 0, false, false, 0, decide (n = 0), 0, 0⟩

theorem erase_clears_iff_quietErase :
    (∀ y : System, y.ifc.erase.doErase = false → ∀ n, 1 ≤ n → n ≤ 3201 →
      (trace step y quietErase n).ifc.erase.eraseDone = decide (n = 3201)) ∧
    ((∀ y : System, y.ifc.erase.doErase = false → Cleared (trace step y quietErase 3204).mem) ↔
      Harmless quietErase) :=
  erase_clears_iff rfl fun _ _ h => by cases h

/-- The same with one command word received at edge 2. -/
def commandDuringErase : ℕ → External := fun n =>
  ⟨0x00535453, 0x3000, decide (n = 2), false, 0, decide (n = 0), 0, 0⟩

theorem not_cleared_commandDuringErase :
    (filled initial).ifc.erase.doErase = false ∧ (commandDuringErase 0).eraseSequencer = true ∧
      (∀ n, (commandDuringErase n).dataValid = true → IsForeign (commandDuringErase n).dataPort) ∧
      ¬Cleared (trace step (filled initial) commandDuringErase 3204).mem := by
  have hforeign : ∀ n, IsForeign (commandDuringErase n).dataPort := fun _ =>
    show IsForeign 0x3000 by decide
  refine ⟨rfl, rfl, fun n _ => hforeign n, ?_⟩
  exact ready_initial.lost_address (p := 0) rfl (fun n _ _ => hforeign n) (by decide)
    (spared_filled noEnable_initial rfl _ _) rfl

end FpgaEthernet.Sequencer
