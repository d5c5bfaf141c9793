import FpgaEthernet.Interfaces.SequencerMemories

/-!
# Reading the sequencer memories back

`read_multiplexer` with the memories on its ports, while words for the sequencer
may be received at any time. A write takes the address bus and stops the reader
wherever it is.

Main results:

* `Stage.step`: what an edge does to a reader in the middle of a memory.
* `readback_run`: the words that have been sent, and where the data words come
  from, at every moment of a readback.
* `readback_words`: as long as no write stops the reader between the address and
  the data word of a pair, every data word is what its address held at some
  moment of the readback before.
-/

namespace FpgaEthernet.Sequencer

open Clocked EthernetCcdcontrolInterface

/-- What the reader puts on the bus at an edge: port and data. -/
def sent (x : External) (y : System) : List (UdpPort × Word) :=
  let r := (step x y).ifc.read
  if r.dataOutValid then [(r.dataOutPort, r.dataOut)] else []

/-- The edges that a readback can use: the line has been granted, and no write
    is going on. -/
def free (_ : External) (y : System) : List Unit :=
  if y.ifc.write.isWriteMode = false ∧ y.ifc.read.nextReadState ≠ .txReqWait then [()] else []

/-- No write stops the reader between the words of a pair, and no other readback
    is asked for when this one is over. -/
def Clean (x : External) (y : System) : Prop :=
  (y.ifc.write.isWriteMode = true → y.ifc.read.nextReadState ≠ .readData) ∧
    ¬Starts (y.inputs x) y.ifc

instance (x : External) (y : System) : Decidable (Clean x y) :=
  inferInstanceAs (Decidable (_ ∧ _))

/-! ## One edge -/

/-- The reader is at address `a` of the memory `m`. -/
structure Asked (m : Memory) (a : ℕ) (r : ReadState) : Prop where
  triggers : r.readTriggersMem = m.triggers
  port : r.readMemPort = m.port
  maxAddress : r.maxAddress = BitVec.ofNat 10 (m.depth - 1)
  address : r.address = BitVec.ofNat 10 a
  bus : r.seqMemWAddRd = r.address

/-- The reader has sent `n` words of the memory `m`. -/
inductive Stage (m : Memory) : ℕ → ReadState → Prop
  | waiting {r : ReadState} : Asked m 0 r → r.nextReadState = .txReqWait → Stage m 0 r
  | address {r : ReadState} (a : ℕ) :
      a < m.depth → Asked m a r → r.nextReadState = .readAddr → Stage m (2 * a) r
  | data {r : ReadState} (a : ℕ) :
      a < m.depth → Asked m a r → r.nextReadState = .readData → Stage m (2 * a + 1) r
  | done {r : ReadState} : r.nextReadState = .idle → Stage m (2 * m.depth) r

/-- Word `n` of a readback, if the data word of its pair is `d`. -/
def pairWord (m : Memory) (n : ℕ) (d : BitVec m.dataWidth) : UdpPort × Word :=
  (udpPortSeqSerial, if n % 2 = 0 then tag m (n / 2) else d.setWidth 32)

variable {m : Memory} {n : ℕ} {x : External} {y : System}

/-- The request for a memory. -/
theorem stage_trigger (hs : y.ifc.read.nextReadState = .idle)
    (hw : y.ifc.write.isWriteMode = false) (ht : x.readTriggers = m.triggers) :
    Stage m 0 (step x y).ifc.read := by
  have hne : m.triggers.extractLsb' 0 9 ≠ 0 := by cases m <;> decide
  have hr : (step x y).ifc.read = readMultiplexer (y.inputs x) y.ifc := rfl
  have hread : readMultiplexer (y.inputs x) y.ifc = { y.ifc.read with
      txReq := true
      txBusy := false
      dataOutValid := false
      readDone := false
      maxAddress := (readTarget m.triggers).2
      readTriggersMem := m.triggers
      readMemPort := (readTarget m.triggers).1
      nextReadState := .txReqWait
      address := 0
      seqMemWAddRd := 0 } := by
    simp only [readMultiplexer, hw, Bool.false_eq_true, if_false, readCase, hs, System.inputs, ht,
      if_pos hne]
  rw [hr, hread]
  refine .waiting ⟨rfl, ?_, ?_, rfl, rfl⟩ rfl
  · cases m <;> rfl
  · cases m <;> rfl

/-- A write stops the reader. -/
theorem step_stopped (hw : y.ifc.write.isWriteMode = true) :
    sent x y = [] ∧ (∀ n, Stage m n y.ifc.read → Stage m n (step x y).ifc.read) := by
  have hr : (step x y).ifc.read = { y.ifc.read with
      txReq := false
      txBusy := false
      dataOutValid := false
      readDone := false
      seqMemWAddRd := y.ifc.read.address } := by
    simp [step, EthernetCcdcontrolInterface.step, readMultiplexer, hw]
  refine ⟨by simp [sent, hr], fun n h => ?_⟩
  rw [hr]
  cases h with
  | waiting h hs => exact .waiting ⟨h.triggers, h.port, h.maxAddress, h.address, rfl⟩ hs
  | address a ha h hs => exact .address a ha ⟨h.triggers, h.port, h.maxAddress, h.address, rfl⟩ hs
  | data a ha h hs => exact .data a ha ⟨h.triggers, h.port, h.maxAddress, h.address, rfl⟩ hs
  | done hs => exact .done hs

/-- The read port that is forwarded is that of the memory. -/
theorem readback_eq {r : ReadState} (h : r.readTriggersMem = m.triggers) :
    readback (y.inputs x) r = (y.redbk m).setWidth 32 := by
  unfold readback
  rw [h]
  cases m with
  | program => exact (BitVec.setWidth_eq _).symm
  | out => exact (BitVec.setWidth_eq _).symm
  | _ => rfl

/-- The reader waits for `udp_ready`. -/
theorem Asked.wait (h : Asked m 0 y.ifc.read) (hs : y.ifc.read.nextReadState = .txReqWait)
    (hw : y.ifc.write.isWriteMode = false) :
    sent x y = [] ∧ Asked m 0 (step x y).ifc.read ∧
      (step x y).ifc.read.nextReadState = if x.udpReady then .readAddr else .txReqWait := by
  have h7 : y.ifc.read.readTriggersMem.getLsbD 7 = false := by rw [h.triggers]; cases m <;> rfl
  have h8 : y.ifc.read.readTriggersMem.getLsbD 8 = false := by rw [h.triggers]; cases m <;> rfl
  have hr : (step x y).ifc.read = { y.ifc.read with
      txReq := true
      txBusy := false
      dataOutValid := false
      readDone := false
      nextReadState := if x.udpReady then .readAddr else .txReqWait
      seqMemWAddRd := y.ifc.read.address } := by
    have hd : (step x y).ifc.read = readMultiplexer (y.inputs x) y.ifc := rfl
    rw [hd]
    simp only [readMultiplexer, hw, readCase, hs, System.inputs, h7, h8]
    cases x.udpReady <;> rfl
  refine ⟨by simp [sent, hr], ?_, by rw [hr]⟩
  rw [hr]
  exact ⟨h.triggers, h.port, h.maxAddress, h.address, rfl⟩

/-- An address word is sent. -/
theorem Asked.sendAddress {a : ℕ} (h : Asked m a y.ifc.read)
    (hs : y.ifc.read.nextReadState = .readAddr) (hw : y.ifc.write.isWriteMode = false) :
    sent x y = [(udpPortSeqSerial, tag m a)] ∧ Asked m a (step x y).ifc.read ∧
      (step x y).ifc.read.nextReadState = .readData := by
  have hr : (step x y).ifc.read = { y.ifc.read with
      txReq := false
      txBusy := true
      dataOutValid := true
      readDone := false
      dataOut := tag m a
      dataOutPort := udpPortSeqSerial
      nextReadState := .readData
      seqMemWAddRd := y.ifc.read.address } := by
    have hd : (step x y).ifc.read = readMultiplexer (y.inputs x) y.ifc := rfl
    rw [hd]
    simp only [readMultiplexer, hw, readCase, hs, ReadState.send, h.port, h.address, tag]
    rfl
  refine ⟨by simp [sent, hr], ?_, by rw [hr]⟩
  rw [hr]
  exact ⟨h.triggers, h.port, h.maxAddress, h.address, rfl⟩

theorem depth_le (m : Memory) : m.depth ≤ 1024 := by cases m <;> decide

/-- A data word is sent: what the memory shows. -/
theorem Asked.sendData {a : ℕ} (h : Asked m a y.ifc.read) (ha : a < m.depth)
    (hs : y.ifc.read.nextReadState = .readData) (hw : y.ifc.write.isWriteMode = false) :
    sent x y = [(udpPortSeqSerial, (y.redbk m).setWidth 32)] ∧
      Stage m (2 * a + 2) (step x y).ifc.read := by
  have hd : (step x y).ifc.read = readMultiplexer (y.inputs x) y.ifc := rfl
  have hdepth := depth_le m
  have hback := readback_eq (x := x) (y := y) h.triggers
  by_cases hlast : a + 1 = m.depth
  · have hmax : y.ifc.read.address = y.ifc.read.maxAddress := by
      rw [h.address, h.maxAddress, ← hlast, Nat.add_sub_cancel]
    have hr : (step x y).ifc.read = { y.ifc.read with
        txReq := false
        txBusy := true
        dataOutValid := true
        readDone := true
        dataOut := (y.redbk m).setWidth 32
        dataOutPort := udpPortSeqSerial
        nextReadState := .idle
        seqMemWAddRd := y.ifc.read.address } := by
      rw [hd]
      simp only [readMultiplexer, hw, readCase, hs, ReadState.send, hback, if_pos hmax]
      rfl
    refine ⟨by simp [sent, hr], ?_⟩
    rw [hr, show 2 * a + 2 = 2 * m.depth by omega]
    exact .done rfl
  · have hmax : y.ifc.read.address ≠ y.ifc.read.maxAddress := by
      rw [h.address, h.maxAddress]
      intro heq
      have := congrArg BitVec.toNat heq
      rw [BitVec.toNat_ofNat, BitVec.toNat_ofNat, Nat.mod_eq_of_lt (by omega),
        Nat.mod_eq_of_lt (by omega)] at this
      omega
    have hr : (step x y).ifc.read = { y.ifc.read with
        txReq := false
        txBusy := true
        dataOutValid := true
        readDone := false
        dataOut := (y.redbk m).setWidth 32
        dataOutPort := udpPortSeqSerial
        nextReadState := .readAddr
        address := y.ifc.read.address + 1
        seqMemWAddRd := y.ifc.read.address + 1 } := by
      rw [hd]
      simp only [readMultiplexer, hw, readCase, hs, ReadState.send, hback, if_neg hmax]
      rfl
    refine ⟨by simp [sent, hr], ?_⟩
    rw [hr, show 2 * a + 2 = 2 * (a + 1) by ring]
    refine .address (a + 1) (by omega) ⟨h.triggers, h.port, h.maxAddress, ?_, rfl⟩ rfl
    show y.ifc.read.address + 1 = _
    rw [h.address]
    exact (BitVec.ofNat_add a 1).symm

/-- After the last word the reader rests. -/
theorem rest_idle (hs : y.ifc.read.nextReadState = .idle) (hn : ¬Starts (y.inputs x) y.ifc)
    (hw : y.ifc.write.isWriteMode = false) :
    sent x y = [] ∧ (step x y).ifc.read.nextReadState = .idle := by
  have ht : ¬(y.inputs x).readTriggers.extractLsb' 0 9 ≠ 0 := fun ht => hn ⟨hs, ht⟩
  have hd : (step x y).ifc.read = readMultiplexer (y.inputs x) y.ifc := rfl
  have hr : (step x y).ifc.read.dataOutValid = false ∧
      (step x y).ifc.read.nextReadState = .idle := by
    rw [hd]
    simp only [readMultiplexer, hw, readCase, hs, if_neg ht]
    exact ⟨rfl, rfl⟩
  exact ⟨by simp [sent, hr.1], hr.2⟩

/-- After an edge in read mode the read port shows the address of the reader. -/
theorem Asked.redbk {a : ℕ} (h : Asked m a y.ifc.read) (hw : y.ifc.write.isWriteMode = false) :
    (step x y).redbk m = y.mem m (BitVec.ofNat m.addrWidth a) := by
  have hb : seqMemWAdd y.ifc = BitVec.ofNat 10 a := by
    simp [seqMemWAdd, hw, h.bus, h.address]
  show y.mem m ((seqMemWAdd y.ifc).setWidth m.addrWidth) = _
  rw [hb, setWidth_ofNat_addr]

/-- What an edge does to a reader that has sent `n` words. Either it sends
    nothing, between two pairs, because it cannot or because all has been sent;
    or it sends word `n`, and then the memory shows the entry for the next data
    word. -/
theorem Stage.step (h : Stage m n y.ifc.read) (hc : Clean x y) :
    (Stage m n (step x y).ifc.read ∧ sent x y = [] ∧ n % 2 = 0 ∧
      (free x y = [] ∧ n < 2 * m.depth ∨ n = 2 * m.depth)) ∨
    (Stage m (n + 1) (step x y).ifc.read ∧ sent x y = [pairWord m n (y.redbk m)] ∧
      free x y = [()] ∧ n < 2 * m.depth ∧
      (n % 2 = 0 → (step x y).redbk m = y.mem m (BitVec.ofNat m.addrWidth (n / 2)))) := by
  have hpos : 0 < m.depth := Nat.two_pow_pos _
  cases hw : y.ifc.write.isWriteMode with
  | true =>
    obtain ⟨hsent, hstay⟩ := step_stopped (x := x) hw
    have hfree : free x y = [] := by simp [free, hw]
    refine .inl ⟨hstay _ h, hsent, ?_⟩
    cases h with
    | waiting => exact ⟨rfl, .inl ⟨hfree, by omega⟩⟩
    | address a ha => exact ⟨by omega, .inl ⟨hfree, by omega⟩⟩
    | data a ha _ hs => exact absurd hs (hc.1 hw)
    | done => exact ⟨by omega, .inr rfl⟩
  | false =>
    cases h with
    | waiting h hs =>
      obtain ⟨hsent, hasked, hnext⟩ := h.wait hs hw
      have hfree : free x y = [] := by simp [free, hs]
      refine .inl ⟨?_, hsent, rfl, .inl ⟨hfree, by omega⟩⟩
      cases hu : x.udpReady with
      | true => exact .address 0 hpos hasked (by rw [hnext, hu]; rfl)
      | false => exact .waiting hasked (by rw [hnext, hu]; rfl)
    | address a ha h hs =>
      obtain ⟨hsent, hasked, hnext⟩ := h.sendAddress hs hw
      have hfree : free x y = [()] := by simp [free, hs, hw]
      refine .inr ⟨.data a ha hasked hnext, ?_, hfree, by omega, fun _ => ?_⟩
      · rw [hsent, pairWord, if_pos (by omega), Nat.mul_div_cancel_left a (by omega)]
      · rw [Nat.mul_div_cancel_left a (by omega)]
        exact h.redbk hw
    | data a ha h hs =>
      obtain ⟨hsent, hstage⟩ := h.sendData ha hs hw
      have hfree : free x y = [()] := by simp [free, hs, hw]
      refine .inr ⟨hstage, ?_, hfree, by omega, by omega⟩
      rw [hsent, pairWord, if_neg (by omega)]
    | done hs =>
      obtain ⟨hsent, hnext⟩ := rest_idle hs hc.2 hw
      exact .inl ⟨.done hnext, hsent, by omega, .inr rfl⟩

/-! ## Runs -/

/-- The value `d` is what address `a` of the memory held after some beginning of
    the run, in which at most `k` words were sent. -/
def Held (m : Memory) (z : System) (is : List External) (k a : ℕ) (d : BitVec m.dataWidth) :
    Prop :=
  ∃ js, js <+: is ∧ (log step sent z js).length ≤ k ∧
    d = (run step z js).mem m (BitVec.ofNat m.addrWidth a)

theorem Held.mono {z : System} {is : List External} {k a : ℕ} {d : BitVec m.dataWidth}
    (h : Held m z is k a d) (i : External) : Held m z (is ++ [i]) k a d := by
  obtain ⟨js, hp, hrest⟩ := h
  exact ⟨js, hp.trans (List.prefix_append _ _), hrest⟩

/-- How a run of a readback stands after the words `l`. -/
structure Read (m : Memory) (z : System) (is : List External) : Prop where
  stage : Stage m (log step sent z is).length (run step z is).ifc.read
  count : (log step sent z is).length = min (2 * m.depth) (log step free z is).length
  words : ∀ k w, (log step sent z is)[k]? = some w →
    ∃ d, w = pairWord m k d ∧ (k % 2 = 1 → Held m z is k (k / 2) d)
  redbk : (log step sent z is).length % 2 = 1 →
    Held m z is (log step sent z is).length ((log step sent z is).length / 2)
      ((run step z is).redbk m)

/-- Along a run in which no write stops the reader between the words of a
    pair. -/
theorem readback_run {z : System} (hz : Stage m 0 z.ifc.read) {is : List External}
    (hc : Along step Clean z is) : Read m z is := by
  induction is using List.reverseRecOn with
  | nil => exact ⟨hz, by simp, by simp, by simp⟩
  | append_singleton is i ih =>
    rw [along_concat] at hc
    obtain ⟨hstage, hcount, hwords, hredbk⟩ := ih hc.1
    have hold : ∀ k w, (log step sent z is)[k]? = some w →
        ∃ d, w = pairWord m k d ∧ (k % 2 = 1 → Held m z (is ++ [i]) k (k / 2) d) := by
      intro k w hk
      obtain ⟨d, hd, hheld⟩ := hwords k w hk
      exact ⟨d, hd, fun hodd => (hheld hodd).mono i⟩
    rcases hstage.step hc.2 with ⟨hst, hs, heven, hf⟩ | ⟨hst, hs, hf, hlt, hnext⟩
    · constructor
      all_goals rw [log_concat, hs, List.append_nil]
      · rw [run_concat]
        exact hst
      · rw [log_concat, List.length_append]
        rcases hf with ⟨hf, -⟩ | hall
        · rw [hf]
          exact hcount
        · omega
      · exact hold
      · exact fun hodd => absurd heven (by omega)
    · have hlen : (log step sent z (is ++ [i])).length = (log step sent z is).length + 1 := by
        rw [log_concat, hs, List.length_append, List.length_singleton]
      constructor
      · rw [hlen, run_concat]
        exact hst
      · rw [hlen, log_concat, hf, List.length_append, List.length_singleton]
        omega
      · intro k w hk
        rw [log_concat, hs] at hk
        rcases Nat.lt_or_ge k (log step sent z is).length with hlt' | hge
        · rw [List.getElem?_append_left hlt'] at hk
          exact hold k w hk
        · rw [List.getElem?_append_right hge, List.getElem?_singleton] at hk
          split_ifs at hk with hzero
          obtain rfl : k = (log step sent z is).length := by omega
          refine ⟨_, (Option.some.inj hk).symm, fun hodd => (hredbk hodd).mono i⟩
      · intro hodd
        rw [hlen] at hodd ⊢
        refine ⟨is, List.prefix_append _ _, by omega, ?_⟩
        rw [run_concat, hnext (by omega), show ((log step sent z is).length + 1) / 2 =
          (log step sent z is).length / 2 by omega]

/-- From the request for a memory on, along a run in which no write stops the
    reader between the words of a pair: every edge that it can use sends the next
    word until all addresses have been sent, in order; and every data word is
    what the memory held at the address of its pair at some moment after the
    request and before the data word. -/
theorem readback_words (m : Memory) {x₀ : External} {y : System} {is : List External}
    (hs : y.ifc.read.nextReadState = .idle) (hw : y.ifc.write.isWriteMode = false)
    (ht : x₀.readTriggers = m.triggers) (hc : Along step Clean (step x₀ y) is) :
    (log step sent (step x₀ y) is).length =
        min (2 * m.depth) (log step free (step x₀ y) is).length ∧
      ∀ k w, (log step sent (step x₀ y) is)[k]? = some w →
        ∃ d, w = pairWord m k d ∧ (k % 2 = 1 → Held m (step x₀ y) is k (k / 2) d) := by
  have h := readback_run (stage_trigger hs hw ht) hc
  exact ⟨h.count, h.words⟩

/-- The interface at rest, with every entry of a memory its address. -/
def numbered : System where
  ifc := { initial with read := { initial.read with nextReadState := .idle } }
  mem := fun _ a => a.setWidth _
  redbk := fun _ => 0

/-- An edge at which `word` is received on the port of the program memory. -/
def programWord (udpReady : Bool) (word : Option Word) : External where
  dataIn := word.getD 0
  dataPort := udpPortSeqProgram
  dataValid := word.isSome
  udpReady := udpReady
  readTriggers := 0
  eraseSequencer := false
  reg32bCabacspiReadOnly := 0
  reg96bCrocspiReadOnly := 0

/-- The request for a memory. -/
def request (m : Memory) : External := { programWord false none with readTriggers := m.triggers }

/-- An entry is written while the reader waits for `udp_ready`. -/
theorem readback_words_numbered :
    let z := step (request .program) numbered
    let is := [some 5, some 7, none, none].map (programWord false) ++
      [none, none, none, none].map (programWord true)
    (log step sent z is).length = min (2 * Memory.program.depth) (log step free z is).length ∧
      ∀ k w, (log step sent z is)[k]? = some w →
        ∃ d, w = pairWord .program k d ∧ (k % 2 = 1 → Held .program z is k (k / 2) d) :=
  readback_words .program rfl rfl rfl (by decide +kernel)

/-- Address 5 is written while the reader is between the words of its first pair:
    the data word is entry 5, and entry 0 was 0 all the time. -/
theorem readback_wrong_word :
    let z := step (request .program) numbered
    let is := [some 5, some 7, none, none, none].map (programWord true)
    log step sent z is = [pairWord .program 0 0, pairWord .program 1 5] ∧
      ∀ js, js <+: is → (run step z js).mem .program 0 = 0 := by
  refine ⟨by decide +kernel, fun js hjs => ?_⟩
  have hall : ∀ js ∈ ([some 5, some 7, none, none, none].map (programWord true)).inits,
      (run step (step (request .program) numbered) js).mem .program 0 = 0 := by decide +kernel
  exact hall js ((List.mem_inits _ _).2 hjs)

end FpgaEthernet.Sequencer
