import FpgaEthernet.Interfaces.SequencerMemories

/-!
# Write strobes

What the memories of the sequencer see of the packets that come in: a word of a packet
is in the input register at the edge after it has come in, and its pair is on the buses
at the edge after that.

Main results:

* `strobes_step`: what is on the buses is decided by the input register and the phase
  before the edge.
* `Decoding.word`, `Decoding.gap`: what has been seen and is still to be seen, from edge
  to edge.
* `strobes_decoded`: the strobes of a sequence of packets are those of each of them.
-/

namespace FpgaEthernet.Sequencer

open Clocked EthernetCcdcontrolInterface

/-! ## Specification -/

/-- A write to a memory: the address is that on `seq_mem_w_add`. -/
structure Strobe where
  memory : Memory
  address : BitVec 10
  data : Word
  deriving DecidableEq

/-- The memories. -/
def memories : List Memory := [.program, .time, .out, .indFunc, .indRep, .indSubAdd, .indSubRep]

/-- The write of a pair: none if `dest` stands for no memory. -/
def strobe (dest : UdpPort) (a : BitVec 10) (d : Word) : List Strobe :=
  (memories.filter fun m => dest = m.port).map fun m => ⟨m, a, d⟩

/-- The writes of a packet, pair by pair; a word that is left over is ignored. -/
def decode (port : UdpPort) : List Word → List Strobe
  | a :: d :: l => strobe (destination port a) (a.extractLsb' 0 10) d ++ decode port l
  | _ => []

/-- What the memories see. -/
def strobes (s : State) : List Strobe :=
  (memories.filter fun m => m.we s.write).map fun m => ⟨m, seqMemWAdd s, s.write.seqMemDataIn⟩

/-- No word for the sequencer comes in. -/
def Gap (i : Input) : Prop := ¬(i.dataValid = true ∧ IsSeqPort i.dataPort)

instance : DecidablePred Gap := fun _ => inferInstanceAs (Decidable (¬(_ ∧ _)))

/-- A packet without gaps on one of the sequencer's ports, and the edges after it. -/
structure Burst where
  port : UdpPort
  words : List Input
  after : List Input
  seq : IsSeqPort port
  comes : ∀ i ∈ words, i.dataValid = true ∧ i.dataPort = port
  gap : ∀ i ∈ after, Gap i
  apart : after ≠ []

/-- The inputs at the edges of a packet and after it. -/
def Burst.inputs (b : Burst) : List Input := b.words ++ b.after

/-- The writes the packet asks for. -/
def Burst.writes (b : Burst) : List Strobe := decode b.port (b.words.map (·.dataIn))

/-- No word for the sequencer and no write is under way, and the eraser is not at work. -/
structure AtRest (s : State) : Prop where
  word : regWord s = none
  write : NoEnable s.write
  erase : s.erase.doErase = false
  valid : s.erase.dataEraseValid = false

theorem atRest_initial : AtRest initial := ⟨rfl, fun m => by cases m <;> rfl, rfl, rfl⟩

theorem isSeqPort_serial : IsSeqPort udpPortSeqSerial := Or.inl rfl

theorem isSeqPort_port (m : Memory) : IsSeqPort m.port := by
  cases m <;> decide

@[simp] theorem decode_nil (port : UdpPort) : decode port [] = [] := rfl

theorem decode_append {port : UdpPort} : ∀ (l l' : List Word), 2 ∣ l.length →
    decode port (l ++ l') = decode port l ++ decode port l'
  | [], _, _ => rfl
  | [_], _, h => by
    rw [List.length_singleton] at h
    omega
  | a :: d :: l, l', h => by
    have hl : 2 ∣ l.length := by
      simp only [List.length_cons] at h
      omega
    rw [List.cons_append, List.cons_append, decode, decode, decode_append l l' hl,
      List.append_assoc]

/-! ## An edge -/

section

variable {i : Input} {s : State} {port : UdpPort}

/-- The write of the word in the input register, if it is a data word. -/
def pending (s : State) : List Strobe :=
  match regWord s with
  | some (_, w) =>
    if s.write.isAddress then [] else strobe s.write.seqDestination s.write.seqMemWAddWr w
  | none => []

theorem strobes_of_noEnable (h : NoEnable s.write) : strobes s = [] := by
  simp [strobes, h _]

theorem strobes_of_enabled {a : BitVec 10} {d : Word} (h : Enabled port a d s.write) :
    strobes s = strobe port a d := by
  have ha : seqMemWAdd s = a := by simp [seqMemWAdd, h.mode, h.address]
  simp only [strobes, strobe, h.we, ha, h.data]

/-- What the memories see after an edge is what was pending before it. -/
theorem strobes_step (i : Input) (s : State) :
    strobes (EthernetCcdcontrolInterface.step i s) = pending s := by
  have hwrite : (EthernetCcdcontrolInterface.step i s).write = writeMultiplexer s := rfl
  unfold pending
  cases hr : regWord s with
  | none =>
    apply strobes_of_noEnable
    rw [hwrite]
    exact (write_none hr).2.2
  | some pw =>
    obtain ⟨port, w⟩ := pw
    cases ha : s.write.isAddress with
    | true =>
      apply strobes_of_noEnable
      rw [hwrite]
      exact (write_address hr ha).2.1
    | false =>
      apply strobes_of_enabled (a := s.write.seqMemWAddWr)
      rw [hwrite]
      exact (write_data hr ha).2

/-- No erase begins, and a word of the eraser does not come in. -/
theorem regWord_step (hv : s.erase.dataEraseValid = false) :
    regWord (EthernetCcdcontrolInterface.step i s) =
      if i.dataValid = true ∧ IsSeqPort i.dataPort then some (i.dataPort, i.dataIn) else none := by
  cases hd : i.dataValid <;>
    simp [EthernetCcdcontrolInterface.step, dataRegister, regWord, hv, hd]

/-! ## Packets -/

/-- How far a packet is: the last of its words is in the input register. -/
inductive Progress (port : UdpPort) (s : State) : List Word → Prop
  | apart : regWord s = none → Progress port s []
  | address (l : List Word) (a : Word) : 2 ∣ l.length → regWord s = some (port, a) →
      s.write.isAddress = true → Progress port s (l ++ [a])
  | data (l : List Word) (a d : Word) : 2 ∣ l.length → regWord s = some (port, d) →
      s.write.isAddress = false → s.write.seqMemWAddWr = a.extractLsb' 0 10 →
      s.write.seqDestination = destination port a → Progress port s (l ++ [a, d])

variable {l : List Word} {w : Word}

/-- The next word of a packet, and what it has the memories see. -/
theorem Progress.word (h : Progress port s l)
    (hw : regWord (EthernetCcdcontrolInterface.step i s) = some (port, w)) :
    Progress port (EthernetCcdcontrolInterface.step i s) (l ++ [w]) ∧
      decode port (l ++ [w]) = decode port l ++ pending (EthernetCcdcontrolInterface.step i s) := by
  have hwrite : (EthernetCcdcontrolInterface.step i s).write = writeMultiplexer s := rfl
  have hpending : (writeMultiplexer s).isAddress = true →
      pending (EthernetCcdcontrolInterface.step i s) = [] := by
    intro ha
    rw [← hwrite] at ha
    simp only [pending, hw, ha, if_pos]
  cases h with
  | apart hr =>
    have ha := (write_none hr).1
    refine ⟨.address [] w (dvd_zero 2) hw ha, ?_⟩
    rw [hpending ha]
    rfl
  | address l a hl hr ha =>
    obtain ⟨ha', -, hadd, hdest⟩ := write_address hr ha
    rw [← hwrite] at ha' hadd hdest
    have hstrobe : pending (EthernetCcdcontrolInterface.step i s) =
        strobe (destination port a) (a.extractLsb' 0 10) w := by
      simp only [pending, hw, ha', hadd, hdest, if_neg Bool.false_ne_true]
    rw [List.append_assoc]
    refine ⟨.data l a w hl hw ha' hadd hdest, ?_⟩
    rw [hstrobe, decode_append _ _ hl, decode_append _ _ hl]
    simp [decode]
  | data l a d hl hr ha hadd hdest =>
    have ha' := (write_data hr ha).1
    have hl' : 2 ∣ (l ++ [a, d]).length := by
      rw [List.length_append]
      exact (Nat.dvd_add_right hl).2 (dvd_refl 2)
    refine ⟨.address _ w hl' hw ha', ?_⟩
    rw [hpending ha', decode_append _ _ hl']
    rfl

/-- The memories have seen the writes of the packets before and of the words `l`, but for
    those that they see now and at the next edge. -/
structure Decoding (before : List Strobe) (port : UdpPort) (l : List Word) (saw : List Strobe)
    (s : State) : Prop where
  progress : Progress port s l
  saw : saw ++ strobes s ++ pending s = before ++ decode port l
  erase : s.erase.doErase = false
  valid : s.erase.dataEraseValid = false

variable {before saw : List Strobe}

theorem AtRest.decoding (h : AtRest s) (port : UdpPort) : Decoding [] port [] [] s where
  progress := .apart h.word
  saw := by
    rw [strobes_of_noEnable h.write, pending, h.word]
    rfl
  erase := h.erase
  valid := h.valid

/-- Without an erase the eraser stays at rest. -/
theorem Decoding.rests (h : Decoding before port l saw s) (hi : i.eraseSequencer = false) :
    (EthernetCcdcontrolInterface.step i s).erase.doErase = false ∧
      (EthernetCcdcontrolInterface.step i s).erase.dataEraseValid = false := by
  constructor <;> simp [EthernetCcdcontrolInterface.step, eraseData, h.erase, hi]

/-- A word of the packet comes in. -/
theorem Decoding.word (h : Decoding before port l saw s) (hi : i.eraseSequencer = false)
    (hv : i.dataValid = true ∧ i.dataPort = port) (hp : IsSeqPort port) :
    Decoding before port (l ++ [i.dataIn]) (saw ++ strobes s)
      (EthernetCcdcontrolInterface.step i s) := by
  obtain ⟨hv, rfl⟩ := hv
  have hw := (regWord_step (i := i) h.valid).trans (if_pos ⟨hv, hp⟩)
  obtain ⟨hprogress, hdecode⟩ := h.progress.word hw
  obtain ⟨herase, hvalid⟩ := h.rests hi
  refine ⟨hprogress, ?_, herase, hvalid⟩
  rw [strobes_step, h.saw, hdecode, List.append_assoc]

/-- No word for the sequencer comes in: what comes next is another packet. -/
theorem Decoding.gap (h : Decoding before port l saw s) (hi : i.eraseSequencer = false)
    (hgap : Gap i) (port' : UdpPort) :
    Decoding (before ++ decode port l) port' [] (saw ++ strobes s)
      (EthernetCcdcontrolInterface.step i s) := by
  have hw := (regWord_step (i := i) h.valid).trans (if_neg hgap)
  obtain ⟨herase, hvalid⟩ := h.rests hi
  refine ⟨.apart hw, ?_, herase, hvalid⟩
  rw [strobes_step, h.saw, pending, hw]
  rfl

theorem Progress.regWord_eq_none (h : Progress port s l) (hl : l = []) : regWord s = none := by
  cases h with
  | apart hr => exact hr
  | address l a => exact absurd hl (List.append_ne_nil_of_right_ne_nil l (List.cons_ne_nil _ _))
  | data l a d => exact absurd hl (List.append_ne_nil_of_right_ne_nil l (List.cons_ne_nil _ _))

/-- Before its first word a packet can be on any port. -/
theorem Decoding.reset (h : Decoding before port [] saw s) (port' : UdpPort) :
    Decoding before port' [] saw s :=
  ⟨.apart (h.progress.regWord_eq_none rfl), h.saw, h.erase, h.valid⟩

/-- Between two packets the last writes are on the buses. -/
theorem Decoding.all (h : Decoding before port [] saw s) : saw ++ strobes s = before := by
  have hsaw := h.saw
  simp only [pending, h.progress.regWord_eq_none rfl, decode_nil, List.append_nil] at hsaw
  exact hsaw

end

/-! ## Runs -/

section

variable {is : List Input} {s : State} {port : UdpPort} {before saw : List Strobe} {l : List Word}

theorem Decoding.words_run (h : Decoding before port l saw s) (hp : IsSeqPort port)
    (hv : ∀ i ∈ is, i.dataValid = true ∧ i.dataPort = port)
    (herase : ∀ i ∈ is, i.eraseSequencer = false) :
    Decoding before port (l ++ is.map (·.dataIn))
      (saw ++ log EthernetCcdcontrolInterface.step (fun _ s => strobes s) s is)
      (run EthernetCcdcontrolInterface.step s is) := by
  induction is generalizing l saw s with
  | nil => simpa using h
  | cons i is ih =>
    rw [List.forall_mem_cons] at hv herase
    have h' := ih (h.word herase.1 hv.1 hp) hv.2 herase.2
    rw [List.append_assoc, List.append_assoc] at h'
    exact h'

theorem Decoding.gap_run (h : Decoding before port [] saw s) (hgap : ∀ i ∈ is, Gap i)
    (herase : ∀ i ∈ is, i.eraseSequencer = false) :
    Decoding before port []
      (saw ++ log EthernetCcdcontrolInterface.step (fun _ s => strobes s) s is)
      (run EthernetCcdcontrolInterface.step s is) := by
  induction is generalizing saw s with
  | nil => simpa using h
  | cons i is ih =>
    rw [List.forall_mem_cons] at hgap herase
    have hi := h.gap herase.1 hgap.1 port
    rw [decode_nil, List.append_nil] at hi
    have h' := ih hi hgap.2 herase.2
    rw [List.append_assoc] at h'
    exact h'

/-- A packet, and the edges after it. -/
theorem Decoding.burst_run (h : Decoding before port [] saw s) (b : Burst)
    (herase : ∀ i ∈ b.inputs, i.eraseSequencer = false) :
    Decoding (before ++ b.writes) port []
      (saw ++ log EthernetCcdcontrolInterface.step (fun _ s => strobes s) s b.inputs)
      (run EthernetCcdcontrolInterface.step s b.inputs) := by
  unfold Burst.inputs at herase ⊢
  have hwords := (h.reset b.port).words_run b.seq b.comes
    fun i hi => herase i (List.mem_append_left _ hi)
  obtain ⟨i, is, hafter⟩ := List.exists_cons_of_ne_nil b.apart
  have hgap := b.gap
  rw [hafter] at herase hgap ⊢
  rw [List.forall_mem_cons] at hgap
  have hfirst := hwords.gap (herase i (by simp)) hgap.1 port
  have hrest := hfirst.gap_run hgap.2 fun j hj => herase j (by simp [hj])
  rw [run_append, log_append, run_cons, log_cons, ← List.append_assoc, ← List.append_assoc]
  exact hrest

theorem Decoding.bursts_run (h : Decoding before port [] saw s) (bs : List Burst)
    (herase : ∀ i ∈ bs.flatMap Burst.inputs, i.eraseSequencer = false) :
    Decoding (before ++ bs.flatMap Burst.writes) port []
      (saw ++ log EthernetCcdcontrolInterface.step (fun _ s => strobes s) s
        (bs.flatMap Burst.inputs))
      (run EthernetCcdcontrolInterface.step s (bs.flatMap Burst.inputs)) := by
  induction bs generalizing before saw s with
  | nil => simpa using h
  | cons b bs ih =>
    rw [List.flatMap_cons, List.forall_mem_append] at herase
    have h' := ih (h.burst_run b herase.1) herase.2
    rw [List.flatMap_cons, List.flatMap_cons, run_append, log_append, ← List.append_assoc,
      ← List.append_assoc]
    exact h'

end

/-- The strobes of a sequence of packets, seen up to the second edge after the last of
    them, are those of each packet, one after another: with no erase at work and in
    whatever state the machine was before. -/
theorem strobes_decoded (s : State) (hs : AtRest s) (lead : List Input) (hlead : ∀ i ∈ lead, Gap i)
    (bs : List Burst)
    (herase : ∀ i ∈ lead ++ bs.flatMap Burst.inputs, i.eraseSequencer = false) (i : Input) :
    log EthernetCcdcontrolInterface.step (fun _ s => strobes s) s
      (lead ++ bs.flatMap Burst.inputs ++ [i]) = bs.flatMap Burst.writes := by
  rw [List.forall_mem_append] at herase
  have hstart := (hs.decoding 0).gap_run hlead herase.1
  have hend := (hstart.bursts_run bs herase.2).all
  rw [log_concat, log_append, run_append]
  exact hend

/-- An edge with nothing else on the inputs. -/
def wordIn (valid : Bool) (port : UdpPort) (w : Word) : Input :=
  ⟨w, port, valid, false, 0, false, 0, 0, 0, 0, 0, 0, 0, 0, 0⟩

/-- A packet on the serial port, with a word left over. -/
def serialPacket : Burst where
  port := udpPortSeqSerial
  words := [wordIn true udpPortSeqSerial 0x20020005, wordIn true udpPortSeqSerial 7,
    wordIn true udpPortSeqSerial 0x20000001]
  after := [wordIn false 0 0]
  seq := isSeqPort_serial
  comes := by decide
  gap := by decide
  apart := List.cons_ne_nil _ _

/-- A packet on the port of the time memory, and a word for the CABAC. -/
def timePacket : Burst where
  port := udpPortSeqTime
  words := [wordIn true udpPortSeqTime 0x20000003, wordIn true udpPortSeqTime 9]
  after := [wordIn true udpPortCabacProg 1]
  seq := isSeqPort_port .time
  comes := by decide
  gap := by decide
  apart := List.cons_ne_nil _ _

theorem strobes_decoded_twoPackets :
    log EthernetCcdcontrolInterface.step (fun _ s => strobes s) initial
      ([] ++ [serialPacket, timePacket].flatMap Burst.inputs ++ [wordIn false 0 0]) =
        [⟨.out, 5, 7⟩, ⟨.time, 3, 9⟩] :=
  (strobes_decoded initial atRest_initial [] (List.forall_mem_nil _) [serialPacket, timePacket]
    (by decide) _).trans (by decide)

end FpgaEthernet.Sequencer
