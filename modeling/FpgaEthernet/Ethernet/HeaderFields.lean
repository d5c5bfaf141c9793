import FpgaEthernet.Ethernet.HeaderChecksum

/-!
# The fields of an emitted header

The words `header_generator` emits between `header_start` and `header_done`,
and the two length fields among them. The fields that are registered in `IDLE`
are those of the start pulse; the inputs other than the configuration and the
payload length may change while the header is emitted.

Main results:

* `IsHeader.log_states`: a header is emitted by the states of the enabled
  segments, each once and in order.
* `lengthFields_iff`: the IPv4 and UDP length fields count the words that follow
  iff there is no application header.
-/

namespace FpgaEthernet.HeaderGenerator

open Clocked

/-! ## The states that emit -/

/-- The word put on the outputs by an edge, with the state that puts it there. -/
def emittedIn (i : Input) (s : State) : List (StateType × Word) :=
  if (step i s).headerValid then [(s.nextState, (step i s).headerData)] else []

theorem mem_emittedIn {i : Input} {s : State} {p : StateType × Word} (h : p ∈ emittedIn i s) :
    p.1 = s.nextState ∧ p.2 = (step i s).headerData := by
  unfold emittedIn at h
  split at h
  · obtain rfl := List.mem_singleton.1 h
    exact ⟨rfl, rfl⟩
  · exact absurd h List.not_mem_nil

/-- The states that emit the words of the enabled segments, in order. -/
def headerStates (config : Word) : List StateType :=
  (if config.getLsbD 0 then [StateType.eth0, .eth1, .eth2, .eth3] else []) ++
    (if config.getLsbD 1 then [StateType.ip0, .ip1, .ip2, .ip3, .ip4] else []) ++
    (if config.getLsbD 2 then [StateType.udp0, .udp1] else []) ++
    if config.getLsbD 3 then [StateType.hd0] else []

theorem headerStates_length (config : Word) :
    (headerStates config).length = headerWords config := by
  unfold headerStates headerWords
  split_ifs <;> rfl

/-- A step in the middle of a header emits the word of the state at the current
    position, or pauses. -/
theorem Running.emittedIn_states {i : Input} {s : State} (h : Running i.config s)
    (hd : s.nextState ≠ .done) :
    (emittedIn i s).map Prod.fst ++
        (headerStates i.config).drop (position i.config (HeaderGenerator.step i s).nextState) =
      (headerStates i.config).drop (position i.config s.nextState) := by
  obtain ⟨hni, hen, -, -⟩ := h
  rw [step_nextState]
  unfold emittedIn
  rw [step_headerValid]
  cases hn : s.nextState <;> simp only [hn, Enabled] at hni hen hd
  case idle => exact absurd rfl hni
  case done => exact absurd rfl hd
  all_goals
    simp only [stateMachine, hn, fNextState, headerStates, position, headerWords, hen, if_true,
      Bool.false_eq_true, if_false]
  case eth0 | eth1 | eth2 => rfl
  case ip0 | ip1 | ipPause0 | ipPause1 | ip2 | ip3 => cases i.config.getLsbD 0 <;> rfl
  case udp0 => cases i.config.getLsbD 0 <;> cases i.config.getLsbD 1 <;> rfl
  case eth3 =>
    cases i.config.getLsbD 1 <;> cases i.config.getLsbD 2 <;> cases i.config.getLsbD 3 <;> rfl
  case ip4 =>
    cases i.config.getLsbD 0 <;> cases i.config.getLsbD 2 <;> cases i.config.getLsbD 3 <;> rfl
  case udp1 =>
    cases i.config.getLsbD 0 <;> cases i.config.getLsbD 1 <;> cases i.config.getLsbD 3 <;> rfl
  case hd0 =>
    cases i.config.getLsbD 0 <;> cases i.config.getLsbD 1 <;> cases i.config.getLsbD 2 <;> rfl

/-! ## The run of a header -/

@[simp] theorem edgesLeft_done (config : Word) : edgesLeft config .done = 0 := by
  simp [edgesLeft, position, pausesLeft]

theorem Running.done_of_edgesLeft {config : Word} {s : State} (h : Running config s)
    (he : edgesLeft config s.nextState = 0) : s.nextState = .done := by
  obtain ⟨hni, hen, -, -⟩ := h
  unfold edgesLeft at he
  cases hn : s.nextState <;> simp only [hn, Enabled] at hni hen
  case idle => exact absurd rfl hni
  case done => rfl
  all_goals
    simp only [hn, position, headerWords, pausesLeft, hen, if_true] at he
    omega

/-- In the edges until its last word a header stays in progress, and every one
    of them brings the end closer. -/
theorem Running.run_held {config : Word} {s : State} {is : List Input} (h : Running config s)
    (hc : ∀ i ∈ is, i.config = config) (hl : is.length ≤ edgesLeft config s.nextState) :
    Running config (run HeaderGenerator.step s is) ∧
      edgesLeft config (run HeaderGenerator.step s is).nextState + is.length =
        edgesLeft config s.nextState ∧
      (run HeaderGenerator.step s is).ipHeader = s.ipHeader := by
  induction is generalizing s with
  | nil => exact ⟨h, rfl, rfl⟩
  | cons i is ih =>
    obtain rfl : i.config = config := hc i List.mem_cons_self
    rw [List.length_cons] at hl
    have hd : s.nextState ≠ .done := by
      intro hd
      rw [hd, edgesLeft_done] at hl
      omega
    have hedges := h.edgesLeft_step hd
    obtain ⟨hrun, hleft, hip⟩ := ih (h.step hd).1
      (fun j hj => hc j (List.mem_cons_of_mem i hj)) (by omega)
    refine ⟨hrun, ?_, ?_⟩
    · rw [run_cons, List.length_cons]
      omega
    · rw [run_cons, hip, (step_registers i s).2, if_neg h.notIdle]

/-- The states that emit the rest of a header. -/
theorem Running.log_states {config : Word} {s : State} {is : List Input} (h : Running config s)
    (hc : ∀ i ∈ is, i.config = config) (hl : is.length = edgesLeft config s.nextState) :
    (log HeaderGenerator.step emittedIn s is).map Prod.fst =
      (headerStates config).drop (position config s.nextState) := by
  induction is generalizing s with
  | nil =>
    have hdone := h.done_of_edgesLeft hl.symm
    rw [hdone, log_nil, List.map_nil, List.drop_eq_nil_of_le]
    exact (headerStates_length config).le
  | cons i is ih =>
    obtain rfl : i.config = config := hc i List.mem_cons_self
    rw [List.length_cons] at hl
    have hd : s.nextState ≠ .done := by
      intro hd
      rw [hd, edgesLeft_done] at hl
      omega
    have hedges := h.edgesLeft_step hd
    have hrest := ih (h.step hd).1 (fun j hj => hc j (List.mem_cons_of_mem i hj)) (by omega)
    rw [log_cons, List.map_append, hrest]
    exact h.emittedIn_states hd

/-- The edges of one header, from `header_start` in `IDLE` to the edge that
    raises `header_done`. The configuration is held. -/
structure IsHeader (config : Word) (s : State) (i : Input) (is : List Input) : Prop where
  idle : s.nextState = .idle
  start : i.headerStart = true
  config_eq : ∀ j ∈ i :: is, j.config = config
  done : (run step s (i :: is)).headerDone = true
  notBefore : ∀ n < is.length, (run step s (i :: is.take n)).headerDone = false

variable {config : Word} {payloadLen : BitVec 9} {s : State} {i : Input} {is : List Input}

/-- Held inputs make a header after an edge for every word and two for the
    checksum. -/
theorem isHeader_of_length (hidle : s.nextState = .idle) (hstart : i.headerStart = true)
    (hconfig : ∀ j ∈ i :: is, j.config = config) (hc : fNextState .idle config ≠ .done)
    (hl : is.length = headerWords config + if config.getLsbD 1 then 2 else 0) :
    IsHeader config s i is := by
  obtain rfl : i.config = config := hconfig i List.mem_cons_self
  have hheld : ∀ j ∈ is, j.config = i.config := fun j hj =>
    hconfig j (List.mem_cons_of_mem i hj)
  obtain ⟨hrun, -, -⟩ := start_running hidle hstart hc
  rw [← edgesLeft_start hidle hstart] at hl
  refine ⟨hidle, hstart, hconfig, ?_, fun n hn => ?_⟩
  · obtain ⟨hend, hleft, -⟩ := hrun.run_held hheld hl.le
    rw [run_cons, hend.headerDone, hend.done_of_edgesLeft (by omega), decide_eq_true rfl]
  · have htake : (is.take n).length = n := List.length_take_of_le hn.le
    have hle : (is.take n).length ≤ edgesLeft i.config (step i s).nextState := by omega
    obtain ⟨hend, hleft, -⟩ := hrun.run_held
      (fun j hj => hheld j (List.mem_of_mem_take hj)) hle
    rw [run_cons, hend.headerDone, decide_eq_false]
    intro hdone
    rw [hdone, edgesLeft_done] at hleft
    omega

/-- With a segment enabled a header begins with the start pulse. -/
theorem IsHeader.running (h : IsHeader config s i is)
    (hc : fNextState .idle config ≠ .done) :
    Running config (step i s) ∧ position config (step i s).nextState = 0 ∧
      (step i s).ipHeader = ipHeaderWords i := by
  obtain rfl : i.config = config := h.config_eq i List.mem_cons_self
  obtain ⟨hrun, -, hpos⟩ := start_running h.idle h.start hc
  exact ⟨hrun, hpos, by rw [(step_registers i s).2, if_pos h.idle]⟩

/-- A header takes an edge for every word and two for the checksum. -/
theorem IsHeader.length_eq (h : IsHeader config s i is)
    (hc : fNextState .idle config ≠ .done) :
    is.length = edgesLeft config (step i s).nextState := by
  have hheld : ∀ j ∈ is, j.config = config := fun j hj =>
    h.config_eq j (List.mem_cons_of_mem i hj)
  obtain ⟨hrun, -, -⟩ := h.running hc
  rcases Nat.lt_trichotomy is.length (edgesLeft config (step i s).nextState) with hl | hl | hl
  · -- the last word has not been emitted
    obtain ⟨hend, hleft, -⟩ := hrun.run_held hheld hl.le
    have hdone := h.done
    rw [run_cons, hend.headerDone, decide_eq_true_eq] at hdone
    rw [hdone, edgesLeft_done] at hleft
    omega
  · exact hl
  · -- `header_done` has been up before
    have hlen : (is.take (edgesLeft config (step i s).nextState)).length =
        edgesLeft config (step i s).nextState := List.length_take_of_le hl.le
    obtain ⟨hend, hleft, -⟩ := hrun.run_held
      (fun j hj => hheld j (List.mem_of_mem_take hj)) hlen.le
    have hnot := h.notBefore _ hl
    rw [run_cons, hend.headerDone, hend.done_of_edgesLeft (by omega)] at hnot
    exact absurd hnot (by decide)

theorem IsHeader.emittedIn_start (h : IsHeader config s i is) :
    emittedIn i s = [] := by
  rw [emittedIn, step_headerValid, stateMachine, h.idle]
  rfl

/-- A header is emitted by the states of the enabled segments, each once and in
    order. -/
theorem IsHeader.log_states (h : IsHeader config s i is)
    (hc : fNextState .idle config ≠ .done) :
    (log step emittedIn s (i :: is)).map Prod.fst = headerStates config := by
  obtain ⟨hrun, hpos, -⟩ := h.running hc
  rw [log_cons, h.emittedIn_start, List.nil_append,
    hrun.log_states (fun j hj => h.config_eq j (List.mem_cons_of_mem i hj)) (h.length_eq hc), hpos,
    List.drop_zero]

/-- A word of a header is emitted by an edge after the start pulse, with the IPv4
    header registered then. -/
theorem IsHeader.mem_log (h : IsHeader config s i is)
    (hc : fNextState .idle config ≠ .done) {p : StateType × Word}
    (hp : p ∈ log step emittedIn s (i :: is)) :
    ∃ js j, js ++ [j] <+: is ∧ p ∈ emittedIn j (run step (step i s) js) ∧
      (run step (step i s) js).ipHeader = ipHeaderWords i := by
  obtain ⟨hrun, -, hip⟩ := h.running hc
  rw [log_cons, h.emittedIn_start, List.nil_append, mem_log_iff step] at hp
  obtain ⟨js, j, hpre, hj⟩ := hp
  have hsub : js <+: is := (List.prefix_append js [j]).trans hpre
  refine ⟨js, j, hpre, hj, ?_⟩
  rw [(hrun.run_held (fun k hk => h.config_eq k (List.mem_cons_of_mem i (hsub.subset hk)))
    (hsub.length_le.trans (h.length_eq hc).le)).2.2, hip]

/-- The first word of the IPv4 header is the one registered by the start pulse. -/
theorem IsHeader.ip0_word (h : IsHeader config s i is) (hc : fNextState .idle config ≠ .done)
    {p : StateType × Word} (hp : p ∈ log step emittedIn s (i :: is)) (hst : p.1 = .ip0) :
    p.2 = ipHeaderWords i 0 := by
  obtain ⟨js, j, -, hj, hip⟩ := h.mem_log hc hp
  obtain ⟨hst', hw⟩ := mem_emittedIn hj
  rw [hw, step_headerData, stateMachine, hst'.symm.trans hst, hip]

/-- The second word of the UDP header has the payload length of its own edge. -/
theorem IsHeader.udp1_word (h : IsHeader config s i is) (hc : fNextState .idle config ≠ .done)
    (hl : ∀ j ∈ is, j.payloadLen = payloadLen) {p : StateType × Word}
    (hp : p ∈ log step emittedIn s (i :: is)) (hst : p.1 = .udp1) :
    p.2 = udp1Word payloadLen := by
  obtain ⟨js, j, hpre, hj, -⟩ := h.mem_log hc hp
  obtain ⟨hst', hw⟩ := mem_emittedIn hj
  have hjl : j.payloadLen = payloadLen :=
    hl j (hpre.subset (List.mem_append_right js (List.mem_singleton_self j)))
  rw [hw, step_headerData, stateMachine, hst'.symm.trans hst, hjl]

/-! ## The length fields -/

/-- The words emitted from a state on. -/
def wordsFrom (st : StateType) (ws : List (StateType × Word)) : List (StateType × Word) :=
  ws.dropWhile fun p => p.1 ≠ st

/-- The total length in `IP0` is four times the number of words from there to
    the end of the payload, and so is the UDP length for the words from `UDP0`
    on if there is a UDP header. -/
def LengthFields (config : Word) (payloadLen : BitVec 9) (ws : List (StateType × Word)) : Prop :=
  (∃ p ∈ ws, p.1 = .ip0 ∧
      (lo p.2).toNat = 4 * ((wordsFrom .ip0 ws).length + payloadLen.toNat)) ∧
    (config.getLsbD 2 = true → ∃ p ∈ ws, p.1 = .udp1 ∧
      (hi p.2).toNat = 4 * ((wordsFrom .udp0 ws).length + payloadLen.toNat))

theorem wordsFrom_length {ws : List (StateType × Word)} {config : Word}
    (h : ws.map Prod.fst = headerStates config) (st : StateType) :
    (wordsFrom st ws).length = ((headerStates config).dropWhile (· ≠ st)).length := by
  rw [← h, List.dropWhile_map, List.length_map]
  rfl

theorem headerLenSig_toNat {config : Word} (hip : config.getLsbD 1 = true) :
    (headerLenSig config).toNat = 5 + if config.getLsbD 2 then 2 else 0 := by
  rw [headerLenSig, hip]
  cases config.getLsbD 2 <;> rfl

/-- The length in `IP0` counts the IPv4 and UDP headers and the payload. -/
theorem ip0_length (i : Input) (hip : i.config.getLsbD 1 = true)
    (hl : i.payloadLen.toNat ≤ 504) :
    (lo (ipHeaderWords i 0)).toNat =
      4 * (5 + (if i.config.getLsbD 2 then 2 else 0) + i.payloadLen.toNat) := by
  have hlo : lo (ipHeaderWords i 0) = packetLen i.config i.payloadLen :=
    lo_append (4#4 ++ 5#4 ++ 0#8) _
  have hlen := headerLenSig_toNat hip
  have hsum : (headerLenSig i.config + i.payloadLen).toNat =
      5 + (if i.config.getLsbD 2 then 2 else 0) + i.payloadLen.toNat := by
    rw [BitVec.toNat_add, hlen]
    split_ifs <;> omega
  rw [hlo, packetLen, BitVec.toNat_append, BitVec.toNat_setWidth, hsum]
  split_ifs <;> simp <;> omega

/-- The length in `UDP1` counts the UDP header and the payload. -/
theorem udp1_length (payloadLen : BitVec 9) (hl : payloadLen.toNat ≤ 504) :
    (hi (udp1Word payloadLen)).toNat = 4 * (2 + payloadLen.toNat) := by
  have hhi : hi (udp1Word payloadLen) = (payloadLen + 2#9).setWidth 14 ++ 0#2 :=
    hi_append _ 0#16
  have hsum : (payloadLen + 2#9).toNat = payloadLen.toNat + 2 := by
    rw [BitVec.toNat_add]
    simp
    omega
  rw [hhi, BitVec.toNat_append, BitVec.toNat_setWidth, hsum]
  simp
  omega

/-- The words from `IP0` and from `UDP0` to the end of a header. -/
theorem headerStates_dropWhile (config : Word) (hip : config.getLsbD 1 = true) :
    ((headerStates config).dropWhile (· ≠ .ip0)).length =
        5 + (if config.getLsbD 2 then 2 else 0) + (if config.getLsbD 3 then 1 else 0) ∧
      (config.getLsbD 2 = true → ((headerStates config).dropWhile (· ≠ .udp0)).length =
        2 + if config.getLsbD 3 then 1 else 0) := by
  rw [headerStates, hip]
  cases config.getLsbD 0 <;> cases config.getLsbD 2 <;> cases config.getLsbD 3 <;> decide

/-- With the payload length held, the length fields count the words they announce
    iff the application header is not enabled. -/
theorem lengthFields_iff (h : IsHeader config s i is)
    (hheld : ∀ j ∈ i :: is, j.payloadLen = payloadLen) (hip : config.getLsbD 1 = true)
    (hl : payloadLen.toNat ≤ 504) :
    LengthFields config payloadLen (log step emittedIn s (i :: is)) ↔
      config.getLsbD 3 = false := by
  have hc : fNextState .idle config ≠ .done := by
    unfold fNextState
    split_ifs <;> simp
  have hstates := h.log_states hc
  have hconfig : i.config = config := h.config_eq i List.mem_cons_self
  have hlen : i.payloadLen = payloadLen := hheld i List.mem_cons_self
  have hip0 := ip0_length i (hconfig ▸ hip) (hlen ▸ hl)
  have hudp1 := udp1_length payloadLen hl
  obtain ⟨hfrom0, hfromUdp⟩ := headerStates_dropWhile config hip
  rw [hconfig, hlen] at hip0
  rw [LengthFields, wordsFrom_length hstates, wordsFrom_length hstates, hfrom0]
  constructor
  · rintro ⟨⟨p, hp, hst, hw⟩, -⟩
    rw [h.ip0_word hc hp hst, hip0] at hw
    by_contra h3
    rw [Bool.not_eq_false] at h3
    rw [h3] at hw
    simp only [if_true] at hw
    omega
  · intro h3
    constructor
    · have hmem : StateType.ip0 ∈ (log step emittedIn s (i :: is)).map Prod.fst := by
        rw [hstates, headerStates, hip]
        simp
      obtain ⟨p, hp, hst⟩ := List.mem_map.1 hmem
      refine ⟨p, hp, hst, ?_⟩
      rw [h.ip0_word hc hp hst, hip0, h3]
      simp
    · intro h2
      have hmem : StateType.udp1 ∈ (log step emittedIn s (i :: is)).map Prod.fst := by
        rw [hstates, headerStates, h2]
        simp
      obtain ⟨p, hp, hst⟩ := List.mem_map.1 hmem
      refine ⟨p, hp, hst, ?_⟩
      rw [h.udp1_word hc (fun j hj => hheld j (List.mem_cons_of_mem i hj)) hp hst, hudp1,
        hfromUdp h2, h3]
      simp

/-- A UDP packet with one payload word and the given configuration. -/
def oneWord (config : Word) : Input := { lostCarry with config := config, headerStart := true }

theorem oneWord_held {config : Word} {n : ℕ} {j : Input}
    (hj : j ∈ oneWord config :: List.replicate n (oneWord config)) : j = oneWord config := by
  rcases List.mem_cons.1 hj with rfl | hj
  · rfl
  · exact List.eq_of_mem_replicate hj

theorem isHeader_oneWord (config : Word) (hc : fNextState .idle config ≠ .done) :
    IsHeader config reset (oneWord config) (List.replicate
      (headerWords config + if config.getLsbD 1 then 2 else 0) (oneWord config)) :=
  isHeader_of_length rfl rfl (fun j hj => by rw [oneWord_held hj]; rfl) hc List.length_replicate

theorem lengthFields_iff_oneWord :
    LengthFields 0x7 1 (log step emittedIn reset (oneWord 0x7 ::
        List.replicate 13 (oneWord 0x7))) ↔ (0x7 : Word).getLsbD 3 = false :=
  lengthFields_iff (isHeader_oneWord 0x7 (by decide)) (fun j hj => by rw [oneWord_held hj]; rfl)
    (by decide) (by decide)

/-- With all four segments enabled both lengths miss the application header. -/
theorem lengthFields_app_header :
    IsHeader 0xF reset (oneWord 0xF) (List.replicate 14 (oneWord 0xF)) ∧
      (∀ j ∈ oneWord 0xF :: List.replicate 14 (oneWord 0xF), j.payloadLen = 1) ∧
      (0xF : Word).getLsbD 1 = true ∧ (1 : BitVec 9).toNat ≤ 504 ∧
      ¬ LengthFields 0xF 1 (log step emittedIn reset (oneWord 0xF ::
        List.replicate 14 (oneWord 0xF))) := by
  refine ⟨isHeader_oneWord 0xF (by decide), fun j hj => by rw [oneWord_held hj]; rfl, by decide,
    by decide, ?_⟩
  unfold LengthFields
  decide +kernel

end FpgaEthernet.HeaderGenerator
