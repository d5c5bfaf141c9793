import FpgaEthernet.Ethernet.UdpDataBuffer

/-!
# End of packet

`data_eop_in` of `ethernet/udp_data_buffer.vhd` "can be used to force sending
packet": the word it comes with is the last one of its packet. At most one packet
can be announced at an edge, and it is always the one under way, under the port
of the words before.

Main results:

* `writer_eop`: a word that continues the packet under way closes it.
* `accounts_run`: then the words accepted are those of the packets announced and
  those of the packet under way.
* `eop_recorded_iff`: every end-of-packet word is recorded as it should iff each
  of them continues a packet that is under way.
-/

namespace FpgaEthernet.UdpDataBuffer

open Clocked

variable {i : Input} {s : State} {js is : List Input}

/-! ## Specification -/

/-- The announcement made at an edge. -/
def recorded (i : Input) (s : State) : List Word := justClosed (writer i s)

/-- The word read from the data FIFO. -/
def readOut (i : Input) (s : State) : List Word := s.dataFifo.taken i.dataRdreq

/-- The announcement that `packet_finished` takes from the info FIFO. -/
def finished (i : Input) (s : State) : List Word := s.infoFifo.taken i.packetFinished

/-- The words that the announcements `es` speak of. -/
def total (es : List Word) : ℕ := (es.map fun e => (hi e).toNat).sum

/-- A valid word with `data_eop_in`. -/
def EopWord (i : Input) : Prop := i.dataValidIn = true ∧ i.dataEopIn = true

/-- The end-of-packet word of the last edge is recorded: the words accepted are,
    packet by packet, what the announcements say, each word has the port of its
    packet, and the last packet ends with the end-of-packet word. The words in the
    data FIFO are those of the announcements that wait, less what has been read of
    them. -/
def Recorded (js : List Input) (i : Input) : Prop :=
  ∃ (packets : List (UdpPort × List Word)) (ws : List Word),
    log step recorded reset (js ++ [i]) =
        (packets ++ [(i.dataPortIn, ws ++ [i.dataIn])]).map announce ∧
      (∀ q ∈ packets ++ [(i.dataPortIn, ws ++ [i.dataIn])], q.2.length < 2 ^ 16) ∧
      (js ++ [i]).flatMap presented =
        (packets ++ [(i.dataPortIn, ws ++ [i.dataIn])]).flatMap tagged ∧
      (run step reset (js ++ [i])).dataFifo.contents.length +
          (log step readOut reset (js ++ [i])).length =
        total (announced (run step reset (js ++ [i]))) +
          total (log step finished reset (js ++ [i]))

/-- A packet of the port of the word is under way. -/
def Continues (i : Input) (s : State) : Prop :=
  EopWord i → 1 ≤ s.packetLengthIn ∧ s.previousUdpPort = i.dataPortIn

/-! ## The FIFOs -/

/-- What is taken from the info FIFO followed by the announcements that wait is
    what waited and what is announced. -/
theorem finished_append_announced (hov : NoOverflow i s) :
    finished i s ++ announced (step i s) = announced s ++ recorded i s := by
  have hacc : s.infoFifo.accepted s.infoWrreq s.infoIn =
      if s.infoWrreq then [s.infoIn] else [] := by
    cases hw : s.infoWrreq
    · simp
    · simp [Fifo.accepted_of_lt _ _ (hov.2 hw)]
  have hlast : (if (step i s).infoWrreq then [(step i s).infoIn] else []) = justClosed s := rfl
  have hfifo := Fifo.taken_append_clock s.infoFifo s.infoWrreq s.infoIn i.packetFinished
  rw [hacc] at hfifo
  rw [announced, announced, hlast, ← hfifo]
  simp only [List.append_assoc]
  rfl

theorem announced_run (hov : Along step NoOverflow reset is) :
    log step finished reset is ++ announced (run step reset is) = log step recorded reset is := by
  induction is using List.reverseRecOn with
  | nil => rfl
  | append_singleton is i ih =>
    rw [along_concat] at hov
    rw [log_concat, log_concat, run_concat, List.append_assoc, finished_append_announced hov.2,
      ← List.append_assoc, ih hov.1]

theorem data_run (hov : Along step NoOverflow reset is) :
    log step readOut reset is ++ (run step reset is).dataFifo.contents =
      (is.flatMap presented).map Prod.fst := by
  induction is using List.reverseRecOn with
  | nil => rfl
  | append_singleton is i ih =>
    rw [along_concat] at hov
    have hacc : (run step reset is).dataFifo.accepted i.dataValidIn i.dataIn =
        (presented i).map Prod.fst := by
      cases hv : i.dataValidIn
      · simp [presented, hv]
      · simp [presented, hv, Fifo.accepted_of_lt _ _ (hov.2.1 hv)]
    have hfifo := Fifo.taken_append_clock (run step reset is).dataFifo i.dataValidIn i.dataIn
      i.dataRdreq
    rw [log_concat, run_concat, List.append_assoc, List.flatMap_append, List.map_append,
      ← ih hov.1, List.append_assoc, List.flatMap_singleton, ← hacc, ← hfifo]
    rfl

/-! ## Packets -/

/-- The words accepted are those of the packets announced and those of the packet
    under way. -/
structure Accounts (accepted : List (Word × UdpPort)) (entries : List Word)
    (packets : List (UdpPort × List Word)) (cur : List Word) (s : State) : Prop where
  accepted_eq : accepted = packets.flatMap tagged ++ tagged (s.previousUdpPort, cur)
  entries_eq : entries = packets.map announce
  lengths : ∀ q ∈ packets, q.2.length ≤ maxPacketLength + 1
  cur_length : cur.length = s.packetLengthIn
  cur_le : s.packetLengthIn ≤ maxPacketLength

theorem accounts_reset : Accounts [] [] [] [] reset where
  accepted_eq := rfl
  entries_eq := rfl
  lengths := by simp
  cur_length := rfl
  cur_le := Nat.zero_le _

variable {accepted : List (Word × UdpPort)} {entries : List Word}
  {packets : List (UdpPort × List Word)} {cur : List Word}

/-- A word that continues the packet under way closes it. -/
theorem writer_eop (hi : EopWord i) (hcur : cur.length = s.packetLengthIn)
    (hlen : 1 ≤ s.packetLengthIn) (hport : s.previousUdpPort = i.dataPortIn) :
    tagged (s.previousUdpPort, cur) ++ presented i =
        tagged (i.dataPortIn, cur ++ [i.dataIn]) ∧
      recorded i s = [announce (i.dataPortIn, cur ++ [i.dataIn])] ∧
      (writer i s).packetLengthIn = 0 := by
  obtain ⟨hv, he⟩ := hi
  refine ⟨?_, ?_, ?_⟩
  · simp [tagged, presented, hv, hport]
  · simp [recorded, justClosed, writer, announce, hv, he, hlen, hport, hcur]
  · simp [writer, hv, he]

/-- One edge. At an end-of-packet word nothing is left under way. -/
theorem Accounts.step (h : Accounts accepted entries packets cur s) (hcont : Continues i s) :
    ∃ packets' cur', Accounts (accepted ++ presented i) (entries ++ recorded i s) packets' cur'
        (UdpDataBuffer.step i s) ∧
      (EopWord i → cur' = [] ∧ packets' = packets ++ [(i.dataPortIn, cur ++ [i.dataIn])]) := by
  by_cases hi : EopWord i
  · obtain ⟨hlen, hport⟩ := hcont hi
    obtain ⟨hwords, hrec, hzero⟩ := writer_eop hi h.cur_length hlen hport
    refine ⟨packets ++ [(i.dataPortIn, cur ++ [i.dataIn])], [], ⟨?_, ?_, ?_, hzero.symm, ?_⟩,
      fun _ => ⟨rfl, rfl⟩⟩
    · rw [h.accepted_eq, List.append_assoc, hwords, List.flatMap_append, List.flatMap_singleton]
      simp [tagged]
    · rw [h.entries_eq, hrec, List.map_append, List.map_singleton]
    · intro q hq
      rcases List.mem_append.1 hq with hq | hq
      · exact h.lengths q hq
      · have hcur := h.cur_length.trans_le h.cur_le
        rw [List.mem_singleton.1 hq, List.length_append, List.length_singleton]
        exact Nat.succ_le_succ hcur
    · exact hzero.trans_le (Nat.zero_le _)
  · have heop : i.dataValidIn = true → i.dataEopIn = false := fun hv => by
      simpa [EopWord, hv] using hi
    obtain ⟨new, cur', htag, -, hann, hsize, hlen, hle⟩ := writer_step heop h.cur_length h.cur_le
    refine ⟨packets ++ new, cur', ⟨?_, ?_, fun q hq => ?_, hlen, hle⟩, fun h => absurd h hi⟩
    · rw [h.accepted_eq, List.append_assoc, htag, List.flatMap_append, List.append_assoc]
      rfl
    · rw [h.entries_eq, List.map_append, hann]
      rfl
    · rcases List.mem_append.1 hq with hq | hq
      · exact h.lengths q hq
      · exact (hsize q hq).2.trans (Nat.le_succ _)

theorem accounts_run (hcont : Along step Continues reset is) :
    ∃ packets cur, Accounts (is.flatMap presented) (log step recorded reset is) packets cur
      (run step reset is) := by
  induction is using List.reverseRecOn with
  | nil => exact ⟨[], [], accounts_reset⟩
  | append_singleton is i ih =>
    rw [along_concat] at hcont
    obtain ⟨packets, cur, h⟩ := ih hcont.1
    obtain ⟨packets', cur', h', -⟩ := h.step hcont.2
    refine ⟨packets', cur', ?_⟩
    rwa [log_concat, run_concat, List.flatMap_append, List.flatMap_singleton]

/-! ## Lengths -/

theorem total_append (es fs : List Word) : total (es ++ fs) = total es + total fs := by
  simp [total]

/-- The announcements of packets speak of their words. -/
theorem total_announce (h : ∀ q ∈ packets, q.2.length < 2 ^ 16) :
    total (packets.map announce) = (packets.flatMap tagged).length := by
  induction packets with
  | nil => rfl
  | cons q packets ih =>
    have hq := h q List.mem_cons_self
    have hlen : (hi (announce q)).toNat = q.2.length := by
      rw [announce, infoWord, hi_append, BitVec.toNat_ofNat]
      omega
    rw [List.map_cons, List.flatMap_cons, List.length_append,
      ← ih fun r hr => h r (List.mem_cons_of_mem q hr)]
    rw [total, List.map_cons, List.sum_cons, hlen, tagged, List.length_map]
    rfl

theorem Accounts.lt (h : Accounts accepted entries packets cur s) :
    ∀ q ∈ packets, q.2.length < 2 ^ 16 := by
  intro q hq
  have := h.lengths q hq
  have hmax : maxPacketLength = 350 := rfl
  omega

/-! ## End of packet -/

/-- A word that continues the packet under way is recorded. -/
theorem recorded_of_continues (hov : Along step NoOverflow reset (js ++ [i]))
    (hcont : Along step Continues reset (js ++ [i])) (hi : EopWord i) : Recorded js i := by
  have hdata := congrArg List.length (data_run hov)
  have hinfo := congrArg total (announced_run hov)
  rw [along_concat] at hcont
  obtain ⟨packets, cur, h⟩ := accounts_run hcont.1
  obtain ⟨packets', cur', h', hclosed⟩ := h.step hcont.2
  obtain ⟨rfl, rfl⟩ := hclosed hi
  have hwords : (js ++ [i]).flatMap presented =
      (packets ++ [(i.dataPortIn, cur ++ [i.dataIn])]).flatMap tagged := by
    rw [List.flatMap_append, List.flatMap_singleton, h'.accepted_eq]
    exact List.append_nil _
  have hentries : log step recorded reset (js ++ [i]) =
      (packets ++ [(i.dataPortIn, cur ++ [i.dataIn])]).map announce := by
    rw [log_concat, h'.entries_eq]
  refine ⟨packets, cur, hentries, h'.lt, hwords, ?_⟩
  rw [List.length_append, List.length_map, hwords, ← total_announce h'.lt, ← hentries] at hdata
  rw [total_append] at hinfo
  omega

/-- A word that is recorded as it should has continued the packet under way. -/
theorem Recorded.continues (h : Recorded js i) (hcont : Along step Continues reset js)
    (hi : EopWord i) : Continues i (run step reset js) := by
  intro _
  obtain ⟨packets, cur, hacc⟩ := accounts_run hcont
  obtain ⟨packets', ws, hentries, hlt, hwords, -⟩ := h
  obtain ⟨hv, he⟩ := hi
  rw [log_concat, hacc.entries_eq] at hentries
  rw [List.flatMap_append, List.flatMap_singleton, hacc.accepted_eq] at hwords
  by_cases hlen : 1 ≤ (run step reset js).packetLengthIn
  · refine ⟨hlen, ?_⟩
    -- the packet under way is announced, under its own port
    have hrec : recorded i (run step reset js) = [infoWord
        ((run step reset js).packetLengthIn + 1) (run step reset js).previousUdpPort] := by
      simp [recorded, justClosed, writer, hv, he, hlen]
    rw [hrec, List.map_append, List.map_singleton] at hentries
    have hlast := congrArg List.getLast? hentries
    rw [List.getLast?_concat, List.getLast?_concat, Option.some_inj] at hlast
    have hport := congrArg lo hlast
    rwa [announce, infoWord, infoWord, lo_append, lo_append] at hport
  · -- nothing is announced, and the word is in no packet
    have hrec : recorded i (run step reset js) = [] := by
      simp [recorded, justClosed, writer, hv, he, hlen]
    have hcur : cur = [] := by
      apply List.eq_nil_of_length_eq_zero
      have := hacc.cur_length
      omega
    have htotal := congrArg total hentries
    have hcount := congrArg List.length hwords
    rw [hrec, List.append_nil, total_announce hlt, total_announce hacc.lt] at htotal
    rw [← htotal, hcur, presented, if_pos hv] at hcount
    simp [tagged] at hcount

/-- When no FIFO overflows, every end-of-packet word is recorded as it should iff
    each of them continues a packet of its port that is under way. -/
theorem eop_recorded_iff (hov : Along step NoOverflow reset is) :
    (∀ js i, js ++ [i] <+: is → EopWord i → Recorded js i) ↔ Along step Continues reset is := by
  constructor
  · intro hall
    induction is using List.reverseRecOn with
    | nil => exact along_nil _ _ _
    | append_singleton is i ih =>
      rw [along_concat] at hov ⊢
      have hcont := ih hov.1 fun js j hpre => hall js j (hpre.trans (List.prefix_append _ _))
      exact ⟨hcont, fun hi => (hall is i List.prefix_rfl hi).continues hcont hi hi⟩
  · intro hcont js i hpre hi
    obtain ⟨ks, rfl⟩ := hpre
    exact recorded_of_continues (hov.of_isPrefix) (hcont.of_isPrefix) hi

/-- An edge with a word for port `port`. -/
def wordEdge (port : UdpPort) (eop : Bool) : Input := ⟨0xABCD0123, true, port, false, eop, false⟩

/-- Two words for one port, the second with `data_eop_in`. -/
theorem eop_recorded_iff_twoWords :
    Recorded [wordEdge 4096 false] (wordEdge 4096 true) := by
  have hov : Along step NoOverflow reset [wordEdge 4096 false, wordEdge 4096 true] := by decide
  have hcont : Along step Continues reset [wordEdge 4096 false, wordEdge 4096 true] :=
    ⟨fun h => absurd h.2 (by decide), fun _ => by decide, trivial⟩
  exact (eop_recorded_iff hov).2 hcont _ _ List.prefix_rfl ⟨rfl, rfl⟩

/-- A packet of one word with `data_eop_in` is not recorded: its word stays in the
    data FIFO, and no announcement speaks of it. -/
theorem single_word_lost :
    Along step NoOverflow reset [wordEdge 4096 true] ∧ EopWord (wordEdge 4096 true) ∧
      ¬Recorded [] (wordEdge 4096 true) := by
  refine ⟨by decide, ⟨rfl, rfl⟩, ?_⟩
  rintro ⟨packets, ws, hentries, -⟩
  have hlen := congrArg List.length hentries
  have hnone : log step recorded reset ([] ++ [wordEdge 4096 true]) = [] := by decide
  rw [hnone] at hlen
  simp at hlen

end FpgaEthernet.UdpDataBuffer
