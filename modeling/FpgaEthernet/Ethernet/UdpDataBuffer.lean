import FpgaEthernet.Clocked.Run
import FpgaEthernet.Clocked.Fifo
import FpgaEthernet.Ethernet.EthCommon

/-!
# `udp_data_buffer`

Model of `ethernet/udp_data_buffer.vhd` with `wrclock = rdclock`: the data FIFO,
the process that decides where a packet ends, and the info FIFO that holds the
length and the port of every complete packet.

The vendor FIFOs are ideal (`Clocked.Fifo`): `fifo_32x2048` has a registered
output, `scfifo_sa_32x16` is show-ahead.

Main results:

* `writer_step`: the words written since the last packet was closed, together
  with the new one, are the packet that is closed at this edge, if any, followed
  by the words of the next one.
* `Buffers.advance`, `Buffers.pop`: the words accepted are those of the packets
  already read, those of the packets announced in the info FIFO and its input
  registers, and those of the packet not yet closed.
-/

namespace FpgaEthernet

/-- `IN_FIFO_STALE_THRESHOLD` (`eth_common.vhd` line 59). -/
def inFifoStaleThreshold : ℕ := 125000

namespace UdpDataBuffer

open Clocked

/-! ## Model -/

/-- `MAX_PACKET_LENGTH` (`udp_data_buffer.vhd` line 103). -/
def maxPacketLength : ℕ := 350

/-- The input ports (lines 48-60). -/
structure Input where
  dataIn : Word
  dataValidIn : Bool
  dataPortIn : UdpPort
  dataRdreq : Bool
  dataEopIn : Bool
  packetFinished : Bool
  deriving DecidableEq

/-- The registers, and the two FIFOs; `dataOut` is the output register of the
    data FIFO. -/
structure State where
  packetLengthIn : ℕ
  timeoutCounter : ℕ
  previousUdpPort : UdpPort
  lastUdpPort : UdpPort
  lastPacketLength : ℕ
  infoValid : Bool
  infoIn : Word
  infoWrreq : Bool
  dataFifo : Fifo Word 2048
  dataOut : Word
  infoFifo : Fifo Word 16
  deriving DecidableEq

/-- What `info_in` is loaded with (line 138). -/
def infoWord (length : ℕ) (port : UdpPort) : Word :=
  (BitVec.ofNat 16 length ++ port : BitVec 32)

/-- `payload_rdy` (line 128). -/
def payloadRdy (s : State) : Bool := !s.infoFifo.contents.isEmpty

/-- The output of the show-ahead info FIFO. -/
def infoOut (s : State) : Word := s.infoFifo.contents.headD 0

/-- `payload_len` (line 129). -/
def payloadLen (s : State) : BitVec 9 := (infoOut s).extractLsb' 16 9

/-- `data_port_out` (line 130). -/
def dataPortOut (s : State) : UdpPort := lo (infoOut s)

/-- The process that closes packets (lines 151-208). -/
def writer (i : Input) (s : State) : State :=
  if i.dataValidIn then
    if maxPacketLength ≤ s.packetLengthIn ∨ s.previousUdpPort ≠ i.dataPortIn ∨ i.dataEopIn then
      { s with
        timeoutCounter := 0
        infoValid := decide (1 ≤ s.packetLengthIn)
        lastPacketLength :=
          if 1 ≤ s.packetLengthIn then
            if i.dataEopIn then s.packetLengthIn + 1 else s.packetLengthIn
          else s.lastPacketLength
        lastUdpPort := if 1 ≤ s.packetLengthIn then s.previousUdpPort else s.lastUdpPort
        packetLengthIn := if i.dataEopIn then 0 else 1
        previousUdpPort := i.dataPortIn }
    else
      { s with
        timeoutCounter := 0
        infoValid := false
        packetLengthIn := s.packetLengthIn + 1 }
  else if 1 ≤ s.packetLengthIn ∧ s.timeoutCounter ≤ inFifoStaleThreshold then
    { s with timeoutCounter := s.timeoutCounter + 1, infoValid := false }
  else if 1 ≤ s.packetLengthIn ∧ inFifoStaleThreshold < s.timeoutCounter then
    { s with
      lastPacketLength := s.packetLengthIn
      lastUdpPort := s.previousUdpPort
      infoValid := true
      packetLengthIn := 0
      timeoutCounter := 0 }
  else { s with timeoutCounter := 0, infoValid := false }

/-- One clock edge: the packet closing process, the input register of the info
    FIFO (lines 135-141) and the two FIFOs (lines 211-234). -/
def step (i : Input) (s : State) : State :=
  { writer i s with
    infoIn := infoWord s.lastPacketLength s.lastUdpPort
    infoWrreq := s.infoValid
    dataFifo := s.dataFifo.clock i.dataValidIn i.dataIn i.dataRdreq
    dataOut := s.dataFifo.nextQ i.dataRdreq s.dataOut
    infoFifo := s.infoFifo.clock s.infoWrreq s.infoIn i.packetFinished }

/-- The registers when reset is released. -/
def reset : State where
  packetLengthIn := 0
  timeoutCounter := 0
  previousUdpPort := 0
  lastUdpPort := 0
  lastPacketLength := 0
  infoValid := false
  infoIn := 0
  infoWrreq := false
  dataFifo := Fifo.empty
  dataOut := 0
  infoFifo := Fifo.empty

/-- The word and port presented at an edge. -/
def presented (i : Input) : List (Word × UdpPort) :=
  if i.dataValidIn then [(i.dataIn, i.dataPortIn)] else []

/-- Neither FIFO overflows at this edge. -/
def NoOverflow (i : Input) (s : State) : Prop :=
  (i.dataValidIn = true → s.dataFifo.contents.length < 2048) ∧
    (s.infoWrreq = true → s.infoFifo.contents.length < 16)

instance (i : Input) (s : State) : Decidable (NoOverflow i s) := by
  unfold NoOverflow
  infer_instance

/-! ## Closing packets -/

/-- The words of a packet, each with the port of the packet. -/
def tagged (q : UdpPort × List Word) : List (Word × UdpPort) := q.2.map fun w => (w, q.1)

/-- The info FIFO entry that announces a packet. -/
def announce (q : UdpPort × List Word) : Word := infoWord q.2.length q.1

/-- The announcement in the output registers of the packet closing process. -/
def justClosed (s : State) : List Word :=
  if s.infoValid then [infoWord s.lastPacketLength s.lastUdpPort] else []

/-- The words written since the last packet was closed, together with the new
    one, are the packet that is closed at this edge, if any, followed by the
    words of the next one. -/
theorem writer_step {i : Input} {s : State} {cur : List Word}
    (heop : i.dataValidIn = true → i.dataEopIn = false)
    (hcur : cur.length = s.packetLengthIn) (hle : s.packetLengthIn ≤ maxPacketLength) :
    ∃ (new : List (UdpPort × List Word)) (cur' : List Word),
      tagged (s.previousUdpPort, cur) ++ presented i =
        new.flatMap tagged ++ tagged ((writer i s).previousUdpPort, cur') ∧
      cur ++ (presented i).map Prod.fst = new.flatMap Prod.snd ++ cur' ∧
      new.map announce = justClosed (writer i s) ∧
      (∀ q ∈ new, 1 ≤ q.2.length ∧ q.2.length ≤ maxPacketLength) ∧
      cur'.length = (writer i s).packetLengthIn ∧
      (writer i s).packetLengthIn ≤ maxPacketLength := by
  by_cases hv : i.dataValidIn = true
  · have heop := heop hv
    by_cases hclose : maxPacketLength ≤ s.packetLengthIn ∨ s.previousUdpPort ≠ i.dataPortIn ∨
        i.dataEopIn = true
    · -- a word that does not fit into the current packet
      rw [writer, if_pos hv, if_pos hclose]
      by_cases hlen : 1 ≤ s.packetLengthIn
      · refine ⟨[(s.previousUdpPort, cur)], [i.dataIn], ?_, ?_, ?_, ?_, ?_, ?_⟩ <;>
          simp [presented, tagged, justClosed, announce, hv, hlen, heop, hcur, maxPacketLength]
        exact hle
      · have hnil : cur = [] := List.eq_nil_of_length_eq_zero (by omega)
        refine ⟨[], [i.dataIn], ?_, ?_, ?_, ?_, ?_, ?_⟩ <;>
          simp [presented, tagged, justClosed, hv, heop, hnil, maxPacketLength]
        omega
    · -- one more word for the current packet
      rw [writer, if_pos hv, if_neg hclose]
      obtain ⟨hlt, hport, -⟩ : s.packetLengthIn < maxPacketLength ∧
          s.previousUdpPort = i.dataPortIn ∧ ¬ i.dataEopIn = true := by
        simpa only [not_or, not_le, not_not] using hclose
      refine ⟨[], cur ++ [i.dataIn], ?_, ?_, ?_, ?_, ?_, ?_⟩ <;>
        simp [presented, tagged, justClosed, hv, hport, hcur]
      exact hlt
  · have hp : presented i = [] := by simp [presented, hv]
    rw [writer, if_neg hv, hp]
    by_cases hwait : 1 ≤ s.packetLengthIn ∧ s.timeoutCounter ≤ inFifoStaleThreshold
    · -- the counter runs
      rw [if_pos hwait]
      exact ⟨[], cur, by simp, by simp, by simp [justClosed], by simp, hcur, hle⟩
    · rw [if_neg hwait]
      by_cases hstale : 1 ≤ s.packetLengthIn ∧ inFifoStaleThreshold < s.timeoutCounter
      · -- the data has gone stale
        rw [if_pos hstale]
        refine ⟨[(s.previousUdpPort, cur)], [], ?_, ?_, ?_, ?_, ?_, ?_⟩ <;>
          simp [tagged, justClosed, announce, hcur, hle, hstale.1]
      · rw [if_neg hstale]
        exact ⟨[], cur, by simp, by simp, by simp [justClosed], by simp, hcur, hle⟩

/-! ## The packets in the buffer -/

/-- The announcements under way: in the info FIFO, in its input register and in
    the output registers of the packet closing process. -/
def announced (s : State) : List Word :=
  s.infoFifo.contents ++ (if s.infoWrreq then [s.infoIn] else []) ++ justClosed s

/-- The words accepted so far are those of the packets `gone`, those of the
    packets `waiting`, each of which is announced, and those of the packet `cur`
    not yet closed. Of the first waiting packet the words `pay` have been read. -/
structure Buffers (accepted : List (Word × UdpPort)) (gone waiting : List (UdpPort × List Word))
    (cur pay : List Word) (s : State) : Prop where
  accepted_eq : accepted = gone.flatMap tagged ++ waiting.flatMap tagged ++
    tagged (s.previousUdpPort, cur)
  announced_eq : waiting.map announce = announced s
  lengths : ∀ q ∈ gone ++ waiting, 1 ≤ q.2.length ∧ q.2.length ≤ maxPacketLength
  cur_length : cur.length = s.packetLengthIn
  cur_le : s.packetLengthIn ≤ maxPacketLength
  data : pay ++ s.dataFifo.contents = waiting.flatMap Prod.snd ++ cur
  dataOut : ∀ w, pay.getLast? = some w → s.dataOut = w

theorem buffers_reset : Buffers [] [] [] [] [] reset where
  accepted_eq := rfl
  announced_eq := rfl
  lengths := by simp
  cur_length := rfl
  cur_le := Nat.zero_le _
  data := rfl
  dataOut := by simp

/-- The announcements after an edge. -/
theorem announced_step {i : Input} {s : State} (hov : NoOverflow i s)
    (hpop : i.packetFinished = true → s.infoFifo.contents ≠ []) :
    announced (step i s) =
      (if i.packetFinished then (announced s).tail else announced s) ++
        justClosed (writer i s) := by
  have hacc : s.infoFifo.accepted s.infoWrreq s.infoIn =
      if s.infoWrreq then [s.infoIn] else [] := by
    cases hw : s.infoWrreq
    · simp
    · simp [Fifo.accepted_of_lt _ _ (hov.2 hw)]
  have hlast : (if (step i s).infoWrreq then [(step i s).infoIn] else []) = justClosed s := rfl
  have hjust : justClosed (step i s) = justClosed (writer i s) := rfl
  rw [announced, hlast, hjust]
  simp only [step, Fifo.clock_contents, hacc]
  cases hf : i.packetFinished
  · simp [announced]
  · obtain ⟨w, ws, hc⟩ := List.exists_cons_of_ne_nil (hpop hf)
    simp [announced, hc]

/-- One edge: the writer may announce one more packet, and a read request takes
    a word of the first waiting packet. -/
theorem Buffers.advance {accepted : List (Word × UdpPort)}
    {gone waiting : List (UdpPort × List Word)} {cur pay : List Word} {i : Input} {s : State}
    (h : Buffers accepted gone waiting cur pay s)
    (heop : i.dataEopIn = false) (hov : NoOverflow i s) (hpop : i.packetFinished = false)
    (hread : i.dataRdreq = true → s.dataFifo.contents ≠ []) :
    ∃ new cur', Buffers (accepted ++ presented i) gone (waiting ++ new) cur'
      (pay ++ s.dataFifo.taken i.dataRdreq) (step i s) := by
  obtain ⟨new, cur', htag, hdata, hann, hsize, hlen, hle⟩ :=
    writer_step (fun _ => heop) h.cur_length h.cur_le
  have hacc : s.dataFifo.accepted i.dataValidIn i.dataIn = (presented i).map Prod.fst := by
    cases hv : i.dataValidIn
    · simp [presented, hv]
    · simp [presented, hv, Fifo.accepted_of_lt _ _ (hov.1 hv)]
  refine ⟨new, cur', ?_, ?_, ?_, hlen, hle, ?_, ?_⟩
  · rw [h.accepted_eq, List.append_assoc, htag, List.flatMap_append]
    simp [step]
  · rw [announced_step hov (by simp [hpop]), List.map_append, h.announced_eq, hann, hpop]
    simp
  · intro q hq
    rw [← List.append_assoc] at hq
    rcases List.mem_append.1 hq with hq | hq
    · exact h.lengths q hq
    · exact hsize q hq
  · rw [List.append_assoc, List.flatMap_append, List.append_assoc, ← hdata, ← hacc,
      ← List.append_assoc (waiting.flatMap _), ← h.data, List.append_assoc pay]
    exact congrArg (pay ++ ·) (Fifo.taken_append_clock _ _ _ _)
  · intro w hw
    cases hr : i.dataRdreq
    · simp only [hr, Fifo.taken_false, List.append_nil] at hw
      simpa [step, hr] using h.dataOut w hw
    · rw [hr, Fifo.taken_eq_nextQ _ s.dataOut (hread hr), List.getLast?_concat] at hw
      simpa [step, hr] using hw

/-- When the first waiting packet has been read, `packet_finished` moves on to
    the next one. -/
theorem Buffers.pop {accepted : List (Word × UdpPort)} {gone waiting : List (UdpPort × List Word)}
    {q : UdpPort × List Word} {cur : List Word} {i : Input} {s : State}
    (h : Buffers accepted gone (q :: waiting) cur q.2 s) (heop : i.dataEopIn = false)
    (hov : NoOverflow i s) (hpop : i.packetFinished = true) (hread : i.dataRdreq = false)
    (hinfo : s.infoFifo.contents ≠ []) :
    ∃ new cur', Buffers (accepted ++ presented i) (gone ++ [q]) (waiting ++ new) cur' []
      (step i s) := by
  obtain ⟨new, cur', htag, hdata, hann, hsize, hlen, hle⟩ :=
    writer_step (fun _ => heop) h.cur_length h.cur_le
  have hacc : s.dataFifo.accepted i.dataValidIn i.dataIn = (presented i).map Prod.fst := by
    cases hv : i.dataValidIn
    · simp [presented, hv]
    · simp [presented, hv, Fifo.accepted_of_lt _ _ (hov.1 hv)]
  refine ⟨new, cur', ?_, ?_, ?_, hlen, hle, ?_, by simp⟩
  · rw [h.accepted_eq, List.append_assoc, htag, List.flatMap_append]
    simp [step]
  · rw [announced_step hov (fun _ => hinfo), List.map_append, hann, hpop, ← h.announced_eq]
    simp
  · intro r hr
    rw [← List.append_assoc, List.append_assoc gone] at hr
    rcases List.mem_append.1 hr with hr | hr
    · exact h.lengths r hr
    · exact hsize r hr
  · have hd : s.dataFifo.contents = waiting.flatMap Prod.snd ++ cur := by
      simpa using h.data
    rw [List.nil_append, List.flatMap_append, List.append_assoc, ← hdata, ← hacc,
      ← List.append_assoc, ← hd]
    simp [step, hread]

end UdpDataBuffer

end FpgaEthernet
