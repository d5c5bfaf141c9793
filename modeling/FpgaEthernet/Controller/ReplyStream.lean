import FpgaEthernet.Clocked.InputBuffer
import FpgaEthernet.Controller.CommandResponseGenerator

/-!
# Replies to commands

What `command_response_generator` says to the commands that are acknowledged to it. The
data words of `GUT` and `GEC` are those of the uptime counter and the error register at
the edge at which they are read, whatever `udp_ready`, `command_done` and `command_error`
do.

Main results:

* `Replying.next`: the words said are whole replies and the beginning of the one under
  way, in the order of the commands.
* `Replying.answers`: with the line granted often enough all commands are answered.
* `commands_answered`: what is output along a run.
-/

namespace FpgaEthernet.CommandResponseGenerator

open Clocked Command

/-! ## Specification -/

/-- The commands the generator says `DON` for. -/
def selfCompleting : List Command :=
  [cmdClearError, cmdResetCabac, cmdGetTs, cmdGetError, cmdEpcqSeta, cmdEpcqClear, cmdGetCmdList,
    cmdGetUptime]

/-- A command as a word of a reply. -/
def echo (c : Command) : Word := ((0xF0 : BitVec 8) ++ c : BitVec 32)

/-- A command as an entry of the command list. -/
def entry (c : Command) : Word := ((0x00 : BitVec 8) ++ c : BitVec 32)

/-- The commands whose data word is read off a register. -/
def Reads (c : Command) : Prop := c = cmdGetError ∨ c = cmdGetUptime

instance : DecidablePred Reads := fun _ => inferInstanceAs (Decidable (_ ∨ _))

/-- The data words of a command, where `w` is the word that is read, if one is. -/
def dataWords (epochInt : ℕ) (c : Command) (w : Word) : List Word :=
  if Reads c then [w]
  else if c = cmdGetTs then [BitVec.ofNat 32 epochInt]
  else if c = cmdGetCmdList then validCommands.map entry
  else []

/-- How a reply ends. -/
def ending (c : Command) : List Word :=
  if c ∈ selfCompleting then [echo cmdDone]
  else if isValidCommand c then []
  else [echo cmdInvalid]

/-- What the generator says: the reply to a command, and the words for a command that has
    finished and for an error. -/
inductive Segment
  | reply (c : Command) (w : Word)
  | done
  | error
  deriving DecidableEq

/-- The words of a segment. -/
def Segment.words (epochInt : ℕ) : Segment → List Word
  | reply c w => echo c :: dataWords epochInt c w ++ ending c
  | done => [echo cmdDone]
  | error => [echo cmdError]

/-- The command that is replied to. -/
def Segment.command : Segment → Option Command
  | reply c _ => some c
  | done => none
  | error => none

/-- The word that has been read for it. -/
def Segment.read : Segment → List Word
  | reply c w => if Reads c then [w] else []
  | done => []
  | error => []

/-- The command of a word. -/
def commandOf (w : Word) : Command := w.extractLsb' 0 24

/-- The commands acknowledged. -/
def acked (i : Input) (_ : State) : List Command :=
  if i.sendCmdAck then [commandOf i.dataIn] else []

/-- The word that is output. -/
def output (s : State) : List Word := if s.dataOutValid then [s.dataOut] else []

/-- The uptime and the error code that are read for a reply. -/
def reading (i : Input) (s : State) : List Word :=
  match s.nextState with
  | .replyUptime => [s.uptime.uptimeSeconds]
  | .replyErrorCode =>
    [(BitVec.ofBool i.commandError ++ s.errorCodeReg.extractLsb' 0 31 : BitVec 32)]
  | _ => []

/-- The command buffer with its registers. -/
def buffer (s : State) : InputBuffer Word 16 :=
  ⟨s.cmdbuffWrreq, s.cmdbuffData, s.cmdbuff, s.cmdbuffQ⟩

/-- The number of commands that wait. -/
def waiting (s : State) : ℕ := (buffer s).held.length

/-- Neither `DON` nor `ERR`. -/
def Proper (c : Command) : Prop := c ≠ cmdDone ∧ c ≠ cmdError

instance : DecidablePred Proper := fun _ => inferInstanceAs (Decidable (_ ∧ _))

/-! ## An edge -/

section

variable {epochInt : ℕ} {i : Input} {s : State}

/-- The word in the registers of the reply. -/
def said (s : State) : List Word := if s.udpValidSig then [s.udpDataSig] else []

/-- What an edge does to the registers of the machine. -/
structure Moves (s' : State) (n : StateType) (rdreq : Bool) (curr : Command) (idx : ℕ)
    (words : List Word) : Prop where
  nextState : s'.nextState = n
  rdreq : s'.cmdbuffRdreq = rdreq
  curr : s'.currCommand = curr
  idx : s'.cmdIdx = idx
  said : said s' = words

theorem buffer_step :
    buffer (step epochInt i s) = (buffer s).clock s.cmdbuffRdreq i.sendCmdAck i.dataIn := by
  unfold step stateMachine
  cases s.nextState <;> dsimp only <;> (try split_ifs) <;> rfl

theorem held_step (epochInt : ℕ) (i : Input) (s : State) (hcap : waiting s ≤ 16) :
    (buffer s).fifo.taken s.cmdbuffRdreq ++ (buffer (step epochInt i s)).held =
      (buffer s).held ++ if i.sendCmdAck then [i.dataIn] else [] := by
  rw [buffer_step]
  exact InputBuffer.taken_append_held _ _ hcap

theorem usedw_step (epochInt : ℕ) (i : Input) (s : State) :
    (if s.cmdbuffRdreq then (buffer s).usedw - 1 else (buffer s).usedw) ≤
      (buffer (step epochInt i s)).usedw := by
  rw [buffer_step]
  exact InputBuffer.usedw_clock_le _ _

theorem output_step : output (step epochInt i s) = said s := by
  unfold step stateMachine
  cases s.nextState <;> dsimp only <;> (try split_ifs) <;> rfl

theorem moves_hwReset (hs : s.nextState = .hwReset) :
    Moves (step epochInt i s) .idle false s.currCommand s.cmdIdx [] := by
  constructor <;> simp [step, stateMachine, hs, defaults, outputRegister, said]

theorem moves_waitBuffer (hs : s.nextState = .waitBuffer) :
    Moves (step epochInt i s) .readBuffer false s.currCommand s.cmdIdx [] := by
  constructor <;> simp [step, stateMachine, hs, defaults, outputRegister, said]

theorem moves_readBuffer (hs : s.nextState = .readBuffer) :
    Moves (step epochInt i s) .txReqWait false (commandOf s.cmdbuffQ) s.cmdIdx [] := by
  constructor <;> simp [step, stateMachine, hs, defaults, outputRegister, said, commandOf]

theorem moves_txReqWait (hs : s.nextState = .txReqWait) :
    Moves (step epochInt i s) (if i.udpReady then .processReply else .txReqWait) false s.currCommand
      s.cmdIdx [] := by
  constructor <;> simp only [step, stateMachine, hs] <;> split_ifs <;> rfl

theorem moves_processReply (hs : s.nextState = .processReply) :
    Moves (step epochInt i s) (replyState s.currCommand) false s.currCommand
      (if s.currCommand = cmdGetCmdList then 0 else s.cmdIdx) [echo s.currCommand] := by
  constructor <;> simp [step, stateMachine, hs, defaults, outputRegister, said, send, echo]

theorem moves_replyTimestamp (hs : s.nextState = .replyTimestamp) :
    Moves (step epochInt i s) .replyDone false s.currCommand s.cmdIdx
      [BitVec.ofNat 32 epochInt] := by
  constructor <;> simp [step, stateMachine, hs, defaults, outputRegister, said, send]

/-- The word that is read goes out. -/
theorem moves_replyRead (hs : s.nextState = .replyUptime ∨ s.nextState = .replyErrorCode) :
    Moves (step epochInt i s) .replyDone false s.currCommand s.cmdIdx (reading i s) := by
  rcases hs with hs | hs <;>
    constructor <;> simp [step, stateMachine, hs, defaults, outputRegister, said, send, reading]

theorem moves_replyCmdList (hs : s.nextState = .replyCmdList) :
    Moves (step epochInt i s)
      (if validCommands.length - 1 ≤ s.cmdIdx then .replyDone else .replyCmdList) false
      s.currCommand (if validCommands.length - 1 ≤ s.cmdIdx then s.cmdIdx else s.cmdIdx + 1)
      [entry (validCommands.getD s.cmdIdx 0)] := by
  constructor <;> simp only [step, stateMachine, hs] <;> split_ifs <;> rfl

theorem moves_replyDone (hs : s.nextState = .replyDone) :
    Moves (step epochInt i s) .idle false s.currCommand s.cmdIdx [echo cmdDone] := by
  constructor <;> simp [step, stateMachine, hs, defaults, outputRegister, said, send, echo]

theorem moves_replyInvalid (hs : s.nextState = .replyInvalid) :
    Moves (step epochInt i s) .idle false s.currCommand s.cmdIdx [echo cmdInvalid] := by
  constructor <;> simp [step, stateMachine, hs, defaults, outputRegister, said, send, echo]

theorem moves_idle_reads (hs : s.nextState = .idle) (h : (buffer s).fifo.contents ≠ []) :
    Moves (step epochInt i s) .waitBuffer true s.currCommand s.cmdIdx [] := by
  have hsome : s.cmdbuff.contents ≠ [] := h
  constructor <;> simp only [step, stateMachine, hs, if_pos hsome] <;> rfl

/-- With the buffer empty the machine reports an error or a finished command, or rests. -/
theorem moves_idle_empty (hs : s.nextState = .idle) (h : (buffer s).fifo.contents = []) :
    Moves (step epochInt i s) .txReqWait false cmdError s.cmdIdx [] ∨
      Moves (step epochInt i s) .txReqWait false cmdDone s.cmdIdx [] ∨
        Moves (step epochInt i s) .idle false s.currCommand s.cmdIdx [] := by
  have hempty : ¬s.cmdbuff.contents ≠ [] := not_not.2 h
  by_cases herror : s.commandErrorReg = true ∧ s.repliedError = false
  · refine Or.inl ?_
    constructor <;> simp only [step, stateMachine, hs, if_neg hempty, if_pos herror] <;> rfl
  · by_cases hdone : s.commandDoneReg = true ∧ s.repliedDone = false
    · refine Or.inr (Or.inl ?_)
      constructor <;>
        simp only [step, stateMachine, hs, if_neg hempty, if_neg herror, if_pos hdone] <;> rfl
    · refine Or.inr (Or.inr ?_)
      constructor <;>
        simp only [step, stateMachine, hs, if_neg hempty, if_neg herror, if_neg hdone] <;> rfl

/-! ## A reply -/

theorem dataWords_of_not_special {c : Command} {w : Word}
    (h : ¬Reads c ∧ c ≠ cmdGetTs ∧ c ≠ cmdGetCmdList) : dataWords epochInt c w = [] := by
  rw [dataWords, if_neg h.1, if_neg h.2.1, if_neg h.2.2]

theorem not_special_of_not_mem {c : Command} (h : c ∉ selfCompleting) :
    ¬Reads c ∧ c ≠ cmdGetTs ∧ c ≠ cmdGetCmdList := by
  refine ⟨?_, ?_, ?_⟩
  · rintro (rfl | rfl) <;> exact h (by decide)
  · rintro rfl
    exact h (by decide)
  · rintro rfl
    exact h (by decide)

/-- Where a reply goes on after the echo. -/
theorem replyState_cases {c : Command} (h : Proper c) :
    (replyState c = .replyDone ∧ c ∈ selfCompleting ∧ ¬Reads c ∧ c ≠ cmdGetTs ∧ c ≠ cmdGetCmdList) ∨
      (replyState c = .replyTimestamp ∧ c = cmdGetTs) ∨
      ((replyState c = .replyUptime ∨ replyState c = .replyErrorCode) ∧ Reads c) ∨
      (replyState c = .replyCmdList ∧ c = cmdGetCmdList) ∨
      (replyState c = .idle ∧ c ∉ selfCompleting ∧ isValidCommand c = true) ∨
      (replyState c = .replyInvalid ∧ c ∉ selfCompleting ∧ isValidCommand c = false) := by
  unfold replyState
  by_cases hself : c ∈ selfCompleting
  · simp only [selfCompleting, List.mem_cons, List.not_mem_nil, or_false] at hself
    rcases hself with rfl | rfl | rfl | rfl | rfl | rfl | rfl | rfl <;> decide
  · have hne : c ≠ cmdClearError ∧ c ≠ cmdResetCabac ∧ c ≠ cmdGetTs ∧ c ≠ cmdGetError ∧
        c ≠ cmdEpcqSeta ∧ c ≠ cmdEpcqClear ∧ c ≠ cmdGetCmdList ∧ c ≠ cmdGetUptime := by
      simpa only [selfCompleting, List.mem_cons, List.not_mem_nil, or_false, not_or] using hself
    obtain ⟨h1, h2, h3, h4, h5, h6, h7, h8⟩ := hne
    rw [if_neg h1, if_neg h2, if_neg h.1, if_neg h.2, if_neg h3, if_neg h4, if_neg h5, if_neg h6,
      if_neg h7, if_neg h8]
    cases hvalid : isValidCommand c with
    | true => exact Or.inr (Or.inr (Or.inr (Or.inr (Or.inl ⟨rfl, hself, rfl⟩))))
    | false => exact Or.inr (Or.inr (Or.inr (Or.inr (Or.inr ⟨rfl, hself, rfl⟩))))

/-- How far the machine is: the words of the reply under way that are out, the word that
    has been read for it, and the command. -/
inductive Stage (epochInt : ℕ) (s : State) : List Word → List Word → List Command → Prop
  | resting : s.nextState = .hwReset ∨ s.nextState = .idle → s.cmdbuffRdreq = false →
      Stage epochInt s [] [] []
  | popping : s.nextState = .waitBuffer → s.cmdbuffRdreq = true → 1 ≤ (buffer s).usedw →
      Stage epochInt s [] [] []
  | popped : s.nextState = .readBuffer → s.cmdbuffRdreq = false →
      Stage epochInt s [] [] [commandOf s.cmdbuffQ]
  | asking : s.nextState = .txReqWait ∨ s.nextState = .processReply → s.cmdbuffRdreq = false →
      Proper s.currCommand → Stage epochInt s [] [] [s.currCommand]
  | reporting : s.nextState = .txReqWait ∨ s.nextState = .processReply → s.cmdbuffRdreq = false →
      s.currCommand = cmdDone ∨ s.currCommand = cmdError → Stage epochInt s [] [] []
  | fetching : s.nextState = .replyUptime ∨ s.nextState = .replyErrorCode →
      s.cmdbuffRdreq = false → Reads s.currCommand →
      Stage epochInt s [echo s.currCommand] [] [s.currCommand]
  | stamping : s.nextState = .replyTimestamp → s.cmdbuffRdreq = false →
      s.currCommand = cmdGetTs → Stage epochInt s [echo s.currCommand] [] [s.currCommand]
  | listing : s.nextState = .replyCmdList → s.cmdbuffRdreq = false →
      s.currCommand = cmdGetCmdList → s.cmdIdx < validCommands.length →
      Stage epochInt s (echo s.currCommand :: (validCommands.take s.cmdIdx).map entry) []
        [s.currCommand]
  | closing (w : Word) : s.nextState = .replyDone → s.cmdbuffRdreq = false →
      s.currCommand ∈ selfCompleting →
      Stage epochInt s (echo s.currCommand :: dataWords epochInt s.currCommand w)
        (Segment.reply s.currCommand w).read [s.currCommand]
  | refusing : s.nextState = .replyInvalid → s.cmdbuffRdreq = false →
      s.currCommand ∉ selfCompleting → isValidCommand s.currCommand = false →
      Stage epochInt s [echo s.currCommand] [] [s.currCommand]

/-- After an edge some segments are complete, and the machine is at the stage after them. -/
def Continues (epochInt : ℕ) (part readings : List Word) (cmds : List Command) (i : Input)
    (s : State) : Prop :=
  ∃ (segs : List Segment) (part' readings' : List Word) (cmds' : List Command),
    part ++ said (step epochInt i s) = segs.flatMap (Segment.words epochInt) ++ part' ∧
    readings ++ reading i s = segs.flatMap Segment.read ++ readings' ∧
    cmds ++ ((buffer s).fifo.taken s.cmdbuffRdreq).map commandOf =
      segs.filterMap Segment.command ++ cmds' ∧
    Stage epochInt (step epochInt i s) part' readings' cmds'

variable {part readings : List Word} {cmds : List Command}

/-- No segment is completed. -/
theorem continues_open {words : List Word} (hsaid : said (step epochInt i s) = words)
    (hstage : Stage epochInt (step epochInt i s) (part ++ words) (readings ++ reading i s)
      (cmds ++ ((buffer s).fifo.taken s.cmdbuffRdreq).map commandOf)) :
    Continues epochInt part readings cmds i s :=
  ⟨[], _, _, _, by rw [hsaid]; rfl, rfl, rfl, hstage⟩

/-- A segment is completed. -/
theorem continues_closed (seg : Segment) {n : StateType} {curr : Command} {idx : ℕ}
    {words : List Word} (hrdreq : s.cmdbuffRdreq = false)
    (hm : Moves (step epochInt i s) n false curr idx words) (hn : n = .idle)
    (hwords : part ++ words = seg.words epochInt) (hread : readings ++ reading i s = seg.read)
    (hcmds : cmds = seg.command.toList) : Continues epochInt part readings cmds i s := by
  refine ⟨[seg], [], [], [], ?_, ?_, ?_, .resting (Or.inr (hm.nextState.trans hn)) hm.rdreq⟩
  · rw [hm.said, hwords, List.flatMap_singleton, List.append_nil]
  · rw [hread, List.flatMap_singleton, List.append_nil]
  · rw [hrdreq, Fifo.taken_false, hcmds]
    cases seg <;> rfl

theorem reading_eq_nil {n : StateType} (hs : s.nextState = n)
    (hn : n ≠ .replyUptime ∧ n ≠ .replyErrorCode) : reading i s = [] := by
  unfold reading
  rw [hs]
  cases n with
  | replyUptime => exact absurd rfl hn.1
  | replyErrorCode => exact absurd rfl hn.2
  | hwReset | idle | waitBuffer | readBuffer | txReqWait | processReply | replyTimestamp | replyDone
  | replyCmdList | replyInvalid => rfl

/-- The edge completes no segment, and nothing is read. -/
theorem continues_quiet {words : List Word} (hsaid : said (step epochInt i s) = words)
    (hreading : reading i s = []) (hrdreq : s.cmdbuffRdreq = false)
    (hstage : Stage epochInt (step epochInt i s) (part ++ words) readings cmds) :
    Continues epochInt part readings cmds i s := by
  apply continues_open hsaid
  rw [hreading, hrdreq, Fifo.taken_false, List.map_nil, List.append_nil, List.append_nil]
  exact hstage

/-- The machine echoes a command. -/
theorem processReply_continues (hs : s.nextState = .processReply) (hrdreq : s.cmdbuffRdreq = false)
    (hproper : Proper s.currCommand) :
    Continues epochInt [] [] [s.currCommand] i s := by
  have hm : Moves (step epochInt i s) _ _ _ _ _ := moves_processReply hs
  have hreading : reading i s = [] := reading_eq_nil hs (by decide)
  have hopen : Stage epochInt (step epochInt i s) [echo s.currCommand] [] [s.currCommand] →
      Continues epochInt [] [] [s.currCommand] i s :=
    fun hstage => continues_quiet hm.said hreading hrdreq hstage
  rcases replyState_cases hproper with
    ⟨hn, hself, hnot⟩ | ⟨hn, hts⟩ | ⟨hn, hreads⟩ | ⟨hn, hlist⟩ | ⟨hn, hself, hvalid⟩ |
      ⟨hn, hself, hvalid⟩
  · apply hopen
    have hstage : Stage epochInt (step epochInt i s) _ _ _ :=
      .closing 0 (hm.nextState.trans hn) hm.rdreq (by rw [hm.curr]; exact hself)
    rw [hm.curr, dataWords_of_not_special hnot, Segment.read, if_neg hnot.1] at hstage
    exact hstage
  · apply hopen
    have hstage : Stage epochInt (step epochInt i s) _ _ _ :=
      .stamping (hm.nextState.trans hn) hm.rdreq (hm.curr.trans hts)
    rw [hm.curr] at hstage
    exact hstage
  · apply hopen
    have hstage : Stage epochInt (step epochInt i s) _ _ _ :=
      .fetching (hn.imp hm.nextState.trans hm.nextState.trans) hm.rdreq
        (by rw [hm.curr]; exact hreads)
    rw [hm.curr] at hstage
    exact hstage
  · apply hopen
    have hidx : (step epochInt i s).cmdIdx = 0 := hm.idx.trans (if_pos hlist)
    have hstage : Stage epochInt (step epochInt i s) _ _ _ :=
      .listing (hm.nextState.trans hn) hm.rdreq (hm.curr.trans hlist) (by rw [hidx]; decide)
    rw [hm.curr, hidx] at hstage
    exact hstage
  · have hplain := not_special_of_not_mem hself
    refine continues_closed (.reply s.currCommand 0) hrdreq hm hn ?_ ?_ rfl
    · rw [Segment.words, dataWords_of_not_special hplain, ending, if_neg hself, if_pos hvalid]
      rfl
    · rw [hreading, Segment.read, if_neg hplain.1]
      rfl
  · apply hopen
    have hstage : Stage epochInt (step epochInt i s) _ _ _ :=
      .refusing (hm.nextState.trans hn) hm.rdreq (by rw [hm.curr]; exact hself)
        (by rw [hm.curr]; exact hvalid)
    rw [hm.curr] at hstage
    exact hstage

/-- A word that has been asked for is read. -/
theorem taken_of_rdreq (hrdreq : s.cmdbuffRdreq = true) (h : 1 ≤ (buffer s).usedw) :
    (buffer s).fifo.taken s.cmdbuffRdreq = [(step epochInt i s).cmdbuffQ] := by
  have hq : (step epochInt i s).cmdbuffQ = (buffer (step epochInt i s)).q := rfl
  rw [hq, buffer_step, hrdreq]
  exact InputBuffer.taken_eq_q _ _ h

/-- `IDLE` reads a command if there is one, and else reports an error or a finished command. -/
theorem idle_continues (hs : s.nextState = .hwReset ∨ s.nextState = .idle)
    (hrdreq : s.cmdbuffRdreq = false) : Continues epochInt [] [] [] i s := by
  rcases hs with hs | hs
  · have hm : Moves (step epochInt i s) _ _ _ _ _ := moves_hwReset hs
    exact continues_quiet hm.said (reading_eq_nil hs (by decide)) hrdreq
      (.resting (Or.inr hm.nextState) hm.rdreq)
  · have hreading : reading i s = [] := reading_eq_nil hs (by decide)
    by_cases hempty : (buffer s).fifo.contents = []
    · have hmoves : Moves (step epochInt i s) _ _ _ _ _ ∨ _ := moves_idle_empty hs hempty
      obtain hm | hm | hm := hmoves
      · exact continues_quiet hm.said hreading hrdreq
          (.reporting (Or.inl hm.nextState) hm.rdreq (Or.inr hm.curr))
      · exact continues_quiet hm.said hreading hrdreq
          (.reporting (Or.inl hm.nextState) hm.rdreq (Or.inl hm.curr))
      · exact continues_quiet hm.said hreading hrdreq
          (.resting (Or.inr hm.nextState) hm.rdreq)
    · have hm : Moves (step epochInt i s) _ _ _ _ _ := moves_idle_reads hs hempty
      have husedw := usedw_step epochInt i s
      rw [hrdreq, if_neg Bool.false_ne_true] at husedw
      have hone := (List.length_pos_iff.2 hempty).trans_le husedw
      exact continues_quiet hm.said hreading hrdreq (.popping hm.nextState hm.rdreq hone)

/-- The command that has been asked for comes out of the buffer. -/
theorem waitBuffer_continues (hs : s.nextState = .waitBuffer) (hrdreq : s.cmdbuffRdreq = true)
    (husedw : 1 ≤ (buffer s).usedw) : Continues epochInt [] [] [] i s := by
  have hm : Moves (step epochInt i s) _ _ _ _ _ := moves_waitBuffer hs
  apply continues_open hm.said
  rw [taken_of_rdreq hrdreq husedw, reading_eq_nil hs (by decide)]
  exact .popped hm.nextState hm.rdreq

theorem readBuffer_continues (hs : s.nextState = .readBuffer) (hrdreq : s.cmdbuffRdreq = false)
    (hp : Proper (commandOf s.cmdbuffQ)) :
    Continues epochInt [] [] [commandOf s.cmdbuffQ] i s := by
  have hm : Moves (step epochInt i s) _ _ _ _ _ := moves_readBuffer hs
  apply continues_quiet hm.said (reading_eq_nil hs (by decide)) hrdreq
  have hstage : Stage epochInt (step epochInt i s) _ _ _ :=
    .asking (Or.inl hm.nextState) hm.rdreq (by rw [hm.curr]; exact hp)
  rw [hm.curr] at hstage
  exact hstage

/-- `TX_REQ_WAIT` waits for the line with the command it has. -/
theorem txReqWait_step (epochInt : ℕ) (i : Input) (hs : s.nextState = .txReqWait) :
    said (step epochInt i s) = [] ∧ (step epochInt i s).cmdbuffRdreq = false ∧
      (step epochInt i s).currCommand = s.currCommand ∧
      ((step epochInt i s).nextState = .txReqWait ∨
        (step epochInt i s).nextState = .processReply) := by
  have hm : Moves (step epochInt i s) _ _ _ _ _ := moves_txReqWait hs
  refine ⟨hm.said, hm.rdreq, hm.curr, ?_⟩
  rw [hm.nextState]
  split_ifs
  · exact Or.inr rfl
  · exact Or.inl rfl

theorem asking_continues (hs : s.nextState = .txReqWait ∨ s.nextState = .processReply)
    (hrdreq : s.cmdbuffRdreq = false) (hp : Proper s.currCommand) :
    Continues epochInt [] [] [s.currCommand] i s := by
  rcases hs with hs | hs
  · obtain ⟨hsaid, hrdreq', hcurr, hn⟩ := txReqWait_step epochInt i hs
    apply continues_quiet hsaid (reading_eq_nil hs (by decide)) hrdreq
    have hstage : Stage epochInt (step epochInt i s) _ _ _ :=
      .asking hn hrdreq' (by rw [hcurr]; exact hp)
    rw [hcurr] at hstage
    exact hstage
  · exact processReply_continues hs hrdreq hp

theorem reporting_continues (hs : s.nextState = .txReqWait ∨ s.nextState = .processReply)
    (hrdreq : s.cmdbuffRdreq = false) (hcurr : s.currCommand = cmdDone ∨ s.currCommand = cmdError) :
    Continues epochInt [] [] [] i s := by
  rcases hs with hs | hs
  · obtain ⟨hsaid, hrdreq', hcurr', hn⟩ := txReqWait_step epochInt i hs
    apply continues_quiet hsaid (reading_eq_nil hs (by decide)) hrdreq
    exact .reporting hn hrdreq' (by rw [hcurr']; exact hcurr)
  · have hm : Moves (step epochInt i s) _ _ _ _ _ := moves_processReply hs
    have hreading : reading i s = [] := reading_eq_nil hs (by decide)
    rcases hcurr with hcurr | hcurr
    · refine continues_closed .done hrdreq hm ?_ ?_ hreading rfl <;> rw [hcurr]
      · decide
      · rfl
    · refine continues_closed .error hrdreq hm ?_ ?_ hreading rfl <;> rw [hcurr]
      · decide
      · rfl

/-- The uptime or the error code is read and said. -/
theorem replyRead_continues (hs : s.nextState = .replyUptime ∨ s.nextState = .replyErrorCode)
    (hrdreq : s.cmdbuffRdreq = false) (hreads : Reads s.currCommand) :
    Continues epochInt [echo s.currCommand] [] [s.currCommand] i s := by
  have hm : Moves (step epochInt i s) _ _ _ _ _ := moves_replyRead hs
  obtain ⟨w, hw⟩ : ∃ w, reading i s = [w] := by
    unfold reading
    rcases hs with hs | hs <;> rw [hs] <;> exact ⟨_, rfl⟩
  apply continues_open (hm.said.trans hw)
  rw [hw, hrdreq, Fifo.taken_false]
  have hself : s.currCommand ∈ selfCompleting := by
    rcases hreads with h | h <;> rw [h] <;> decide
  have hstage : Stage epochInt (step epochInt i s) _ _ _ :=
    .closing w hm.nextState hm.rdreq (by rw [hm.curr]; exact hself)
  rw [hm.curr, dataWords, if_pos hreads, Segment.read, if_pos hreads] at hstage
  exact hstage

theorem replyTimestamp_continues (hs : s.nextState = .replyTimestamp)
    (hrdreq : s.cmdbuffRdreq = false) (hcurr : s.currCommand = cmdGetTs) :
    Continues epochInt [echo s.currCommand] [] [s.currCommand] i s := by
  have hm : Moves (step epochInt i s) _ _ _ _ _ := moves_replyTimestamp hs
  apply continues_quiet hm.said (reading_eq_nil hs (by decide)) hrdreq
  have hstage : Stage epochInt (step epochInt i s) _ _ _ :=
    .closing 0 hm.nextState hm.rdreq (by rw [hm.curr, hcurr]; decide)
  rw [hm.curr, hcurr] at hstage
  rw [hcurr]
  exact hstage

/-- One more entry of the command list; the list is closed after the last one. -/
theorem replyCmdList_continues (hs : s.nextState = .replyCmdList)
    (hrdreq : s.cmdbuffRdreq = false) (hcurr : s.currCommand = cmdGetCmdList)
    (hidx : s.cmdIdx < validCommands.length) :
    Continues epochInt (echo s.currCommand :: (validCommands.take s.cmdIdx).map entry) []
      [s.currCommand] i s := by
  have hm : Moves (step epochInt i s) _ _ _ _ _ := moves_replyCmdList hs
  have htake : (validCommands.take s.cmdIdx).map entry ++
      [entry (validCommands.getD s.cmdIdx 0)] =
        (validCommands.take (s.cmdIdx + 1)).map entry := by
    rw [List.take_succ_eq_append_getElem hidx, List.map_append, List.getD_eq_getElem?_getD,
      List.getElem?_eq_getElem hidx]
    rfl
  apply continues_quiet hm.said (reading_eq_nil hs (by decide)) hrdreq
  rw [List.cons_append, htake]
  by_cases hlast : validCommands.length - 1 ≤ s.cmdIdx
  · have hall : validCommands.take (s.cmdIdx + 1) = validCommands :=
      List.take_of_length_le (by omega)
    have hstage : Stage epochInt (step epochInt i s) _ _ _ :=
      .closing 0 (hm.nextState.trans (if_pos hlast)) hm.rdreq (by rw [hm.curr, hcurr]; decide)
    rw [hm.curr, hcurr] at hstage
    rw [hall, hcurr]
    exact hstage
  · have hidx' : (step epochInt i s).cmdIdx = s.cmdIdx + 1 := hm.idx.trans (if_neg hlast)
    have hstage : Stage epochInt (step epochInt i s) _ _ _ :=
      .listing (hm.nextState.trans (if_neg hlast)) hm.rdreq (hm.curr.trans hcurr)
        (by rw [hidx']; omega)
    rw [hm.curr, hidx'] at hstage
    exact hstage

theorem replyDone_continues (w : Word) (hs : s.nextState = .replyDone)
    (hrdreq : s.cmdbuffRdreq = false) (hself : s.currCommand ∈ selfCompleting) :
    Continues epochInt (echo s.currCommand :: dataWords epochInt s.currCommand w)
      (Segment.reply s.currCommand w).read [s.currCommand] i s := by
  have hm : Moves (step epochInt i s) _ _ _ _ _ := moves_replyDone hs
  refine continues_closed (.reply s.currCommand w) hrdreq hm rfl ?_ ?_ rfl
  · rw [Segment.words, ending, if_pos hself]
  · rw [reading_eq_nil hs (by decide), List.append_nil]

theorem replyInvalid_continues (hs : s.nextState = .replyInvalid)
    (hrdreq : s.cmdbuffRdreq = false) (hself : s.currCommand ∉ selfCompleting)
    (hvalid : isValidCommand s.currCommand = false) :
    Continues epochInt [echo s.currCommand] [] [s.currCommand] i s := by
  have hm : Moves (step epochInt i s) _ _ _ _ _ := moves_replyInvalid hs
  have hplain := not_special_of_not_mem hself
  refine continues_closed (.reply s.currCommand 0) hrdreq hm rfl ?_ ?_ rfl
  · rw [Segment.words, dataWords_of_not_special hplain, ending, if_neg hself, hvalid]
    rfl
  · rw [reading_eq_nil hs (by decide), Segment.read, if_neg hplain.1]
    rfl

theorem Stage.continues (h : Stage epochInt s part readings cmds) (hproper : ∀ c ∈ cmds, Proper c) :
    Continues epochInt part readings cmds i s := by
  cases h with
  | resting hs hrdreq => exact idle_continues hs hrdreq
  | popping hs hrdreq husedw => exact waitBuffer_continues hs hrdreq husedw
  | popped hs hrdreq =>
    exact readBuffer_continues hs hrdreq (hproper _ (List.mem_singleton_self _))
  | asking hs hrdreq hp => exact asking_continues hs hrdreq hp
  | reporting hs hrdreq hcurr => exact reporting_continues hs hrdreq hcurr
  | fetching hs hrdreq hreads => exact replyRead_continues hs hrdreq hreads
  | stamping hs hrdreq hcurr => exact replyTimestamp_continues hs hrdreq hcurr
  | listing hs hrdreq hcurr hidx => exact replyCmdList_continues hs hrdreq hcurr hidx
  | closing w hs hrdreq hself => exact replyDone_continues w hs hrdreq hself
  | refusing hs hrdreq hself hvalid => exact replyInvalid_continues hs hrdreq hself hvalid

/-! ## Along a run -/

variable {ackd : List Command} {seen : List Word} {is : List Input}

/-- The words that have been output or are on their way are whole segments and the part
    of the next one that the stage says. -/
structure Replying (epochInt : ℕ) (ackd : List Command) (seen readings : List Word) (s : State) :
    Prop where
  parts : ∃ segs part readings' cmds,
    seen ++ output s ++ said s = List.flatMap (Segment.words epochInt) segs ++ part ∧
    readings = List.flatMap Segment.read segs ++ readings' ∧
    ackd = List.filterMap Segment.command segs ++ cmds ++ (buffer s).held.map commandOf ∧
    Stage epochInt s part readings' cmds
  proper : ∀ c ∈ ackd, Proper c

theorem replying_initial : Replying epochInt [] [] [] initial where
  parts := ⟨[], [], [], [], rfl, rfl, rfl, .resting (Or.inl rfl) rfl⟩
  proper := List.forall_mem_nil _

theorem Replying.next (h : Replying epochInt ackd seen readings s) (hcap : waiting s ≤ 16)
    (hi : i.sendCmdAck = true → Proper (commandOf i.dataIn)) :
    Replying epochInt (ackd ++ acked i s) (seen ++ output s) (readings ++ reading i s)
      (step epochInt i s) := by
  obtain ⟨segs, part, readings', cmds, hseen, hreadings, hackd, hstage⟩ := h.parts
  have hcmds : ∀ c ∈ cmds, Proper c := by
    intro c hc
    apply h.proper
    rw [hackd]
    exact List.mem_append_left _ (List.mem_append_right _ hc)
  obtain ⟨segs', part', readings'', cmds', hpart, hreading, hcmd, hstage'⟩ :=
    hstage.continues (i := i) hcmds
  have hheld : ((buffer s).fifo.taken s.cmdbuffRdreq).map commandOf ++
      (buffer (step epochInt i s)).held.map commandOf =
        (buffer s).held.map commandOf ++ acked i s := by
    rw [← List.map_append, held_step epochInt i s hcap, List.map_append]
    unfold acked
    split_ifs <;> rfl
  refine ⟨⟨segs ++ segs', part', readings'', cmds', ?_, ?_, ?_, hstage'⟩, ?_⟩
  · rw [output_step, hseen, List.append_assoc, hpart, List.flatMap_append, List.append_assoc]
  · rw [hreadings, List.append_assoc, hreading, List.flatMap_append, List.append_assoc]
  · calc ackd ++ acked i s
        = segs.filterMap Segment.command ++
            (cmds ++ ((buffer s).held.map commandOf ++ acked i s)) := by
          rw [hackd]
          simp only [List.append_assoc]
      _ = segs.filterMap Segment.command ++
            ((cmds ++ ((buffer s).fifo.taken s.cmdbuffRdreq).map commandOf) ++
              (buffer (step epochInt i s)).held.map commandOf) := by
          rw [← hheld, List.append_assoc cmds]
      _ = _ := by
          rw [hcmd, List.filterMap_append]
          simp only [List.append_assoc]
  · intro c hc
    rcases List.mem_append.1 hc with hc | hc
    · exact h.proper c hc
    · unfold acked at hc
      split_ifs at hc with hack
      · rw [List.mem_singleton.1 hc]
        exact hi hack
      · cases hc

/-- What is under way is the beginning of a segment. -/
theorem Stage.begins (h : Stage epochInt s part readings cmds) : ∃ segs,
    part <+: List.flatMap (Segment.words epochInt) segs ∧
    readings <+: List.flatMap Segment.read segs ∧
    List.filterMap Segment.command segs <+: cmds := by
  cases h with
  | resting | popping | popped | asking | reporting =>
    exact ⟨[], List.nil_prefix, List.nil_prefix, List.nil_prefix⟩
  | fetching | stamping | refusing =>
    exact ⟨[.reply s.currCommand 0], ⟨_, rfl⟩, List.nil_prefix, List.prefix_rfl⟩
  | listing _ _ hcurr =>
    refine ⟨[.reply s.currCommand 0], ?_, List.nil_prefix, List.prefix_rfl⟩
    have htake : (validCommands.take s.cmdIdx).map entry <+:
        dataWords epochInt s.currCommand 0 := by
      rw [hcurr]
      exact (List.take_prefix _ _).map entry
    rw [List.flatMap_singleton, Segment.words, List.cons_append]
    exact List.cons_prefix_cons.2 ⟨rfl, htake.trans (List.prefix_append _ _)⟩
  | closing w =>
    refine ⟨[.reply s.currCommand w], ?_, ?_, List.prefix_rfl⟩
    · rw [List.flatMap_singleton]
      exact List.prefix_append _ _
    · rw [List.flatMap_singleton]

/-- The words output are the beginning of whole segments. -/
theorem Replying.inOrder (h : Replying epochInt ackd seen readings s) : ∃ segs,
    seen <+: List.flatMap (Segment.words epochInt) segs ∧
    readings <+: List.flatMap Segment.read segs ∧
    List.filterMap Segment.command segs <+: ackd := by
  obtain ⟨segs, part, readings', cmds, hseen, rfl, rfl, hstage⟩ := h.parts
  obtain ⟨segs', hpart, hreadings, hcmds⟩ := hstage.begins
  refine ⟨segs ++ segs', ?_, ?_, ?_⟩
  · rw [List.append_assoc] at hseen
    have hsegs : seen <+: segs.flatMap (Segment.words epochInt) ++ part := ⟨_, hseen⟩
    rw [List.flatMap_append]
    exact hsegs.trans ((List.prefix_append_right_inj _).2 hpart)
  · rw [List.flatMap_append]
    exact (List.prefix_append_right_inj _).2 hreadings
  · rw [List.filterMap_append, List.append_assoc]
    exact (List.prefix_append_right_inj _).2 (hcmds.trans (List.prefix_append _ _))

theorem replying_run (hcap : Along (step epochInt)
      (fun _ s => waiting s ≤ 16) initial is)
    (hproper : ∀ i ∈ is, i.sendCmdAck = true → Proper (commandOf i.dataIn)) :
    Replying epochInt (log (step epochInt) acked initial is)
      (log (step epochInt) (fun _ s => output s) initial is)
      (log (step epochInt) reading initial is)
      (run (step epochInt) initial is) := by
  induction is using List.reverseRecOn with
  | nil => exact replying_initial
  | append_singleton is i ih =>
    rw [along_concat] at hcap
    rw [List.forall_mem_append, List.forall_mem_singleton] at hproper
    rw [log_concat, log_concat, log_concat, run_concat]
    exact (ih hcap.1 hproper.1).next hcap.2 hproper.2

/-! ## Termination -/

/-- Every command has been replied to. -/
structure Answered (s : State) : Prop where
  held : (buffer s).held = []
  rests : s.nextState = .hwReset ∨ s.nextState = .idle ∨
    (s.nextState = .txReqWait ∨ s.nextState = .processReply) ∧
      (s.currCommand = cmdDone ∨ s.currCommand = cmdError)

theorem Replying.all (h : Replying epochInt ackd seen readings s) (ha : Answered s) : ∃ segs,
    seen ++ output s ++ said s = List.flatMap (Segment.words epochInt) segs ∧
    readings = List.flatMap Segment.read segs ∧ List.filterMap Segment.command segs = ackd := by
  obtain ⟨segs, part, readings', cmds, hseen, rfl, rfl, hstage⟩ := h.parts
  rw [ha.held, List.map_nil, List.append_nil]
  have hrests := ha.rests
  cases hstage with
  | resting | reporting =>
    exact ⟨segs, by rw [hseen, List.append_nil], List.append_nil _, (List.append_nil _).symm⟩
  | asking hs _ hp =>
    rcases hrests with hn | hn | ⟨-, hcurr⟩
    · simp [hn] at hs
    · simp [hn] at hs
    · exact absurd hcurr (not_or.2 hp)
  | fetching hs => rcases hs with hs | hs <;> simp [hs] at hrests
  | popping hs | popped hs | stamping hs | listing hs | closing w hs | refusing hs =>
    simp [hs] at hrests

theorem Answered.reading_eq (ha : Answered s) : reading i s = [] := by
  apply reading_eq_nil rfl
  constructor
  · rintro hn
    simpa [hn] using ha.rests
  · rintro hn
    simpa [hn] using ha.rests

/-- A machine that has replied to every command goes on to rest or to report. -/
theorem Answered.next (ha : Answered s) (hi : i.sendCmdAck = false) :
    Answered (step epochInt i s) := by
  refine ⟨?_, ?_⟩
  · have hheld := held_step epochInt i s
      (by rw [waiting, ha.held]; exact Nat.zero_le _)
    rw [ha.held, hi, if_neg Bool.false_ne_true, List.append_nil] at hheld
    exact (List.append_eq_nil_iff.1 hheld).2
  · rcases ha.rests with hs | hs | ⟨hs | hs, hcurr⟩
    · have hm : Moves (step epochInt i s) _ _ _ _ _ := moves_hwReset hs
      exact Or.inr (Or.inl hm.nextState)
    · have hempty : (buffer s).fifo.contents = [] := (List.append_eq_nil_iff.1 ha.held).1
      have hmoves : Moves (step epochInt i s) _ _ _ _ _ ∨ _ :=
        moves_idle_empty hs hempty
      obtain hm | hm | hm := hmoves
      · exact Or.inr (Or.inr ⟨Or.inl hm.nextState, Or.inr hm.curr⟩)
      · exact Or.inr (Or.inr ⟨Or.inl hm.nextState, Or.inl hm.curr⟩)
      · exact Or.inr (Or.inl hm.nextState)
    · have hm : Moves (step epochInt i s) _ _ _ _ _ := moves_txReqWait hs
      refine Or.inr (Or.inr ⟨?_, by rw [hm.curr]; exact hcurr⟩)
      rw [hm.nextState]
      split_ifs
      · exact Or.inr rfl
      · exact Or.inl rfl
    · have hm : Moves (step epochInt i s) _ _ _ _ _ :=
        moves_processReply hs
      refine Or.inr (Or.inl (hm.nextState.trans ?_))
      rcases hcurr with hcurr | hcurr <;> rw [hcurr] <;> decide

/-- The number of edges with the line granted after which every command has been replied
    to, if no other comes. -/
def remaining (s : State) : ℕ :=
  match s.nextState with
  | .hwReset => 64 * (buffer s).usedw + 1
  | .idle => 64 * (buffer s).usedw
  | .waitBuffer => 64 * ((buffer s).usedw - 1) + 60
  | .readBuffer => 64 * (buffer s).usedw + 59
  | .txReqWait => 64 * (buffer s).usedw + 58
  | .processReply => 64 * (buffer s).usedw + 57
  | .replyCmdList => 64 * (buffer s).usedw + 2 + (validCommands.length - s.cmdIdx)
  | .replyTimestamp | .replyErrorCode | .replyUptime => 64 * (buffer s).usedw + 2
  | .replyDone | .replyInvalid => 64 * (buffer s).usedw + 1

theorem remaining_lt (s : State) : remaining s < 1100 := by
  have hbounded : (buffer s).usedw ≤ 16 := (buffer s).fifo.bounded
  have hlength : validCommands.length = 34 := rfl
  unfold remaining
  split <;> omega

theorem remaining_of_replyState {c : Command} (hn : s.nextState = replyState c)
    (hc : Proper c ∨ c = cmdDone ∨ c = cmdError) : remaining s ≤ 64 * (buffer s).usedw + 36 := by
  have hlength : validCommands.length = 34 := rfl
  unfold remaining
  rcases hc with hc | hc
  · rcases replyState_cases hc with
      ⟨hs, -⟩ | ⟨hs, -⟩ | ⟨hs | hs, -⟩ | ⟨hs, -⟩ | ⟨hs, -⟩ | ⟨hs, -⟩
    all_goals
      rw [hn, hs]
      dsimp only
      omega
  · have hs : replyState c = .idle := by rcases hc with rfl | rfl <;> decide
    rw [hn, hs]
    dsimp only
    omega

/-- The edges that remain get fewer unless the line is refused. -/
def Falls (epochInt : ℕ) (i : Input) (s : State) : Prop :=
  remaining (step epochInt i s) ≤ remaining s ∧
    (i.udpReady = true → remaining (step epochInt i s) < remaining s)

theorem falls_of_lt (h : remaining (step epochInt i s) < remaining s) : Falls epochInt i s :=
  ⟨h.le, fun _ => h⟩

/-- Without a write only a read changes how many commands wait. -/
theorem usedw_of_wrreq (hwrreq : s.cmdbuffWrreq = false) : (buffer (step epochInt i s)).usedw =
    if s.cmdbuffRdreq then (buffer s).usedw - 1 else (buffer s).usedw := by
  rw [buffer_step]
  exact InputBuffer.usedw_clock _ _ hwrreq

theorem usedw_of_rdreq (hwrreq : s.cmdbuffWrreq = false) (hrdreq : s.cmdbuffRdreq = false) :
    (buffer (step epochInt i s)).usedw = (buffer s).usedw := by
  rw [usedw_of_wrreq hwrreq, hrdreq, if_neg Bool.false_ne_true]

/-- `TX_REQ_WAIT` is left when the line is granted. -/
theorem falls_txReqWait (hwrreq : s.cmdbuffWrreq = false) (hs : s.nextState = .txReqWait)
    (hrdreq : s.cmdbuffRdreq = false) : Falls epochInt i s := by
  have husedw : (buffer (step epochInt i s)).usedw = _ := usedw_of_rdreq hwrreq hrdreq
  have hm : Moves (step epochInt i s) _ _ _ _ _ := moves_txReqWait hs
  cases hready : i.udpReady with
  | true =>
    rw [hready, if_pos rfl] at hm
    apply falls_of_lt
    simp only [remaining, hm.nextState, hs, husedw]
    omega
  | false =>
    rw [hready, if_neg Bool.false_ne_true] at hm
    simp only [Falls, remaining, hm.nextState, hs, husedw, hready]
    exact ⟨le_rfl, nofun⟩

theorem falls_processReply (hwrreq : s.cmdbuffWrreq = false) (hs : s.nextState = .processReply)
    (hrdreq : s.cmdbuffRdreq = false)
    (hcurr : Proper s.currCommand ∨ s.currCommand = cmdDone ∨ s.currCommand = cmdError) :
    Falls epochInt i s := by
  have husedw : (buffer (step epochInt i s)).usedw = _ := usedw_of_rdreq hwrreq hrdreq
  have hm : Moves (step epochInt i s) _ _ _ _ _ := moves_processReply hs
  have hle := remaining_of_replyState hm.nextState hcurr
  rw [husedw] at hle
  apply falls_of_lt
  simp only [remaining, hs]
  exact hle.trans_lt (by omega)

/-- In `IDLE` a command waits unless all are answered. -/
theorem falls_idle (hwrreq : s.cmdbuffWrreq = false) (ha : ¬Answered s)
    (hs : s.nextState = .hwReset ∨ s.nextState = .idle) (hrdreq : s.cmdbuffRdreq = false) :
    Falls epochInt i s := by
  have husedw : (buffer (step epochInt i s)).usedw = _ := usedw_of_rdreq hwrreq hrdreq
  apply falls_of_lt
  rcases hs with hs | hs
  · have hm : Moves (step epochInt i s) _ _ _ _ _ := moves_hwReset hs
    simp only [remaining, hm.nextState, hs, husedw]
    omega
  · by_cases hempty : (buffer s).fifo.contents = []
    · have hheld : (buffer s).held = [] := (InputBuffer.held_of_wrreq hwrreq).trans hempty
      exact absurd ⟨hheld, Or.inr (Or.inl hs)⟩ ha
    · have hm : Moves (step epochInt i s) _ _ _ _ _ := moves_idle_reads hs hempty
      have hone : 1 ≤ (buffer s).usedw := List.length_pos_iff.2 hempty
      simp only [remaining, hm.nextState, hs, husedw]
      omega

theorem Replying.remaining_step (h : Replying epochInt ackd seen readings s)
    (hwrreq : s.cmdbuffWrreq = false) (ha : ¬Answered s) :
    remaining (step epochInt i s) ≤ remaining s ∧
      (i.udpReady = true → remaining (step epochInt i s) < remaining s) := by
  obtain ⟨segs, part, readings', cmds, -, -, -, hstage⟩ := h.parts
  have husedw : s.cmdbuffRdreq = false →
      (buffer (step epochInt i s)).usedw = (buffer s).usedw := usedw_of_rdreq hwrreq
  cases hstage with
  | resting hs hrdreq => exact falls_idle hwrreq ha hs hrdreq
  | popping hs hrdreq hone =>
    have hm : Moves (step epochInt i s) _ _ _ _ _ := moves_waitBuffer hs
    have husedw : (buffer (step epochInt i s)).usedw = _ := usedw_of_wrreq hwrreq
    rw [hrdreq, if_pos rfl] at husedw
    apply falls_of_lt
    simp only [remaining, hm.nextState, hs, husedw]
    omega
  | popped hs hrdreq =>
    have hm : Moves (step epochInt i s) _ _ _ _ _ := moves_readBuffer hs
    apply falls_of_lt
    simp only [remaining, hm.nextState, hs, husedw hrdreq]
    omega
  | asking hs hrdreq hp =>
    rcases hs with hs | hs
    · exact falls_txReqWait hwrreq hs hrdreq
    · exact falls_processReply hwrreq hs hrdreq (Or.inl hp)
  | reporting hs hrdreq hcurr =>
    rcases hs with hs | hs
    · exact falls_txReqWait hwrreq hs hrdreq
    · exact falls_processReply hwrreq hs hrdreq (Or.inr hcurr)
  | fetching hs hrdreq =>
    have hm : Moves (step epochInt i s) _ _ _ _ _ := moves_replyRead hs
    apply falls_of_lt
    rcases hs with hs | hs <;> simp only [remaining, hm.nextState, hs, husedw hrdreq] <;> omega
  | stamping hs hrdreq =>
    have hm : Moves (step epochInt i s) _ _ _ _ _ := moves_replyTimestamp hs
    apply falls_of_lt
    simp only [remaining, hm.nextState, hs, husedw hrdreq]
    omega
  | listing hs hrdreq _ hidx =>
    have hm : Moves (step epochInt i s) _ _ _ _ _ := moves_replyCmdList hs
    apply falls_of_lt
    have hnext := hm.nextState
    have hidx' := hm.idx
    split_ifs at hnext hidx'
    · simp only [remaining, hnext, hs, husedw hrdreq]
      omega
    · simp only [remaining, hnext, hs, husedw hrdreq, hidx']
      omega
  | closing w hs hrdreq =>
    have hm : Moves (step epochInt i s) _ _ _ _ _ := moves_replyDone hs
    apply falls_of_lt
    simp only [remaining, hm.nextState, hs, husedw hrdreq]
    omega
  | refusing hs hrdreq =>
    have hm : Moves (step epochInt i s) _ _ _ _ _ := moves_replyInvalid hs
    apply falls_of_lt
    simp only [remaining, hm.nextState, hs, husedw hrdreq]
    omega

/-- Without further commands all of them are replied to. -/
theorem Replying.answers (h : Replying epochInt ackd seen readings s) {ks : List Input}
    (hcap : Along (step epochInt) (fun _ s => waiting s ≤ 16) s ks)
    (hquiet : ∀ i ∈ ks, i.sendCmdAck = false) (hcount : 1101 ≤ ks.countP (·.udpReady)) :
    Answered (run (step epochInt) s ks) := by
  have hR := hcap.and (step epochInt) (along_of_forall (step epochInt) hquiet)
  refine run_settles (step epochInt) (K := fun s => s.cmdbuffWrreq = false) (P := Answered)
    (J := fun s => ∃ ackd seen readings, Replying epochInt ackd seen readings s) remaining
    (·.udpReady) remaining_lt ⟨ackd, seen, readings, h⟩ ?_ ?_ ?_ hR hcount
  · rintro i s ⟨hcap, hi⟩ ⟨ackd, seen, readings, h⟩
    have hbuffer : buffer (step epochInt i s) = _ := buffer_step
    have hproper : i.sendCmdAck = true → Proper (commandOf i.dataIn) := by
      intro hack
      rw [hi] at hack
      cases hack
    exact ⟨⟨_, _, _, h.next hcap hproper⟩, (congrArg InputBuffer.wrreq hbuffer).trans hi⟩
  · rintro i s ⟨-, hi⟩ - - ha
    exact ha.next hi
  · rintro i s - ⟨ackd, seen, readings, h⟩ hwrreq ha
    exact h.remaining_step hwrreq ha

end

/-- The words output are whole replies, one to each command in the order of the commands,
    with `DON` and `ERR` between them, and the beginning of the reply under way. When no
    more commands come every command has been replied to once the line has been granted
    often enough. -/
theorem commands_answered (epochInt : ℕ) (is : List Input)
    (hcap : Along (step epochInt) (fun _ s => waiting s ≤ 16) initial is)
    (hproper : ∀ i ∈ is, i.sendCmdAck = true → Proper (commandOf i.dataIn)) :
    (∃ segs, log (step epochInt) (fun _ s => output s) initial is <+:
          List.flatMap (Segment.words epochInt) segs ∧
        log (step epochInt) reading initial is <+: List.flatMap Segment.read segs ∧
        List.filterMap Segment.command segs <+: log (step epochInt) acked initial is) ∧
    (∀ js ks a b, is = js ++ ks ++ [a, b] → (∀ i ∈ ks ++ [a, b], i.sendCmdAck = false) →
      1101 ≤ ks.countP (·.udpReady) →
      ∃ segs, log (step epochInt) (fun _ s => output s) initial is =
          List.flatMap (Segment.words epochInt) segs ∧
        log (step epochInt) reading initial is = List.flatMap Segment.read segs ∧
        List.filterMap Segment.command segs = log (step epochInt) acked initial is) := by
  refine ⟨(replying_run hcap hproper).inOrder, ?_⟩
  rintro js ks a b rfl hquiet hcount
  rw [List.forall_mem_append, List.forall_mem_cons, List.forall_mem_singleton] at hquiet
  rw [List.forall_mem_append] at hproper
  obtain ⟨hks, ha, hb⟩ := hquiet
  have hcap' := hcap.of_isPrefix (step epochInt)
  have hend := replying_run hcap' hproper.1
  rw [List.forall_mem_append] at hproper
  have hanswered : Answered (run (step epochInt) initial (js ++ ks)) := by
    rw [run_append]
    exact (replying_run (hcap'.of_isPrefix (step epochInt)) hproper.1.1).answers
      ((along_append (step epochInt) _ _ _ _).1 hcap').2 hks hcount
  obtain ⟨segs, hseen, hreadings, hackd⟩ := hend.all hanswered
  have hnone : ∀ (i : Input) (s : State), i.sendCmdAck = false → acked i s = [] := by
    intro i s hi
    rw [acked, hi]
    rfl
  refine ⟨segs, ?_, ?_, ?_⟩
  · rw [log_append, ← hseen, List.append_assoc]
    rw [log_cons, log_cons, log_nil, List.append_nil, output_step]
  · rw [log_append, ← hreadings, log_cons, log_cons, log_nil, hanswered.reading_eq,
      (hanswered.next ha).reading_eq]
    simp
  · rw [log_append, hackd, log_cons, log_cons, log_nil, hnone _ _ ha, hnone _ _ hb]
    simp

/-- `GUT` is acknowledged and a command has finished, with the line granted throughout. -/
def uptimeAndDone : List Input :=
  ⟨false, 0, false, false, 0, true⟩ :: ⟨true, 0x00475554, true, false, 0, true⟩ ::
    List.replicate 14 ⟨false, 0, false, false, 0, true⟩

theorem commands_answered_uptimeAndDone :
    Along (step 0) (fun _ s => waiting s ≤ 16) initial uptimeAndDone ∧
      (∀ i ∈ uptimeAndDone, i.sendCmdAck = true → Proper (commandOf i.dataIn)) ∧
      ∃ segs, log (step 0) (fun _ s => output s) initial uptimeAndDone <+:
          List.flatMap (Segment.words 0) segs ∧
        log (step 0) reading initial uptimeAndDone <+: List.flatMap Segment.read segs ∧
        List.filterMap Segment.command segs <+: log (step 0) acked initial uptimeAndDone := by
  have hcap : Along (step 0) (fun _ s => waiting s ≤ 16) initial uptimeAndDone := by decide +kernel
  have hproper : ∀ i ∈ uptimeAndDone, i.sendCmdAck = true → Proper (commandOf i.dataIn) := by
    decide +kernel
  exact ⟨hcap, hproper, (commands_answered 0 uptimeAndDone hcap hproper).1⟩

end FpgaEthernet.CommandResponseGenerator
