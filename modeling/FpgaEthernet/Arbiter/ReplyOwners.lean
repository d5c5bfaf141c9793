import FpgaEthernet.Arbiter.ReplyRouting
import FpgaEthernet.Controller.ReplyStream

/-!
# Whose replies go where

For every register that a word of a reply passes, the owner of what is in it: the edge at
which the command-port word came in that it answers. The owners move as the contents do, the
command buffer with them, and do not act on the system.

Main results:

* `Traced.step`: what is held anywhere on the way answers the word that its owner names.
* `replies_to_requester`: every word on the output of the arbiter but `DON`, `ERR` and those
  of the flash answers the command that its owner names, and goes to the sender of that command
  unless another one has sent a word since.
-/

namespace FpgaEthernet.ReplyRouting

open Clocked OdileController UdpDataArbiter Command
open CommandResponseGenerator (Proper Reads Segment commandOf echo entry selfCompleting)

/-! ## Owners -/

/-- The edge at which the command-port word came in; none where nothing is answered. -/
abbrev Owner := Option ℕ

/-- The owners of the registers on the way of a reply. -/
structure Owners where
  /-- The edges so far. -/
  edge : ℕ
  /-- Of the input registers of the controller. -/
  parsed : Owner
  /-- Of `cmd_to_ack`, and of the triggers that are raised. -/
  acked : Owner
  /-- Of `cmdbuff_data`. -/
  written : Owner
  /-- Of the commands in the command buffer. -/
  waiting : Fifo Owner 16
  /-- Of `cmdbuff_q`. -/
  fetched : Owner
  /-- Of `curr_command`. -/
  current : Owner
  /-- Of `udp_data_sig`. -/
  said : Owner
  /-- Of the trigger that the machine of a client has seen last in `IDLE`. -/
  trigger : Client → Owner
  /-- Of the word on the bus of a client. -/
  onBus : Client → Owner
  /-- Of the word on the output of the arbiter. -/
  udpOut : Owner

/-- When `reset` is released nothing is answered. -/
def Owners.initial : Owners where
  edge := 0
  parsed := none
  acked := none
  written := none
  waiting := .empty
  fetched := none
  current := none
  said := none
  trigger := fun _ => none
  onBus := fun _ => none
  udpOut := none

/-- The machine of a client takes a trigger. -/
def TakesTrigger (s : State) : Client → Prop
  | .ccdInterface => s.clients.ccd.read.nextReadState = .idle
  | .configScanner => s.clients.scan.nextState = .idle
  | .monit => s.monit.nextState = .idle
  | .commandResp | .epcqio => False

instance (s : State) : DecidablePred (TakesTrigger s)
  | .ccdInterface => inferInstanceAs (Decidable (_ = _))
  | .configScanner => inferInstanceAs (Decidable (_ = _))
  | .monit => inferInstanceAs (Decidable (_ = _))
  | .commandResp | .epcqio => .isFalse id

/-- One edge. `IDLE` of the generator loads `curr_command` without a command from the buffer,
    `READ_BUFFER` with it. -/
def Owners.next (i : Input) (s : State) (o : Owners) : Owners where
  edge := o.edge + 1
  parsed := if IsCommand i.ctl then some o.edge else none
  acked := o.parsed
  written := o.acked
  waiting := o.waiting.clock s.clients.cmd.cmdbuffWrreq o.written s.clients.cmd.cmdbuffRdreq
  fetched := o.waiting.nextQ s.clients.cmd.cmdbuffRdreq o.fetched
  current :=
    match s.clients.cmd.nextState with
    | .idle => none
    | .readBuffer => o.fetched
    | _ => o.current
  said := o.current
  trigger c := if TakesTrigger s c then o.acked else o.trigger c
  onBus c := if c = .commandResp then o.said else o.trigger c
  udpOut := s.clients.arb.currentClient.bind o.onBus

/-- The system with the owners. -/
structure Owned where
  state : State
  owners : Owners

def Owned.initial : Owned := ⟨ReplyRouting.initial, Owners.initial⟩

/-- One edge of `clock`. -/
def ownedStep (epochInt : ℕ) (i : Input) (s : Owned) : Owned :=
  ⟨step epochInt i s.state, s.owners.next i s.state⟩

/-- The owner of the word on the output of the arbiter after a run. -/
def owner (epochInt : ℕ) (is : List Input) : Owner :=
  (run (ownedStep epochInt) .initial is).owners.udpOut

/-- The inputs of the generator. -/
def cmdInput (i : Input) (s : State) : CommandResponseGenerator.Input :=
  { (clientsInput i s).cmd with udpReady := s.clients.arb.udpReady .commandResp }

/-! ## Answers -/

/-- The commands that raise a trigger for a client. -/
def asks : Client → List Command
  | .ccdInterface =>
    [cmdReadProg, cmdReadTime, cmdReadOut, cmdReadIndf, cmdReadIndr, cmdReadIndsa, cmdReadIndsr,
      cmdReadCabac, cmdGetCroc]
  | .configScanner => [cmdReadConfig]
  | .monit => [cmdGetMonitoring]
  | .commandResp | .epcqio => []

/-- A client may send a word in reply to a command: the generator one of the words of a reply
    to it, the others what they have been asked for. -/
def Answers (epochInt : ℕ) (cmd : Command) (w : Word) : Client → Prop
  | .commandResp => ∃ r, w ∈ (Segment.reply cmd r).words epochInt
  | c => cmd ∈ asks c

/-- The words that the generator sends unasked. -/
def IsNotice (w : Word) : Prop := w = echo cmdDone ∨ w = echo cmdError

/-! ## The controller -/

variable {epochInt : ℕ} {is : List Input} {i : Input} {s : State} {o : Owners} {w : Word}
  {t : Owner} {c : Client}

/-- `t` is the edge of a command-port word `w`. -/
def Names (is : List Input) (w : Word) (t : Owner) : Prop :=
  ∃ n k, t = some n ∧ is[n]? = some k ∧ IsCommand k.ctl ∧ k.ctl.dataIn = w

/-- `t` is the edge of a word with a command that the client is asked with. -/
def NamesRequest (is : List Input) (c : Client) (t : Owner) : Prop :=
  ∃ w, Names is w t ∧ command w ∈ asks c

theorem Names.concat (h : Names is w t) (i : Input) : Names (is ++ [i]) w t := by
  obtain ⟨n, k, ht, hk, hcommand, hw⟩ := h
  have hlt : n < is.length := (List.getElem?_eq_some_iff.1 hk).1
  exact ⟨n, k, ht, (List.getElem?_append_left hlt).trans hk, hcommand, hw⟩

theorem NamesRequest.concat (h : NamesRequest is c t) (i : Input) :
    NamesRequest (is ++ [i]) c t := by
  obtain ⟨w, hw, hasks⟩ := h
  exact ⟨w, hw.concat i, hasks⟩

/-- The word that comes in is named by its edge. -/
theorem names_last (h : IsCommand i.ctl) :
    Names (is ++ [i]) i.ctl.dataIn (some is.length) :=
  ⟨is.length, i, rfl, List.getElem?_concat_length, h, rfl⟩

/-- The controller raises a trigger of a client. -/
def Raises (out : Outputs) : Client → Prop
  | .ccdInterface => (readTriggers out).extractLsb' 0 9 ≠ 0
  | .configScanner => out.readConfig = true
  | .monit => out.readMonitoringReg = true
  | .commandResp | .epcqio => False

instance (out : Outputs) : DecidablePred (Raises out)
  | .ccdInterface => inferInstanceAs (Decidable (_ ≠ _))
  | .configScanner | .monit => inferInstanceAs (Decidable (_ = true))
  | .commandResp | .epcqio => .isFalse id

theorem not_raises_quiet : ¬Raises .quiet c := by
  cases c <;> decide

/-- What a command raises does not depend on the rest of its word, or on the registers. -/
theorem out_of_mem {d : OdileController.State} (hd : d.out = .quiet)
    {e : Command × (Word → OdileController.State → OdileController.State)}
    (he : e ∈ commandTable) : (e.2 w d).out = (e.2 0 OdileController.initial).out := by
  simp only [commandTable, List.mem_cons, List.not_mem_nil, or_false] at he
  repeat' obtain rfl | he := he
  all_goals simp only [raise, hd, OdileController.initial]
  split_ifs <;> first | exact hd | rfl

/-- A command raises the triggers of the client that is asked with it, and no others. -/
theorem asks_of_raises {d : OdileController.State} (hd : d.out = .quiet)
    (h : Raises (commandCase w d).out c) : command w ∈ asks c := by
  have htable : ∀ e ∈ commandTable, Raises (e.2 0 OdileController.initial).out c →
      e.1 ∈ asks c := by
    cases c <;> decide
  unfold commandCase at h
  cases hl : commandTable.lookup (command w) with
  | none =>
    rw [hl, Option.getD_none, hd] at h
    exact absurd h not_raises_quiet
  | some f =>
    obtain ⟨l₁, l₂, htab, -⟩ := List.lookup_eq_some_iff.1 hl
    have he : (command w, f) ∈ commandTable := by simp [htab]
    rw [hl, Option.getD_some, out_of_mem hd he] at h
    exact htable _ he h

/-- A word is acknowledged as it is, and raises what its command does. -/
theorem commandParser_word (s : OdileController.State) :
    ((commandParser s).sendCmdAck = true → HasCommand s ∧
        (commandParser s).cmdToAck = s.dataInReg) ∧
      (Raises (commandParser s).out c → HasCommand s ∧ command s.dataInReg ∈ asks c) := by
  by_cases hs : HasCommand s
  · have hword : (commandParser s).cmdToAck = s.dataInReg ∧
        (commandParser s).out = (commandCase s.dataInReg (defaults s)).out := by
      simp only [commandParser, if_pos hs, storeOperand]
      split_ifs <;> exact ⟨rfl, rfl⟩
    refine ⟨fun _ => ⟨hs, hword.1⟩, fun hr => ⟨hs, ?_⟩⟩
    rw [hword.2] at hr
    exact asks_of_raises rfl hr
  · have hnone : commandParser s = defaults s := if_neg hs
    rw [hnone]
    exact ⟨fun h => absurd h Bool.false_ne_true, fun hr => absurd hr not_raises_quiet⟩

/-- What the controller holds answers the words that the owners name. -/
structure Parsed (is : List Input) (s : OdileController.State) (o : Owners) : Prop where
  edge : o.edge = is.length
  parsed : HasCommand s → Names is s.dataInReg o.parsed
  acked : s.sendCmdAck = true → Names is s.cmdToAck o.acked
  raised : ∀ c, Raises s.out c → NamesRequest is c o.acked

theorem Parsed.next (h : Parsed is s.ctl o) (epochInt : ℕ) (i : Input) :
    Parsed (is ++ [i]) (step epochInt i s).ctl (o.next i s) where
  edge := by
    rw [List.length_append, List.length_singleton, ← h.edge]
    rfl
  parsed hi := by
    have hcommand : IsCommand i.ctl := hi
    have hparsed : (o.next i s).parsed = some is.length := by
      rw [← h.edge]
      exact if_pos hcommand
    rw [hparsed]
    exact names_last hcommand
  acked hack := by
    obtain ⟨hs, hword⟩ := (commandParser_word (c := .monit) s.ctl).1 hack
    have hack' : (step epochInt i s).ctl.cmdToAck = s.ctl.dataInReg := hword
    rw [hack']
    exact (h.parsed hs).concat i
  raised c hr := by
    obtain ⟨hs, hasks⟩ := (commandParser_word s.ctl).2 hr
    exact ⟨s.ctl.dataInReg, (h.parsed hs).concat i, hasks⟩

/-- A word of a client is in the reply to the word that its owner names; the notices of the
    generator have no owner. -/
def Answered (epochInt : ℕ) (is : List Input) (c : Client) (w : Word) (t : Owner) : Prop :=
  (∃ r, Names is r t ∧ Answers epochInt (command r) w c) ∨
    t = none ∧ c = .commandResp ∧ IsNotice w

/-! ## The generator -/

namespace Generator

open CommandResponseGenerator (Moves buffer said moves_hwReset moves_waitBuffer moves_readBuffer
  moves_txReqWait moves_processReply moves_replyTimestamp moves_replyRead moves_replyCmdList
  moves_replyDone moves_replyInvalid moves_idle_reads moves_idle_empty replyState replyState_cases
  buffer_step dataWords ending)

variable {x : CommandResponseGenerator.Input} {y : CommandResponseGenerator.State}

/-- The command goes with the state in which a word of the reply to it is said. -/
def Goes (y : CommandResponseGenerator.State) : Prop :=
  match y.nextState with
  | .replyTimestamp => y.currCommand = cmdGetTs
  | .replyUptime | .replyErrorCode => Reads y.currCommand
  | .replyCmdList => y.currCommand = cmdGetCmdList ∧ y.cmdIdx < validCommands.length
  | .replyDone => y.currCommand ∈ selfCompleting
  | .replyInvalid =>
    Proper y.currCommand ∧ y.currCommand ∉ selfCompleting ∧ isValidCommand y.currCommand = false
  | _ => True

/-- `curr_command` holds what is replied to. -/
def Telling (y : CommandResponseGenerator.State) : Prop :=
  y.nextState ≠ .hwReset ∧ y.nextState ≠ .idle ∧ y.nextState ≠ .waitBuffer ∧
    y.nextState ≠ .readBuffer

/-- A word of the reply to a command; to `DON` and `ERR` the echo only. -/
def Fits (epochInt : ℕ) (cmd : Command) (w : Word) : Prop :=
  (∃ r, w ∈ (Segment.reply cmd r).words epochInt) ∧ (¬Proper cmd → w = echo cmd)

theorem fits_echo (cmd : Command) : Fits epochInt cmd (echo cmd) :=
  ⟨⟨0, List.mem_cons_self⟩, fun _ => rfl⟩

theorem fits_data {cmd : Command} {r : Word} (hp : Proper cmd)
    (h : w ∈ dataWords epochInt cmd r) : Fits epochInt cmd w :=
  ⟨⟨r, List.mem_append_left _ (List.mem_cons_of_mem _ h)⟩, fun hn => absurd hp hn⟩

theorem fits_ending {cmd : Command} (hp : Proper cmd) (h : w ∈ ending cmd) :
    Fits epochInt cmd w :=
  ⟨⟨0, List.mem_append_right _ h⟩, fun hn => absurd hp hn⟩

/-- After an edge the command goes with the state, and what is said fits it. -/
def Says (epochInt : ℕ) (y y' : CommandResponseGenerator.State) : Prop :=
  Goes y' ∧ ∀ w ∈ said y', Telling y ∧ Fits epochInt y.currCommand w

variable {y' : CommandResponseGenerator.State} {n : CommandResponseGenerator.StateType}
  {rdreq : Bool} {cmd : Command} {idx : ℕ}

theorem says_nothing (hm : Moves y' n rdreq cmd idx [])
    (hn : n = .idle ∨ n = .waitBuffer ∨ n = .readBuffer ∨ n = .txReqWait ∨ n = .processReply) :
    Says epochInt y y' := by
  refine ⟨?_, fun w hw => ?_⟩
  · rw [Goes, hm.nextState]
    rcases hn with rfl | rfl | rfl | rfl | rfl <;> trivial
  · rw [hm.said] at hw
    cases hw

theorem says_word (hm : Moves y' n rdreq cmd idx [w]) (hgoes : Goes y') (ht : Telling y)
    (hf : Fits epochInt y.currCommand w) : Says epochInt y y' := by
  refine ⟨hgoes, fun w' hw' => ?_⟩
  rw [hm.said, List.mem_singleton] at hw'
  rw [hw']
  exact ⟨ht, hf⟩

/-- The echo leads to a state that goes with the command. -/
theorem says_echo (hs : y.nextState = .processReply) :
    Says epochInt y (CommandResponseGenerator.step epochInt x y) := by
  have hm : Moves (CommandResponseGenerator.step epochInt x y) _ _ _ _ _ := moves_processReply hs
  refine says_word hm ?_ (by simp [Telling, hs]) (fits_echo _)
  by_cases hp : Proper y.currCommand
  · rcases replyState_cases hp with
      ⟨hn, hself, -⟩ | ⟨hn, hts⟩ | ⟨hn | hn, hreads⟩ | ⟨hn, hlist⟩ | ⟨hn, -⟩ | ⟨hn, hself, hvalid⟩
    all_goals rw [Goes, hm.nextState, hn, hm.curr]
    · exact hself
    · exact hts
    · exact hreads
    · exact hreads
    · rw [hm.idx, if_pos hlist]
      exact ⟨hlist, by decide⟩
    · trivial
    · exact ⟨hp, hself, hvalid⟩
  · have hn : replyState y.currCommand = .idle := by
      rw [Proper, not_and_or, not_not, not_not] at hp
      rcases hp with hp | hp <;> rw [hp] <;> decide
    rw [Goes, hm.nextState, hn]
    trivial

theorem proper_of_mem (h : cmd ∈ selfCompleting) : Proper cmd := by
  simp only [selfCompleting, List.mem_cons, List.not_mem_nil, or_false] at h
  rcases h with rfl | rfl | rfl | rfl | rfl | rfl | rfl | rfl <;> decide

theorem mem_of_reads (h : Reads cmd) : cmd ∈ selfCompleting := by
  rcases h with rfl | rfl <;> decide

theorem Goes.step (h : Goes y) : Says epochInt y (CommandResponseGenerator.step epochInt x y) := by
  unfold Goes at h
  cases hs : y.nextState with
  | hwReset => exact says_nothing (moves_hwReset hs) (by simp)
  | idle =>
    by_cases hempty : (buffer y).fifo.contents = []
    · have hmoves : Moves (CommandResponseGenerator.step epochInt x y) _ _ _ _ _ ∨ _ :=
        moves_idle_empty hs hempty
      obtain hm | hm | hm := hmoves
      · exact says_nothing hm (by simp)
      · exact says_nothing hm (by simp)
      · exact says_nothing hm (by simp)
    · exact says_nothing (moves_idle_reads hs hempty) (by simp)
  | waitBuffer => exact says_nothing (moves_waitBuffer hs) (by simp)
  | readBuffer => exact says_nothing (moves_readBuffer hs) (by simp)
  | txReqWait => exact says_nothing (moves_txReqWait hs) (by split_ifs <;> simp)
  | processReply => exact says_echo hs
  | replyTimestamp =>
    rw [hs] at h
    have hm : Moves (CommandResponseGenerator.step epochInt x y) _ _ _ _ _ :=
      moves_replyTimestamp hs
    have hself : y.currCommand ∈ selfCompleting := by rw [h]; decide
    refine says_word hm ?_ (by simp [Telling, hs]) (fits_data (r := 0) (proper_of_mem hself) ?_)
    · rw [Goes, hm.nextState, hm.curr]
      exact hself
    · rw [h]
      exact List.mem_singleton_self _
  | replyUptime | replyErrorCode =>
    rw [hs] at h
    have hself := mem_of_reads h
    obtain ⟨r, hr⟩ : ∃ r, CommandResponseGenerator.reading x y = [r] := by
      unfold CommandResponseGenerator.reading
      rw [hs]
      exact ⟨_, rfl⟩
    have hm : Moves (CommandResponseGenerator.step epochInt x y) _ _ _ _ _ :=
      moves_replyRead (by simp [hs])
    rw [hr] at hm
    refine says_word hm ?_ (by simp [Telling, hs]) (fits_data (r := r) (proper_of_mem hself) ?_)
    · rw [Goes, hm.nextState, hm.curr]
      exact hself
    · rw [dataWords, if_pos h]
      exact List.mem_singleton_self _
  | replyCmdList =>
    rw [hs] at h
    obtain ⟨hcurr, hidx⟩ := h
    have hm : Moves (CommandResponseGenerator.step epochInt x y) _ _ _ _ _ :=
      moves_replyCmdList hs
    have hself : y.currCommand ∈ selfCompleting := by rw [hcurr]; decide
    refine says_word hm ?_ (by simp [Telling, hs]) (fits_data (r := 0) (proper_of_mem hself) ?_)
    · rw [Goes, hm.nextState, hm.curr, hm.idx]
      split_ifs with hlast
      · exact hself
      · exact ⟨hcurr, by omega⟩
    · rw [hcurr]
      refine List.mem_map_of_mem ?_
      rw [List.getD_eq_getElem?_getD, List.getElem?_eq_getElem hidx]
      exact List.getElem_mem hidx
  | replyDone =>
    rw [hs] at h
    have hm : Moves (CommandResponseGenerator.step epochInt x y) _ _ _ _ _ := moves_replyDone hs
    refine says_word hm ?_ (by simp [Telling, hs]) (fits_ending (proper_of_mem h) ?_)
    · rw [Goes, hm.nextState]
      trivial
    · rw [ending, if_pos h]
      exact List.mem_singleton_self _
  | replyInvalid =>
    rw [hs] at h
    obtain ⟨hp, hself, hvalid⟩ := h
    have hm : Moves (CommandResponseGenerator.step epochInt x y) _ _ _ _ _ := moves_replyInvalid hs
    refine says_word hm ?_ (by simp [Telling, hs]) (fits_ending hp ?_)
    · rw [Goes, hm.nextState]
      trivial
    · rw [ending, if_neg hself, hvalid]
      exact List.mem_singleton_self _

/-- `t` is the edge of a word with the command. -/
def NamesCommand (is : List Input) (cmd : Command) (t : Owner) : Prop :=
  ∃ w, Names is w t ∧ command w = cmd

/-- How far the generator is with a command, and what names it then. -/
structure Control (is : List Input) (y : CommandResponseGenerator.State)
    (fetched current : Owner) : Prop where
  asked : y.cmdbuffRdreq = true ↔ y.nextState = .waitBuffer
  popping : y.nextState = .waitBuffer → y.cmdbuff.contents ≠ []
  popped : y.nextState = .readBuffer → Names is y.cmdbuffQ fetched
  current : Telling y →
    NamesCommand is y.currCommand current ∨ current = none ∧ ¬Proper y.currCommand

/-- After an edge that reads nothing from the command buffer. -/
theorem control_of_moves {words : List Word} {fetched current : Owner}
    (hm : Moves y' n false cmd idx words) (hn : n ≠ .waitBuffer ∧ n ≠ .readBuffer)
    (h : n ≠ .hwReset → n ≠ .idle → NamesCommand is cmd current ∨ current = none ∧ ¬Proper cmd) :
    Control is y' fetched current where
  asked := by simp [hm.rdreq, hm.nextState, hn.1]
  popping := by
    intro hs
    exact absurd (hm.nextState.symm.trans hs) hn.1
  popped := by
    intro hs
    exact absurd (hm.nextState.symm.trans hs) hn.2
  current := by
    rintro ⟨hreset, hidle, -⟩
    rw [hm.nextState] at hreset hidle
    rw [hm.curr]
    exact h hreset hidle

theorem replyState_ne (cmd : Command) :
    replyState cmd ≠ .waitBuffer ∧ replyState cmd ≠ .readBuffer := by
  by_cases hp : Proper cmd
  · rcases replyState_cases hp with
      ⟨hn, -⟩ | ⟨hn, -⟩ | ⟨hn | hn, -⟩ | ⟨hn, -⟩ | ⟨hn, -⟩ | ⟨hn, -⟩ <;> rw [hn] <;> decide
  · rw [Proper, not_and_or, not_not, not_not] at hp
    rcases hp with hp | hp <;> rw [hp] <;> decide

/-- What the generator holds answers the words that the owners name. -/
structure Held (epochInt : ℕ) (is : List Input) (y : CommandResponseGenerator.State)
    (o : Owners) : Prop where
  goes : Goes y
  written : y.cmdbuffWrreq = true → Names is y.cmdbuffData o.written
  waiting : List.Forall₂ (Names is) y.cmdbuff.contents o.waiting.contents
  control : Control is y o.fetched o.current
  said : ∀ w ∈ said y, Answered epochInt is .commandResp w o.said

theorem next_current_of_telling (i : Input) (h : Telling s.clients.cmd) :
    (o.next i s).current = o.current := by
  simp only [Owners.next]
  split
  · exact absurd ‹_› h.2.1
  · exact absurd ‹_› h.2.2.2
  · rfl

theorem Held.control_step (h : Held epochInt is s.clients.cmd o) (i : Input)
    (x : CommandResponseGenerator.Input) :
    Control is (CommandResponseGenerator.step epochInt x s.clients.cmd) (o.next i s).fetched
      (o.next i s).current := by
  obtain ⟨hasked, hpopping, hpopped, hcurrent⟩ := h.control
  have hbuffer : buffer (CommandResponseGenerator.step epochInt x s.clients.cmd) = _ := buffer_step
  have hkeep : ∀ {n idx words}, Telling s.clients.cmd →
      Moves (CommandResponseGenerator.step epochInt x s.clients.cmd) n false
        s.clients.cmd.currCommand idx words → n ≠ .waitBuffer ∧ n ≠ .readBuffer →
      Control is (CommandResponseGenerator.step epochInt x s.clients.cmd) (o.next i s).fetched
        (o.next i s).current := by
    intro n idx words ht hm hn
    refine control_of_moves hm hn fun _ _ => ?_
    rw [next_current_of_telling i ht]
    exact hcurrent ht
  cases hs : s.clients.cmd.nextState with
  | hwReset => exact control_of_moves (moves_hwReset hs) (by decide) fun _ hn => absurd rfl hn
  | idle =>
    have hnone : (o.next i s).current = none := by simp only [Owners.next, hs]
    have hrdreq : s.clients.cmd.cmdbuffRdreq = false := by
      rw [← Bool.not_eq_true, hasked, hs]
      decide
    by_cases hempty : (buffer s.clients.cmd).fifo.contents = []
    · have hmoves : Moves (CommandResponseGenerator.step epochInt x s.clients.cmd) _ _ _ _ _ ∨ _ :=
        moves_idle_empty hs hempty
      obtain hm | hm | hm := hmoves
      · exact control_of_moves hm (by decide) fun _ _ => .inr ⟨hnone, by decide⟩
      · exact control_of_moves hm (by decide) fun _ _ => .inr ⟨hnone, by decide⟩
      · exact control_of_moves hm (by decide) fun _ hn => absurd rfl hn
    · have hm : Moves (CommandResponseGenerator.step epochInt x s.clients.cmd) _ _ _ _ _ :=
        moves_idle_reads hs hempty
      refine ⟨by simp [hm.rdreq, hm.nextState], fun _ hnil => ?_, fun hn => ?_, fun ht => ?_⟩
      · -- what is in the buffer stays until it is read
        rw [show (CommandResponseGenerator.step epochInt x s.clients.cmd).cmdbuff = _ from
          congrArg InputBuffer.fifo hbuffer, InputBuffer.clock, hrdreq] at hnil
        exact hempty (List.append_eq_nil_iff.1 hnil).1
      · rw [hm.nextState] at hn
        cases hn
      · exact absurd hm.nextState ht.2.2.1
  | waitBuffer =>
    have hm : Moves (CommandResponseGenerator.step epochInt x s.clients.cmd) _ _ _ _ _ :=
      moves_waitBuffer hs
    refine ⟨by simp [hm.rdreq, hm.nextState], fun hn => ?_, fun _ => ?_, fun ht => ?_⟩
    · rw [hm.nextState] at hn
      cases hn
    · rw [show (CommandResponseGenerator.step epochInt x s.clients.cmd).cmdbuffQ = _ from
        congrArg InputBuffer.q hbuffer]
      have hq := Fifo.rel_nextQ h.waiting (hpopping hs) s.clients.cmd.cmdbuffQ o.fetched
      rw [← hasked.2 hs] at hq
      exact hq
    · exact absurd hm.nextState ht.2.2.2
  | readBuffer =>
    have hfetched : (o.next i s).current = o.fetched := by simp only [Owners.next, hs]
    refine control_of_moves (moves_readBuffer hs) (by decide) fun _ _ => .inl ?_
    rw [hfetched]
    exact ⟨_, hpopped hs, rfl⟩
  | txReqWait =>
    refine hkeep (by simp [Telling, hs]) (moves_txReqWait hs) ?_
    split_ifs <;> decide
  | processReply => exact hkeep (by simp [Telling, hs]) (moves_processReply hs) (replyState_ne _)
  | replyTimestamp =>
    exact hkeep (by simp [Telling, hs]) (moves_replyTimestamp hs) (by decide)
  | replyUptime | replyErrorCode =>
    exact hkeep (by simp [Telling, hs]) (moves_replyRead (by simp [hs])) (by decide)
  | replyCmdList =>
    refine hkeep (by simp [Telling, hs]) (moves_replyCmdList hs) ?_
    split_ifs <;> decide
  | replyDone => exact hkeep (by simp [Telling, hs]) (moves_replyDone hs) (by decide)
  | replyInvalid => exact hkeep (by simp [Telling, hs]) (moves_replyInvalid hs) (by decide)

theorem Control.concat {fetched current : Owner} (h : Control is y fetched current) (i : Input) :
    Control (is ++ [i]) y fetched current where
  asked := h.asked
  popping := h.popping
  popped hn := (h.popped hn).concat i
  current ht := by
    rcases h.current ht with ⟨w, hw, hcmd⟩ | hnone
    · exact .inl ⟨w, hw.concat i, hcmd⟩
    · exact .inr hnone

/-- What is said after an edge answers the word that the owner of `curr_command` names. -/
theorem Held.said_step (h : Held epochInt is s.clients.cmd o) (x : CommandResponseGenerator.Input) :
    ∀ w ∈ CommandResponseGenerator.said (CommandResponseGenerator.step epochInt x s.clients.cmd),
      Answered epochInt is .commandResp w o.current := by
  intro w hw
  obtain ⟨ht, hword, hecho⟩ := (h.goes.step (x := x)).2 w hw
  rcases h.control.current ht with ⟨r, hr, hcmd⟩ | ⟨hnone, hp⟩
  · refine .inl ⟨r, hr, ?_⟩
    rw [hcmd]
    exact hword
  · refine .inr ⟨hnone, rfl, ?_⟩
    rw [hecho hp]
    rw [Proper, not_and_or, not_not, not_not] at hp
    rcases hp with hp | hp <;> rw [hp]
    · exact .inl rfl
    · exact .inr rfl

theorem Held.next (h : Held epochInt is s.clients.cmd o) (hctl : Parsed is s.ctl o) (i : Input) :
    Held epochInt (is ++ [i]) (step epochInt i s).clients.cmd (o.next i s) := by
  have hstep : (step epochInt i s).clients.cmd =
      CommandResponseGenerator.step epochInt (cmdInput i s) s.clients.cmd := rfl
  have hbuffer : buffer (step epochInt i s).clients.cmd = _ := buffer_step
  rw [hstep] at hbuffer ⊢
  refine ⟨h.goes.step.1, fun hwr => ?_, ?_, (h.control_step i _).concat i, fun w hw => ?_⟩
  · have hack : s.ctl.sendCmdAck = true := (congrArg InputBuffer.wrreq hbuffer).symm.trans hwr
    have hdata : (CommandResponseGenerator.step epochInt (cmdInput i s) s.clients.cmd).cmdbuffData =
        s.ctl.cmdToAck := congrArg InputBuffer.data hbuffer
    rw [hdata]
    exact (hctl.acked hack).concat i
  · rw [show (CommandResponseGenerator.step epochInt (cmdInput i s) s.clients.cmd).cmdbuff = _ from
      congrArg InputBuffer.fifo hbuffer]
    exact (Fifo.forall₂_clock h.waiting h.written _).imp fun _ _ hw => hw.concat i
  · rcases h.said_step _ w hw with ⟨r, hr, hword⟩ | hnotice
    · exact .inl ⟨r, hr.concat i, hword⟩
    · exact .inr hnotice

end Generator

/-! ## The other clients -/

/-- The machine of a client works on a trigger. -/
def Busy (s : State) : Client → Prop
  | .ccdInterface =>
    s.clients.ccd.read.nextReadState ≠ .hwReset ∧ s.clients.ccd.read.nextReadState ≠ .idle
  | .configScanner => s.clients.scan.nextState ≠ .hwReset ∧ s.clients.scan.nextState ≠ .idle
  | .monit => s.monit.nextState ≠ .hwReset ∧ s.monit.nextState ≠ .idle
  | .commandResp | .epcqio => False

theorem Busy.not_takesTrigger (h : Busy s c) : ¬TakesTrigger s c := by
  cases c with
  | ccdInterface => exact h.2
  | configScanner => exact h.2
  | monit => exact h.2
  | commandResp => exact id
  | epcqio => exact id

/-- A machine begins to work on a trigger that is raised while it is in `IDLE`. -/
theorem busy_step (h : Busy (step epochInt i s) c) :
    Busy s c ∨ TakesTrigger s c ∧ Raises s.ctl.out c := by
  by_contra hno
  rw [not_or, not_and] at hno
  obtain ⟨hbusy, htrigger⟩ := hno
  cases c with
  | ccdInterface =>
    have hrest := EthernetCcdcontrolInterface.step_rest (s := s.clients.ccd)
      (i := { (clientsInput i s).ccd with udpReady := s.clients.arb.udpReady .ccdInterface })
      (or_iff_not_and_not.2 hbusy) fun ht => htrigger ht.1 ht.2.2
    exact (or_iff_not_and_not.1 hrest) h
  | configScanner =>
    have hrest := ConfigBlockScanner.step_rest (s := s.clients.scan)
      (i := { (clientsInput i s).scan with udpReady := s.clients.arb.udpReady .configScanner })
      (or_iff_not_and_not.2 hbusy) fun ht => htrigger ht.1 (ht.2.resolve_right nofun)
    exact h.2 hrest
  | monit =>
    have hrest := (EthernetMonitoringInterface.step_resting (i := monitInput i s)
      (or_iff_not_and_not.2 hbusy)).2
    rcases hrest with hrest | ⟨hs, hr, -⟩
    · exact h.2 hrest
    · exact htrigger hs hr
  | commandResp => exact h
  | epcqio => exact h

/-- Only a machine that works on a trigger puts a word on its bus. -/
theorem busy_of_dval (hc : c ≠ .commandResp ∧ c ≠ .epcqio)
    (h : (bus (step epochInt i s) c).dval = true) : Busy s c := by
  cases c with
  | ccdInterface =>
    have hs := EthernetCcdcontrolInterface.sending_of_valid h
    rcases hs with hs | hs | hs | hs <;> simp [Busy, hs]
  | configScanner =>
    have hs := ConfigBlockScanner.scanning_of_valid h
    rcases hs with hs | hs <;> simp [Busy, hs]
  | monit =>
    have hs := EthernetMonitoringInterface.readReg_of_valid h
    simp [Busy, hs]
  | commandResp => exact absurd rfl hc.1
  | epcqio => exact absurd rfl hc.2

/-! ## Along a run -/

/-- Whatever is held on the way answers the words that the owners name. -/
structure Traced (epochInt : ℕ) (is : List Input) (s : State) (o : Owners) : Prop where
  controller : Parsed is s.ctl o
  generator : Generator.Held epochInt is s.clients.cmd o
  triggered : ∀ c, Busy s c → NamesRequest is c (o.trigger c)

theorem traced_initial : Traced epochInt [] initial .initial where
  controller := ⟨rfl, nofun, nofun, fun _ hr => absurd hr not_raises_quiet⟩
  generator :=
    ⟨trivial, nofun, .nil, ⟨⟨nofun, nofun⟩, nofun, nofun, fun ht => absurd rfl ht.1⟩, nofun⟩
  triggered c hc := by
    cases c with
    | ccdInterface => exact absurd rfl hc.1
    | configScanner => exact absurd rfl hc.1
    | monit => exact absurd rfl hc.1
    | commandResp => exact hc.elim
    | epcqio => exact hc.elim

theorem Traced.step (h : Traced epochInt is s o) (i : Input) :
    Traced epochInt (is ++ [i]) (ReplyRouting.step epochInt i s) (o.next i s) where
  controller := h.controller.next epochInt i
  generator := h.generator.next h.controller i
  triggered c hc := by
    have hnext : (o.next i s).trigger c = if TakesTrigger s c then o.acked else o.trigger c := rfl
    rw [hnext]
    rcases busy_step hc with hbusy | ⟨htakes, hr⟩
    · rw [if_neg hbusy.not_takesTrigger]
      exact (h.triggered c hbusy).concat i
    · rw [if_pos htakes]
      exact (h.controller.raised c hr).concat i

theorem ownedStep_state (epochInt : ℕ) (is : List Input) :
    (run (ownedStep epochInt) .initial is).state = run (step epochInt) initial is := by
  have hpart := run_part (ownedStep epochInt) (t := step epochInt) (p := Owned.state) (g := id)
    (fun _ _ => rfl) .initial is
  rw [List.map_id] at hpart
  exact hpart

theorem traced_run (epochInt : ℕ) (is : List Input) :
    Traced epochInt is (run (step epochInt) initial is)
      (run (ownedStep epochInt) .initial is).owners := by
  induction is using List.reverseRecOn with
  | nil => exact traced_initial
  | append_singleton is i ih =>
    rw [run_concat, run_concat, ownedStep, ownedStep_state]
    exact ih.step i

/-- What is on the bus of a client after an edge. -/
theorem Traced.bus_step (h : Traced epochInt is s o) (i : Input) (hc : c ≠ .epcqio)
    (hd : (bus (ReplyRouting.step epochInt i s) c).dval = true) :
    Answered epochInt is c (bus (ReplyRouting.step epochInt i s) c).data
      ((o.next i s).onBus c) := by
  by_cases hcmd : c = .commandResp
  · subst hcmd
    have hsaid : CommandResponseGenerator.output (ReplyRouting.step epochInt i s).clients.cmd =
        CommandResponseGenerator.said s.clients.cmd := CommandResponseGenerator.output_step
    have hvalid : (ReplyRouting.step epochInt i s).clients.cmd.dataOutValid = true := hd
    rw [CommandResponseGenerator.output, if_pos hvalid] at hsaid
    exact h.generator.said _ (hsaid ▸ List.mem_singleton_self _)
  · have howner : (o.next i s).onBus c = o.trigger c := if_neg hcmd
    obtain ⟨w, hw, hasks⟩ := h.triggered c (busy_of_dval ⟨hcmd, hc⟩ hd)
    rw [howner]
    refine .inl ⟨w, hw, ?_⟩
    cases c with
    | commandResp => exact absurd rfl hcmd
    | ccdInterface | configScanner | epcqio | monit => exact hasks

/-- The word on the output is the one that the current client has had on its bus. -/
theorem mem_udpOut_step {dest : ReplyTo} (h : (w, dest) ∈ udpOut (step epochInt i s)) :
    dest = destination (step epochInt i s) ∧
      ∃ c, s.clients.arb.currentClient = some c ∧ (bus s c).dval = true ∧ w = (bus s c).data := by
  unfold udpOut at h
  split_ifs at h with hvalid
  · obtain ⟨rfl, hdest⟩ := Prod.mk.inj (List.mem_singleton.1 h)
    refine ⟨hdest, ?_⟩
    cases hc : s.clients.arb.currentClient with
    | none =>
      have hnone := step_valid_none (i := arbInput s) hc
      exact absurd (hnone.symm.trans hvalid) (by decide)
    | some c =>
      obtain ⟨hv, -, hd⟩ := step_valid (i := arbInput s) hc
      exact ⟨c, rfl, hv.symm.trans hvalid, hd⟩
  · cases h

theorem owner_concat (epochInt : ℕ) (is : List Input) (i j : Input) {c : Client}
    (hc : (run (step epochInt) initial (is ++ [i])).clients.arb.currentClient = some c) :
    owner epochInt (is ++ [i, j]) = ((run (ownedStep epochInt) .initial is).owners.next i
      (run (step epochInt) initial is)).onBus c := by
  have hsplit : is ++ [i, j] = is ++ [i] ++ [j] := by simp
  have hnext : owner epochInt (is ++ [i, j]) =
      (run (ownedStep epochInt) .initial (is ++ [i])).state.clients.arb.currentClient.bind
        (run (ownedStep epochInt) .initial (is ++ [i])).owners.onBus := by
    rw [owner, hsplit, run_concat]
    rfl
  rw [hnext, ownedStep_state, hc, Option.bind_some, run_concat, ownedStep, ownedStep_state]

/-! ## Requesters -/

/-- Since the command-port word `k` at edge `n` none of another sender has come in. -/
def Undisputed (is : List Input) (n : ℕ) (k : Input) : Prop :=
  is[n]? = some k ∧ IsCommand k.ctl ∧
    ∀ k' ∈ is.drop (n + 1), IsCommand k'.ctl → sender k' = sender k

theorem lastSender_of_undisputed {n : ℕ} {k : Input} (h : Undisputed is n k) :
    lastSender is = sender k := by
  obtain ⟨hk, hcommand, hsince⟩ := h
  obtain ⟨hlt, rfl⟩ := List.getElem?_eq_some_iff.1 hk
  have hsplit : is = is.take n ++ [is[n]] ++ is.drop (n + 1) := by
    rw [List.append_assoc, List.singleton_append, List.cons_getElem_drop_succ,
      List.take_append_drop]
  have hrest : ∀ r, (∀ k' ∈ r, IsCommand k'.ctl → sender k' = sender is[n]) →
      lastSender (is.take n ++ [is[n]] ++ r) = sender is[n] := by
    intro r hr
    induction r using List.reverseRecOn with
    | nil => rw [List.append_nil, lastSender_concat, if_pos hcommand]
    | append_singleton r k' ih =>
      rw [← List.append_assoc, lastSender_concat]
      split_ifs with hk'
      · exact hr k' (by simp) hk'
      · exact ih fun m hm => hr m (List.mem_append_left _ hm)
  exact (congrArg lastSender hsplit).trans (hrest _ hsince)

/-- Every word on the output of the arbiter goes to the sender of the command-port word received
    last, two edges before, and so to the sender of any earlier one that is undisputed. A word
    that does not come from the flash is in the reply to the command that its owner names, which
    came in before, or it is one of the notices `DON` and `ERR`. -/
theorem replies_to_requester (epochInt : ℕ) (is : List Input) (i j : Input) :
    destination (run (step epochInt) initial (is ++ [i, j])) = lastSender is ∧
      (∀ n k, Undisputed is n k →
        destination (run (step epochInt) initial (is ++ [i, j])) = sender k) ∧
      ∀ w dest, (w, dest) ∈ udpOut (run (step epochInt) initial (is ++ [i, j])) →
        ∃ c, (run (step epochInt) initial (is ++ [i])).clients.arb.currentClient = some c ∧
          (c = .epcqio ∨
            (∃ n k, owner epochInt (is ++ [i, j]) = some n ∧ is[n]? = some k ∧ IsCommand k.ctl ∧
              Answers epochInt (command k.ctl.dataIn) w c ∧
              (Undisputed is n k → dest = sender k)) ∨
            owner epochInt (is ++ [i, j]) = none ∧ c = .commandResp ∧ IsNotice w) := by
  have hdest : destination (run (step epochInt) initial (is ++ [i, j])) = lastSender is :=
    destination_eq is i j
  have hsender : ∀ n k, Undisputed is n k →
      destination (run (step epochInt) initial (is ++ [i, j])) = sender k :=
    fun n k hk => hdest.trans (lastSender_of_undisputed hk)
  refine ⟨hdest, hsender, fun w dest hw => ?_⟩
  have hrun : run (step epochInt) initial (is ++ [i, j]) =
      step epochInt j (run (step epochInt) initial (is ++ [i])) := by
    rw [← run_concat (step epochInt), List.append_assoc, List.singleton_append]
  rw [hrun] at hw
  obtain ⟨hw', c, hc, hdval, rfl⟩ := mem_udpOut_step hw
  rw [← hrun] at hw'
  subst hw'
  refine ⟨c, hc, or_iff_not_imp_left.2 fun hflash => ?_⟩
  rw [run_concat] at hdval ⊢
  have hanswered := (traced_run epochInt is).bus_step i hflash hdval
  rw [← owner_concat epochInt is i j hc] at hanswered
  refine hanswered.imp ?_ id
  rintro ⟨r, ⟨n, k, hn, hk, hcommand, rfl⟩, hanswers⟩
  exact ⟨n, k, hn, hk, hcommand, hanswers, hsender n k⟩

/-- The acknowledgement of `STS` is owned by the edge at which it came in, that of `AEX` by the
    next one. -/
example : log (ownedStep 0) (fun _ s => (udpOut s.state).map fun o => (o.1, s.owners.udpOut))
      .initial ([commandEdge 0x535453 1, commandEdge 0x414558 2] ++ List.replicate 20 idleEdge) =
    [(0xF0535453, some 0), (0xF0414558, some 1)] := by
  decide +kernel

end FpgaEthernet.ReplyRouting
