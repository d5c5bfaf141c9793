import FpgaEthernet.Ethernet.EthernetDataRouter
import FpgaEthernet.Flash.EpcqioExecution
import FpgaEthernet.Server.WriteFirmware

/-!
# From datagrams to accesses to the EPCQ memory

The way of the host's commands through `ethernet_data_router`, `odile_controller` and
the process `epcqio_multiplexer` of `top_ethernet.vhd` to `epcqio_control`, and that of
the firmware words to its write buffer.

Main results:

* `command_run`, `operand_run`, `firmware_run`: what a datagram does.
* `does_run`, `accesses_refine`: the accesses that are asked for are those that the
  datagrams stand for on the side of the host.
* `writeFirmware_requests`: whatever is received and wherever the run is cut, they keep
  the erase discipline.
-/

namespace FpgaEthernet.CommandPath

open Clocked Command OdileServer
open EpcqioControl (DataInput Request commandIn)
open EthernetDataRouter (arrivals)
open OdileController (command commandCase HasCommand IsCommand IsTwoWord Outputs)
open Server (bswap32 bswap32_bswap32)

/-! ## Model -/

/-- What `config_data_manager` asks `epcqio_control` for: `cm_epcqio_read_data`,
    `cm_epcqio_address` and `cm_epcqio_numwords`. -/
structure ManagerRead where
  readData : Bool
  address : Word
  numwords : BitVec 7

/-- The inputs of the path. -/
structure Input where
  eth : EthernetDataRouter.Input
  cm : ManagerRead

/-- The router, the controller and the registers of `epcqio_multiplexer`, which are the
    inputs of `data_state_machine`. -/
structure State where
  router : EthernetDataRouter.State
  controller : OdileController.State
  epcqio : DataInput

/-- The registers at power-up. -/
def initial : State :=
  ⟨EthernetDataRouter.initial, OdileController.initial, ⟨false, false, false, false, 0, 0⟩⟩

/-- The input ports of `odile_controller` (`top_ethernet.vhd` lines 1090-1094). -/
def controllerInput (r : EthernetDataRouter.State) : OdileController.Input where
  dataIn := r.ethDataOut
  dataValid := r.ethDataValid
  dataPort := r.ethDataPort
  dataAddr := r.ethDataAddr
  sourceIface := r.sourceIfaceReg

/-- `epcqio_multiplexer` (`top_ethernet.vhd` lines 849-865). -/
def epcqioMultiplexer (cm : ManagerRead) (con : OdileController.State) : DataInput where
  writeData := con.out.epcqioWriteData
  eraseSector := con.out.epcqioEraseSector
  enable4byte := con.out.epcqioEnable4byte
  address := if cm.readData then cm.address else con.settings.epcqioAddressReg
  numWords := if cm.readData then cm.numwords else con.settings.epcqioNumwordsReg
  readData := if cm.readData then true else con.out.epcqioReadData

/-- One edge of `clock`. -/
def step (i : Input) (s : State) : State where
  router := EthernetDataRouter.step i.eth s.router
  controller := OdileController.step (controllerInput s.router) s.controller
  epcqio := epcqioMultiplexer i.cm s.controller

/-- What happens at `epcqio_control`. -/
inductive Event
  | clear
  | word (w : Word)
  | request (r : Request)
  deriving DecidableEq

/-- The write buffer is cleared, or takes a word (`epcqio_control.vhd` lines 354-359). -/
def bufferEvents (s : State) : List Event :=
  if s.controller.out.epcqioClearBuffers then [.clear]
  else if s.router.epcqioValid then [.word s.router.epcqioDataOut]
  else []

/-- The command that `data_state_machine` is asked for. -/
def requestEvents (x : DataInput) : List Event :=
  match commandIn x with
  | some c => [.request ⟨c, x.address, x.numWords⟩]
  | none => []

/-- The events at an edge. -/
def events (_ : Input) (s : State) : List Event := bufferEvents s ++ requestEvents s.epcqio

/-! ## Specification -/

/-- The words in the write buffer after an event. -/
def bufferStep : Event → List Word → List Word
  | .clear, _ => []
  | .word w, b => b ++ [w]
  | .request ⟨.write, _, n⟩, b => b.drop n.toNat
  | .request _, b => b

/-- The access that an event asks for, with the words as the host has them. -/
def bufferAccess : Event → List Word → List Access
  | .request ⟨.write, a, n⟩, b => [.write a ((b.take n.toNat).map bswap32)]
  | .request ⟨.read, a, n⟩, _ => [.read a n.toNat]
  | .request ⟨.eraseSector, a, _⟩, _ => [.erase a]
  | _, _ => []

/-- The accesses that events ask for, where `b` is in the write buffer. -/
def accesses (b : List Word) (es : List Event) : List Access := log bufferStep bufferAccess b es

/-- No word comes in that is for the controller or the EPCQ. -/
def Quiet (i : Input) : Prop :=
  ∀ x ∈ arrivals i.eth, x.port ≠ udpPortCommand ∧ x.port ≠ udpPortEpcqio

/-- A word comes in on an interface, and none beside it. -/
def Brings (port : UdpPort) (w : Word) (i : Input) : Prop :=
  ∃ x, arrivals i.eth = [x] ∧ x.port = port ∧ x.data = w ∧ x.source ≠ 0b1000

/-- The edges after a datagram until all that it asks for has come to `epcqio_control`. -/
def latency : ℕ := 4

/-- The datagrams come in: the words of each at consecutive edges, and after them for
    `latency` edges no other word for the controller or the EPCQ. -/
inductive Carries : List Datagram → List Input → Prop
  | nil : Carries [] []
  | quiet {i : Input} {ds : List Datagram} {is : List Input} :
      Quiet i → Carries ds is → Carries ds (i :: is)
  | datagram {d : Datagram} {ds : List Datagram} {ws gap is : List Input} :
      List.Forall₂ (fun w i => Brings d.port (bswap32 w) i) d.data ws →
      gap.length = latency → (∀ i ∈ gap, Quiet i) → Carries ds is →
      Carries (d :: ds) (ws ++ gap ++ is)

/-- A datagram to the command port has one command, or one with its operand, and the
    operand does not spell a command. -/
def WellFormed (d : Datagram) : Prop :=
  d.port = commandPort →
    match d.data with
    | [] => True
    | [_] => True
    | [w, operand] => IsTwoWord (bswap32 w) ∧ command (bswap32 operand) ∉ OdileController.commands
    | _ => False

/-! ## The case statement -/

variable {i : Input} {s s' : State} {w : Word} {d : OdileController.State} {port : UdpPort}
  {is : List Input} {b : List Word} {ds : List Datagram}

/-- No output for the EPCQ is raised. -/
structure Silent (o : Outputs) : Prop where
  clear : o.epcqioClearBuffers = false
  write : o.epcqioWriteData = false
  read : o.epcqioReadData = false
  en4b : o.epcqioEnable4byte = false
  erase : o.epcqioEraseSector = false

theorem silent_quiet : Silent .quiet := ⟨rfl, rfl, rfl, rfl, rfl⟩

/-- What is in the registers for the EPCQ. -/
structure SameSettings (x y : OdileController.Settings) : Prop where
  address : x.epcqioAddressReg = y.epcqioAddressReg
  numwords : x.epcqioNumwordsReg = y.epcqioNumwordsReg

/-- The commands that raise an output for the EPCQ. -/
def epcqCommands : List Command :=
  [cmdEpcqClear, cmdEpcqWrite, cmdEpcqRead, cmdEpcqEraseSec, cmdEpcqEn4b]

theorem silent_of_mem {e : Command × (Word → OdileController.State → OdileController.State)}
    (he : e ∈ OdileController.commandTable) (hc : e.1 ∉ epcqCommands) (hd : Silent d.out) :
    Silent (e.2 w d).out ∧ SameSettings (e.2 w d).settings d.settings := by
  obtain ⟨h₁, h₂, h₃, h₄, h₅⟩ := hd
  simp only [OdileController.commandTable, List.mem_cons, List.not_mem_nil, or_false] at he
  repeat' obtain rfl | he := he
  all_goals first
    | exact absurd (by decide) hc
    | exact ⟨⟨h₁, h₂, h₃, h₄, h₅⟩, rfl, rfl⟩
    | (dsimp only; split_ifs <;> exact ⟨⟨h₁, h₂, h₃, h₄, h₅⟩, rfl, rfl⟩)

/-- Another word does not show at the EPCQ. -/
theorem commandCase_silent (h : command w ∉ epcqCommands) (hd : Silent d.out) :
    Silent (commandCase w d).out ∧ SameSettings (commandCase w d).settings d.settings := by
  unfold commandCase
  cases hl : OdileController.commandTable.lookup (command w) with
  | none => exact ⟨hd, rfl, rfl⟩
  | some f =>
    obtain ⟨l₁, l₂, htable, -⟩ := List.lookup_eq_some_iff.1 hl
    exact silent_of_mem (e := (command w, f)) (by simp [htable]) h hd

theorem commandCase_epcqClear (h : command w = cmdEpcqClear) :
    commandCase w d = { d with out := { d.out with epcqioClearBuffers := true } } := by
  unfold commandCase
  rw [h]
  rfl

theorem commandCase_epcqEraseSec (h : command w = cmdEpcqEraseSec) :
    commandCase w d = { d with out := { d.out with epcqioEraseSector := true } } := by
  unfold commandCase
  rw [h]
  rfl

theorem commandCase_epcqEn4b (h : command w = cmdEpcqEn4b) :
    commandCase w d = { d with out := { d.out with epcqioEnable4byte := true } } := by
  unfold commandCase
  rw [h]
  rfl

theorem commandCase_epcqWrite (h : command w = cmdEpcqWrite) :
    commandCase w d = { d with
      out := { d.out with epcqioWriteData := true }
      settings := { d.settings with epcqioNumwordsReg := w.extractLsb' 24 7 } } := by
  unfold commandCase
  rw [h]
  rfl

theorem commandCase_epcqRead (h : command w = cmdEpcqRead) :
    commandCase w d = { d with
      out := { d.out with epcqioReadData := true }
      settings := { d.settings with epcqioNumwordsReg := w.extractLsb' 24 7 } } := by
  unfold commandCase
  rw [h]
  rfl

/-! ## At rest -/

/-- Nothing is on its way to `epcqio_control` but a word for the write buffer. -/
structure Idle (s : State) : Prop where
  passing : ¬IsCommand (controllerInput s.router)
  parsing : ¬HasCommand s.controller
  silent : Silent s.controller.out
  secondWord : s.controller.secondWord = false
  request : commandIn s.epcqio = none

/-- Nothing is on its way to `epcqio_control`. -/
structure AtRest (s : State) : Prop extends Idle s where
  buffer : s.router.epcqioValid = false

theorem atRest_initial : AtRest initial where
  passing := by decide
  parsing := by decide
  silent := silent_quiet
  secondWord := rfl
  request := rfl
  buffer := rfl

/-- The word for the write buffer that an edge puts on the lines. -/
def bufferWord (i : Input) : List Word :=
  ((EthernetDataRouter.arrivalsFor .epcqio i.eth).take 1).map EthernetDataRouter.Arrival.data

/-- The word for the write buffer that is on the lines. -/
def onLines (s : State) : List Word := EthernetDataRouter.word .epcqio s.router

theorem onLines_step : onLines (step i s) = bufferWord i :=
  EthernetDataRouter.word_step .epcqio i.eth s.router

/-- The word that is passed on is the first of the arrivals. -/
theorem isCommand_step : IsCommand (controllerInput (step i s).router) ↔
    ∃ x, (arrivals i.eth).head? = some x ∧ x.port = udpPortCommand := by
  have hpassed := EthernetDataRouter.passed_step i.eth s.router
  unfold EthernetDataRouter.passed at hpassed
  unfold IsCommand controllerInput step
  dsimp only
  cases hl : arrivals i.eth with
  | nil =>
    rw [hl] at hpassed
    split_ifs at hpassed with hv
    · simp at hpassed
    · simp [hv]
  | cons x l =>
    rw [hl] at hpassed
    split_ifs at hpassed with hv
    · obtain rfl := List.singleton_inj.1 hpassed
      simp [hv]
    · simp at hpassed

/-- The manager does not read. -/
def Undisturbed (i : Input) : Prop := i.cm.readData = false

theorem requestEvents_none {x : DataInput} (h : commandIn x = none) : requestEvents x = [] := by
  rw [requestEvents, h]

/-- Without a command to parse the controller raises nothing and keeps its settings. -/
theorem controller_step {j : OdileController.Input} (h : ¬HasCommand d) :
    (OdileController.step j d).out = .quiet ∧ (OdileController.step j d).settings = d.settings ∧
      (OdileController.step j d).secondWord = false := by
  simp [OdileController.step, OdileController.commandParser, h, OdileController.defaults]

/-- The multiplexer passes on that nothing is asked for. -/
theorem commandIn_multiplexer {cm : ManagerRead} (hcm : cm.readData = false) (h : Silent d.out) :
    commandIn (epcqioMultiplexer cm d) = none := by
  simp [commandIn, epcqioMultiplexer, hcm, h.write, h.read, h.en4b, h.erase]

theorem idle_events (h : Idle s) : events i s = (onLines s).map .word := by
  simp only [events, bufferEvents, onLines, EthernetDataRouter.word,
    requestEvents_none h.request, h.silent.clear, Bool.false_eq_true, if_false, List.append_nil]
  split_ifs <;> rfl

/-- An edge without a command. -/
theorem idle_step (h : Idle s) (hi : Undisturbed i)
    (hn : ∀ x ∈ arrivals i.eth, x.port ≠ udpPortCommand) :
    Idle (step i s) ∧ (step i s).controller.settings = s.controller.settings := by
  obtain ⟨hout, hset, hsecond⟩ := controller_step (j := controllerInput s.router) h.parsing
  refine ⟨⟨?_, ?_, ?_, hsecond, commandIn_multiplexer hi h.silent⟩, hset⟩
  · rw [isCommand_step]
    rintro ⟨x, hx, hport⟩
    exact hn x (List.mem_of_head? hx) hport
  · exact h.passing
  · show Silent (OdileController.step (controllerInput s.router) s.controller).out
    rw [hout]
    exact silent_quiet

/-- Edges without a command: the write buffer gets the words for it. -/
theorem idle_run (h : Idle s) (hi : ∀ i ∈ is, Undisturbed i)
    (hn : ∀ i ∈ is, ∀ x ∈ arrivals i.eth, x.port ≠ udpPortCommand) :
    Idle (run step s is) ∧ (run step s is).controller.settings = s.controller.settings ∧
      log step events s is ++ (onLines (run step s is)).map .word =
        (onLines s ++ is.flatMap bufferWord).map .word := by
  induction is generalizing s with
  | nil => exact ⟨h, rfl, by simp⟩
  | cons i is ih =>
    obtain ⟨hi, his⟩ := List.forall_mem_cons.1 hi
    obtain ⟨hn, hns⟩ := List.forall_mem_cons.1 hn
    obtain ⟨hidle, hset⟩ := idle_step h hi hn
    obtain ⟨hrun, hsets, hlog⟩ := ih hidle his hns
    refine ⟨hrun, hsets.trans hset, ?_⟩
    rw [log_cons, run_cons, List.append_assoc, hlog, idle_events h, onLines_step, List.flatMap_cons,
      List.map_append, List.map_append, List.map_append]

theorem quiet_bufferWord (h : Quiet i) : bufferWord i = [] := by
  have hnone : EthernetDataRouter.arrivalsFor .epcqio i.eth = [] := by
    refine List.filter_eq_nil_iff.2 fun x hx haccepts => (h x hx).2 ?_
    simp only [EthernetDataRouter.Dest.accepts, decide_eq_true_eq] at haccepts
    exact haccepts.1
  rw [bufferWord, hnone]
  rfl

theorem atRest_onLines (h : AtRest s) : onLines s = [] :=
  if_neg (by rw [h.buffer]; exact Bool.false_ne_true)

/-- Edges without a word for the controller or the EPCQ. -/
theorem quiet_run (h : AtRest s) (hi : ∀ i ∈ is, Undisturbed i) (hq : ∀ i ∈ is, Quiet i) :
    AtRest (run step s is) ∧ (run step s is).controller.settings = s.controller.settings ∧
      log step events s is = [] := by
  have hwords : is.flatMap bufferWord = [] :=
    List.flatMap_eq_nil_iff.2 fun i hi => quiet_bufferWord (hq i hi)
  obtain ⟨hidle, hset, hlog⟩ := idle_run h.toIdle hi fun i hi x hx => (hq i hi x hx).1
  rw [hwords, atRest_onLines h, List.append_nil, List.map_nil, List.append_eq_nil_iff] at hlog
  refine ⟨⟨hidle, ?_⟩, hset, hlog.1⟩
  by_contra hvalid
  have hnil := List.map_eq_nil_iff.1 hlog.2
  rw [onLines, EthernetDataRouter.word, if_pos (by simpa using hvalid)] at hnil
  cases hnil

/-! ## Datagrams -/

/-- What a word that comes in alone puts on the lines. -/
theorem brings_step (h : Brings port w i) :
    (controllerInput (step i s).router).dataIn = w ∧
      (IsCommand (controllerInput (step i s).router) ↔ port = udpPortCommand) ∧
      bufferWord i = if port = udpPortEpcqio then [w] else [] := by
  obtain ⟨x, harrivals, rfl, rfl, hsource⟩ := h
  refine ⟨?_, ?_, ?_⟩
  · have hword := EthernetDataRouter.word_step .passthrough i.eth s.router
    rw [EthernetDataRouter.arrivalsFor, harrivals] at hword
    simp only [EthernetDataRouter.word] at hword
    split_ifs at hword with hvalid
    · exact List.singleton_inj.1 hword
    · cases hword
  · rw [isCommand_step, harrivals]
    simp
  · have haccepts : EthernetDataRouter.Dest.epcqio.accepts x = decide (x.port = udpPortEpcqio) :=
      decide_eq_decide.2 ⟨And.left, fun hport => ⟨hport, hsource⟩⟩
    rw [bufferWord, EthernetDataRouter.arrivalsFor, harrivals, List.filter_singleton, haccepts]
    by_cases hport : x.port = udpPortEpcqio <;> simp [hport]

theorem quiet_step (h : Quiet i) : ¬IsCommand (controllerInput (step i s).router) ∧
    onLines (step i s) = [] := by
  rw [isCommand_step, onLines_step, quiet_bufferWord h]
  refine ⟨?_, rfl⟩
  rintro ⟨x, hx, hport⟩
  exact (h x (List.mem_of_head? hx)).1 hport

/-- The events of a command that the controller has parsed. -/
def parsedEvents (con : OdileController.State) : List Event :=
  (if con.out.epcqioClearBuffers then [.clear] else []) ++
    requestEvents (epcqioMultiplexer ⟨false, 0, 0⟩ con)

theorem bufferEvents_of_onLines (h : onLines s = []) :
    bufferEvents s = if s.controller.out.epcqioClearBuffers then [.clear] else [] := by
  unfold bufferEvents
  split_ifs with hclear hvalid
  · rfl
  · simp only [onLines, EthernetDataRouter.word, hvalid, if_true] at h
    cases h
  · rfl

theorem epcqioMultiplexer_undisturbed {cm : ManagerRead} (h : cm.readData = false) :
    epcqioMultiplexer cm d = epcqioMultiplexer ⟨false, 0, 0⟩ d := by
  simp [epcqioMultiplexer, h]

/-- From the edge at which the controller parses a word: what it has raised comes to
    `epcqio_control`, and nothing is on its way afterwards. -/
theorem parse_run {q₁ q₂ q₃ : Input} (hrequest : commandIn s.epcqio = none)
    (hlines : onLines s = []) (hsilent : Silent s.controller.out)
    (hpassing : ¬IsCommand (controllerInput s.router))
    (hi : ∀ q ∈ [q₁, q₂, q₃], Undisturbed q) (hq : ∀ q ∈ [q₁, q₂, q₃], Quiet q) :
    AtRest (run step s [q₁, q₂, q₃]) ∧
      (run step s [q₁, q₂, q₃]).controller.settings =
        (OdileController.commandParser s.controller).settings ∧
      log step events s [q₁, q₂, q₃] =
        parsedEvents (OdileController.commandParser s.controller) := by
  simp only [List.forall_mem_cons] at hi hq
  obtain ⟨hi₁, hi₂, hi₃, -⟩ := hi
  obtain ⟨hq₁, hq₂, hq₃, -⟩ := hq
  set s₁ := step q₁ s with hs₁
  set s₂ := step q₂ s₁ with hs₂
  obtain ⟨hpassing₁, hlines₁⟩ := quiet_step (s := s) hq₁
  obtain ⟨hpassing₂, hlines₂⟩ := quiet_step (s := s₁) hq₂
  obtain ⟨hpassing₃, hlines₃⟩ := quiet_step (s := s₂) hq₃
  have hparsing₁ : ¬HasCommand s₁.controller := hpassing
  have hparsing₂ : ¬HasCommand s₂.controller := hpassing₁
  obtain ⟨hout₂, hset₂, -⟩ := controller_step (j := controllerInput s₁.router) hparsing₁
  obtain ⟨hout₃, hset₃, hsecond₃⟩ := controller_step (j := controllerInput s₂.router) hparsing₂
  have hrequest₁ : commandIn s₁.epcqio = none := commandIn_multiplexer hi₁ hsilent
  have hsilent₂ : Silent s₂.controller.out := hout₂ ▸ silent_quiet
  have hrequest₃ : commandIn (step q₃ s₂).epcqio = none := commandIn_multiplexer hi₃ hsilent₂
  have hlog : log step events s [q₁, q₂, q₃] =
      bufferEvents s ++ requestEvents s.epcqio ++
        (bufferEvents s₁ ++ requestEvents s₁.epcqio ++
          (bufferEvents s₂ ++ requestEvents s₂.epcqio ++ [])) := rfl
  have hmux : s₂.epcqio = epcqioMultiplexer ⟨false, 0, 0⟩ s₁.controller :=
    epcqioMultiplexer_undisturbed hi₂
  refine ⟨⟨⟨hpassing₃, hpassing₂, hout₃ ▸ silent_quiet, hsecond₃, hrequest₃⟩, ?_⟩,
    hset₃.trans hset₂, ?_⟩
  · by_contra hvalid
    rw [onLines, EthernetDataRouter.word, if_pos (by simpa using hvalid)] at hlines₃
    cases hlines₃
  · rw [hlog, bufferEvents_of_onLines hlines, bufferEvents_of_onLines hlines₁,
      bufferEvents_of_onLines hlines₂, requestEvents_none hrequest, requestEvents_none hrequest₁,
      hsilent.clear, hsilent₂.clear, hmux]
    simp only [Bool.false_eq_true, if_false, List.nil_append, List.append_nil]
    rfl

/-- A word for the controller, until it is parsed. -/
theorem brings_run {q₁ q₂ : Input} (h : AtRest s) (hw : Brings udpPortCommand w q₁)
    (hi₁ : Undisturbed q₁) (hi₂ : Undisturbed q₂)
    (hlines : bufferWord q₂ = []) :
    HasCommand (run step s [q₁, q₂]).controller ∧
      (run step s [q₁, q₂]).controller.dataInReg = w ∧
      (run step s [q₁, q₂]).controller.out = .quiet ∧
      (run step s [q₁, q₂]).controller.settings = s.controller.settings ∧
      (run step s [q₁, q₂]).controller.secondWord = false ∧
      commandIn (run step s [q₁, q₂]).epcqio = none ∧
      onLines (run step s [q₁, q₂]) = [] ∧
      log step events s [q₁, q₂] = [] := by
  obtain ⟨hword, hcommand, hbuffer⟩ := brings_step (s := s) hw
  set s₁ := step q₁ s with hs₁
  have hparsing₁ : ¬HasCommand s₁.controller := h.passing
  obtain ⟨hout₁, hset₁, -⟩ := controller_step (j := controllerInput s.router) h.parsing
  obtain ⟨hout₂, hset₂, hsecond₂⟩ := controller_step (j := controllerInput s₁.router) hparsing₁
  have hsilent₁ : Silent s₁.controller.out := hout₁ ▸ silent_quiet
  have hlines₁ : onLines s₁ = [] := by
    rw [onLines_step, hbuffer, if_neg (by decide)]
  have hrequest₁ : commandIn s₁.epcqio = none := commandIn_multiplexer hi₁ h.silent
  have hlog : log step events s [q₁, q₂] =
      events q₁ s ++ (bufferEvents s₁ ++ requestEvents s₁.epcqio ++ []) := rfl
  refine ⟨hcommand.2 rfl, hword, hout₂, hset₂.trans hset₁, hsecond₂,
    commandIn_multiplexer hi₂ hsilent₁, onLines_step.trans hlines, ?_⟩
  rw [hlog, idle_events h.toIdle, atRest_onLines h, bufferEvents_of_onLines hlines₁,
    requestEvents_none hrequest₁, hsilent₁.clear]
  rfl

/-- The controller registers are the same but for the inputs. -/
theorem parsedEvents_congr {con con' : OdileController.State} (hout : con.out = con'.out)
    (hset : con.settings = con'.settings) : parsedEvents con = parsedEvents con' := by
  simp only [parsedEvents, epcqioMultiplexer, hout, hset]

/-- A datagram of a command without an operand. -/
theorem command_run {q₁ q₂ q₃ q₄ : Input} (h : AtRest s) (hw : Brings udpPortCommand w i)
    (hi : ∀ j ∈ [i, q₁, q₂, q₃, q₄], Undisturbed j) (hq : ∀ q ∈ [q₁, q₂, q₃, q₄], Quiet q) :
    ∃ d, d.settings = s.controller.settings ∧ d.out = .quiet ∧
      AtRest (run step s [i, q₁, q₂, q₃, q₄]) ∧
      (run step s [i, q₁, q₂, q₃, q₄]).controller.settings = (commandCase w d).settings ∧
      log step events s [i, q₁, q₂, q₃, q₄] = parsedEvents (commandCase w d) := by
  rw [List.forall_mem_cons, List.forall_mem_cons] at hi
  rw [List.forall_mem_cons] at hq
  obtain ⟨hcommand, hword, hout, hset, hsecond, hrequest, hlines, hlog⟩ :=
    brings_run h hw hi.1 hi.2.1 (quiet_bufferWord hq.1)
  have hpassing : ¬IsCommand (controllerInput (run step s [i, q₁]).router) := (quiet_step hq.1).1
  obtain ⟨hrest, hset', hlog'⟩ :=
    parse_run hrequest hlines (hout ▸ silent_quiet) hpassing hi.2.2 hq.2
  have hparser : OdileController.commandParser (run step s [i, q₁]).controller =
      { commandCase w (OdileController.defaults (run step s [i, q₁]).controller) with
        sendCmdAck := true
        cmdToAck := w
        replyTo := ⟨(run step s [i, q₁]).controller.sourceIfaceReg,
          (run step s [i, q₁]).controller.dataAddrReg⟩ } := by
    simp only [OdileController.commandParser, if_pos hcommand, hsecond, hword, Bool.false_eq_true,
      if_false]
  rw [hparser] at hset' hlog'
  refine ⟨OdileController.defaults (run step s [i, q₁]).controller, hset, rfl, hrest, hset', ?_⟩
  rw [show [i, q₁, q₂, q₃, q₄] = [i, q₁] ++ [q₂, q₃, q₄] from rfl, log_append, hlog, hlog']
  exact parsedEvents_congr rfl rfl

/-- A two-word command waits for its operand and raises nothing. -/
theorem commandCase_twoWord (h : IsTwoWord w) :
    commandCase w d = { d with secondWord := true, prevCmd := command w } := by
  rcases h with h | ⟨h, hF, hA⟩
  · rw [OdileController.commandCase_epcqSeta h, h]
  · rw [(OdileController.commandCase_ruAddress h).2.2.2 hF hA, h]

/-- A datagram of a command with its operand, which sets a register. -/
theorem operand_run {o : Word} {j q₁ q₂ q₃ q₄ : Input} (h : AtRest s)
    (hw : Brings udpPortCommand w i) (ho : Brings udpPortCommand o j) (htwo : IsTwoWord w)
    (hcmd : command o ∉ OdileController.commands)
    (hi : ∀ x ∈ [i, j, q₁, q₂, q₃, q₄], Undisturbed x) (hq : ∀ q ∈ [q₁, q₂, q₃, q₄], Quiet q) :
    AtRest (run step s [i, j, q₁, q₂, q₃, q₄]) ∧
      (run step s [i, j, q₁, q₂, q₃, q₄]).controller.settings =
        OdileController.stored (command w) o s.controller.settings ∧
      log step events s [i, j, q₁, q₂, q₃, q₄] = [] := by
  simp only [List.forall_mem_cons] at hi hq
  obtain ⟨hi, hj, hi₁, hi₂⟩ := hi
  obtain ⟨hq₁, hq₂⟩ := hq
  obtain ⟨hoperand, hcommando, hbuffero⟩ := brings_step (s := step i s) ho
  rw [if_neg (by decide)] at hbuffero
  obtain ⟨hcommand, hword, hout, hset, hsecond, hrequest, hlines, hlog⟩ :=
    brings_run h hw hi hj hbuffero
  set s₂ := run step s [i, j] with hs₂
  set s₃ := step q₁ s₂ with hs₃
  -- the command is parsed
  have htwo' : IsTwoWord s₂.controller.dataInReg := hword.symm ▸ htwo
  obtain ⟨hsecond₃, hprev₃, -⟩ :=
    OdileController.step_twoWord (i := controllerInput s₂.router) hcommand hsecond htwo'
  have hparser : OdileController.commandParser s₂.controller =
      { OdileController.defaults s₂.controller with
        secondWord := true
        prevCmd := command w
        sendCmdAck := true
        cmdToAck := w
        replyTo := ⟨s₂.controller.sourceIfaceReg, s₂.controller.dataAddrReg⟩ } := by
    simp only [OdileController.commandParser, if_pos hcommand, hsecond, hword, Bool.false_eq_true,
      if_false, commandCase_twoWord htwo]
  have hout₃ : s₃.controller.out = .quiet := by
    show (OdileController.commandParser s₂.controller).out = .quiet
    rw [hparser]
    rfl
  have hset₃ : s₃.controller.settings = s.controller.settings := by
    show (OdileController.commandParser s₂.controller).settings = _
    rw [hparser]
    exact hset
  -- the operand is stored
  have hcommand₃ : HasCommand s₃.controller := hcommando.2 rfl
  have hword₃ : s₃.controller.dataInReg = o := hoperand
  have hcase : commandCase s₃.controller.dataInReg (OdileController.defaults s₃.controller) =
      OdileController.defaults s₃.controller :=
    OdileController.commandCase_of_not_mem (hword₃.symm ▸ hcmd)
  have hprev : s₃.controller.prevCmd = command w := hprev₃.trans (congrArg command hword)
  have htwoCmd : command w = cmdEpcqSeta ∨ command w = cmdRuAddress := htwo.imp_right And.left
  obtain ⟨hout₄, -, hset₄, -⟩ := OdileController.step_operand
    (i := controllerInput s₃.router) hcommand₃ hsecond₃ (by rw [hcase]; exact hprev ▸ htwoCmd)
  rw [hcase, hword₃] at hset₄
  rw [hcase] at hout₄
  have hlog₂ : events q₁ s₂ = [] := by
    rw [events, bufferEvents_of_onLines hlines, requestEvents_none hrequest, hout]
    rfl
  obtain ⟨hrest, hset', hlog'⟩ := parse_run (s := s₃)
    (commandIn_multiplexer hi₁ (hout ▸ silent_quiet)) (quiet_step hq₁).2 (hout₃ ▸ silent_quiet)
    (quiet_step hq₁).1 (by simpa using hi₂) (by simpa using hq₂)
  refine ⟨hrest, hset'.trans ?_, ?_⟩
  · refine hset₄.trans ?_
    show OdileController.stored s₃.controller.prevCmd o s₃.controller.settings = _
    rw [hprev, hset₃]
  · rw [show [i, j, q₁, q₂, q₃, q₄] = [i, j] ++ [q₁] ++ [q₂, q₃, q₄] from rfl, log_append,
      log_concat, hlog, ← hs₂, hlog₂, run_concat, ← hs₂, ← hs₃, hlog']
    have hquiet : (OdileController.commandParser s₃.controller).out = .quiet := hout₄
    have hsilent := hquiet ▸ silent_quiet
    rw [parsedEvents, hsilent.clear, requestEvents_none (commandIn_multiplexer rfl hsilent)]
    rfl

/-! ## The refinement -/

/-- The words that the write buffer holds after events. -/
def bufferAfter (b : List Word) (es : List Event) : List Word := run bufferStep b es

/-- What the registers and the write buffer stand for on the side of the host. -/
def device (s : State) (b : List Word) : Device := ⟨s.controller.settings.epcqioAddressReg, b⟩

/-- From `s` to `s'` with the events `es` the device does what the datagrams say. -/
structure Does (s s' : State) (es : List Event) (b : List Word) (ds : List Datagram) : Prop where
  accesses : CommandPath.accesses (b.map bswap32) es = (device s b).accesses ds
  address : s'.controller.settings.epcqioAddressReg = ((device s b).after ds).address
  buffer : bufferAfter (b.map bswap32) es = ((device s b).after ds).buffer.map bswap32

theorem Does.nil (h : s'.controller.settings.epcqioAddressReg =
    s.controller.settings.epcqioAddressReg) (hds : ds.filterMap Datagram.op = []) :
    Does s s' [] b ds where
  accesses := by rw [Device.accesses, hds]; rfl
  address := by rw [Device.after, hds]; exact h
  buffer := by rw [Device.after, hds]; rfl

theorem Does.append {s₁ s₂ s₃ : State} {es es' : List Event} {ds ds' : List Datagram}
    (h : Does s₁ s₂ es b ds)
    (h' : ∀ b, Does s₂ s₃ es' b ds') : Does s₁ s₃ (es ++ es') b (ds ++ ds') := by
  have hdevice : device s₂ ((device s₁ b).after ds).buffer = (device s₁ b).after ds := by
    rw [device, h.address]
  have hnext := h' ((device s₁ b).after ds).buffer
  have hbuffer : run bufferStep (b.map bswap32) es = ((device s₁ b).after ds).buffer.map bswap32 :=
    h.buffer
  obtain ⟨hacc, haddr, hbuf⟩ := hnext
  rw [hdevice] at hacc haddr hbuf
  refine ⟨?_, ?_, ?_⟩
  · rw [CommandPath.accesses, log_append, hbuffer, Device.accesses_append, ← hacc, ← h.accesses]
    rfl
  · rw [Device.after_append]
    exact haddr
  · rw [bufferAfter, run_append, hbuffer, Device.after_append]
    exact hbuf

theorem bswap32_map_map (ws : List Word) : (ws.map bswap32).map bswap32 = ws := by
  rw [List.map_map]
  conv_rhs => rw [← List.map_id ws]
  exact List.map_congr_left fun w _ => bswap32_bswap32 w

/-- The meaning of a command. -/
theorem op_cons (w : Word) (rest : List Word) : (⟨commandPort, w :: rest⟩ : Datagram).op =
    if command (bswap32 w) = cmdEpcqClear then some .clearBuffers
    else if command (bswap32 w) = cmdEpcqSeta then (rest.map bswap32).head?.map .setAddress
    else if command (bswap32 w) = cmdEpcqEraseSec then some .eraseSector
    else if command (bswap32 w) = cmdEpcqWrite then some (.writeData (numwords (bswap32 w)))
    else if command (bswap32 w) = cmdEpcqRead then some (.readData (numwords (bswap32 w)))
    else none := by
  rw [Datagram.op, if_neg (show commandPort ≠ firmwarePort by decide), if_pos rfl]
  rfl

theorem Does.single {x : Datagram} {op : Op} {es : List Event} (hop : x.op = some op)
    (haccesses : CommandPath.accesses (b.map bswap32) es = Device.access op (device s b))
    (haddress : s'.controller.settings.epcqioAddressReg = (Device.step op (device s b)).address)
    (hbuffer : bufferAfter (b.map bswap32) es =
      (Device.step op (device s b)).buffer.map bswap32) : Does s s' es b [x] where
  accesses := by
    rw [Device.accesses, List.filterMap_cons_some hop, haccesses]
    exact (List.append_nil _).symm
  address := by rw [Device.after, List.filterMap_cons_some hop]; exact haddress
  buffer := by rw [Device.after, List.filterMap_cons_some hop]; exact hbuffer

/-- The request that the controller makes of its outputs. -/
theorem requestEvents_controller (con : OdileController.State) :
    requestEvents (epcqioMultiplexer ⟨false, 0, 0⟩ con) =
      match commandIn ⟨con.out.epcqioWriteData, con.out.epcqioReadData,
        con.out.epcqioEnable4byte, con.out.epcqioEraseSector, 0, 0⟩ with
      | some c => [.request ⟨c, con.settings.epcqioAddressReg, con.settings.epcqioNumwordsReg⟩]
      | none => [] := rfl

/-- What the controller raises for a command is what the command means. -/
theorem does_parsed (hset : d.settings = s.controller.settings) (hout : d.out = .quiet)
    (hset' : s'.controller.settings = (commandCase (bswap32 w) d).settings) (b : List Word) :
    Does s s' (parsedEvents (commandCase (bswap32 w) d)) b [⟨commandPort, [w]⟩] := by
  have hop := op_cons w []
  by_cases hother : command (bswap32 w) ∉ epcqCommands
  · obtain ⟨hsilent, hsame⟩ := commandCase_silent hother (hout ▸ silent_quiet)
    have hevents : parsedEvents (commandCase (bswap32 w) d) = [] := by
      rw [parsedEvents, hsilent.clear, requestEvents_none (commandIn_multiplexer rfl hsilent)]
      rfl
    have hnone : (⟨commandPort, [w]⟩ : Datagram).op = none := by
      simp only [epcqCommands, List.mem_cons, List.not_mem_nil, or_false, not_or] at hother
      simp [hop, hother]
    rw [hevents]
    refine .nil ?_ (List.filterMap_cons_none hnone)
    rw [hset', hsame.address, hset]
  simp only [epcqCommands, List.mem_cons, List.not_mem_nil, or_false, not_not] at hother
  rcases hother with h | h | h | h | h
  · rw [commandCase_epcqClear h] at hset' ⊢
    rw [if_pos h] at hop
    have hevents : parsedEvents { d with out := { d.out with epcqioClearBuffers := true } } =
        [.clear] := by
      rw [parsedEvents, requestEvents_controller, hout]
      rfl
    rw [hevents]
    refine .single hop rfl ?_ rfl
    rw [hset', hset]
    rfl
  · rw [commandCase_epcqWrite h] at hset' ⊢
    rw [h, if_neg (by decide), if_neg (by decide), if_neg (by decide), if_pos rfl] at hop
    have hevents : parsedEvents { d with
        out := { d.out with epcqioWriteData := true }
        settings := { d.settings with epcqioNumwordsReg := (bswap32 w).extractLsb' 24 7 } } =
          [.request ⟨.write, s.controller.settings.epcqioAddressReg,
            (bswap32 w).extractLsb' 24 7⟩] := by
      rw [parsedEvents, requestEvents_controller, hout, hset]
      rfl
    rw [hevents]
    refine .single hop ?_ ?_ (List.map_drop).symm
    · show [Access.write _ (((b.map bswap32).take _).map bswap32)] = [Access.write _ (b.take _)]
      rw [← List.map_take, bswap32_map_map]
      rfl
    · rw [hset', hset]
      rfl
  · rw [commandCase_epcqRead h] at hset' ⊢
    rw [h, if_neg (by decide), if_neg (by decide), if_neg (by decide), if_neg (by decide),
      if_pos rfl] at hop
    have hevents : parsedEvents { d with
        out := { d.out with epcqioReadData := true }
        settings := { d.settings with epcqioNumwordsReg := (bswap32 w).extractLsb' 24 7 } } =
          [.request ⟨.read, s.controller.settings.epcqioAddressReg,
            (bswap32 w).extractLsb' 24 7⟩] := by
      rw [parsedEvents, requestEvents_controller, hout, hset]
      rfl
    rw [hevents]
    refine .single hop rfl ?_ rfl
    rw [hset', hset]
    rfl
  · rw [commandCase_epcqEraseSec h] at hset' ⊢
    rw [h, if_neg (by decide), if_neg (by decide), if_pos rfl] at hop
    have hevents : parsedEvents { d with out := { d.out with epcqioEraseSector := true } } =
        [.request ⟨.eraseSector, s.controller.settings.epcqioAddressReg,
          d.settings.epcqioNumwordsReg⟩] := by
      rw [parsedEvents, requestEvents_controller, hout, ← hset]
      rfl
    rw [hevents]
    refine .single hop rfl ?_ rfl
    rw [hset', hset]
    rfl
  · rw [commandCase_epcqEn4b h] at hset' ⊢
    rw [h, if_neg (by decide), if_neg (by decide), if_neg (by decide), if_neg (by decide),
      if_neg (by decide)] at hop
    have hevents : parsedEvents { d with out := { d.out with epcqioEnable4byte := true } } =
        [.request ⟨.en4b, s.controller.settings.epcqioAddressReg,
          d.settings.epcqioNumwordsReg⟩] := by
      rw [parsedEvents, requestEvents_controller, hout, ← hset]
      rfl
    rw [hevents]
    refine ⟨?_, ?_, ?_⟩
    · rw [Device.accesses, List.filterMap_cons_none hop]
      rfl
    · rw [Device.after, List.filterMap_cons_none hop, hset', hset]
      rfl
    · rw [Device.after, List.filterMap_cons_none hop]
      rfl

/-- What is stored for a two-word command is what it means. -/
theorem does_operand {o : Word} (htwo : IsTwoWord (bswap32 w))
    (hset' : s'.controller.settings =
      OdileController.stored (command (bswap32 w)) (bswap32 o) s.controller.settings)
    (b : List Word) : Does s s' [] b [⟨commandPort, [w, o]⟩] := by
  have hop := op_cons w [o]
  rcases htwo with h | ⟨h, -⟩
  · rw [h, if_neg (by decide), if_pos rfl] at hop
    refine .single hop rfl ?_ rfl
    rw [hset', h]
    rfl
  · rw [h] at hop hset'
    exact .nil (by rw [hset']; rfl) (List.filterMap_cons_none hop)

/-! ## Runs -/

theorem mem_of_forall₂ {data : List Word} {ws : List Input}
    (hws : List.Forall₂ (fun w i => Brings port (bswap32 w) i) data ws) {i : Input} (hi : i ∈ ws) :
    ∀ x ∈ arrivals i.eth, x.port = port := by
  induction hws with
  | nil => cases hi
  | cons h _ ih =>
    rcases List.mem_cons.1 hi with rfl | hi
    · obtain ⟨x, harrivals, hport, -⟩ := h
      rw [harrivals]
      simpa using hport
    · exact ih hi

/-- The words that the edges of a datagram bring. -/
theorem bufferWords_of_forall₂ {data : List Word} {ws : List Input}
    (hws : List.Forall₂ (fun w i => Brings udpPortEpcqio (bswap32 w) i) data ws) :
    ws.flatMap bufferWord = data.map bswap32 := by
  induction hws with
  | nil => rfl
  | cons h _ ih =>
    rw [List.flatMap_cons, ih, (brings_step (s := initial) h).2.2, if_pos rfl]
    rfl

theorem buffer_words (b ws : List Word) :
    accesses b (ws.map .word) = [] ∧ bufferAfter b (ws.map .word) = b ++ ws := by
  induction ws generalizing b with
  | nil => exact ⟨rfl, (List.append_nil b).symm⟩
  | cons w ws ih =>
    obtain ⟨hacc, hbuf⟩ := ih (b ++ [w])
    refine ⟨hacc, hbuf.trans ?_⟩
    rw [List.append_assoc, List.singleton_append]

/-- A datagram of firmware words. -/
theorem firmware_run {data : List Word} {ws gap : List Input} (h : AtRest s)
    (hws : List.Forall₂ (fun w i => Brings udpPortEpcqio (bswap32 w) i) data ws)
    (hi : ∀ i ∈ ws ++ gap, Undisturbed i) (hgap : gap ≠ []) (hq : ∀ q ∈ gap, Quiet q) :
    AtRest (run step s (ws ++ gap)) ∧
      Does s (run step s (ws ++ gap)) (log step events s (ws ++ gap)) b [⟨firmwarePort, data⟩] := by
  have hno : ∀ i ∈ ws ++ gap, ∀ x ∈ arrivals i.eth, x.port ≠ udpPortCommand := by
    intro i hi x hx
    rcases List.mem_append.1 hi with hi | hi
    · rw [mem_of_forall₂ hws hi x hx]
      decide
    · exact (hq i hi x hx).1
  obtain ⟨hidle, hset, hlog⟩ := idle_run h.toIdle hi hno
  obtain ⟨gs, g, rfl⟩ := List.eq_nil_or_concat gap |>.resolve_left hgap
  rw [List.concat_eq_append, ← List.append_assoc] at *
  have hg : Quiet g := hq g (by simp)
  have hlines : onLines (run step s (ws ++ gs ++ [g])) = [] := by
    rw [run_concat]
    exact (quiet_step hg).2
  have hquiet : (gs ++ [g]).flatMap bufferWord = [] :=
    List.flatMap_eq_nil_iff.2 fun i hi => quiet_bufferWord (hq i hi)
  rw [hlines, atRest_onLines h, List.map_nil, List.append_nil, List.nil_append,
    List.append_assoc, List.flatMap_append, hquiet, List.append_nil,
    bufferWords_of_forall₂ hws, ← List.append_assoc] at hlog
  obtain ⟨hacc, hbuf⟩ := buffer_words (b.map bswap32) (data.map bswap32)
  refine ⟨⟨hidle, ?_⟩, ?_⟩
  · by_contra hvalid
    rw [onLines, EthernetDataRouter.word, if_pos (by simpa using hvalid)] at hlines
    cases hlines
  · rw [hlog]
    have hop : (⟨firmwarePort, data⟩ : Datagram).op = some (.data data) := rfl
    refine .single hop hacc ?_ ?_
    · rw [hset]
      rfl
    · rw [hbuf, ← List.map_append]
      rfl

/-- A datagram, and the edges after it. -/
theorem datagram_run {x : Datagram} {ws gap : List Input} (h : AtRest s) (hwf : WellFormed x)
    (hws : List.Forall₂ (fun w i => Brings x.port (bswap32 w) i) x.data ws)
    (hi : ∀ i ∈ ws ++ gap, Undisturbed i) (hlen : gap.length = latency)
    (hq : ∀ q ∈ gap, Quiet q) :
    AtRest (run step s (ws ++ gap)) ∧
      ∀ b, Does s (run step s (ws ++ gap)) (log step events s (ws ++ gap)) b [x] := by
  obtain ⟨port, data⟩ := x
  dsimp only at hws
  by_cases hfirmware : port = firmwarePort
  · subst hfirmware
    have hgap : gap ≠ [] := List.ne_nil_of_length_pos (by rw [hlen]; decide)
    exact ⟨(firmware_run (b := []) h hws hi hgap hq).1, fun b => (firmware_run h hws hi hgap hq).2⟩
  by_cases hcommand : port = commandPort
  · subst hcommand
    obtain ⟨q₁, q₂, q₃, q₄, rfl⟩ : ∃ q₁ q₂ q₃ q₄, gap = [q₁, q₂, q₃, q₄] := by
      match gap, hlen with
      | [q₁, q₂, q₃, q₄], _ => exact ⟨q₁, q₂, q₃, q₄, rfl⟩
    have hwf := hwf rfl
    cases hws with
    | nil =>
      obtain ⟨hrest, hset, hlog⟩ := quiet_run h hi hq
      refine ⟨hrest, fun b => ?_⟩
      rw [hlog]
      exact .nil (congrArg _ hset) rfl
    | cons hw hws =>
      cases hws with
      | nil =>
        obtain ⟨d, hset, hout, hrest, hset', hlog⟩ := command_run h hw hi hq
        refine ⟨hrest, fun b => ?_⟩
        rw [List.singleton_append, hlog]
        exact does_parsed hset hout hset' b
      | cons ho hws =>
        cases hws with
        | nil =>
          obtain ⟨htwo, hoperand⟩ := hwf
          obtain ⟨hrest, hset, hlog⟩ := operand_run h hw ho htwo hoperand hi hq
          refine ⟨hrest, fun b => ?_⟩
          have hdoes := does_operand htwo hset b
          rwa [← hlog] at hdoes
        | cons _ _ => exact hwf.elim
  · have hquiet : ∀ i ∈ ws ++ gap, Quiet i := by
      intro i hi x hx
      rcases List.mem_append.1 hi with hi | hi
      · rw [mem_of_forall₂ hws hi x hx]
        exact ⟨hcommand, hfirmware⟩
      · exact hq i hi x hx
    obtain ⟨hrest, hset, hlog⟩ := quiet_run h hi hquiet
    refine ⟨hrest, fun b => ?_⟩
    rw [hlog]
    refine .nil (congrArg _ hset) (List.filterMap_cons_none ?_)
    rw [Datagram.op, if_neg hfirmware, if_neg hcommand]

/-- Whatever datagrams come in, what happens at `epcqio_control` is what they say. -/
theorem does_run (h : AtRest s) (hc : Carries ds is) (hi : ∀ i ∈ is, Undisturbed i)
    (hwf : ∀ x ∈ ds, WellFormed x) (b : List Word) :
    AtRest (run step s is) ∧ Does s (run step s is) (log step events s is) b ds := by
  induction hc generalizing s b with
  | nil => exact ⟨h, .nil rfl rfl⟩
  | @quiet i ds is hq _ ih =>
    obtain ⟨hi, his⟩ := List.forall_mem_cons.1 hi
    obtain ⟨hrest, hset, hlog⟩ := quiet_run h (List.forall_mem_singleton.2 hi)
      (List.forall_mem_singleton.2 hq)
    have hdoes : Does s (run step s [i]) (log step events s [i]) b [] := by
      rw [hlog]
      exact .nil (congrArg _ hset) rfl
    rw [← List.singleton_append, run_append, log_append]
    exact ⟨(ih hrest his hwf b).1, hdoes.append fun b => (ih hrest his hwf b).2⟩
  | @datagram x ds ws gap is hws hlen hq _ ih =>
    obtain ⟨hwfx, hwf⟩ := List.forall_mem_cons.1 hwf
    obtain ⟨hi, his⟩ := List.forall_mem_append.1 hi
    obtain ⟨hrest, hdoes⟩ := datagram_run h hwfx hws hi hlen hq
    rw [← List.singleton_append, run_append, log_append]
    exact ⟨(ih hrest his hwf b).1, (hdoes b).append fun b => (ih hrest his hwf b).2⟩

/-- An edge at which nothing comes in. -/
def idleInput : Input :=
  ⟨⟨⟨0, false, 0, 0⟩, ⟨0, false, 0, 0⟩, ⟨0, false, 0, 0⟩, 0, false, 0⟩, ⟨false, 0, 0⟩⟩

/-- An edge at which a word comes in on interface 0. -/
def wordInput (port : UdpPort) (w : Word) : Input :=
  ⟨⟨⟨w, true, port, 0x010203040506_C0A80001⟩, ⟨0, false, 0, 0⟩, ⟨0, false, 0, 0⟩, 0, false, 0⟩,
    ⟨false, 0, 0⟩⟩

/-- A run that brings datagrams, with the shortest gaps. -/
def feed (ds : List Datagram) : List Input :=
  ds.flatMap fun x =>
    x.data.map (fun w => wordInput x.port (bswap32 w)) ++ List.replicate latency idleInput

theorem quiet_idleInput : Quiet idleInput := by
  intro x hx
  cases hx

theorem brings_wordInput (port : UdpPort) (w : Word) : Brings port w (wordInput port w) :=
  ⟨⟨0b0001, w, port, 0x010203040506_C0A80001⟩, rfl, rfl, rfl,
    show (0b0001 : BitVec 4) ≠ 0b1000 by decide⟩

/-- Every list of datagrams can come in. -/
theorem carries_feed (ds : List Datagram) : Carries ds (feed ds) := by
  induction ds with
  | nil => exact .nil
  | cons x ds ih =>
    refine .datagram ?_ List.length_replicate (fun i hi => ?_) ih
    · rw [List.forall₂_map_right_iff, List.forall₂_same]
      exact fun w _ => brings_wordInput x.port (bswap32 w)
    · rw [List.eq_of_mem_replicate hi]
      exact quiet_idleInput

theorem undisturbed_feed (ds : List Datagram) : ∀ i ∈ feed ds, Undisturbed i := by
  intro i hi
  obtain ⟨x, -, hi⟩ := List.mem_flatMap.1 hi
  rcases List.mem_append.1 hi with hi | hi
  · obtain ⟨w, -, rfl⟩ := List.mem_map.1 hi
    rfl
  · rw [List.eq_of_mem_replicate hi]
    rfl

/-! ## The datagrams of the host -/

theorem wellFormed_command (cmd : String) (pre : ℤ) :
    WellFormed (commandDatagram cmd pre noWord) := fun _ => by
  rw [commandDatagram, commandWords, if_neg (not_not.2 rfl)]
  trivial

theorem wellFormed_firmware (data : List Word) : WellFormed ⟨firmwarePort, data⟩ :=
  fun hport => absurd hport (show firmwarePort ≠ commandPort by decide)

theorem wellFormed_setAddress {a : Word} (ha : command a ∉ OdileController.commands) :
    WellFormed (commandDatagram "ESA" 0 a) := fun _ => by
  have hword : bswap32 (bswap32 (stringToInt "ESA")) = 0x00455341 := by decide
  rw [commandDatagram, commandWords]
  split_ifs with hpre hno
  · exact absurd hpre.1 (lt_irrefl 0)
  · exact absurd hpre.1 (lt_irrefl 0)
  · refine ⟨?_, ?_⟩
    · show IsTwoWord (bswap32 (bswap32 (stringToInt "ESA")))
      rw [hword]
      decide
    · rwa [bswap32_bswap32]
  · trivial

/-- The address of a page does not spell a command: the last byte of a command is a
    letter. -/
theorem command_page {a : Word} (ha : a.toNat % 256 = 0) :
    command a ∉ OdileController.commands := by
  have hletter : ∀ c ∈ OdileController.commands, c.toNat % 256 ≠ 0 := by
    rw [OdileController.commands, List.forall_mem_map]
    simp only [OdileController.commandTable, List.forall_mem_cons]
    decide
  intro hmem
  refine hletter _ hmem ?_
  rw [command, BitVec.extractLsb'_toNat, Nat.shiftRight_zero]
  omega

theorem wellFormed_pageDatagrams {a : Word} (ha : a.toNat % 256 = 0) {page : List Word}
    {x : Datagram} (hx : x ∈ pageDatagrams a page) : WellFormed x := by
  rw [pageDatagrams, writeDatagrams] at hx
  simp only [List.mem_append, List.mem_cons, List.not_mem_nil, or_false] at hx
  rcases hx with (rfl | rfl | rfl) | rfl
  · exact wellFormed_setAddress (command_page ha)
  · exact wellFormed_firmware _
  · exact wellFormed_command _ _
  · exact wellFormed_command _ _

theorem wellFormed_passDatagrams {p : Word × List Word} (hp : p.1.toNat % 256 = 0)
    {x : Datagram} (hx : x ∈ passDatagrams p) : WellFormed x := by
  rw [passDatagrams, List.mem_append, eraseDatagrams, List.mem_append, List.mem_singleton] at hx
  rcases hx with (rfl | hx) | hx
  · exact wellFormed_setAddress (command_page hp)
  · split_ifs at hx
    · obtain rfl := List.mem_singleton.1 hx
      exact wellFormed_command _ _
    · cases hx
  · exact wellFormed_pageDatagrams hp hx

/-- From power-up, whatever well-formed datagrams come in, each at consecutive edges with no word
    beside it and at least `latency` quiet edges after it: the accesses that `epcqio_control` is
    asked for are those that the datagrams stand for on the side of the host, and so are the
    address and the words that are left in the write buffer. -/
theorem accesses_refine (hc : Carries ds is) (hi : ∀ i ∈ is, Undisturbed i)
    (hwf : ∀ x ∈ ds, WellFormed x) :
    accesses [] (log step events initial is) = Device.accesses ⟨0, []⟩ ds ∧
      (run step initial is).controller.settings.epcqioAddressReg =
        (Device.after ⟨0, []⟩ ds).address ∧
      bufferAfter [] (log step events initial is) =
        (Device.after ⟨0, []⟩ ds).buffer.map bswap32 := by
  obtain ⟨hacc, haddr, hbuf⟩ := (does_run atRest_initial hc hi hwf []).2
  exact ⟨hacc, haddr, hbuf⟩

/-- A page is written and read back. -/
def storePageRun : List Datagram := pageDatagrams 0x01000000 (List.replicate 64 0xCAFE)

theorem accesses_refine_storePage :
    accesses [] (log step events initial (feed storePageRun)) =
        Device.accesses ⟨0, []⟩ storePageRun ∧
      (run step initial (feed storePageRun)).controller.settings.epcqioAddressReg =
        (Device.after ⟨0, []⟩ storePageRun).address ∧
      bufferAfter [] (log step events initial (feed storePageRun)) =
        (Device.after ⟨0, []⟩ storePageRun).buffer.map bswap32 :=
  accesses_refine (carries_feed storePageRun) (undisturbed_feed storePageRun)
    fun _ => wellFormed_pageDatagrams (by decide)

/-- Every datagram of `writeFirmware` is well-formed. -/
theorem wellFormed_writeFirmware {mapfile : List Char} {endAddress startAddress : Word}
    (hend : endAddressOf mapfile = some endAddress)
    (halign : startAddress.toNat % sectorBytes = 0) (replies : Replies) (ifile : Ifile) :
    ∀ x ∈ ((writeFirmware replies mapfile ifile startAddress).run []).2, WellFormed x := by
  obtain ⟨ps, hps, hsent, -⟩ := run_writeFirmwarePages replies
    (endAddress.toNat / pageSizeBytes + 1) startAddress ifile [commandDatagram "ERB" 0 noWord]
  rw [run_writeFirmware hend halign, hsent]
  intro x hx
  rcases List.mem_append.1 hx with hx | hx
  · obtain rfl := List.mem_singleton.1 hx
    exact wellFormed_command _ _
  · obtain ⟨p, hp, hx⟩ := List.mem_flatMap.1 hx
    refine wellFormed_passDatagrams ?_ hx
    have hmem := List.mem_map_of_mem (f := Prod.fst) (hps.subset hp)
    rw [addresses_firmwarePages] at hmem
    obtain ⟨i, -, haddress⟩ := List.mem_map.1 hmem
    rw [← haddress, toNat_address]
    unfold sectorBytes at halign
    omega

theorem accesses_isPrefix (b : List Word) {es es' : List Event} (h : es <+: es') :
    accesses b es <+: accesses b es' :=
  log_isPrefix bufferStep bufferAccess b h

/-- The accesses of the function keep the erase discipline, wherever they are cut. -/
theorem erasesFirst_writeFirmware {mapfile : List Char} {endAddress startAddress : Word}
    (hend : endAddressOf mapfile = some endAddress)
    (halign : startAddress.toNat % sectorBytes = 0)
    (hfits : startAddress.toNat + pageSizeBytes * (endAddress.toNat / pageSizeBytes + 1) ≤ 2 ^ 32)
    (replies : Replies) (ifile : Ifile) (x : Device) {l : List Access}
    (hl : l <+: x.accesses ((writeFirmware replies mapfile ifile startAddress).run []).2) :
    ErasesFirst startAddress l := by
  obtain ⟨ps, hps, hacc, -⟩ := accesses_writeFirmware hend halign x replies ifile
  have hcontiguous := (contiguous_firmwarePages (f := ifile) hfits).of_isPrefix hps
  rw [hacc] at hl
  exact erasesFirst_of_isPrefix halign hcontiguous hl

/-- Whatever is received, the accesses that `epcqio_control` is asked for are those of
    the function, and wherever the run is cut they keep the erase discipline. -/
theorem writeFirmware_requests {mapfile : List Char} {endAddress startAddress : Word}
    (hend : endAddressOf mapfile = some endAddress)
    (halign : startAddress.toNat % sectorBytes = 0)
    (hfits : startAddress.toNat + pageSizeBytes * (endAddress.toNat / pageSizeBytes + 1) ≤ 2 ^ 32)
    (replies : Replies) (ifile : Ifile) (h : AtRest s)
    (hc : Carries ((writeFirmware replies mapfile ifile startAddress).run []).2 is)
    (hi : ∀ i ∈ is, Undisturbed i) (b : List Word) :
    accesses (b.map bswap32) (log step events s is) =
        (device s b).accesses ((writeFirmware replies mapfile ifile startAddress).run []).2 ∧
      ∀ js, js <+: is →
        ErasesFirst startAddress (accesses (b.map bswap32) (log step events s js)) := by
  have hdoes := (does_run h hc hi
    (wellFormed_writeFirmware hend halign replies ifile) b).2.accesses
  refine ⟨hdoes, fun js hjs => ?_⟩
  refine erasesFirst_writeFirmware hend halign hfits replies ifile (device s b) ?_
  rw [← hdoes]
  exact accesses_isPrefix _ (log_isPrefix step events s hjs)

theorem writeFirmware_requests_twoPages :
    accesses (([] : List Word).map bswap32) (log step events initial (feed
        ((writeFirmware (echo ⟨0, []⟩) twoPages ⟨0, [0xCA, 0xFE]⟩ 0x01000000).run []).2)) =
        (device initial []).accesses
          ((writeFirmware (echo ⟨0, []⟩) twoPages ⟨0, [0xCA, 0xFE]⟩ 0x01000000).run []).2 ∧
      ∀ js, js <+: feed
          ((writeFirmware (echo ⟨0, []⟩) twoPages ⟨0, [0xCA, 0xFE]⟩ 0x01000000).run []).2 →
        ErasesFirst 0x01000000 (accesses (([] : List Word).map bswap32)
          (log step events initial js)) :=
  writeFirmware_requests (show endAddressOf twoPages = some 0x1FF by decide) (by decide)
    (by decide) (echo ⟨0, []⟩) ⟨0, [0xCA, 0xFE]⟩
    atRest_initial (carries_feed _) (undisturbed_feed _) []

end FpgaEthernet.CommandPath
