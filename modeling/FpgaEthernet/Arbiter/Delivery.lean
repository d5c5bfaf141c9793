import FpgaEthernet.Arbiter.UdpDataArbiter
import FpgaEthernet.Controller.CommandResponseGenerator
import FpgaEthernet.Interfaces.EthernetCcdcontrolInterface
import FpgaEthernet.ConfigScanner.ConfigBlockScanner
import FpgaEthernet.Flash.UdpInterface

/-!
# The words the arbiter delivers

The arbiter with `command_response_generator`, the read multiplexer of
`ethernet_ccdcontrol_interface`, `config_block_scanner` and the `udp_interface`
of `epcqio_control`, wired as in `top_ethernet.vhd`; the fifth bus is quiet.

Every client has its own invariant, stated on its view of the arbiter; the
system's invariant is their conjunction. The line `udp_ready` stays up for three
edges after a client has lowered its busy bit, and a client that starts again
within them takes it for a grant: that is what `EarlyStart` describes.

Main results:

* `Coupled.step`: one edge without a timeout and without an early start keeps
  every client in step with the arbiter.
* `words_delivered`: the words on the output are the words the clients present,
  in order.
* `done_lost`: with an early start a reply is lost.
-/

namespace FpgaEthernet.Delivery

open Clocked UdpDataArbiter

/-! ## The system -/

/-- The inputs of the clients; their `udp_ready` comes from the arbiter. -/
structure Input where
  cmd : CommandResponseGenerator.Input
  ccd : EthernetCcdcontrolInterface.Input
  scan : ConfigBlockScanner.Input
  epcqio : UdpInterface.Input
  destIface : BitVec 4
  destAddr : BitVec 80

/-- The registers of the arbiter and of its clients. -/
structure State where
  arb : UdpDataArbiter.State
  cmd : CommandResponseGenerator.State
  ccd : EthernetCcdcontrolInterface.State
  scan : ConfigBlockScanner.State
  epcqio : UdpInterface.State

/-- The registers when `reset` is released. -/
def initial : State where
  arb := UdpDataArbiter.initial
  cmd := CommandResponseGenerator.initial
  ccd := EthernetCcdcontrolInterface.initial
  scan := ConfigBlockScanner.initial
  epcqio := UdpInterface.initial

/-- The buses at the arbiter (`top_ethernet.vhd` lines 1147-1156). -/
def bus (s : State) : Client → UdpBus
  | .commandResp => CommandResponseGenerator.udpOutBus s.cmd
  | .ccdInterface => EthernetCcdcontrolInterface.udpOutBus s.ccd
  | .configScanner => ConfigBlockScanner.udpOutBus s.scan
  | .epcqio => s.epcqio.udpOutBus
  | .monit => .quiet

/-- The input ports of the arbiter. -/
def arbInput (i : Input) (s : State) : UdpDataArbiter.Input := ⟨bus s, i.destIface, i.destAddr⟩

/-- One edge of `clock`. -/
def step (epochInt : ℕ) (i : Input) (s : State) : State where
  arb := UdpDataArbiter.step (arbInput i s) s.arb
  cmd := CommandResponseGenerator.step epochInt
    { i.cmd with udpReady := s.arb.udpReady .commandResp } s.cmd
  ccd := EthernetCcdcontrolInterface.step
    { i.ccd with udpReady := s.arb.udpReady .ccdInterface } s.ccd
  scan := ConfigBlockScanner.step
    { i.scan with udpReady := s.arb.udpReady .configScanner } s.scan
  epcqio := UdpInterface.step { i.epcqio with udpReady := s.arb.udpReady .epcqio } s.epcqio

/-- The word a client presents, with its client. -/
def presentedBy (s : State) (c : Client) : List (Client × UdpPort × Word) :=
  if (bus s c).dval then [(c, (bus s c).port, (bus s c).data)] else []

/-- The words the clients present. -/
def presented (s : State) : List (Client × UdpPort × Word) :=
  presentedBy s .commandResp ++ presentedBy s .ccdInterface ++ presentedBy s .configScanner ++
    presentedBy s .epcqio

/-- The word on the output of the arbiter. -/
def udpOut (s : State) : List (UdpPort × Word) :=
  if s.arb.udpValidOut then [(s.arb.udpPortOut, s.arb.udpDataOut)] else []

/-! ## The conditions -/

/-- Nothing is written to the sequencer memories, and no client is timed out. -/
def Regular (i : Input) (s : State) : Prop :=
  EthernetCcdcontrolInterface.NoWrite i.ccd ∧ ¬TimesOut s.arb

/-- A client leaves its rest while the arbiter still has it as the current
    client. -/
def EarlyStart (i : Input) (s : State) : Prop :=
  s.arb.currentClient = some .commandResp ∧ CommandResponseGenerator.Starts s.cmd ∨
  s.arb.currentClient = some .ccdInterface ∧ EthernetCcdcontrolInterface.Starts i.ccd s.ccd ∨
  s.arb.currentClient = some .configScanner ∧ ConfigBlockScanner.Starts i.scan s.scan ∨
  s.arb.currentClient = some .epcqio ∧ UdpInterface.Starts i.epcqio s.epcqio

instance (i : Input) (s : State) : Decidable (Regular i s) :=
  inferInstanceAs (Decidable (_ ∧ _))

instance (i : Input) (s : State) : Decidable (EarlyStart i s) :=
  inferInstanceAs (Decidable (_ ∨ _ ∨ _ ∨ _))

/-! ## The clients keep step with the arbiter -/

variable {epochInt : ℕ} {i : Input} {s : State}

/-- Every client is as far as the arbiter shows it to be. -/
structure Coupled (s : State) : Prop where
  sane : Sane s.arb
  undisturbed : EthernetCcdcontrolInterface.Undisturbed s.ccd
  cmd : CommandResponseGenerator.Phase s.cmd (view .commandResp s.arb)
  ccd : EthernetCcdcontrolInterface.Phase s.ccd.read (view .ccdInterface s.arb)
  scan : ConfigBlockScanner.Phase s.scan (view .configScanner s.arb)
  epcqio : UdpInterface.Phase s.epcqio (view .epcqio s.arb)

theorem coupled_initial : Coupled initial where
  sane := sane_initial
  undisturbed := EthernetCcdcontrolInterface.undisturbed_initial
  cmd := CommandResponseGenerator.phase_initial
  ccd := EthernetCcdcontrolInterface.phase_initial
  scan := ConfigBlockScanner.phase_initial
  epcqio := UdpInterface.phase_initial

/-- One edge keeps every client in step with the arbiter. -/
theorem Coupled.step (h : Coupled s) (hi : Regular i s ∧ ¬EarlyStart i s) :
    Coupled (Delivery.step epochInt i s) := by
  obtain ⟨⟨hw, ht⟩, he⟩ := hi
  have hv : ∀ c, View.Step (bus s c) (view c s.arb) (view c (Delivery.step epochInt i s).arb) :=
    fun c => view_step (i := arbInput i s) h.sane fun _ => ht
  have hr : ∀ c, s.arb.udpReady c = (view c s.arb).ready := fun c => h.sane.ready_view.symm
  have haway : ∀ {c} {p : Prop}, ¬(s.arb.currentClient = some c ∧ p) → p →
      (view c s.arb).IsAway := fun hn hp => isAway_view.2 fun hc => hn ⟨hc, hp⟩
  unfold EarlyStart at he
  simp only [not_or] at he
  exact {
    sane := h.sane.step
    undisturbed := h.undisturbed.step hw
    cmd := h.cmd.step (hv .commandResp) (hr .commandResp) (haway he.1)
    ccd := h.ccd.step h.undisturbed (hv .ccdInterface) (hr .ccdInterface) (haway he.2.1)
    scan := h.scan.step (hv .configScanner) (hr .configScanner) (haway he.2.2.1)
    epcqio := h.epcqio.step (hv .epcqio) (hr .epcqio) (haway he.2.2.2) }

/-- Only the current client presents a word. -/
theorem Coupled.current (h : Coupled s) {c : Client} (hd : (bus s c).dval = true) :
    s.arb.currentClient = some c := by
  by_contra hc
  have hv := isAway_view.2 hc
  cases c with
  | commandResp => exact h.cmd.dval hd hv
  | ccdInterface => exact h.ccd.dval hd hv
  | configScanner => exact h.scan.dval hd hv
  | epcqio => exact h.epcqio.dval hd hv
  | monit => cases hd

theorem Coupled.presentedBy_of_ne (h : Coupled s) {c : Client}
    (hc : s.arb.currentClient ≠ some c) : presentedBy s c = [] := by
  unfold presentedBy
  split_ifs with hd
  · exact absurd (h.current hd) hc
  · rfl

/-- What the clients present goes to the output at the next edge. -/
theorem Coupled.udpOut_step (h : Coupled s) :
    udpOut (Delivery.step epochInt i s) = (presented s).map Prod.snd := by
  cases hc : s.arb.currentClient with
  | none =>
    have hv := step_valid_none (i := arbInput i s) hc
    have hp : ∀ c, presentedBy s c = [] := fun c => h.presentedBy_of_ne (by simp [hc])
    simp [udpOut, Delivery.step, hv, presented, hp]
  | some c =>
    have hv := step_valid (i := arbInput i s) hc
    have hp : ∀ d, d ≠ c → presentedBy s d = [] := fun d hd =>
      h.presentedBy_of_ne (by simpa [hc] using hd.symm)
    have hout : udpOut (Delivery.step epochInt i s) = (presentedBy s c).map Prod.snd := by
      simp only [udpOut, Delivery.step, presentedBy, hv]
      rw [apply_ite (List.map Prod.snd)]
      rfl
    rw [hout]
    cases c with
    | commandResp => simp [presented, hp]
    | ccdInterface => simp [presented, hp]
    | configScanner => simp [presented, hp]
    | epcqio => simp [presented, hp]
    | monit =>
      have hm : presentedBy s .monit = [] := by simp [presentedBy, bus, UdpBus.quiet]
      simp [presented, hp, hm]

/-! ## Main results -/

theorem delivered_run (is : List Input)
    (h : Along (step epochInt) (fun i s => Regular i s ∧ ¬EarlyStart i s) initial is) :
    log (step epochInt) (fun _ s => udpOut s) initial is ++
        udpOut (run (step epochInt) initial is) =
      (log (step epochInt) (fun _ s => presented s) initial is).map Prod.snd ∧
    Coupled (run (step epochInt) initial is) := by
  have hinv : ∀ l l' i s, Regular i s ∧ ¬EarlyStart i s →
      l ++ udpOut s = l'.map Prod.snd ∧ Coupled s →
      (l ++ udpOut s) ++ udpOut (step epochInt i s) = (l' ++ presented s).map Prod.snd ∧
        Coupled (step epochInt i s) := by
    rintro l l' i s hi ⟨hl, hc⟩
    rw [List.map_append, hl, hc.udpOut_step]
    exact ⟨rfl, hc.step hi⟩
  exact log₂_invariant (I := fun l l' s => l ++ udpOut s = l'.map Prod.snd ∧ Coupled s)
    (step epochInt) ⟨rfl, coupled_initial⟩ hinv h

/-- Along every run without an early start, the words on the output, with the
    one just registered, are the words the clients presented, in order. -/
theorem words_delivered (is : List Input)
    (h : Along (step epochInt) (fun i s => Regular i s ∧ ¬EarlyStart i s) initial is) :
    log (step epochInt) (fun _ s => udpOut s) initial is ++
        udpOut (run (step epochInt) initial is) =
      (log (step epochInt) (fun _ s => presented s) initial is).map Prod.snd :=
  (delivered_run is h).1

/-! ## A lost reply -/

/-- An edge on which nothing arrives but possibly a `command_done` pulse. -/
def doneInput (commandDone : Bool) : Input where
  cmd := {
    sendCmdAck := false
    dataIn := 0
    commandDone := commandDone
    commandError := false
    errorCode := 0
    udpReady := false }
  ccd := {
    dataIn := 0
    dataPort := 0
    dataValid := false
    udpReady := false
    readTriggers := 0
    eraseSequencer := false
    progMemRedbk := 0
    timeMemReadbk := 0
    outMemReadbk := 0
    indFuncMemRedbk := 0
    indRepMemRedbk := 0
    indSubAddMemRedbk := 0
    indSubRepMemRedbk := 0
    reg32bCabacspiReadOnly := 0
    reg96bCrocspiReadOnly := 0 }
  scan := ⟨0, false, false, false, false, 0⟩
  epcqio := ⟨false, 0, 0, false⟩
  destIface := 1
  destAddr := 0

/-- 24 edges with `command_done` at edge 3 and at edge `3 + k`. -/
def doneRun (k : ℕ) : List Input := (List.range 24).map fun j => doneInput (j == 3 || j == 3 + k)

/-- Nine edges apart both replies get out. -/
theorem words_delivered_doneRun :
    Along (step 0) (fun i s => Regular i s ∧ ¬EarlyStart i s) initial (doneRun 9) ∧
      log (step 0) (fun _ s => udpOut s) initial (doneRun 9) ++
          udpOut (run (step 0) initial (doneRun 9)) =
        (log (step 0) (fun _ s => presented s) initial (doneRun 9)).map Prod.snd ∧
      (log (step 0) (fun _ s => presented s) initial (doneRun 9)).length = 2 :=
  have h : Along (step 0) (fun i s => Regular i s ∧ ¬EarlyStart i s) initial (doneRun 9) := by
    decide +kernel
  ⟨h, words_delivered (doneRun 9) h, by decide +kernel⟩

/-- Seven edges apart the second reply is presented to a line that is no longer
    the client's, and is lost. -/
theorem done_lost :
    Along (step 0) Regular initial (doneRun 7) ∧
      log (step 0) (fun _ s => presented s) initial (doneRun 7) =
        [(.commandResp, 0x3000, 0xF0444F4E), (.commandResp, 0x3000, 0xF0444F4E)] ∧
      log (step 0) (fun _ s => udpOut s) initial (doneRun 7) ++
        udpOut (run (step 0) initial (doneRun 7)) = [(0x3000, 0xF0444F4E)] := by
  decide +kernel

end FpgaEthernet.Delivery
