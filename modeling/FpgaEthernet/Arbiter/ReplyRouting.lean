import FpgaEthernet.Arbiter.Delivery
import FpgaEthernet.Controller.OdileController
import FpgaEthernet.Interfaces.EthernetMonitoringInterface

/-!
# Where replies go

`odile_controller` in front of all five clients and the arbiter, wired as in
`top_ethernet.vhd`. The arbiter puts the controller's `reply_iface` and
`reply_addr` next to every word, whichever client sends it; the controller loads
them with the source of every word on the command port.

Main results:

* `destination_eq`: the destination on the output of the arbiter is the source of
  the command-port word received last, two edges before.
* `reply_misrouted`: the acknowledgement of a command goes to the sender of the
  next one.
-/

namespace FpgaEthernet.ReplyRouting

open Clocked OdileController UdpDataArbiter

/-! ## The system -/

/-- The inputs of the controller and those the clients do not get from it. -/
structure Input where
  ctl : OdileController.Input
  clients : Delivery.Input
  monit : EthernetMonitoringInterface.Input
  endSequence : Bool
  epcqioDone : Bool

/-- The controller, the arbiter with four of its clients, and the fifth. -/
structure State where
  ctl : OdileController.State
  clients : Delivery.State
  monit : EthernetMonitoringInterface.State

/-- The registers when `reset` is released. -/
def initial : State :=
  ⟨OdileController.initial, Delivery.initial, EthernetMonitoringInterface.initial⟩

/-- `read_triggers` (`odile_controller.vhd` lines 268-277). -/
def readTriggers (o : Outputs) : BitVec 16 :=
  BitVec.ofBoolListLE [o.readProgram, o.readTiming, o.readOutput, o.readIndFunc, o.readIndRep,
    o.readIndSubAdd, o.readIndSubRep, o.readCabacReg, o.getCrocReg, false, false, false, false,
    false, false, false]

/-- `command_done` (`top_ethernet.vhd` lines 818-819). -/
def commandDone (i : Input) (s : State) : Bool :=
  s.clients.ccd.read.readDone || i.endSequence || s.clients.scan.scanFinished ||
    s.clients.ccd.erase.eraseDone || i.epcqioDone

/-- The inputs of the clients (lines 1036-1178); nothing drives `start_scan_single`. -/
def clientsInput (i : Input) (s : State) : Delivery.Input :=
  { i.clients with
    cmd := { i.clients.cmd with
      sendCmdAck := s.ctl.sendCmdAck
      dataIn := s.ctl.cmdToAck
      commandDone := commandDone i s }
    ccd := { i.clients.ccd with
      readTriggers := readTriggers s.ctl.out
      eraseSequencer := s.ctl.out.eraseSequencer }
    scan := { i.clients.scan with
      startScanBlocks := s.ctl.out.readConfig
      startScanSingle := false
      startBlockAddress := 0 } }

/-- The inputs of the client of the monitoring block (lines 1239-1249). -/
def monitInput (i : Input) (s : State) : EthernetMonitoringInterface.Input :=
  { i.monit with
    readRegister := s.ctl.out.readMonitoringReg
    startMonitoringCmd := s.ctl.out.startMonitoringReg
    udpReady := s.clients.arb.udpReady .monit }

/-- The buses at the arbiter. -/
def bus (s : State) : Client → UdpBus
  | .monit => EthernetMonitoringInterface.udpOutBus s.monit
  | c => Delivery.bus s.clients c

/-- The input ports of the arbiter (lines 1147-1159). -/
def arbInput (s : State) : UdpDataArbiter.Input :=
  ⟨bus s, s.ctl.replyTo.iface, s.ctl.replyTo.addr⟩

/-- One edge of `clock`. -/
def step (epochInt : ℕ) (i : Input) (s : State) : State where
  ctl := OdileController.step i.ctl s.ctl
  clients := { Delivery.step epochInt (clientsInput i s) s.clients with
    arb := UdpDataArbiter.step (arbInput s) s.clients.arb }
  monit := EthernetMonitoringInterface.step (monitInput i s) s.monit

/-- The destination on the output of the arbiter. -/
def destination (s : State) : ReplyTo := ⟨s.clients.arb.udpDestIface, s.clients.arb.udpAddrOut⟩

/-- The word on the output of the arbiter, with its destination. -/
def udpOut (s : State) : List (Word × ReplyTo) :=
  if s.clients.arb.udpValidOut then [(s.clients.arb.udpDataOut, destination s)] else []

/-! ## The destination -/

variable {epochInt : ℕ}

/-- The interface and the address that a word comes from. -/
def sender (i : Input) : ReplyTo := ⟨i.ctl.sourceIface, i.ctl.dataAddr⟩

/-- The source of the command-port word received last. -/
def lastSender (is : List Input) : ReplyTo :=
  is.foldl (fun r i => if IsCommand i.ctl then sender i else r) ⟨0, 0⟩

theorem lastSender_concat (is : List Input) (i : Input) :
    lastSender (is ++ [i]) = if IsCommand i.ctl then sender i else lastSender is := by
  simp [lastSender]

/-- The controller loads the source of every word on the command port. -/
theorem step_replyTo (i : OdileController.Input) (s : OdileController.State) :
    (OdileController.step i s).replyTo =
      if HasCommand s then ⟨s.sourceIfaceReg, s.dataAddrReg⟩ else s.replyTo := by
  simp only [OdileController.step, commandParser, storeOperand]
  split_ifs <;> rfl

/-- The destination registers of the controller lag one edge behind. -/
theorem replyTo_run_concat (is : List Input) (i : Input) :
    (run (step epochInt) initial (is ++ [i])).ctl.replyTo = lastSender is := by
  induction is using List.reverseRecOn generalizing i with
  | nil => rfl
  | append_singleton is k ih =>
    have hk : (run (step epochInt) initial (is ++ [k])).ctl =
        OdileController.step k.ctl (run (step epochInt) initial is).ctl := by
      rw [run_concat]
      rfl
    have hreply := ih k
    rw [run_concat, step, step_replyTo, lastSender_concat, hreply, hk]
    rfl

/-- The arbiter outputs every word with the source of the command-port word that
    was received last, two edges before. -/
theorem destination_eq (is : List Input) (i j : Input) :
    destination (run (step epochInt) initial (is ++ [i, j])) = lastSender is := by
  have hr := @replyTo_run_concat epochInt is i
  rw [← hr, ← List.singleton_append, ← List.append_assoc, run_concat]
  simp [destination, step, arbInput]

/-- An edge with the word `w` from interface `iface` on the command port. -/
def commandEdge (w : Word) (iface : BitVec 4) : Input where
  ctl := ⟨w, true, udpPortCommand, 0x0A0000000000, iface⟩
  clients := Delivery.doneInput false
  monit := ⟨false, false, false, fun _ => 0, false⟩
  endSequence := false
  epcqioDone := false

/-- An edge on which nothing arrives. -/
def idleEdge : Input := { commandEdge 0 0 with ctl := idleInput }

/-- `STS` from interface 1 and `AEX` from interface 2, one edge apart: both
    acknowledgements go to interface 2. -/
theorem reply_misrouted :
    (log (step 0) (fun _ s => udpOut s) initial
      ([commandEdge 0x535453 1, commandEdge 0x414558 2] ++ List.replicate 20 idleEdge)).map
        (fun o => (o.1, o.2.iface)) = [(0xF0535453, 2), (0xF0414558, 2)] := by
  decide +kernel

end FpgaEthernet.ReplyRouting
