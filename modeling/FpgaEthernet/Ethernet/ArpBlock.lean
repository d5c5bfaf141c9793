import FpgaEthernet.Ethernet.Transmitter
import FpgaEthernet.Ethernet.FrameReciever

/-!
# `arp_block`

Model of `ethernet/arp_block.vhd` and `ethernet/arp_replier.vhd`: the reply
buffer, the request timer, the generator of the ARP payload, a frame generator
and a header generator.
-/

namespace FpgaEthernet

namespace ArpReplier

/-- `state_type` (`arp_replier.vhd` lines 51-53). -/
inductive StateType
  | idle
  | arp0 | arp1 | arp2 | arp3 | arp4 | arp5 | arp6
  | done
  deriving DecidableEq, Repr

/-- The input ports (lines 30-46). -/
structure Input where
  sourceMacAddr : MacAddr
  destMacAddr : MacAddr
  sourceIpAddr : IpAddr
  destIpAddr : IpAddr
  startReply : Bool
  isRequest : Bool

/-- The registers. -/
structure State where
  nextState : StateType
  dval : Bool
  dataOut : Word
  endReply : Bool
  optype : BitVec 16
  deriving DecidableEq

/-- `HTYPE` and `PTYPE` (lines 60-61). -/
def typeWord : Word := 0x00010800

/-- `HLEN` and `PLEN` (lines 62-63). -/
def lengths : BitVec 16 := 0x0604

/-- `state_machine` (lines 72-142). `OPTYPE` is a signal, so `ARP1` emits the
    value it had before the edge. -/
def stateMachine (i : Input) (s : State) : State :=
  match s.nextState with
  | .idle =>
    { s with
      dval := false
      dataOut := 0
      endReply := false
      nextState := if i.startReply then .arp0 else .idle }
  | .arp0 => { s with nextState := .arp1, dval := true, dataOut := typeWord }
  | .arp1 =>
    { s with nextState := .arp2, dval := true, dataOut := (lengths ++ s.optype : BitVec 32) }
  | .arp2 =>
    { s with nextState := .arp3, dval := true, dataOut := i.sourceMacAddr.extractLsb' 16 32 }
  | .arp3 =>
    { s with
      nextState := .arp4
      dval := true
      dataOut := (i.sourceMacAddr.extractLsb' 0 16 ++ hi i.sourceIpAddr : BitVec 32) }
  | .arp4 =>
    { s with
      nextState := .arp5
      dval := true
      dataOut := (lo i.sourceIpAddr ++ i.destMacAddr.extractLsb' 32 16 : BitVec 32) }
  | .arp5 =>
    { s with nextState := .arp6, dval := true, dataOut := i.destMacAddr.extractLsb' 0 32 }
  | .arp6 =>
    { s with nextState := .done, dval := true, dataOut := i.destIpAddr, endReply := true }
  | .done => { s with nextState := .idle, dval := false, dataOut := 0 }

/-- One clock edge, with the assignment to `OPTYPE` (lines 78-82). -/
def step (i : Input) (s : State) : State :=
  { stateMachine i s with optype := if i.isRequest then arpRequest else arpReply }

/-- The registers when reset is released; those without a reset value have their
    initial one. -/
def reset : State where
  nextState := .idle
  dval := false
  dataOut := 0
  endReply := false
  optype := arpReply

end ArpReplier

namespace ArpBlock

open Clocked Transmitter

/-- `ARP_REQ_WAITTIME` (`arp_block.vhd` line 208). -/
def arpReqWaittime : ℕ := 100000000

/-- The input ports (lines 39-82). -/
structure Input where
  txReady : Bool
  generateReply : Bool
  generateRequest : Bool
  sourceMacAddr : MacAddr
  destMacAddr : MacAddr
  sourceIpAddr : IpAddr
  destIpAddr : IpAddr
  reqIpAddr : IpAddr
  deriving DecidableEq

/-- The registers, and the variable `timer`. -/
structure State where
  tx : Transmitter.State
  replier : ArpReplier.State
  fgDataIn : Word
  timer : ℕ
  generateRequestInt : Bool
  destMacAddrReg : MacAddr
  destIpAddrReg : IpAddr
  replyWait : Bool
  isRequest : Bool
  deriving DecidableEq

/-- The constant ports of the frame generator (lines 188-190, 272). -/
def fgConfig : FrameGenerator.Config where
  payloadMaxLen := BitVec.allOnes 9
  fifoInDly := 5
  fifoOutDly := 5
  genCrc := false

/-- `hg_config` (line 171). -/
def hgConfig : Word := 0x00000001

/-- `ARP_len` (line 187). -/
def arpLen : BitVec 11 := 7

/-- The header parameters (lines 164-174, 225-242). -/
def fields (i : Input) : HeaderGenerator.Fields where
  protocol := 0
  appHeader := 0
  config := hgConfig
  sourceMacAddr := i.sourceMacAddr
  destMacAddr := i.destMacAddr
  etherType := ethArp
  sourceIp := i.sourceIpAddr
  destIp := i.destIpAddr
  sourcePort := 0
  destPort := 0

/-- `payload_rdy` (line 219). -/
def payloadRdy (i : Input) (s : State) : Bool := s.replyWait && i.txReady

/-- The inputs of the frame generator and the header generator. -/
def txInput (i : Input) (s : State) : Transmitter.Input where
  fields := fields i
  dataIn := s.fgDataIn
  usedwIn := arpLen
  payloadRdy := payloadRdy i s

/-- The inputs of the payload generator (lines 275-287). -/
def replierInput (i : Input) (s : State) : ArpReplier.Input where
  sourceMacAddr := i.sourceMacAddr
  destMacAddr := s.destMacAddrReg
  sourceIpAddr := i.sourceIpAddr
  destIpAddr := s.destIpAddrReg
  startReply := s.tx.fg.rdreqSig
  isRequest := s.isRequest

/-- `ARP_request_waiter` (lines 299-317): the new `timer` and
    `generate_request_int`. -/
def arpRequestWaiter (i : Input) (s : State) : ℕ × Bool :=
  let timer :=
    if arpReqWaittime ≤ s.timer then 0 else if 0 < s.timer then s.timer + 1 else s.timer
  if i.generateRequest = false then (0, false)
  else if timer = 0 then (1, true)
  else (timer, false)

/-- `reply_buffer` (lines 321-350). -/
def replyBuffer (i : Input) (s : State) : State :=
  if s.tx.fg.fgBusy then { s with replyWait := false }
  else if s.replyWait then s
  else if i.generateReply then
    { s with
      destMacAddrReg := i.destMacAddr
      destIpAddrReg := i.destIpAddr
      replyWait := true
      isRequest := false }
  else if s.generateRequestInt then
    { s with
      destMacAddrReg := 0
      destIpAddrReg := i.reqIpAddr
      replyWait := true
      isRequest := true }
  else s

/-- One clock edge. Every process reads the signals as they were before. -/
def step (i : Input) (s : State) : State where
  tx := Transmitter.step fgConfig (txInput i s) s.tx
  replier := ArpReplier.step (replierInput i s) s.replier
  fgDataIn := s.replier.dataOut
  timer := (arpRequestWaiter i s).1
  generateRequestInt := (arpRequestWaiter i s).2
  destMacAddrReg := (replyBuffer i s).destMacAddrReg
  destIpAddrReg := (replyBuffer i s).destIpAddrReg
  replyWait := (replyBuffer i s).replyWait
  isRequest := (replyBuffer i s).isRequest

/-- The registers when reset is released. -/
def reset : State where
  tx := Transmitter.reset
  replier := ArpReplier.reset
  fgDataIn := 0
  timer := 0
  generateRequestInt := false
  destMacAddrReg := 0
  destIpAddrReg := 0
  replyWait := false
  isRequest := false

end ArpBlock

end FpgaEthernet
