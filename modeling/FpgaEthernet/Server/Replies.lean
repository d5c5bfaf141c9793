import FpgaEthernet.Arbiter.Delivery
import FpgaEthernet.Server.Readout

/-!
# From the clients of the arbiter to the host

The arbiter with its clients before the `ethernet_block` of an interface, wired as in
`top_ethernet.vhd`, and the host that receives its frames.

Main results:

* `EopLow.step`: no client ends a packet.
* `log_written`: what is written to the UDP block is what the arbiter puts out.
* `replies_arrive`: the datagrams for a port have a beginning of the words that the clients
  present for it.
-/

namespace FpgaEthernet.Replies

open Clocked
open Readout (arrived carries_paddedFrames datagramFor paddedFrames wordsFor wordsFor_isPrefix)
open UdpDataArbiter (Client)

variable {N : ℕ} {epochInt : ℕ} {k : Fin 3}

/-! ## Model -/

/-- The inputs of the clients, and those of the block; its UDP inputs come from the arbiter. -/
structure Input (N : ℕ) where
  clients : Delivery.Input
  eth : EthernetBlock.Input N

/-- The arbiter with its clients, and the block. -/
structure State (N : ℕ) where
  clients : Delivery.State
  eth : EthernetBlock.State N

/-- The UDP inputs of interface `k` (`top_ethernet.vhd` lines 808-812, 900-904, 933-937, 968-972)
    and its destination (`ethernet_block.vhd` lines 569-570). -/
def udpInput (k : Fin 3) (i : UdpDataBlock.Input) (s : UdpDataArbiter.State) :
    UdpDataBlock.Input :=
  { i with
    dataIn := s.udpDataOut
    dataValidIn := s.udpValidOut && s.udpDestIface.getLsbD k
    dataPortIn := s.udpPortOut
    dataEopIn := s.udpEopOut
    destMacAddr := s.udpAddrOut.extractLsb' 32 48
    destIpAddr := s.udpAddrOut.extractLsb' 0 32 }

/-- The inputs of the block. -/
def ethInput (k : Fin 3) (i : Input N) (s : State N) : EthernetBlock.Input N :=
  { i.eth with udp := udpInput k i.eth.udp s.clients.arb }

/-- The signals after the edges the input names; the clients and the arbiter have the logic
    clock of the block. -/
def step (epochInt : ℕ) (k : Fin 3) (i : Input N) (s : State N) : State N where
  clients := if i.eth.data.clock then Delivery.step epochInt i.clients s.clients else s.clients
  eth := EthernetBlock.step (ethInput k i s) s.eth

/-- The signals when reset is released. -/
def initial [NeZero N] (j : ℤ) : State N := ⟨Delivery.initial, EthernetBlock.reset j⟩

/-- The words that the clients present. -/
def presented (i : Input N) (s : State N) : List (Client × UdpPort × Word) :=
  if i.eth.data.clock then Delivery.presented s.clients else []

/-- The word that is written to the UDP block. -/
def written (k : Fin 3) (i : Input N) (s : State N) : List (Word × UdpPort) :=
  UdpLink.presented (ethInput k i s) s.eth

/-- The events of the block along a run. -/
def ethEvents (epochInt : ℕ) (k : Fin 3) (s : State N) (is : List (Input N)) :
    List (EthernetBlock.Input N) := log (step epochInt k) (fun i s => [ethInput k i s]) s is

/-! ## The conditions -/

/-- Nothing is written to the sequencer memories, no client is timed out and none starts
    early. -/
def Regular (i : Input N) (s : State N) : Prop :=
  i.eth.data.clock = true →
    Delivery.Regular i.clients s.clients ∧ ¬Delivery.EarlyStart i.clients s.clients

/-- The blocks keep apart, and the FIFOs of the UDP block do not overflow. -/
def Undisturbed (k : Fin 3) (i : Input N) (s : State N) : Prop :=
  EthernetBlock.Apart (ethInput k i s) s.eth ∧ UdpLink.NoOverflow (ethInput k i s) s.eth

/-- No word is on the output of the arbiter. -/
def Silent (_ : Input N) (s : State N) : Prop := s.clients.arb.udpValidOut = false

/-- The arbiter has the host behind interface `k` as the destination. -/
def Directed (k : Fin 3) (addr : BitVec 80) (_ : Input N) (s : State N) : Prop :=
  s.clients.arb.udpDestIface.getLsbD k = true ∧ s.clients.arb.udpAddrOut = addr

/-- A word on the output of the arbiter is for interface `k`. -/
def Reaches (k : Fin 3) (_ : Input N) (s : State N) : Prop :=
  s.clients.arb.udpValidOut = true → s.clients.arb.udpDestIface.getLsbD k = true

instance (i : Input N) (s : State N) : Decidable (Regular i s) := by
  unfold Regular
  infer_instance

instance (i : Input N) (s : State N) : Decidable (Undisturbed k i s) := by
  unfold Undisturbed
  infer_instance

instance (i : Input N) (s : State N) : Decidable (Silent i s) := by
  unfold Silent
  infer_instance

instance (addr : BitVec 80) (i : Input N) (s : State N) : Decidable (Directed k addr i s) := by
  unfold Directed
  infer_instance

/-! ## No end of packet -/

/-- No client ends a packet, and none has. -/
structure EopLow (s : Delivery.State) : Prop where
  cmdSig : s.cmd.udpEopSig = false
  cmd : s.cmd.dataOutEop = false
  epcqioSig : s.epcqio.dataOutEop = false
  epcqio : s.epcqio.udpOutBus.eop = false
  arb : s.arb.udpEopOut = false

theorem eopLow_initial : EopLow Delivery.initial := ⟨rfl, rfl, rfl, rfl, rfl⟩

theorem cmd_eop (i : CommandResponseGenerator.Input) (s : CommandResponseGenerator.State) :
    (CommandResponseGenerator.step epochInt i s).udpEopSig = false ∧
      (CommandResponseGenerator.step epochInt i s).dataOutEop = s.udpEopSig := by
  unfold CommandResponseGenerator.step CommandResponseGenerator.stateMachine
  split <;> (try split_ifs) <;> exact ⟨rfl, rfl⟩

theorem epcqio_eop (i : UdpInterface.Input) (s : UdpInterface.State) :
    (UdpInterface.step i s).dataOutEop = false ∧
      (UdpInterface.step i s).udpOutBus.eop = s.dataOutEop := by
  unfold UdpInterface.step UdpInterface.udpInterface
  split <;> (try split_ifs) <;> exact ⟨rfl, rfl⟩

theorem EopLow.bus {s : Delivery.State} (h : EopLow s) (c : Client) :
    (Delivery.bus s c).eop = false := by
  cases c with
  | commandResp => exact h.cmd
  | epcqio => exact h.epcqio
  | ccdInterface | configScanner | monit => rfl

theorem EopLow.step {i : Delivery.Input} {s : Delivery.State} (h : EopLow s) :
    EopLow (Delivery.step epochInt i s) where
  cmdSig := (cmd_eop _ _).1
  cmd := (cmd_eop _ _).2.trans h.cmdSig
  epcqioSig := (epcqio_eop _ _).1
  epcqio := (epcqio_eop _ _).2.trans h.epcqioSig
  arb := by
    have hbus := h.bus
    have harb := h.arb
    simp only [Delivery.step, UdpDataArbiter.step, UdpDataArbiter.outputMultiplexer]
    cases hc : s.arb.currentClient with
    | none => exact harb
    | some c => exact hbus c

/-! ## The arbiter and the block -/

variable {s : State N} {is : List (Input N)}

/-- The edges of the arbiter and its clients. -/
def clientEdge (i : Input N) (_ : State N) : List Delivery.Input :=
  if i.eth.data.clock then [i.clients] else []

theorem clients_step (i : Input N) (s : State N) : (step epochInt k i s).clients =
    run (Delivery.step epochInt) s.clients (clientEdge i s) := by
  unfold step clientEdge
  split_ifs <;> rfl

theorem eopLow_clients (i : Input N) (h : EopLow s.clients) :
    EopLow (step epochInt k i s).clients := by
  unfold step
  split_ifs
  · exact h.step
  · exact h

/-- If the destination is the host from the first word on, all words are for it. -/
theorem along_reaches {is₀ is₁ : List (Input N)} {addr : BitVec 80}
    (hsilent : Along (step epochInt k) Silent s is₀)
    (hdest : Along (step epochInt k) (Directed k addr) (run (step epochInt k) s is₀) is₁) :
    Along (step epochInt k) (Reaches k) s (is₀ ++ is₁) := by
  rw [along_append]
  refine ⟨hsilent.mono _ fun i s h hv => ?_, hdest.mono _ fun _ _ h _ => h.1⟩
  rw [Silent, hv] at h
  cases h

/-- What an observer has seen who looks at the arbiter and its clients. -/
theorem log_clients {α : Type} (obs : Delivery.State → List α) :
    log (step epochInt k) (fun i s => if i.eth.data.clock then obs s.clients else []) s is =
      log (Delivery.step epochInt) (fun _ s => obs s) s.clients
        (log (step epochInt k) clientEdge s is) := by
  rw [← log_edges _ clients_step]
  congr 1
  funext i s
  unfold clientEdge
  split_ifs <;> simp

theorem along_clients (h : Along (step epochInt k) Regular s is) :
    Along (Delivery.step epochInt)
      (fun i s => Delivery.Regular i s ∧ ¬Delivery.EarlyStart i s) s.clients
      (log (step epochInt k) clientEdge s is) := by
  rw [along_edges _ clients_step]
  refine h.mono _ fun i s hi => ?_
  unfold clientEdge
  split_ifs with hc
  · exact ⟨hi hc, trivial⟩
  · trivial

/-- What is written to the UDP block is what the arbiter puts out, if all of it is for the
    interface. -/
theorem log_written (h : Along (step epochInt k) (Reaches k) s is) :
    log (step epochInt k) (written k) s is =
      (log (step epochInt k)
        (fun i s => if i.eth.data.clock then Delivery.udpOut s.clients else []) s is).map
        Prod.swap := by
  induction is generalizing s with
  | nil => rfl
  | cons i is ih =>
    obtain ⟨hdest, h⟩ := h
    rw [log_cons, log_cons, List.map_append, ih h]
    congr 1
    unfold written UdpLink.presented ethInput udpInput Delivery.udpOut
    cases hc : i.eth.data.clock
    · simp
    · cases hv : s.clients.arb.udpValidOut
      · simp
      · simp [hdest hv]

/-- What is written to the UDP block is a beginning of what the clients present. -/
theorem written_isPrefix [NeZero N] {j : ℤ} (h : Along (step epochInt k) Regular (initial j) is)
    (hdest : Along (step epochInt k) (Reaches k) (initial j) is) :
    log (step epochInt k) (written k) (initial j) is <+:
      (log (step epochInt k) presented (initial j) is).map fun x => (x.2.2, x.2.1) := by
  have hrun := (Delivery.delivered_run _ (along_clients h)).1
  have hpresented : log (step epochInt k) presented (initial j) is =
      log (Delivery.step epochInt) (fun _ s => Delivery.presented s) Delivery.initial
        (log (step epochInt k) clientEdge (initial j) is) := log_clients Delivery.presented
  have hprefix : log (Delivery.step epochInt) (fun _ s => Delivery.udpOut s) Delivery.initial
      (log (step epochInt k) clientEdge (initial j) is) <+:
        (log (step epochInt k) presented (initial j) is).map Prod.snd := by
    rw [hpresented]
    exact ⟨_, hrun⟩
  have hswap := List.IsPrefix.map Prod.swap hprefix
  rw [List.map_map] at hswap
  rw [log_written hdest, log_clients Delivery.udpOut]
  exact hswap

/-- A condition on the events of the block. -/
theorem forall_ethEvents {R : Input N → State N → Prop} {P : EthernetBlock.Input N → Prop}
    (h : Along (step epochInt k) R s is) (hP : ∀ i s, R i s → P (ethInput k i s)) :
    ∀ e ∈ ethEvents epochInt k s is, P e := by
  intro e he
  obtain ⟨is', i, hpre, hmem⟩ := (mem_log_iff _).1 he
  obtain rfl := List.mem_singleton.1 hmem
  exact hP i _ ((along_iff _ R s is).1 h is' i hpre)

/-- A condition along the run of the block. -/
theorem along_ethEvents {R : Input N → State N → Prop}
    {Q : EthernetBlock.Input N → EthernetBlock.State N → Prop}
    (h : Along (step epochInt k) R s is) (hQ : ∀ i s, R i s → Q (ethInput k i s) s.eth) :
    Along EthernetBlock.step Q s.eth (ethEvents epochInt k s is) := by
  rw [ethEvents, along_edges (step epochInt k) (p := State.eth) (fun _ _ => rfl)]
  exact h.mono _ fun i s hi => ⟨hQ i s hi, trivial⟩

/-! ## The host -/

/-- The host behind interface `k`, if it is the destination from the first word on: the
    datagrams for a port have a beginning of the words that the clients present for the port,
    and each fits into the buffer of the host. -/
theorem replies_arrive [NeZero N] (j : ℤ) (addr : BitVec 80) (mac : MacAddr) (ip : IpAddr)
    {is₀ is₁ : List (Input N)} {port : UdpPort} {fs : List UdpLink.Frame}
    (hclients : Along (step epochInt k) Regular (initial j) (is₀ ++ is₁))
    (heth : Along (step epochInt k) (Undisturbed k) (initial j) (is₀ ++ is₁))
    (hrdy : ∀ i ∈ is₀ ++ is₁, i.eth.ffTxRdy = true)
    (hsilent : Along (step epochInt k) Silent (initial j) is₀)
    (hdest : Along (step epochInt k) (Directed k addr) (run (step epochInt k) (initial j) is₀) is₁)
    (hsource : ∀ i ∈ is₁, i.eth.udp.sourceMacAddr = mac ∧ i.eth.udp.sourceIpAddr = ip)
    (hfs : List.Forall₂ UdpLink.Carries (cut (Beat.eop ∘ Prod.fst)
      (UdpLink.taken j (ethEvents epochInt k (initial j) (is₀ ++ is₁)))).1
      (fs.filter fun f => f.origin.isSome))
    (hown : ∀ f ∈ fs, f.origin ≠ some .udp → datagramFor port f = none) :
    (arrived port fs).flatMap OdileServer.packetWords <+:
        ((log (step epochInt k) presented (initial j) (is₀ ++ is₁)).filter
          fun x => x.2.1 = port).map (fun x => x.2.2) ∧
      ∀ d ∈ arrived port fs,
        d.length % 4 = 0 ∧ 0 < d.length ∧ d.length ≤ OdileServer.buffSize := by
  have hsplit : ethEvents epochInt k (initial j) (is₀ ++ is₁) =
      ethEvents epochInt k (initial j) is₀ ++
        ethEvents epochInt k (run (step epochInt k) (initial j) is₀) is₁ := log_append ..
  have hap := along_ethEvents heth (Q := EthernetBlock.Apart) fun _ _ h => h.1
  have hov := along_ethEvents heth (Q := UdpLink.NoOverflow) fun _ _ h => h.2
  have hrdy' : ∀ e ∈ ethEvents epochInt k (initial j) (is₀ ++ is₁), e.ffTxRdy = true :=
    forall_ethEvents (along_of_forall _ hrdy) fun _ _ h => h
  have heop := forall_ethEvents (P := fun e => e.udp.dataEopIn = false)
    (hclients.and_invariant _ (I := fun s => EopLow s.clients) eopLow_initial
      fun i s _ h => eopLow_clients i h) fun _ _ h => h.2.arb
  have hquiet := forall_ethEvents (P := fun e => e.udp.dataValidIn = false) hsilent fun i s h => by
    simp only [ethInput, udpInput, show s.clients.arb.udpValidOut = false from h, Bool.false_and]
  have hheld := forall_ethEvents
    (P := fun e => UdpDataBlock.Held ⟨mac, addr.extractLsb' 32 48, ip, addr.extractLsb' 0 32⟩ e.udp)
    (hdest.and _ (along_of_forall _ hsource)) fun i s h => by
      obtain ⟨⟨-, rfl⟩, hmac, hip⟩ := h
      exact ⟨hmac, rfl, hip, rfl⟩
  have hreach := along_reaches hsilent hdest
  rw [hsplit] at hap hov hrdy' heop hfs
  obtain ⟨hwords, hsizes⟩ :=
    Readout.replies_received j hap hrdy' hquiet hheld heop hov hfs hown
  refine ⟨hwords.trans ?_, hsizes⟩
  have hwritten : log EthernetBlock.step UdpLink.presented (EthernetBlock.reset j)
      (ethEvents epochInt k (initial j) (is₀ ++ is₁)) =
        log (step epochInt k) (written k) (initial j) (is₀ ++ is₁) :=
    (log_driven (step epochInt k) (t := EthernetBlock.step) (p := State.eth) (g := ethInput k)
      (fun _ _ => rfl) UdpLink.presented (initial j) (is₀ ++ is₁)).symm
  rw [← hsplit, hwritten]
  refine (wordsFor_isPrefix (written_isPrefix hclients hreach)).trans ?_
  rw [wordsFor, List.filter_map, List.map_map]
  exact List.prefix_rfl

/-! ## A reply -/

/-- An edge with a `command_done` pulse, and a number of words in the read buffer of
    `epcqio_control`. -/
def replyEdge (commandDone : Bool) (rdusedw : BitVec 7) : Input 5 where
  clients :=
    { Delivery.doneInput commandDone with
      epcqio := ⟨false, rdusedw, 0xCAFE, false⟩
      destAddr := 0x6CB311517434C0A80001 }
  eth := EthernetBlock.edge none false

/-- A command is done, and a word is read back `n` edges later. -/
def replyRun (n : ℕ) : List (Input 5) :=
  [replyEdge true 0] ++ List.replicate n (replyEdge false 0) ++ [replyEdge false 1] ++
    List.replicate 60 (replyEdge false 0)

/-- The frames of interface `k`, padded, and one from elsewhere. -/
def replyFrames (k : Fin 3) : List UdpLink.Frame :=
  paddedFrames .udp
    (UdpLink.taken (-1) (ethEvents 0 k (initial (-1)) ([replyEdge false 0] ++ replyRun 16)))

theorem mem_replyRun {n : ℕ} {i : Input 5} (h : i ∈ replyRun n) : ∃ d r, i = replyEdge d r := by
  simp only [replyRun, List.mem_append, List.mem_replicate, List.mem_singleton] at h
  rcases h with ((rfl | ⟨-, rfl⟩) | rfl) | ⟨-, rfl⟩ <;> exact ⟨_, _, rfl⟩

theorem replies_arrive_replyRun :
    (arrived 0x3000 (replyFrames 0)).flatMap OdileServer.packetWords = [0xF0444F4E] ∧
      (arrived 0x3000 (replyFrames 0)).flatMap OdileServer.packetWords <+:
        ((log (step 0 0) presented (initial (-1)) ([replyEdge false 0] ++ replyRun 16)).filter
          fun x => x.2.1 = 0x3000).map fun x => x.2.2 :=
  ⟨by decide +kernel, (replies_arrive (-1) 0x6CB311517434C0A80001 0xEE1122334455
    0xC0A80003 (by decide +kernel) (by decide +kernel) (by decide +kernel)
    (by decide +kernel) (by decide +kernel) (fun i hi => by
      obtain ⟨d, r, rfl⟩ := mem_replyRun hi
      exact ⟨rfl, rfl⟩) (carries_paddedFrames .udp (by decide +kernel)) (by decide +kernel)).1⟩

end FpgaEthernet.Replies
