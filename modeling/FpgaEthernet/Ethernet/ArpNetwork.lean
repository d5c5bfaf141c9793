import FpgaEthernet.Ethernet.ArpAddressing
import FpgaEthernet.Ethernet.CacheCoherence

/-!
# Boards on a network

The parts of `ethernet_block` that find the address of the server, with `arp_block` beside
them, and any number of such boards on a network with other hosts. What a board has sent
may come in at any board, once, many times or never, in any order, and padded.

Main results:

* `frames_speak`: the sender in an ARP frame of a board is the board.
* `Net.Inv.step`: what has come in at a board is frames of the boards and of hosts.
* `caches_own`: whatever has happened on the network, a valid cache has the hardware address
  that the protocol address of the server belongs to.
-/

namespace FpgaEthernet.ArpNetwork

open Clocked Transmitter FrameReciever
open EthernetBlock (macIn)

/-! ## A board -/

section

variable {N : ℕ}

/-- The inputs of a board at an edge of `clock`. -/
structure Input (N : ℕ) where
  block : CacheCoherence.Input N
  txReady : Bool

/-- The parts that find the address of the server, and `arp_block`. -/
structure State (N : ℕ) where
  block : CacheCoherence.State N
  arp : ArpBlock.State

/-- `generate_arp_request` (`ethernet_block.vhd` line 510). -/
def generateArpRequest (s : State N) : Bool :=
  s.block.cache.arpCacheStale || !s.block.cache.arpCacheValid

/-- The ports of `arp_block` (lines 635-651), with `arp_dest_mac_addr` and
    `arp_dest_ip_addr` (lines 565-566). -/
def arpInput (i : Input N) (s : State N) : ArpBlock.Input where
  txReady := i.txReady
  generateReply := s.block.rx.generateArpReply
  generateRequest := generateArpRequest s
  sourceMacAddr := s.block.sourceMacAddr
  destMacAddr := s.block.rx.sourceMacAddr
  sourceIpAddr := s.block.sourceIpAddr
  destIpAddr := s.block.rx.sourceIpAddr
  reqIpAddr := s.block.destIpAddr

/-- One edge of `clock`; `addr` is the address of the configuration block. -/
def step (addr : BitVec 7) (i : Input N) (s : State N) : State N where
  block := CacheCoherence.step addr i.block s.block
  arp := ArpBlock.step (arpInput i s) s.arp

/-- The registers when reset is released. -/
def reset [NeZero N] (settings : Fin 11 → Word) (k : ℤ) : State N where
  block := CacheCoherence.reset settings k
  arp := ArpBlock.reset

/-- The words that `arp_block` sends. -/
def output (_ : Input N) (s : State N) : List Beat := written s.arp.tx

/-- The words fed to the receiver. -/
def fed (i : Input N) (s : State N) : List Beat := CacheCoherence.fed i.block s.block

/-- The configuration registers have the addresses of the board. -/
structure Keeps (mac : MacAddr) (ip : IpAddr) (s : State N) : Prop where
  mac : macIn s.block.config.configRegisters 0 1 = mac
  ip : s.block.config.configRegisters 4 = ip

instance (mac : MacAddr) (ip : IpAddr) (s : State N) : Decidable (Keeps mac ip s) :=
  decidable_of_iff (macIn s.block.config.configRegisters 0 1 = mac ∧
    s.block.config.configRegisters 4 = ip) ⟨fun h => ⟨h.1, h.2⟩, fun h => ⟨h.1, h.2⟩⟩

/-- `config_dff` has loaded them. -/
structure Own (mac : MacAddr) (ip : IpAddr) (s : State N) : Prop where
  mac : s.block.sourceMacAddr = mac
  ip : s.block.sourceIpAddr = ip

variable {addr : BitVec 7} {settings : Fin 11 → Word} {k : ℤ} {mac : MacAddr} {ip : IpAddr}
  {is : List (Input N)} {i : Input N} {s : State N} {js : List ArpExchange.Input}

theorem Keeps.own (h : Keeps mac ip s) : Own mac ip (step addr i s) := ⟨h.mac, h.ip⟩

/-! ## What a board sends -/

/-- The receiver and `arp_block` of a board. -/
def exchange (s : State N) : ArpExchange.State where
  rx := s.block.rx
  arp := s.arp
  sourceMacAddr := s.block.sourceMacAddr
  sourceIpAddr := s.block.sourceIpAddr
  destIpAddr := s.block.destIpAddr

/-- Their inputs. -/
def exchangeInput (i : Input N) (s : State N) : ArpExchange.Input where
  rxData := i.block.rxData
  rxEop := i.block.rxEop
  rxSop := i.block.rxSop
  rxDval := i.block.rxDval
  txReady := i.txReady
  generateRequest := generateArpRequest s
  configMac := macIn s.block.config.configRegisters 0 1
  configIp := s.block.config.configRegisters 4
  configDestIp := s.block.config.configRegisters 5

theorem exchange_step (i : Input N) (s : State N) :
    exchange (step addr i s) = run ArpExchange.step (exchange s) [exchangeInput i s] := rfl

/-- Along a run in which a board keeps its addresses, it has them. -/
theorem along_own [NeZero N] (hmac : macIn settings 0 1 = mac) (hip : settings 4 = ip)
    (h : Along (step addr) (fun _ s => Keeps mac ip s) (reset settings k) is) :
    Along (step addr) (fun _ s => Keeps mac ip s ∧ Own mac ip s) (reset settings k : State N) is :=
  h.and_invariant _ ⟨hmac, hip⟩ fun _ _ hs _ => hs.own

/-- The orders that `arp_block` takes in have the addresses of the board. -/
theorem orders_own (h : ∀ i ∈ js, i.configMac = mac ∧ i.configIp = ip) (y : ArpExchange.State) :
    ∀ o ∈ ArpExchange.orders y js, o.sourceMac = mac ∧ o.sourceIp = ip := by
  intro o ho
  obtain ⟨js', i, hpre, hraised⟩ := (mem_log_iff _).1 ho
  obtain ⟨rfl, rfl⟩ := h i (hpre.subset (by simp))
  unfold ArpExchange.raised at hraised
  split_ifs at hraised
  · obtain rfl := List.mem_singleton.1 hraised
    exact ⟨rfl, rfl⟩
  · obtain rfl := List.mem_singleton.1 hraised
    exact ⟨rfl, rfl⟩
  · cases hraised
  · cases hraised

/-- The sender in the frame for an order. -/
theorem sender_of_frameOk {o : ArpExchange.Order} {ws : List Word}
    {dest : ArpExchange.Order → Option MacAddr}
    (h : ArpExchange.FrameOk dest (fun _ => True) o ws) :
    senderMac ws = o.sourceMac ∧ senderIp ws = o.sourceIp := by
  have hword : ∀ k < 7, wordAt ws (4 + k) = ArpExchange.arpWord o o.sourceMac o.sourceIp k := by
    intro k hk
    obtain ⟨mac', ip', hw, hkeep⟩ := h.payload k hk
    rw [hw, (hkeep trivial).1, (hkeep trivial).2]
  have h2 := hword 2 (by decide)
  have h3 := hword 3 (by decide)
  have h4 := hword 4 (by decide)
  rw [senderMac, senderIp, h2, h3, h4]
  simp only [ArpExchange.arpWord, hi_append, lo_append]
  exact ⟨RoundTrip.mac_append _, BitVec.extractLsb'_append_extractLsb'⟩

/-- The inputs of the receiver and of `arp_block` along a run of the board. -/
def exchangeInputs (addr : BitVec 7) (s : State N) (is : List (Input N)) :
    List ArpExchange.Input :=
  log (step addr) (fun i s => [exchangeInput i s]) s is

/-- The board does not change the addresses in a frame while it is sent. -/
theorem along_undisturbed [NeZero N] (hmac : macIn settings 0 1 = mac) (hip : settings 4 = ip)
    (h : Along (step addr) (fun _ s => Keeps mac ip s) (reset settings k) is) :
    Along ArpExchange.step (ArpExchange.Undisturbed (fun _ => none) fun _ => True)
      (exchange (reset settings k : State N)) (exchangeInputs addr (reset settings k) is) := by
  rw [exchangeInputs, along_edges (step addr) (p := exchange) exchange_step]
  refine (along_own hmac hip h).mono _ fun i s hs => ⟨⟨fun _ _ _ _ hm => ?_, fun _ _ _ _ => ?_⟩,
    trivial⟩
  · cases hm
  · exact ⟨hs.1.mac.trans hs.2.mac.symm, hs.1.ip.trans hs.2.ip.symm⟩

theorem exchangeInputs_own
    (h : Along (step addr) (fun _ s => Keeps mac ip s) s is) :
    ∀ i ∈ exchangeInputs addr s is, i.configMac = mac ∧ i.configIp = ip := by
  intro i hi
  obtain ⟨is', j, hpre, hmem⟩ := (mem_log_iff _).1 hi
  obtain rfl := List.mem_singleton.1 hmem
  have hkeeps := (along_iff (step addr) _ _ _).1 h is' j hpre
  exact ⟨hkeeps.mac, hkeeps.ip⟩

/-- The sender in an ARP frame of a board is the board. -/
theorem frames_speak [NeZero N] (hmac : macIn settings 0 1 = mac) (hip : settings 4 = ip)
    (h : Along (step addr) (fun _ s => Keeps mac ip s) (reset settings k) is) :
    ∀ f ∈ (cut Beat.eop (log (step addr) output (reset settings k : State N) is)).1,
      f.length = 11 ∧ senderMac (f.map Beat.data) = mac ∧ senderIp (f.map Beat.data) = ip := by
  have hserved : List.Forall₂ (ArpExchange.FrameOk (fun _ => none) fun _ => True)
      ((ArpExchange.orders (exchange (reset settings k : State N))
        (exchangeInputs addr (reset settings k) is)).take _)
      (ArpExchange.frames (exchange (reset settings k : State N))
        (exchangeInputs addr (reset settings k) is)) :=
    ArpExchange.served_run (along_undisturbed hmac hip h)
  have horders := orders_own (exchangeInputs_own h) (exchange (reset settings k : State N))
  have hpairs := (List.forall₂_and_left _ _).2
    ⟨fun o ho => horders o (List.mem_of_mem_take ho), hserved⟩
  have hframes := ((List.forall₂_and_left (R := fun _ _ => True) _ _).1 (hpairs.flip.imp
    fun ws o hws => (⟨⟨hws.2.length, (sender_of_frameOk hws.2).1.trans hws.1.1,
      (sender_of_frameOk hws.2).2.trans hws.1.2⟩, trivial⟩ :
      (ws.length = 11 ∧ senderMac ws = mac ∧ senderIp ws = ip) ∧ True))).1
  have houtput : log (step addr) output (reset settings k : State N) is =
      log ArpExchange.step ArpExchange.output (exchange (reset settings k : State N))
        (exchangeInputs addr (reset settings k) is) :=
    log_driven (step addr) (p := exchange) (g := exchangeInput) (fun _ _ => rfl)
      ArpExchange.output (reset settings k) is
  intro f hf
  rw [houtput] at hf
  have hframe := hframes _ (List.mem_map_of_mem hf)
  rwa [List.length_map] at hframe

end

/-! ## The network -/

/-- The boards, what each of them has sent, and the words still to come of the frame that is
    coming in at it. -/
structure Net (B : Type) (N : ℕ) where
  board : B → State N
  sent : B → List Beat
  coming : B → List Beat

/-- A board takes an edge of its clock, or the network brings a frame to a board. -/
inductive Event (B : Type) (N : ℕ)
  | edge (b : B) (i : Input N)
  | arrive (b : B) (ws : List Word)

/-- The frames that a board has sent. -/
def Net.frames {B : Type} {N : ℕ} (net : Net B N) (b : B) : List (List Word) :=
  (cut Beat.eop (net.sent b)).1.map (List.map Beat.data)

/-- The addresses of the configuration blocks, the settings and the counters of the boards
    when reset is released, and the hosts: which hardware address a protocol address belongs
    to. -/
structure Site (B : Type) where
  addr : B → BitVec 7
  settings : B → Fin 11 → Word
  k : B → ℤ
  Owns : IpAddr → MacAddr → Prop

section

variable {B : Type} {N : ℕ} (c : Site B)

/-- The hardware address of a board. -/
def Site.mac (b : B) : MacAddr := macIn (c.settings b) 0 1

/-- The protocol address of a board. -/
def Site.ip (b : B) : IpAddr := c.settings b 4

/-- An ARP packet names its sender. -/
def Speaks (ws : List Word) : Prop := IsArpPacket ws → c.Owns (senderIp ws) (senderMac ws)

instance (ws : List Word) : Decidable (IsArpPacket ws) :=
  decidable_of_iff (11 ≤ ws.length ∧ IsArp ws ∧
      (lo (wordAt ws 5) = arpRequest ∨ lo (wordAt ws 5) = arpReply))
    ⟨fun h => ⟨h.1, h.2.1, h.2.2⟩, fun h => ⟨h.length, h.ethertype, h.operation⟩⟩

instance [∀ ip mac, Decidable (c.Owns ip mac)] (ws : List Word) : Decidable (Speaks c ws) :=
  inferInstanceAs (Decidable (_ → _))

/-- The boards are hosts of the network, and none of them has the address 0.0.0.0. -/
structure Site.Proper : Prop where
  owns : ∀ b, c.Owns (c.ip b) (c.mac b)
  ip : ∀ b, c.ip b ≠ 0

/-- What may happen: a board keeps its own addresses, and takes the words of a frame in turn;
    the frames that come in are those of boards, padded or not, and any others that do not
    name a wrong sender. -/
def Enabled : Event B N → Net B N → Prop
  | .edge b i, net => Keeps (c.mac b) (c.ip b) (net.board b) ∧
      (i.block.rxDval = true →
        (net.coming b).head? = some ⟨i.block.rxData, i.block.rxSop, i.block.rxEop⟩)
  | .arrive b ws, net => net.coming b = [] ∧ 2 ≤ ws.length ∧
      (Speaks c ws ∨ ∃ b', ∃ f ∈ net.frames b', f <+: ws)

instance [Fintype B] [∀ ip mac, Decidable (c.Owns ip mac)] (net : Net B N) :
    ∀ e, Decidable (Enabled c e net)
  | .edge _ _ => inferInstanceAs (Decidable (_ ∧ _))
  | .arrive _ _ => inferInstanceAs (Decidable (_ ∧ _ ∧ (_ ∨ _)))

/-- The network after an event. -/
def netStep [DecidableEq B] : Event B N → Net B N → Net B N
  | .edge b i, net =>
    { board := Function.update net.board b (step (c.addr b) i (net.board b))
      sent := Function.update net.sent b (net.sent b ++ output i (net.board b))
      coming := Function.update net.coming b
        (if i.block.rxDval then (net.coming b).tail else net.coming b) }
  | .arrive b ws, net => { net with coming := Function.update net.coming b (framed ws) }

/-- The network when reset is released. -/
def start [NeZero N] : Net B N where
  board b := reset (c.settings b) (c.k b)
  sent _ := []
  coming _ := []

/-! ## What has come in -/

variable {c} {b : B} {net : Net B N} {is : List (Input N)} {i : Input N} {ws : List Word}

/-- A frame is coming in, of which the words `l` have been read and `l'` are still to come. -/
inductive Incoming (c : Site B) (l l' : List Beat) : Prop
  | none : l = [] → l' = [] → Incoming c l l'
  | frame (ws : List Word) : 2 ≤ ws.length → Speaks c ws → l ++ l' = framed ws → l' ≠ [] →
      Incoming c l l'

/-- The board `b` has taken the edges `is`: what it has sent, and what has come in at it. -/
structure Local [NeZero N] (c : Site B) (net : Net B N) (b : B) (is : List (Input N)) : Prop where
  board : net.board b = run (step (c.addr b)) (reset (c.settings b) (c.k b)) is
  sent : net.sent b = log (step (c.addr b)) output (reset (c.settings b) (c.k b)) is
  keeps : Along (step (c.addr b)) (fun _ s => Keeps (c.mac b) (c.ip b) s)
    (reset (c.settings b) (c.k b)) is
  proper : Along (step (c.addr b)) (fun i s => CacheCoherence.Proper i.block s.block)
    (reset (c.settings b) (c.k b)) is
  received : ∀ ws ∈ receivedFrames (log (step (c.addr b)) fed (reset (c.settings b) (c.k b)) is),
    Speaks c ws
  incoming : Incoming c
    (cut Beat.eop (log (step (c.addr b)) fed (reset (c.settings b) (c.k b)) is)).2 (net.coming b)

/-- Every board has come to its state by edges of its own. -/
def Inv [NeZero N] (c : Site B) (net : Net B N) : Prop := ∀ b, ∃ is, Local c net b is

theorem inv_start [NeZero N] : Inv c (start c : Net B N) := fun _ => ⟨[], {
  board := rfl
  sent := rfl
  keeps := trivial
  proper := trivial
  received := by simp [receivedFrames]
  incoming := .none rfl rfl }⟩

/-- A frame that begins with one of a board names the board. -/
theorem Local.speaks [NeZero N] (h : Local c net b is) (hc : c.Proper) {f : List Word}
    (hf : f ∈ net.frames b) (hpad : f <+: ws) : Speaks c ws := by
  rw [Net.frames, h.sent] at hf
  obtain ⟨f, hmem, rfl⟩ := List.mem_map.1 hf
  obtain ⟨hlen, hmac, hip⟩ := frames_speak rfl rfl h.keeps f hmem
  obtain ⟨pad, rfl⟩ := hpad
  have hword : ∀ k < 11, wordAt (f.map Beat.data ++ pad) k = wordAt (f.map Beat.data) k := by
    intro k hk
    rw [wordAt, wordAt, List.getD_eq_getElem?_getD, List.getD_eq_getElem?_getD,
      List.getElem?_append_left (by rw [List.length_map]; omega)]
  intro _
  have hsm : senderMac (f.map Beat.data ++ pad) = c.mac b := by
    rw [Site.mac, ← hmac, senderMac, senderMac, hword 6 (by decide), hword 7 (by decide)]
  have hsi : senderIp (f.map Beat.data ++ pad) = c.ip b := by
    rw [Site.ip, ← hip, senderIp, senderIp, hword 7 (by decide), hword 8 (by decide)]
  rw [hsm, hsi]
  exact hc.owns b

/-- The blocks that find the address of the server, along the run of a board. -/
theorem Local.coherent [NeZero N] (h : Local c net b is) :
    CacheCoherence.Coherent (c.addr b) (CacheCoherence.reset (c.settings b) (c.k b))
      (is.map Input.block) (net.board b).block := by
  have hrun : (net.board b).block = run (CacheCoherence.step (c.addr b))
      (CacheCoherence.reset (c.settings b) (c.k b)) (is.map Input.block) := by
    rw [h.board]
    exact run_part (step (c.addr b)) (t := CacheCoherence.step (c.addr b)) (p := State.block)
      (g := Input.block) (fun _ _ => rfl) _ is
  rw [hrun]
  refine CacheCoherence.coherent_run ?_
  have hproper := (along_edges (step (c.addr b)) (t := CacheCoherence.step (c.addr b))
    (p := State.block) (g := fun i _ => [i.block]) (fun _ _ => rfl) CacheCoherence.Proper
    (reset (c.settings b) (c.k b)) is).2 (h.proper.mono _ fun _ _ hp => ⟨hp, trivial⟩)
  rwa [log_inputs] at hproper

theorem log_fed [NeZero N] (b : B) (is : List (Input N)) :
    log (step (c.addr b)) fed (reset (c.settings b) (c.k b) : State N) is =
      log (CacheCoherence.step (c.addr b)) CacheCoherence.fed
        (CacheCoherence.reset (c.settings b) (c.k b)) (is.map Input.block) :=
  log_part (step (c.addr b)) (t := CacheCoherence.step (c.addr b)) (p := State.block)
    (g := Input.block) (fun _ _ => rfl) CacheCoherence.fed _ is

/-! ## Steps -/

/-- The next word of the frame that is coming in. -/
theorem Incoming.next {l rest : List Beat} {w : Beat} (h : Incoming c l (w :: rest)) :
    ∃ ws, 2 ≤ ws.length ∧ Speaks c ws ∧ l ++ w :: rest = framed ws ∧ l.length < ws.length ∧
      w = ⟨wordAt ws l.length, decide (l.length = 0), decide (l.length + 1 = ws.length)⟩ := by
  cases h with
  | none _ h => cases h
  | frame ws h2 hspeaks hframe _ =>
    have hlen := congrArg List.length hframe
    rw [framed_length, List.length_append, List.length_cons] at hlen
    have hlt : l.length < ws.length := by omega
    have hget := framed_getElem? ws hlt
    rw [← hframe, List.getElem?_append_right le_rfl, Nat.sub_self, List.getElem?_cons_zero] at hget
    exact ⟨ws, h2, hspeaks, hframe, hlt, Option.some.inj hget⟩

/-- The words of a frame are those that are framed. -/
theorem framed_data (ws : List Word) : (framed ws).map Beat.data = ws := by
  refine List.ext_getElem? fun n => ?_
  rcases Nat.lt_or_ge n ws.length with hn | hn
  · rw [List.getElem?_map, framed_getElem? ws hn, Option.map_some, wordAt,
      List.getD_eq_getElem?_getD, List.getElem?_eq_getElem hn]
    rfl
  · rw [List.getElem?_eq_none (by rwa [List.length_map, framed_length]),
      List.getElem?_eq_none hn]

/-- A word comes in. -/
theorem Incoming.step {l rest : List Beat} {w : Beat}
    (h : Incoming c (cut Beat.eop l).2 (w :: rest)) :
    Incoming c (cut Beat.eop (l ++ [w])).2 rest ∧
      ∀ ws ∈ receivedFrames (l ++ [w]), ws ∈ receivedFrames l ∨ Speaks c ws := by
  obtain ⟨ws, h2, hspeaks, hframe, hlt, hw⟩ := h.next
  have hlen := congrArg List.length hframe
  rw [framed_length, List.length_append, List.length_cons] at hlen
  by_cases hlast : (cut Beat.eop l).2.length + 1 = ws.length
  · have heop : w.eop = true := by simp [hw, hlast]
    obtain rfl := List.eq_nil_of_length_eq_zero (l := rest) (by omega)
    rw [cut_concat_last Beat.eop l w heop]
    refine ⟨.none rfl rfl, fun ws' hws' => ?_⟩
    rw [receivedFrames, cut_concat_last Beat.eop l w heop, List.map_append] at hws'
    rcases List.mem_append.1 hws' with hold | hnew
    · exact .inl hold
    · rw [List.map_singleton, hframe, framed_data] at hnew
      rw [List.mem_singleton.1 hnew]
      exact .inr hspeaks
  · have heop : w.eop = false := by simp [hw, hlast]
    rw [cut_concat_open Beat.eop l w heop]
    refine ⟨.frame ws h2 hspeaks (by rw [← hframe, List.append_assoc]; rfl) ?_, fun ws' hws' => ?_⟩
    · rintro rfl
      exact hlast (by simpa using hlen)
    · rw [receivedFrames, cut_concat_open Beat.eop l w heop] at hws'
      exact .inl hws'

/-- A board takes whole frames. -/
theorem Local.proper_edge [NeZero N] (h : Local c net b is) (hc : c.Proper)
    (he : Enabled c (.edge b i) net) : CacheCoherence.Proper i.block (net.board b).block := by
  have hown : Own (c.mac b) (c.ip b) (net.board b) := by
    rw [h.board]
    exact run_invariant _ (I := Own (c.mac b) (c.ip b)) ⟨rfl, rfl⟩ (fun _ _ hs _ => hs.own) h.keeps
  have hnum := h.coherent.listening.read.wordNum
  rw [← log_fed, List.length_map] at hnum
  refine ⟨hown.ip ▸ hc.ip b, ?_⟩
  have hbeat : i.block.rxDval = true → ∃ rest,
      net.coming b = ⟨i.block.rxData, i.block.rxSop, i.block.rxEop⟩ :: rest := fun hv =>
    List.head?_eq_some_iff.1 (he.2 hv)
  constructor
  · intro hv
    obtain ⟨rest, hcoming⟩ := hbeat hv
    obtain ⟨ws, -, -, -, -, hw⟩ := (hcoming ▸ h.incoming).next
    have hsop : i.block.rxSop = _ := (Beat.mk.inj hw).2.1
    change i.block.rxSop = true ↔ _
    rw [hsop, hnum, decide_eq_true_eq]
  · intro hv heop
    obtain ⟨rest, hcoming⟩ := hbeat hv
    obtain ⟨ws, h2, -, -, -, hw⟩ := (hcoming ▸ h.incoming).next
    have hend : i.block.rxEop = _ := (Beat.mk.inj hw).2.2
    change i.block.rxEop = true at heop
    rw [hend, decide_eq_true_eq] at heop
    rw [hnum]
    omega

/-- What happens elsewhere leaves a board as it is. -/
theorem Local.congr [NeZero N] {net' : Net B N} (h : Local c net b is)
    (hboard : net'.board b = net.board b) (hsent : net'.sent b = net.sent b)
    (hcoming : net'.coming b = net.coming b) : Local c net' b is where
  board := hboard.trans h.board
  sent := hsent.trans h.sent
  keeps := h.keeps
  proper := h.proper
  received := h.received
  incoming := hcoming ▸ h.incoming

/-- What has been heard is true. -/
theorem Local.heard [NeZero N] (h : Local c net b is) {ip : IpAddr} {mac : MacAddr}
    (hheard : CacheCoherence.Heard (c.addr b) (CacheCoherence.reset (c.settings b) (c.k b))
      (is.map Input.block) ip mac) : c.Owns ip mac := by
  obtain ⟨js, j, ks, heq, ⟨ws, hws, hpacket, rfl, rfl⟩, -⟩ := hheard
  refine h.received ws ?_ hpacket
  rw [log_fed, heq, ← List.singleton_append, ← List.append_assoc, log_append]
  refine receivedFrames_mono ?_
  rw [hws]
  exact List.mem_append_right _ (List.mem_singleton_self ws)

variable [DecidableEq B]

/-- An edge of the clock of a board. -/
theorem Local.edge [NeZero N] (h : Local c net b is) (hc : c.Proper)
    (he : Enabled c (.edge b i) net) : Local c (netStep c (.edge b i) net) b (is ++ [i]) := by
  have hproper := h.proper_edge hc he
  have hkeeps := he.1
  rw [h.board] at hproper hkeeps
  have hfed : fed i (run (step (c.addr b)) (reset (c.settings b) (c.k b)) is) =
      if i.block.rxDval then [⟨i.block.rxData, i.block.rxSop, i.block.rxEop⟩] else [] := by
    cases hv : i.block.rxDval <;>
      simp [fed, CacheCoherence.fed, FrameReciever.fed, CacheCoherence.rxInput, hv]
  have hin : Incoming c (cut Beat.eop (log (step (c.addr b)) fed
        (reset (c.settings b) (c.k b)) (is ++ [i]))).2 ((netStep c (.edge b i) net).coming b) ∧
      ∀ ws ∈ receivedFrames (log (step (c.addr b)) fed (reset (c.settings b) (c.k b)) (is ++ [i])),
        Speaks c ws := by
    have hcoming : (netStep c (.edge b i) net).coming b =
        if i.block.rxDval then (net.coming b).tail else net.coming b := Function.update_self ..
    rw [hcoming, log_concat, hfed]
    cases hv : i.block.rxDval
    · rw [if_neg Bool.false_ne_true, if_neg Bool.false_ne_true, List.append_nil]
      exact ⟨h.incoming, h.received⟩
    · obtain ⟨rest, hrest⟩ := List.head?_eq_some_iff.1 (he.2 hv)
      rw [if_pos rfl, if_pos rfl, hrest, List.tail_cons]
      obtain ⟨hin, hframes⟩ := (hrest ▸ h.incoming).step
      exact ⟨hin, fun ws hws => (hframes ws hws).elim (h.received ws) id⟩
  exact {
    board := by rw [run_concat, ← h.board]; exact Function.update_self ..
    sent := by
      rw [log_concat, ← h.board, ← h.sent]
      exact Function.update_self ..
    keeps := (along_concat _ _ _ _ _).2 ⟨h.keeps, hkeeps⟩
    proper := (along_concat _ _ _ _ _).2 ⟨h.proper, hproper⟩
    received := hin.2
    incoming := hin.1 }

/-- The network brings a frame. -/
theorem Local.arrive [NeZero N] (h : Local c net b is) (hcoming : net.coming b = [])
    (h2 : 2 ≤ ws.length) (hspeaks : Speaks c ws) :
    Local c (netStep c (.arrive b ws) net) b is where
  board := h.board
  sent := h.sent
  keeps := h.keeps
  proper := h.proper
  received := h.received
  incoming := by
    have hopen : (cut Beat.eop (log (step (c.addr b)) fed (reset (c.settings b) (c.k b)) is)).2 =
        [] := by
      cases h.incoming with
      | none hopen _ => exact hopen
      | frame _ _ _ _ hne => exact absurd hcoming hne
    have hnew : (netStep c (.arrive b ws) net).coming b = framed ws := Function.update_self ..
    rw [hnew, hopen]
    refine .frame ws h2 hspeaks rfl fun hnil => ?_
    have hlen := framed_length ws
    rw [hnil, List.length_nil] at hlen
    omega

/-- Whatever happens, every board keeps to what it has been told. -/
theorem Inv.step [NeZero N] (h : Inv c net) (hc : c.Proper) {e : Event B N}
    (he : Enabled c e net) : Inv c (netStep c e net) := by
  intro b
  obtain ⟨is, hlocal⟩ := h b
  cases e with
  | edge b' i =>
    by_cases hb : b = b'
    · subst hb
      exact ⟨is ++ [i], hlocal.edge hc he⟩
    · exact ⟨is, hlocal.congr (Function.update_of_ne hb _ _) (Function.update_of_ne hb _ _)
        (Function.update_of_ne hb _ _)⟩
  | arrive b' ws =>
    by_cases hb : b = b'
    · subst hb
      obtain ⟨hcoming, h2, hspeaks | ⟨b', f, hf, hpad⟩⟩ := he
      · exact ⟨is, hlocal.arrive hcoming h2 hspeaks⟩
      · obtain ⟨is', hsender⟩ := h b'
        exact ⟨is, hlocal.arrive hcoming h2 (hsender.speaks hc hf hpad)⟩
    · exact ⟨is, hlocal.congr rfl rfl (Function.update_of_ne hb _ _)⟩

theorem inv_run [NeZero N] (hc : c.Proper) {es : List (Event B N)}
    (h : Along (netStep c) (Enabled c) (start c) es) : Inv c (run (netStep c) (start c) es) :=
  run_invariant (netStep c) inv_start (fun _ _ he hi => hi.step hc he) h

/-- In every state that a network of boards and other hosts comes to, whatever has been lost,
    repeated, held back or overtaken on the way: a valid cache has the hardware address that
    the protocol address of the server belongs to. So where an address belongs to one host,
    the boards that send to it agree about it. -/
theorem caches_own [NeZero N] (hc : c.Proper) {es : List (Event B N)}
    (h : Along (netStep c) (Enabled c) (start c) es) :
    (∀ b, ((run (netStep c) (start c) es).board b).block.cache.arpCacheValid = true →
      c.Owns ((run (netStep c) (start c) es).board b).block.destIpAddr
        ((run (netStep c) (start c) es).board b).block.cache.arpCacheValue) ∧
    ((∀ ip mac mac', c.Owns ip mac → c.Owns ip mac' → mac = mac') → ∀ b b',
      ((run (netStep c) (start c) es).board b).block.cache.arpCacheValid = true →
      ((run (netStep c) (start c) es).board b').block.cache.arpCacheValid = true →
      ((run (netStep c) (start c) es).board b).block.destIpAddr =
        ((run (netStep c) (start c) es).board b').block.destIpAddr →
      ((run (netStep c) (start c) es).board b).block.cache.arpCacheValue =
        ((run (netStep c) (start c) es).board b').block.cache.arpCacheValue) := by
  have howns : ∀ b, ((run (netStep c) (start c) es).board b).block.cache.arpCacheValid = true →
      c.Owns ((run (netStep c) (start c) es).board b).block.destIpAddr
        ((run (netStep c) (start c) es).board b).block.cache.arpCacheValue := by
    intro b hvalid
    obtain ⟨is, hlocal⟩ := inv_run hc h b
    exact hlocal.heard (hlocal.coherent.cached hvalid)
  refine ⟨howns, fun hone b b' hvalid hvalid' hip => ?_⟩
  exact hone _ _ _ (howns b hvalid) (hip ▸ howns b' hvalid')

end

/-! ## Two boards -/

/-- Two boards, each of which is the server of the other. -/
def twoBoards : Site Bool where
  addr _ := 0x10
  settings
    | false => ![0x22334455, 0x0000EE11, 0x1151AAAA, 0x00006CB3, 0xC0A80003, 0xC0A80001,
        0, 0x1000, 0, 0, 7]
    | true => ![0x11517434, 0x00006CB3, 0x1151AAAA, 0x00006CB3, 0xC0A80001, 0xC0A80003,
        0, 0x1000, 0, 0, 7]
  k _ := -1
  Owns ip mac := (ip = 0xC0A80003 ∧ mac = 0xEE1122334455) ∨
    (ip = 0xC0A80001 ∧ mac = 0x6CB311517434)

instance (ip : IpAddr) (mac : MacAddr) : Decidable (twoBoards.Owns ip mac) :=
  inferInstanceAs (Decidable (_ ∨ _))

/-- An edge at which the word `w` comes in, if any, and no data is written. -/
def wordInput (w : Option Beat) : Input 1 where
  block := {
    config := ⟨0, false⟩
    rxData := (w.map Beat.data).getD 0
    rxEop := (w.map Beat.eop).getD false
    rxSop := (w.map Beat.sop).getD false
    rxDval := w.isSome
    data := {
      clock := true
      wrclks := fun _ => true
      wrreqs := fun _ => false
      dataIn := fun _ => 0
      rdusedw := fun _ => 0
      txReady := false
      ifmFlags := fun _ => 0
      ifmPayloadSize := fun _ => 1
      sourceMacAddr := 0
      destMacAddr := 0
      sourceIpAddr := 0
      destIpAddr := 0
      baseUdpPort := 0 }
    writes := [] }
  txReady := true

/-- The request that the first board sends when reset is released. -/
def requestFrame : List Word :=
  [0, 0, 0xEE112233, 0x44550806, 0x00010800, 0x06040001, 0xEE112233, 0x4455C0A8, 0x00030000, 0,
    0xC0A80001]

/-- The first board sends its request, and the second one takes it in, padded. -/
def exchangeRun : List (Event Bool 1) :=
  List.replicate 23 (.edge false (wordInput none)) ++
    .arrive true (requestFrame ++ List.replicate 5 0) ::
    (framed (requestFrame ++ List.replicate 5 0)).map (fun w => .edge true (wordInput (some w))) ++
    List.replicate 2 (.edge true (wordInput none))

theorem caches_own_exchange :
    ((run (netStep twoBoards) (start twoBoards) exchangeRun).board true).block.cache.arpCacheValid =
        true ∧
      (∀ b, ((run (netStep twoBoards) (start twoBoards) exchangeRun).board
          b).block.cache.arpCacheValid = true →
        twoBoards.Owns
          ((run (netStep twoBoards) (start twoBoards) exchangeRun).board b).block.destIpAddr
          ((run (netStep twoBoards) (start twoBoards)
            exchangeRun).board b).block.cache.arpCacheValue) :=
  ⟨by decide +kernel, (caches_own ⟨by decide, by decide⟩ (by decide +kernel)).1⟩

end FpgaEthernet.ArpNetwork
