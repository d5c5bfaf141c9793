import FpgaEthernet.CommonModules.ConfigRegisterBlock
import FpgaEthernet.Ethernet.ArpCache
import FpgaEthernet.Ethernet.EthernetBlock

/-!
# The address of the server

The part of `ethernet/ethernet_block.vhd` that finds the MAC address of the
server: the configuration registers, the receiver, the ARP cache, the registers
of `config_dff` between them, and the data block, which sends to the address
found.

A configuration write reaches the cache in two ways: as the pulse that resets it
and, through two registers, as the address it compares with.

Main results:

* `Announced.configChanged`: a change of the server's address is announced by the
  pulse that resets the cache.
* `Coherent.step`: what a valid cache holds has been heard from the server since
  its address last changed.
* `server_mac_iff`: in which runs every frame of the data stream is sent to such
  an address, or to the one in the registers.
-/

namespace FpgaEthernet.CacheCoherence

open Clocked EthernetBlock FrameReciever

variable {N : ℕ}

/-! ## Model -/

/-- An edge of `clock`: the configuration word, the MAC word, the ports of the data
    block, whose addresses are not read, and what happened on the write clocks
    alone since the last one. -/
structure Input (N : ℕ) where
  config : ConfigRegisterBlock.Input
  rxData : Word
  rxEop : Bool
  rxSop : Bool
  rxDval : Bool
  data : EthernetDataBlock.Input N
  writes : List (EthernetDataBlock.Input N)

/-- The blocks, and the registers of `config_dff` (`ethernet_block.vhd` lines
    513-533). -/
structure State (N : ℕ) where
  config : ConfigRegisterBlock.State 11
  rx : FrameReciever.State
  cache : ArpCache.State
  data : EthernetDataBlock.State N
  sourceMacAddr : MacAddr
  destMacAddr : MacAddr
  arpDisable : Bool
  sourceIpAddr : IpAddr
  destIpAddr : IpAddr
  baseUdpPort : UdpPort
  headerConfig : Word

/-- The ports of the receiver (lines 605-632). -/
def rxInput (i : Input N) (s : State N) : FrameReciever.Input where
  rxData := i.rxData
  rxEop := i.rxEop
  rxSop := i.rxSop
  rxDval := i.rxDval
  ourIpAddr := s.sourceIpAddr

/-- The ports of the cache (lines 740-754), with `ARP_cache_reset` and
    `ARP_source_ip_valid` (lines 508-509). -/
def cacheInput (s : State N) : ArpCache.Input where
  serverIpAddr := s.destIpAddr
  sourceMacAddr := s.rx.sourceMacAddr
  sourceIpAddr := s.rx.sourceIpAddr
  sourceAddrValid := arpSignal s.rx
  arpCacheReset := s.config.configChanged

/-- The ports of the data block (lines 572-601), with or without an edge of
    `clock`. -/
def dataInput (clock : Bool) (i : EthernetDataBlock.Input N) (s : State N) :
    EthernetDataBlock.Input N :=
  { i with
    clock := clock
    sourceMacAddr := s.sourceMacAddr
    destMacAddr := s.destMacAddr
    sourceIpAddr := s.sourceIpAddr
    destIpAddr := s.destIpAddr
    baseUdpPort := s.baseUdpPort }

/-- The data block after an event. -/
def dataStep (clock : Bool) (s : State N) (i : EthernetDataBlock.Input N)
    (d : EthernetDataBlock.State N) : EthernetDataBlock.State N :=
  EthernetDataBlock.step dataConfig s.headerConfig (dataInput clock i s) d

/-- What `dest_mac_addr` is loaded with (lines 518-522). -/
def serverMac (s : State N) : MacAddr :=
  if s.arpDisable = false ∧ s.cache.arpCacheValid = true then s.cache.arpCacheValue
  else macIn s.config.configRegisters 2 3

/-- One edge of `clock`; `addr` is the address of the configuration block. -/
def step (addr : BitVec 7) (i : Input N) (s : State N) : State N where
  config := ConfigRegisterBlock.step addr i.config s.config
  rx := FrameReciever.step (rxInput i s) s.rx
  cache := ArpCache.step (cacheInput s) s.cache
  data := dataStep true s i.data (i.writes.foldl (fun d w => dataStep false s w d) s.data)
  sourceMacAddr := macIn s.config.configRegisters 0 1
  destMacAddr := serverMac s
  arpDisable := (s.config.configRegisters 3).getLsbD 16
  sourceIpAddr := s.config.configRegisters 4
  destIpAddr := s.config.configRegisters 5
  baseUdpPort := lo (s.config.configRegisters 7)
  headerConfig := s.config.configRegisters 10

/-- The registers when reset is released after some edges, with the default
    settings. -/
def reset [NeZero N] (settings : Fin 11 → Word) (k : ℤ) : State N where
  config := ConfigRegisterBlock.initial settings
  rx := FrameReciever.reset
  cache := ArpCache.reset
  data := EthernetDataBlock.reset k
  sourceMacAddr := macIn settings 0 1
  destMacAddr := macIn settings 2 3
  arpDisable := (settings 3).getLsbD 16
  sourceIpAddr := settings 4
  destIpAddr := settings 5
  baseUdpPort := lo (settings 7)
  headerConfig := settings 10

/-! ## What is heard -/

/-- The words fed to the receiver. -/
def fed (i : Input N) (s : State N) : List Beat := FrameReciever.fed [rxInput i s]

/-- Our own address is not 0.0.0.0, and the frames received have at least two
    words, `sop` with the first and `eop` with the last. -/
structure Proper (i : Input N) (s : State N) : Prop where
  ourIp : s.sourceIpAddr ≠ 0
  frames : WholeFrames (rxInput i s) s.rx

instance (i : Input N) (s : State N) : Decidable (Proper i s) :=
  decidable_of_iff (s.sourceIpAddr ≠ 0 ∧ WholeFrames (rxInput i s) s.rx)
    ⟨fun h => ⟨h.1, h.2⟩, fun h => ⟨h.1, h.2⟩⟩

/-- An ARP packet with this sender has been received, and before and ever since
    its last word `dest_ip_addr` has been the address of the sender. -/
def Heard (addr : BitVec 7) (s₀ : State N) (is : List (Input N)) (ip : IpAddr) (mac : MacAddr) :
    Prop :=
  ∃ js i ks, is = js ++ i :: ks ∧
    (∃ ws, receivedFrames (log (step addr) fed s₀ (js ++ [i])) =
        receivedFrames (log (step addr) fed s₀ js) ++ [ws] ∧
      IsArpPacket ws ∧ senderIp ws = ip ∧ senderMac ws = mac) ∧
    ∀ ls, js <+: ls → ls <+: is → (run (step addr) s₀ ls).destIpAddr = ip

variable {addr : BitVec 7} {s₀ s : State N} {is : List (Input N)} {i : Input N} {ip : IpAddr}
  {mac : MacAddr}

/-- As long as the address of the server stays, what has been heard has been
    heard since it changed. -/
theorem Heard.kept (h : Heard addr s₀ is s.destIpAddr mac) (hs : run (step addr) s₀ is = s)
    (hkeep : (step addr i s).destIpAddr = s.destIpAddr) :
    Heard addr s₀ (is ++ [i]) (step addr i s).destIpAddr mac := by
  rw [hkeep]
  obtain ⟨js, j, ks, rfl, hpacket, hsince⟩ := h
  refine ⟨js, j, ks ++ [i], by simp, hpacket, fun ls hjs hls => ?_⟩
  rcases List.prefix_concat_iff.1 hls with rfl | hls
  · rw [run_concat, hs, hkeep]
  · exact hsince ls hjs hls

/-- What has been heard was heard at an edge with the same address before and
    after it. -/
theorem Heard.last (h : Heard addr s₀ (is ++ [i]) ip mac) :
    (run (step addr) s₀ is).destIpAddr = ip := by
  obtain ⟨js, j, ks, heq, -, hsince⟩ := h
  refine hsince is ?_ (List.prefix_append is [i])
  have hpre : js ++ [j] <+: is ++ [i] := by
    rw [heq]
    exact ⟨ks, by simp⟩
  rcases List.prefix_concat_iff.1 hpre with hall | hpre
  · rw [List.append_inj_left' hall rfl]
  · exact (List.prefix_append js [j]).trans hpre

/-! ## Changes of the address -/

/-- `dest_ip_addr` is one register behind the configuration block. -/
def Announced (s : State N) : Prop :=
  ∃ old, ConfigRegisterBlock.Announced old s.config ∧ s.destIpAddr = old 5

theorem announced_reset [NeZero N] (settings : Fin 11 → Word) (k : ℤ) :
    Announced (reset settings k : State N) :=
  ⟨settings, ConfigRegisterBlock.announced_initial settings, rfl⟩

theorem Announced.step (h : Announced s) : Announced (step addr i s) := by
  obtain ⟨old, hold, -⟩ := h
  exact ⟨s.config.configRegisters, hold.step, rfl⟩

/-- An edge at which the address of the server changes comes while
    `config_changed` is high, and leaves it high. -/
theorem Announced.configChanged (h : Announced s)
    (hne : (CacheCoherence.step addr i s).destIpAddr ≠ s.destIpAddr) :
    s.config.configChanged = true ∧ (CacheCoherence.step addr i s).config.configChanged = true := by
  obtain ⟨old, hold, hip⟩ := h
  apply hold.configChanged
  intro heq
  apply hne
  rw [hip, ← heq]
  rfl

/-! ## Coherence -/

/-- After the edges `is`: what the receiver shows when it signals a packet from
    the server, and what a valid cache holds, has been heard. -/
structure Coherent (addr : BitVec 7) (s₀ : State N) (is : List (Input N)) (s : State N) :
    Prop where
  announced : Announced s
  listening : Listening (log (step addr) fed s₀ is) s.rx
  signalled : arpSignal s.rx = true → s.config.configChanged = false →
    s.rx.sourceIpAddr = s.destIpAddr → Heard addr s₀ is s.destIpAddr s.rx.sourceMacAddr
  cached : s.cache.arpCacheValid = true → Heard addr s₀ is s.destIpAddr s.cache.arpCacheValue

theorem coherent_reset [NeZero N] (settings : Fin 11 → Word) (k : ℤ) :
    Coherent addr (reset settings k : State N) [] (reset settings k) where
  announced := announced_reset settings k
  listening := listening_reset
  signalled h := by simp [reset, arpSignal, FrameReciever.reset] at h
  cached h := by simp [reset, ArpCache.reset] at h

/-- At the last word of a packet from the server. -/
theorem Coherent.signalled_step (h : Coherent addr s₀ is s) (hs : run (step addr) s₀ is = s)
    (hp : Proper i s) (hsignal : arpSignal (step addr i s).rx = true)
    (hchanged : (step addr i s).config.configChanged = false)
    (hip : (step addr i s).rx.sourceIpAddr = (step addr i s).destIpAddr) :
    Heard addr s₀ (is ++ [i]) (step addr i s).destIpAddr (step addr i s).rx.sourceMacAddr := by
  obtain ⟨hv, he, hpacket, hmac, hsender⟩ := arpSignal_packet hp.ourIp h.listening.read
    h.listening.target hp.frames h.listening.atEnd hsignal
  have hkeep : (step addr i s).destIpAddr = s.destIpAddr := by
    by_contra hne
    have := (h.announced.configChanged hne).2
    rw [hchanged] at this
    exact Bool.false_ne_true this
  refine ⟨is, i, [], rfl, ⟨_, ?_, hpacket, ?_, ?_⟩, fun ls his hls => ?_⟩
  · rw [log_concat, hs]
    exact receivedFrames_last hv he
  · exact hsender.symm.trans hip
  · exact hmac.symm
  · rcases List.prefix_concat_iff.1 hls with rfl | hls
    · rw [run_concat, hs]
    · obtain rfl := his.eq_of_length_le hls.length_le
      rw [hs, hkeep]

theorem Coherent.step (h : Coherent addr s₀ is s) (hs : run (step addr) s₀ is = s)
    (hp : Proper i s) : Coherent addr s₀ (is ++ [i]) (CacheCoherence.step addr i s) := by
  refine ⟨h.announced.step, ?_, h.signalled_step hs hp, fun hvalid => ?_⟩
  · rw [log_concat, hs]
    exact h.listening.step hp.ourIp hp.frames
  · obtain ⟨hlow, htaken⟩ := ArpCache.taken_of_valid hvalid
    have hlow' : s.config.configChanged = false := hlow
    have hkeep : (CacheCoherence.step addr i s).destIpAddr = s.destIpAddr := by
      by_contra hne
      have := (h.announced.configChanged hne).1
      rw [hlow'] at this
      exact Bool.false_ne_true this
    have hvalue : Heard addr s₀ is s.destIpAddr
        (CacheCoherence.step addr i s).cache.arpCacheValue := by
      rcases htaken with ⟨hold, hvalue⟩ | ⟨hsignal, hip, hvalue⟩
      · rw [show (CacheCoherence.step addr i s).cache.arpCacheValue = s.cache.arpCacheValue
          from hvalue]
        exact h.cached hold
      · rw [show (CacheCoherence.step addr i s).cache.arpCacheValue = s.rx.sourceMacAddr
          from hvalue]
        exact h.signalled hsignal hlow' hip
    exact hvalue.kept hs hkeep

theorem coherent_run [NeZero N] {settings : Fin 11 → Word} {k : ℤ}
    (h : Along (step addr) Proper (reset settings k : State N) is) :
    Coherent addr (reset settings k) is (run (step addr) (reset settings k) is) := by
  induction is using List.reverseRecOn with
  | nil => exact coherent_reset settings k
  | append_singleton is i ih =>
    rw [along_concat] at h
    rw [run_concat]
    exact (ih h.1).step rfl h.2

/-! ## The data stream -/

/-- At the next edge the header generator of the data block takes its addresses
    and begins a header: `HeaderTaken.words` says that they are those of `dest_mac_addr` and
    `dest_ip_addr`. -/
def HeaderTaken (s : State N) : Prop :=
  s.data.tx.hg.nextState = .idle ∧ s.data.tx.fg.headerStart = true

instance (s : State N) : Decidable (HeaderTaken s) := inferInstanceAs (Decidable (_ ∧ _))

/-- The write clocks do not move the generators. -/
theorem writes_tx (ws : List (EthernetDataBlock.Input N)) (d : EthernetDataBlock.State N) :
    (ws.foldl (fun d w => dataStep false s w d) d).tx = d.tx := by
  induction ws generalizing d with
  | nil => rfl
  | cons w ws ih =>
    rw [List.foldl_cons, ih]
    rfl

/-- The addresses that are taken: those of `dest_mac_addr` and `dest_ip_addr`. -/
theorem HeaderTaken.words (h : HeaderTaken s) :
    (step addr i s).data.tx.hg.ethHeader 0 =
        (0#16 ++ s.destMacAddr.extractLsb' 32 16 : BitVec 32) ∧
      (step addr i s).data.tx.hg.ethHeader 1 = s.destMacAddr.extractLsb' 0 32 ∧
      (step addr i s).data.tx.hg.ipHeader 4 = s.destIpAddr := by
  obtain ⟨hidle, -⟩ := h
  rw [← writes_tx (s := s) i.writes s.data] at hidle
  unfold CacheCoherence.step
  generalize i.writes.foldl (fun d w => dataStep false s w d) s.data = d at hidle
  have htaken : ∀ j : HeaderGenerator.Input, (HeaderGenerator.step j d.tx.hg).ethHeader =
      HeaderGenerator.ethHeaderWords j.toFields ∧
      (HeaderGenerator.step j d.tx.hg).ipHeader = HeaderGenerator.ipHeaderWords j := by
    intro j
    constructor <;> simp [HeaderGenerator.step, HeaderGenerator.stateMachine, hidle]
  obtain ⟨heth, hip⟩ := htaken (Transmitter.hgInput
    (EthernetDataBlock.txInput s.headerConfig (dataInput true i.data s) d) d.tx)
  refine ⟨(congrFun heth 0).trans rfl, (congrFun heth 1).trans rfl, (congrFun hip 4).trans rfl⟩

/-- The registers after the edges `js`. -/
def after [NeZero N] (addr : BitVec 7) (settings : Fin 11 → Word) (k : ℤ) (js : List (Input N)) :
    State N :=
  run (step addr) (reset settings k) js

/-- The address a header is sent to is the one in the registers, as of the edge
    before, or has been heard. -/
theorem destMacAddr_heard [NeZero N] {settings : Fin 11 → Word} {k : ℤ} {js : List (Input N)}
    {j : Input N} (h : Along (step addr) Proper (reset settings k : State N) js)
    (hkeep : (after addr settings k (js ++ [j])).destIpAddr =
      (after addr settings k js).destIpAddr) :
    (after addr settings k (js ++ [j])).destMacAddr =
        macIn (after addr settings k js).config.configRegisters 2 3 ∨
      Heard addr (reset settings k) (js ++ [j]) (after addr settings k (js ++ [j])).destIpAddr
        (after addr settings k (js ++ [j])).destMacAddr := by
  have hstep : after addr settings k (js ++ [j]) = step addr j (after addr settings k js) :=
    run_concat ..
  rw [hstep] at hkeep ⊢
  by_cases hcache : (after addr settings k js).arpDisable = false ∧
      (after addr settings k js).cache.arpCacheValid = true
  · right
    rw [show (step addr j (after addr settings k js)).destMacAddr =
      (after addr settings k js).cache.arpCacheValue from if_pos hcache]
    exact ((coherent_run h).cached hcache.2).kept rfl hkeep
  · left
    exact if_neg hcache

/-- The frames of the data stream, in every run: a valid cache holds what has been
    heard from the server since its address last changed; and the headers get
    the address of the server that way, or from the registers, exactly if none is
    begun, with an address from the cache, in the cycle after a change of
    `dest_ip_addr`. -/
theorem server_mac_iff [NeZero N] {settings : Fin 11 → Word} {k : ℤ} {is : List (Input N)}
    (h : Along (step addr) Proper (reset settings k : State N) is) :
    (∀ js, js <+: is → (after addr settings k js).cache.arpCacheValid = true →
      Heard addr (reset settings k) js (after addr settings k js).destIpAddr
        (after addr settings k js).cache.arpCacheValue) ∧
    ((∀ js j i, js ++ [j, i] <+: is → HeaderTaken (after addr settings k (js ++ [j])) →
      (after addr settings k (js ++ [j])).destMacAddr =
          macIn (after addr settings k js).config.configRegisters 2 3 ∨
        Heard addr (reset settings k) (js ++ [j]) (after addr settings k (js ++ [j])).destIpAddr
          (after addr settings k (js ++ [j])).destMacAddr) ↔
    ∀ js j i, js ++ [j, i] <+: is → HeaderTaken (after addr settings k (js ++ [j])) →
      (after addr settings k (js ++ [j])).destMacAddr =
          macIn (after addr settings k js).config.configRegisters 2 3 ∨
        (after addr settings k (js ++ [j])).destIpAddr =
          (after addr settings k js).destIpAddr) := by
  have hbegins : ∀ js, js <+: is → Along (step addr) Proper (reset settings k : State N) js := by
    rintro js ⟨ks, rfl⟩
    exact h.of_isPrefix
  refine ⟨fun js hjs => (coherent_run (hbegins js hjs)).cached, ?_⟩
  constructor
  · intro hheaders js j i hjs htaken
    rcases hheaders js j i hjs htaken with hmac | hheard
    · exact Or.inl hmac
    · exact Or.inr hheard.last.symm
  · intro hsteady js j i hjs htaken
    rcases hsteady js j i hjs htaken with hmac | hkeep
    · exact Or.inl hmac
    · exact destMacAddr_heard (hbegins js ((List.prefix_append js [j, i]).trans hjs)) hkeep

/-- The default settings of an interface. -/
def settings : Fin 11 → Word :=
  ![0x22334455, 0x0000EE11, 0x1151AAAA, 0x00006CB3, 0xC0A80003, 0xC0A80001, 0, 0x1000, 0, 0, 7]

/-- An ARP reply of the server. -/
def arpReplyFrame : List Word :=
  [0x0000EE11, 0x22334455, 0x6CB31151, 0x74340806, 0x00010800, 0x06040002, 0x6CB31151, 0x7434C0A8,
    0x0001EE11, 0x22334455, 0xC0A80003, 0x00000000]

/-- The reply is received, then the server's address is changed at edge 12; one
    word has been written into the FIFO, and the data block may send at edge
    `sends`. -/
def changeRun (sends : ℕ) : List (Input 1) :=
  (List.range 18).map fun t =>
    { config := if t = 12 then ⟨ConfigRegisterBlock.halfWord 0x10 10 0x0007, true⟩ else ⟨0, false⟩
      rxData := wordAt arpReplyFrame t
      rxEop := t = 11
      rxSop := t = 0
      rxDval := t < 12
      data := {
        clock := true
        wrclks := fun _ => true
        wrreqs := fun _ => t = 2
        dataIn := fun _ => 0x600D
        rdusedw := fun _ => if t < 6 then 0 else 1
        txReady := t = sends
        ifmFlags := fun _ => 3
        ifmPayloadSize := fun _ => 1
        sourceMacAddr := 0
        destMacAddr := 0
        sourceIpAddr := 0
        destIpAddr := 0
        baseUdpPort := 0 }
      writes := [] }

theorem server_mac_iff_changeRun :
    (∀ js, js <+: changeRun 11 → (after 0x10 settings (-1) js).cache.arpCacheValid = true →
      Heard 0x10 (reset settings (-1)) js (after 0x10 settings (-1) js).destIpAddr
        (after 0x10 settings (-1) js).cache.arpCacheValue) ∧
    ((∀ js j i, js ++ [j, i] <+: changeRun 11 →
      HeaderTaken (after 0x10 settings (-1) (js ++ [j])) →
        (after 0x10 settings (-1) (js ++ [j])).destMacAddr =
            macIn (after 0x10 settings (-1) js).config.configRegisters 2 3 ∨
          Heard 0x10 (reset settings (-1)) (js ++ [j])
            (after 0x10 settings (-1) (js ++ [j])).destIpAddr
            (after 0x10 settings (-1) (js ++ [j])).destMacAddr) ↔
    ∀ js j i, js ++ [j, i] <+: changeRun 11 →
      HeaderTaken (after 0x10 settings (-1) (js ++ [j])) →
        (after 0x10 settings (-1) (js ++ [j])).destMacAddr =
            macIn (after 0x10 settings (-1) js).config.configRegisters 2 3 ∨
          (after 0x10 settings (-1) (js ++ [j])).destIpAddr =
            (after 0x10 settings (-1) js).destIpAddr) :=
  @server_mac_iff 1 0x10 _ settings (-1) (changeRun 11) (by decide +kernel)

/-- A header begun in the cycle after the change goes to the new address of the
    server with the MAC address of the old one. -/
theorem old_server_mac :
    ¬∀ is : List (Input 1), Along (step 0x10) Proper (reset settings (-1)) is →
      ∀ js j i, js ++ [j, i] <+: is → HeaderTaken (after 0x10 settings (-1) (js ++ [j])) →
        (after 0x10 settings (-1) (js ++ [j])).destMacAddr =
            macIn (after 0x10 settings (-1) js).config.configRegisters 2 3 ∨
          Heard 0x10 (reset settings (-1)) (js ++ [j])
            (after 0x10 settings (-1) (js ++ [j])).destIpAddr
            (after 0x10 settings (-1) (js ++ [j])).destMacAddr := by
  intro h
  have htaken : HeaderTaken (after 0x10 settings (-1) ((changeRun 14).take 16)) := by
    decide +kernel
  have hmac : (after 0x10 settings (-1) ((changeRun 14).take 16)).destMacAddr ≠
      macIn (after 0x10 settings (-1) ((changeRun 14).take 15)).config.configRegisters 2 3 := by
    decide +kernel
  have hip : (after 0x10 settings (-1) ((changeRun 14).take 15)).destIpAddr ≠
      (after 0x10 settings (-1) ((changeRun 14).take 16)).destIpAddr := by
    decide +kernel
  rcases h (changeRun 14) (by decide +kernel) ((changeRun 14).take 15) _ _
    ⟨(changeRun 14).drop 17, rfl⟩ htaken with heq | hheard
  · exact hmac heq
  · exact hip hheard.last

end FpgaEthernet.CacheCoherence
