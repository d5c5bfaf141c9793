import FpgaEthernet.Ethernet.ArpDetection

/-!
# `arp_cache`

Model of `ethernet/arp_cache.vhd`: the MAC address of our server, as the last
ARP packet from it said, and the timer that tells when that was long ago. The
receiver tells the cache that it has read an ARP packet.

Main results:

* `arpSignal_packet`: when it does so, its address registers hold the sender of
  an ARP request or reply that has just ended.
* `Listening.step`: what a word of a frame leaves in the receiver.
* `taken_of_valid`: a valid cache was valid before, with the same value, or takes
  in the sender of a packet from the server.
-/

namespace FpgaEthernet.ArpCache

/-! ## Model -/

/-- The generics (`ethernet_block.vhd` lines 741-743). -/
def clockSpeedMhz : ℕ := 100

@[inherit_doc clockSpeedMhz]
def timeoutMs : ℕ := 600000

/-- The input ports (`arp_cache.vhd` lines 28-33). -/
structure Input where
  serverIpAddr : IpAddr
  sourceMacAddr : MacAddr
  sourceIpAddr : IpAddr
  sourceAddrValid : Bool
  arpCacheReset : Bool
  deriving DecidableEq

/-- The registers and the variables of the timer. -/
structure State where
  clockTimer : ℕ
  msTimer : ℕ
  cacheUpdated : Bool
  arpCacheValue : MacAddr
  arpCacheValid : Bool
  arpCacheStale : Bool
  deriving DecidableEq

/-- The timer (lines 53-82): `clock_timer`, `ms_timer` and `ARP_cache_stale`. -/
def timer (s : State) : ℕ × ℕ × Bool :=
  let clockTimer := if s.cacheUpdated then 0 else s.clockTimer
  let msTimer := if s.cacheUpdated then 0 else s.msTimer
  let wraps := clockSpeedMhz * 1000 < clockTimer
  let clockTimer := if wraps then 0 else clockTimer
  let msTimer := if wraps then msTimer + 1 else msTimer
  if timeoutMs ≤ msTimer then (clockTimer, msTimer, true) else (clockTimer + 1, msTimer, false)

/-- One edge of `clock`, with the cache itself (lines 85-103). -/
def step (i : Input) (s : State) : State :=
  let s' := { s with
    clockTimer := (timer s).1
    msTimer := (timer s).2.1
    arpCacheStale := (timer s).2.2
    cacheUpdated := false }
  if i.arpCacheReset then { s' with arpCacheValue := 0, arpCacheValid := false }
  else if i.serverIpAddr = i.sourceIpAddr ∧ i.sourceAddrValid = true then
    { s' with arpCacheValue := i.sourceMacAddr, arpCacheValid := true, cacheUpdated := true }
  else s'

/-- The registers when reset is released. -/
def reset : State where
  clockTimer := 0
  msTimer := 0
  cacheUpdated := false
  arpCacheValue := 0
  arpCacheValid := false
  arpCacheStale := false

/-- A valid cache has kept its value or has just taken in the sender of a packet
    from the server; it has not just been reset. -/
theorem taken_of_valid {i : Input} {s : State} (h : (step i s).arpCacheValid = true) :
    i.arpCacheReset = false ∧
      ((s.arpCacheValid = true ∧ (step i s).arpCacheValue = s.arpCacheValue) ∨
        (i.sourceAddrValid = true ∧ i.sourceIpAddr = i.serverIpAddr ∧
          (step i s).arpCacheValue = i.sourceMacAddr)) := by
  unfold step at h ⊢
  by_cases hreset : i.arpCacheReset = true
  · simp [hreset] at h
  · rw [if_neg hreset] at h ⊢
    refine ⟨by simpa using hreset, ?_⟩
    by_cases htake : i.serverIpAddr = i.sourceIpAddr ∧ i.sourceAddrValid = true
    · rw [if_pos htake]
      exact Or.inr ⟨htake.2, htake.1.symm, rfl⟩
    · rw [if_neg htake] at h ⊢
      exact Or.inl ⟨h, rfl⟩

end ArpCache

namespace FrameReciever

open Clocked

/-! ## The packets the cache is told of -/

/-- An ARP request or reply, complete up to its target address. -/
structure IsArpPacket (ws : List Word) : Prop where
  length : 11 ≤ ws.length
  ethertype : IsArp ws
  operation : lo (wordAt ws 5) = arpRequest ∨ lo (wordAt ws 5) = arpReply

/-- `ARP_source_ip_valid` (`ethernet_block.vhd` line 509). -/
def arpSignal (s : State) : Bool := s.generateArpReply || s.arpReplyRecieved

variable {ws : List Word} {i : Input} {s : State}

/-- The cache is told of an ARP packet at its last word. -/
theorem arpSignal_packet (hip : i.ourIpAddr ≠ 0) (hr : ArpRead ws s) (ht : TargetRead ws s)
    (hw : WholeFrames i s) (hs : arpSignal s = true → s.wordNum = 0)
    (h : arpSignal (step i s) = true) :
    i.rxDval = true ∧ i.rxEop = true ∧ IsArpPacket (ws ++ [i.rxData]) ∧
      (step i s).sourceMacAddr = senderMac (ws ++ [i.rxData]) ∧
      (step i s).sourceIpAddr = senderIp (ws ++ [i.rxData]) := by
  have hv : i.rxDval = true := by
    by_contra hv
    simp [arpSignal, step, hv] at h
  obtain ⟨hgen, hrep⟩ := arpSignals_step hw hv
  obtain ⟨hpos, he, hop, hdest⟩ : s.wordNum ≠ 0 ∧ i.rxEop = true ∧
      (s.optype = arpRequest ∨ s.optype = arpReply) ∧ s.destIpAddrSig = i.ourIpAddr := by
    have hlow : s.wordNum ≠ 0 → s.generateArpReply = false ∧ s.arpReplyRecieved = false := by
      intro h0
      simpa [arpSignal] using mt hs h0
    rcases Bool.or_eq_true_iff.1 h with hg | hg
    · obtain ⟨h0, he, hop⟩ := hgen hg
      exact ⟨h0, he, Or.inl (hop (hlow h0).1).1, (hop (hlow h0).1).2⟩
    · obtain ⟨h0, he, hop⟩ := hrep hg
      exact ⟨h0, he, Or.inr (hop (hlow h0).2).1, (hop (hlow h0).2).2⟩
  have hlen := hr.wordNum
  have hopt := hr.optype (by omega)
  have harp : 6 ≤ ws.length ∧ IsArp ws := by
    by_contra hno
    rw [if_neg hno] at hopt
    rw [hopt] at hop
    exact absurd hop (by decide)
  rw [if_pos harp] at hopt
  have htarget := ht (by omega) fun _ => harp.2
  have h11 : 11 ≤ ws.length := by
    by_contra hlt
    rw [if_neg hlt, hdest] at htarget
    exact hip htarget
  have hfields := hr.toArpFields.step hr.wordNum hv
  have harp' := (isArp_append (w := i.rxData) (by omega)).2 harp.2
  have hlen' : (ws ++ [i.rxData]).length = ws.length + 1 := by simp
  refine ⟨hv, he, ⟨by omega, harp', ?_⟩, hfields.mac (by omega) harp', hfields.ip (by omega) harp'⟩
  rw [wordAt_append_of_lt (by omega), ← hopt]
  exact hop

/-- What the receiver holds, with `l` the words fed so far. -/
structure Listening (l : List Beat) (s : State) : Prop where
  read : ArpRead ((cut Beat.eop l).2.map Beat.data) s
  target : TargetRead ((cut Beat.eop l).2.map Beat.data) s
  atEnd : arpSignal s = true → s.wordNum = 0

theorem listening_reset : Listening [] reset where
  read := requested_reset.read
  target h := absurd h (by simp)
  atEnd h := by simp [arpSignal, reset] at h

theorem Listening.step {l : List Beat} (h : Listening l s) (hip : i.ourIpAddr ≠ 0)
    (hw : WholeFrames i s) : Listening (l ++ fed [i]) (FrameReciever.step i s) := by
  refine ⟨h.read.edge hw, h.target.edge h.read, fun hg => ?_⟩
  obtain ⟨hv, he, -⟩ := arpSignal_packet hip h.read h.target hw h.atEnd hg
  rw [wordNum_step hw hv, he]
  rfl

end FrameReciever

end FpgaEthernet
