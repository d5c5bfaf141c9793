import FpgaEthernet.Ethernet.HeaderFields

/-!
# The checksum in the header

The checksum computer of `header_generator` runs beside the state machine and is
aligned with it by the two pause states. Over runs of header after header, this
file compares the checksum word a frame is emitted with to the checksum of its
own header words.

Main results:

* `Computing.step`: where the computer stands every edge after the start pulse.
* `Ready.frame`: a frame leaves its own checksum in `ip_checksum`.
* `checksum_own_iff`: a frame is emitted with its own checksum iff the Ethernet
  header is enabled or the frame before had the same one.
-/

namespace FpgaEthernet.HeaderGenerator

open Clocked OnesComplement

/-! ## The checksum computer -/

/-- The `sum` of `checksum_computer` after `k` of its seven additions and folds. -/
def partialSum (w : Fin 5 → Word) : ℕ → BitVec 23
  | 0 => 0
  | k + 1 =>
    if h : k < 5 then addHalves (partialSum w k) (w ⟨k, h⟩) else foldCarry (partialSum w k)

/-- The computer `k` edges after the start pulse of a frame with the header words
    `w`, when `ip_checksum` was `old` at the pulse. -/
structure Computing (w : Fin 5 → Word) (old : BitVec 16) (k : ℕ) (s : State) : Prop where
  ipHeader : s.ipHeader = w
  running : k < 8 → s.step = k ∧ s.sum = partialSum w k ∧ s.ipChecksum = old
  ready : 8 ≤ k → s.step = -1 ∧ s.ipChecksum = ~~~ (partialSum w 7).extractLsb' 0 16

theorem Computing.step {w : Fin 5 → Word} {old : BitVec 16} {k : ℕ} {i : Input} {s : State}
    (h : Computing w old k s) (hs : i.headerStart = false) (hn : s.nextState ≠ .idle) :
    Computing w old (k + 1) (HeaderGenerator.step i s) := by
  have hip : (HeaderGenerator.step i s).ipHeader = w := by
    rw [(step_registers i s).2, if_neg hn, h.ipHeader]
  rcases Nat.lt_or_ge k 8 with hk | hk
  · obtain ⟨hstep, hsum, hold⟩ := h.running hk
    rcases (by omega : k < 5 ∨ 5 ≤ k ∧ k < 7 ∨ k = 7) with hk | hk | rfl
    · -- an addition
      have hidx : Fin.ofNat 5 k = ⟨k, hk⟩ := Fin.ext (Nat.mod_eq_of_lt hk)
      have hc : checksumComputer i s = (partialSum w (k + 1), (k : ℤ) + 1, old) := by
        rw [checksumComputer, if_neg (by omega), if_pos (by omega), hstep, hsum, hold, h.ipHeader,
          Int.toNat_natCast, hidx, partialSum, dif_pos hk]
      refine ⟨hip, fun _ => ?_, fun h8 => by omega⟩
      simp [HeaderGenerator.step, hc]
    · -- a fold
      have hc : checksumComputer i s = (partialSum w (k + 1), (k : ℤ) + 1, old) := by
        rw [checksumComputer, if_neg (by omega), if_neg (by omega), if_pos (by omega), hstep, hsum,
          hold, partialSum, dif_neg (by omega)]
      refine ⟨hip, fun _ => ?_, fun h8 => by omega⟩
      simp [HeaderGenerator.step, hc]
    · -- the result is latched
      have hc : checksumComputer i s =
          (s.sum, -1, ~~~ (partialSum w 7).extractLsb' 0 16) := by
        rw [checksumComputer, if_neg (by omega), if_neg (by omega), if_neg (by omega),
          if_pos (by omega), hsum]
      refine ⟨hip, fun h8 => by omega, fun _ => ?_⟩
      simp [HeaderGenerator.step, hc]
  · obtain ⟨hstep, hready⟩ := h.ready hk
    have hc : checksumComputer i s = (0, -1, ~~~ (partialSum w 7).extractLsb' 0 16) := by
      rw [checksumComputer, if_pos hstep, hs, hready]
      rfl
    refine ⟨hip, fun h8 => by omega, fun _ => ?_⟩
    simp [HeaderGenerator.step, hc]

/-- Both processes wait for a start pulse. -/
structure Ready (old : BitVec 16) (s : State) : Prop where
  idle : s.nextState = .idle
  step_eq : s.step = -1
  ipChecksum : s.ipChecksum = old

theorem ready_reset : Ready 0 reset := ⟨rfl, rfl, rfl⟩

theorem Ready.step {old : BitVec 16} {i : Input} {s : State} (h : Ready old s)
    (hs : i.headerStart = false) : Ready old (HeaderGenerator.step i s) := by
  have hc : checksumComputer i s = (0, -1, old) := by
    rw [checksumComputer, if_pos h.step_eq, hs, h.ipChecksum]
    rfl
  refine ⟨?_, ?_, ?_⟩
  · simp [stateMachine, h.idle, hs]
  · simp [HeaderGenerator.step, hc]
  · simp [HeaderGenerator.step, hc]

theorem Ready.start {old : BitVec 16} {i : Input} {s : State} (h : Ready old s)
    (hs : i.headerStart = true) :
    Computing (ipHeaderWords i) old 0 (HeaderGenerator.step i s) := by
  have hc : checksumComputer i s = (0, 0, old) := by
    rw [checksumComputer, if_pos h.step_eq, hs, h.ipChecksum]
    rfl
  refine ⟨?_, fun _ => ?_, fun h8 => by omega⟩
  · rw [(step_registers i s).2, if_pos h.idle]
  · simp [HeaderGenerator.step, hc, partialSum]

/-- The edges of a header in progress advance the computer one by one. -/
theorem Computing.run_held {config : Word} {w : Fin 5 → Word} {old : BitVec 16} {k : ℕ}
    {s : State} {is : List Input} (h : Computing w old k s) (hrun : Running config s)
    (hc : ∀ i ∈ is, i.config = config) (hq : ∀ i ∈ is, i.headerStart = false)
    (hl : is.length ≤ edgesLeft config s.nextState) :
    Computing w old (k + is.length) (run HeaderGenerator.step s is) := by
  induction is generalizing s k with
  | nil => exact h
  | cons i is ih =>
    obtain rfl : i.config = config := hc i List.mem_cons_self
    rw [List.length_cons] at hl
    have hd : s.nextState ≠ .done := by
      intro hd
      rw [hd, edgesLeft_done] at hl
      omega
    have hedges := hrun.edgesLeft_step hd
    have hrest := ih (h.step (hq i List.mem_cons_self) hrun.notIdle) (hrun.step hd).1
      (fun j hj => hc j (List.mem_cons_of_mem i hj))
      (fun j hj => hq j (List.mem_cons_of_mem i hj)) (by omega)
    rwa [List.length_cons, Nat.add_comm is.length 1, ← Nat.add_assoc]

/-! ## Frames -/

/-- The inputs of one frame: idle cycles, the cycle with `header_start`, the
    cycles in which the header is emitted, and the cycle in which `header_done`
    is high. -/
structure Frame where
  gap : List Input
  start : Input
  body : List Input
  last : Input

/-- The header of the frame. -/
def Frame.header (f : Frame) : List Input := f.start :: f.body

def Frame.inputs (f : Frame) : List Input := f.gap ++ f.header ++ [f.last]

/-- An IPv4 frame with its configuration held and one start pulse. Everything
    else may change from cycle to cycle and from frame to frame. -/
structure Frame.Valid (f : Frame) : Prop where
  gap_idle : ∀ i ∈ f.gap, i.headerStart = false
  start_pulse : f.start.headerStart = true
  body_idle : ∀ i ∈ f.body, i.headerStart = false
  last_idle : f.last.headerStart = false
  config_eq : ∀ i ∈ f.body, i.config = f.start.config
  ip : f.start.config.getLsbD 1 = true
  length_eq : f.body.length = headerWords f.start.config + 2

/-- The registers before the start pulse of a frame. -/
def Frame.before (f : Frame) (s : State) : State := run step s f.gap

/-- The checksums of the words a frame is emitted with in `IP2`. -/
def Frame.checksums (f : Frame) (s : State) : List (BitVec 16) :=
  ((log step emittedIn (f.before s) f.header).filter (·.1 = .ip2)).map (lo ·.2)

variable {old : BitVec 16} {f : Frame} {s : State}

theorem Ready.before (h : Ready old s) (hf : f.Valid) : Ready old (f.before s) :=
  run_invariant HeaderGenerator.step h (fun _ _ hs hr => hr.step hs)
    (along_of_forall HeaderGenerator.step hf.gap_idle)

theorem Frame.Valid.fNextState (hf : f.Valid) : fNextState .idle f.start.config ≠ .done := by
  rw [HeaderGenerator.fNextState, hf.ip]
  split_ifs <;> simp_all

theorem Frame.Valid.isHeader (hf : f.Valid) (h : Ready old s) :
    IsHeader f.start.config (f.before s) f.start f.body := by
  refine isHeader_of_length (h.before hf).idle hf.start_pulse ?_ hf.fNextState ?_
  · intro j hj
    rcases List.mem_cons.1 hj with rfl | hj
    · rfl
    · exact hf.config_eq j hj
  · rw [hf.ip, if_pos rfl, hf.length_eq]

/-- A frame leaves its own checksum in `ip_checksum`. -/
theorem Ready.frame (h : Ready old s) (hf : f.Valid) :
    Ready (headerChecksum f.start) (run HeaderGenerator.step s f.inputs) := by
  have hh := hf.isHeader h
  obtain ⟨hrun, -, -⟩ := hh.running hf.fNextState
  have hlen := hh.length_eq hf.fNextState
  have hcomp := ((h.before hf).start hf.start_pulse).run_held hrun hf.config_eq hf.body_idle hlen.le
  obtain ⟨hend, hleft, -⟩ := hrun.run_held hf.config_eq hlen.le
  have hdone := hend.done_of_edgesLeft (by omega)
  have h8 : 8 ≤ 0 + f.body.length + 1 := by
    rw [hf.length_eq, headerWords, hf.ip, if_pos rfl]
    omega
  have hlast := hcomp.step hf.last_idle hend.notIdle
  obtain ⟨hstep, hready⟩ := hlast.ready h8
  have hinputs : run HeaderGenerator.step s f.inputs = HeaderGenerator.step f.last
      (run HeaderGenerator.step (HeaderGenerator.step f.start (f.before s)) f.body) := by
    rw [Frame.inputs, run_concat, run_append]
    rfl
  rw [hinputs]
  exact ⟨(step_of_done hdone).1, hstep, hready⟩

/-- The registers after a sequence of frames. -/
def afterFrames (s : State) (fs : List Frame) : State := run step s (fs.flatMap Frame.inputs)

/-- The checksum of the last of the frames, `0` before the first. -/
def lastChecksum (fs : List Frame) : BitVec 16 :=
  (fs.getLast?.map (headerChecksum ·.start)).getD 0

theorem ready_afterFrames {fs : List Frame} (hf : ∀ f ∈ fs, f.Valid) :
    Ready (lastChecksum fs) (afterFrames reset fs) := by
  induction fs using List.reverseRecOn with
  | nil => exact ready_reset
  | append_singleton fs f ih =>
    have hrest := ih fun g hg => hf g (List.mem_append_left [f] hg)
    have hframe := hrest.frame (hf f (List.mem_append_right fs (List.mem_singleton_self f)))
    have hafter : afterFrames reset (fs ++ [f]) = run step (afterFrames reset fs) f.inputs := by
      rw [afterFrames, List.flatMap_append, run_append, List.flatMap_singleton]
      rfl
    rw [hafter, lastChecksum, List.getLast?_concat]
    exact hframe

/-! ## The emitted checksum -/

/-- The word of `IP2` is emitted eight edges after the start pulse with an
    Ethernet header and four edges after it without. -/
theorem edgesLeft_ip2 {config : Word} (hip : config.getLsbD 1 = true) :
    edgesLeft config .ip2 + (if config.getLsbD 0 then 8 else 4) = headerWords config + 2 := by
  simp only [edgesLeft, position, pausesLeft, headerWords, hip, if_true]
  split_ifs <;> omega

/-- The checksum emitted in `IP2` is the one of the frame if the computer has
    finished by then, and else the one before. -/
theorem Frame.Valid.ip2_word (hf : f.Valid) (h : Ready old s) {p : StateType × Word}
    (hp : p ∈ log step emittedIn (f.before s) f.header) (hst : p.1 = .ip2) :
    lo p.2 = if f.start.config.getLsbD 0 then headerChecksum f.start else old := by
  have hh := hf.isHeader h
  obtain ⟨hrun, -, -⟩ := hh.running hf.fNextState
  obtain ⟨js, j, hpre, hj, -⟩ := hh.mem_log hf.fNextState hp
  obtain ⟨hst', hw⟩ := mem_emittedIn hj
  have hsub : ∀ k ∈ js, k ∈ f.body := fun k hk =>
    hpre.subset (List.mem_append_left [j] hk)
  have hlen := hh.length_eq hf.fNextState
  have hle : js.length ≤ edgesLeft f.start.config (step f.start (f.before s)).nextState := by
    have := hpre.length_le
    rw [List.length_append] at this
    omega
  obtain ⟨-, hleft, -⟩ := hrun.run_held (fun k hk => hf.config_eq k (hsub k hk)) hle
  have hcomp := ((h.before hf).start hf.start_pulse).run_held hrun
    (fun k hk => hf.config_eq k (hsub k hk)) (fun k hk => hf.body_idle k (hsub k hk)) hle
  have hedges := edgesLeft_ip2 hf.ip
  have hlo : lo p.2 = (run step (step f.start (f.before s)) js).ipChecksum := by
    rw [hw, step_headerData, stateMachine, hst'.symm.trans hst]
    exact lo_append (255#8 ++ j.protocol) _
  rw [← hst', hst, ← hlen, hf.length_eq] at hleft
  rw [hlo]
  cases h0 : f.start.config.getLsbD 0 <;> rw [h0] at hedges <;>
    simp only [if_true, Bool.false_eq_true, if_false] at hedges ⊢
  · exact (hcomp.running (by omega)).2.2
  · exact (hcomp.ready (by omega)).2

theorem countP_ip2 {config : Word} (hip : config.getLsbD 1 = true) :
    (headerStates config).countP (· = .ip2) = 1 := by
  rw [headerStates, hip]
  cases config.getLsbD 0 <;> cases config.getLsbD 2 <;> cases config.getLsbD 3 <;> rfl

/-- A frame is emitted with one checksum. -/
theorem Frame.Valid.checksums_eq (hf : f.Valid) (h : Ready old s) :
    f.checksums s = [if f.start.config.getLsbD 0 then headerChecksum f.start else old] := by
  have hstates := (hf.isHeader h).log_states hf.fNextState
  have hone : ((log step emittedIn (f.before s) f.header).filter (·.1 = .ip2)).length = 1 := by
    rw [← countP_ip2 hf.ip, ← hstates, List.countP_map, List.countP_eq_length_filter]
    rfl
  obtain ⟨p, hp⟩ := List.length_eq_one_iff.1 hone
  have hmem : p ∈ (log step emittedIn (f.before s) f.header).filter (·.1 = .ip2) := by
    rw [hp]
    exact List.mem_singleton_self p
  obtain ⟨hlog, hst⟩ := List.mem_filter.1 hmem
  rw [Frame.checksums, hp, List.map_singleton, hf.ip2_word h hlog (of_decide_eq_true hst)]

/-- The sum of the header's half words other than the checksum, after the folds. -/
def foldedSum (i : Input) : ℕ :=
  (natSum (otherHalves i) % 65536 + natSum (otherHalves i) / 65536) % 65536

/-- The folded sum of the last of the frames. Before the first frame
    `ip_checksum` is zero, which is the checksum for `0xFFFF`. -/
def lastFoldedSum (fs : List Frame) : ℕ := (fs.getLast?.map (foldedSum ·.start)).getD 65535

theorem lastChecksum_toNat (fs : List Frame) :
    (lastChecksum fs).toNat = 65535 - lastFoldedSum fs := by
  unfold lastChecksum lastFoldedSum
  cases fs.getLast? with
  | none => rfl
  | some f => exact headerChecksum_toNat f.start

theorem lastFoldedSum_le (fs : List Frame) : lastFoldedSum fs ≤ 65535 := by
  unfold lastFoldedSum
  cases fs.getLast? with
  | none => exact le_rfl
  | some f =>
    have hlt : foldedSum f.start < 65536 := Nat.mod_lt _ (by decide)
    exact Nat.le_of_lt_succ hlt

/-- After any frames, a frame is emitted with the checksum of its own header
    words iff its Ethernet header is enabled or these words have the folded sum
    of those of the frame before. -/
theorem checksum_own_iff (fs : List Frame) (f : Frame) (hfs : ∀ g ∈ fs, g.Valid) (hf : f.Valid) :
    f.checksums (afterFrames reset fs) = [headerChecksum f.start] ↔
      f.start.config.getLsbD 0 = true ∨ foldedSum f.start = lastFoldedSum fs := by
  have hlt : foldedSum f.start < 65536 := Nat.mod_lt _ (by decide)
  have hle := lastFoldedSum_le fs
  have hown : (headerChecksum f.start).toNat = 65535 - foldedSum f.start :=
    headerChecksum_toNat f.start
  have hlast := lastChecksum_toNat fs
  rw [hf.checksums_eq (ready_afterFrames hfs)]
  cases h0 : f.start.config.getLsbD 0
  · simp only [Bool.false_eq_true, if_false, false_or, List.cons.injEq, and_true]
    rw [← BitVec.toNat_inj, hown, hlast]
    omega
  · simp

/-- A frame with all its inputs held. -/
def heldFrame (i : Input) : Frame where
  gap := []
  start := { i with headerStart := true }
  body := List.replicate (headerWords i.config + 2) { i with headerStart := false }
  last := { i with headerStart := false }

theorem heldFrame_valid (i : Input) (hip : i.config.getLsbD 1 = true) : (heldFrame i).Valid where
  gap_idle := fun _ hj => absurd hj List.not_mem_nil
  start_pulse := rfl
  body_idle := fun j hj => by rw [List.eq_of_mem_replicate hj]
  last_idle := rfl
  config_eq := fun j hj => by rw [List.eq_of_mem_replicate hj]; rfl
  ip := hip
  length_eq := List.length_replicate

/-- A UDP packet without an Ethernet header. -/
def noEthernet (destIp : IpAddr) : Input := { lostCarry with config := 0x6, destIp := destIp }

theorem checksum_own_iff_lostCarry :
    (heldFrame lostCarry).checksums (afterFrames reset [heldFrame (noEthernet 0xC0A80001)]) =
        [headerChecksum (heldFrame lostCarry).start] ↔
      (heldFrame lostCarry).start.config.getLsbD 0 = true ∨
        foldedSum (heldFrame lostCarry).start =
          lastFoldedSum [heldFrame (noEthernet 0xC0A80001)] := by
  refine checksum_own_iff _ _ (fun g hg => ?_) (heldFrame_valid _ (by decide))
  obtain rfl := List.mem_singleton.1 hg
  exact heldFrame_valid _ (by decide)

/-- Without an Ethernet header a frame to another address has the checksum of
    the frame before. -/
theorem checksum_stale :
    (heldFrame (noEthernet 0xC0A80001)).Valid ∧ (heldFrame (noEthernet 0xC0A80002)).Valid ∧
      (heldFrame (noEthernet 0xC0A80002)).checksums
          (afterFrames reset [heldFrame (noEthernet 0xC0A80001)]) =
        [headerChecksum (heldFrame (noEthernet 0xC0A80001)).start] ∧
      (heldFrame (noEthernet 0xC0A80002)).checksums
          (afterFrames reset [heldFrame (noEthernet 0xC0A80001)]) ≠
        [headerChecksum (heldFrame (noEthernet 0xC0A80002)).start] := by
  refine ⟨heldFrame_valid _ (by decide), heldFrame_valid _ (by decide), ?_, ?_⟩ <;>
    decide +kernel

end FpgaEthernet.HeaderGenerator
