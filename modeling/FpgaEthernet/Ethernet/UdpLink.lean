import FpgaEthernet.Ethernet.FrameSequence
import FpgaEthernet.Ethernet.LineFrames
import FpgaEthernet.Ethernet.UdpFrames

/-!
# From board to board

The words written to the UDP block of an `ethernet_block`, in frames among those of the other
blocks, and the receiver of another board, where frames come in from elsewhere as well.

Main results:

* `heard_frames`: what the receiver puts out for the frames of a block.
* `words_arrive`: the receiver puts out the words that were written, in order, each with its
  port and with the addresses of the sender.
-/

namespace FpgaEthernet.UdpLink

open Clocked EthernetBlock FrameReciever
open UdpDataBlock (Addresses Held carried)

/-! ## What comes in -/

/-- The inputs of the receiver, and the block that sent the frame with this word, if it was
    one of the other board. -/
structure Input where
  rx : FrameReciever.Input
  origin : Option Source

/-- A frame that comes in. -/
structure Frame where
  words : List Word
  origin : Option Source

/-- The words that come in. -/
def fed (js : List Input) : List (Beat × Option Source) :=
  js.filterMap fun j =>
    if j.rx.rxDval then some (⟨j.rx.rxData, j.rx.rxSop, j.rx.rxEop⟩, j.origin) else none

/-- The words of a frame that comes in. -/
def Frame.beats (f : Frame) : List (Beat × Option Source) := (framed f.words).map (·, f.origin)

/-- One clock edge. -/
def step (j : Input) (s : FrameReciever.State) : FrameReciever.State := FrameReciever.step j.rx s

/-- What the receiver puts out for the frames of a block. -/
def heard (b : Source) (j : Input) (s : FrameReciever.State) : List Delivery :=
  if j.origin = some b then delivered j.rx s else []

variable {b : Source} {f : Frame} {fs : List Frame} {s : FrameReciever.State} {js : List Input}

/-! ## Frames -/

theorem fed_rx (js : List Input) :
    FrameReciever.fed (js.map Input.rx) = (fed js).map Prod.fst := by
  rw [FrameReciever.fed, fed, List.filterMap_map, List.map_filterMap]
  refine List.filterMap_congr fun j _ => ?_
  dsimp only [Function.comp_apply]
  split_ifs <;> rfl

/-- While a frame comes in, the words put out are those of this frame. -/
theorem log_heard (horigin : ∀ x ∈ fed js, x.2 = f.origin) :
    log step (heard b) s js =
      if f.origin = some b then log FrameReciever.step delivered s (js.map Input.rx) else [] := by
  induction js generalizing s with
  | nil => simp
  | cons j js ih =>
    rw [List.map_cons, log_cons, log_cons, ih fun x hx => horigin x ?_]
    · cases hv : j.rx.rxDval
      · have hidle : delivered j.rx s = [] := by simp [delivered, FrameReciever.step, hv]
        rw [heard, hidle, ite_self, List.nil_append, List.nil_append]
        rfl
      · have hj : j.origin = f.origin := horigin (_, j.origin) (List.mem_filterMap.2
          ⟨j, List.mem_cons_self, if_pos hv⟩)
        rw [heard, hj]
        split_ifs <;> rfl
    · obtain ⟨j', hj', hx⟩ := List.mem_filterMap.1 hx
      exact List.mem_filterMap.2 ⟨j', List.mem_cons_of_mem j hj', hx⟩

/-- One frame: the receiver is ready for the next one after it. -/
theorem heard_frame (h2 : 2 ≤ f.words.length) (hs : s.wordNum = 0) (hfed : fed js = f.beats) :
    (run step s js).wordNum = 0 ∧ log step (heard b) s js =
      if f.origin = some b then log FrameReciever.step delivered s (js.map Input.rx) else [] := by
  have hrx : FrameReciever.fed (js.map Input.rx) = framed f.words := by
    rw [fed_rx, hfed, Frame.beats, List.map_map]
    exact List.map_id _
  have hrun : run step s js = run FrameReciever.step s (js.map Input.rx) :=
    run_part step (t := FrameReciever.step) (p := id) (g := Input.rx) (fun _ _ => rfl) s js
  rw [hrun]
  refine ⟨(observed_frame h2 hs _ hrx).1, log_heard fun x hx => ?_⟩
  rw [hfed] at hx
  obtain ⟨_, -, rfl⟩ := List.mem_map.1 hx
  rfl

/-- What the receiver puts out for the words of a frame. -/
def Delivers (f : Frame) (ds : List Delivery) : Prop :=
  ∀ (s : FrameReciever.State) (is : List FrameReciever.Input), s.wordNum = 0 →
    FrameReciever.fed is = framed f.words → log FrameReciever.step delivered s is = ds

/-- What the receiver puts out for the frames of a block, among any others. -/
theorem heard_frames {out : List (List Delivery)} (h2 : ∀ f ∈ fs, 2 ≤ f.words.length)
    (hs : s.wordNum = 0) (hfed : fed js = fs.flatMap Frame.beats)
    (hout : List.Forall₂ Delivers (fs.filter fun f => f.origin = some b) out) :
    log step (heard b) s js = out.flatten := by
  induction fs generalizing s js out with
  | nil =>
    obtain rfl := List.forall₂_nil_left_iff.1 hout
    have hnone : ∀ x ∈ fed js, x.2 = (none : Option Source) := by simp [hfed]
    exact log_heard (f := ⟨[], none⟩) hnone
  | cons f fs ih =>
    rw [List.flatMap_cons] at hfed
    obtain ⟨is, ks, rfl, his, hks⟩ := List.filterMap_eq_append_iff.1 hfed
    obtain ⟨h2f, h2⟩ := List.forall_mem_cons.1 h2
    obtain ⟨hzero, hlog⟩ := heard_frame (b := b) h2f hs his
    rw [log_append, hlog]
    by_cases hf : f.origin = some b
    · rw [List.filter_cons_of_pos (by simpa using hf)] at hout
      obtain ⟨ds, out', hds, hout', rfl⟩ := List.forall₂_cons_left_iff.1 hout
      have hrx : FrameReciever.fed (is.map Input.rx) = framed f.words := by
        rw [fed_rx, show fed is = f.beats from his, Frame.beats, List.map_map]
        exact List.map_id _
      rw [if_pos hf, hds s _ hs hrx, ih h2 hzero hks hout', List.flatten_cons]
    · rw [List.filter_cons_of_neg (by simpa using hf)] at hout
      rw [if_neg hf, List.nil_append, ih h2 hzero hks hout]

/-! ## The UDP block -/

variable {N : ℕ}

/-- The inputs of the UDP block at an edge of its clock. -/
def udpEdge (i : EthernetBlock.Input N) (s : EthernetBlock.State N) : List UdpDataBlock.Input :=
  if i.data.clock then [udpInput i s] else []

/-- The word that is written to the UDP block, with its port. -/
def presented (i : EthernetBlock.Input N) (_ : EthernetBlock.State N) : List (Word × UdpPort) :=
  if i.data.clock ∧ i.udp.dataValidIn then [(i.udp.dataIn, i.udp.dataPortIn)] else []

/-- Neither FIFO of the UDP block overflows. -/
def NoOverflow (i : EthernetBlock.Input N) (s : EthernetBlock.State N) : Prop :=
  i.data.clock = true → UdpDataBlock.NoOverflow i.udp s.udp

instance (i : EthernetBlock.Input N) (s : EthernetBlock.State N) : Decidable (NoOverflow i s) := by
  unfold NoOverflow
  infer_instance

theorem udp_step (i : EthernetBlock.Input N) (s : EthernetBlock.State N) :
    (EthernetBlock.step i s).udp = run UdpDataBlock.step s.udp (udpEdge i s) := by
  unfold udpEdge
  split_ifs with hc <;> simp [EthernetBlock.step, hc]

theorem log_writes (s : EthernetBlock.State N) (is : List (EthernetBlock.Input N)) :
    log EthernetBlock.step (writes .udp) s is =
      log UdpDataBlock.step UdpDataBlock.output s.udp (log EthernetBlock.step udpEdge s is) := by
  rw [← log_edges EthernetBlock.step (p := EthernetBlock.State.udp) udp_step]
  congr 1
  funext i s
  unfold writes udpEdge
  split_ifs <;> simp [UdpDataBlock.output, tx]

theorem log_presented (s : EthernetBlock.State N) (is : List (EthernetBlock.Input N)) :
    log EthernetBlock.step presented s is =
      log UdpDataBlock.step UdpDataBlock.presented s.udp (log EthernetBlock.step udpEdge s is) := by
  rw [← log_edges EthernetBlock.step (p := EthernetBlock.State.udp) udp_step]
  congr 1
  funext i s
  unfold presented udpEdge
  cases i.data.clock <;> simp [UdpDataBlock.presented, udpInput]

theorem along_noOverflow {s : EthernetBlock.State N} {is : List (EthernetBlock.Input N)}
    (h : Along EthernetBlock.step NoOverflow s is) :
    Along UdpDataBlock.step UdpDataBlock.NoOverflow s.udp
      (log EthernetBlock.step udpEdge s is) := by
  rw [along_edges EthernetBlock.step (p := EthernetBlock.State.udp) udp_step]
  refine h.mono _ fun i s hi => ?_
  unfold udpEdge
  split_ifs with hc
  · exact ⟨hi hc, trivial⟩
  · trivial

/-- The inputs of the UDP block are those of the run, but for `tx_ready`. -/
theorem forall_udpEdge {P : UdpDataBlock.Input → Prop} {s : EthernetBlock.State N}
    {is : List (EthernetBlock.Input N)}
    (h : ∀ i ∈ is, ∀ ready, P { i.udp with txReady := ready }) :
    ∀ j ∈ log EthernetBlock.step udpEdge s is, P j := by
  intro j hj
  obtain ⟨is', i, hpre, hmem⟩ := (mem_log_iff _).1 hj
  unfold udpEdge at hmem
  split_ifs at hmem
  · obtain rfl := List.mem_singleton.1 hmem
    exact h i (hpre.subset (by simp)) _
  · cases hmem

theorem held_udpEdge {a : Addresses} {s : EthernetBlock.State N}
    {is : List (EthernetBlock.Input N)} (h : ∀ i ∈ is, Held a i.udp) :
    ∀ j ∈ log EthernetBlock.step udpEdge s is, Held a j :=
  forall_udpEdge fun i hi _ => ⟨(h i hi).1, (h i hi).2, (h i hi).3, (h i hi).4⟩

/-! ## Words -/

/-- What the MAC takes from the line along a run from reset. -/
def taken [NeZero N] (k : ℤ) (is : List (EthernetBlock.Input N)) : List (Beat × Source × ℕ) :=
  log tracedStep line (tracedReset k) is

/-- A frame that comes in is one that the MAC took, with any words after it. -/
def Carries (x : List (Beat × Source × ℕ)) (f : Frame) : Prop :=
  x.map (fun w => w.1.data) <+: f.words ∧ ∀ w ∈ x, f.origin = some w.2.1

/-- Of the frames that come in, those of a block are the frames of this block on the line. -/
theorem carries_framesOf {l : List (Beat × Source × ℕ)}
    (h : List.Forall₂ Carries (cut (Beat.eop ∘ Prod.fst) l).1
      (fs.filter fun f => f.origin.isSome)) :
    List.Forall₂ (fun x f => x.map Beat.data <+: f.words) (framesOf b l)
      (fs.filter fun f => f.origin = some b) := by
  have hne : ∀ x ∈ (cut (Beat.eop ∘ Prod.fst) l).1, x ≠ [] := by
    intro x hx
    obtain ⟨g, w, rfl, -⟩ := (cut_ends (Beat.eop ∘ Prod.fst) l).1 x hx
    exact List.append_ne_nil_of_right_ne_nil g (List.cons_ne_nil w [])
  have hsame : fs.filter (fun f => f.origin = some b) =
      (fs.filter fun f => f.origin.isSome).filter fun f => f.origin = some b := by
    rw [List.filter_filter]
    refine List.filter_congr fun f _ => ?_
    cases f.origin <;> simp
  rw [hsame, framesOf, List.forall₂_map_left_iff]
  have hfilter := List.rel_filter (p := fun x => x.all fun w => w.2.1 = b)
    (q := fun f : Frame => f.origin = some b) (fun x f hx => ?_)
    ((List.forall₂_and_left _ _).2 ⟨hne, h⟩)
  · refine hfilter.imp fun x f hx => ?_
    rw [List.map_map]
    exact hx.2.1
  · obtain ⟨w, x', rfl⟩ := List.exists_cons_of_ne_nil hx.1
    have hlabel := hx.2.2
    simp only [List.all_eq_true, decide_eq_true_eq]
    refine ⟨fun hall => ?_, fun hf w' hw' => ?_⟩
    · rw [hlabel w List.mem_cons_self, hall w List.mem_cons_self]
    · exact Option.some.inj ((hlabel w' hw').symm.trans hf)

/-- If the frames on the line of one board come in on another one in order, each padded or
    not, with any other frames between them, then of the words that were written to the UDP
    block of the first, the receiver of the second puts out those in the frames on the line,
    which are a beginning of the words written: in order, none twice, each with its port and
    with the addresses of the first board. -/
theorem words_arrive [NeZero N] (k : ℤ) {is : List (EthernetBlock.Input N)} {a : Addresses}
    (hap : Along EthernetBlock.step Apart (EthernetBlock.reset k) is)
    (hrdy : ∀ i ∈ is, i.ffTxRdy = true) (hheld : ∀ i ∈ is, Held a i.udp)
    (heop : ∀ i ∈ is, i.udp.dataEopIn = false)
    (hov : Along EthernetBlock.step NoOverflow (EthernetBlock.reset k) is)
    (hs : s.wordNum = 0) (h2 : ∀ f ∈ fs, 2 ≤ f.words.length)
    (hfs : List.Forall₂ Carries (cut (Beat.eop ∘ Prod.fst) (taken k is)).1
      (fs.filter fun f => f.origin.isSome))
    (hfed : fed js = fs.flatMap Frame.beats) :
    log step (heard .udp) s js = ((framesOf .udp (taken k is)).flatMap fun f =>
        carried (f.map Beat.data)).map (UdpDataBlock.heard a) ∧
      log step (heard .udp) s js <+:
        (log EthernetBlock.step presented (EthernetBlock.reset k) is).map
          (UdpDataBlock.heard a) := by
  have hheld' : ∀ j ∈ log EthernetBlock.step udpEdge (EthernetBlock.reset k) is, Held a j :=
    held_udpEdge hheld
  have heop' : ∀ j ∈ log EthernetBlock.step udpEdge (EthernetBlock.reset k) is,
      j.dataEopIn = false := forall_udpEdge fun i hi _ => heop i hi
  have hov' := along_noOverflow hov
  have hsent := framesOf_isPrefix k hap hrdy .udp
  rw [log_writes] at hsent
  have hout : List.Forall₂ Delivers (fs.filter fun f => f.origin = some .udp)
      ((framesOf .udp (taken k is)).map fun f =>
        (carried (f.map Beat.data)).map (UdpDataBlock.heard a)) := by
    rw [List.forall₂_map_right_iff]
    have hpairs := (List.forall₂_and_left _ _).2 ⟨fun f hf => hsent.subset hf, carries_framesOf hfs⟩
    refine hpairs.flip.imp fun f x hx r is' hr his' => ?_
    obtain ⟨hmem, pad, hpad⟩ := hx
    rw [← hpad] at his'
    exact UdpDataBlock.frame_heard hheld' heop' hov' hmem hr his'
  have heq : log step (heard .udp) s js = ((framesOf .udp (taken k is)).flatMap fun f =>
      carried (f.map Beat.data)).map (UdpDataBlock.heard a) := by
    rw [heard_frames h2 hs hfed hout, List.map_flatMap, List.flatMap_def]
  refine ⟨heq, ?_⟩
  rw [heq, log_presented]
  exact ((hsent.flatMap _).trans (UdpDataBlock.carried_frames heop' hov')).map _

/-! ## Two boards -/

instance (x : List (Beat × Source × ℕ)) (f : Frame) : Decidable (Carries x f) := by
  unfold Carries
  infer_instance

/-- The frames of the run `traffic 30`, padded by three words, with a frame from elsewhere
    after each of them. -/
def trafficFrames : List Frame :=
  (cut (Beat.eop ∘ Prod.fst) (taken (-1) (traffic 30))).1.flatMap fun x =>
    [⟨x.map (fun w => w.1.data) ++ [0, 0, 0], x.head?.map fun w => w.2.1⟩, ⟨[0x1, 0x2, 0x3], none⟩]

/-- Their words, with an idle cycle after each of them. -/
def trafficFeed : List Input :=
  (trafficFrames.flatMap Frame.beats).flatMap fun b =>
    [⟨⟨b.1.data, b.1.eop, b.1.sop, true, 0⟩, b.2⟩, ⟨⟨0, false, false, false, 0⟩, none⟩]

/-- The addresses of the board. -/
def trafficAddresses : Addresses := ⟨0xEE1122334455, 0x6CB311517434, 0xC0A80003, 0xC0A80001⟩

theorem held_traffic {n : ℕ} {i : EthernetBlock.Input 5} (h : i ∈ traffic n) :
    Held trafficAddresses i.udp := by
  have hedge : ∃ w reply, i = edge w reply := by
    rcases List.mem_append.1 h with h | h
    · rcases List.mem_append.1 h with h | h
      · rcases List.mem_append.1 h with h | h
        · rcases List.mem_pair.1 h with rfl | rfl <;> exact ⟨_, _, rfl⟩
        · exact ⟨_, _, List.eq_of_mem_replicate h⟩
      · exact ⟨_, _, List.mem_singleton.1 h⟩
    · exact ⟨_, _, List.eq_of_mem_replicate h⟩
  obtain ⟨w, reply, rfl⟩ := hedge
  exact ⟨rfl, rfl, rfl, rfl⟩

theorem carries_traffic :
    List.Forall₂ Carries (cut (Beat.eop ∘ Prod.fst) (taken (-1) (traffic 30))).1
      (trafficFrames.filter fun f => f.origin.isSome) := by
  rw [List.forall₂_iff_zip]
  refine ⟨by decide +kernel, fun {x f} h => ?_⟩
  have hall : ∀ p ∈ (cut (Beat.eop ∘ Prod.fst) (taken (-1) (traffic 30))).1.zip
      (trafficFrames.filter fun f => f.origin.isSome), Carries p.1 p.2 := by decide +kernel
  exact hall (x, f) h

theorem words_arrive_traffic :
    log step (heard .udp) FrameReciever.reset trafficFeed =
        [⟨0xCAFE, 0x3000, 0x3000, 0xC0A80003, 0xC0A80001, 0xEE1122334455⟩] ∧
      log step (heard .udp) FrameReciever.reset trafficFeed <+:
        (log EthernetBlock.step presented (EthernetBlock.reset (-1)) (traffic 30)).map
          (UdpDataBlock.heard trafficAddresses) :=
  ⟨by decide +kernel, (words_arrive (-1) (by decide +kernel) (by decide +kernel)
    (fun i hi => held_traffic hi) (by decide +kernel) (by decide +kernel) rfl
    (show ∀ f ∈ trafficFrames, 2 ≤ f.words.length by decide +kernel) carries_traffic
    (by decide +kernel)).2⟩

end FpgaEthernet.UdpLink
