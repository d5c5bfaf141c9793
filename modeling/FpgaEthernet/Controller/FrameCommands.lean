import FpgaEthernet.Controller.CommandPath
import FpgaEthernet.Ethernet.FrameSequence
import FpgaEthernet.Server.FlashContents

/-!
# From frames to accesses to the EPCQ memory

`ethernet_frame_reciever` before the way of the host's commands: frames of any type come in
on one of the interfaces, among them the UDP frames with the datagrams of the host.

Main results:

* `reading_destPort`: only a UDP frame has a port.
* `frame_comes`: what a frame puts on the inputs of `ethernet_data_router`.
* `frames_refine`: the accesses that are asked for are those that the datagrams in the
  frames stand for.
* `frames_firmware`: whatever frames come in beside those of `writeFirmware`, the accesses
  that they lead to store the file.
-/

namespace FpgaEthernet.FrameCommands

open Clocked OdileServer FrameReciever
open CommandPath (ManagerRead Event Quiet Brings Carries Undisturbed latency)
open EthernetDataRouter (Iface arrivals)
open Server (bswap32 bswap32_bswap32)

/-! ## Model -/

/-- The inputs of the receiver, and what `config_data_manager` asks for. -/
structure Input where
  rx : FrameReciever.Input
  cm : ManagerRead

/-- The receiver of an interface, and the way of the commands. -/
structure State where
  reciever : FrameReciever.State
  path : CommandPath.State

/-- The outputs of an Ethernet block (`ethernet_block.vhd` lines 558-563). -/
def blockOut (r : FrameReciever.State) : Iface where
  dataIn := r.frameWord
  dataValid := r.dataValid
  dataPort := r.destPort
  dataAddr := (r.sourceMacAddr ++ r.sourceIpAddr : BitVec 80)

/-- An interface without a word. -/
def noWord : Iface := ⟨0, false, 0, 0⟩

/-- The inputs of the router, with words on interface `k` only. -/
def ifaceInput (k : Fin 3) (x : Iface) : EthernetDataRouter.Input where
  iface0 := if k = 0 then x else noWord
  iface1 := if k = 1 then x else noWord
  iface2 := if k = 2 then x else noWord
  intDataIn := 0
  intValidIn := false
  intPortIn := 0

def pathInput (k : Fin 3) (cm : ManagerRead) (r : FrameReciever.State) : CommandPath.Input :=
  ⟨ifaceInput k (blockOut r), cm⟩

/-- One edge of `clock`. -/
def step (k : Fin 3) (i : Input) (s : State) : State where
  reciever := FrameReciever.step i.rx s.reciever
  path := CommandPath.step (pathInput k i.cm s.reciever) s.path

/-! ## Specification -/

/-- The words that the length field of a UDP frame covers, as far as the frame goes. -/
def payloadWords (ws : List Word) : List Word := (ws.drop 11).take (payloadCount ws)

/-- The datagram in a frame, with the words as the host has them. -/
def datagramOf (ws : List Word) : List Datagram :=
  if IsUdp ws then [⟨lo (wordAt ws 9), (payloadWords ws).map bswap32⟩] else []

/-- The frames come in: the words of each at consecutive edges, with any idle cycles before
    and after them. -/
inductive Receives : List (List Word) → List FrameReciever.Input → Prop
  | nil : Receives [] []
  | idle {i : FrameReciever.Input} {fs : List (List Word)} {is : List FrameReciever.Input} :
      i.rxDval = false → Receives fs is → Receives fs (i :: is)
  | frame {ws : List Word} {fs : List (List Word)} {xs is : List FrameReciever.Input} :
      2 ≤ ws.length → (∀ i ∈ xs, i.rxDval = true) → fed xs = framed ws → Receives fs is →
      Receives (ws :: fs) (xs ++ is)

/-! ## The outputs of a block -/

variable {ws : List Word} {n m : ℕ} {i : FrameReciever.Input} {s : FrameReciever.State}
  {fs : List (List Word)} {is : List FrameReciever.Input} {k : Fin 3} {x : Iface}
  {X : List Iface} {ds : List Datagram} {port : UdpPort}

/-- No word is put out but one of a ping, which has no port. -/
def Portless (x : Iface) : Prop := x.dataValid = true → x.dataPort = 0

/-- A word is put out. -/
def Puts (port : UdpPort) (w : Word) (x : Iface) : Prop :=
  x.dataValid = true ∧ x.dataPort = port ∧ x.dataIn = w

/-- What is put out at word `n` of a frame. -/
def Shows (ws : List Word) (n : ℕ) (x : Iface) : Prop :=
  if IsUdp ws ∧ 11 ≤ n ∧ n < 11 + payloadCount ws then Puts (lo (wordAt ws 9)) (wordAt ws n) x
  else Portless x

/-- The port of a frame that is not UDP stays zero. -/
theorem wordParser_destPort (h : Fields ws n s) (hs : s.wordNum = n) (hudp : ¬IsUdp ws)
    (hport : 1 ≤ n → s.destPort = 0) : (wordParser i s).destPort = 0 := by
  rcases Nat.eq_zero_or_pos n with rfl | hn
  · simp [wordParser, parseEthernet, hs]
  have hzero := hport hn
  by_cases h4 : n < 4
  · have hkeep : (parseEthernet i s).destPort = s.destPort := by
      unfold parseEthernet
      rw [hs, if_neg (by omega)]
      split_ifs <;> rfl
    rw [wordParser, hs, if_pos h4, hkeep, hzero]
  by_cases hip : s.ethertypeSig = ethIPv4
  · have hty : IsIpv4 ws := (h.ethertype (by omega)).symm.trans hip
    have hkeep : (parseIpv4 i s).destPort = s.destPort := by
      unfold parseIpv4 parseIcmp
      split_ifs with h4 h6 h7 h8 hp hp'
      · rfl
      · rfl
      · rfl
      · rfl
      · have hprotocol := (h.protocol (by omega) hty).symm.trans hp.2
        exact absurd ⟨hty, hprotocol⟩ hudp
      all_goals rfl
    rw [wordParser, hs, if_neg h4, if_pos hip, hkeep, hzero]
  · have hkeep : (wordParser i s).destPort = s.destPort := by
      unfold wordParser parseArp
      rw [hs, if_neg h4, if_neg hip]
      split_ifs <;> rfl
    rw [hkeep, hzero]

/-- One word of a frame. -/
theorem shows_step (h : Reading ws n s) (hport : 1 ≤ n → ¬IsUdp ws → s.destPort = 0)
    (hv : i.rxDval = true) (hlt : n < ws.length) (h2 : 2 ≤ ws.length)
    (hd : i.rxData = wordAt ws n) (hsop : i.rxSop = decide (n = 0))
    (heop : i.rxEop = decide (n + 1 = ws.length)) :
    Shows ws n (blockOut (FrameReciever.step i s)) ∧
      (¬IsUdp ws → (FrameReciever.step i s).destPort = 0) := by
  obtain ⟨hread, hobs⟩ := h.step hv hlt h2 hd hsop heop
  have hs : s.wordNum = n := by rw [h.wordNum, if_neg (by omega)]
  have hno : ¬IsUdp ws → (FrameReciever.step i s).destPort = 0 := by
    intro hudp
    obtain ⟨a, b, hstep⟩ := step_word (s := s) hv
    rw [hstep]
    exact wordParser_destPort h.toFields hs hudp fun hn => hport hn hudp
  refine ⟨?_, hno⟩
  rw [observed, if_pos hv, List.singleton_inj] at hobs
  unfold Shows
  unfold udpOut deliveryAt at hobs
  dsimp only at hobs
  by_cases hcover : IsUdp ws ∧ 11 ≤ n ∧ n < 11 + payloadCount ws
  · rw [if_pos hcover] at hobs ⊢
    split_ifs at hobs with hvalid
    obtain ⟨hdata, hdest, -⟩ := Delivery.mk.inj (Option.some_injective _ hobs)
    exact ⟨hvalid.1, hdest, hdata⟩
  · rw [if_neg hcover] at hobs ⊢
    split_ifs at hobs with hvalid
    intro hdval
    by_cases hudp : IsUdp ws
    · exact absurd ⟨hdval, hread.ping (by omega) hudp⟩ hvalid
    · exact hno hudp

/-- What is put out after every edge. -/
def shown (s : FrameReciever.State) (is : List FrameReciever.Input) : List Iface :=
  log FrameReciever.step (fun i s => [blockOut (FrameReciever.step i s)]) s is

/-- The words of a frame, or of a beginning of it. -/
theorem shows_run (h2 : 2 ≤ ws.length) (hs : s.wordNum = 0) (his : ∀ i ∈ is, i.rxDval = true)
    (hfed : fed is <+: framed ws) :
    List.Forall₂ (Shows ws) (List.range (fed is).length) (shown s is) ∧
      (1 ≤ (fed is).length → ¬IsUdp ws → (run FrameReciever.step s is).destPort = 0) := by
  induction is using List.reverseRecOn with
  | nil => exact ⟨.nil, fun h => absurd h (Nat.not_succ_le_zero 0)⟩
  | append_singleton is i ih =>
    have hv : i.rxDval = true := his i (by simp)
    have hone : fed [i] = [⟨i.rxData, i.rxSop, i.rxEop⟩] := by simp [fed, hv]
    have hcat : fed (is ++ [i]) = fed is ++ [⟨i.rxData, i.rxSop, i.rxEop⟩] := by
      rw [← hone]
      exact List.filterMap_append
    rw [hcat] at hfed ⊢
    have hbefore : fed is <+: framed ws := (List.prefix_append _ _).trans hfed
    obtain ⟨hshows, hport⟩ := ih (fun j hj => his j (List.mem_append_left _ hj)) hbefore
    have hread := (reading_run h2 hs is hbefore).1
    have hlt : (fed is).length < ws.length := by
      have hle := hfed.length_le
      rw [framed_length, List.length_append, List.length_singleton] at hle
      omega
    have hbeat := getElem?_of_isPrefix hfed (List.getElem?_concat_length ..)
    rw [framed_getElem? ws hlt, Option.some.injEq, Beat.mk.injEq] at hbeat
    obtain ⟨hd, hsop, heop⟩ := hbeat
    obtain ⟨hword, hzero⟩ := shows_step hread hport hv hlt h2 hd.symm hsop.symm heop.symm
    rw [List.length_append, List.length_singleton, List.range_succ, shown, log_concat, run_concat]
    exact ⟨List.rel_append hshows (.cons hword .nil), fun _ => hzero⟩

/-! ## What comes to the router -/

/-- The datagrams are put out, the first of them after `m` edges at least. -/
inductive Comes : ℕ → List Datagram → List Iface → Prop
  | nil : Comes 0 [] []
  | quiet {m : ℕ} {x : Iface} {ds : List Datagram} {X : List Iface} :
      Portless x → Comes (m - 1) ds X → Comes m ds (x :: X)
  | datagram {d : Datagram} {ds : List Datagram} {xs X : List Iface} :
      List.Forall₂ (fun w x => Puts d.port (bswap32 w) x) d.data xs → Comes latency ds X →
      Comes 0 (d :: ds) (xs ++ X)

theorem Comes.append (hq : ∀ x ∈ X, Portless x) {Y : List Iface}
    (h : Comes (m - X.length) ds Y) : Comes m ds (X ++ Y) := by
  induction X generalizing m with
  | nil => exact h
  | cons x X ih =>
    obtain ⟨hx, hX⟩ := List.forall_mem_cons.1 hq
    rw [List.length_cons, Nat.add_comm, ← Nat.sub_sub] at h
    exact .quiet hx (ih hX h)

theorem comes_nil (hq : ∀ x ∈ X, Portless x) (hlen : m ≤ X.length) : Comes m [] X := by
  have h := Comes.append (m := m) (Y := []) hq (by rw [Nat.sub_eq_zero_of_le hlen]; exact .nil)
  rwa [List.append_nil] at h

/-- The protocol is in word 6. -/
theorem seven_le_of_isUdp (h : IsUdp ws) : 7 ≤ ws.length := by
  by_contra hlt
  have hzero : wordAt ws 6 = 0 := by
    rw [wordAt, List.getD_eq_getElem?_getD, List.getElem?_eq_none (by omega)]
    rfl
  have hproto := h.2
  rw [hzero] at hproto
  exact absurd hproto (by decide)

/-- A frame: its header is longer than the way of a command. -/
theorem frame_comes (h : List.Forall₂ (Shows ws) (List.range ws.length) X) (hm : m ≤ latency)
    {Y : List Iface} (hY : ∀ m ≤ latency, Comes m ds Y) :
    Comes m (datagramOf ws ++ ds) (X ++ Y) := by
  have hlen := h.length_eq
  rw [List.length_range] at hlen
  have hportless : ∀ n x, X[n]? = some x →
      ¬(IsUdp ws ∧ 11 ≤ n ∧ n < 11 + payloadCount ws) → Portless x := by
    intro n x hx hn
    obtain ⟨hlt, rfl⟩ := List.getElem?_eq_some_iff.1 hx
    have hshows := h.get (i := n) (by rwa [List.length_range, hlen]) hlt
    simp only [List.get_eq_getElem, List.getElem_range] at hshows
    rwa [Shows, if_neg hn] at hshows
  unfold datagramOf
  by_cases hudp : IsUdp ws
  · have hcount : payloadCount ws ≤ ws.length - 11 := Nat.min_le_right _ _
    have hlong := seven_le_of_isUdp hudp
    have hsplit : X ++ Y = X.take 11 ++ ((X.drop 11).take (payloadCount ws) ++
        ((X.drop 11).drop (payloadCount ws) ++ Y)) := by
      rw [← List.append_assoc, ← List.append_assoc, List.append_assoc (X.take 11),
        List.take_append_drop, List.take_append_drop]
    have hheader : m - (X.take 11).length = 0 := by
      rw [List.length_take, ← hlen]
      unfold latency at hm
      omega
    rw [if_pos hudp, List.singleton_append, hsplit]
    refine .append (fun x hx => ?_) (hheader ▸ .datagram ?_ (.append (fun x hx => ?_) (hY _ ?_)))
    · obtain ⟨n, hn⟩ := List.mem_iff_getElem?.1 hx
      rw [List.getElem?_take] at hn
      split_ifs at hn with h11
      exact hportless n x hn fun hc => by omega
    · rw [List.forall₂_map_left_iff, List.forall₂_iff_get]
      have hpayload : (payloadWords ws).length = payloadCount ws := by
        rw [payloadWords, List.length_take_of_le (by rwa [List.length_drop])]
      have hlengths : (payloadWords ws).length = ((X.drop 11).take (payloadCount ws)).length := by
        rw [hpayload, List.length_take_of_le (by rwa [List.length_drop, ← hlen])]
      refine ⟨hlengths, fun n hn hn' => ?_⟩
      rw [hpayload] at hn
      have hshows := h.get (i := 11 + n) (by rw [List.length_range]; omega) (by omega)
      simp only [List.get_eq_getElem, List.getElem_range] at hshows
      rw [Shows, if_pos ⟨hudp, by omega, by omega⟩] at hshows
      have hword : wordAt ws (11 + n) = (payloadWords ws)[n] := by
        rw [wordAt, List.getD_eq_getElem?_getD, List.getElem?_eq_getElem (by omega)]
        simp [payloadWords]
      rw [bswap32_bswap32]
      simpa [hword] using hshows
    · obtain ⟨n, hn⟩ := List.mem_iff_getElem?.1 hx
      rw [List.getElem?_drop, List.getElem?_drop] at hn
      exact hportless _ x hn fun hc => by omega
    · omega
  · rw [if_neg hudp, List.nil_append]
    refine .append (fun x hx => ?_) (hY _ (by omega))
    obtain ⟨n, hn⟩ := List.mem_iff_getElem?.1 hx
    exact hportless n x hn fun hc => hudp hc.1

/-- The datagrams in frames. -/
def datagrams (fs : List (List Word)) : List Datagram := fs.flatMap datagramOf

theorem shown_idle (his : ∀ i ∈ is, i.rxDval = false) :
    (∀ x ∈ shown s is, Portless x) ∧ (shown s is).length = is.length := by
  induction is generalizing s with
  | nil => exact ⟨fun _ hx => absurd hx List.not_mem_nil, rfl⟩
  | cons i is ih =>
    obtain ⟨hi, his⟩ := List.forall_mem_cons.1 his
    obtain ⟨hquiet, hlen⟩ := ih (s := FrameReciever.step i s) his
    refine ⟨List.forall_mem_cons.2 ⟨fun hv => ?_, hquiet⟩, congrArg Nat.succ hlen⟩
    have hnone : (FrameReciever.step i s).dataValid = false := by simp [FrameReciever.step, hi]
    exact absurd (hv.symm.trans hnone) Bool.noConfusion

/-- Frames with idle cycles after them. -/
theorem receives_comes {idle : List FrameReciever.Input} (hr : Receives fs is)
    (hs : s.wordNum = 0) (hidle : ∀ i ∈ idle, i.rxDval = false) (hlen : idle.length = latency)
    (hm : m ≤ latency) : Comes m (datagrams fs) (shown s (is ++ idle)) := by
  induction hr generalizing s m with
  | nil =>
    obtain ⟨hquiet, hshown⟩ := shown_idle (s := s) hidle
    exact comes_nil hquiet (by rwa [List.nil_append, hshown, hlen])
  | @idle i fs is hi _ ih =>
    have hnum : (FrameReciever.step i s).wordNum = 0 := by simp [FrameReciever.step, hi, hs]
    have hquiet : Portless (blockOut (FrameReciever.step i s)) :=
      (shown_idle (s := s) (List.forall_mem_singleton.2 hi)).1 _ List.mem_cons_self
    exact .quiet hquiet (ih hnum (by omega))
  | @frame ws fs xs is h2 hxs hfed _ ih =>
    have hshows := (shows_run h2 hs hxs (by rw [hfed])).1
    rw [hfed, framed_length] at hshows
    have hnum := (observed_frame h2 hs xs hfed).1
    rw [List.append_assoc, shown, log_append]
    exact frame_comes hshows hm fun m hm => ih hnum hm

/-! ## On one interface -/

/-- `source_iface` for interface `k`. -/
def source (k : Fin 3) : BitVec 4 := ![0b0001, 0b0010, 0b0100] k

theorem source_ne : ∀ k, source k ≠ 0b1000 := by decide

theorem arrivals_ifaceInput (k : Fin 3) (x : Iface) : arrivals (ifaceInput k x) =
    if x.dataValid then [⟨source k, x.dataIn, x.dataPort, x.dataAddr⟩] else [] := by
  fin_cases k <;> simp [arrivals, ifaceInput, Iface.arrival, noWord, source,
    EthernetDataRouter.Input.intArrival]

theorem quiet_of_portless {j : CommandPath.Input} (hx : Portless x) (hj : j.eth = ifaceInput k x) :
    Quiet j := by
  intro a ha
  rw [hj, arrivals_ifaceInput] at ha
  split_ifs at ha with hv
  · obtain rfl := List.mem_singleton.1 ha
    dsimp only
    rw [hx hv]
    decide
  · cases ha

theorem brings_of_puts {w : Word} {j : CommandPath.Input} (hx : Puts port w x)
    (hj : j.eth = ifaceInput k x) : Brings port w j := by
  obtain ⟨hv, rfl, rfl⟩ := hx
  exact ⟨_, by rw [hj, arrivals_ifaceInput, if_pos hv], rfl, rfl, source_ne k⟩

theorem brings_of_forall₂ {data : List Word} {js : List CommandPath.Input}
    (hX : List.Forall₂ (fun w x => Puts port (bswap32 w) x) data X)
    (hjs : js.map CommandPath.Input.eth = X.map (ifaceInput k)) :
    List.Forall₂ (fun w j => Brings port (bswap32 w) j) data js := by
  induction hX generalizing js with
  | nil =>
    obtain rfl := List.map_eq_nil_iff.1 hjs
    exact .nil
  | cons hx _ ih =>
    obtain ⟨j, js, rfl, hj, hjs⟩ := List.map_eq_cons_iff.1 hjs
    exact .cons (brings_of_puts hx hj) (ih hjs)

/-- What comes to the router on one interface. -/
theorem carries_of_comes (h : Comes m ds X) {js : List CommandPath.Input}
    (hjs : js.map CommandPath.Input.eth = X.map (ifaceInput k)) :
    ∃ gap rest, js = gap ++ rest ∧ gap.length = m ∧ (∀ j ∈ gap, Quiet j) ∧ Carries ds rest := by
  induction h generalizing js with
  | nil =>
    obtain rfl := List.map_eq_nil_iff.1 hjs
    exact ⟨[], [], rfl, rfl, by simp, .nil⟩
  | @quiet m x ds X hx _ ih =>
    obtain ⟨j, js, rfl, hj, hjs⟩ := List.map_eq_cons_iff.1 hjs
    have hquiet := quiet_of_portless hx hj
    obtain ⟨gap, rest, rfl, hlen, hgap, hrest⟩ := ih hjs
    cases m with
    | zero =>
      obtain rfl := List.length_eq_zero_iff.1 hlen
      exact ⟨[], j :: rest, rfl, rfl, by simp, .quiet hquiet hrest⟩
    | succ m =>
      exact ⟨j :: gap, rest, rfl, congrArg Nat.succ hlen, List.forall_mem_cons.2 ⟨hquiet, hgap⟩,
        hrest⟩
  | @datagram d ds xs X hxs _ ih =>
    rw [List.map_append] at hjs
    obtain ⟨ws, js, rfl, hws, hjs⟩ := List.map_eq_append_iff.1 hjs
    obtain ⟨gap, rest, rfl, hlen, hgap, hrest⟩ := ih hjs
    refine ⟨[], ws ++ (gap ++ rest), rfl, rfl, by simp, ?_⟩
    rw [← List.append_assoc]
    exact .datagram (brings_of_forall₂ hxs hws) hlen hgap hrest

/-! ## Accesses -/

/-- The registers at power-up. -/
def initial : State := ⟨FrameReciever.reset, CommandPath.initial⟩

/-- What happens at `epcqio_control`. -/
def events (k : Fin 3) (j : Input) (y : State) : List Event :=
  CommandPath.events (pathInput k j.cm y.reciever) y.path

variable {js rest : List Input} {y : State}

/-- The inputs of the way of the commands. -/
def pathInputs (k : Fin 3) (y : State) (js : List Input) : List CommandPath.Input :=
  log (step k) (fun j y => [pathInput k j.cm y.reciever]) y js

theorem pathInputs_eth : (pathInputs k y js).map CommandPath.Input.eth =
    (log FrameReciever.step (fun _ s => [blockOut s]) y.reciever (js.map Input.rx)).map
      (ifaceInput k) := by
  unfold pathInputs
  induction js generalizing y with
  | nil => rfl
  | cons j js ih =>
    rw [List.map_cons, log_cons, log_cons, List.map_append, List.map_append, ih]
    rfl

theorem pathInputs_undisturbed (hjs : ∀ j ∈ js, j.cm.readData = false) :
    ∀ i ∈ pathInputs k y js, Undisturbed i := by
  intro i hi
  obtain ⟨js', j, hpre, hmem⟩ := (mem_log_iff _).1 hi
  obtain rfl := List.mem_singleton.1 hmem
  exact hjs j (hpre.subset (by simp))

/-- Frames on an interface, and idle cycles until all that they ask for has come to
    `epcqio_control`. -/
structure FramesRun (fs : List (List Word)) (js rest : List Input) : Prop where
  receives : Receives fs (js.map Input.rx)
  idle : ∀ j ∈ rest, j.rx.rxDval = false
  length : rest.length = latency + 1
  undisturbed : ∀ j ∈ js ++ rest, j.cm.readData = false

/-- What the frames ask for is what the datagrams in them say. -/
theorem frames_does (h : FramesRun fs js rest) (hs : y.reciever.wordNum = 0)
    (hquiet : y.reciever.dataValid = false) (hrest : CommandPath.AtRest y.path)
    (hwf : ∀ x ∈ datagrams fs, CommandPath.WellFormed x) (b : List Word) :
    CommandPath.Does y.path (run (step k) y (js ++ rest)).path
      (log (step k) (events k) y (js ++ rest)) b (datagrams fs) := by
  obtain ⟨is, j, hidle⟩ := (List.eq_nil_or_concat rest).resolve_left
    (List.ne_nil_of_length_pos (by rw [h.length]; decide))
  rw [List.concat_eq_append] at hidle
  have hlen : (is.map Input.rx).length = latency := by
    have hlength := h.length
    rw [hidle, List.length_append] at hlength
    rw [List.length_map]
    exact Nat.succ_injective hlength
  have hidle' : ∀ i ∈ is.map Input.rx, i.rxDval = false := by
    intro i hi
    obtain ⟨j', hj', rfl⟩ := List.mem_map.1 hi
    exact h.idle j' (by simp [hidle, hj'])
  have hcomes := Comes.quiet (m := 0)
    (show Portless (blockOut y.reciever) from fun hv => absurd (hv.symm.trans hquiet)
      Bool.noConfusion)
    (receives_comes h.receives hs hidle' hlen (Nat.zero_le _))
  have heth : (pathInputs k y (js ++ rest)).map CommandPath.Input.eth =
      (blockOut y.reciever :: shown y.reciever (js.map Input.rx ++ is.map Input.rx)).map
        (ifaceInput k) := by
    rw [pathInputs_eth, hidle, ← List.append_assoc, List.map_append, List.map_cons, List.map_nil,
      log_before, List.map_append]
    rfl
  obtain ⟨gap, is', hsplit, hgap, -, hcarries⟩ := carries_of_comes hcomes heth
  obtain rfl := List.length_eq_zero_iff.1 hgap
  rw [List.nil_append] at hsplit
  rw [← hsplit] at hcarries
  have hpath : (run (step k) y (js ++ rest)).path = run CommandPath.step y.path
      (pathInputs k y (js ++ rest)) :=
    run_driven (step k) (p := State.path) (fun _ _ => rfl) y (js ++ rest)
  have hevents : log (step k) (events k) y (js ++ rest) = log CommandPath.step CommandPath.events
      y.path (pathInputs k y (js ++ rest)) :=
    log_driven (step k) (p := State.path) (fun _ _ => rfl) CommandPath.events y (js ++ rest)
  rw [hpath, hevents]
  exact (CommandPath.does_run hrest hcarries (pathInputs_undisturbed h.undisturbed) hwf b).2

/-! ## Frames of the host -/

/-- A frame with a datagram of the host. -/
def hostFrame (d : Datagram) : List Word :=
  [0x0000EE11, 0x22334455, 0x6CB31151, 0x74340800, 0x45000000, 0, 0x40110000, 0xC0A80001,
    0xC0A80003, (0x4268#16 ++ d.port : BitVec 32),
    (BitVec.ofNat 16 (8 + 4 * d.data.length) ++ 0#16 : BitVec 32)] ++ d.data.map bswap32

theorem datagramOf_hostFrame {d : Datagram} (h : d.data.length < 16382) :
    datagramOf (hostFrame d) = [d] := by
  have hudp : IsUdp (hostFrame d) :=
    ⟨show lo (0x74340800 : Word) = ethIPv4 by decide,
      show (0x40110000 : Word).extractLsb' 16 8 = protoUdp by decide⟩
  have hport : lo (wordAt (hostFrame d) 9) = d.port := BitVec.extractLsb'_append_eq_right
  have hfield : (hi (wordAt (hostFrame d) 10)).toNat = 8 + 4 * d.data.length := by
    show (hi (BitVec.ofNat 16 (8 + 4 * d.data.length) ++ 0#16 : BitVec 32)).toNat = _
    rw [show hi (BitVec.ofNat 16 (8 + 4 * d.data.length) ++ 0#16 : BitVec 32) =
      BitVec.ofNat 16 (8 + 4 * d.data.length) from BitVec.extractLsb'_append_eq_left,
      BitVec.toNat_ofNat]
    omega
  have hlength : (hostFrame d).length = 11 + d.data.length := by
    rw [hostFrame, List.length_append, List.length_map]
    rfl
  have hcount : payloadCount (hostFrame d) = d.data.length := by
    rw [payloadCount, hfield, hlength]
    omega
  have hpayload : payloadWords (hostFrame d) = d.data.map bswap32 := by
    rw [payloadWords, hcount, show (hostFrame d).drop 11 = d.data.map bswap32 from rfl]
    exact List.take_of_length_le (by rw [List.length_map])
  rw [datagramOf, if_pos hudp, hport, hpayload, map_bswap32_map]

/-- The words of a frame at consecutive edges. -/
def feedFrame (ws : List Word) : List Input :=
  (framed ws).map fun b => ⟨⟨b.data, b.eop, b.sop, true, 0⟩, ⟨false, 0, 0⟩⟩

/-- An edge at which nothing comes in. -/
def idleInput : Input := ⟨⟨0, false, false, false, 0⟩, ⟨false, 0, 0⟩⟩

theorem framesRun_feed (h2 : ∀ ws ∈ fs, 2 ≤ ws.length) :
    FramesRun fs (fs.flatMap feedFrame) (List.replicate (latency + 1) idleInput) where
  receives := by
    induction fs with
    | nil => exact .nil
    | cons ws fs ih =>
      obtain ⟨h, h2⟩ := List.forall_mem_cons.1 h2
      rw [List.flatMap_cons, List.map_append]
      refine .frame h (fun i hi => ?_) ?_ (ih h2)
      · obtain ⟨j, hj, rfl⟩ := List.mem_map.1 hi
        obtain ⟨b, -, rfl⟩ := List.mem_map.1 hj
        rfl
      · rw [feedFrame, List.map_map, fed, List.filterMap_map]
        exact List.filterMap_some
  idle j hj := by
    rw [List.eq_of_mem_replicate hj]
    rfl
  length := List.length_replicate
  undisturbed j hj := by
    rcases List.mem_append.1 hj with hj | hj
    · obtain ⟨ws, -, hj⟩ := List.mem_flatMap.1 hj
      obtain ⟨b, -, rfl⟩ := List.mem_map.1 hj
      rfl
    · rw [List.eq_of_mem_replicate hj]
      rfl

/-! ## From power-up -/

/-- From power-up, whatever frames come in, the words of each at consecutive edges and any idle
    edges between them: the accesses that `epcqio_control` is asked for are those that the
    datagrams in the UDP frames stand for on the side of the host, and so are the address and
    the words that are left in the write buffer. -/
theorem frames_refine (k : Fin 3) (h : FramesRun fs js rest)
    (hwf : ∀ x ∈ datagrams fs, CommandPath.WellFormed x) :
    CommandPath.accesses [] (log (step k) (events k) initial (js ++ rest)) =
        Device.accesses ⟨0, []⟩ (datagrams fs) ∧
      (run (step k) initial (js ++ rest)).path.controller.settings.epcqioAddressReg =
        (Device.after ⟨0, []⟩ (datagrams fs)).address ∧
      CommandPath.bufferAfter [] (log (step k) (events k) initial (js ++ rest)) =
        (Device.after ⟨0, []⟩ (datagrams fs)).buffer.map bswap32 := by
  obtain ⟨hacc, haddr, hbuf⟩ := frames_does (k := k) (y := initial) h rfl rfl
    CommandPath.atRest_initial hwf []
  exact ⟨hacc, haddr, hbuf⟩

/-- An ARP request, and the frames of the datagrams that write a page and read it back. -/
def storePageFrames : List (List Word) :=
  [0xFFFFFFFF, 0xFFFF6CB3, 0x11517434, 0x08060001, 0x08000604, 0x00010000] ::
    CommandPath.storePageRun.map hostFrame

theorem frames_refine_storePage :
    CommandPath.accesses [] (log (step 1) (events 1) initial
        (storePageFrames.flatMap feedFrame ++ List.replicate (latency + 1) idleInput)) =
        Device.accesses ⟨0, []⟩ (datagrams storePageFrames) ∧
      (run (step 1) initial (storePageFrames.flatMap feedFrame ++
          List.replicate (latency + 1) idleInput)).path.controller.settings.epcqioAddressReg =
        (Device.after ⟨0, []⟩ (datagrams storePageFrames)).address ∧
      CommandPath.bufferAfter [] (log (step 1) (events 1) initial
          (storePageFrames.flatMap feedFrame ++ List.replicate (latency + 1) idleInput)) =
        (Device.after ⟨0, []⟩ (datagrams storePageFrames)).buffer.map bswap32 := by
  have hdatagrams : datagrams storePageFrames = CommandPath.storePageRun := by decide +kernel
  refine frames_refine 1 (framesRun_feed (by decide +kernel)) ?_
  rw [hdatagrams]
  exact fun _ => CommandPath.wellFormed_pageDatagrams (by decide)

/-! ## Firmware -/

/-- The datagrams that the controller or the EPCQ takes. -/
def hostDatagrams (fs : List (List Word)) : List Datagram :=
  (datagrams fs).filter fun d => d.port = commandPort ∨ d.port = firmwarePort

theorem accesses_hostDatagrams (s : Device) (fs : List (List Word)) :
    s.accesses (hostDatagrams fs) = s.accesses (datagrams fs) := by
  have hop : ∀ d : Datagram, ¬(d.port = commandPort ∨ d.port = firmwarePort) → d.op = none := by
    intro d hd
    rw [not_or] at hd
    rw [Datagram.op, if_neg hd.2, if_neg hd.1]
  rw [Device.accesses, Device.accesses, hostDatagrams, List.filterMap_filter]
  refine congrArg (log Device.step Device.access s) (List.filterMap_congr fun d _ => ?_)
  by_cases hd : d.port = commandPort ∨ d.port = firmwarePort
  · simp [hd]
  · simp [hd, hop d hd]

/-- If the frames carry the commands and the words of `writeFirmware`, told of what is in
    the memory, then whatever frames come in beside them, the accesses that `epcqio_control`
    is asked for store the file, and wherever the run is cut they keep the erase
    discipline. -/
theorem frames_firmware {mapfile : List Char} {endAddress startAddress : Word}
    (hend : endAddressOf mapfile = some endAddress)
    (halign : startAddress.toNat % sectorBytes = 0)
    (hfits : startAddress.toNat + pageSizeBytes * (endAddress.toNat / pageSizeBytes + 1) ≤ 2 ^ 32)
    (f : Epcq.Flash) (ifile : Ifile) (k : Fin 3) (h : FramesRun fs js rest)
    (hhost : hostDatagrams fs =
      ((writeFirmware (memoryReplies f ⟨0, []⟩) mapfile ifile startAddress).run []).2) :
    (CommandPath.accesses [] (log (step k) (events k) initial (js ++ rest))).foldl stored f =
        filled f startAddress
          (fileWords (pageSizeWords * (endAddress.toNat / pageSizeBytes + 1)) ifile) ∧
      ∀ xs, xs <+: js ++ rest → ErasesFirst startAddress
        (CommandPath.accesses [] (log (step k) (events k) initial xs)) := by
  have hwf : ∀ x ∈ datagrams fs, CommandPath.WellFormed x := by
    intro x hx hport
    have hmem : x ∈ hostDatagrams fs := List.mem_filter.2 ⟨hx, by simp [hport]⟩
    rw [hhost] at hmem
    exact CommandPath.wellFormed_writeFirmware hend halign _ ifile x hmem hport
  have hacc := (frames_does (k := k) (y := initial) h rfl rfl CommandPath.atRest_initial hwf
    []).accesses
  change CommandPath.accesses [] _ = Device.accesses ⟨0, []⟩ _ at hacc
  rw [← accesses_hostDatagrams, hhost] at hacc
  refine ⟨?_, fun xs hxs => ?_⟩
  · rw [hacc]
    exact (writeFirmware_memory hend halign hfits f ⟨0, []⟩ ifile).2
  · refine CommandPath.erasesFirst_writeFirmware hend halign hfits
      (memoryReplies f ⟨0, []⟩) ifile ⟨0, []⟩ ?_
    rw [← hacc]
    exact CommandPath.accesses_isPrefix _ (log_isPrefix _ _ _ hxs)

/-- The frames of a file of four bytes, two pages in the flash. -/
def firmwareFrames : List (List Word) :=
  ((writeFirmware (memoryReplies (fun _ => 0) ⟨0, []⟩) twoPages ⟨0, [0xCA, 0xFE, 0x12, 0x34]⟩
    0x01000000).run []).2.map hostFrame

theorem frames_firmware_twoPages :
    (CommandPath.accesses [] (log (step 0) (events 0) initial (firmwareFrames.flatMap feedFrame ++
        List.replicate (latency + 1) idleInput))).foldl stored (fun _ => 0) =
        filled (fun _ => 0) 0x01000000 (fileWords 128 ⟨0, [0xCA, 0xFE, 0x12, 0x34]⟩) ∧
      ∀ xs, xs <+: firmwareFrames.flatMap feedFrame ++ List.replicate (latency + 1) idleInput →
        ErasesFirst 0x01000000 (CommandPath.accesses [] (log (step 0) (events 0) initial xs)) :=
  frames_firmware (show endAddressOf twoPages = some 0x1FF by decide) (by decide) (by decide)
    (fun _ => 0) ⟨0, [0xCA, 0xFE, 0x12, 0x34]⟩ 0 (framesRun_feed (by decide +kernel))
    (by decide +kernel)

end FpgaEthernet.FrameCommands
