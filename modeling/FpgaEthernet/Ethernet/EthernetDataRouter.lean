import FpgaEthernet.Clocked.Run
import FpgaEthernet.ConfigScanner.ConfigBlockScanner
import FpgaEthernet.Flash.UdpInterface

/-!
# `ethernet_data_router`

Model of `ethernet/ethernet_data_router.vhd`: the words of the three Ethernet blocks
and of the configuration manager are routed by their port to the configuration
lines, the loopback buffers and the EPCQ write buffer, and all of them are passed on
to the rest of the logic. Every output takes the first of the inputs that has a word
for it. The asynchronous reset is left out: `initial` is what it leaves, and a run has none.

Main results:

* `words_step`, `passed_step`: what an edge puts on the outputs.
* `routed_iff`: over any run, an output has all the words for it, in order, iff
  there are never two of them at an edge.
-/

namespace FpgaEthernet

/-- `UDP_PORT_BASES` (`eth_common.vhd` lines 82-84). -/
def udpPortBases (k : Fin 3) : UdpPort := ![0x1000, 0x1100, 0x1200] k

/-- `UDP_PORT_LOOPBACKS` (lines 85-87). -/
def udpPortLoopbacks (k : Fin 3) : UdpPort := udpPortBases k ||| 0x0004

namespace EthernetDataRouter

open Clocked

/-! ## Model -/

/-- The input ports of an interface, `data_in0`, `data_valid0`, `data_port0` and
    `data_addr0` (`ethernet_data_router.vhd` lines 42-45). -/
structure Iface where
  dataIn : Word
  dataValid : Bool
  dataPort : UdpPort
  dataAddr : BitVec 80
  deriving DecidableEq

/-- The input ports (lines 42-59). -/
structure Input where
  iface0 : Iface
  iface1 : Iface
  iface2 : Iface
  intDataIn : Word
  intValidIn : Bool
  intPortIn : UdpPort
  deriving DecidableEq

/-- The output registers (lines 66-93). -/
structure State where
  configDataOut : Word
  configValid : Bool
  loopbackData : Fin 3 → Word
  loopbackWrreqs : Fin 3 → Bool
  epcqioDataOut : Word
  epcqioValid : Bool
  ethDataOut : Word
  ethDataPort : UdpPort
  ethDataValid : Bool
  ethDataAddr : BitVec 80
  sourceIfaceReg : BitVec 4

/-- The registers at power-up. -/
def initial : State where
  configDataOut := 0
  configValid := false
  loopbackData := fun _ => 0
  loopbackWrreqs := fun _ => false
  epcqioDataOut := 0
  epcqioValid := false
  ethDataOut := 0
  ethDataPort := 0
  ethDataValid := false
  ethDataAddr := 0
  sourceIfaceReg := 0

/-- An interface has a valid word for `port`. -/
def Iface.HasWord (port : UdpPort) (x : Iface) : Prop := x.dataValid = true ∧ x.dataPort = port

instance (port : UdpPort) : DecidablePred (Iface.HasWord port) :=
  fun _ => inferInstanceAs (Decidable (_ ∧ _))

/-- The routers of a port: the data and valid lines, with `intValid` for the valid line
    if the word comes from the internal source. -/
def route (port : UdpPort) (intValid : Bool) (i : Input) : Word × Bool :=
  if i.iface0.HasWord port then (i.iface0.dataIn, true)
  else if i.iface1.HasWord port then (i.iface1.dataIn, true)
  else if i.iface2.HasWord port then (i.iface2.dataIn, true)
  else if i.intValidIn = true ∧ i.intPortIn = port then (i.intDataIn, intValid)
  else (0, false)

/-- `config_router` (lines 114-149). -/
def configRouter (i : Input) : Word × Bool := route udpPortConfig true i

/-- `loopback_routers` (lines 154-191). -/
def loopbackRouters (k : Fin 3) (i : Input) : Word × Bool := route (udpPortLoopbacks k) true i

/-- `epcqio_router` (lines 198-233): internal data is not written to the EPCQ. -/
def epcqioRouter (i : Input) : Word × Bool := route udpPortEpcqio false i

/-- The address of internal data (line 263). -/
def intDataAddr : BitVec 80 := 0x000000000000_7F000001

/-- `data_passthrough` (lines 240-270). -/
def dataPassthrough (i : Input) (s : State) : State :=
  if i.iface0.dataValid then
    { s with
      ethDataOut := i.iface0.dataIn
      ethDataPort := i.iface0.dataPort
      ethDataValid := true
      ethDataAddr := i.iface0.dataAddr }
  else if i.iface1.dataValid then
    { s with
      ethDataOut := i.iface1.dataIn
      ethDataPort := i.iface1.dataPort
      ethDataValid := true
      ethDataAddr := i.iface1.dataAddr }
  else if i.iface2.dataValid then
    { s with
      ethDataOut := i.iface2.dataIn
      ethDataPort := i.iface2.dataPort
      ethDataValid := true
      ethDataAddr := i.iface2.dataAddr }
  else if i.intValidIn then
    { s with
      ethDataOut := i.intDataIn
      ethDataPort := i.intPortIn
      ethDataValid := true
      ethDataAddr := intDataAddr }
  else { s with ethDataOut := 0, ethDataValid := false }

/-- `source_iface_register` (lines 274-289). -/
def sourceIfaceRegister (i : Input) : BitVec 4 :=
  if i.iface0.dataValid then 0b0001
  else if i.iface1.dataValid then 0b0010
  else if i.iface2.dataValid then 0b0100
  else if i.intValidIn then 0b1000
  else 0b0000

/-- One edge of `clock`. -/
def step (i : Input) (s : State) : State :=
  { dataPassthrough i s with
    configDataOut := (configRouter i).1
    configValid := (configRouter i).2
    loopbackData := fun k => (loopbackRouters k i).1
    loopbackWrreqs := fun k => (loopbackRouters k i).2
    epcqioDataOut := (epcqioRouter i).1
    epcqioValid := (epcqioRouter i).2
    sourceIfaceReg := sourceIfaceRegister i }

/-! ## Specification -/

/-- A word that comes in, with its port and where it comes from. -/
structure Arrival where
  source : BitVec 4
  data : Word
  port : UdpPort
  addr : BitVec 80
  deriving DecidableEq

/-- The arrival at an interface. -/
def Iface.arrival (source : BitVec 4) (x : Iface) : List Arrival :=
  if x.dataValid then [⟨source, x.dataIn, x.dataPort, x.dataAddr⟩] else []

/-- The internal arrival. -/
def Input.intArrival (i : Input) : List Arrival :=
  if i.intValidIn then [⟨0b1000, i.intDataIn, i.intPortIn, intDataAddr⟩] else []

/-- The arrivals at an edge, those that go first before the others. -/
def arrivals (i : Input) : List Arrival :=
  i.iface0.arrival 0b0001 ++ i.iface1.arrival 0b0010 ++ i.iface2.arrival 0b0100 ++ i.intArrival

/-- Where words go to. -/
inductive Dest
  | config
  | loopback (k : Fin 3)
  | epcqio
  | passthrough
  deriving DecidableEq

/-- The words that are for a destination. -/
def Dest.accepts : Dest → Arrival → Bool
  | .config, x => x.port = udpPortConfig
  | .loopback k, x => x.port = udpPortLoopbacks k
  | .epcqio, x => x.port = udpPortEpcqio ∧ x.source ≠ 0b1000
  | .passthrough, _ => true

/-- The arrivals at an edge that are for a destination. -/
def arrivalsFor (d : Dest) (i : Input) : List Arrival := (arrivals i).filter d.accepts

/-- The word on the lines to a destination. -/
def word : Dest → State → List Word
  | .config, s => if s.configValid then [s.configDataOut] else []
  | .loopback k, s => if s.loopbackWrreqs k then [s.loopbackData k] else []
  | .epcqio, s => if s.epcqioValid then [s.epcqioDataOut] else []
  | .passthrough, s => if s.ethDataValid then [s.ethDataOut] else []

/-- The word that is passed on, with the lines beside it. -/
def passed (s : State) : List Arrival :=
  if s.ethDataValid then [⟨s.sourceIfaceReg, s.ethDataOut, s.ethDataPort, s.ethDataAddr⟩] else []

/-! ## One edge -/

variable {i : Input} {s : State} {d : Dest} {port : UdpPort} {is : List Input}

/-- The words a router of `port` takes. -/
def takes (port : UdpPort) (intValid : Bool) (x : Arrival) : Bool :=
  x.port = port ∧ (x.source ≠ 0b1000 ∨ intValid = true)

theorem filter_arrival (x : Iface) {source : BitVec 4} (h : source ≠ 0b1000) (intValid : Bool) :
    (x.arrival source).filter (takes port intValid) =
      if x.HasWord port then [⟨source, x.dataIn, x.dataPort, x.dataAddr⟩] else [] := by
  unfold Iface.arrival
  by_cases hv : x.dataValid = true
  · rw [if_pos hv, List.filter_singleton]
    by_cases hp : x.dataPort = port
    · have htakes : takes port intValid ⟨source, x.dataIn, x.dataPort, x.dataAddr⟩ = true :=
        decide_eq_true ⟨hp, .inl h⟩
      rw [if_pos (show x.HasWord port from ⟨hv, hp⟩), htakes, cond_true]
    · have htakes : takes port intValid ⟨source, x.dataIn, x.dataPort, x.dataAddr⟩ = false :=
        decide_eq_false fun ht => hp ht.1
      rw [if_neg (show ¬x.HasWord port from fun hw => hp hw.2), htakes, cond_false]
  · rw [if_neg hv, if_neg (show ¬x.HasWord port from fun hw => hv hw.1), List.filter_nil]

theorem filter_intArrival (intValid : Bool) :
    i.intArrival.filter (takes port intValid) =
      if (i.intValidIn = true ∧ i.intPortIn = port) ∧ intValid = true then
        [⟨0b1000, i.intDataIn, i.intPortIn, intDataAddr⟩] else [] := by
  unfold Input.intArrival
  by_cases hv : i.intValidIn = true
  · by_cases hp : i.intPortIn = port
    · cases intValid <;> simp [hv, hp, takes]
    · simp [hv, hp, takes]
  · simp [hv]

/-- A router takes the first of the words that it takes. -/
theorem route_spec (port : UdpPort) (intValid : Bool) (i : Input) :
    (if (route port intValid i).2 then [(route port intValid i).1] else []) =
      (((arrivals i).filter (takes port intValid)).take 1).map Arrival.data := by
  rw [arrivals, List.filter_append, List.filter_append, List.filter_append,
    filter_arrival _ (by decide), filter_arrival _ (by decide), filter_arrival _ (by decide),
    filter_intArrival, route]
  by_cases h0 : i.iface0.HasWord port
  · simp [h0]
  by_cases h1 : i.iface1.HasWord port
  · simp [h0, h1]
  by_cases h2 : i.iface2.HasWord port
  · simp [h0, h1, h2]
  by_cases h3 : i.intValidIn = true ∧ i.intPortIn = port
  · cases intValid <;> simp [h0, h1, h2, h3]
  · simp [h0, h1, h2, h3]

/-- The first of the arrivals is passed on, with its own address, port and source. -/
theorem passed_step (i : Input) (s : State) : passed (step i s) = (arrivals i).take 1 := by
  unfold passed step dataPassthrough sourceIfaceRegister arrivals Iface.arrival Input.intArrival
  cases i.iface0.dataValid <;> cases i.iface1.dataValid <;> cases i.iface2.dataValid <;>
    cases i.intValidIn <;> rfl

theorem word_passthrough (s : State) : word .passthrough s = (passed s).map Arrival.data := by
  simp only [word, passed]
  split_ifs <;> rfl

theorem accepts_config : Dest.config.accepts = takes udpPortConfig true := by
  funext x
  simp [Dest.accepts, takes]

theorem accepts_loopback (k : Fin 3) :
    (Dest.loopback k).accepts = takes (udpPortLoopbacks k) true := by
  funext x
  simp [Dest.accepts, takes]

theorem accepts_epcqio : Dest.epcqio.accepts = takes udpPortEpcqio false := by
  funext x
  simp [Dest.accepts, takes]

/-- After an edge the lines to a destination have the first of the words for it. -/
theorem word_step (d : Dest) (i : Input) (s : State) :
    word d (step i s) = ((arrivalsFor d i).take 1).map Arrival.data := by
  cases d with
  | config =>
    rw [arrivalsFor, accepts_config]
    exact route_spec udpPortConfig true i
  | loopback k =>
    rw [arrivalsFor, accepts_loopback]
    exact route_spec (udpPortLoopbacks k) true i
  | epcqio =>
    rw [arrivalsFor, accepts_epcqio]
    exact route_spec udpPortEpcqio false i
  | passthrough =>
    have hall : arrivalsFor .passthrough i = arrivals i := List.filter_eq_self.2 fun _ _ => rfl
    rw [word_passthrough, passed_step, hall]

/-! ## Runs -/

/-- All that is in some lists is in their first elements iff none has more than one. -/
theorem flatMap_take_one_iff {α β : Type} (f : α → List β) (l : List α) :
    l.flatMap (fun a => (f a).take 1) = l.flatMap f ↔ ∀ a ∈ l, (f a).length ≤ 1 := by
  induction l with
  | nil => simp
  | cons a l ih =>
    have hle : (l.flatMap fun a => (f a).take 1).length ≤ (l.flatMap f).length := by
      rw [List.length_flatMap, List.length_flatMap]
      exact List.sum_le_sum fun b _ => by rw [List.length_take]; exact min_le_right _ _
    rw [List.flatMap_cons, List.flatMap_cons, List.forall_mem_cons, ← ih]
    constructor
    · intro h
      have hlen := congrArg List.length h
      rw [List.length_append, List.length_append, List.length_take] at hlen
      have hone : (f a).length ≤ 1 := by omega
      rw [List.take_of_length_le hone] at h
      exact ⟨hone, List.append_cancel_left h⟩
    · rintro ⟨hone, hl⟩
      rw [List.take_of_length_le hone, hl]

/-- Nothing else gets in the way: there is never more than one word for a destination. -/
def AtMostOne (d : Dest) (is : List Input) : Prop := ∀ i ∈ is, (arrivalsFor d i).length ≤ 1

instance (d : Dest) (is : List Input) : Decidable (AtMostOne d is) :=
  inferInstanceAs (Decidable (∀ i ∈ is, (arrivalsFor d i).length ≤ 1))

/-- Over every run, the words on the lines to a destination are the first of the arrivals
    for it at each edge, in order. They are all of them iff there are never two at an
    edge. The same holds of what is passed on, with its address, port and source. -/
theorem routed_iff (s : State) (is : List Input) :
    (∀ d, log step (fun i s => word d (step i s)) s is =
          is.flatMap (fun i => ((arrivalsFor d i).take 1).map Arrival.data) ∧
        (log step (fun i s => word d (step i s)) s is =
          is.flatMap (fun i => (arrivalsFor d i).map Arrival.data) ↔ AtMostOne d is)) ∧
      (log step (fun i s => passed (step i s)) s is = is.flatMap arrivals ↔
        AtMostOne .passthrough is) := by
  have hall : arrivalsFor .passthrough = arrivals :=
    funext fun i => List.filter_eq_self.2 fun _ _ => rfl
  refine ⟨fun d => ?_, ?_⟩
  · have hwords := log_eq_flatMap step (word_step d) s is
    refine ⟨hwords, ?_⟩
    have htake := flatMap_take_one_iff (fun i => (arrivalsFor d i).map Arrival.data) is
    simp only [← List.map_take, List.length_map] at htake
    rw [hwords]
    exact htake
  · rw [log_eq_flatMap step passed_step, flatMap_take_one_iff, AtMostOne, hall]

end EthernetDataRouter

end FpgaEthernet
