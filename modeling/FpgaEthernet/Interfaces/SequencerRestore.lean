import FpgaEthernet.Interfaces.SequencerReadback
import Mathlib.Data.BitVec

/-!
# Dump and restore of a sequencer memory

The words that a readback sends are a packet for `write_multiplexer`.

Main results:

* `dump_words`: the words of a readback while nothing is written.
* `restored`: what a packet of such words leaves in the memories.
* `dump_restore`: fed back, they make the memory what it was when it was read,
  and leave the others alone.
-/

namespace FpgaEthernet.Sequencer

open Clocked EthernetCcdcontrolInterface

variable {m : Memory} {x : External} {y : System}

/-! ## Dump -/

/-- Nothing is written, and nothing on the way to be written. -/
structure Still (c : Contents) (y : System) : Prop where
  undisturbed : Undisturbed y.ifc
  noEnable : NoEnable y.ifc.write
  mem : y.mem = c

/-- One readback with nothing written: what is received is not for the
    sequencer, and no other readback is asked for. -/
def Alone (x : External) (y : System) : Prop :=
  NoWrite (y.inputs x) ∧ ¬Starts (y.inputs x) y.ifc

instance (x : External) (y : System) : Decidable (Alone x y) :=
  inferInstanceAs (Decidable (_ ∧ _))

theorem regWord_of_undisturbed (h : Undisturbed y.ifc) : regWord y.ifc = none :=
  if_neg fun hp => h.port hp.1 hp.2

theorem Still.step {c : Contents} (h : Still c y) (hx : NoWrite (y.inputs x)) :
    Still c (step x y) where
  undisturbed := h.undisturbed.step hx
  noEnable := (write_none (regWord_of_undisturbed h.undisturbed)).2.2
  mem := (clocked_of_noEnable h.noEnable).trans h.mem

theorem still_run {c : Contents} {is : List External} (h : Still c y)
    (ha : Along step Alone y is) : Still c (run step y is) :=
  run_invariant step h (fun _ _ hx hy => hy.step hx.1) ha

/-- Without writes every readback is clean. -/
theorem clean_of_alone {c : Contents} {is : List External} (h : Still c y)
    (ha : Along step Alone y is) : Along step Clean y is := by
  induction is generalizing y with
  | nil => trivial
  | cons i is ih =>
    refine ⟨⟨fun hw => ?_, ha.1.2⟩, ih (h.step ha.1.1) ha.2⟩
    rw [h.undisturbed.mode] at hw
    cases hw

/-- A reader that has been granted the line does not wait for it any more. -/
theorem granted_step {c : Contents} {n : ℕ} (h : Still c y) (hn : Stage m n y.ifc.read)
    (ha : Alone x y) (hg : y.ifc.read.nextReadState ≠ .txReqWait ∨ x.udpReady = true) :
    ∃ n', Stage m n' (step x y).ifc.read ∧
      (step x y).ifc.read.nextReadState ≠ .txReqWait := by
  have hw := h.undisturbed.mode
  cases hn with
  | waiting h' hs =>
    obtain ⟨-, hasked, hnext⟩ := h'.wait (x := x) hs hw
    rw [if_pos (hg.resolve_left fun hne => hne hs)] at hnext
    exact ⟨_, .address 0 (Nat.two_pow_pos _) hasked hnext, by simp [hnext]⟩
  | address a hlt h' hs =>
    obtain ⟨-, hasked, hnext⟩ := h'.sendAddress (x := x) hs hw
    exact ⟨_, .data a hlt hasked hnext, by simp [hnext]⟩
  | data a hlt h' hs =>
    obtain ⟨-, hstage⟩ := h'.sendData (x := x) hlt hs hw
    refine ⟨_, hstage, fun hwait => ?_⟩
    generalize hk : 2 * a + 2 = k at hstage
    cases hstage with
    | waiting => omega
    | address _ _ _ hs' => simp [hwait] at hs'
    | data _ _ _ hs' => simp [hwait] at hs'
    | done hs' => simp [hwait] at hs'
  | done hs =>
    obtain ⟨-, hnext⟩ := rest_idle hs ha.2 hw
    exact ⟨_, .done hnext, by simp [hnext]⟩

/-- From then on it can use every edge. -/
theorem granted_run {c : Contents} {is : List External} {n : ℕ} (h : Still c y)
    (hn : Stage m n y.ifc.read) (hg : y.ifc.read.nextReadState ≠ .txReqWait)
    (ha : Along step Alone y is) : (log step free y is).length = is.length := by
  induction is generalizing y n with
  | nil => rfl
  | cons i is ih =>
    have hfree : free i y = [()] := if_pos ⟨h.undisturbed.mode, hg⟩
    obtain ⟨n', hn', hg'⟩ := granted_step h hn ha.1 (.inl hg)
    rw [log_cons, hfree, List.length_append, ih (h.step ha.1.1) hn' hg' ha.2]
    simp [Nat.add_comm]

/-- The words of a readback while nothing is written, when `udp_ready` comes and
    the reader then has the time to send them all. -/
theorem dump_words {z : System} {ws ks : List External} {g : External} (h : Still y.mem z)
    (hz : Stage m 0 z.ifc.read) (ha : Along step Alone z (ws ++ g :: ks))
    (hg : g.udpReady = true) (hlen : 2 * m.depth ≤ ks.length) :
    log step sent z (ws ++ g :: ks) = (List.range (2 * m.depth)).map fun k =>
      pairWord m k (y.mem m (BitVec.ofNat m.addrWidth (k / 2))) := by
  have hread := readback_run hz (clean_of_alone h ha)
  have hall : (log step sent z (ws ++ g :: ks)).length = 2 * m.depth := by
    rw [hread.count]
    refine min_eq_left (hlen.trans ?_)
    obtain ⟨haws, hags⟩ := (along_append step Alone z ws (g :: ks)).1 ha
    have hstill := still_run h haws
    have hstage := (readback_run hz (clean_of_alone h haws)).stage
    obtain ⟨n', hn', hg'⟩ := granted_step hstill hstage hags.1 (.inr hg)
    have hrun := granted_run (hstill.step hags.1.1) hn' hg' hags.2
    rw [log_append, List.length_append, log_cons, List.length_append, hrun]
    omega
  refine List.ext_getElem? fun k => ?_
  rcases Nat.lt_or_ge k (2 * m.depth) with hk | hk
  · have hget := List.getElem?_eq_getElem (hall ▸ hk)
    obtain ⟨d, hd, hheld⟩ := hread.words k _ hget
    rw [hget, hd, List.getElem?_map, List.getElem?_range hk, Option.map_some, Option.some.injEq]
    rcases Nat.mod_two_eq_zero_or_one k with hpar | hpar
    · rw [pairWord, pairWord, if_pos hpar, if_pos hpar]
    · obtain ⟨js, ⟨ks', hjs⟩, -, hval⟩ := hheld hpar
      rw [← hjs] at ha
      rw [hval, (still_run h ha.of_isPrefix).mem]
  · rw [List.getElem?_eq_none (by omega), List.getElem?_eq_none (by simpa using hk)]

/-! ## Restore -/

/-- What a packet of pairs for the first `p` addresses of a memory, with the
    entries of `A`, leaves in the memories. -/
theorem restored {word : ℕ → Word} {c : Contents} {A : BitVec m.addrWidth → BitVec m.dataWidth}
    (hword : ∀ k < 2 * m.depth, word k = (pairWord m k (A (BitVec.ofNat _ (k / 2)))).2) {p : ℕ}
    (hp : p ≤ m.depth) {a : ℕ} (ha : a < p) :
    applied word c p m (BitVec.ofNat _ a) = A (BitVec.ofNat _ a) := by
  induction p with
  | zero => omega
  | succ p ih =>
    have haddr : word (2 * p) = tag m p := by
      rw [hword _ (by omega), pairWord, if_pos (by omega), Nat.mul_div_cancel_left p (by omega)]
    have hdata : word (2 * p + 1) = (A (BitVec.ofNat _ p)).setWidth 32 := by
      rw [hword _ (by omega), pairWord, if_neg (by omega), show (2 * p + 1) / 2 = p by omega]
    have hback : ((A (BitVec.ofNat _ p)).setWidth 32).setWidth m.dataWidth =
        A (BitVec.ofNat _ p) := by
      have hle : m.dataWidth ≤ 32 := by cases m <;> decide
      rw [BitVec.setWidth_setWidth_of_le _ hle, BitVec.setWidth_eq]
    rw [applied, haddr, hdata, hi_tag, low_tag, Contents.write, if_pos rfl, setWidth_ofNat_addr,
      hback]
    rcases Nat.lt_succ_iff_lt_or_eq.1 ha with hlt | rfl
    · have hne : BitVec.ofNat m.addrWidth a ≠ BitVec.ofNat m.addrWidth p := by
        intro heq
        have := congrArg BitVec.toNat heq
        have hdepth : m.depth = 2 ^ m.addrWidth := rfl
        rw [BitVec.toNat_ofNat, BitVec.toNat_ofNat, Nat.mod_eq_of_lt (by omega),
          Nat.mod_eq_of_lt (by omega)] at this
        omega
      rw [Function.update_of_ne hne, ih (by omega) hlt]
    · rw [Function.update_self]

/-- Edges that feed the words `ws` into the interface one after the other. -/
def Feeds (js : List External) (ws : List (UdpPort × Word)) : Prop :=
  js.map (fun x => (x.dataValid, x.dataPort, x.dataIn)) = ws.map fun w => (true, w)

/-- The words of a packet go in one after the other. -/
theorem packet_run {z : System} {js : List External} {word : ℕ → Word}
    (hz : regWord z.ifc = none) (hjs : Feeds js ((List.range js.length).map fun k =>
      (udpPortSeqSerial, word k))) : Packet word z.settled js.length (run step z js) := by
  induction js using List.reverseRecOn with
  | nil => exact .start hz rfl
  | append_singleton js x ih =>
    rw [Feeds, List.length_append, List.length_singleton, List.range_succ, List.map_append,
      List.map_append, List.map_append] at hjs
    obtain ⟨hjs, hx⟩ := List.append_inj hjs (by simp)
    obtain ⟨hv, hport, hin⟩ : x.dataValid = true ∧ x.dataPort = udpPortSeqSerial ∧
        x.dataIn = word js.length := by simpa using hx
    rw [run_concat, List.length_append, List.length_singleton]
    have hreg : regWord (step x (run step z js)).ifc =
        some (udpPortSeqSerial, word js.length) := by
      rw [regWord_step_valid hv (.inl hport), hport, hin]
    exact (ih hjs).step hreg fun _ => rfl

/-- Dump and restore. While nothing is written a memory is read, and the words
    that are sent are fed back as one packet without a gap, to memories in any
    state: the memory is then what it was when it was read, and the others are
    unchanged. -/
theorem dump_restore (m : Memory) {y z : System} {x₀ g d₁ d₂ : External}
    {ws ks js : List External} (hs : y.ifc.read.nextReadState = .idle)
    (hstill : Undisturbed y.ifc) (hno : NoEnable y.ifc.write) (ht : x₀.readTriggers = m.triggers)
    (hx₀ : NoWrite (y.inputs x₀)) (ha : Along step Alone (step x₀ y) (ws ++ g :: ks))
    (hg : g.udpReady = true) (hlen : 2 * m.depth ≤ ks.length) (hz : regWord z.ifc = none)
    (hzno : NoEnable z.ifc.write) (hjs : Feeds js (log step sent (step x₀ y) (ws ++ g :: ks))) :
    (run step z (js ++ [d₁, d₂])).mem = fun m' => if m' = m then y.mem m' else z.mem m' := by
  have hstill' : Still y.mem (step x₀ y) := Still.step ⟨hstill, hno, rfl⟩ hx₀
  rw [dump_words hstill' (stage_trigger hs hstill.mode ht) ha hg hlen] at hjs
  have hjslen : js.length = 2 * m.depth := by
    have := congrArg List.length hjs
    simpa using this
  have hpacket : Packet (fun k => (pairWord m k (y.mem m (BitVec.ofNat m.addrWidth (k / 2)))).2)
      z.settled js.length (run step z js) := packet_run hz (hjslen ▸ hjs)
  rw [hjslen] at hpacket
  have hmem := hpacket.applied d₁ d₂
  have hset : z.settled = z.mem := clocked_of_noEnable hzno
  rw [run_append]
  show (step d₂ (step d₁ (run step z js))).mem = _
  rw [hmem, hset]
  funext m'
  by_cases hm : m' = m
  · subst hm
    rw [if_pos rfl]
    funext a
    have := restored (c := z.mem) (A := y.mem m') (fun _ _ => rfl) le_rfl a.isLt
    rwa [BitVec.ofNat_toNat, BitVec.setWidth_eq] at this
  · rw [if_neg hm, applied_of_ne]
    intro q _
    have hpar : 2 * q % 2 = 0 := by omega
    rw [pairWord, if_pos hpar, hi_tag]
    exact fun hp => hm (port_inj hp).symm

/-- An edge with `udp_ready` as given and nothing received. -/
def ready (b : Bool) : External := programWord b none

/-- The words of the readback of `indFunc` from memories that hold the addresses. -/
def indFuncWords : List (UdpPort × Word) :=
  (List.range 32).map fun k => pairWord .indFunc k (BitVec.ofNat _ (k / 2))

theorem dump_restore_indFunc :
    (run step (⟨initial, fun _ _ => 0, fun _ => 0⟩ : System)
      (indFuncWords.map (fun w => (⟨w.2, w.1, true, false, 0, false, 0, 0⟩ : External)) ++
        [ready false, ready false])).mem =
      fun m' => if m' = .indFunc then numbered.mem m' else 0 :=
  @dump_restore .indFunc numbered _ (request .indFunc) (ready true) _ _
    [ready false, ready false] (List.replicate 32 (ready false)) _ rfl
    ⟨rfl, fun h => (by cases h), rfl, rfl⟩ (fun m => by cases m <;> rfl) rfl (by decide)
    (by decide +kernel) rfl (by decide) rfl (fun m => by cases m <;> rfl)
    (by unfold Feeds; decide +kernel)

end FpgaEthernet.Sequencer
