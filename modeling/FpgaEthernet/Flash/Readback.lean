import FpgaEthernet.Clocked.Queue
import FpgaEthernet.Flash.UdpInterface

/-!
# Sending what has been read

`udp_interface` with its read buffer, an ideal FIFO of words. When the machine leaves
`IDLE` it notes the number of words in the buffer, waits for the line, and sends that
many. Words may come in at any edge; those that come later stay in the buffer.

The edges are counted from the one that leaves `IDLE`, which is edge 0; the `n` edges
after it find the line with another client, and edge `n + 1` is the grant.

Main results:

* `Progress.step`: what the registers hold after `q` edges.
* `readback_transmitted`: the words that were there are sent, each once.
-/

namespace FpgaEthernet.UdpInterface

open Clocked

/-! ## The read buffer -/

/-- `read_busy`, `udp_ready`, and the words that come into the read buffer. -/
structure ReaderInput where
  readBusySig : Bool
  udpReady : Bool
  arrivals : List Word

/-- `udp_interface` with its read buffer. -/
structure Reader where
  udp : State
  buffer : Queue Word

def Reader.input (i : ReaderInput) (r : Reader) : Input :=
  ⟨i.readBusySig, BitVec.ofNat 7 r.buffer.contents.length, r.buffer.q, i.udpReady⟩

/-- One edge of `data_clock`. -/
def Reader.step (i : ReaderInput) (r : Reader) : Reader where
  udp := UdpInterface.step (r.input i) r.udp
  buffer := r.buffer.clock r.udp.rdbuffRdreq i.arrivals

/-- The registers when `reset` is released, with an empty buffer. -/
def Reader.initial : Reader := ⟨UdpInterface.initial, ⟨[], 0⟩⟩

/-! ## Specification -/

/-- The word on the bus after the edge, if it is valid. -/
def sent (i : ReaderInput) (r : Reader) : List Word :=
  if (Reader.step i r).udp.udpOutBus.dval then [(Reader.step i r).udp.udpOutBus.data] else []

def arrivals (i : ReaderInput) (_ : Reader) : List Word := i.arrivals

/-- The edges of a transmission of `w` words that waits `n` edges for the line. -/
structure Schedule (n w : ℕ) (is : List ReaderInput) : Prop where
  length : is.length = n + w + 4
  leaves : ∀ i, is[0]? = some i → i.readBusySig = false
  waits : ∀ q i, 1 ≤ q → q ≤ n → is[q]? = some i → i.udpReady = false
  grant : ∀ i, is[n + 1]? = some i → i.udpReady = true

/-- The request for words is up for as many edges as there are words, right from the
    grant. The busy bit is up from the grant until after the last valid word, and then
    it is down, as the request for the line is from the grant on. The words sent are
    those that were in the buffer. -/
structure Transmitted (n : ℕ) (words : List Word) (r : Reader) (is : List ReaderInput) : Prop where
  request : ∀ q ≤ is.length, (run Reader.step r (is.take q)).udp.rdbuffRdreq =
    decide (n + 2 ≤ q ∧ q < n + 2 + words.length)
  valid : ∀ q ≤ is.length, (run Reader.step r (is.take q)).udp.dataOutValid =
    decide (n + 4 ≤ q ∧ q < n + 4 + words.length)
  busy : ∀ q ≤ is.length, (run Reader.step r (is.take q)).udp.txBusy =
    decide (n + 2 ≤ q ∧ q < n + 4 + words.length)
  asks : ∀ q ≤ is.length, (run Reader.step r (is.take q)).udp.txReq =
    decide (2 ≤ q ∧ q ≤ n + 2)
  words : log Reader.step sent r is = words
  left : (run Reader.step r is).buffer.contents = log Reader.step arrivals r is
  idle : (run Reader.step r is).udp.nextState = .idle

/-! ## Between transmissions -/

section

variable {i : Input} {s : State}

/-- In `IDLE` nothing is asked for or sent. -/
structure Calm (s : State) : Prop where
  /-- The words read are counted two edges behind. -/
  counts : s.nextState = .sendingData →
    0 < s.wordsToRead ∧ 1 ≤ s.fifoTimer ∧ s.wordsRead = s.fifoTimer - 2
  waits : s.nextState = .txReqWait → 0 < s.wordsToRead ∧ s.wordsRead = 0
  request : s.nextState ≠ .sendingData → s.rdbuffRdreq = false
  quiet : s.nextState = .hwReset ∨ s.nextState = .idle →
    s.txReq = false ∧ s.txBusy = false ∧ s.dataOutValid = false

theorem calm_initial : Calm initial where
  counts h := by cases h
  waits h := by cases h
  request _ := rfl
  quiet _ := ⟨rfl, rfl, rfl⟩

theorem Calm.step (h : Calm s) : Calm (UdpInterface.step i s) := by
  cases hs : s.nextState with
  | hwReset | txDone =>
    have hrequest := h.request (by simp [hs])
    constructor <;> simp [UdpInterface.step, udpInterface, busRegister, hs, hrequest]
  | idle =>
    have hrequest := h.request (by simp [hs])
    by_cases hstarts : i.readBusySig = false ∧ i.rdbuffRdusedw.toNat ≠ 0
    · constructor <;>
        simp [UdpInterface.step, udpInterface, busRegister, hs, hstarts, hrequest]
      exact Nat.pos_of_ne_zero hstarts.2
    · constructor <;>
        simp [UdpInterface.step, udpInterface, busRegister, hs, hstarts, hrequest]
  | txReqWait =>
    have hrequest := h.request (by simp [hs])
    obtain ⟨hpos, hread⟩ := h.waits hs
    cases hready : i.udpReady <;> constructor <;>
      simp [UdpInterface.step, udpInterface, busRegister, hs, hready, hrequest, hpos, hread]
  | sendingData =>
    obtain ⟨hpos, htimer, hread⟩ := h.counts hs
    have hcount : (if fifoDelay ≤ s.fifoTimer then s.wordsRead + 1 else s.wordsRead) =
        s.fifoTimer - 1 := by
      unfold fifoDelay
      split_ifs <;> omega
    constructor <;> simp only [UdpInterface.step, udpInterface, busRegister, hs, hcount]
    · split_ifs with hmore
      · intro hsending
        cases hsending
      · intro _
        exact ⟨hpos, by omega, by omega⟩
    · intro hwaits
      split_ifs at hwaits
    · split_ifs with hmore
      · intro _
        exact decide_eq_false (by omega)
      · intro hne
        exact absurd rfl hne
    · split_ifs <;> simp

end

/-! ## A transmission -/

/-- The state after `q` edges. -/
def stageAt (n w q : ℕ) : StateType :=
  if q = 0 then .idle
  else if q < n + 2 then .txReqWait
  else if q < n + w + 3 then .sendingData
  else if q < n + w + 4 then .txDone
  else .idle

/-- What the machine holds after `q` edges. -/
structure Control (n w q : ℕ) (s : State) : Prop where
  state : s.nextState = stageAt n w q
  request : s.rdbuffRdreq = decide (n + 2 ≤ q ∧ q < n + 2 + w)
  valid : s.dataOutValid = decide (n + 4 ≤ q ∧ q < n + 4 + w)
  busy : s.txBusy = decide (n + 2 ≤ q ∧ q < n + 4 + w)
  asks : s.txReq = decide (2 ≤ q ∧ q ≤ n + 2)
  toRead : 1 ≤ q → s.wordsToRead = w
  counted : 1 ≤ q → s.wordsRead = min (q - (n + 3)) w
  timer : n + 2 ≤ q → q < n + w + 3 → s.fifoTimer = q - (n + 1)

/-- What is in the buffer and on its way to the bus after `q` edges; `come` are the
    words that have come in since the first of them. -/
structure Progress (n : ℕ) (words come : List Word) (q : ℕ) (r : Reader) : Prop where
  control : Control n words.length q r.udp
  ahead : Remains words.length (min (q - (n + 2)) words.length) (words ++ come) r.buffer.contents
  shown : n + 3 ≤ q → q < n + words.length + 3 → words[q - (n + 3)]? = some r.buffer.q
  data : n + 4 ≤ q → q < n + words.length + 4 → words[q - (n + 4)]? = some r.udp.dataOut

section

variable {n w q : ℕ} {words come : List Word} {r : Reader} {i : ReaderInput} {s : State}

theorem Control.step_idle {i : Input} (h : Control n w 0 s) (hw : 0 < w)
    (hbusy : i.readBusySig = false) (hcount : i.rdbuffRdusedw.toNat = w) :
    Control n w 1 (step i s) := by
  have hs : s.nextState = .idle := h.state
  have hstep : step i s = { busRegister i s with
      wordsRead := 0, txBusy := false, nextState := .txReqWait, wordsToRead := w } := by
    simp only [step, udpInterface, hs, hcount]
    rw [if_pos ⟨hbusy, by omega⟩]
  rw [hstep]
  constructor
  · rw [stageAt, if_neg one_ne_zero, if_pos (by omega)]
  · exact h.request.trans (decide_eq_decide.2 (by omega))
  · exact (decide_eq_false (by omega)).symm
  · exact (decide_eq_false (by omega)).symm
  · exact (decide_eq_false (by omega)).symm
  · exact fun _ => rfl
  · intro _
    rw [show 1 - (n + 3) = 0 by omega, Nat.zero_min]
  · intro h₁
    omega

theorem Control.step_txReqWait {i : Input} (h : Control n w q s) (hw : 0 < w) (h₁ : 1 ≤ q)
    (h₂ : q < n + 2) (hready : i.udpReady = decide (q = n + 1)) :
    Control n w (q + 1) (step i s) := by
  have hs : s.nextState = .txReqWait := by
    rw [h.state, stageAt, if_neg (by omega), if_pos h₂]
  have hread := h.counted h₁
  by_cases hgrant : q = n + 1
  · have hstep : step i s = { busRegister i s with
        txReq := true, nextState := .sendingData, fifoTimer := 1, rdbuffRdreq := true,
        txBusy := true } := by
      simp only [step, udpInterface, hs, hready, hgrant, decide_true, if_true]
    rw [hstep]
    constructor
    · rw [stageAt, if_neg (by omega), if_neg (by omega), if_pos (by omega)]
    · exact (decide_eq_true (by omega)).symm
    · exact (decide_eq_false (by omega)).symm
    · exact (decide_eq_true (by omega)).symm
    · exact (decide_eq_true (by omega)).symm
    · exact fun _ => h.toRead h₁
    · intro _
      exact hread.trans (by omega)
    · intro _ _
      change 1 = _
      omega
  · have hstep : step i s = { busRegister i s with txReq := true } := by
      simp only [step, udpInterface, hs, hready, hgrant, decide_false]
      rfl
    rw [hstep]
    constructor
    · rw [stageAt, if_neg (by omega), if_pos (by omega)]
      exact hs
    · exact h.request.trans (decide_eq_decide.2 (by omega))
    · exact (decide_eq_false (by omega)).symm
    · exact h.busy.trans (decide_eq_decide.2 (by omega))
    · exact (decide_eq_true (by omega)).symm
    · exact fun _ => h.toRead h₁
    · intro _
      exact hread.trans (by omega)
    · intro _
      omega

theorem Control.step_sendingData {i : Input} (h : Control n w q s) (h₁ : n + 2 ≤ q)
    (h₂ : q < n + w + 3) : Control n w (q + 1) (step i s) := by
  have hs : s.nextState = .sendingData := by
    rw [h.state, stageAt, if_neg (by omega), if_neg (by omega), if_pos h₂]
  have htimer := h.timer h₁ h₂
  have htodo := h.toRead (by omega)
  have hread : (if fifoDelay ≤ q - (n + 1) then s.wordsRead + 1 else s.wordsRead) =
      q - (n + 2) := by
    rw [h.counted (by omega)]
    unfold fifoDelay
    split_ifs <;> omega
  have hstep : step i s = { busRegister i s with
      txBusy := true
      dataOutValid := decide (fifoDelay ≤ q - (n + 1))
      wordsRead := q - (n + 2)
      rdbuffRdreq := decide (q - (n + 1) < w)
      nextState := if w ≤ q - (n + 2) then .txDone else .sendingData
      fifoTimer := q - (n + 1) + 1 } := by
    simp only [step, udpInterface, hs, htodo, htimer, hread]
  rw [hstep]
  constructor
  · change (if w ≤ q - (n + 2) then StateType.txDone else .sendingData) = stageAt n w (q + 1)
    by_cases hlast : w ≤ q - (n + 2)
    · rw [if_pos hlast, stageAt, if_neg (by omega), if_neg (by omega), if_neg (by omega),
        if_pos (by omega)]
    · rw [if_neg hlast, stageAt, if_neg (by omega), if_neg (by omega), if_pos (by omega)]
  · exact decide_eq_decide.2 (by omega)
  · exact decide_eq_decide.2 (by unfold fifoDelay; omega)
  · exact (decide_eq_true (by omega)).symm
  · exact (decide_eq_false (by omega)).symm
  · exact fun _ => htodo
  · intro _
    change q - (n + 2) = _
    omega
  · intro _ _
    change q - (n + 1) + 1 = _
    omega

theorem Control.step_txDone {i : Input} (h : Control n w q s) (hq : q = n + w + 3) :
    Control n w (q + 1) (step i s) := by
  have hs : s.nextState = .txDone := by
    rw [h.state, stageAt, if_neg (by omega), if_neg (by omega), if_neg (by omega),
      if_pos (by omega)]
  have hstep : step i s = { busRegister i s with txBusy := false, nextState := .idle } := by
    simp only [step, udpInterface, hs]
  rw [hstep]
  constructor
  · rw [stageAt, if_neg (by omega), if_neg (by omega), if_neg (by omega), if_neg (by omega)]
  · exact h.request.trans (decide_eq_decide.2 (by omega))
  · exact (decide_eq_false (by omega)).symm
  · exact (decide_eq_false (by omega)).symm
  · exact (decide_eq_false (by omega)).symm
  · exact fun _ => h.toRead (by omega)
  · intro _
    exact (h.counted (by omega)).trans (by omega)
  · intro _
    omega

end

section

variable {n q : ℕ} {words come : List Word} {r : Reader} {i : ReaderInput}

theorem words_length_le (words come : List Word) : words.length ≤ (words ++ come).length := by
  rw [List.length_append]
  exact Nat.le_add_right _ _

/-- The buffer after an edge. -/
theorem Progress.buffer (h : Progress n words come q r) :
    Remains words.length (min (q + 1 - (n + 2)) words.length) (words ++ (come ++ i.arrivals))
      (Reader.step i r).buffer.contents := by
  have hahead := h.ahead
  have hrequest := h.control.request
  rw [← List.append_assoc, Reader.step, hrequest]
  by_cases hq : n + 2 ≤ q ∧ q < n + 2 + words.length
  · rw [decide_eq_true hq, show min (q + 1 - (n + 2)) words.length =
      min (q - (n + 2)) words.length + 1 by omega]
    exact hahead.clock_read (words_length_le words come)
  · rw [decide_eq_false hq, show min (q + 1 - (n + 2)) words.length =
      min (q - (n + 2)) words.length by omega]
    exact hahead.clock_wait

/-- What the buffer shows after an edge. -/
theorem Progress.shown_step (h : Progress n words come q r) (hq : n + 2 ≤ q)
    (hlt : q < n + words.length + 2) :
    words[q - (n + 2)]? = some (Reader.step i r).buffer.q := by
  have hahead := h.ahead
  rw [min_eq_left (by omega)] at hahead
  have hq_eq := hahead.q_eq (by omega) (words_length_le words come) i.arrivals
  rw [List.getElem?_append_left (by omega)] at hq_eq
  rw [hq_eq, Reader.step, h.control.request, decide_eq_true (by omega)]

/-- The word that the buffer has shown is loaded at every edge. -/
theorem step_dataOut (i : Input) (s : State) :
    (UdpInterface.step i s).dataOut = i.rdbuffQ := by
  unfold UdpInterface.step udpInterface
  cases s.nextState
  case idle => dsimp only; split_ifs <;> rfl
  case txReqWait => dsimp only; split_ifs <;> rfl
  all_goals rfl

/-- What is asked of the inputs at edge `q`, the first of which finds `w` words. -/
structure Allows (n w q : ℕ) (i : Input) : Prop where
  leaves : q = 0 → i.readBusySig = false ∧ i.rdbuffRdusedw.toNat = w
  line : 1 ≤ q → q ≤ n + 1 → i.udpReady = decide (q = n + 1)

theorem Progress.step (h : Progress n words come q r) (hw : 0 < words.length)
    (hq : q < n + words.length + 4) (hi : Allows n words.length q (r.input i)) :
    Progress n words (come ++ i.arrivals) (q + 1) (Reader.step i r) where
  control := by
    rcases Nat.eq_zero_or_pos q with rfl | hpos
    · obtain ⟨hbusy, hcount⟩ := hi.leaves rfl
      exact h.control.step_idle hw hbusy hcount
    · rcases lt_or_ge q (n + 2) with hwait | hgranted
      · exact h.control.step_txReqWait hw hpos hwait (hi.line hpos (by omega))
      · rcases lt_or_ge q (n + words.length + 3) with hsend | hdone
        · exact h.control.step_sendingData hgranted hsend
        · exact h.control.step_txDone (by omega)
  ahead := h.buffer
  shown h₁ h₂ := by
    rw [show q + 1 - (n + 3) = q - (n + 2) by omega]
    exact h.shown_step (by omega) (by omega)
  data h₁ h₂ := by
    rw [show q + 1 - (n + 4) = q - (n + 3) by omega, h.shown (by omega) (by omega)]
    exact congrArg some (step_dataOut (r.input i) r.udp).symm

/-- What is sent at an edge. -/
theorem Progress.sent (h : Progress n words come q r) (hq : q < n + words.length + 4) :
    words.take (q - (n + 4)) ++ sent i r = words.take (q + 1 - (n + 4)) := by
  have hbus : (Reader.step i r).udp.udpOutBus = _ := step_udpOutBus (i := r.input i)
  rw [UdpInterface.sent, hbus]
  dsimp only
  rw [h.control.valid]
  by_cases hvalid : n + 4 ≤ q
  · rw [if_pos (decide_eq_true ⟨hvalid, by omega⟩), Nat.succ_sub hvalid, List.take_add_one,
      h.data hvalid hq]
    rfl
  · rw [if_neg (by simp [hvalid]), show q - (n + 4) = 0 by omega, show q + 1 - (n + 4) = 0 by omega]
    rfl

end

/-! ## Runs -/

section

variable {n : ℕ} {words : List Word} {r : Reader} {is js : List ReaderInput}

/-- In `IDLE` a transmission has made no progress yet. -/
theorem progress_zero (hidle : r.udp.nextState = .idle) (hcalm : Calm r.udp)
    (hbuffer : r.buffer.contents = words) : Progress n words [] 0 r := by
  obtain ⟨hreq, hbusy, hvalid⟩ := hcalm.quiet (Or.inr hidle)
  have hrequest := hcalm.request (by simp [hidle])
  refine ⟨⟨hidle, ?_, ?_, ?_, ?_, ?_, ?_, ?_⟩, ?_, ?_, ?_⟩
  · exact hrequest.trans (decide_eq_false (by omega)).symm
  · exact hvalid.trans (decide_eq_false (by omega)).symm
  · exact hbusy.trans (decide_eq_false (by omega)).symm
  · exact hreq.trans (decide_eq_false (by omega)).symm
  · omega
  · omega
  · omega
  · rw [hbuffer, List.append_nil, Nat.zero_sub, Nat.zero_min]
    exact remains_zero _ _
  · omega
  · omega

theorem calm_run (js : List ReaderInput) : Calm (run Reader.step .initial js).udp := by
  induction js using List.reverseRecOn with
  | nil => exact calm_initial
  | append_singleton js i ih =>
    rw [run_concat]
    exact ih.step

theorem progress_run (hidle : r.udp.nextState = .idle) (hcalm : Calm r.udp)
    (hbuffer : r.buffer.contents = words) (hw : 0 < words.length) (hlt : words.length < 128)
    (hs : Schedule n words.length is) (hp : js <+: is) :
    Progress n words (log Reader.step arrivals r js) js.length (run Reader.step r js) ∧
      log Reader.step sent r js = words.take (js.length - (n + 4)) := by
  induction js using List.reverseRecOn with
  | nil => exact ⟨progress_zero hidle hcalm hbuffer, by simp⟩
  | append_singleton js i ih =>
    obtain ⟨hprogress, hsent⟩ := ih ((List.prefix_append _ _).trans hp)
    have hlength := hp.length_le
    rw [List.length_append, List.length_singleton, hs.length] at hlength
    have hget : is[js.length]? = some i := by
      obtain ⟨ks, rfl⟩ := hp
      simp
    have hallows : Allows n words.length js.length ((run Reader.step r js).input i) := by
      constructor
      · intro h₀
        obtain rfl := List.length_eq_zero_iff.1 h₀
        refine ⟨hs.leaves i hget, ?_⟩
        change (BitVec.ofNat 7 r.buffer.contents.length).toNat = _
        rw [hbuffer, BitVec.toNat_ofNat]
        exact Nat.mod_eq_of_lt hlt
      · intro h₁ h₂
        by_cases hgrant : js.length = n + 1
        · rw [decide_eq_true hgrant]
          exact hs.grant i (hgrant ▸ hget)
        · rw [decide_eq_false hgrant]
          exact hs.waits js.length i h₁ (by omega) hget
    rw [log_concat, log_concat, run_concat, List.length_append, List.length_singleton, hsent]
    exact ⟨hprogress.step hw (by omega) hallows, hprogress.sent (by omega)⟩

/-- In every run, when the machine leaves `IDLE` with 1 to 127 words in the buffer, it
    sends just these, however long it waits for the line. -/
theorem readback_transmitted (hidle : (run Reader.step .initial js).udp.nextState = .idle)
    (hw : 0 < (run Reader.step .initial js).buffer.contents.length)
    (hlt : (run Reader.step .initial js).buffer.contents.length < 128)
    (hs : Schedule n (run Reader.step .initial js).buffer.contents.length is) :
    Transmitted n (run Reader.step .initial js).buffer.contents (run Reader.step .initial js)
      is := by
  have hcalm := calm_run js
  generalize run Reader.step .initial js = r at *
  have hedge : ∀ q ≤ is.length, Control n r.buffer.contents.length q
      (run Reader.step r (is.take q)).udp := by
    intro q hq
    have h := (progress_run hidle hcalm rfl hw hlt hs (List.take_prefix q is)).1.control
    rwa [List.length_take, min_eq_left hq] at h
  obtain ⟨hend, hsent⟩ := progress_run hidle hcalm rfl hw hlt hs (List.prefix_refl is)
  rw [hs.length] at hend hsent
  refine ⟨fun q hq => (hedge q hq).request, fun q hq => (hedge q hq).valid,
    fun q hq => (hedge q hq).busy, fun q hq => (hedge q hq).asks, ?_, ?_, ?_⟩
  · rw [hsent, List.take_of_length_le (by omega)]
  · obtain ⟨k, hk, -, hexact, -⟩ := hend.ahead
    rw [hk, hexact (by omega), min_eq_right (by omega), List.drop_left]
  · rw [hend.control.state, stageAt, if_neg (by omega), if_neg (by omega), if_neg (by omega),
      if_neg (by omega)]

/-- Three words come in at the first edge after reset. -/
def threeWordsIn : List ReaderInput := [⟨true, false, [0x11111111, 0x22222222, 0x33333333]⟩]

/-- The line is granted two edges after it was asked for. -/
def lateGrant : List ReaderInput :=
  List.replicate 3 ⟨false, false, []⟩ ++ List.replicate 6 ⟨false, true, []⟩

theorem readback_transmitted_lateGrant :
    Transmitted 2 [0x11111111, 0x22222222, 0x33333333] (run Reader.step .initial threeWordsIn)
      lateGrant := by
  have hidle : (run Reader.step .initial threeWordsIn).udp.nextState = .idle := rfl
  have hwaits : ∀ q < 3, lateGrant[q]?.map (·.udpReady) = some false := by decide
  exact readback_transmitted hidle (by decide) (by decide)
    { length := rfl
      leaves := by
        rintro i ⟨⟩
        rfl
      waits := by
        intro q i _ hq hi
        have h := hwaits q (by omega)
        rw [hi] at h
        exact Option.some_injective _ h
      grant := by
        rintro i ⟨⟩
        rfl }

end

end FpgaEthernet.UdpInterface
