import FpgaEthernet.Clocked.Cut
import FpgaEthernet.Ethernet.InputFifoManager
import Mathlib.Data.List.DropRight

/-!
# The throttle of the input FIFOs

`fifo_in_reg` of `ethernet/input_fifo_manager.vhd` stops writing to a FIFO that
`fifo_full_signaller` has found to be nearly full. The FIFO counts a word that it
takes in only `d` write clock cycles later, and `fifo_nearfull` and `wrreqs_sig`
are registers: the words that come in the meantime have to fit.

Main results:

* `Throttled.step`: two words more than the threshold and the words not yet
  counted is all that a FIFO can hold.
* `fifo_bounded`: no FIFO overflows, no word is lost that was let through, and
  the count never wraps to a small value.
-/

namespace FpgaEthernet.InputFifoManager

open Clocked

variable {N : ℕ} [NeZero N] {k : ℤ} {d : ℕ} {I : Fin N}

/-! ## Specification -/

/-- The word `fifo_in_reg` lets through to FIFO `I`. -/
def letThrough (I : Fin N) (i : Input N) (s : State N) : List Word :=
  if i.wrclks I = true ∧ i.wrreqs I = true ∧ s.fifoNearfull I = false then [i.dataIn I] else []

/-- The word in the input register of FIFO `I`. -/
def pending (I : Fin N) (s : State N) : List Word :=
  if s.wrreqsSig I then [s.dataInSig I] else []

/-- The word read from FIFO `I`. -/
def takenFrom (I : Fin N) (i : Input N) (s : State N) : List Word :=
  (s.fifos I).taken (i.clock && s.rdreqs I)

/-- At an edge of the write clock of FIFO `I`: whether the FIFO takes a word in. -/
def writes (I : Fin N) (i : Input N) (s : State N) : List Bool :=
  if i.wrclks I then [!(accepted I i s).isEmpty] else []

/-- The number of words FIFO `I` has taken in at the last `d` edges of its write
    clock. -/
def recent (k : ℤ) (d : ℕ) (I : Fin N) (js : List (Input N)) : ℕ :=
  ((log step (writes I) (reset k) js).rtake d).count true

/-- `rdusedw` counts a read at once and a write at most `d` write clock cycles
    late: only words taken in at the last `d` edges may be missing from it. -/
def CountsLate (k : ℤ) (d : ℕ) (I : Fin N) (is : List (Input N)) : Prop :=
  ∀ js i, js ++ [i] <+: is → ∃ u ≤ recent k d I js,
    i.rdusedw I = BitVec.ofInt 11 (((after k js).fifos I).contents.length - u)

/-! ## The count -/

theorem recent_le (js : List (Input N)) : recent k d I js ≤ d := by
  apply List.count_le_length.trans
  rw [List.rtake, List.length_drop]
  omega

omit [NeZero N] in
theorem nearfull_iff (w : BitVec 11) : w.extractLsb' 7 4 = BitVec.allOnes 4 ↔ 1920 ≤ w.toNat := by
  have hw := w.isLt
  rw [← BitVec.toNat_inj, BitVec.extractLsb'_toNat, BitVec.toNat_allOnes, Nat.shiftRight_eq_div_pow]
  omega

/-- A count that is late by `u` is too small by no more than `u`: taken below
    zero it wraps to a large value. -/
theorem le_usedw {c u : ℕ} (hc : c < 2048) (hu : u ≤ 100) :
    c ≤ (BitVec.ofInt 11 (c - u)).toNat + u ∧
      (c < u → 1920 ≤ (BitVec.ofInt 11 (c - u)).toNat) := by
  rw [BitVec.toNat_ofInt]
  omega

/-! ## The throttle -/

/-- How full FIFO `I` can be: the count reaches the threshold before the words
    in it exceed it by `d`, and one word is accepted at each of the two edges
    that the throttle takes. -/
structure Throttled (d : ℕ) (I : Fin N) (s : State N) : Prop where
  filling : s.fifoNearfull I = false → (s.fifos I).contents.length ≤ 1920 + d
  bounded : (s.fifos I).contents.length + (s.wrreqsSig I).toNat ≤ 1922 + d

omit [NeZero N] in
/-- A FIFO takes in one word at most, and only from its input register. -/
theorem step_length_le (i : Input N) (s : State N) (I : Fin N) :
    ((step i s).fifos I).contents.length ≤
      (s.fifos I).contents.length + (i.wrclks I && s.wrreqsSig I).toNat := by
  have h : ((step i s).fifos I).contents.length + (takenFrom I i s).length =
      (s.fifos I).contents.length + (accepted I i s).length := Fifo.clock_length _ _ _ _
  have haccepted : (accepted I i s).length ≤ (i.wrclks I && s.wrreqsSig I).toNat := by
    unfold accepted Fifo.accepted
    split_ifs with hfull
    · rw [hfull.1]
      exact le_rfl
    · exact Nat.zero_le _
  omega

omit [NeZero N] in
theorem Throttled.step {i : Input N} {s : State N} (h : Throttled d I s) (hd : d ≤ 100)
    (hlate : ∃ u ≤ d, i.rdusedw I = BitVec.ofInt 11 ((s.fifos I).contents.length - u)) :
    Throttled d I (step i s) := by
  obtain ⟨u, hu, hcount⟩ := hlate
  have hlen := step_length_le i s I
  have hbounded := h.bounded
  have husedw := le_usedw (c := (s.fifos I).contents.length) (u := u) (by omega) (by omega)
  rw [← hcount] at husedw
  cases hc : i.wrclks I
  · -- nothing is written without an edge of the write clock
    rw [hc, Bool.false_and, Bool.toNat_false, Nat.add_zero] at hlen
    constructor
    · intro hn
      apply hlen.trans
      apply h.filling
      simpa [InputFifoManager.step, fifoInReg, hc] using hn
    · have hsig : (InputFifoManager.step i s).wrreqsSig I = s.wrreqsSig I := by
        simp [InputFifoManager.step, fifoInReg, hc]
      rw [hsig]
      omega
  · rw [hc, Bool.true_and] at hlen
    have hone := Bool.toNat_le (s.wrreqsSig I)
    constructor
    · intro hn
      have hlow : ¬1920 ≤ (i.rdusedw I).toNat := by
        rw [← nearfull_iff]
        simpa [InputFifoManager.step, fifoInReg, hc] using hn
      omega
    · have hsig : (InputFifoManager.step i s).wrreqsSig I =
          if s.fifoNearfull I then false else i.wrreqs I := by
        simp [InputFifoManager.step, fifoInReg, hc]
      have hone' := Bool.toNat_le (i.wrreqs I)
      have hfilling := h.filling
      rw [hsig]
      split_ifs with hn
      · rw [Bool.toNat_false]
        omega
      · have := hfilling (by simpa using hn)
        omega

theorem CountsLate.of_concat {is : List (Input N)} {i : Input N}
    (h : CountsLate k d I (is ++ [i])) : CountsLate k d I is :=
  fun js j hpre => h js j (hpre.trans (List.prefix_append _ _))

theorem throttled_run (hd : d ≤ 100) (is : List (Input N)) (h : CountsLate k d I is) :
    Throttled d I (after k is) := by
  induction is using List.reverseRecOn with
  | nil => exact ⟨fun _ => Nat.zero_le _, Nat.zero_le _⟩
  | append_singleton is i ih =>
    obtain ⟨u, hu, hcount⟩ := h is i List.prefix_rfl
    rw [after_concat]
    exact (ih h.of_concat).step hd ⟨u, hu.trans (recent_le is), hcount⟩

/-! ## The words -/

omit [NeZero N] in
/-- A word that was let through reaches the FIFO one edge later. -/
theorem pending_step (i : Input N) {s : State N} (h : (s.fifos I).contents.length < 2048) :
    pending I s ++ letThrough I i s = accepted I i s ++ pending I (step i s) := by
  have haccepted : accepted I i s = if i.wrclks I then pending I s else [] := by
    unfold accepted pending
    cases hc : i.wrclks I <;> cases hs : s.wrreqsSig I <;> simp [Fifo.accepted, h]
  have hpending : pending I (step i s) = if i.wrclks I then letThrough I i s else pending I s := by
    cases hc : i.wrclks I
    · simp [pending, InputFifoManager.step, fifoInReg, hc]
    · cases hn : s.fifoNearfull I <;>
        simp [pending, letThrough, InputFifoManager.step, fifoInReg, hc, hn]
  rw [haccepted, hpending]
  split_ifs with hc
  · rfl
  · simp [letThrough, hc]

theorem words_run (hd : d ≤ 100) (is : List (Input N)) (h : CountsLate k d I is) :
    log step (letThrough I) (reset k) is =
      log step (takenFrom I) (reset k) is ++ ((after k is).fifos I).contents ++
        pending I (after k is) := by
  induction is using List.reverseRecOn with
  | nil => rfl
  | append_singleton is i ih =>
    have hbounded := (throttled_run hd is h.of_concat).bounded
    have hwords := step_fifos i (after k is) I
    rw [log_concat, log_concat, ih h.of_concat, after_concat, List.append_assoc]
    change _ ++ (_ ++ letThrough I i (after k is)) = _ ++ takenFrom I i (after k is) ++ _ ++ _
    rw [pending_step i (by omega), List.append_assoc _ (takenFrom _ _ _), takenFrom, hwords]
    simp only [List.append_assoc]

/-- When the count is at most `d` write clock cycles late, no FIFO overflows: it
    takes in every word in its input register, what was let through has been read
    or is still there, and the count says no less than the words in the FIFO but
    for those it has not counted yet. -/
theorem fifo_bounded (hd : d ≤ 100) (is : List (Input N)) (h : CountsLate k d I is) :
    ((after k is).fifos I).contents.length ≤ 1920 + d + 3 ∧
      ((after k is).fifos I).contents.length < 2048 ∧
      log step (letThrough I) (reset k) is =
        log step (takenFrom I) (reset k) is ++ ((after k is).fifos I).contents ++
          pending I (after k is) ∧
      ∀ js i, js ++ [i] <+: is →
        ((after k js).fifos I).contents.length ≤ (i.rdusedw I).toNat + recent k d I js := by
  have hbounded := (throttled_run hd is h).bounded
  refine ⟨by omega, by omega, words_run hd is h, ?_⟩
  intro js i hpre
  obtain ⟨u, hu, hcount⟩ := h js i hpre
  have hjs : CountsLate k d I js := fun ks j hks =>
    h ks j (hks.trans ((List.prefix_append _ _).trans hpre))
  have hbefore := (throttled_run hd js hjs).bounded
  have hle := (le_usedw (c := ((after k js).fifos I).contents.length) (u := u) (by omega)
    (hu.trans ((recent_le js).trans hd))).1
  rw [← hcount] at hle
  omega

/-- A word is to be written at this edge, after the edges `js`; the count leaves out the words
    taken in at the last two of them, and nothing is read. -/
def writeEdge (js : List (Input 1)) : Input 1 where
  clock := true
  wrclks := fun _ => true
  wrreqs := fun _ => true
  dataIn := fun _ => BitVec.ofNat 32 js.length
  rdusedw := fun _ => BitVec.ofInt 11 (((after 0 js).fifos 0).contents.length - recent 0 2 0 js)
  txBusy := false
  rdreq := false
  payloadSize := fun _ => 0
  flags := fun _ => 1

/-- `n` words are to be written, one at every edge. -/
def filling : ℕ → List (Input 1)
  | 0 => []
  | n + 1 => filling n ++ [writeEdge (filling n)]

theorem countsLate_filling (n : ℕ) : CountsLate 0 2 0 (filling n) := by
  induction n with
  | zero => exact fun js i hpre => absurd (List.prefix_nil.1 hpre) (by simp)
  | succ n ih =>
    intro js i hpre
    rcases List.prefix_concat_iff.1 hpre with heq | hpre
    · obtain ⟨rfl, hi⟩ := List.append_inj' heq rfl
      obtain rfl := List.singleton_inj.1 hi
      exact ⟨_, le_rfl, rfl⟩
    · exact ih js i hpre

theorem filling_unread (n : ℕ) : (after 0 (filling n)).rdreqs 0 = false ∧
    log step (takenFrom 0) (reset 0) (filling n) = [] := by
  induction n with
  | zero => exact ⟨rfl, rfl⟩
  | succ n ih =>
    obtain ⟨hrdreqs, htaken⟩ := ih
    rw [filling, after_concat, log_concat, htaken]
    refine ⟨by simp [writeEdge], ?_⟩
    change takenFrom 0 _ (after 0 (filling n)) = []
    rw [takenFrom, hrdreqs, Bool.and_false]
    rfl

/-- Of 2000 words at least 74 are not let through; the others are in the FIFO or about to be. -/
theorem fifo_bounded_filling :
    log step (letThrough 0) (reset 0) (filling 2000) =
        ((after 0 (filling 2000)).fifos 0).contents ++ pending 0 (after 0 (filling 2000)) ∧
      (log step (letThrough 0) (reset 0) (filling 2000)).length ≤ 1926 := by
  obtain ⟨hlength, -, hwords, -⟩ :=
    fifo_bounded (by decide) (filling 2000) (countsLate_filling 2000)
  rw [(filling_unread 2000).2, List.nil_append] at hwords
  have hpending : (pending 0 (after 0 (filling 2000))).length ≤ 1 := by
    unfold pending
    split_ifs <;> simp
  refine ⟨hwords, ?_⟩
  rw [hwords, List.length_append]
  omega

end FpgaEthernet.InputFifoManager
