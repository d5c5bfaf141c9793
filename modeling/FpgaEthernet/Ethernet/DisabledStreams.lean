import FpgaEthernet.Ethernet.StreamSelection

/-!
# Disabled streams

A FIFO of `ethernet/input_fifo_manager.vhd` whose `flags(0)` is zero is disabled:
it shall not be read from nor raise `payload_rdy`. The scan checks the bit in
only one of its branches: a FIFO that is flushed is selected whatever its flags
are, and stale data is flushed in a disabled FIFO as in any other.

Main results:

* `found_run`: a FIFO that a scan has found was enabled when the scan looked at
  it, or is disabled and flushed.
* `disabled_silent_iff`: disabled FIFOs stay silent iff no scan that ends with
  `tx_busy` low looked at a disabled FIFO that is flushed.
-/

namespace FpgaEthernet.InputFifoManager

open Clocked

variable {N : ℕ}

/-! ## One step of the scan -/

/-- What a step of the scan finds, and where the scan goes on. -/
theorem scan_cases (i : Input N) (s : State N) (I : Fin N) :
    ((scan i s I).fullestFifo = some I ∧ ((i.flags I).getLsbD 0 = true ∨
        s.fifoFlushReg I = true ∧ (scan i s I).step = N)) ∨
      (scan i s I).fullestFifo = s.fullestFifo ∧ (scan i s I).step = s.step + 1 := by
  unfold scan
  split_ifs with hurgent hfuller
  · refine .inl ⟨rfl, ?_⟩
    rcases hurgent with ⟨hprio, -⟩ | hflush
    · rw [hprio]
      exact .inl rfl
    · exact .inr ⟨hflush, rfl⟩
  · exact .inl ⟨rfl, .inl hfuller.1⟩
  · exact .inr ⟨rfl, rfl⟩

theorem scan_flushed {i : Input N} {s : State N} {I : Fin N} (h : s.fifoFlushReg I = true) :
    (scan i s I).fullestFifo = some I ∧ (scan i s I).step = N := by
  rw [scan, if_pos (.inr h)]
  exact ⟨rfl, rfl⟩

theorem lt_scan_step {i : Input N} {s : State N} {I : Fin N} (h : s.step = I) :
    s.step < (scan i s I).step := by
  have hI := I.isLt
  unfold scan
  split_ifs
  · simp only
    omega
  · exact Int.lt_succ s.step
  · exact Int.lt_succ s.step

/-- Where a step can take the scan: nowhere, to its beginning, to its end, or to
    a FIFO. -/
theorem triggerPayloadRdy_step (i : Input N) (s : State N) :
    (s.step = -1 ∧ (triggerPayloadRdy i s).fullestFifo = none) ∨
      (triggerPayloadRdy i s).step = -1 ∨
      (∃ I : Fin N, s.step = I) ∨ s.step ≠ N ∧ triggerPayloadRdy i s = s := by
  by_cases h1 : s.step = -1
  · refine .inl ⟨h1, ?_⟩
    rw [triggerPayloadRdy, if_pos h1]
  by_cases h2 : s.step = N
  · refine .inr (.inl ?_)
    rw [triggerPayloadRdy, if_neg h1, if_pos h2]
  by_cases h3 : 0 ≤ s.step ∧ s.step < N
  · exact .inr (.inr (.inl ⟨⟨s.step.toNat, by omega⟩, by simp [h3.1]⟩))
  · refine .inr (.inr (.inr ⟨h2, ?_⟩))
    rw [triggerPayloadRdy, if_neg h1, if_neg h2, dif_neg h3]

variable [NeZero N] {k : ℤ} {js : List (Input N)} {i : Input N} {I : Fin N}

/-! ## Specification -/

/-- FIFO `I` was enabled when the scan that is under way after `js` looked at
    it. -/
def EnabledAtLook (k : ℤ) (js : List (Input N)) (I : Fin N) : Prop :=
  ∃ ks i, ks ++ [i] <+: js ∧ i.clock = true ∧ (after k ks).step = I ∧
    (i.flags I).getLsbD 0 = true ∧
    ∀ ls, ks ++ [i] <+: ls → ls <+: js → (after k ls).step ≠ -1

/-- A scan ends, selects FIFO `I` and raises `payload_rdy`. -/
def Raises (I : Fin N) (i : Input N) (s : State N) : Prop :=
  i.clock = true ∧ s.step = N ∧ (step i s).payloadRdy = true ∧ (step i s).muxSel = I

/-- Whenever a scan selects a FIFO and raises `payload_rdy`, the FIFO was enabled
    when the scan looked at it; a FIFO that is disabled all the time is never
    selected and never read from. -/
def Silent (k : ℤ) (is : List (Input N)) : Prop :=
  (∀ js i I, js ++ [i] <+: is → Raises I i (after k js) → EnabledAtLook k js I) ∧
    ∀ I, (∀ i ∈ is, (i.flags I).getLsbD 0 = false) →
      (∀ js i, js ++ [i] <+: is → ¬Raises I i (after k js)) ∧
        ∀ js, js <+: is → (after k js).rdreqs I = false

/-- At the last logic clock edge of `js` the scan looked at FIFO `I`, which is
    disabled and flushed. -/
def FlushesDisabled (k : ℤ) (js : List (Input N)) (I : Fin N) : Prop :=
  ∃ ks i ls, js = ks ++ i :: ls ∧ i.clock = true ∧ (after k ks).step = I ∧
    (i.flags I).getLsbD 0 = false ∧ (after k ks).fifoFlushReg I = true ∧
    ∀ j ∈ ls, j.clock = false

/-- The reader raises `rdreq` only when `payload_rdy` has been raised before. -/
def ReadsWhenReady (k : ℤ) (is : List (Input N)) : Prop :=
  ∀ js i, js ++ [i] <+: is → i.clock = true → i.rdreq = true →
    ∃ ls, ls <+: js ∧ (after k ls).payloadRdy = true

/-! ## What a scan has found -/

omit [NeZero N] in
theorem raises_iff {s : State N} : Raises I i s ↔
    i.clock = true ∧ s.step = N ∧ s.fullestFifo = some I ∧ i.txBusy = false := by
  unfold Raises
  apply and_congr_right
  intro hc
  apply and_congr_right
  intro hend
  obtain ⟨hrdy, hmux⟩ := step_of_end hend hc
  rw [hrdy, hmux]
  cases hf : s.fullestFifo <;> cases hb : i.txBusy <;> simp

theorem EnabledAtLook.concat (h : EnabledAtLook k js I) (hne : (after k (js ++ [i])).step ≠ -1) :
    EnabledAtLook k (js ++ [i]) I := by
  obtain ⟨ks, j, hpre, hc, hstep, hen, hscan⟩ := h
  refine ⟨ks, j, hpre.trans (List.prefix_append _ _), hc, hstep, hen, ?_⟩
  intro ls hls hls'
  rcases List.prefix_concat_iff.1 hls' with rfl | hls'
  · exact hne
  · exact hscan ls hls hls'

/-- A look at an enabled FIFO. -/
theorem enabledAtLook_concat (hc : i.clock = true) (hstep : (after k js).step = I)
    (hen : (i.flags I).getLsbD 0 = true) (hne : (after k (js ++ [i])).step ≠ -1) :
    EnabledAtLook k (js ++ [i]) I := by
  refine ⟨js, i, List.prefix_rfl, hc, hstep, hen, ?_⟩
  intro ls hls hls'
  rw [← hls.eq_of_length_le hls'.length_le]
  exact hne

theorem FlushesDisabled.concat (h : FlushesDisabled k js I) (hc : i.clock = false) :
    FlushesDisabled k (js ++ [i]) I := by
  obtain ⟨ks, j, ls, rfl, hcj, hstep, hen, hflush, hls⟩ := h
  refine ⟨ks, j, ls ++ [i], by simp, hcj, hstep, hen, hflush, ?_⟩
  intro e he
  rcases List.mem_append.1 he with he | he
  · exact hls e he
  · rw [List.mem_singleton.1 he]
    exact hc

/-- A FIFO that a scan has found was enabled when the scan looked at it, or the
    scan has ended early because the FIFO is flushed. -/
theorem found_run (js : List (Input N)) (hfound : (after k js).fullestFifo = some I)
    (hscan : (after k js).step ≠ -1) :
    EnabledAtLook k js I ∨ (after k js).step = N ∧ FlushesDisabled k js I := by
  induction js using List.reverseRecOn generalizing I with
  | nil => cases hfound
  | append_singleton js i ih =>
    rw [after_concat] at hfound
    have hkeep : (step i (after k js)).fullestFifo = (after k js).fullestFifo →
        (step i (after k js)).step = (after k js).step → EnabledAtLook k (js ++ [i]) I ∨
          (step i (after k js)).step = N ∧ FlushesDisabled k js I := by
      intro hf hs
      rw [after_concat, hs] at hscan
      rw [hf] at hfound
      rcases ih hfound hscan with h | h
      · exact .inl (h.concat (by rw [after_concat, hs]; exact hscan))
      · exact .inr (hs ▸ h)
    cases hc : i.clock
    · rcases hkeep (by simp [hc]) (by simp [hc]) with h | h
      · exact .inl h
      · exact .inr ⟨by rw [after_concat]; exact h.1, h.2.concat hc⟩
    · rcases triggerPayloadRdy_step i (after k js) with ⟨-, hf⟩ | hs | ⟨J, hJ⟩ | ⟨hne, heq⟩
      · simp [hc, hf] at hfound
      · simp [hc, hs] at hscan
      · have htrigger := triggerPayloadRdy_scan i hJ
        rcases scan_cases i (after k js) J with ⟨hf, hlook⟩ | ⟨hf, hs⟩
        · obtain rfl : J = I := by simpa [hc, htrigger, hf] using hfound
          by_cases hen : (i.flags J).getLsbD 0 = true
          · exact .inl (enabledAtLook_concat hc hJ hen hscan)
          · obtain ⟨hflush, hend⟩ := hlook.resolve_left hen
            refine .inr ⟨by simp [hc, htrigger, hend], ?_⟩
            exact ⟨js, i, [], by simp, hc, hJ, by simpa using hen, hflush, by simp⟩
        · have hfound : (after k js).fullestFifo = some I := by
            simpa [hc, htrigger, hf] using hfound
          rcases ih hfound (by omega) with h | ⟨hend, -⟩
          · exact .inl (h.concat hscan)
          · have := J.isLt
            omega
      · rcases hkeep (by simp [hc, heq]) (by simp [hc, heq]) with h | ⟨hend, -⟩
        · exact .inl h
        · exact absurd (by simpa [hc, heq] using hend) hne

/-- A disabled FIFO that is flushed is found. -/
theorem FlushesDisabled.found (h : FlushesDisabled k js I) :
    (after k js).step = N ∧ (after k js).fullestFifo = some I := by
  obtain ⟨ks, j, ls, rfl, hc, hstep, -, hflush, hls⟩ := h
  induction ls using List.reverseRecOn with
  | nil =>
    obtain ⟨hf, hs⟩ := scan_flushed (i := j) hflush
    have htrigger := triggerPayloadRdy_scan j hstep
    simp [hc, htrigger, hf, hs]
  | append_singleton ls e ih =>
    obtain ⟨hs, hf⟩ := ih fun e' he' => hls e' (List.mem_append_left _ he')
    have hce : e.clock = false := hls e (by simp)
    rw [← List.cons_append, ← List.append_assoc, after_concat]
    simp [hce, hs, hf]

/-- A scan does not look at a FIFO twice. -/
theorem lt_step_of_look {ks : List (Input N)} {e : Input N} (hc : e.clock = true)
    (hstep : (after k ks).step = I) (js : List (Input N))
    (hscan : ∀ ls, ks ++ [e] <+: ls → ls <+: ks ++ e :: js → (after k ls).step ≠ -1) :
    (I : ℤ) < (after k (ks ++ e :: js)).step := by
  induction js using List.reverseRecOn with
  | nil =>
    have hlt := lt_scan_step (i := e) hstep
    rw [after_concat, step_step, if_pos hc, triggerPayloadRdy_scan e hstep, ← hstep]
    exact hlt
  | append_singleton js i ih =>
    have hcat : ks ++ e :: (js ++ [i]) = (ks ++ e :: js) ++ [i] := by simp
    have hlt := ih fun ls hls hls' =>
      hscan ls hls (hls'.trans (by rw [hcat]; exact List.prefix_append _ _))
    have hne : (after k (ks ++ e :: (js ++ [i]))).step ≠ -1 :=
      hscan _ ⟨js ++ [i], by simp⟩ List.prefix_rfl
    rw [hcat, after_concat, step_step] at hne ⊢
    split_ifs at hne ⊢ with hci
    · rcases triggerPayloadRdy_step i (after k (ks ++ e :: js)) with ⟨hs, -⟩ | hs | ⟨J, hJ⟩ |
        ⟨-, heq⟩
      · omega
      · exact absurd hs hne
      · have := lt_scan_step (i := i) hJ
        rw [triggerPayloadRdy_scan i hJ]
        omega
      · rwa [heq]
    · exact hlt

theorem FlushesDisabled.not_enabledAtLook (h : FlushesDisabled k js I) :
    ¬EnabledAtLook k js I := by
  obtain ⟨ks, i, ls, rfl, hc, hstep, hdis, -, hls⟩ := h
  rintro ⟨ks', i', hpre, hc', hstep', hen, hscan⟩
  have hsame : ks' ++ [i'] ≠ ks ++ [i] := by
    intro heq
    obtain ⟨-, hi⟩ := List.append_inj' heq rfl
    obtain rfl : i' = i := by simpa using hi
    rw [hdis] at hen
    cases hen
  have hpre' : ks ++ [i] <+: ks ++ i :: ls := ⟨ls, by simp⟩
  rcases List.prefix_or_prefix_of_prefix hpre hpre' with h | h
  · obtain ⟨m, rfl⟩ := (List.prefix_concat_iff.1 h).resolve_left hsame
    have hlt := lt_step_of_look hc' hstep' m fun l hl hl' =>
      hscan l hl (hl'.trans (by simp))
    rw [List.append_assoc, List.singleton_append] at hstep
    omega
  · obtain ⟨m, rfl⟩ := (List.prefix_concat_iff.1 h).resolve_left (Ne.symm hsame)
    have hm : m ++ [i'] <+: ls := by simpa [List.append_assoc] using hpre
    have hi' : i'.clock = false := hls i' (hm.subset (by simp))
    simp [hi'] at hc'

/-! ## Reading -/

/-- A FIFO that is never selected is not the selected one once `payload_rdy` has
    been high. -/
theorem muxSel_ne (hno : ∀ js' i, js' ++ [i] <+: js → ¬Raises I i (after k js'))
    {ls : List (Input N)} (hls : ls <+: js) (hrdy : (after k ls).payloadRdy = true) :
    (after k js).muxSel ≠ I := by
  induction js using List.reverseRecOn generalizing ls with
  | nil =>
    rw [List.prefix_nil.1 hls] at hrdy
    cases hrdy
  | append_singleton js i ih =>
    have hno' : ∀ js' i', js' ++ [i'] <+: js → ¬Raises I i' (after k js') := fun js' i' h =>
      hno js' i' (h.trans (List.prefix_append _ _))
    have hnow := hno js i List.prefix_rfl
    have hkeep : (step i (after k js)).muxSel = (after k js).muxSel →
        ((step i (after k js)).payloadRdy = true → (after k js).payloadRdy = true) →
        (after k (js ++ [i])).muxSel ≠ I := by
      intro hmux hup
      rw [after_concat, hmux]
      rcases List.prefix_concat_iff.1 hls with rfl | hls
      · rw [after_concat] at hrdy
        exact ih hno' List.prefix_rfl (hup hrdy)
      · exact ih hno' hls hrdy
    cases hc : i.clock
    · exact hkeep (by simp [hc]) (by simp [hc])
    · rcases triggerPayloadRdy_cases i (after k js) with ⟨-, hmux, hup⟩ | ⟨-, hmux, hup⟩ |
        ⟨hend, hsome, hb, -, hup⟩
      · exact hkeep (by simp [hc, hmux]) (by simp [hc, hup])
      · exact hkeep (by simp [hc, hmux]) (by simp [hc, hup])
      · rw [after_concat]
        intro hmux
        exact hnow ⟨hc, hend, by simp [hc, hup], hmux⟩

/-- A FIFO that is never selected is never read from. -/
theorem rdreqs_of_not_raises (hread : ReadsWhenReady k js)
    (hno : ∀ js' i, js' ++ [i] <+: js → ¬Raises I i (after k js')) :
    (after k js).rdreqs I = false := by
  induction js using List.reverseRecOn with
  | nil => rfl
  | append_singleton js i ih =>
    have hno' : ∀ js' i', js' ++ [i'] <+: js → ¬Raises I i' (after k js') := fun js' i' h =>
      hno js' i' (h.trans (List.prefix_append _ _))
    have ih := ih (fun js' i' h => hread js' i' (h.trans (List.prefix_append _ _))) hno'
    rw [after_concat, step_rdreqs, ih]
    split_ifs with hc hI
    · by_contra hr
      obtain ⟨ls, hls, hrdy⟩ := hread js i List.prefix_rfl hc (by simpa using hr)
      exact muxSel_ne hno' hls hrdy hI.symm
    · rfl
    · rfl

/-! ## Disabled streams -/

theorem not_silent_of_flushesDisabled {is : List (Input N)} (hpre : js ++ [i] <+: is)
    (hc : i.clock = true) (hb : i.txBusy = false) (h : FlushesDisabled k js I) :
    ¬Silent k is := by
  intro hsilent
  obtain ⟨hend, hfound⟩ := h.found
  have hraises : Raises I i (after k js) := raises_iff.2 ⟨hc, hend, hfound, hb⟩
  exact h.not_enabledAtLook (hsilent.1 js i I hpre hraises)

/-- In every run from reset the disabled FIFOs stay silent iff no scan that ends
    with `tx_busy` low looked, at its last step, at a disabled FIFO that is
    flushed. -/
theorem disabled_silent_iff (is : List (Input N)) (hread : ReadsWhenReady k is) :
    Silent k is ↔ ∀ js i I, js ++ [i] <+: is → i.clock = true → i.txBusy = false →
      ¬FlushesDisabled k js I := by
  constructor
  · intro hsilent js i I hpre hc hb h
    exact not_silent_of_flushesDisabled hpre hc hb h hsilent
  · intro hno
    have hlook : ∀ js i I, js ++ [i] <+: is → Raises I i (after k js) →
        EnabledAtLook k js I := by
      intro js i I hpre hraises
      obtain ⟨hc, hend, hfound, hb⟩ := raises_iff.1 hraises
      refine (found_run js hfound (by omega)).resolve_right ?_
      exact fun h => hno js i I hpre hc hb h.2
    refine ⟨hlook, fun I hdis => ?_⟩
    have hnever : ∀ js i, js ++ [i] <+: is → ¬Raises I i (after k js) := by
      intro js i hpre hraises
      obtain ⟨ks, j, hks, -, -, hen, -⟩ := hlook js i I hpre hraises
      have hmem : j ∈ is := (hks.trans ((List.prefix_append _ _).trans hpre)).subset (by simp)
      rw [hdis j hmem] at hen
      cases hen
    refine ⟨hnever, fun js hjs => rdreqs_of_not_raises ?_ ?_⟩
    · exact fun js' i h => hread js' i (h.trans hjs)
    · exact fun js' i h => hnever js' i (h.trans hjs)

/-- An edge of all clocks of two FIFOs that are disabled and hold `used` words
    each; a word is written to both, or none. -/
def disabledEdge (used : BitVec 11) (wrreq : Bool) : Input 2 where
  clock := true
  wrclks := fun _ => true
  wrreqs := fun _ => wrreq
  dataIn := fun _ => 0
  rdusedw := fun _ => used
  txBusy := false
  rdreq := false
  payloadSize := fun _ => 0
  flags := fun _ => 0

/-- A word is written to both FIFOs, of which the first is enabled, and read when
    `payload_rdy` is high. -/
def servedRun : List (Input 2) :=
  let edge := fun used wrreq rdreq =>
    { disabledEdge used wrreq with rdreq := rdreq, flags := ![1, 0] }
  [edge 0 true false, edge 0 false false] ++ List.replicate 6 (edge 1 false false) ++
    [edge 1 false true]

theorem disabled_silent_iff_served :
    (after (-1) servedRun).rdreqs 0 = true ∧ Silent (-1) servedRun := by
  have htake : ∀ js, js <+: servedRun → js = servedRun.take js.length ∧ js.length < 10 :=
    fun js h => ⟨List.prefix_iff_eq_take.1 h, Nat.lt_succ_of_le h.length_le⟩
  refine ⟨by decide, (disabled_silent_iff servedRun fun js i hpre _ hr => ?_).2 ?_⟩
  · refine ⟨js, List.prefix_rfl, ?_⟩
    obtain ⟨heq, hlt⟩ := htake _ hpre
    have hlast : ∀ n < 10, (servedRun.take n).getLast?.any (·.rdreq) = true →
        (after (-1) (servedRun.take n).dropLast).payloadRdy = true := by decide
    have h := hlast _ hlt
    rw [← heq] at h
    simpa [hr] using h
  · rintro js i I hpre - - ⟨ks, e, ls, rfl, -, -, -, hflush, -⟩
    have hks : ks <+: servedRun := List.IsPrefix.trans ⟨e :: ls ++ [i], by simp⟩ hpre
    obtain ⟨heq, hlt⟩ := htake ks hks
    have hquiet : ∀ n < 10, ∀ I, (after (-1) (servedRun.take n)).fifoFlushReg I = false := by
      decide
    rw [heq, hquiet _ hlt I] at hflush
    cases hflush

/-! ## Stale data in a disabled FIFO -/

/-- Nothing is written or read; `n` edges have been counted. -/
structure Stale (n : ℕ) (flush reg : Bool) (st : ℤ) (s : State 2) : Prop where
  flushCounter : ∀ I, s.flushCounter I = n
  fifoFlush : ∀ I, s.fifoFlush I = flush
  fifoFlushReg : ∀ I, s.fifoFlushReg I = reg
  flushLatch : ∀ I, s.flushLatch I = false
  wrreqsSig : ∀ I, s.wrreqsSig I = false
  rdreqs : ∀ I, s.rdreqs I = false
  step : s.step = st

theorem Stale.edge {n : ℕ} {flush reg : Bool} {st : ℤ} {s : State 2}
    (h : Stale n flush reg st s) :
    Stale (if 125000 ≤ n then n else n + 1) (decide (125000 ≤ n)) flush
      (triggerPayloadRdy (disabledEdge 1 false) s).step
      (InputFifoManager.step (disabledEdge 1 false) s) := by
  obtain ⟨hcount, hflush, hreg, hlatch, hwr, hrd, -⟩ := h
  constructor
  · intro I
    simp [InputFifoManager.step, disabledEdge, flushStale, hwr, hrd, hcount, inFifoAfull,
      inFifoStaleThreshold]
    split_ifs <;> rfl
  · intro I
    simp [InputFifoManager.step, disabledEdge, flushStale, hwr, hrd, hcount, inFifoAfull,
      inFifoStaleThreshold]
    split_ifs <;> simp [*]
  · intro I
    cases flush <;>
      simp [InputFifoManager.step, disabledEdge, clockRegisters, flushSigSynch, hflush, hlatch, hrd]
  · intro I
    cases flush <;>
      simp [InputFifoManager.step, disabledEdge, clockRegisters, flushSigSynch, hflush, hlatch, hrd]
  · intro I
    simp [InputFifoManager.step, disabledEdge, fifoInReg]
  · intro I
    simp [disabledEdge]
  · simp [disabledEdge]

/-- Without a flush the scan of disabled FIFOs goes round. -/
theorem Stale.scan_step {n : ℕ} {flush : Bool} {st : ℤ} {s : State 2}
    (h : Stale n flush false st s) (hlow : -1 ≤ st) (hhigh : st ≤ 2) :
    (triggerPayloadRdy (disabledEdge 1 false) s).step = if st = 2 then -1 else st + 1 := by
  have hst := h.step
  have hscan : ∀ I : Fin 2, (scan (disabledEdge 1 false) s I).step = s.step + 1 := by
    intro I
    simp [scan, disabledEdge, infifoPriority, h.fifoFlushReg I]
  have hcases : st = -1 ∨ st = 2 ∨ ∃ I : Fin 2, st = I := by
    rcases (by omega : st = -1 ∨ st = 2 ∨ st = 0 ∨ st = 1) with h | h | h | h
    · exact .inl h
    · exact .inr (.inl h)
    · exact .inr (.inr ⟨0, h⟩)
    · exact .inr (.inr ⟨1, h⟩)
  rcases hcases with rfl | rfl | ⟨I, rfl⟩
  · rw [triggerPayloadRdy, if_pos hst]
    rfl
  · rw [triggerPayloadRdy, if_neg (by omega), if_pos (by simpa using hst)]
    rfl
  · have hI := I.isLt
    rw [triggerPayloadRdy_scan _ hst, hscan, hst, if_neg (by omega)]

/-- A word is written to both FIFOs, and nothing happens for `n` edges
    afterwards. -/
def staleRun (n : ℕ) : List (Input 2) :=
  [disabledEdge 0 true, disabledEdge 0 false] ++ List.replicate n (disabledEdge 1 false)

theorem staleRun_succ (n : ℕ) : staleRun (n + 1) = staleRun n ++ [disabledEdge 1 false] := by
  rw [staleRun, staleRun, List.replicate_succ', List.append_assoc]

theorem mem_staleRun {n : ℕ} {i : Input 2} (hi : i ∈ staleRun n) :
    ∃ used wrreq, i = disabledEdge used wrreq := by
  rcases List.mem_append.1 hi with hi | hi
  · rcases List.mem_cons.1 hi with rfl | hi
    · exact ⟨_, _, rfl⟩
    · exact ⟨_, _, List.mem_singleton.1 hi⟩
  · exact ⟨_, _, List.eq_of_mem_replicate hi⟩

theorem stale_run (n : ℕ) (hn : n ≤ 125000) :
    Stale n false false ((n + 2 : ℤ) % 4 - 1) (after (-1) (staleRun n)) := by
  induction n with
  | zero => constructor <;> decide
  | succ n ih =>
    have h := ih (by omega)
    have hstep := h.scan_step (by omega) (by omega)
    have h' := h.edge
    rw [hstep, if_neg (by omega), decide_eq_false (by omega)] at h'
    rw [staleRun_succ, after_concat]
    convert h' using 1
    push_cast
    split_ifs <;> omega

/-- The word in the first FIFO is flushed. -/
theorem flushesDisabled_staleRun : FlushesDisabled (-1) (staleRun 125004) 0 := by
  -- the flush bits, their registers on the logic clock, and the start of the next scan
  have h₀ : Stale 125000 false false 1 (after (-1) (staleRun 125000)) := stale_run _ le_rfl
  have h₁ : Stale 125000 true false 2 (after (-1) (staleRun 125001)) := by
    have h := h₀.edge
    rwa [h₀.scan_step (by decide) (by decide), ← after_concat, ← staleRun_succ] at h
  have h₂ : Stale 125000 true true (-1) (after (-1) (staleRun 125002)) := by
    have h := h₁.edge
    rwa [h₁.scan_step (by decide) (by decide), ← after_concat, ← staleRun_succ] at h
  have h₃ : Stale 125000 true true 0 (after (-1) (staleRun 125003)) := by
    have h := h₂.edge
    rwa [triggerPayloadRdy, if_pos h₂.step, ← after_concat, ← staleRun_succ] at h
  exact ⟨staleRun 125003, disabledEdge 1 false, [], staleRun_succ 125003, rfl, h₃.step, rfl,
    h₃.fifoFlushReg 0, by simp⟩

/-- Stale data in a disabled FIFO is sent. -/
theorem disabled_not_silent :
    (∀ i ∈ staleRun 125005, ∀ I, i.flags I = 0) ∧ ReadsWhenReady (-1) (staleRun 125005) ∧
      ¬Silent (-1) (staleRun 125005) := by
  refine ⟨?_, ?_, ?_⟩
  · intro i hi I
    obtain ⟨_, _, rfl⟩ := mem_staleRun hi
    rfl
  · intro js i hpre _ hr
    obtain ⟨_, _, rfl⟩ := mem_staleRun (hpre.subset (List.mem_concat_self))
    cases hr
  · refine not_silent_of_flushesDisabled (i := disabledEdge 1 false) ?_ rfl rfl
      flushesDisabled_staleRun
    rw [← staleRun_succ]

end FpgaEthernet.InputFifoManager
