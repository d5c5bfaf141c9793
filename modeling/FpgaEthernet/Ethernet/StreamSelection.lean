import FpgaEthernet.Ethernet.InputFifoManager

/-!
# The selection of a stream

`trigger_payload_rdy` of `ethernet/input_fifo_manager.vhd` looks at one FIFO a
clock. It stops at the first one that is urgent, and keeps the fullest one
otherwise; the entry `NFIFOS` of `fifo_used_words`, which is always zero, stands
for "none yet".

Main results:

* `Scanning.look`: what one step of the scan finds out.
* `scan_selects`: a scan selects the FIFO that `Selected` says, and raises
  `payload_rdy` exactly when there is one.
-/

namespace FpgaEthernet.InputFifoManager

open Clocked

variable {N : ℕ}

/-! ## Specification -/

/-- What a scan sees of the FIFOs: the used-word counts when it begins, and the
    flags, the minimum payload size and the flush bit of each FIFO when it looks
    at it. -/
structure View (N : ℕ) where
  used : Fin N → ℕ
  flags : Fin N → BitVec 2
  size : Fin N → BitVec 11
  flush : Fin N → Bool

/-- A FIFO that is sent first: one with priority that has reached its minimum
    payload size, or one that is flushed. -/
def View.Urgent (v : View N) (I : Fin N) : Prop :=
  v.flags I = infifoPriority ∧ (v.size I).toNat ≤ v.used I ∨ v.flush I = true

/-- An enabled FIFO that is not empty and has reached its minimum payload
    size. -/
def View.Eligible (v : View N) (I : Fin N) : Prop :=
  (v.flags I).getLsbD 0 = true ∧ 0 < v.used I ∧ (v.size I).toNat ≤ v.used I

/-- The FIFO to send from: the first urgent one, and without one the first of
    the fullest among the eligible ones. -/
def View.Selected (v : View N) (I : Fin N) : Prop :=
  v.Urgent I ∧ (∀ J < I, ¬v.Urgent J) ∨
    (∀ J, ¬v.Urgent J) ∧ v.Eligible I ∧ (∀ J, v.Eligible J → v.used J ≤ v.used I) ∧
      ∀ J < I, v.Eligible J → v.used J < v.used I

instance (v : View N) (I : Fin N) : Decidable (v.Urgent I) := by
  unfold View.Urgent
  infer_instance

instance (v : View N) (I : Fin N) : Decidable (v.Eligible I) := by
  unfold View.Eligible
  infer_instance

instance (v : View N) (I : Fin N) : Decidable (v.Selected I) := by
  unfold View.Selected
  infer_instance

/-! ## The scan -/

/-- The first of the fullest eligible FIFOs among the first `k`, or none. -/
def View.IsFullest (v : View N) (k : ℕ) : Option (Fin N) → Prop
  | none => ∀ J : Fin N, J.val < k → ¬v.Eligible J
  | some I => I.val < k ∧ v.Eligible I ∧
      (∀ J : Fin N, J.val < k → v.Eligible J → v.used J ≤ v.used I) ∧
      ∀ J < I, v.Eligible J → v.used J < v.used I

/-- A scan with the view `v` is under way: `k` FIFOs have been looked at and
    none of them is urgent, or the first urgent one has been found. -/
structure Scanning (v : View N) (s : State N) : Prop where
  fifoUsedWords : s.fifoUsedWords = v.used
  found : (∃ k : ℕ, k ≤ N ∧ s.step = k ∧ (∀ J : Fin N, J.val < k → ¬v.Urgent J) ∧
      v.IsFullest k s.fullestFifo) ∨
    s.step = N ∧ ∃ I, s.fullestFifo = some I ∧ v.Urgent I ∧ ∀ J < I, ¬v.Urgent J

/-- A logic clock edge before the end of the scan, at which the FIFO looked at
    is as the view `v` says. -/
def Sees (v : View N) (i : Input N) (s : State N) : Prop :=
  i.clock = true → s.step ≠ N ∧ ∀ I : Fin N, s.step = I →
    i.flags I = v.flags I ∧ i.payloadSize I = v.size I ∧ s.fifoFlushReg I = v.flush I

instance (v : View N) (i : Input N) (s : State N) : Decidable (Sees v i s) := by
  unfold Sees
  infer_instance

variable {v : View N} {i : Input N} {s : State N}

/-- The sentinel entry counts as an empty FIFO. -/
theorem fullestUsed_lt_iff {I : Fin N} (hused : s.fifoUsedWords = v.used)
    (helig : v.Eligible I) :
    fullestUsed s < v.used I ↔ ∀ J, s.fullestFifo = some J → v.used J < v.used I := by
  unfold fullestUsed
  cases hf : s.fullestFifo with
  | none => simpa using helig.2.1
  | some J => simp [hused]

/-- One FIFO more. -/
theorem View.IsFullest.succ {I : Fin N} {f : Option (Fin N)} (h : v.IsFullest I f)
    (hnot : v.Eligible I → ∃ J, f = some J ∧ v.used I ≤ v.used J) :
    v.IsFullest (I + 1) f := by
  have hlt : ∀ J : Fin N, J.val < I + 1 → J.val < I ∨ J = I := fun J hJ =>
    (Nat.lt_succ_iff_lt_or_eq.1 hJ).imp id Fin.ext
  cases f with
  | none =>
    intro J hJ
    rcases hlt J hJ with hJ | rfl
    · exact h J hJ
    · intro helig
      obtain ⟨_, hf, -⟩ := hnot helig
      cases hf
  | some K =>
    obtain ⟨hK, helig, hmax, hfirst⟩ := h
    refine ⟨by omega, helig, ?_, hfirst⟩
    intro J hJ hJe
    rcases hlt J hJ with hJ | rfl
    · exact hmax J hJ hJe
    · obtain ⟨_, hf, hle⟩ := hnot hJe
      cases hf
      exact hle

/-- A FIFO that is fuller than all before. -/
theorem View.IsFullest.insert {I : Fin N} {f : Option (Fin N)} (h : v.IsFullest I f)
    (helig : v.Eligible I) (hlt : ∀ J, f = some J → v.used J < v.used I) :
    v.IsFullest (I + 1) (some I) := by
  have hbefore : ∀ J : Fin N, J.val < I → v.Eligible J → v.used J < v.used I := by
    intro J hJ hJe
    cases f with
    | none => exact absurd hJe (h J hJ)
    | some K => exact (h.2.2.1 J hJ hJe).trans_lt (hlt K rfl)
  refine ⟨by omega, helig, ?_, hbefore⟩
  intro J hJ hJe
  rcases Nat.lt_succ_iff_lt_or_eq.1 hJ with hJ | hJ
  · exact (hbefore J hJ hJe).le
  · rw [Fin.ext hJ]

/-- The scan looks at FIFO `I`. -/
theorem Scanning.look {I : Fin N} (hused : s.fifoUsedWords = v.used) (hstep : s.step = I)
    (hnone : ∀ J : Fin N, J.val < I → ¬v.Urgent J) (h : v.IsFullest I s.fullestFifo)
    (hflags : i.flags I = v.flags I) (hsize : i.payloadSize I = v.size I)
    (hflush : s.fifoFlushReg I = v.flush I) : Scanning v (scan i s I) := by
  unfold scan
  rw [hflags, hsize, hflush, hused]
  split_ifs with hurgent hfuller
  · exact ⟨rfl, .inr ⟨rfl, I, rfl, hurgent, fun J hJ => hnone J hJ⟩⟩
  all_goals
    have hnone' : ∀ J : Fin N, J.val < I + 1 → ¬v.Urgent J := by
      intro J hJ
      rcases Nat.lt_succ_iff_lt_or_eq.1 hJ with hJ | hJ
      · exact hnone J hJ
      · rw [Fin.ext hJ]
        exact hurgent
  · obtain ⟨hen, hlt, hmin⟩ := hfuller
    have helig : v.Eligible I := ⟨hen, by omega, hmin⟩
    refine ⟨rfl, .inl ⟨I + 1, I.isLt, by simp [hstep], hnone', ?_⟩⟩
    exact h.insert helig ((fullestUsed_lt_iff hused helig).1 hlt)
  · refine ⟨rfl, .inl ⟨I + 1, I.isLt, by simp [hstep], hnone', h.succ fun helig => ?_⟩⟩
    have hge : ¬fullestUsed s < v.used I := fun hlt => hfuller ⟨helig.1, hlt, helig.2.2⟩
    rw [fullestUsed_lt_iff hused helig] at hge
    push Not at hge
    exact hge

/-- A scan under way keeps the multiplexer. -/
theorem Scanning.step (h : Scanning v s) (hsees : Sees v i s) :
    Scanning v (step i s) ∧ (InputFifoManager.step i s).muxSel = s.muxSel := by
  cases hc : i.clock
  · obtain ⟨hused, hfound⟩ := h
    refine ⟨⟨?_, ?_⟩, by simp [hc]⟩ <;> simpa [InputFifoManager.step, hc]
  · obtain ⟨hend, hview⟩ := hsees hc
    obtain ⟨hused, ⟨k, hk, hstep, hnone, hfull⟩ | ⟨hstep, -⟩⟩ := h
    · have hlt : k < N := by
        rcases Nat.lt_or_eq_of_le hk with hlt | rfl
        · exact hlt
        · exact absurd hstep hend
      have htrigger : triggerPayloadRdy i s = scan i s ⟨k, hlt⟩ := triggerPayloadRdy_scan i hstep
      obtain ⟨hflags, hsize, hflush⟩ := hview ⟨k, hlt⟩ hstep
      obtain ⟨hused', hfound'⟩ := Scanning.look hused hstep hnone hfull hflags hsize hflush
      refine ⟨⟨?_, ?_⟩, ?_⟩
      · simpa [InputFifoManager.step, hc, htrigger] using hused'
      · simpa [InputFifoManager.step, hc, htrigger] using hfound'
      · rw [step_muxSel, if_pos hc, htrigger]
        exact (scan_muxSel i s ⟨k, hlt⟩).1
    · exact absurd hstep hend

/-- At most one FIFO is selected. -/
theorem View.Selected.unique {I J : Fin N} (hI : v.Selected I) (hJ : v.Selected J) : I = J := by
  rcases hI with ⟨huI, hfI⟩ | ⟨hnI, heI, hmI, hfI⟩ <;>
    rcases hJ with ⟨huJ, hfJ⟩ | ⟨hnJ, heJ, hmJ, hfJ⟩
  · exact le_antisymm (not_lt.1 fun hlt => hfI J hlt huJ) (not_lt.1 fun hlt => hfJ I hlt huI)
  · exact absurd huI (hnJ I)
  · exact absurd huJ (hnI J)
  · have hused : v.used I = v.used J := le_antisymm (hmJ I heI) (hmI J heJ)
    exact le_antisymm (not_lt.1 fun hlt => by have := hfI J hlt heJ; omega)
      (not_lt.1 fun hlt => by have := hfJ I hlt heI; omega)

/-- At its end the scan has found the FIFO to select. -/
theorem Scanning.fullestFifo_iff (h : Scanning v s) (hend : s.step = N) (I : Fin N) :
    s.fullestFifo = some I ↔ v.Selected I := by
  obtain ⟨-, ⟨k, -, hstep, hnone, hfull⟩ | ⟨-, K, hK, hurgent, hfirst⟩⟩ := h
  · obtain rfl : k = N := by omega
    have hnone : ∀ J, ¬v.Urgent J := fun J => hnone J J.isLt
    cases hf : s.fullestFifo with
    | none =>
      rw [hf] at hfull
      constructor
      · intro hI
        cases hI
      · intro hI
        rcases hI with ⟨hu, -⟩ | ⟨-, he, -⟩
        · exact absurd hu (hnone I)
        · exact absurd he (hfull I I.isLt)
    | some K =>
      rw [hf] at hfull
      obtain ⟨-, helig, hmax, hfirst⟩ := hfull
      have hK : v.Selected K := .inr ⟨hnone, helig, fun J => hmax J J.isLt, hfirst⟩
      rw [Option.some_inj]
      exact ⟨fun h => h ▸ hK, fun hI => hK.unique hI⟩
  · have hsel : v.Selected K := .inl ⟨hurgent, hfirst⟩
    rw [hK, Option.some_inj]
    exact ⟨fun h => h ▸ hsel, fun hI => hsel.unique hI⟩

/-- The first edge of a scan. -/
theorem scanning_start (hstart : s.step = -1) (hc : i.clock = true)
    (hused : ∀ I, (i.rdusedw I).toNat = v.used I) : Scanning v (step i s) := by
  have htrigger : triggerPayloadRdy i s =
      { s with
        fifoUsedWords := fun I => (i.rdusedw I).toNat
        fullestFifo := none
        step := 0 } := by
    rw [triggerPayloadRdy, if_pos hstart]
  refine ⟨?_, .inl ⟨0, Nat.zero_le N, ?_, fun J hJ => absurd hJ (Nat.not_lt_zero _), ?_⟩⟩
  · simpa [step, hc, htrigger] using funext hused
  · simp [step, hc, htrigger]
  · rw [show (step i s).fullestFifo = none by simp [step, hc, htrigger]]
    exact fun J hJ => absurd hJ (Nat.not_lt_zero _)

theorem scanning_run (h : Scanning v s) {is : List (Input N)} (hsees : Along step (Sees v) s is) :
    Scanning v (run step s is) ∧ (run step s is).muxSel = s.muxSel := by
  induction is generalizing s with
  | nil => exact ⟨h, rfl⟩
  | cons i is ih =>
    obtain ⟨h', hmux⟩ := h.step hsees.1
    obtain ⟨hrun, hmux'⟩ := ih h' hsees.2
    exact ⟨hrun, hmux'.trans hmux⟩

/-- The last edge of a scan. -/
theorem step_of_end (hend : s.step = N) (hc : i.clock = true) :
    (step i s).payloadRdy = (s.fullestFifo.isSome && !i.txBusy) ∧
      (step i s).muxSel = if i.txBusy then s.muxSel else s.fullestFifo.getD s.muxSel := by
  have hne : s.step ≠ -1 := by omega
  rw [step_payloadRdy, step_muxSel, if_pos hc, if_pos hc, triggerPayloadRdy, if_neg hne,
    if_pos hend]
  cases hf : s.fullestFifo <;> simp

/-- A scan, from the logic clock edge `i₀` at which it takes down the used-word
    counts to the edge `i` at which it ends. If no transmission is under way
    then, the multiplexer is set to the selected FIFO and `payload_rdy` is raised
    iff there is one; else the multiplexer is kept and `payload_rdy` is low. -/
theorem scan_selects {i₀ : Input N} {is : List (Input N)} (hstart : s.step = -1)
    (h₀ : i₀.clock = true) (hused : ∀ I, (i₀.rdusedw I).toNat = v.used I)
    (hsees : Along step (Sees v) (step i₀ s) is)
    (hend : (run step s (i₀ :: is)).step = N) (hi : i.clock = true) :
    (i.txBusy = false →
      ((run step s (i₀ :: is ++ [i])).payloadRdy = true ↔ ∃ I, v.Selected I) ∧
      (∀ I, v.Selected I → (run step s (i₀ :: is ++ [i])).muxSel = I) ∧
      ((∀ I, ¬v.Selected I) → (run step s (i₀ :: is ++ [i])).muxSel = s.muxSel)) ∧
    (i.txBusy = true → (run step s (i₀ :: is ++ [i])).muxSel = s.muxSel ∧
      (run step s (i₀ :: is ++ [i])).payloadRdy = false) := by
  rw [run_concat]
  rw [run_cons] at hend ⊢
  obtain ⟨hscan, hmux⟩ := scanning_run (scanning_start hstart h₀ hused) hsees
  have hmux₀ : (step i₀ s).muxSel = s.muxSel := by
    rw [step_muxSel, if_pos h₀, triggerPayloadRdy, if_pos hstart]
  rw [hmux₀] at hmux
  have hiff := hscan.fullestFifo_iff hend
  obtain ⟨hrdy, hsel⟩ := step_of_end hend hi
  rw [hrdy, hsel, hmux]
  constructor
  · intro hb
    refine ⟨?_, ?_, ?_⟩
    · rw [hb, Bool.not_false, Bool.and_true, Option.isSome_iff_exists]
      exact exists_congr hiff
    · intro I hI
      rw [hb, (hiff I).2 hI]
      rfl
    · intro hno
      have hnone : (run step (step i₀ s) is).fullestFifo = none := by
        rw [Option.eq_none_iff_forall_ne_some]
        intro I hI
        exact hno I ((hiff I).1 hI)
      rw [hb, hnone]
      rfl
  · intro hb
    rw [hb, Bool.not_true, Bool.and_false]
    exact ⟨rfl, rfl⟩

/-- A logic clock edge with `used` words in the FIFOs, all of them enabled and
    sent from two words on. -/
def enabledEdge (used : Fin N → BitVec 11) : Input N where
  clock := true
  wrclks := fun _ => false
  wrreqs := fun _ => false
  dataIn := fun _ => 0
  rdusedw := used
  txBusy := false
  rdreq := false
  payloadSize := fun _ => 2
  flags := fun _ => 1

/-- The second of two FIFOs is fuller. -/
theorem scan_selects_twoFifos :
    (run step (reset (-1)) (List.replicate 4 (enabledEdge ![3, 5]))).muxSel = 1 :=
  ((@scan_selects 2 ⟨![3, 5], fun _ => 1, fun _ => 2, fun _ => false⟩ (enabledEdge ![3, 5])
    (reset (-1)) (enabledEdge ![3, 5]) (List.replicate 2 (enabledEdge ![3, 5])) rfl rfl
    (by decide) (by decide) (by decide) rfl).1 rfl).2.1 1 (by decide)

end FpgaEthernet.InputFifoManager
