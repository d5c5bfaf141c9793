import FpgaEthernet.Arbiter.UdpDataArbiter
import FpgaEthernet.Clocked.Cut

/-!
# The timeout of the arbiter

`ethernet/udp_data_arbiter.vhd` takes the line from a client that "stops sending
data for >1000 clock cycles". Its counter is cleared when the transmission
begins, and not when the client sends again: what it counts are the idle cycles
of the whole transmission.

Main results:

* `Serving.step`: the counter of a transmission grows with every idle cycle.
* `serving_run`: it is the number of idle cycles since the first busy one, but
  for the last, which the arbiter has not seen yet.
* `grant_kept_iff`: every client keeps the line as long as it should iff no
  transmission reaches a thousand idle cycles but by being idle all the time.
-/

namespace FpgaEthernet.UdpDataArbiter

open Clocked

variable {c : Client} {i j : Input} {s : State} {n : ℕ} {d : Bool}

/-! ## Specification -/

/-- The registers after the edges `is`, counted from reset. -/
def after (is : List Input) : State := run step initial is

/-- In this cycle client `c` has its busy bit low. -/
def done (c : Client) (i : Input) : Bool := !(i.bus c).txBusy

/-- In this cycle client `c` sends no data. -/
def idle (c : Client) (i : Input) : Bool := !(i.bus c).dval

/-- The line is granted to client `c`. -/
def HasLine (c : Client) (s : State) : Prop := s.currentClient = some c

instance : Decidable (HasLine c s) := inferInstanceAs (Decidable (_ = _))

/-- The last cycles, more than a thousand, are all idle. -/
def LongIdle (c : Client) (is : List Input) : Prop :=
  ∃ ks, ks <:+ is ∧ 1000 < ks.length ∧ ∀ k ∈ ks, idle c k = true

/-- A client to which the line is granted keeps it while its busy bit is high,
    unless it has sent nothing for more than a thousand cycles. -/
def Kept (is : List Input) : Prop :=
  ∀ c js j i, js ++ [j, i] <+: is → HasLine c (after js) → HasLine c (after (js ++ [j])) →
    done c j = false → done c i = false → ¬LongIdle c (js ++ [j, i]) →
      HasLine c (after (js ++ [j, i]))

/-- After the edges `ls` client `c` has the line for the cycles `ws` and is busy
    in all of them. -/
def Transmits (c : Client) (ls ws : List Input) : Prop :=
  (∀ ks, ks <+: ws → HasLine c (after (ls ++ ks))) ∧ ∀ w ∈ ws, done c w = false

theorem after_concat (js : List Input) (i : Input) : after (js ++ [i]) = step i (after js) :=
  run_concat _ _ _ _

theorem sane_after (js : List Input) : Sane (after js) := by
  induction js using List.reverseRecOn with
  | nil => exact sane_initial
  | append_singleton js i ih =>
    rw [after_concat]
    exact ih.step

/-! ## The counter -/

/-- Client `c` has the line and is busy; `n` idle cycles are counted, and `d` is
    its valid bit in the last cycle. -/
structure Serving (c : Client) (n : ℕ) (d : Bool) (s : State) : Prop where
  granted : HasLine c s
  nextState : s.nextState = .txBusy
  busy : s.clientBusy = true
  dval : s.clientDval = d
  count : s.timeoutCount = n

/-- The counter of a transmission grows with every idle cycle. -/
theorem Serving.step (h : Serving c n d s) (hn : n < 1000) (hi : done c i = false) :
    Serving c (n + (!d).toNat) (i.bus c).dval (step i s) := by
  obtain ⟨hc, hs, hb, rfl, rfl⟩ := h
  have hlt : ¬maxTimeout ≤ s.timeoutCount := Nat.not_le.2 hn
  have hi : (i.bus c).txBusy = true := by simpa [done] using hi
  have hc : s.currentClient = some c := hc
  cases hd : s.clientDval <;>
    constructor <;>
    simp [HasLine, UdpDataArbiter.step, stateMachine, outputMultiplexer, hc, hs, hb, hd, hlt, hi]

/-- At a thousand the line is taken from the client. -/
theorem Serving.drop (h : Serving c n d s) (hn : 1000 ≤ n) (i : Input) :
    ¬HasLine c (UdpDataArbiter.step i s) := by
  obtain ⟨-, hs, -, -, rfl⟩ := h
  have hle : maxTimeout ≤ s.timeoutCount := hn
  simp [HasLine, UdpDataArbiter.step, stateMachine, hs, hle]

/-- The transmission begins when the busy bit has come through. -/
theorem serving_begin (hc : HasLine c s) (hs : s.nextState = .txWait) (hb : s.clientBusy = true)
    (hi : done c i = false) : Serving c 0 (i.bus c).dval (step i s) := by
  have hi : (i.bus c).txBusy = true := by simpa [done] using hi
  have hc : s.currentClient = some c := hc
  constructor <;> simp [HasLine, step, stateMachine, outputMultiplexer, hc, hs, hb, hi]

theorem HasLine.nextState (hc : HasLine c s) (hsane : Sane s) :
    s.nextState = .txWait ∨ s.nextState = .txBusy := by
  have hn : ¬(s.nextState = .hwReset ∨ s.nextState = .idle) := by
    rw [← hsane.current, hc]
    simp
  cases hs : s.nextState <;> simp_all

theorem HasLine.clientBusy (hc : HasLine c s) : (step i s).clientBusy = !done c i := by
  rw [step_clientBusy hc, done, Bool.not_not]

/-- A client whose busy bit has come through had the line before. -/
theorem hasLine_of_step (hsane : Sane s) (hc : HasLine c (step i s))
    (hb : (step i s).clientBusy = true) : HasLine c s := by
  cases hd : s.currentClient with
  | none =>
    rw [step_clientBusy_none hd] at hb
    cases hb
  | some d =>
    have hs : s.nextState = .txWait ∨ s.nextState = .txBusy := HasLine.nextState hd hsane
    have hstay : (step i s).currentClient = some d ∨ (step i s).currentClient = none := by
      rcases hs with hs | hs <;> simp only [step, stateMachine, hs, hd] <;> split_ifs <;> simp
    rcases hstay with h | h
    · exact hd.trans (h.symm.trans hc)
    · cases h.symm.trans hc

/-! ## Transmissions -/

theorem Transmits.of_concat {ls ws : List Input} {w : Input} (h : Transmits c ls (ws ++ [w])) :
    Transmits c ls ws :=
  ⟨fun ks hks => h.1 ks (hks.trans (List.prefix_append _ _)),
    fun v hv => h.2 v (List.mem_append_left _ hv)⟩

theorem Transmits.concat {ls ws : List Input} {w : Input} (h : Transmits c ls ws)
    (hc : HasLine c (after (ls ++ (ws ++ [w])))) (hw : done c w = false) :
    Transmits c ls (ws ++ [w]) := by
  constructor
  · intro ks hks
    rcases List.prefix_concat_iff.1 hks with rfl | hks
    · exact hc
    · exact h.1 ks hks
  · intro v hv
    rcases List.mem_append.1 hv with hv | hv
    · exact h.2 v hv
    · rw [List.mem_singleton.1 hv]
      exact hw

theorem Transmits.granted {ls ws : List Input} (h : Transmits c ls ws) :
    HasLine c (after (ls ++ ws)) := h.1 ws List.prefix_rfl

/-- The counter is at least the number of idle cycles since the first busy cycle
    of any part of a transmission, but for the last cycle. -/
theorem serving_run {ls ws : List Input} {t : Input} (h : Transmits c ls (t :: ws ++ [j])) :
    ∃ n, ws.countP (idle c) ≤ n ∧ Serving c n (j.bus c).dval (after (ls ++ (t :: ws ++ [j]))) := by
  induction ws using List.reverseRecOn generalizing j with
  | nil =>
    have hls : HasLine c (after ls) := by simpa using h.1 [] List.nil_prefix
    have ht : HasLine c (after (ls ++ [t])) := h.of_concat.granted
    have hj : done c j = false := h.2 j (by simp)
    have hb : (after (ls ++ [t])).clientBusy = true := by
      rw [after_concat, hls.clientBusy, h.2 t (by simp), Bool.not_false]
    have hgranted := h.granted
    rw [← List.append_assoc, after_concat] at hgranted ⊢
    rcases ht.nextState (sane_after _) with hs | hs
    · exact ⟨0, le_rfl, serving_begin ht hs hb hj⟩
    · have hserving : Serving c _ _ (after (ls ++ [t])) := ⟨ht, hs, hb, rfl, rfl⟩
      have hlt := Nat.not_le.1 fun hle => hserving.drop hle j hgranted
      exact ⟨_, Nat.zero_le _, hserving.step hlt hj⟩
  | append_singleton ws w ih =>
    rw [← List.cons_append] at h
    obtain ⟨n, hn, hserving⟩ := ih h.of_concat
    have hgranted := h.granted
    rw [← List.append_assoc, after_concat] at hgranted
    have hlt := Nat.not_le.1 fun hle => hserving.drop hle j hgranted
    have hstep := hserving.step hlt (h.2 j (by simp))
    rw [← List.cons_append, ← List.append_assoc, after_concat]
    refine ⟨_, ?_, hstep⟩
    have hidle : (idle c w).toNat = (!(w.bus c).dval).toNat := rfl
    rw [List.countP_append, List.countP_singleton]
    split_ifs with hw
    · rw [← hidle, hw, Bool.toNat_true]
      omega
    · omega

/-- A client whose busy bit has come through is in a transmission, and its counter
    is the number of idle cycles since the first busy one, but for the last. -/
theorem transmits_of_hasLine (js : List Input) (hc : HasLine c (after js))
    (hb : (after js).clientBusy = true) :
    ((after js).nextState = .txWait ∧ ∃ ls t, js = ls ++ [t] ∧ Transmits c ls [t]) ∨
      ∃ ls t ws j, js = ls ++ (t :: ws ++ [j]) ∧ Transmits c ls (t :: ws ++ [j]) ∧
        Serving c (ws.countP (idle c)) (j.bus c).dval (after js) := by
  induction js using List.reverseRecOn with
  | nil => cases hb
  | append_singleton js i ih =>
    have hcat := hc
    rw [after_concat] at hc hb
    have hc₀ := hasLine_of_step (sane_after js) hc hb
    have hi : done c i = false := by simpa [hc₀.clientBusy] using hb
    cases hb₀ : (after js).clientBusy with
    | false =>
      -- the busy bit rises while the client is waited for
      have hs₀ : (after js).nextState = .txWait := by
        refine (hc₀.nextState (sane_after js)).resolve_right fun hs => ?_
        simp [HasLine, step, stateMachine, hs, hb₀] at hc
      refine .inl ⟨?_, js, i, rfl, fun ks hks => ?_, by simpa using hi⟩
      · rw [after_concat]
        by_cases hle : maxTimeout ≤ (after js).timeoutCount
        · simp [HasLine, step, stateMachine, hs₀, hb₀, hle] at hc
        · simp [step, stateMachine, hs₀, hb₀, hle]
      · rcases List.prefix_concat_iff.1 (show ks <+: [] ++ [i] from hks) with rfl | hks
        · exact hcat
        · rw [List.prefix_nil.1 hks, List.append_nil]
          exact hc₀
    | true =>
      rcases ih hc₀ hb₀ with ⟨hs₀, ls, t, rfl, htrans⟩ | ⟨ls, t, ws, j, rfl, htrans, hserving⟩
      · refine .inr ⟨ls, t, [], i, by simp, htrans.concat (by simpa using hcat) hi, ?_⟩
        rw [after_concat]
        exact serving_begin hc₀ hs₀ hb₀ hi
      · have hlt := Nat.not_le.1 fun hle => hserving.drop hle i hc
        refine .inr ⟨ls, t, ws ++ [j], i, by simp, ?_, ?_⟩
        · exact htrans.concat (by simpa using hcat) hi
        · have hidle : (!(j.bus c).dval).toNat = if idle c j then 1 else 0 := by
            unfold idle
            cases (j.bus c).dval <;> rfl
          rw [after_concat, List.countP_append, List.countP_singleton, ← hidle]
          exact hserving.step hlt hi

/-- Every client keeps the line as long as it should iff in no transmission the
    idle cycles since the first busy one come to a thousand, but for one that has
    sent nothing for more than a thousand cycles. -/
theorem grant_kept_iff (is : List Input) :
    Kept is ↔ ∀ c ls t ws j i, ls ++ (t :: ws ++ [j, i]) <+: is → Transmits c ls (t :: ws ++ [j]) →
      done c i = false → 1000 ≤ ws.countP (idle c) → LongIdle c (ls ++ (t :: ws ++ [j, i])) := by
  have hcat : ∀ (ls ws : List Input) (t j i : Input),
      ls ++ (t :: ws ++ [j, i]) = ls ++ (t :: ws ++ [j]) ++ [i] := by simp
  constructor
  · intro hkept c ls t ws j i hpre htrans hi hcount
    by_contra hshort
    obtain ⟨n, hn, hserving⟩ := serving_run htrans
    apply hserving.drop (hcount.trans hn) i
    rw [← after_concat, ← hcat]
    rw [← List.append_assoc] at hpre hshort ⊢
    have hc := htrans.of_concat.granted
    have hcj := htrans.granted
    rw [← List.append_assoc] at hcj
    exact hkept c (ls ++ (t :: ws)) j i hpre hc hcj (htrans.2 j (by simp)) hi hshort
  · intro hno c js j i hpre hc hcj hj hi hshort
    have hb : (after (js ++ [j])).clientBusy = true := by
      rw [after_concat, hc.clientBusy, hj, Bool.not_false]
    have hpair : js ++ [j, i] = js ++ [j] ++ [i] := by simp
    rw [hpair] at hpre hshort ⊢
    rw [after_concat]
    rcases transmits_of_hasLine (js ++ [j]) hcj hb with
      ⟨hs, -⟩ | ⟨ls, t, ws, j', heq, htrans, hserving⟩
    · exact (serving_begin hcj hs hb hi).granted
    · refine (hserving.step ?_ hi).granted
      by_contra hcount
      rw [heq, ← hcat] at hpre hshort
      exact hshort (hno c ls t ws j' i hpre htrans hi (Nat.not_lt.1 hcount))

/-! ## A sparse transmission -/

/-- A cycle in which the command responder shows the bus `b` and all others are
    quiet. -/
def cmdEdge (b : UdpBus) : Input where
  bus := fun c => if c = .commandResp then b else .quiet
  destIface := 0
  destAddr := 0

/-- The command responder is busy, and sends a word or none. -/
def sendEdge (dval : Bool) : Input := cmdEdge { UdpBus.quiet with dval := dval, txBusy := true }

theorem done_sendEdge (dval : Bool) : done .commandResp (sendEdge dval) = false := rfl

/-- The command responder is granted the line and sends a word in every second
    cycle. -/
def sparseRun (m : ℕ) : List Input :=
  [cmdEdge .quiet, cmdEdge { UdpBus.quiet with txReq := true }, sendEdge true, sendEdge true] ++
    (List.replicate m [sendEdge false, sendEdge true]).flatten

theorem sparseRun_succ (m : ℕ) :
    sparseRun (m + 1) = sparseRun m ++ [sendEdge false] ++ [sendEdge true] := by
  simp [sparseRun, List.replicate_succ']

theorem serving_sparseRun (m : ℕ) (hm : m ≤ 1000) :
    Serving .commandResp m true (after (sparseRun m)) := by
  induction m with
  | zero => constructor <;> decide
  | succ m ih =>
    have hgap : Serving .commandResp m false (after (sparseRun m ++ [sendEdge false])) := by
      rw [after_concat]
      exact (ih (by omega)).step (by omega) (done_sendEdge false)
    rw [sparseRun_succ, after_concat]
    exact hgap.step (by omega) (done_sendEdge true)

/-- The line is taken from a client that is never idle for two cycles. -/
theorem sparse_dropped : ¬Kept (sparseRun 1000 ++ [sendEdge true]) := by
  intro hkept
  have hserving := serving_sparseRun 1000 le_rfl
  apply hserving.drop le_rfl (sendEdge true)
  have hbefore : HasLine .commandResp (after (sparseRun 999 ++ [sendEdge false])) := by
    rw [after_concat]
    exact ((serving_sparseRun 999 (by omega)).step (by omega) (done_sendEdge false)).granted
  have hcat : sparseRun 999 ++ [sendEdge false] ++ [sendEdge true, sendEdge true] =
      sparseRun 1000 ++ [sendEdge true] := by
    rw [sparseRun_succ 999]
    simp only [List.append_assoc, List.cons_append, List.nil_append]
  rw [← after_concat, ← hcat]
  apply hkept _ _ _ _ (by rw [hcat]) hbefore
  · rw [← sparseRun_succ]
    exact hserving.granted
  · exact done_sendEdge true
  · exact done_sendEdge true
  · rintro ⟨ks, hks, hlen, hidle⟩
    -- the last cycle is not idle
    have hne : ks ≠ [] := by
      rintro rfl
      simp at hlen
    have hlast := hks.getLast hne
    have hlast : ks.getLast hne = sendEdge true := by simpa using hlast
    have h := hidle _ (List.getLast_mem hne)
    rw [hlast] at h
    cases h

end FpgaEthernet.UdpDataArbiter
