import FpgaEthernet.Ethernet.EthernetBlock

/-!
# The frames on the line to the MAC

What the MAC takes from `ff_tx` when the four blocks keep apart: all words that the blocks
write, those of a block in the order in which it writes them, and every frame in one piece.

Main results:

* `event_cases`: what an event puts on the line is what the blocks write at it.
* `line_frames`: of the frames on the line, those of a block are the frames that the block
  has written, in order.
-/

namespace FpgaEthernet.EthernetBlock

open Clocked Transmitter

variable {N : ℕ} {i : Input N} {m : Traced N} {l : List (Beat × Source × ℕ)} {b : Source}

/-- The words of a block on the line. -/
def wordsOf (b : Source) (l : List (Beat × Source × ℕ)) : List Beat :=
  (l.filter fun x => x.2.1 = b).map Prod.fst

/-- The finished frames of a block on the line. -/
def framesOf (b : Source) (l : List (Beat × Source × ℕ)) : List (List Beat) :=
  ((cut (Beat.eop ∘ Prod.fst) l).1.filter fun f => f.all fun x => x.2.1 = b).map
    (List.map Prod.fst)

theorem wordsOf_append (l l' : List (Beat × Source × ℕ)) :
    wordsOf b (l ++ l') = wordsOf b l ++ wordsOf b l' := by
  rw [wordsOf, List.filter_append, List.map_append]
  rfl

/-- What is on the line after an event is what was on it before, and the word that a block
    writes, if one does. -/
theorem event_cases (h : Lined l m) (hex : Exclusive m.s) (hrdy : i.ffTxRdy = true) :
    (l ++ line i m ++ onLine (tracedStep i m) = l ++ onLine m ∧ ∀ b, writes b i m.s = []) ∨
    ∃ b, l ++ line i m ++ onLine (tracedStep i m) = l ++ onLine m ++ [(beat b m.s, frameOf b m)] ∧
      ∀ b', writes b' i m.s = if b' = b then [beat b m.s] else [] := by
  cases hc : i.data.clock
  · left
    simp [line, onLine, writes, tracedStep, EthernetBlock.step, hc]
  have hline : line i m = onLine m := by simp [line, onLine, hc, hrdy]
  have hquiet : ∀ b, busy b m.s = false → writes b i m.s = [] := fun b hb => by
    rw [writes, if_pos hc, (h.of_not_busy hex hb).1]
  rw [hline]
  by_cases hbusy : ∃ b, busy b m.s = true
  · obtain ⟨b, hb⟩ := hbusy
    have hsel := hex.selected hb
    have hothers : ∀ b', b' ≠ b → writes b' i m.s = [] := fun b' hne => hquiet b' <| by
      by_contra hb'
      exact hne (hex.one b' b (by simpa using hb') hb)
    cases hw : (tx b m.s).fg.wrreqSig
    · refine .inl ⟨?_, fun b' => ?_⟩
      · simp [onLine, tracedStep, EthernetBlock.step, hc, hsel, hw]
      · by_cases hne : b' = b
        · subst hne
          simp [writes, written, hw]
        · exact hothers b' hne
    · refine .inr ⟨b, ?_, fun b' => ?_⟩
      · simp [onLine, tracedStep, EthernetBlock.step, hc, hsel, hw]
      · by_cases hne : b' = b
        · subst hne
          simp [writes, written, hc, hw, beat]
        · rw [if_neg hne, hothers b' hne]
  · have hnone : ∀ b, busy b m.s = false := fun b => by
      by_contra hb
      exact hbusy ⟨b, by simpa using hb⟩
    have hsel : selected m.s = none := by simp [selected, hnone]
    refine .inl ⟨?_, fun b => hquiet b (hnone b)⟩
    simp [onLine, tracedStep, EthernetBlock.step, hc, hsel]

/-- Beside the model, the observer keeps what the blocks have written. -/
theorem sent_run [NeZero N] (k : ℤ) (is : List (Input N)) (b : Source) :
    (run tracedStep (tracedReset k) is).sent b = log step (writes b) (reset k) is := by
  induction is using List.reverseRecOn with
  | nil => rfl
  | append_singleton is i ih =>
    have hrun : (run tracedStep (tracedReset k : Traced N) is).s = run step (reset k) is :=
      run_tracedStep _ is
    rw [run_concat, log_concat, ← ih, ← hrun]
    rfl

/-- The words of a block on the line are the words that it has written. -/
theorem wordsOf_line [NeZero N] (k : ℤ) {is : List (Input N)}
    (hap : Along step Apart (reset k) is) (hrdy : ∀ i ∈ is, i.ffTxRdy = true) (b : Source) :
    wordsOf b (log tracedStep line (tracedReset k) is ++
        onLine (run tracedStep (tracedReset k) is)) =
      (run tracedStep (tracedReset k) is).sent b := by
  induction is using List.reverseRecOn with
  | nil => rfl
  | append_singleton is i ih =>
    have hrdy' : ∀ i ∈ is, i.ffTxRdy = true := fun j hj => hrdy j (List.mem_append_left _ hj)
    have hwords := ih hap.of_isPrefix hrdy'
    have hlined := lined_run k hap.of_isPrefix hrdy'
    have hex : Exclusive (run tracedStep (tracedReset k) is).s := by
      rw [run_tracedStep]
      exact exclusive_run k hap.of_isPrefix
    rw [log_concat, run_concat]
    have hsent : (tracedStep i (run tracedStep (tracedReset k) is)).sent b =
        (run tracedStep (tracedReset k) is).sent b ++
          writes b i (run tracedStep (tracedReset k) is).s := rfl
    rw [hsent]
    rcases event_cases (i := i) hlined hex (hrdy i (by simp)) with ⟨hline, hw⟩ | ⟨c, hline, hw⟩
    · rw [hline, hwords, hw, List.append_nil]
    · rw [hline, wordsOf_append, hwords, hw]
      by_cases hbc : b = c
      · simp [wordsOf, frameOf, hbc]
      · simp [wordsOf, frameOf, hbc, Ne.symm hbc]

/-- The frames of a block are its words, cut at the marks. -/
theorem framesOf_eq {ts : List (Source × ℕ)} {t : Source × ℕ} (h : Labelled Beat.eop l ts t) :
    framesOf b l = (cut Beat.eop (wordsOf b l)).1 := by
  rw [framesOf, wordsOf, cut_map, ← h.cut_filter fun x => x.1 = b]

/-- With the word on `ff_tx`, the frames of a block are those that it has written. -/
theorem framesOf_line [NeZero N] (k : ℤ) {is : List (Input N)}
    (hap : Along step Apart (reset k) is) (hrdy : ∀ i ∈ is, i.ffTxRdy = true) (b : Source) :
    framesOf b (log tracedStep line (tracedReset k) is ++
        onLine (run tracedStep (tracedReset k) is)) =
      (cut Beat.eop (log step (writes b) (reset k) is)).1 := by
  obtain ⟨ts, t, hlab, -⟩ := (lined_run k hap hrdy).labelled
  rw [framesOf_eq hlab, wordsOf_line k hap hrdy, sent_run]

theorem framesOf_isPrefix [NeZero N] (k : ℤ) {is : List (Input N)}
    (hap : Along step Apart (reset k) is) (hrdy : ∀ i ∈ is, i.ffTxRdy = true) (b : Source) :
    framesOf b (log tracedStep line (tracedReset k) is) <+:
      (cut Beat.eop (log step (writes b) (reset k) is)).1 := by
  rw [← framesOf_line k hap hrdy]
  exact ((cut_append_isPrefix _ _ _).filter _).map _

/-- In every run whose edges keep the blocks apart, with `ff_tx_rdy` high: the frames on the
    line are those of the blocks, each block's in the order in which it has written them. With
    the word on `ff_tx`, none is missing. -/
theorem line_frames [NeZero N] (k : ℤ) (is : List (Input N))
    (hap : Along step Apart (reset k) is) (hrdy : ∀ i ∈ is, i.ffTxRdy = true) :
    (∀ f ∈ (cut (Beat.eop ∘ Prod.fst) (log tracedStep line (tracedReset k) is)).1,
      ∃ b, ∀ x ∈ f, x.2.1 = b) ∧
    ∀ b, framesOf b (log tracedStep line (tracedReset k) is) <+:
        (cut Beat.eop (log step (writes b) (reset k) is)).1 ∧
      framesOf b (log tracedStep line (tracedReset k) is ++
          onLine (run tracedStep (tracedReset k) is)) =
        (cut Beat.eop (log step (writes b) (reset k) is)).1 := by
  obtain ⟨ts, t, hlab, -⟩ := (lined_run k hap hrdy).labelled
  refine ⟨fun f hf => ?_, fun b => ⟨framesOf_isPrefix k hap hrdy b, framesOf_line k hap hrdy b⟩⟩
  obtain ⟨t', ht'⟩ := hlab.exists_label_of_append (List.mem_append_left _ hf)
  exact ⟨t'.1, fun x hx => congrArg Prod.fst (ht' x hx)⟩

theorem line_frames_traffic :
    framesOf .arp (log tracedStep line (tracedReset (-1)) (traffic 30)) <+:
        (cut Beat.eop (log step (writes .arp) (reset (-1)) (traffic 30))).1 ∧
      framesOf .arp (log tracedStep line (tracedReset (-1)) (traffic 30) ++
          onLine (run tracedStep (tracedReset (-1)) (traffic 30))) =
        (cut Beat.eop (log step (writes .arp) (reset (-1)) (traffic 30))).1 :=
  (line_frames (-1) (traffic 30) (by decide +kernel) (by decide +kernel)).2 .arp

end FpgaEthernet.EthernetBlock
