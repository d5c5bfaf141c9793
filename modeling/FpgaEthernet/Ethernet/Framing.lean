import FpgaEthernet.Ethernet.Transmitter

/-!
# Where a transmitter is in a frame

What the pair of generators does to the frame structure of its output whatever
its inputs are: no assumption is made on the header configuration, on the input
FIFO or on the used-word count. `Transmitter.Sends` says more, under more
assumptions.

Main results:

* `Framed.step`: an edge keeps the relation between the state of the pair and
  the frame that is open on its output.
* `Framed.idle`: when the frame generator is idle nothing is written and no
  frame is open.
-/

namespace FpgaEthernet.Transmitter

open Clocked

/-- The pair is sending a header. -/
structure Heading (s : State) : Prop where
  phase : s.fg.nextState = .payloadHeader
  delayCounter : s.fg.delayCounter = 0
  eop : s.fg.eopSig = false
  rdreq : s.fg.rdreqSig = false
  done : s.hg.headerDone = true → s.hg.headerValid = true ∧ s.hg.nextState = .done

/-- The pair has the last header word of a frame without payload on its
    outputs. -/
structure Ending (s : State) : Prop where
  phase : s.fg.nextState = .done
  hg_rest : HeaderGenerator.AtRest s.hg
  headerStart : s.fg.headerStart = false
  wrreq : s.fg.wrreqSig = true
  eop : s.fg.eopSig = true

/-- The pair is sending a payload. -/
structure Paying (c : FrameGenerator.Config) (s : State) : Prop where
  hg_rest : HeaderGenerator.AtRest s.hg
  headerStart : s.fg.headerStart = false
  paced : FrameGenerator.Paced c s.fg

/-- Where the pair is in a frame. -/
inductive Stage (c : FrameGenerator.Config) (s : State) : Prop
  | rest : Resting s → Stage c s
  | heading : Heading s → Stage c s
  | ending : Ending s → Stage c s
  | paying : Paying c s → Stage c s

/-- The pair has written `l`, and a frame is only open on its output when the
    pair is not at rest. -/
structure Framed (c : FrameGenerator.Config) (l : List Beat) (s : State) : Prop where
  stage : Stage c s
  closed : Resting s → (cut Beat.eop l).2 = []

variable {c : FrameGenerator.Config} {l : List Beat} {i : Input} {s : State}

theorem framed_reset : Framed c [] reset where
  stage := .rest ⟨.inl rfl, ⟨rfl, rfl, rfl⟩, rfl, rfl, rfl, rfl⟩
  closed := fun _ => rfl

theorem not_resting (h : Active s) : ¬ Resting s := fun hr => hr.not_active h

/-- The word marked `eop` closes the frame. -/
theorem cut_written_eop (hwr : s.fg.wrreqSig = true) (he : s.fg.eopSig = true) :
    (cut Beat.eop (l ++ written s)).2 = [] := by
  have hw : written s = [⟨s.fg.frameWord, s.fg.sopSig, true⟩] := by simp [written, hwr, he]
  rw [hw, cut_concat_last Beat.eop l _ rfl]

theorem Framed.step_rest (h : Framed c l s) (hr : Resting s) :
    Framed c (l ++ written s) (step c i s) := by
  have hw : written s = [] := by simp [written, hr.wrreq]
  rw [hw, List.append_nil]
  by_cases hgo : s.fg.nextState = .idle ∧ i.payloadRdy = true
  · obtain ⟨hn, hi⟩ := hgo
    have hhg : HeaderGenerator.AtRest (step c i s).hg := hr.hg_rest.step hr.headerStart
    have hhead : Heading (step c i s) := by
      refine ⟨?_, ?_, ?_, ?_, fun hd => ?_⟩
      case refine_5 => simp [hhg.2.2] at hd
      all_goals simp [step, FrameGenerator.step, FrameGenerator.stateMachine, fgInput, hn, hi]
    exact ⟨.heading hhead, fun hr' => absurd hr' (not_resting (by simp [Active, hhead.phase]))⟩
  · have hr' : Resting (step c i s) := hr.hold fun hn => by simpa [hn] using hgo
    exact ⟨.rest hr', fun _ => h.closed hr⟩

theorem Framed.step_heading (h : Heading s) (hdly : 0 < c.fifoInDly.toNat) :
    Framed c (l ++ written s) (step c i s) := by
  have hst : (step c i s).fg.headerStart = false := by
    simp [step, FrameGenerator.step, FrameGenerator.stateMachine, h.phase]
  cases hd : s.hg.headerDone
  · have hhead : Heading (step c i s) := by
      refine ⟨?_, ?_, ?_, ?_, HeaderGenerator.headerDone_step hd⟩ <;>
        simp [step, FrameGenerator.step, FrameGenerator.stateMachine, fgInput, h.phase, hd,
          h.delayCounter, h.eop, h.rdreq]
    exact ⟨.heading hhead, fun hr' => absurd hr' (not_resting (by simp [Active, hhead.phase]))⟩
  · obtain ⟨hv, hdone⟩ := h.done hd
    have hhg : HeaderGenerator.AtRest (step c i s).hg := HeaderGenerator.step_of_done hdone
    rcases Nat.eq_zero_or_pos s.fg.payloadLength with hz | hpos
    · have hend : Ending (step c i s) := by
        refine ⟨?_, hhg, hst, ?_, ?_⟩ <;>
          simp [step, FrameGenerator.step, FrameGenerator.stateMachine, fgInput, h.phase, hd, hv,
            hz]
      have hactive : Active (step c i s) := by simp [Active, hend.eop, hend.phase]
      exact ⟨.ending hend, fun hr' => absurd hr' (not_resting hactive)⟩
    · have hpaced : FrameGenerator.Paced c (step c i s).fg :=
        (FrameGenerator.Paced.start h.phase hd hpos h.delayCounter h.rdreq h.eop hdly).1
      exact ⟨.paying ⟨hhg, hst, hpaced⟩,
        fun hr' => absurd hr' (not_resting (active_of_inPayload hpaced.toInPayload))⟩

theorem Framed.step_ending (h : Ending s) : Framed c (l ++ written s) (step c i s) := by
  refine ⟨.rest ⟨?_, h.hg_rest.step h.headerStart, ?_, ?_, ?_, ?_⟩,
    fun _ => cut_written_eop h.wrreq h.eop⟩ <;>
    simp [step, FrameGenerator.step, FrameGenerator.stateMachine, h.phase, h.headerStart]
  exact le_or_gt _ _

theorem Framed.step_paying (h : Paying c s) (hcrc : c.genCrc = false) :
    Framed c (l ++ written s) (step c i s) := by
  have hhg : HeaderGenerator.AtRest (step c i s).hg := h.hg_rest.step h.headerStart
  have hst : (step c i s).fg.headerStart = false :=
    h.paced.toInPayload.headerStart.trans h.headerStart
  cases he : s.fg.eopSig
  · have hpaced : FrameGenerator.Paced c (step c i s).fg :=
      h.paced.step hcrc (h.paced.position_lt he)
    exact ⟨.paying ⟨hhg, hst, hpaced⟩,
      fun hr' => absurd hr' (not_resting (active_of_inPayload hpaced.toInPayload))⟩
  · have hl : FrameGenerator.position c s.fg = c.fifoInDly.toNat + s.fg.payloadLength := by
      simpa [h.paced.eop] using he
    have hpos := h.paced.length_pos
    obtain ⟨hdone, hwr', heop', hrd'⟩ := h.paced.toInPayload.finish (i := fgInput i s) hcrc hl
    have hwr : s.fg.wrreqSig = true := by
      rw [h.paced.wrreq (by omega), hl]
      simpa using hpos
    exact ⟨.rest ⟨.inr hdone, hhg, hst, hwr', heop', hrd'⟩, fun _ => cut_written_eop hwr he⟩

/-- An edge keeps the relation between the state and the open frame. -/
theorem Framed.step (h : Framed c l s) (hcrc : c.genCrc = false)
    (hdly : 0 < c.fifoInDly.toNat) :
    Framed c (l ++ written s) (Transmitter.step c i s) := by
  cases h.stage with
  | rest hr => exact h.step_rest hr
  | heading hh => exact Framed.step_heading hh hdly
  | ending he => exact Framed.step_ending he
  | paying hp => exact Framed.step_paying hp hcrc

/-- When the frame generator is idle nothing is written and no frame is open. -/
theorem Framed.idle (h : Framed c l s) (hn : s.fg.nextState = .idle) :
    written s = [] ∧ (cut Beat.eop l).2 = [] := by
  cases h.stage with
  | rest hr => exact ⟨by simp [written, hr.wrreq], h.closed hr⟩
  | heading hh => simp [hh.phase] at hn
  | ending he => simp [he.phase] at hn
  | paying hp => exact absurd hn hp.paced.nextState_ne.1

end FpgaEthernet.Transmitter
