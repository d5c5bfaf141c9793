import FpgaEthernet.Clocked.Cut
import FpgaEthernet.Ethernet.HeaderGenerator
import FpgaEthernet.Ethernet.FrameGenerator

/-!
# A header generator and a frame generator

The pair of `header_generator` and `ethernet_frame_generator` that
`ethernet_data_block`, `udp_data_block`, `icmp_block` and `arp_block` contain,
wired the same way in each of them, and the abstract model of what the pair
does: it sends packets, each a header and a payload.

`Sends` relates the pair to the abstract model. Its step theorems are the only
facts about the two machines that the blocks around the pair use:

* `Sends.hold`: between packets nothing is written and nothing is read.
* `Sends.start`: `payload_rdy` begins a packet.
* `Sends.advance`: inside a packet a step writes at most one word, and reads a
  payload word exactly when `rdreq` is high.
* `Sends.finish`: the word marked `eop` completes the packet.
-/

namespace FpgaEthernet.Transmitter

open Clocked

/-! ## Model -/

/-- The inputs of the pair. -/
structure Input where
  fields : HeaderGenerator.Fields
  dataIn : Word
  usedwIn : BitVec 11
  payloadRdy : Bool
  deriving DecidableEq

/-- The registers of the pair. -/
structure State where
  hg : HeaderGenerator.State
  fg : FrameGenerator.State
  deriving DecidableEq

/-- The inputs of `header_generator`: the header parameters, and `header_start`
    and `payload_len` from the frame generator. -/
def hgInput (i : Input) (s : State) : HeaderGenerator.Input :=
  { i.fields with
    headerStart := s.fg.headerStart
    payloadLen := FrameGenerator.payloadLen s.fg }

/-- The inputs of `ethernet_frame_generator`: the header words, and the input
    FIFO. -/
def fgInput (i : Input) (s : State) : FrameGenerator.Input where
  headerData := s.hg.headerData
  headerValid := s.hg.headerValid
  headerDone := s.hg.headerDone
  dataIn := i.dataIn
  usedwIn := i.usedwIn
  payloadRdy := i.payloadRdy

/-- One clock edge of the pair. -/
def step (c : FrameGenerator.Config) (i : Input) (s : State) : State where
  hg := HeaderGenerator.step (hgInput i s) s.hg
  fg := FrameGenerator.step c (fgInput i s) s.fg

/-- The registers when reset is released. -/
def reset : State where
  hg := HeaderGenerator.reset
  fg := FrameGenerator.reset

/-- What the output FIFO takes in at an edge: the ports `data_out`, `sop` and
    `eop` of `ethernet_frame_generator.vhd` when `wrreq_out` is high. -/
def written (s : State) : List Beat :=
  if s.fg.wrreqSig then [⟨s.fg.frameWord, s.fg.sopSig, s.fg.eopSig⟩] else []

/-! ## The abstract model: a sender of packets -/

/-- A packet, with a tag that says what it is a packet of. -/
structure Packet (τ : Type) where
  tag : τ
  header : List Word
  payload : List Word

/-- The words of a packet in the order in which they are sent. -/
def Packet.words {τ : Type} (p : Packet τ) : List Word := p.header ++ p.payload

section

variable {τ : Type} (c : FrameGenerator.Config) (config : Word) (ok : τ → ℕ → Word → Prop)

/-- The packets a sender may send: the header has the length `config` says, each
    header word is one that `ok` allows at its place, and the payload fits. -/
structure Packet.Valid (p : Packet τ) : Prop where
  header_length : p.header.length = HeaderGenerator.headerWords config
  header_ok : ∀ k w, p.header[k]? = some w → ok p.tag k w
  payload_le : p.payload.length ≤ c.payloadMaxLen.toNat

/-! ## The pair as a sender -/

/-- The header words that have left the header generator, with `o` the words
    written for this packet: these, the word on the outputs of the frame
    generator and the one on the outputs of the header generator. -/
def committed (o : List Beat) (s : State) : List Word :=
  o.map Beat.data ++ (if s.fg.wrreqSig then [s.fg.frameWord] else []) ++
    if s.hg.headerValid then [s.hg.headerData] else []

/-- The pair is between packets. -/
structure Resting (s : State) : Prop where
  phase : s.fg.nextState = .idle ∨ s.fg.nextState = .done
  hg_rest : HeaderGenerator.AtRest s.hg
  headerStart : s.fg.headerStart = false
  wrreq : s.fg.wrreqSig = false
  eop : s.fg.eopSig = false
  rdreq : s.fg.rdreqSig = false

/-- The pair is sending the header of a packet with tag `t`, of which it has
    written `o`. -/
structure InHeader (t : τ) (o : List Beat) (s : State) : Prop where
  phase : s.fg.nextState = .payloadHeader
  length_le : s.fg.payloadLength ≤ c.payloadMaxLen.toNat
  delayCounter : s.fg.delayCounter = 0
  eop : s.fg.eopSig = false
  rdreq : s.fg.rdreqSig = false
  starting : s.fg.headerStart = true →
    HeaderGenerator.AtRest s.hg ∧ HeaderGenerator.fNextState .idle config ≠ .done
  running : s.fg.headerStart = false → HeaderGenerator.Running config s.hg
  count : (committed o s).length = HeaderGenerator.position config s.hg.nextState
  words : ∀ k w, (committed o s)[k]? = some w → ok t k w

/-- The pair is sending the payload: it has written `o` and read `pay`. -/
structure InBody (t : τ) (o : List Beat) (pay : List Word) (s : State) : Prop where
  hg_rest : HeaderGenerator.AtRest s.hg
  headerStart : s.fg.headerStart = false
  length_le : s.fg.payloadLength ≤ c.payloadMaxLen.toNat
  body : ∃ header sent, FrameGenerator.Reading c pay sent s.fg ∧
    header.length = HeaderGenerator.headerWords config ∧
    (∀ k w, header[k]? = some w → ok t k w) ∧
    (FrameGenerator.position c s.fg = 0 → s.fg.wrreqSig = true ∧
      o.map Beat.data ++ [s.fg.frameWord] = header) ∧
    (0 < FrameGenerator.position c s.fg → o.map Beat.data = header ++ sent)

/-- The pair has the last header word of a packet without payload on its
    outputs, marked `eop`. -/
structure InEmpty (t : τ) (o : List Beat) (s : State) : Prop where
  phase : s.fg.nextState = .done
  hg_rest : HeaderGenerator.AtRest s.hg
  headerStart : s.fg.headerStart = false
  wrreq : s.fg.wrreqSig = true
  eop : s.fg.eopSig = true
  rdreq : s.fg.rdreqSig = false
  length_zero : s.fg.payloadLength = 0
  header_length : (o.map Beat.data ++ [s.fg.frameWord]).length =
    HeaderGenerator.headerWords config
  header_ok : ∀ k w, (o.map Beat.data ++ [s.fg.frameWord])[k]? = some w → ok t k w

/-- Where the pair is in a packet with tag `t`, of which it has written `o` and
    read the payload words `pay`. -/
inductive Phase (t : τ) : List Beat → List Word → State → Prop
  | rest {s : State} : Resting s → Phase t [] [] s
  | empty {o : List Beat} {s : State} : InEmpty config ok t o s → Phase t o [] s
  | header {o : List Beat} {s : State} : InHeader c config ok t o s → Phase t o [] s
  | body {o : List Beat} {pay : List Word} {s : State} : InBody c config ok t o pay s →
      Phase t o pay s

/-- The words written so far are the packets `ps` and the beginning of one with
    tag `t`, of whose payload `pay` has been read. -/
structure Sends (l : List Beat) (ps : List (Packet τ)) (t : τ) (pay : List Word) (s : State) :
    Prop where
  sent : (cut Beat.eop l).1.map (List.map Beat.data) = ps.map Packet.words
  valid : ∀ p ∈ ps, p.Valid c config ok
  phase : Phase c config ok t (cut Beat.eop l).2 pay s

variable {c config ok}

theorem sends_reset (t : τ) : Sends c config ok [] [] t [] reset where
  sent := rfl
  valid := by simp
  phase := .rest ⟨.inl rfl, ⟨rfl, rfl, rfl⟩, rfl, rfl, rfl, rfl⟩

/-- Words that are not marked `eop` extend the packet in progress. -/
theorem cut_written (l : List Beat) {s : State} (he : s.fg.eopSig = false) :
    cut Beat.eop (l ++ written s) = ((cut Beat.eop l).1, (cut Beat.eop l).2 ++ written s) := by
  unfold written
  split_ifs
  · exact cut_concat_open Beat.eop l _ he
  · simp

theorem map_data_written (s : State) :
    (written s).map Beat.data = if s.fg.wrreqSig then [s.fg.frameWord] else [] := by
  unfold written
  split_ifs <;> rfl

/-- The frame generator is between the start of a packet and its last word. -/
def Active (s : State) : Prop :=
  s.fg.nextState ≠ .idle ∧ (s.fg.nextState = .done → s.fg.eopSig = true)

instance (s : State) : Decidable (Active s) := by
  unfold Active
  infer_instance

theorem active_of_inPayload {s : State} (h : FrameGenerator.InPayload c s.fg) : Active s :=
  ⟨h.nextState_ne.1, fun hd => absurd hd h.nextState_ne.2.1⟩

theorem Resting.not_active {s : State} (h : Resting s) : ¬ Active s := by
  rintro ⟨hi, hd⟩
  rcases h.phase with hn | hn
  · exact hi hn
  · simpa [h.eop] using hd hn

theorem InEmpty.active {t : τ} {o : List Beat} {s : State} (h : InEmpty config ok t o s) :
    Active s := by
  simp [Active, h.phase, h.eop]

theorem InHeader.active {t : τ} {o : List Beat} {s : State} (h : InHeader c config ok t o s) :
    Active s := by
  simp [Active, h.phase]

theorem InBody.active {t : τ} {o : List Beat} {pay : List Word} {s : State}
    (h : InBody c config ok t o pay s) : Active s := by
  obtain ⟨_, _, hread, _⟩ := h.body
  exact active_of_inPayload hread.toInPayload

/-! ## Steps between packets -/

theorem Resting.hold {i : Input} {s : State} (h : Resting s)
    (hi : s.fg.nextState = .idle → i.payloadRdy = false) : Resting (step c i s) := by
  have hhg : HeaderGenerator.AtRest (step c i s).hg := h.hg_rest.step h.headerStart
  rcases h.phase with hn | hn
  · have hi := hi hn
    refine ⟨?_, hhg, ?_, ?_, ?_, ?_⟩ <;>
      simp [step, FrameGenerator.step, FrameGenerator.stateMachine, fgInput, hn, hi]
  · refine ⟨?_, hhg, ?_, ?_, ?_, ?_⟩ <;>
      simp [step, FrameGenerator.step, FrameGenerator.stateMachine, hn, h.headerStart]
    exact le_or_gt _ _

/-- Between packets the pair stays at rest. -/
theorem Sends.hold {l : List Beat} {ps : List (Packet τ)} {t : τ} {pay : List Word} {i : Input}
    {s : State} (h : Sends c config ok l ps t pay s) (hact : ¬ Active s)
    (hi : s.fg.nextState = .idle → i.payloadRdy = false) :
    Sends c config ok (l ++ written s) ps t pay (step c i s) ∧ Resting s ∧
      Resting (step c i s) := by
  obtain ⟨hsent, hvalid, hphase⟩ := h
  generalize ho : (cut Beat.eop l).2 = o at hphase
  cases hphase with
  | rest hr =>
    have hw : written s = [] := by simp [written, hr.wrreq]
    have hr' : Resting (step c i s) := hr.hold hi
    refine ⟨⟨?_, hvalid, ?_⟩, hr, hr'⟩
    · rw [hw, List.append_nil, hsent]
    · rw [hw, List.append_nil, ho]
      exact .rest hr'
  | empty he => exact absurd he.active hact
  | header hh => exact absurd hh.active hact
  | body hb => exact absurd hb.active hact

/-- `payload_rdy` begins a packet, whose tag may be chosen then. -/
theorem Sends.start {l : List Beat} {ps : List (Packet τ)} {t : τ} {pay : List Word} {i : Input}
    {s : State} (h : Sends c config ok l ps t pay s) (hn : s.fg.nextState = .idle)
    (hi : i.payloadRdy = true)
    (hcfg : HeaderGenerator.fNextState .idle config ≠ .done) (t' : τ) :
    Sends c config ok (l ++ written s) ps t' [] (step c i s) ∧ pay = [] ∧ Resting s ∧
      (step c i s).fg.payloadLength = min c.payloadMaxLen.toNat i.usedwIn.toNat := by
  obtain ⟨hsent, hvalid, hphase⟩ := h
  have hlen : (step c i s).fg.payloadLength = min c.payloadMaxLen.toNat i.usedwIn.toNat := by
    simp [step, FrameGenerator.step, FrameGenerator.stateMachine, fgInput, hn, hi, min_def]
  generalize ho : (cut Beat.eop l).2 = o at hphase
  cases hphase with
  | rest hr =>
    have hw : written s = [] := by simp [written, hr.wrreq]
    have hhg : HeaderGenerator.AtRest (step c i s).hg := hr.hg_rest.step hr.headerStart
    refine ⟨⟨?_, hvalid, ?_⟩, rfl, hr, hlen⟩
    · rw [hw, List.append_nil, hsent]
    · rw [hw, List.append_nil, ho]
      have hcom : committed [] (step c i s) = [] := by
        simp [committed, hhg.2.1]
        simp [step, FrameGenerator.step, FrameGenerator.stateMachine, hn]
      refine .header ⟨?_, ?_, ?_, ?_, ?_, fun _ => ⟨hhg, hcfg⟩, ?_, ?_, ?_⟩
      case refine_2 => rw [hlen]; exact min_le_left _ _
      case refine_7 => rw [hcom, hhg.1]; rfl
      case refine_8 => simp [hcom]
      all_goals simp [step, FrameGenerator.step, FrameGenerator.stateMachine, fgInput, hn, hi]
  | empty he => exact absurd hn he.active.1
  | header hh => exact absurd hn hh.active.1
  | body hb => exact absurd hn hb.active.1

/-! ## Steps inside a packet -/

/-- The header words one step later: those committed before, and the word the
    header generator emits at this edge. -/
theorem committed_step {i : Input} {o : List Beat} {s : State}
    (hn : s.fg.nextState = .payloadHeader) :
    committed (o ++ written s) (step c i s) = committed o s ++
      if (step c i s).hg.headerValid then [(step c i s).hg.headerData] else [] := by
  have hwr : (step c i s).fg.wrreqSig = s.hg.headerValid := by
    simp [step, FrameGenerator.step, FrameGenerator.stateMachine, fgInput, hn]
  have hfw : (step c i s).fg.frameWord = s.hg.headerData := by
    simp [step, FrameGenerator.step, FrameGenerator.stateMachine, fgInput, hn]
  simp only [committed, List.map_append, map_data_written, hwr, hfw]

/-- The condition on the inputs of a step that the header words put on the wire
    are ones `ok` allows for a packet with tag `t`. -/
def Emits (config : Word) (ok : τ → ℕ → Word → Prop) (t : τ) (i : Input) (s : State) : Prop :=
  s.fg.nextState = .payloadHeader →
    (HeaderGenerator.stateMachine (hgInput i s) s.hg).headerValid = true →
    ok t (HeaderGenerator.position config s.hg.nextState)
      (HeaderGenerator.stateMachine (hgInput i s) s.hg).headerData

theorem InHeader.advance {t : τ} {i : Input} {o : List Beat} {s : State}
    (h : InHeader c config ok t o s) (hcfg : i.fields.config = config)
    (hdone : s.hg.headerDone = false) (hok : Emits config ok t i s) :
    InHeader c config ok t (o ++ written s) (step c i s) := by
  subst hcfg
  have hst : (step c i s).fg.headerStart = false := by
    simp [step, FrameGenerator.step, FrameGenerator.stateMachine, h.phase]
  have hhg : HeaderGenerator.Running i.fields.config (step c i s).hg ∧
      HeaderGenerator.position i.fields.config (step c i s).hg.nextState =
        HeaderGenerator.position i.fields.config s.hg.nextState +
          (step c i s).hg.headerValid.toNat := by
    by_cases hs : s.fg.headerStart = true
    · obtain ⟨hrest, hne⟩ := h.starting hs
      obtain ⟨hrun, hv, hp⟩ := hrest.start (i := hgInput i s) hs hne
      refine ⟨hrun, hp.trans ?_⟩
      rw [hrest.1, show (step c i s).hg.headerValid = false from hv]
      rfl
    · have hrun := h.running (by simpa using hs)
      have hnd : s.hg.nextState ≠ .done := by
        intro hd
        simp [hrun.headerDone, hd] at hdone
      exact HeaderGenerator.Running.step (i := hgInput i s) hrun hnd
  refine ⟨?_, ?_, ?_, ?_, ?_, fun hs => ?_, fun _ => hhg.1, ?_, ?_⟩
  case refine_6 => simp [hst] at hs
  case refine_7 =>
    rw [committed_step h.phase, List.length_append, h.count, hhg.2]
    cases (step c i s).hg.headerValid <;> rfl
  case refine_8 =>
    intro k w hk
    rw [committed_step h.phase] at hk
    rcases lt_or_ge k (committed o s).length with hlt | hge
    · rw [List.getElem?_append_left hlt] at hk
      exact h.words k w hk
    · rw [List.getElem?_append_right hge] at hk
      split_ifs at hk with hv
      · obtain ⟨hk0, rfl⟩ : k - (committed o s).length = 0 ∧ (step c i s).hg.headerData = w := by
          simpa [List.getElem?_singleton] using hk
        have hpos : k = HeaderGenerator.position i.fields.config s.hg.nextState := by
          rw [← h.count]
          omega
        rw [hpos]
        exact hok h.phase hv
      · simp at hk
  all_goals
    simp [step, FrameGenerator.step, FrameGenerator.stateMachine, fgInput, h.phase, hdone,
      h.length_le, h.delayCounter, h.eop, h.rdreq]

/-- `header_done` comes with the last header word. -/
theorem InHeader.last {t : τ} {o : List Beat} {s : State} (h : InHeader c config ok t o s)
    (hdone : s.hg.headerDone = true) :
    s.fg.headerStart = false ∧ s.hg.nextState = .done ∧ s.hg.headerValid = true := by
  have hs : s.fg.headerStart = false := by
    by_contra hs
    have := (h.starting (by simpa using hs)).1.2.2
    simp [hdone] at this
  have hrun := h.running hs
  have hd : s.hg.nextState = .done := by simpa [hdone] using hrun.headerDone
  exact ⟨hs, hd, hrun.lastValid hd⟩

/-- The header is complete when its last word has reached the outputs of the
    frame generator. -/
theorem InHeader.complete {t : τ} {i : Input} {o : List Beat} {s : State}
    (h : InHeader c config ok t o s) (hdone : s.hg.headerDone = true) :
    (o ++ written s).map Beat.data ++ [(step c i s).fg.frameWord] = committed o s ∧
      (committed o s).length = HeaderGenerator.headerWords config ∧
      (step c i s).fg.wrreqSig = true ∧ (step c i s).fg.headerStart = false ∧
      HeaderGenerator.AtRest (step c i s).hg := by
  obtain ⟨-, hd, hv⟩ := h.last hdone
  have hfw : (step c i s).fg.frameWord = s.hg.headerData := by
    simp [step, FrameGenerator.step, FrameGenerator.stateMachine, fgInput, h.phase]
  refine ⟨?_, ?_, ?_, ?_, HeaderGenerator.step_of_done hd⟩
  · simp [committed, map_data_written, hfw, hv]
  · rw [h.count, hd]
    rfl
  · simp [step, FrameGenerator.step, FrameGenerator.stateMachine, fgInput, h.phase, hv]
  · simp [step, FrameGenerator.step, FrameGenerator.stateMachine, h.phase]

/-- `header_done` ends the header and begins the payload. -/
theorem InHeader.finish {t : τ} {i : Input} {o : List Beat} {s : State}
    (h : InHeader c config ok t o s) (hdone : s.hg.headerDone = true)
    (hpos : 0 < s.fg.payloadLength) (hdly : 2 ≤ c.fifoInDly.toNat) :
    InBody c config ok t (o ++ written s) [] (step c i s) := by
  obtain ⟨hwords, hlen, hwr, hst, hrest⟩ := h.complete (i := i) hdone
  have hread : FrameGenerator.Reading c [] [] (step c i s).fg :=
    FrameGenerator.Reading.start h.phase hdone hpos h.delayCounter h.rdreq h.eop hdly
  refine ⟨hrest, hst, ?_, committed o s, [], hread, hlen, h.words, fun _ => ⟨hwr, hwords⟩,
    fun hp => ?_⟩
  · simpa [step, FrameGenerator.step, FrameGenerator.stateMachine, h.phase] using h.length_le
  · have : FrameGenerator.position c (step c i s).fg = 0 := by
      simp [step, FrameGenerator.step, FrameGenerator.stateMachine, FrameGenerator.position,
        fgInput, h.phase, hdone, h.delayCounter, Nat.pos_iff_ne_zero.1 hpos]
    omega

/-- Without payload `header_done` ends the packet. -/
theorem InHeader.finish_empty {t : τ} {i : Input} {o : List Beat} {s : State}
    (h : InHeader c config ok t o s) (hdone : s.hg.headerDone = true)
    (hzero : s.fg.payloadLength = 0) :
    InEmpty config ok t (o ++ written s) (step c i s) := by
  obtain ⟨hwords, hlen, hwr, hst, hrest⟩ := h.complete (i := i) hdone
  refine ⟨?_, hrest, hst, hwr, ?_, ?_, ?_, by rw [hwords, hlen], by rw [hwords]; exact h.words⟩
  all_goals
    simp [step, FrameGenerator.step, FrameGenerator.stateMachine, fgInput, h.phase, hdone, hzero,
      h.rdreq]

/-- Inside the payload the word on the outputs of the frame generator is written
    and the next one is read. -/
theorem InBody.advance {t : τ} {i : Input} {o : List Beat} {pay taken : List Word} {s : State}
    (h : InBody c config ok t o pay s) (hcrc : c.genCrc = false) (he : s.fg.eopSig = false)
    (htaken : taken.length = s.fg.rdreqSig.toNat)
    (hans : FrameGenerator.Answers c (pay ++ taken) i.dataIn s.fg) :
    InBody c config ok t (o ++ written s) (pay ++ taken) (step c i s) := by
  obtain ⟨header, sent, hread, hlen, hok, hfirst, hrest⟩ := h.body
  have hle := hread.position_le
  have hne : FrameGenerator.position c s.fg ≠ c.fifoInDly.toNat + s.fg.payloadLength := by
    intro hp
    rw [hread.eop, hp] at he
    simp at he
  have hl : FrameGenerator.position c s.fg < c.fifoInDly.toNat + s.fg.payloadLength := by omega
  obtain ⟨-, hpos', hlen'⟩ := hread.toInPayload.step (i := fgInput i s) hl
  have hpos' : FrameGenerator.position c (step c i s).fg = FrameGenerator.position c s.fg + 1 :=
    hpos'
  refine ⟨h.hg_rest.step h.headerStart, ?_, ?_, header, _,
    hread.step (i := fgInput i s) hcrc hl htaken hans, hlen, hok, fun hp => ?_, fun _ => ?_⟩
  · exact hread.toInPayload.headerStart.trans h.headerStart
  · exact hlen'.trans_le h.length_le
  · omega
  · rw [List.map_append, map_data_written]
    rcases Nat.eq_zero_or_pos (FrameGenerator.position c s.fg) with hp | hp
    · obtain ⟨hw, hhead⟩ := hfirst hp
      rw [hread.sent_eq, hp]
      simpa [hw] using hhead
    · rw [hrest hp, hread.wrreq hp]
      simp

/-- The word marked `eop` is the last one of the payload, and as many words have
    been read as have been written. -/
theorem InBody.finish {t : τ} {i : Input} {o : List Beat} {pay : List Word} {s : State}
    (h : InBody c config ok t o pay s) (hcrc : c.genCrc = false)
    (hdly : 2 ≤ c.fifoInDly.toNat) (he : s.fg.eopSig = true) :
    Resting (step c i s) ∧ s.fg.wrreqSig = true ∧ s.fg.rdreqSig = false ∧
      pay.length = s.fg.payloadLength ∧
      ∃ p : Packet τ, p.tag = t ∧ p.payload = pay ∧ p.Valid c config ok ∧
        p.words = o.map Beat.data ++ [s.fg.frameWord] := by
  obtain ⟨header, sent, hread, hlen, hok, -, hrest⟩ := h.body
  have hl : FrameGenerator.position c s.fg = c.fifoInDly.toNat + s.fg.payloadLength := by
    simpa [hread.eop] using he
  have hpos := hread.length_pos
  obtain ⟨hsent, hpay, hrd⟩ := hread.complete hdly hl
  obtain ⟨hdone, hwr', heop', hrd'⟩ := hread.toInPayload.finish (i := fgInput i s) hcrc hl
  have hwr : s.fg.wrreqSig = true := by
    rw [hread.wrreq (by omega), hl]
    simpa using hpos
  refine ⟨⟨.inr hdone, h.hg_rest.step h.headerStart, ?_, hwr', heop', hrd'⟩, hwr, hrd, hpay,
    ⟨t, header, pay⟩, rfl, rfl, ⟨hlen, hok, ?_⟩, ?_⟩
  · exact hread.toInPayload.headerStart.trans h.headerStart
  · exact hpay ▸ h.length_le
  · rw [hrest (by omega), List.append_assoc, hsent]
    rfl

/-- The last header word of a packet without payload completes the packet. -/
theorem InEmpty.finish {t : τ} {i : Input} {o : List Beat} {s : State}
    (h : InEmpty config ok t o s) :
    Resting (step c i s) ∧ ∃ p : Packet τ, p.tag = t ∧ p.payload = [] ∧ p.Valid c config ok ∧
      p.words = o.map Beat.data ++ [s.fg.frameWord] := by
  refine ⟨⟨?_, h.hg_rest.step h.headerStart, ?_, ?_, ?_, ?_⟩,
    ⟨t, o.map Beat.data ++ [s.fg.frameWord], []⟩, rfl, rfl,
    ⟨h.header_length, h.header_ok, Nat.zero_le _⟩, by simp [Packet.words]⟩ <;>
    simp [step, FrameGenerator.step, FrameGenerator.stateMachine, h.phase, h.headerStart]
  exact le_or_gt _ _

/-- Inside a packet, before its last word, at most one word is written, and a
    payload word is read exactly when `rdreq` is high. -/
theorem Sends.advance {l : List Beat} {ps : List (Packet τ)} {t : τ} {pay taken : List Word}
    {i : Input} {s : State} (h : Sends c config ok l ps t pay s) (hcrc : c.genCrc = false)
    (hdly : 2 ≤ c.fifoInDly.toNat) (hcfg : i.fields.config = config)
    (hact : Active s) (he : s.fg.eopSig = false)
    (hok : Emits config ok t i s) (htaken : taken.length = s.fg.rdreqSig.toNat)
    (hans : ∀ sent, FrameGenerator.Reading c pay sent s.fg →
      FrameGenerator.Answers c (pay ++ taken) i.dataIn s.fg) :
    Sends c config ok (l ++ written s) ps t (pay ++ taken) (step c i s) := by
  obtain ⟨hsent, hvalid, hphase⟩ := h
  refine ⟨by rw [cut_written l he, hsent], hvalid, ?_⟩
  rw [cut_written l he]
  generalize (cut Beat.eop l).2 = o at hphase
  cases hphase with
  | rest hr => exact absurd hact hr.not_active
  | empty hz => simp [hz.eop] at he
  | header hh =>
    have hnil : taken = [] := by simpa [hh.rdreq] using htaken
    rw [hnil]
    cases hdone : s.hg.headerDone
    · exact .header (hh.advance hcfg hdone hok)
    · rcases Nat.eq_zero_or_pos s.fg.payloadLength with hz | hpos
      · exact .empty (hh.finish_empty hdone hz)
      · exact .body (hh.finish hdone hpos hdly)
  | body hb =>
    obtain ⟨_, sent, hread, _⟩ := hb.body
    exact .body (hb.advance hcrc he htaken (hans sent hread))

/-- The word marked `eop` completes the packet. -/
theorem Sends.finish {l : List Beat} {ps : List (Packet τ)} {t : τ} {pay : List Word}
    {i : Input} {s : State} (h : Sends c config ok l ps t pay s) (hcrc : c.genCrc = false)
    (hdly : 2 ≤ c.fifoInDly.toNat) (he : s.fg.eopSig = true) :
    s.fg.rdreqSig = false ∧ pay.length = s.fg.payloadLength ∧
      Resting (step c i s) ∧ ∃ p : Packet τ, p.tag = t ∧ p.payload = pay ∧
        Sends c config ok (l ++ written s) (ps ++ [p]) t [] (step c i s) := by
  obtain ⟨hsent, hvalid, hphase⟩ := h
  generalize ho : (cut Beat.eop l).2 = o at hphase
  -- in both ways to end, the word on the outputs completes a valid packet
  have key : s.fg.wrreqSig = true → ∀ p : Packet τ, p.Valid c config ok →
      p.words = o.map Beat.data ++ [s.fg.frameWord] → Resting (step c i s) →
      Sends c config ok (l ++ written s) (ps ++ [p]) t [] (step c i s) := by
    intro hwr p hpv hwords hrest
    have hw : written s = [⟨s.fg.frameWord, s.fg.sopSig, true⟩] := by simp [written, hwr, he]
    have hcut := cut_concat_last Beat.eop l ⟨s.fg.frameWord, s.fg.sopSig, true⟩ rfl
    refine ⟨?_, ?_, ?_⟩
    · rw [hw, hcut, ho]
      simp [hsent, hwords]
    · intro q hq
      rcases List.mem_append.1 hq with hq | hq
      · exact hvalid q hq
      · obtain rfl := List.mem_singleton.1 hq
        exact hpv
    · rw [hw, hcut]
      exact .rest hrest
  cases hphase with
  | rest hr => simp [hr.eop] at he
  | empty hz =>
    obtain ⟨hrest, p, htag, hpayload, hpv, hwords⟩ := hz.finish (c := c) (i := i)
    exact ⟨hz.rdreq, hz.length_zero.symm, hrest, p, htag, hpayload, key hz.wrreq p hpv hwords hrest⟩
  | header hh => simp [hh.eop] at he
  | body hb =>
    obtain ⟨hrest, hwr, hrd, hpay, p, htag, hpayload, hpv, hwords⟩ := hb.finish hcrc hdly he
    exact ⟨hrd, hpay, hrest, p, htag, hpayload, key hwr p hpv hwords hrest⟩

/-- Between packets the pair is at rest and nothing of the next packet is
    written or read. -/
theorem Sends.resting {l : List Beat} {ps : List (Packet τ)} {t : τ} {pay : List Word}
    {s : State} (h : Sends c config ok l ps t pay s) (hact : ¬ Active s) :
    Resting s ∧ (cut Beat.eop l).2 = [] ∧ pay = [] := by
  obtain ⟨-, -, hphase⟩ := h
  generalize (cut Beat.eop l).2 = o at hphase ⊢
  cases hphase with
  | rest hr => exact ⟨hr, rfl, rfl⟩
  | empty hz => exact absurd hz.active hact
  | header hh => exact absurd hh.active hact
  | body hb => exact absurd hb.active hact

/-- A word marked `eop` is written. -/
theorem Sends.written_eop {l : List Beat} {ps : List (Packet τ)} {t : τ} {pay : List Word}
    {s : State} (h : Sends c config ok l ps t pay s) (he : s.fg.eopSig = true) :
    written s = [⟨s.fg.frameWord, s.fg.sopSig, true⟩] := by
  obtain ⟨-, -, hphase⟩ := h
  suffices hw : s.fg.wrreqSig = true by simp [written, hw, he]
  generalize (cut Beat.eop l).2 = o at hphase
  cases hphase with
  | rest hr => simp [hr.eop] at he
  | empty hz => exact hz.wrreq
  | header hh => simp [hh.eop] at he
  | body hb =>
    obtain ⟨_, _, hread, _⟩ := hb.body
    have hl : FrameGenerator.position c s.fg = c.fifoInDly.toNat + s.fg.payloadLength := by
      simpa [hread.eop] using he
    have hpos := hread.length_pos
    rw [hread.wrreq (by omega), hl]
    simpa using hpos

/-- Outside the payload phase nothing has been read for the packet in progress
    and no word is requested; inside it `Reading` holds. -/
theorem Sends.reading {l : List Beat} {ps : List (Packet τ)} {t : τ} {pay : List Word}
    {s : State} (h : Sends c config ok l ps t pay s) :
    (pay = [] ∧ s.fg.rdreqSig = false ∧
        (Active s → s.fg.eopSig = false →
          s.fg.nextState = .payloadHeader ∧ s.fg.delayCounter = 0)) ∨
      ∃ sent, FrameGenerator.Reading c pay sent s.fg := by
  obtain ⟨-, -, hphase⟩ := h
  generalize (cut Beat.eop l).2 = o at hphase
  cases hphase with
  | rest hr => exact .inl ⟨rfl, hr.rdreq, fun ha => absurd ha hr.not_active⟩
  | empty hz => exact .inl ⟨rfl, hz.rdreq, fun _ he => by simp [hz.eop] at he⟩
  | header hh => exact .inl ⟨rfl, hh.rdreq, fun _ _ => ⟨hh.phase, hh.delayCounter⟩⟩
  | body hb =>
    obtain ⟨_, sent, hread, _⟩ := hb.body
    exact .inr ⟨sent, hread⟩

/-- Of the packet in progress, what follows the header is a beginning of the
    payload read so far. -/
theorem Sends.open_payload {l : List Beat} {ps : List (Packet τ)} {t : τ} {pay : List Word}
    {s : State} (h : Sends c config ok l ps t pay s) :
    ((cut Beat.eop l).2.map Beat.data).drop (HeaderGenerator.headerWords config) <+: pay ∧
      ∀ k < HeaderGenerator.headerWords config, ∀ w,
        ((cut Beat.eop l).2.map Beat.data)[k]? = some w → ok t k w := by
  obtain ⟨-, -, hphase⟩ := h
  generalize (cut Beat.eop l).2 = o at hphase
  cases hphase with
  | rest hr => simp
  | empty hz =>
    have hlen := hz.header_length
    rw [List.length_append, List.length_singleton] at hlen
    refine ⟨by rw [List.drop_eq_nil_of_le (by omega)], fun k _ w hk => ?_⟩
    exact hz.header_ok k w (getElem?_of_isPrefix (List.prefix_append _ _) hk)
  | header hh =>
    have hpre : o.map Beat.data <+: committed o s := by
      rw [committed, List.append_assoc]
      exact List.prefix_append _ _
    have hle : HeaderGenerator.position config s.hg.nextState ≤
        HeaderGenerator.headerWords config := by
      apply HeaderGenerator.position_le
      cases hs : s.fg.headerStart
      · exact (hh.running hs).enabled
      · rw [(hh.starting hs).1.1]
        trivial
    have hlen := hpre.length_le
    rw [hh.count] at hlen
    refine ⟨by rw [List.drop_eq_nil_of_le (hlen.trans hle)], ?_⟩
    intro k _ w hk
    exact hh.words k w (getElem?_of_isPrefix hpre hk)
  | body hb =>
    obtain ⟨header, sent, hread, hlen, hok, hfirst, hrest⟩ := hb.body
    rcases Nat.eq_zero_or_pos (FrameGenerator.position c s.fg) with hp | hp
    · obtain ⟨-, hhead⟩ := hfirst hp
      have ho : (o.map Beat.data).length + 1 = HeaderGenerator.headerWords config := by
        rw [← hlen, ← hhead, List.length_append, List.length_singleton]
      refine ⟨by rw [List.drop_eq_nil_of_le (by omega)]; exact List.nil_prefix, ?_⟩
      intro k _ w hk
      have hpre : o.map Beat.data <+: header := hhead ▸ List.prefix_append _ _
      exact hok k w (getElem?_of_isPrefix hpre hk)
    · rw [hrest hp, ← hlen]
      refine ⟨by rw [List.drop_left, hread.sent_eq]; exact List.take_prefix _ _, ?_⟩
      intro k hk w hw
      rw [List.getElem?_append_left hk] at hw
      exact hok k w hw

/-! ## The time a packet takes -/

variable (c config) in
/-- The edges until the packet in progress is complete. -/
def edgesLeft (s : State) : ℕ :=
  if s.fg.nextState = .payloadHeader then
    (if s.fg.headerStart then
      1 + HeaderGenerator.headerWords config + (if config.getLsbD 1 then 2 else 0)
    else HeaderGenerator.edgesLeft config s.hg.nextState) + 2 +
      c.fifoInDly.toNat + s.fg.payloadLength
  else c.fifoInDly.toNat + s.fg.payloadLength + 1 - FrameGenerator.position c s.fg

theorem edgesLeft_le (s : State) : edgesLeft c config s ≤
    HeaderGenerator.headerWords config + c.fifoInDly.toNat + s.fg.payloadLength + 5 := by
  have hhg := HeaderGenerator.edgesLeft_le config s.hg.nextState
  unfold edgesLeft
  split_ifs <;> omega

/-- Before the last word every edge brings the packet one edge nearer to its
    end. -/
theorem Sends.edgesLeft_step {l : List Beat} {ps : List (Packet τ)} {t : τ} {pay : List Word}
    {i : Input} {s : State} (h : Sends c config ok l ps t pay s)
    (hcfg : i.fields.config = config) (hact : Active s) (he : s.fg.eopSig = false)
    (hpos : 0 < s.fg.payloadLength) :
    Active (step c i s) ∧ edgesLeft c config (step c i s) + 1 = edgesLeft c config s := by
  obtain ⟨-, -, hphase⟩ := h
  subst hcfg
  generalize (cut Beat.eop l).2 = o at hphase
  cases hphase with
  | rest hr => exact absurd hact hr.not_active
  | empty hz => simp [hz.eop] at he
  | header hh =>
    have hlen : (step c i s).fg.payloadLength = s.fg.payloadLength :=
      FrameGenerator.payloadLength_step hact.1
    have hstart : (step c i s).fg.headerStart = false := by
      simp [step, FrameGenerator.step, FrameGenerator.stateMachine, hh.phase]
    cases hdone : s.hg.headerDone
    · have hnext : (step c i s).fg.nextState = .payloadHeader := by
        simp [step, FrameGenerator.step, FrameGenerator.stateMachine, fgInput, hh.phase, hdone]
      refine ⟨by simp [Active, hnext], ?_⟩
      rw [edgesLeft, edgesLeft, if_pos hnext, if_pos hh.phase, hlen, hstart]
      cases hs : s.fg.headerStart
      · have hrun := hh.running hs
        have hnd : s.hg.nextState ≠ .done := by
          intro hd
          simp [hrun.headerDone, hd] at hdone
        have hleft := HeaderGenerator.Running.edgesLeft_step (i := hgInput i s) hrun hnd
        have hleft : HeaderGenerator.edgesLeft i.fields.config (step c i s).hg.nextState + 1 =
          HeaderGenerator.edgesLeft i.fields.config s.hg.nextState := hleft
        simp only [Bool.false_eq_true, if_false]
        omega
      · obtain ⟨hrest, -⟩ := hh.starting hs
        have hleft := HeaderGenerator.edgesLeft_start (i := hgInput i s) hrest.1 hs
        have hleft : HeaderGenerator.edgesLeft i.fields.config (step c i s).hg.nextState =
          HeaderGenerator.headerWords i.fields.config +
            if i.fields.config.getLsbD 1 then 2 else 0 := hleft
        simp only [Bool.false_eq_true, if_false, if_true]
        omega
    · obtain ⟨hs, hd, -⟩ := hh.last hdone
      have hnext : (step c i s).fg.nextState = .payloadWait := by
        simp [step, FrameGenerator.step, FrameGenerator.stateMachine, fgInput, hh.phase, hdone]
        omega
      have hp : FrameGenerator.position c (step c i s).fg = 0 := by
        simp only [FrameGenerator.position, hnext]
        simp [step, FrameGenerator.step, FrameGenerator.stateMachine, hh.phase, hh.delayCounter]
      refine ⟨by simp [Active, hnext], ?_⟩
      have hzero : HeaderGenerator.edgesLeft i.fields.config .done = 0 := by
        simp [HeaderGenerator.edgesLeft, HeaderGenerator.position, HeaderGenerator.pausesLeft]
      rw [edgesLeft, edgesLeft, if_neg (by simp [hnext]), if_pos hh.phase, hlen, hs, hp, hd, hzero]
      simp only [Bool.false_eq_true, if_false]
      omega
  | body hb =>
    obtain ⟨_, sent, hread, _⟩ := hb.body
    have hle := hread.position_le
    have hne : FrameGenerator.position c s.fg ≠ c.fifoInDly.toNat + s.fg.payloadLength := by
      intro hp
      rw [hread.eop, hp] at he
      simp at he
    obtain ⟨hin, hpos, hlen⟩ := hread.toInPayload.step (i := fgInput i s) (by omega)
    have hin : FrameGenerator.InPayload c (step c i s).fg := hin
    have hpos : FrameGenerator.position c (step c i s).fg = FrameGenerator.position c s.fg + 1 :=
      hpos
    have hlen : (step c i s).fg.payloadLength = s.fg.payloadLength := hlen
    refine ⟨active_of_inPayload hin, ?_⟩
    rw [edgesLeft, edgesLeft, if_neg hin.nextState_ne.2.2,
      if_neg hread.toInPayload.nextState_ne.2.2, hpos, hlen]
    omega

/-- The last word is on the outputs exactly one edge before the end. -/
theorem Sends.eop_iff {l : List Beat} {ps : List (Packet τ)} {t : τ} {pay : List Word}
    {s : State} (h : Sends c config ok l ps t pay s) (hact : Active s)
    (hpos : 0 < s.fg.payloadLength) :
    s.fg.eopSig = true ↔ edgesLeft c config s = 1 := by
  obtain ⟨-, -, hphase⟩ := h
  generalize (cut Beat.eop l).2 = o at hphase
  cases hphase with
  | rest hr => exact absurd hact hr.not_active
  | empty hz => simp [hz.length_zero] at hpos
  | header hh =>
    rw [hh.eop, edgesLeft, if_pos hh.phase]
    simp
    omega
  | body hb =>
    obtain ⟨_, sent, hread, _⟩ := hb.body
    have hle := hread.position_le
    rw [hread.eop, edgesLeft, if_neg hread.toInPayload.nextState_ne.2.2, decide_eq_true_eq]
    omega

end

end FpgaEthernet.Transmitter
