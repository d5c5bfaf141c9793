import FpgaEthernet.Ethernet.Transmitter
import FpgaEthernet.Ethernet.FrameReciever

/-!
# The receiver decodes what the frame generator sends

A frame sent by `header_generator` and `ethernet_frame_generator` for one
payload, fed to `ethernet_frame_reciever` with idle cycles anywhere and padding
words before `eop`.

Main results:

* `first_packet`: from rest, with the header parameters held, the pair completes
  a packet with the payload of the input FIFO after a fixed number of edges.
* `isUdpFrame_words`: the words of that packet are a UDP frame in the
  receiver's sense, with the parameters in the places where the receiver looks
  for them.
* `round_trip`: the receiver puts out exactly the payload, each word with the
  ports and addresses given to the generator.
-/

namespace FpgaEthernet.RoundTrip

open Clocked Transmitter

/-! ## The sender and its input FIFO -/

/-- What varies along a run: the used-word count and `payload_rdy`, and what
    follows a word in the pipeline of the FIFO when no word is read. -/
structure Input where
  usedwIn : BitVec 11
  payloadRdy : Bool
  idleWord : Word

/-- The pair of generators and a FIFO that puts a word on `data_in` a fixed
    number of edges after it was read: `pipe` holds the words under way, the
    newest first. With an empty pipe the FIFO is show-ahead. -/
structure State where
  tx : Transmitter.State
  unread : List Word
  pipe : List Word

/-- The pipe with the word read at this edge put in front. -/
def pipeIn (i : Input) (s : State) : List Word :=
  (if s.tx.fg.rdreqSig then s.unread.headD 0 else i.idleWord) :: s.pipe

/-- The inputs of the pair, with the header parameters `f`. -/
def txInput (f : HeaderGenerator.Fields) (i : Input) (s : State) : Transmitter.Input where
  fields := f
  dataIn := (pipeIn i s).getLastD 0
  usedwIn := i.usedwIn
  payloadRdy := i.payloadRdy

/-- One clock edge. -/
def step (c : FrameGenerator.Config) (f : HeaderGenerator.Fields) (i : Input) (s : State) :
    State where
  tx := Transmitter.step c (txInput f i s) s.tx
  unread := if s.tx.fg.rdreqSig then s.unread.tail else s.unread
  pipe := (pipeIn i s).dropLast

/-- What is written to the output FIFO at an edge. -/
def output (_ : Input) (s : State) : List Beat := written s.tx

/-! ## The header -/

/-- What the receiver relies on in the header of a UDP frame with parameters `f`
    and `len` payload words. -/
def headerOk (f : HeaderGenerator.Fields) (len : ℕ) (_ : Unit) (k : ℕ) (w : Word) : Prop :=
  match k with
  | 2 => w = f.sourceMacAddr.extractLsb' 16 32
  | 3 => w = (f.sourceMacAddr.extractLsb' 0 16 ++ f.etherType : BitVec 32)
  | 6 => w.extractLsb' 16 8 = f.protocol
  | 7 => w = f.sourceIp
  | 8 => w = f.destIp
  | 9 => w = (f.sourcePort ++ f.destPort : BitVec 32)
  | 10 => w = HeaderGenerator.udp1Word (BitVec.ofNat 9 len)
  | _ => True

/-- The header registers hold the parameters `f`. -/
def Latched (f : HeaderGenerator.Fields) (s : HeaderGenerator.State) : Prop :=
  s.nextState ≠ .idle → s.ethHeader = HeaderGenerator.ethHeaderWords f ∧
    s.ipHeader 3 = f.sourceIp ∧ s.ipHeader 4 = f.destIp

theorem latched_step {f : HeaderGenerator.Fields} {i : HeaderGenerator.Input}
    {s : HeaderGenerator.State} (h : Latched f s) (hi : i.toFields = f) :
    Latched f (HeaderGenerator.step i s) := by
  subst hi
  intro _
  obtain ⟨heth, hip⟩ := HeaderGenerator.step_registers i s
  rw [heth, hip]
  by_cases hn : s.nextState = .idle
  · simp [hn, HeaderGenerator.ipHeaderWords]
  · simpa [hn] using h hn

theorem ip2Word_protocol (protocol : BitVec 8) (checksum : BitVec 16) :
    (HeaderGenerator.ip2Word protocol checksum).extractLsb' 16 8 = protocol := by
  rw [HeaderGenerator.ip2Word, BitVec.extractLsb'_append_eq_of_le (by decide)]
  exact BitVec.extractLsb'_append_eq_right

/-- Held parameters end up in the header words. -/
theorem emits_fields {f : HeaderGenerator.Fields} {len : ℕ} {i : Transmitter.Input}
    {s : Transmitter.State} (hc : HeaderGenerator.IsUdpConfig f.config) (hi : i.fields = f)
    (hlatch : Latched f s.hg) (hlen : s.fg.payloadLength = len) :
    Emits f.config (headerOk f len) () i s := by
  intro _ hv
  obtain ⟨h0, h1, h2, -⟩ := hc
  obtain ⟨heth, hsrc, hdst⟩ : s.hg.ethHeader = HeaderGenerator.ethHeaderWords f ∧
      s.hg.ipHeader 3 = f.sourceIp ∧ s.hg.ipHeader 4 = f.destIp := by
    apply hlatch
    intro hn
    simp [HeaderGenerator.stateMachine, hn] at hv
  cases hn : s.hg.nextState <;>
    simp only [HeaderGenerator.stateMachine, hn, HeaderGenerator.position, h0, h1, h2, headerOk,
      if_true, Bool.false_eq_true, heth, hsrc, hdst, hgInput, hi, FrameGenerator.payloadLen,
      hlen] at hv ⊢
  case eth2 | eth3 => rfl
  case ip2 => exact ip2Word_protocol _ _

/-! ## The FIFO answers in time -/

/-- The FIFO holds the rest of the payload, of which `pay` has been read, and
    the pipe holds the words read last. -/
structure Supplies (c : FrameGenerator.Config) (payload pay : List Word) (s : State) : Prop where
  pay_eq : pay = payload.take pay.length
  unread_eq : ∃ rest, s.unread = payload.drop pay.length ++ rest
  pipe_length : s.pipe.length + 2 = c.fifoInDly.toNat
  pipe_eq : ∀ j < s.pipe.length, ∀ k < payload.length,
    FrameGenerator.InPayload c s.tx.fg → FrameGenerator.position c s.tx.fg = k + 2 + j →
      s.pipe[j]? = payload[k]?

/-- The word a read request takes from the FIFO. -/
def takenWord (s : State) : List Word := if s.tx.fg.rdreqSig then [s.unread.headD 0] else []

/-- A read request takes the next word of the payload. -/
theorem Supplies.taken {c : FrameGenerator.Config} {payload pay : List Word} {s : State}
    (h : Supplies c payload pay s) (hr : s.tx.fg.rdreqSig = true → pay.length < payload.length) :
    pay ++ takenWord s = payload.take (pay ++ takenWord s).length ∧
      ∃ rest, (if s.tx.fg.rdreqSig then s.unread.tail else s.unread) =
        payload.drop (pay ++ takenWord s).length ++ rest := by
  obtain ⟨rest, hu⟩ := h.unread_eq
  cases hrd : s.tx.fg.rdreqSig
  · simp only [takenWord, hrd, Bool.false_eq_true, if_false, List.append_nil]
    exact ⟨h.pay_eq, rest, hu⟩
  · have hlt := hr hrd
    have hdrop : payload.drop pay.length = payload[pay.length] :: payload.drop (pay.length + 1) :=
      List.drop_eq_getElem_cons hlt
    have hhead : s.unread.headD 0 = payload[pay.length] := by rw [hu, hdrop]; rfl
    simp only [takenWord, hrd, if_true, List.length_append, List.length_singleton, hhead]
    refine ⟨?_, rest, by rw [hu, hdrop]; rfl⟩
    rw [List.take_add_one, ← h.pay_eq, List.getElem?_eq_getElem hlt]
    rfl

theorem Supplies.rdreq_lt {c : FrameGenerator.Config} {payload pay sent : List Word} {s : State}
    (hread : FrameGenerator.Reading c pay sent s.tx.fg)
    (hlen : s.tx.fg.payloadLength = payload.length) (hr : s.tx.fg.rdreqSig = true) :
    FrameGenerator.position c s.tx.fg = pay.length + 1 ∧ pay.length < payload.length := by
  have hpl := hread.pay_length
  have hp : 1 ≤ FrameGenerator.position c s.tx.fg ∧
      FrameGenerator.position c s.tx.fg ≤ s.tx.fg.payloadLength := by
    simpa [hread.rdreq] using hr
  omega

/-- In the payload phase the word on `data_in` is the one read `FIFO_in_dly - 2`
    edges ago. -/
theorem Supplies.answers {c : FrameGenerator.Config} {payload pay sent : List Word} {s : State}
    {f : HeaderGenerator.Fields} {i : Input} (h : Supplies c payload pay s)
    (hread : FrameGenerator.Reading c pay sent s.tx.fg)
    (hlen : s.tx.fg.payloadLength = payload.length) :
    FrameGenerator.Answers c (pay ++ takenWord s) (txInput f i s).dataIn s.tx.fg := by
  intro k hk hp
  rw [hlen] at hk
  have hpl := hread.pay_length
  have hdly := h.pipe_length
  obtain ⟨htake, -⟩ := h.taken fun hr => (Supplies.rdreq_lt hread hlen hr).2
  have hget : k < (pay ++ takenWord s).length →
      (pay ++ takenWord s)[k]? = some payload[k] := by
    intro hlt
    rw [htake, List.getElem?_take_of_lt hlt, List.getElem?_eq_getElem hk]
  cases hpipe : s.pipe using List.reverseRecOn with
  | nil =>
    -- a show-ahead FIFO presents the word that is being read
    rw [hpipe, List.length_nil] at hdly
    have hrd : s.tx.fg.rdreqSig = true := by
      rw [hread.rdreq, decide_eq_true_eq]
      omega
    obtain ⟨hpos, hlt⟩ := Supplies.rdreq_lt hread hlen hrd
    have hk' : k = pay.length := by omega
    have htw : takenWord s = [s.unread.headD 0] := by simp [takenWord, hrd]
    rw [htw, hk', List.getElem?_concat_length]
    simp [txInput, pipeIn, hpipe, hrd]
  | append_singleton l w =>
    rw [hpipe, List.length_append, List.length_singleton] at hdly
    have hdata : (txInput f i s).dataIn = w := by
      show (pipeIn i s).getLastD 0 = w
      rw [pipeIn, hpipe, ← List.cons_append, List.getLastD_concat]
    have hold := h.pipe_eq l.length (by simp [hpipe]) k hk hread.toInPayload (by omega)
    rw [hpipe, List.getElem?_concat_length, List.getElem?_eq_getElem hk] at hold
    rw [hdata, Option.some.inj hold]
    apply hget
    rw [List.length_append]
    omega

/-- The FIFO and its pipe after an edge. -/
theorem Supplies.step {c : FrameGenerator.Config} {payload pay : List Word} {s : State}
    {f : HeaderGenerator.Fields} {i : Input} (h : Supplies c payload pay s)
    (hr : s.tx.fg.rdreqSig = true → pay.length < payload.length)
    (hpos : FrameGenerator.InPayload c (RoundTrip.step c f i s).tx.fg →
      FrameGenerator.position c (RoundTrip.step c f i s).tx.fg = 0 ∨
      FrameGenerator.InPayload c s.tx.fg ∧
        FrameGenerator.position c (RoundTrip.step c f i s).tx.fg =
          FrameGenerator.position c s.tx.fg + 1 ∧
        pay.length = min (FrameGenerator.position c s.tx.fg - 1) payload.length ∧
        s.tx.fg.rdreqSig = decide (1 ≤ FrameGenerator.position c s.tx.fg ∧
          FrameGenerator.position c s.tx.fg ≤ payload.length)) :
    Supplies c payload (pay ++ takenWord s) (RoundTrip.step c f i s) := by
  obtain ⟨htake, hrest⟩ := h.taken hr
  have hlen : (RoundTrip.step c f i s).pipe.length = s.pipe.length := by
    simp [RoundTrip.step, pipeIn]
  refine ⟨htake, hrest, by rw [hlen]; exact h.pipe_length, fun j hj k hk hin hp => ?_⟩
  rw [hlen] at hj
  obtain hz | ⟨hin', hp', hpl, hrd⟩ := hpos hin
  · omega
  · have hget : (RoundTrip.step c f i s).pipe[j]? = (pipeIn i s)[j]? := by
      rw [RoundTrip.step, List.dropLast_eq_take, List.getElem?_take_of_lt]
      simpa [pipeIn] using hj
    rw [hget, pipeIn]
    cases j with
    | zero =>
      have hr' : s.tx.fg.rdreqSig = true := by
        rw [hrd, decide_eq_true_eq]
        omega
      obtain ⟨rest, hu⟩ := h.unread_eq
      have hk' : pay.length = k := by omega
      rw [hr', if_pos rfl, List.getElem?_cons_zero, hu, hk', List.drop_eq_getElem_cons hk,
        List.getElem?_eq_getElem hk]
      rfl
    | succ j =>
      rw [List.getElem?_cons_succ]
      exact h.pipe_eq j (by omega) k hk hin' (by omega)

/-! ## The first packet -/

/-- The pair is sending a packet with the payload held by the FIFO, of which it
    has read `pay`. -/
structure Progress (c : FrameGenerator.Config) (f : HeaderGenerator.Fields) (payload : List Word)
    (l : List Beat) (pay : List Word) (s : State) : Prop where
  sends : Sends c f.config (headerOk f payload.length) l [] () pay s.tx
  active : Active s.tx
  length_pos : 0 < payload.length
  length : s.tx.fg.payloadLength = payload.length
  latched : Latched f s.tx.hg
  supplies : Supplies c payload pay s

section

variable {c : FrameGenerator.Config} {f : HeaderGenerator.Fields} {payload : List Word}
  (hcrc : c.genCrc = false) (hdly : 2 ≤ c.fifoInDly.toNat)
  (hcfg : HeaderGenerator.IsUdpConfig f.config)

include hcrc hdly hcfg

/-- Before the last word an edge keeps the packet in progress. -/
theorem Progress.step {l : List Beat} {pay : List Word} {i : Input} {s : State}
    (h : Progress c f payload l pay s) (he : s.tx.fg.eopSig = false) :
    ∃ pay', Progress c f payload (l ++ output i s) pay' (RoundTrip.step c f i s) ∧
      edgesLeft c f.config (RoundTrip.step c f i s).tx + 1 = edgesLeft c f.config s.tx := by
  obtain ⟨hs, hact, hpos, hlen, hlatch, hsup⟩ := h
  obtain ⟨hact', hleft⟩ := hs.edgesLeft_step (i := txInput f i s) rfl hact he (hlen ▸ hpos)
  have htaken : (takenWord s).length = s.tx.fg.rdreqSig.toNat := by
    cases hr : s.tx.fg.rdreqSig <;> simp [takenWord, hr]
  have hs' := hs.advance (i := txInput f i s) hcrc hdly rfl hact he
    (emits_fields hcfg rfl hlatch hlen) htaken fun sent hread => hsup.answers hread hlen
  have hlen' : (RoundTrip.step c f i s).tx.fg.payloadLength = payload.length :=
    (FrameGenerator.payloadLength_step hact.1).trans hlen
  refine ⟨pay ++ takenWord s, ⟨hs', hact', hpos, hlen', latched_step hlatch rfl, ?_⟩, hleft⟩
  apply hsup.step
  · intro hr
    rcases hs.reading with ⟨-, hr', -⟩ | ⟨sent, hread⟩
    · simp [hr'] at hr
    · exact (Supplies.rdreq_lt hread hlen hr).2
  · intro hin'
    rcases hs.reading with ⟨-, -, hhead⟩ | ⟨sent, hread⟩
    · -- the payload phase begins at position 0
      obtain ⟨hn, hd⟩ := hhead hact he
      left
      rcases hin'.phase with ⟨hn', -⟩ | ⟨hn', -⟩ | ⟨hn', -⟩
      · rw [FrameGenerator.position, hn']
        simpa [RoundTrip.step, Transmitter.step, FrameGenerator.step, FrameGenerator.stateMachine,
          hn] using hd
      all_goals
        simp only [RoundTrip.step, Transmitter.step, FrameGenerator.step,
          FrameGenerator.stateMachine, hn] at hn'
        split_ifs at hn'
    · have hle := hread.position_le
      have hne : FrameGenerator.position c s.tx.fg ≠
          c.fifoInDly.toNat + s.tx.fg.payloadLength := by
        intro hp
        rw [hread.eop, hp] at he
        simp at he
      obtain ⟨-, hpos, -⟩ := hread.toInPayload.step (i := fgInput (txInput f i s) s.tx) (by omega)
      refine .inr ⟨hread.toInPayload, hpos, ?_, ?_⟩
      · rw [hread.pay_length, hlen]
      · rw [hread.rdreq, hlen]

/-- After `edgesLeft` edges the packet is complete. -/
theorem Progress.run {l : List Beat} {pay : List Word} {s : State}
    (h : Progress c f payload l pay s) (is : List Input)
    (hlen : is.length = edgesLeft c f.config s.tx) :
    ∃ p : Packet Unit, p.payload = payload ∧ p.Valid c f.config (headerOk f payload.length) ∧
      (cut Beat.eop (l ++ log (RoundTrip.step c f) output s is)).1.map (List.map Beat.data) =
        [p.words] := by
  induction is generalizing l pay s with
  | nil =>
    -- a packet in progress has at least one edge left
    cases he : s.tx.fg.eopSig
    · obtain ⟨_, -, hleft⟩ := h.step (i := ⟨0, false, 0⟩) hcrc hdly hcfg he
      rw [List.length_nil] at hlen
      omega
    · have := (h.sends.eop_iff h.active (h.length ▸ h.length_pos)).1 he
      rw [List.length_nil] at hlen
      omega
  | cons i is ih =>
    rw [log_cons, ← List.append_assoc]
    cases he : s.tx.fg.eopSig
    · obtain ⟨pay', h', hleft⟩ := h.step (i := i) hcrc hdly hcfg he
      exact ih h' (by rw [List.length_cons] at hlen; omega)
    · have hone := (h.sends.eop_iff h.active (h.length ▸ h.length_pos)).1 he
      have hnil : is = [] := by
        rw [List.length_cons] at hlen
        exact List.eq_nil_of_length_eq_zero (by omega)
      obtain ⟨-, hpay, -, p, -, hpp, hs'⟩ := h.sends.finish (i := txInput f i s) hcrc hdly he
      have hfull : pay = payload := by
        rw [h.supplies.pay_eq, hpay, h.length, List.take_length]
      subst hnil
      refine ⟨p, hpp.trans hfull, hs'.valid p (by simp), ?_⟩
      rw [log_nil, List.append_nil]
      exact hs'.sent

/-- From rest, `payload_rdy` with `payload.length` words in the FIFO makes the
    pair send a packet with this payload, which is complete after a fixed number
    of edges. -/
theorem first_packet (hpos : 0 < payload.length) (hmax : payload.length ≤ c.payloadMaxLen.toNat)
    {s : State} (hrest : Resting s.tx) (hidle : s.tx.fg.nextState = .idle)
    (hunread : payload <+: s.unread) (hpipe : s.pipe.length + 2 = c.fifoInDly.toNat) {i : Input}
    (hrdy : i.payloadRdy = true) (hused : i.usedwIn.toNat = payload.length) (is : List Input)
    (hlen : is.length = 16 + c.fifoInDly.toNat + payload.length) :
    ∃ p : Packet Unit, p.payload = payload ∧ p.Valid c f.config (headerOk f payload.length) ∧
      (cut Beat.eop (log (RoundTrip.step c f) output s (i :: is))).1.map (List.map Beat.data) =
        [p.words] := by
  have hs : Sends c f.config (headerOk f payload.length) [] [] () [] s.tx :=
    ⟨rfl, by simp, .rest hrest⟩
  obtain ⟨hs', -, -, hlen'⟩ := hs.start (i := txInput f i s) hidle hrdy
    hcfg.fNextState ()
  have hlen'' : (RoundTrip.step c f i s).tx.fg.payloadLength = payload.length := by
    refine hlen'.trans ?_
    show min _ i.usedwIn.toNat = _
    omega
  have hnext : (RoundTrip.step c f i s).tx.fg.nextState = .payloadHeader ∧
      (RoundTrip.step c f i s).tx.fg.headerStart = true := by
    simp [RoundTrip.step, Transmitter.step, FrameGenerator.step, FrameGenerator.stateMachine,
      fgInput, txInput, hidle, hrdy]
  have hhg : (RoundTrip.step c f i s).tx.hg.nextState = .idle :=
    (hrest.hg_rest.step (i := hgInput (txInput f i s) s.tx) hrest.headerStart).1
  have hin : ∀ u : FrameGenerator.State, u.nextState = .payloadHeader →
      ¬ FrameGenerator.InPayload c u := by
    intro u hu h
    rcases h.phase with ⟨hn, -⟩ | ⟨hn, -⟩ | ⟨hn, -⟩ <;> simp [hu] at hn
  obtain ⟨rest, hunread⟩ := hunread
  have hprog : Progress c f payload (output i s) [] (RoundTrip.step c f i s) := by
    refine ⟨hs', by simp [Active, hnext.1], hpos, hlen'', fun hn => absurd hhg hn, ?_, ?_, ?_, ?_⟩
    · simp
    · exact ⟨rest, by simp [RoundTrip.step, hrest.rdreq, ← hunread]⟩
    · simpa [RoundTrip.step, pipeIn] using hpipe
    · exact fun _ _ _ _ h => absurd h (hin _ hnext.1)
  refine hprog.run hcrc hdly hcfg is ?_
  rw [hlen, edgesLeft, if_pos hnext.1, hnext.2, if_pos rfl, hlen'', hcfg.headerWords,
    if_pos hcfg.2.1]

end

/-! ## The frame as the receiver reads it -/

theorem mac_append (x : MacAddr) : (x.extractLsb' 16 32 ++ x.extractLsb' 0 16 : BitVec 48) = x :=
  BitVec.extractLsb'_append_extractLsb'

/-- The length field of the UDP header, in bytes, as long as the length fits into 9 bits. -/
theorem toNat_udp1Word {len : ℕ} (h : len ≤ 509) :
    (hi (HeaderGenerator.udp1Word (BitVec.ofNat 9 len))).toNat = 4 * (len + 2) := by
  have hlen : ((BitVec.ofNat 9 len + 2#9).setWidth 14).toNat = len + 2 := by
    rw [BitVec.toNat_setWidth, BitVec.toNat_add, BitVec.toNat_ofNat]
    simp
    omega
  rw [HeaderGenerator.udp1Word, hi_append, BitVec.toNat_append,
    ← Nat.shiftLeft_add_eq_or_of_lt (by simp), hlen, Nat.shiftLeft_eq]
  simp
  omega

/-- It counts the payload and the two header words. -/
theorem lengthField_udp1Word {len : ℕ} (h : len ≤ 509) :
    ((hi (HeaderGenerator.udp1Word (BitVec.ofNat 9 len))).toNat / 4 : ℤ) - 2 = len := by
  rw [toNat_udp1Word h]
  omega

/-- The header of a packet, as it is read off the packet with any words after it. -/
theorem headerOk_wordAt {τ : Type} {f : HeaderGenerator.Fields} {p : Packet τ} {len : ℕ}
    (hlen : p.header.length = 11) (hok : ∀ k w, p.header[k]? = some w → headerOk f len () k w)
    (pad : List Word) (k : ℕ) (hk : k < 11) :
    headerOk f len () k (FrameReciever.wordAt (p.words ++ pad) k) := by
  have hget : (p.words ++ pad)[k]? = some p.header[k] := by
    rw [Packet.words, List.append_assoc, List.getElem?_append_left (by omega)]
    exact List.getElem?_eq_getElem (by omega)
  rw [FrameReciever.wordAt, List.getD_eq_getElem?_getD, hget]
  exact hok k _ (List.getElem?_eq_getElem (by omega))

/-- The words of a packet with parameters `f`, padded, are a UDP frame for the
    receiver, and what the receiver reads off it are the parameters. -/
theorem isUdpFrame_words {c : FrameGenerator.Config} {f : HeaderGenerator.Fields}
    {p : Packet Unit} (hcfg : HeaderGenerator.IsUdpConfig f.config) (hproto : f.protocol = protoUdp)
    (hty : f.etherType = ethIPv4) (h509 : p.payload.length ≤ 509)
    (hpos : 0 < p.payload.length) (hp : p.Valid c f.config (headerOk f p.payload.length))
    (pad : List Word) :
    FrameReciever.IsUdpFrame (p.words ++ pad) p.payload.length ∧
      ∀ w, FrameReciever.deliveryOf (p.words ++ pad) w =
        ⟨w, f.destPort, f.sourcePort, f.sourceIp, f.destIp, f.sourceMacAddr⟩ := by
  have hlen : p.header.length = 11 := hp.header_length.trans hcfg.headerWords
  have hat := headerOk_wordAt (f := f) hlen hp.header_ok pad
  have h2 := hat 2 (by decide)
  have h3 := hat 3 (by decide)
  have h6 := hat 6 (by decide)
  have h7 := hat 7 (by decide)
  have h8 := hat 8 (by decide)
  have h9 := hat 9 (by decide)
  have h10 := hat 10 (by decide)
  simp only [headerOk] at h2 h3 h6 h7 h8 h9 h10
  refine ⟨⟨?_, hpos, ?_, ?_, ?_⟩, fun w => ?_⟩
  · simp [Packet.words, hlen]
  · rw [h3, lo_append, hty]
  · rw [h6, hproto]
  · rw [h10]
    exact lengthField_udp1Word h509
  · simp only [FrameReciever.deliveryOf, h2, h3, h7, h8, h9, hi_append, lo_append]
    rw [mac_append]

/-- The words of the first frame the pair completes along the edges `is`. -/
def firstFrame (c : FrameGenerator.Config) (f : HeaderGenerator.Fields) (s : State)
    (is : List Input) : List Word :=
  ((cut Beat.eop (log (step c f) output s is)).1.headD []).map Beat.data

/-- What the receiver puts out for a payload word of a packet with parameters
    `f`. -/
def deliveryFor (f : HeaderGenerator.Fields) (w : Word) : FrameReciever.Delivery :=
  ⟨w, f.destPort, f.sourcePort, f.sourceIp, f.destIp, f.sourceMacAddr⟩

/-- The frame sent for a payload of 1 to 509 words, padded and fed to the
    receiver with idle cycles anywhere, makes the receiver put out exactly the
    payload, each word with the ports and addresses given to the generators. -/
theorem round_trip {c : FrameGenerator.Config} {f : HeaderGenerator.Fields} {payload : List Word}
    (hcrc : c.genCrc = false) (hdly : 2 ≤ c.fifoInDly.toNat)
    (hcfg : HeaderGenerator.IsUdpConfig f.config)
    (hproto : f.protocol = protoUdp) (hty : f.etherType = ethIPv4) (hpos : 1 ≤ payload.length)
    (h509 : payload.length ≤ 509) (hmax : payload.length ≤ c.payloadMaxLen.toNat) {s : State}
    (hrest : Resting s.tx) (hidle : s.tx.fg.nextState = .idle) (hunread : payload <+: s.unread)
    (hpipe : s.pipe.length + 2 = c.fifoInDly.toNat) {i : Input} (hrdy : i.payloadRdy = true)
    (hused : i.usedwIn.toNat = payload.length) {is : List Input}
    (hlen : 16 + c.fifoInDly.toNat + payload.length ≤ is.length) (pad : List Word)
    {r : FrameReciever.State} (hr : r.wordNum = 0) {js : List FrameReciever.Input}
    (hfed : FrameReciever.fed js = FrameReciever.framed (firstFrame c f s (i :: is) ++ pad)) :
    log FrameReciever.step FrameReciever.delivered r js = payload.map (deliveryFor f) := by
  obtain ⟨p, rfl, hp, hsent⟩ := first_packet hcrc hdly hcfg hpos hmax hrest hidle hunread hpipe
    hrdy hused (is.take (16 + c.fifoInDly.toNat + payload.length)) (List.length_take_of_le hlen)
  have hframe : firstFrame c f s (i :: is) = p.words := by
    have hsplit : i :: is = (i :: is.take (16 + c.fifoInDly.toNat + p.payload.length)) ++
        is.drop (16 + c.fifoInDly.toNat + p.payload.length) := by simp
    obtain ⟨frame, hfin, hw⟩ := List.map_eq_singleton_iff.1 hsent
    obtain ⟨rest, hrest⟩ := cut_append_isPrefix Beat.eop
      (log (step c f) output s (i :: is.take (16 + c.fifoInDly.toNat + p.payload.length)))
      (log (step c f) output
        (run (step c f) s (i :: is.take (16 + c.fifoInDly.toNat + p.payload.length)))
        (is.drop (16 + c.fifoInDly.toNat + p.payload.length)))
    rw [firstFrame, hsplit, log_append, ← hrest, hfin, ← hw]
    rfl
  obtain ⟨hudp, hdel⟩ := isUdpFrame_words hcfg hproto hty h509 hpos hp pad
  have hhead : p.header.length = 11 := hp.header_length.trans hcfg.headerWords
  rw [hframe] at hfed
  rw [FrameReciever.delivered_eq hudp hr js hfed, Packet.words, List.append_assoc,
    List.drop_left' hhead, List.take_left, ← List.append_assoc]
  exact List.map_congr_left fun w _ => hdel w

/-! ## A round trip -/

/-- Parameters of a UDP packet. -/
def sampleFields : HeaderGenerator.Fields where
  protocol := protoUdp
  appHeader := 0
  config := 0x00000007
  sourceMacAddr := 0xEE1122334455
  destMacAddr := 0x6CB311517434
  etherType := ethIPv4
  sourceIp := 0xC0A80003
  destIp := 0xC0A80001
  sourcePort := 0x3000
  destPort := 0x4268

/-- The generators at rest with two words in the FIFO. -/
def sampleState : State where
  tx := Transmitter.reset
  unread := [0xCAFE, 0xBEEF]
  pipe := [0]

/-- The ports of the frame generator in `udp_data_block`. -/
def sampleConfig : FrameGenerator.Config where
  payloadMaxLen := 511
  fifoInDly := 3
  fifoOutDly := 0
  genCrc := false

/-- `payload_rdy` for two words, and then time to send them. -/
def sampleRun : List Input := ⟨2, true, 0⟩ :: List.replicate 22 ⟨0, false, 0⟩

/-- The frame, padded by three words, with an idle cycle after every word. -/
def sampleFeed : List FrameReciever.Input :=
  (FrameReciever.framed (firstFrame sampleConfig sampleFields sampleState sampleRun ++
    [0, 0, 0])).flatMap fun b => [⟨b.data, b.eop, b.sop, true, 0⟩, ⟨b.data, b.eop, b.sop, false, 0⟩]

theorem round_trip_sample :
    log FrameReciever.step FrameReciever.delivered FrameReciever.reset sampleFeed =
      [deliveryFor sampleFields 0xCAFE, deliveryFor sampleFields 0xBEEF] :=
  @round_trip sampleConfig sampleFields [0xCAFE, 0xBEEF] rfl (by decide) (by decide) rfl rfl
    (by decide) (by decide) (by decide) sampleState ⟨.inl rfl, ⟨rfl, rfl, rfl⟩, rfl, rfl, rfl, rfl⟩
    rfl (List.prefix_refl _) rfl ⟨2, true, 0⟩ rfl rfl (List.replicate 22 ⟨0, false, 0⟩) (by decide)
    [0, 0, 0] FrameReciever.reset rfl sampleFeed (by decide +kernel)

end FpgaEthernet.RoundTrip
