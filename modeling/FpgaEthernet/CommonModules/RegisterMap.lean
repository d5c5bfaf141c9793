import FpgaEthernet.CommonModules.ConfigRegisterBlock

/-!
# The register map

What `config_register_block` is for: a map of half-registers that is written by
configuration words and answers read words. `Map` is this map with the words it
still has to put out, one a cycle. A block read keeps it busy for as many cycles
as it has half-registers.

Main results:

* `Refines.step`: the block follows the map edge by edge.
* `refines_run`: from reset the block puts out what the map puts out.
* `register_map`: what the answer to a read is, where answers come from, and
  which words change no register.
-/

namespace FpgaEthernet.ConfigRegisterBlock

open Clocked

variable {n : ℕ}

/-! ## The map -/

/-- The registers, the words to put out, and the cycles a block read still
    takes. -/
structure Map (n : ℕ) where
  regs : Fin n → Word
  answer : List Word
  busy : ℕ

/-- The answer to a read of one half-register: the word of the request with bit
    31 clear and the half-register as its data. -/
def readWord (w : Word) (v : BitVec 16) : Word := (0#1 ++ w.extractLsb' 16 15 ++ v : BitVec 32)

/-- The words that answer a configuration word. Register address 127 reads all
    half-registers. -/
def respond (addr : BitVec 7) (regs : Fin n → Word) (w : Word) : List Word :=
  if isRead w = true ∧ blockAddress w = addr then
    if registerInt w = 127 then dump addr regs
    else if registerInt w < n then [readWord w (halfOf regs (halfAddress w))]
    else []
  else []

instance (addr : BitVec 7) : DecidablePred (IsBlockRead addr) := fun w =>
  inferInstanceAs (Decidable (isRead w = true ∧ blockAddress w = addr ∧ registerInt w = 127))

/-- One cycle: a word is put out, and a configuration word may arrive. -/
def Map.step (addr : BitVec 7) (i : Input) (m : Map n) : Map n where
  regs := if i.configValidIn then writeWord addr m.regs i.configDataIn else m.regs
  answer := m.answer.tail ++ if i.configValidIn then respond addr m.regs i.configDataIn else []
  busy :=
    if i.configValidIn ∧ IsBlockRead addr i.configDataIn then 2 * n else m.busy - 1

/-- The word put out in a cycle. -/
def Map.output (_ : Input) (m : Map n) : List (Option Word) := [m.answer.head?]

/-- The default settings, and nothing to put out. -/
def Map.initial (settings : Fin n → Word) : Map n := ⟨settings, [], 0⟩

/-- No configuration word arrives while a block read is running. -/
def Spaced (i : Input) (m : Map n) : Prop := i.configValidIn = true → m.busy = 0

instance (i : Input) (m : Map n) : Decidable (Spaced i m) := by
  unfold Spaced
  infer_instance

/-! ## Refinement -/

/-- No block read is running: the word that arrived last is in the input
    register, and its answer is still to come. -/
structure Between (addr : BitVec 7) (m : Map n) (s : State n) : Prop where
  index : s.reader.blockReadIndex = 0
  busy : m.busy =
    if s.configValidInReg ∧ IsBlockRead addr s.configDataInReg then 2 * n else 0
  answer : m.answer =
    if s.configValidInReg then respond addr s.configRegistersReg s.configDataInReg else []

/-- A block read has put out `k` words. -/
structure During (addr : BitVec 7) (k : ℕ) (m : Map n) (s : State n) : Prop where
  pos : 1 ≤ k
  le : k ≤ 2 * n
  dumping : Dumping k s
  quiet : s.configValidInReg = false
  busy : m.busy = 2 * n - k
  answer : m.answer = (dump addr s.configRegistersReg).drop k

/-- The block and the map agree: the registers of the map are those the word in
    the input register leaves. -/
structure Refines (addr : BitVec 7) (m : Map n) (s : State n) : Prop where
  regs : (registerWriter addr s).1 = m.regs
  phase : Between addr m s ∨ ∃ k, During addr k m s

variable {addr : BitVec 7} {m : Map n} {i : Input} {s : State n}

theorem refines_initial (settings : Fin n → Word) :
    Refines addr (Map.initial settings) (initial settings) :=
  ⟨rfl, Or.inl ⟨rfl, rfl, rfl⟩⟩

theorem regs_step (h : (registerWriter addr s).1 = m.regs) :
    (registerWriter addr (step addr i s)).1 = (Map.step addr i m).regs := by
  rw [registerWriter_fst]
  show (if i.configValidIn then writeWord addr (registerWriter addr s).1 i.configDataIn
    else (registerWriter addr s).1) = _
  rw [h]
  rfl

theorem dump_length (regs : Fin n → Word) : (dump addr regs).length = 2 * n := by
  simp [dump]

theorem dump_drop (regs : Fin n → Word) {k : ℕ} (hk : k < 2 * n) :
    (dump addr regs).drop k = dumpWord addr regs k :: (dump addr regs).drop (k + 1) := by
  rw [List.drop_eq_getElem_cons (by rw [dump_length]; exact hk)]
  simp [dump]

/-- A half-register as the reader selects it. -/
theorem halfOf_halfAddress (regs : Fin n → Word) (w : Word) :
    halfOf regs (halfAddress w) = half (register regs (registerInt w)) (isUpper w) := by
  unfold halfOf halfAddress
  cases isUpper w
  · simp
  · simp [show (2 * registerInt w + 1) / 2 = registerInt w by omega]

/-- A word that is no block read is answered at the next edge, or not at all. -/
theorem single_step (hn : 1 ≤ n) (h0 : s.reader.blockReadIndex = 0)
    (hno : ¬(s.configValidInReg = true ∧ IsBlockRead addr s.configDataInReg)) :
    (step addr i s).reader.blockReadIndex = 0 ∧
      output addr i s = (if s.configValidInReg then
        respond addr s.configRegistersReg s.configDataInReg else []).head? ∧
      (if s.configValidInReg then
        respond addr s.configRegistersReg s.configDataInReg else []).tail = [] := by
  by_cases hread : s.configValidInReg = true ∧ isRead s.configDataInReg = true ∧
      blockAddress s.configDataInReg = addr
  · obtain ⟨hv, hr, ha⟩ := hread
    have h127 : registerInt s.configDataInReg ≠ 127 := fun h => hno ⟨hv, hr, ha, h⟩
    have hreader : (step addr i s).reader =
        if n ≤ registerInt s.configDataInReg then
          { s.reader with readError := true, configValidOut := false, configDataOut := 0 }
        else
          { s.reader with
            readError := false
            configValidOut := true
            configDataOut := (0#1 ++ s.configDataInReg.extractLsb' 16 15 ++
              half (register s.configRegistersReg (registerInt s.configDataInReg))
                (isUpper s.configDataInReg) : BitVec 32) } := by
      show registerReader addr s = _
      rw [registerReader, if_neg fun h => h127 h.2.2.2.2, if_neg (by omega), if_neg (by omega),
        if_pos ⟨hr, hv, ha⟩]
    rw [hv, if_pos rfl, respond, if_pos ⟨hr, ha⟩, if_neg h127]
    simp only [output, hreader, halfOf_halfAddress, readWord]
    by_cases hlt : registerInt s.configDataInReg < n
    · rw [if_neg (by omega), if_pos hlt]
      exact ⟨h0, rfl, rfl⟩
    · rw [if_pos (by omega), if_neg hlt]
      exact ⟨h0, rfl, rfl⟩
  · have hnil : (if s.configValidInReg then
        respond addr s.configRegistersReg s.configDataInReg else []) = [] := by
      split_ifs with hv
      · rw [respond, if_neg fun h => hread ⟨hv, h⟩]
      · rfl
    have hreader : (step addr i s).reader = { s.reader with
        configValidOut := false
        configDataOut := 0
        readError := false } := by
      show registerReader addr s = _
      rw [registerReader, if_neg fun h => hread ⟨h.2.2.1, h.2.1, h.2.2.2.1⟩, if_neg (by omega),
        if_neg (by omega), if_neg fun h => hread ⟨h.2.1, h.1, h.2.2⟩]
    rw [hnil]
    exact ⟨by rw [hreader, h0], by simp only [output, hreader]; rfl, rfl⟩

/-- The registers of the map before the word in the input register are those of
    the block, and after a read still are. -/
theorem writeWord_of_read {regs : Fin n → Word} {w : Word} (h : isRead w = true) :
    writeWord addr regs w = regs := by
  rw [writeWord, dif_neg (by simp [h])]

theorem Between.step (h : Between addr m s) (hregs : (registerWriter addr s).1 = m.regs)
    (hn : 1 ≤ n) (hi : Spaced i m) :
    output addr i s = m.answer.head? ∧
      (Between addr (Map.step addr i m) (ConfigRegisterBlock.step addr i s) ∨
        ∃ k, During addr k (Map.step addr i m) (ConfigRegisterBlock.step addr i s)) := by
  by_cases hb : s.configValidInReg = true ∧ IsBlockRead addr s.configDataInReg
  · -- a block read begins
    have hbusy : m.busy = 2 * n := by rw [h.busy, if_pos hb]
    have hquiet : i.configValidIn = false := by
      by_contra hv
      have := hi (by simpa using hv)
      omega
    have hsame : m.regs = s.configRegistersReg := by
      rw [← hregs, registerWriter_fst, if_pos hb.1, writeWord_of_read hb.2.1]
    have hans : m.answer = dump addr s.configRegistersReg := by
      rw [h.answer, if_pos hb.1, respond, if_pos ⟨hb.2.1, hb.2.2.1⟩, if_pos hb.2.2.2]
    obtain ⟨hd, hout⟩ := dump_start (i := i) hb.1 hb.2 h.index
    have hcons := @dump_drop n addr s.configRegistersReg 0 (by omega)
    rw [List.drop_zero] at hcons
    refine ⟨by rw [hout, hans, hcons, List.head?_cons],
      Or.inr ⟨1, ⟨le_rfl, by omega, hd, hquiet, ?_, ?_⟩⟩⟩
    · simp [Map.step, hquiet, hbusy]
    · have hnext : (ConfigRegisterBlock.step addr i s).configRegistersReg =
          s.configRegistersReg := by
        show (registerWriter addr s).1 = _
        rw [hregs, hsame]
      rw [hnext, Map.step, hans, hquiet, hcons]
      simp
  · have hbusy : m.busy = 0 := by rw [h.busy, if_neg hb]
    obtain ⟨h0, hout, htail⟩ := single_step (i := i) hn h.index hb
    rw [← h.answer] at hout htail
    refine ⟨hout, Or.inl ⟨h0, ?_, ?_⟩⟩
    · simp only [Map.step, hbusy]
      rfl
    · rw [Map.step, htail, ← hregs]
      rfl

theorem During.step {k : ℕ} (h : During addr k m s)
    (hregs : (registerWriter addr s).1 = m.regs) (hn : 1 ≤ n) (hi : Spaced i m) :
    output addr i s = m.answer.head? ∧
      (Between addr (Map.step addr i m) (ConfigRegisterBlock.step addr i s) ∨
        ∃ k, During addr k (Map.step addr i m) (ConfigRegisterBlock.step addr i s)) := by
  have hsame : m.regs = s.configRegistersReg := by
    rw [← hregs, registerWriter_fst, h.quiet]
    rfl
  have hnext : (ConfigRegisterBlock.step addr i s).configRegistersReg = s.configRegistersReg := by
    show (registerWriter addr s).1 = _
    rw [hregs, hsame]
  rcases Nat.lt_or_ge k (2 * n) with hk | hk
  · -- the next word
    have hquiet : i.configValidIn = false := by
      by_contra hv
      have := hi (by simpa using hv)
      rw [h.busy] at this
      omega
    obtain ⟨hd, hout⟩ : Dumping (k + 1) (ConfigRegisterBlock.step addr i s) ∧
        output addr i s = some (dumpWord addr s.configRegistersReg k) :=
      h.dumping.step h.pos hk
    have hcons := @dump_drop n addr s.configRegistersReg k hk
    refine ⟨by rw [hout, h.answer, hcons, List.head?_cons], Or.inr ⟨k + 1, ⟨by omega, by omega, hd,
      hquiet, ?_, ?_⟩⟩⟩
    · simp only [Map.step, hquiet, h.busy]
      simp
      omega
    · rw [hnext, Map.step, h.answer, hquiet, hcons]
      simp
  · -- the end
    obtain rfl : k = 2 * n := by have := h.le; omega
    have hans : m.answer = [] := by
      rw [h.answer, List.drop_eq_nil_of_le]
      rw [dump_length]
    have hbusy : m.busy = 0 := by rw [h.busy, Nat.sub_self]
    obtain ⟨h0, hout⟩ : (ConfigRegisterBlock.step addr i s).reader.blockReadIndex = 0 ∧
        output addr i s = none :=
      h.dumping.finish hn
    refine ⟨by rw [hout, hans]; rfl, Or.inl ⟨h0, ?_, ?_⟩⟩
    · simp only [Map.step, hbusy]
      rfl
    · rw [hnext, Map.step, hans, hsame]
      rfl

/-- The block follows the map edge by edge. -/
theorem Refines.step (h : Refines addr m s) (hn : 1 ≤ n) (hi : Spaced i m) :
    output addr i s = m.answer.head? ∧
      Refines addr (Map.step addr i m) (ConfigRegisterBlock.step addr i s) := by
  have key : output addr i s = m.answer.head? ∧
      (Between addr (Map.step addr i m) (ConfigRegisterBlock.step addr i s) ∨
        ∃ k, During addr k (Map.step addr i m) (ConfigRegisterBlock.step addr i s)) := by
    rcases h.phase with hb | ⟨k, hd⟩
    · exact hb.step h.regs hn hi
    · exact hd.step h.regs hn hi
  exact ⟨key.1, regs_step h.regs, key.2⟩

/-- From agreeing states the block puts out what the map puts out. -/
theorem refines_run {is : List Input} (h : Refines addr m s) (hn : 1 ≤ n)
    (hi : Along (Map.step addr) Spaced m is) :
    outputs addr s is = log (Map.step addr) Map.output m is ∧
      Refines addr (run (Map.step addr) m is) (run (step addr) s is) := by
  induction is generalizing m s with
  | nil => exact ⟨rfl, h⟩
  | cons i is ih =>
    obtain ⟨hout, hnext⟩ := h.step hn hi.1
    obtain ⟨hlog, hrun⟩ := ih hnext hi.2
    refine ⟨?_, hrun⟩
    rw [log_cons, ← hlog]
    show output addr i s :: outputs addr (step addr i s) is = _
    rw [hout]
    rfl

/-! ## Answers -/

/-- What was written last to half-register `k`, or its default. -/
def lastWritten (addr : BitVec 7) (settings : Fin n → Word) (ws : List Word) (k : ℕ) : BitVec 16 :=
  (((ws.filter fun w =>
    isRead w = false ∧ blockAddress w = addr ∧ halfAddress w = k).getLast?).map lo).getD
      (halfOf settings k)

theorem fed_concat (js : List Input) (i : Input) :
    fed (js ++ [i]) = fed js ++ if i.configValidIn then [i.configDataIn] else [] := by
  rw [fed, fed, List.filterMap_append]
  cases hv : i.configValidIn <;> simp [hv]

theorem regs_run (settings : Fin n → Word) (js : List Input) :
    (run (Map.step addr) (Map.initial settings) js).regs =
      (fed js).foldl (writeWord addr) settings := by
  induction js using List.reverseRecOn with
  | nil => rfl
  | append_singleton js i ih =>
    rw [run_concat, fed_concat, List.foldl_append, ← ih, Map.step]
    cases i.configValidIn <;> rfl

theorem respond_blockRead {regs : Fin n → Word} {w : Word} (h : IsBlockRead addr w) :
    respond addr regs w = dump addr regs := by
  rw [respond, if_pos ⟨h.1, h.2.1⟩, if_pos h.2.2]

theorem respond_single {regs : Fin n → Word} {w : Word} (h : ¬IsBlockRead addr w) :
    respond addr regs w = if isRead w = true ∧ blockAddress w = addr ∧ registerInt w < n then
      [readWord w (halfOf regs (halfAddress w))] else [] := by
  unfold respond
  by_cases hr : isRead w = true ∧ blockAddress w = addr
  · rw [if_pos hr, if_neg fun h127 => h ⟨hr.1, hr.2, h127⟩]
    simp only [hr, true_and]
  · rw [if_neg hr, if_neg fun hc => hr ⟨hc.1, hc.2.1⟩]

theorem respond_length (regs : Fin n → Word) (w : Word) :
    (respond addr regs w).length ≤ if IsBlockRead addr w then 2 * n else 1 := by
  by_cases hb : IsBlockRead addr w
  · rw [if_pos hb, respond_blockRead hb, dump_length]
  · rw [if_neg hb, respond_single hb]
    split_ifs <;> simp

/-- Only a running block read has more than one word to put out. -/
theorem answer_length {m : Map n} (h : m.answer.length ≤ max m.busy 1) (hi : Spaced i m) :
    (Map.step addr i m).answer.length ≤ max (Map.step addr i m).busy 1 := by
  have hresp : (respond addr m.regs i.configDataIn).length ≤
      if IsBlockRead addr i.configDataIn then 2 * n else 1 := respond_length m.regs i.configDataIn
  rw [Map.step]
  cases hv : i.configValidIn with
  | false =>
    simp
    omega
  | true =>
    have hbusy := hi hv
    simp only [if_true, true_and, List.length_append, List.length_tail]
    split_ifs at hresp ⊢ <;> omega

theorem answer_run {settings : Fin n → Word} {js : List Input}
    (hi : Along (Map.step addr) Spaced (Map.initial settings) js) :
    (run (Map.step addr) (Map.initial settings) js).answer.length ≤
      max (run (Map.step addr) (Map.initial settings) js).busy 1 :=
  run_invariant (I := fun m => m.answer.length ≤ max m.busy 1) (Map.step addr)
    (by simp [Map.initial]) (fun _ _ hi h => answer_length h hi) hi

/-- Before a word arrives everything has been put out but the answer to a single
    read. -/
theorem answer_step {settings : Fin n → Word} {js : List Input} {i : Input}
    (hi : Along (Map.step addr) Spaced (Map.initial settings) (js ++ [i]))
    (hv : i.configValidIn = true) :
    (run (Map.step addr) (Map.initial settings) (js ++ [i])).answer =
      respond addr ((fed js).foldl (writeWord addr) settings) i.configDataIn := by
  rw [along_concat] at hi
  have hlen := answer_run hi.1
  have hbusy := hi.2 hv
  have htail : (run (Map.step addr) (Map.initial settings) js).answer.tail = [] := by
    apply List.eq_nil_of_length_eq_zero
    rw [List.length_tail]
    omega
  rw [run_concat, Map.step, htail, hv, regs_run]
  rfl

/-- Whatever is still to be put out answers a read of this block that has arrived. -/
def Owed (addr : BitVec 7) (js : List Input) (m : Map n) : Prop :=
  m.answer ≠ [] → ∃ p w, js[p]? = some ⟨w, true⟩ ∧ isRead w = true ∧ blockAddress w = addr ∧
    (registerInt w < n ∧ js.length = p + 1 ∧ m.answer.length = 1 ∨
      registerInt w = 127 ∧ p < js.length ∧ js.length + m.answer.length = p + 1 + 2 * n)

theorem owed_run {settings : Fin n → Word} {js : List Input}
    (hi : Along (Map.step addr) Spaced (Map.initial settings) js) :
    Owed addr js (run (Map.step addr) (Map.initial settings) js) := by
  induction js using List.reverseRecOn with
  | nil => exact fun hne => absurd rfl hne
  | append_singleton js i ih =>
    intro hne
    have hprev := ih ((along_concat _ _ _ _ _).1 hi).1
    cases hv : i.configValidIn with
    | true =>
      have hself : (js ++ [i])[js.length]? = some ⟨i.configDataIn, true⟩ := by
        rw [List.getElem?_concat_length, ← hv]
      rw [answer_step hi hv] at hne ⊢
      refine ⟨js.length, i.configDataIn, hself, ?_⟩
      rw [List.length_append, List.length_singleton]
      by_cases hb : IsBlockRead addr i.configDataIn
      · refine ⟨hb.1, hb.2.1, Or.inr ⟨hb.2.2, by omega, ?_⟩⟩
        rw [respond_blockRead hb, dump_length]
      · rw [respond_single hb] at hne ⊢
        split_ifs at hne ⊢ with hr
        · exact ⟨hr.1, hr.2.1, Or.inl ⟨hr.2.2, rfl, rfl⟩⟩
        · exact absurd rfl hne
    | false =>
      rw [run_concat] at hne ⊢
      have hstep : (Map.step addr i (run (Map.step addr) (Map.initial settings) js)).answer =
          (run (Map.step addr) (Map.initial settings) js).answer.tail := by
        simp [Map.step, hv]
      rw [hstep] at hne ⊢
      have hlen : 2 ≤ (run (Map.step addr) (Map.initial settings) js).answer.length := by
        have := List.length_pos_of_ne_nil hne
        rw [List.length_tail] at this
        omega
      obtain ⟨p, w, hp, hr, ha, hcase⟩ := hprev (List.ne_nil_of_length_pos (by omega))
      have hp' : (js ++ [i])[p]? = some ⟨w, true⟩ := by
        rw [List.getElem?_append_left (List.getElem?_eq_some_iff.1 hp).1, hp]
      refine ⟨p, w, hp', hr, ha, ?_⟩
      rw [List.length_append, List.length_singleton, List.length_tail]
      rcases hcase with ⟨-, -, hone⟩ | ⟨h127, hlt, hsum⟩
      · omega
      · exact Or.inr ⟨h127, by omega, by omega⟩

theorem halfAddress_lt {w : Word} (h : registerInt w < n) : halfAddress w < 2 * n := by
  have := Bool.toNat_lt (isUpper w)
  unfold halfAddress
  omega

/-- In every run from reset in which no word arrives while a block read is
    running: a single read of a register of the block is answered in the next
    cycle, with the value written last to the half-register before it; every
    word put out answers a read of the block, a single read only in this cycle
    and a block read in the cycles that follow it; and a word for another block
    or for a register that is not there changes no register. -/
theorem register_map (hn : 1 ≤ n) (hn' : n ≤ 127) (settings : Fin n → Word) (is : List Input)
    (hi : Along (Map.step addr) Spaced (Map.initial settings) is) :
    (∀ js w d ks, is = js ++ ⟨w, true⟩ :: d :: ks → isRead w = true → blockAddress w = addr →
      registerInt w < n →
        (outputs addr (initial settings) is)[js.length + 1]? =
          some (some (readWord w (lastWritten addr settings (fed js) (halfAddress w))))) ∧
    (∀ q v, (outputs addr (initial settings) is)[q]? = some (some v) →
      ∃ p w, is[p]? = some ⟨w, true⟩ ∧ isRead w = true ∧ blockAddress w = addr ∧
        (registerInt w < n ∧ q = p + 1 ∨ registerInt w = 127 ∧ p < q ∧ q ≤ p + 2 * n)) ∧
    ∀ js w d ks, is = js ++ ⟨w, true⟩ :: d :: ks → (blockAddress w ≠ addr ∨ n ≤ registerInt w) →
      (run (step addr) (initial settings) (js ++ [⟨w, true⟩, d])).configRegistersReg =
        (run (step addr) (initial settings) (js ++ [⟨w, true⟩])).configRegistersReg := by
  obtain ⟨hout, -⟩ := refines_run (refines_initial settings) hn hi
  have hshown : ∀ q, (outputs addr (initial settings) is)[q]? = is[q]?.map fun _ =>
      (run (Map.step addr) (Map.initial settings) (is.take q)).answer.head? := fun q => by
    rw [hout]
    exact log_getElem? (Map.step addr) (fun _ m => m.answer.head?) _ is q
  refine ⟨?_, ?_, ?_⟩
  · rintro js w d ks rfl hr ha hlt
    have hsplit : js ++ ⟨w, true⟩ :: d :: ks = (js ++ [⟨w, true⟩]) ++ d :: ks := by simp
    have hpre : Along (Map.step addr) Spaced (Map.initial settings) (js ++ [⟨w, true⟩]) := by
      rw [hsplit] at hi
      exact hi.of_isPrefix
    have htake : (js ++ ⟨w, true⟩ :: d :: ks).take (js.length + 1) = js ++ [⟨w, true⟩] := by
      rw [hsplit, List.take_left' (by simp)]
    have hnext : (js ++ ⟨w, true⟩ :: d :: ks)[js.length + 1]? = some d := by
      rw [hsplit, List.getElem?_append_right (by simp)]
      simp
    have hanswer : respond addr ((fed js).foldl (writeWord addr) settings) w =
        [readWord w (lastWritten addr settings (fed js) (halfAddress w))] := by
      rw [respond_single fun hb => by have := hb.2.2; omega, if_pos ⟨hr, ha, hlt⟩,
        halfOf_foldl _ _ (halfAddress_lt hlt)]
      rfl
    rw [hshown, hnext, htake, answer_step hpre rfl, hanswer]
    rfl
  · intro q v hq
    rw [hshown, Option.map_eq_some_iff] at hq
    obtain ⟨i, hiq, hhead⟩ := hq
    have hlt : q < is.length := (List.getElem?_eq_some_iff.1 hiq).1
    have hpre : Along (Map.step addr) Spaced (Map.initial settings) (is.take q) := by
      rw [← List.take_append_drop q is] at hi
      exact hi.of_isPrefix
    have hne : (run (Map.step addr) (Map.initial settings) (is.take q)).answer ≠ [] := by
      intro hnil
      rw [hnil] at hhead
      cases hhead
    obtain ⟨p, w, hp, hr, ha, hcase⟩ := owed_run hpre hne
    have hlen : (is.take q).length = q := List.length_take_of_le hlt.le
    have hpos := List.length_pos_of_ne_nil hne
    have hpq : p < q := by
      have := (List.getElem?_eq_some_iff.1 hp).1
      omega
    rw [List.getElem?_take_of_lt hpq] at hp
    rw [hlen] at hcase
    refine ⟨p, w, hp, hr, ha, ?_⟩
    rcases hcase with ⟨hreg, hq, -⟩ | ⟨h127, -, hsum⟩
    · exact Or.inl ⟨hreg, hq⟩
    · exact Or.inr ⟨h127, hpq, by omega⟩
  · rintro js w d ks rfl hw
    have hsplit : js ++ [⟨w, true⟩, d] = (js ++ [⟨w, true⟩]) ++ [d] := by simp
    rw [hsplit, run_concat]
    show (registerWriter addr _).1 = _
    rw [registerWriter_fst, run_concat]
    refine dif_neg fun h => ?_
    rcases hw with hne | hge
    · exact hne h.2.1
    · exact absurd h.2.2 (by show ¬registerInt w < n; omega)

/-- The upper half of register 0 is written and read in the next cycle. -/
theorem register_map_pair :
    (outputs 0x10 pair [⟨0x1001ABCD, true⟩, ⟨0x90010000, true⟩, ⟨0, false⟩])[2]? =
      some (some (readWord 0x90010000 (lastWritten 0x10 ![0x11112222, 0x33334444] [0x1001ABCD]
        (halfAddress 0x90010000)))) :=
  (@register_map 2 0x10 (by decide) (by decide) ![0x11112222, 0x33334444]
    [⟨0x1001ABCD, true⟩, ⟨0x90010000, true⟩, ⟨0, false⟩] (by decide +kernel)).1
      [⟨0x1001ABCD, true⟩] 0x90010000 ⟨0, false⟩ [] rfl (by decide) (by decide) (by decide)

example : readWord 0x90010000 (lastWritten 0x10 (![0x11112222, 0x33334444] : Fin 2 → Word)
    [0x1001ABCD] (halfAddress 0x90010000)) = 0x1001ABCD := by decide

end FpgaEthernet.ConfigRegisterBlock
