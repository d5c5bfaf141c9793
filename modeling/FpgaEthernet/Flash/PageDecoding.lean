import FpgaEthernet.Flash.BusTraffic

/-!
# Decoding a configuration page

A load of a page by `config_data_manager`, with a memory that answers every
request on the output ports with the 64 words at its address, in order, and with
idle cycles in any places. What the lines show in a cycle without a word is
arbitrary.

Main results:

* `Sim.step`: the manager on such a bus goes on as it does beside the memory
  (`loaderStep`).
* `events_run`: after a load the manager raises `config_done`, once.
* `page_decoded`: the words that come out are those of the blocks of the page,
  and then `config_done` is raised.
-/

namespace FpgaEthernet.ConfigDataManager

open Clocked Epcq

variable {f : Flash} {page n g left : ℕ} {i : Input} {s : State} {is : List Input}

/-! ## The bus -/

/-- The manager, the words that the memory has still to deliver, and the number of
    cycles the manager has waited for a word of its last request. -/
structure Bus where
  manager : State
  queue : List Word
  idle : ℕ

/-- One edge of `clock`. The memory answers the request on the output ports. -/
def busStep (f : Flash) (i : Input) (b : Bus) : Bus where
  manager := step i b.manager
  queue := (if i.ethDvalIn then b.queue.tail else b.queue) ++
    if b.manager.epcqReadData then readPage f b.manager.epcqAddress else []
  idle :=
    if b.manager.nextState = .readCpage then 0
    else if Waiting b.manager then b.idle + 1
    else b.idle

/-- A valid word is the next one of the memory, on port EPCQIO. Each request has
    fewer than `g` idle cycles before the last one, and no other load is asked
    for. -/
def Answered (g : ℕ) (i : Input) (b : Bus) : Prop :=
  (i.ethDvalIn = true → i.ethPortIn = udpPortEpcqio ∧ b.queue.head? = some i.ethDataIn) ∧
    (Waiting b.manager → b.idle < g) ∧
    ¬(b.manager.nextState = .idle ∧ i.loadConfig = true)

instance (g : ℕ) (i : Input) (b : Bus) : Decidable (Answered g i b) :=
  inferInstanceAs (Decidable (_ ∧ _ ∧ _))

/-! ## Specification -/

/-- What can be seen on the output ports. -/
inductive Event
  | word (port : UdpPort) (w : Word)
  | done
  deriving DecidableEq

/-- The event of a word and its port. -/
def Event.ofWord (q : UdpPort × Word) : Event := .word q.1 q.2

/-- What the output ports show. -/
def events (i : Input) (s : State) : List Event :=
  (portsOut i s).map Event.ofWord ++ if s.configDone then [.done] else []

/-- The words of a page: block by block, as long as the block lies in the page and
    its first word says that it is one. -/
def decoded (f : Flash) (page : ℕ) : List (UdpPort × Word) :=
  ((List.range 256).takeWhile fun j => decide (IsHeader (blockHeader f page j))).flatMap
    (blockPayload f page)

/-! ## Beside the memory -/

/-- The stimulus of the manager beside the memory that an edge stands for. -/
def stimulus (i : Input) : Stimulus := ⟨i.loadConfig, i.configPage, i.ethDvalIn⟩

/-- The manager on the bus and the manager beside the memory differ at most in
    what the input registers hold when they hold no word. -/
structure Sim (b : Bus) (y : Loader) : Prop where
  only : b.manager.only = y.manager.only
  port : b.manager.dvalInReg = true → b.manager.portInReg = udpPortEpcqio
  port' : y.manager.dvalInReg = true → y.manager.portInReg = udpPortEpcqio
  queue : b.queue = y.queue
  idle : b.manager.nextState = .waitRead ∨ b.manager.nextState = .readData →
    b.idle = b.manager.timer

variable {b : Bus} {y : Loader}

theorem not_intrudes_of_port (h : s.dvalInReg = true → s.portInReg = udpPortEpcqio) :
    ¬Intrudes s := fun hi => hi.2.2.2 (h hi.2.2.1)

theorem only_dvalInReg (h : s.dvalInReg = true → s.portInReg = udpPortEpcqio) :
    s.only.dvalInReg = s.dvalInReg := by
  show (arrived s).isSome = _
  unfold arrived
  cases hv : s.dvalInReg
  · rfl
  · rw [if_pos ⟨rfl, h hv⟩]
    rfl

theorem waiting_only (h : s.dvalInReg = true → s.portInReg = udpPortEpcqio) :
    Waiting s ↔ Waiting s.only := by
  have hv := only_dvalInReg h
  have hwait : s.dvalInReg = true ∧ s.portInReg = udpPortEpcqio ↔
      s.only.dvalInReg = true ∧ s.only.portInReg = udpPortEpcqio := by
    rw [hv]
    exact ⟨fun hw => ⟨hw.1, rfl⟩, fun hw => ⟨hw.1, h hw.1⟩⟩
  rw [Waiting, Waiting, hwait, hv]
  rfl

theorem Sim.waiting (h : Sim b y) : Waiting b.manager ↔ Waiting y.manager := by
  rw [waiting_only h.port, waiting_only h.port', h.only]

/-- The timer counts the idle cycles of a request. -/
theorem stateMachine_timer (hnext : (stateMachine i s).nextState = .waitRead ∨
      (stateMachine i s).nextState = .readData) :
    (s.nextState = .readCpage ∧ (stateMachine i s).timer = 0) ∨
      (s.nextState = .waitRead ∨ s.nextState = .readData) ∧
        (stateMachine i s).timer = s.timer + if Waiting s then 1 else 0 := by
  cases hs : s.nextState with
  | readCpage => simp [stateMachine, hs]
  | waitRead =>
    refine .inr ⟨.inl rfl, ?_⟩
    simp only [stateMachine, hs, Waiting] at hnext ⊢
    split_ifs at hnext ⊢ <;> simp_all [defaults]
  | readData =>
    refine .inr ⟨.inr rfl, ?_⟩
    simp only [stateMachine, hs, Waiting] at hnext ⊢
    split_ifs at hnext ⊢ <;> simp_all [defaults]
  | idle =>
    simp only [stateMachine, hs] at hnext
    split_ifs at hnext <;> simp at hnext
  | resetWait =>
    simp only [stateMachine, hs] at hnext
    split_ifs at hnext <;> simp at hnext
  | hwReset | startConfig | configError | readDone => simp [stateMachine, hs] at hnext

/-- The other registers agree. -/
theorem Sim.congr {α : Type} (h : Sim b y) (r : State → α) (hr : ∀ s, r s.only = r s) :
    r b.manager = r y.manager := by
  rw [← hr, h.only, hr]

theorem Sim.prompt (h : Sim b y) (hi : Answered g i b) : Prompt g (stimulus i) y := by
  obtain ⟨-, hwait, hload⟩ := hi
  have hnext : b.manager.nextState = y.manager.nextState := h.congr State.nextState fun _ => rfl
  have htimer : b.manager.timer = y.manager.timer := h.congr State.timer fun _ => rfl
  constructor
  · intro hw
    have hw' := h.waiting.2 hw
    have hidle := h.idle (hw'.imp And.left And.left)
    rw [← htimer, ← hidle]
    exact hwait hw'
  · rw [← hnext]
    exact hload

/-- On the bus the manager goes on as it does beside the memory. -/
theorem Sim.step (h : Sim b y) (hi : Answered g i b) :
    Sim (busStep f i b) (loaderStep f (stimulus i) y) := by
  obtain ⟨hword, -, -⟩ := hi
  have hqueue := h.queue
  have hread : b.manager.epcqReadData = y.manager.epcqReadData :=
    h.congr State.epcqReadData fun _ => rfl
  have haddr : b.manager.epcqAddress = y.manager.epcqAddress :=
    h.congr State.epcqAddress fun _ => rfl
  have hdval : (managerInput (stimulus i) y).ethDvalIn = i.ethDvalIn := by
    cases hv : i.ethDvalIn
    · simp [managerInput, stimulus, hv]
    · obtain ⟨-, hhead⟩ := hword hv
      have hne : y.queue.isEmpty = false := by
        rw [← hqueue]
        cases hq : b.queue
        · simp [hq] at hhead
        · rfl
      simp [managerInput, stimulus, hv, hne]
  have honly : i.only = (managerInput (stimulus i) y).only := by
    cases hv : i.ethDvalIn
    · have hnone : epcqioWord i = none := if_neg (by simp [hv])
      have hnone' : epcqioWord (managerInput (stimulus i) y) = none := if_neg (by simp [hdval, hv])
      rw [Input.only, Input.only, hnone, hnone']
      rfl
    · obtain ⟨hport, hhead⟩ := hword hv
      have hdata : (managerInput (stimulus i) y).ethDataIn = i.ethDataIn := by
        rw [hqueue] at hhead
        show y.queue.headD 0 = _
        rw [List.headD_eq_head?_getD, hhead]
        rfl
      have hsome : epcqioWord i = some i.ethDataIn := if_pos ⟨hv, hport⟩
      have hsome' : epcqioWord (managerInput (stimulus i) y) = some i.ethDataIn := by
        rw [epcqioWord, if_pos ⟨hdval.trans hv, rfl⟩, hdata]
      rw [Input.only, Input.only, hsome, hsome']
      rfl
  refine ⟨?_, fun hv => (hword hv).1, fun _ => rfl, ?_, fun hnext => ?_⟩
  · rw [busStep, loaderStep, ← step_only (not_intrudes_of_port h.port),
      ← step_only (not_intrudes_of_port h.port'), honly, h.only]
  · rw [busStep, loaderStep, hdval, hqueue, hread, haddr]
  · have hcount := stateMachine_timer (i := i) (s := b.manager) hnext
    show _ = (stateMachine i b.manager).timer
    rw [busStep]
    rcases hcount with ⟨hs, htimer⟩ | ⟨hs, htimer⟩
    · rw [htimer]
      exact if_pos hs
    · have hne : b.manager.nextState ≠ .readCpage := by
        rcases hs with hs | hs <;> simp [hs]
      have hidle := h.idle hs
      rw [htimer, if_neg hne, hidle]
      split_ifs <;> rfl

theorem Sim.run (h : Sim b y) (hR : Along (busStep f) (Answered g) b is) :
    Along (loaderStep f) (Prompt g) y (is.map stimulus) ∧
      log (busStep f) (fun i b => events i b.manager) b is =
        log (loaderStep f) (fun x y => events (managerInput x y) y.manager) y
          (is.map stimulus) := by
  induction is generalizing b y with
  | nil => exact ⟨trivial, rfl⟩
  | cons i is ih =>
    obtain ⟨hprompt, hlog⟩ := ih (h.step hR.1) hR.2
    have hevents : events i b.manager = events (managerInput (stimulus i) y) y.manager := by
      have hv : b.manager.ethDvalOut = y.manager.ethDvalOut := h.congr State.ethDvalOut fun _ => rfl
      have hp : b.manager.ethPortOut = y.manager.ethPortOut := h.congr State.ethPortOut fun _ => rfl
      have hd : b.manager.ethDataOut = y.manager.ethDataOut := h.congr State.ethDataOut fun _ => rfl
      have hc : b.manager.configDone = y.manager.configDone := h.congr State.configDone fun _ => rfl
      rw [events, events, portsOut, portsOut, hv, hp, hd, hc]
    rw [List.map_cons, along_cons, log_cons, log_cons, hevents, hlog]
    exact ⟨⟨h.prompt hR.1, hprompt⟩, rfl⟩

/-! ## Events -/

/-- What the output ports show after the next edge. -/
def upcoming (s : State) : List Event :=
  (outgoing s).map Event.ofWord ++ if s.nextState = .readDone then [.done] else []

theorem events_step (i j : Input) (s : State) : events j (step i s) = upcoming s := by
  have hdone : (step i s).configDone = decide (s.nextState = .readDone) := by
    show (stateMachine i s).configDone = _
    unfold stateMachine
    cases hs : s.nextState with
    | waitRead | readData => dsimp only; split_ifs <;> rfl
    | idle | hwReset | resetWait | startConfig | readCpage | configError | readDone => rfl
  have hports : portsOut j (step i s) = outgoing s := rfl
  rw [events, hports, hdone, upcoming]
  simp only [decide_eq_true_eq]

/-- The manager comes to `IDLE` from the end of a load or from an error. -/
theorem idle_of_step (h : (stateMachine i s).nextState = .idle) :
    s.nextState = .idle ∨ s.nextState = .readDone ∨ s.nextState = .configError := by
  unfold stateMachine at h
  cases hs : s.nextState with
  | idle => exact .inl rfl
  | readDone => exact .inr (.inl rfl)
  | configError => exact .inr (.inr rfl)
  | resetWait | waitRead =>
    simp only [hs] at h
    split_ifs at h
  | readData =>
    simp only [hs] at h
    split_ifs at h <;> cases hs.symm.trans h
  | hwReset | startConfig | readCpage =>
    simp only [hs] at h
    cases h

theorem Loading.ne_configError {left : ℕ} {total : List (UdpPort × Word)}
    (h : Loading f page n g left total y) : y.manager.nextState ≠ .configError := by
  cases h with
  | start hs _ => simp [hs.nextState]
  | request _ _ _ hs | wait _ _ _ hs | data _ _ _ _ hs | done hs | idle hs => simp [hs]

theorem Loading.dvalOutReg_of_idle {left : ℕ} {total : List (UdpPort × Word)}
    (h : Loading f page n g left total y) (hs : y.manager.nextState = .idle) :
    y.manager.dvalOutReg = false := by
  cases h with
  | start hs' _ => cases hs'.nextState.symm.trans hs
  | request _ _ _ hs' | wait _ _ _ hs' | data _ _ _ _ hs' | done hs' => cases hs'.symm.trans hs
  | idle _ ho => exact ho

/-- In `IDLE` nothing comes out. -/
theorem idle_run {xs : List Stimulus} (hs : y.manager.nextState = .idle)
    (ho : y.manager.dvalOutReg = false) (hR : Along (loaderStep f) (Prompt g) y xs) :
    (run (loaderStep f) y xs).manager.nextState = .idle ∧
      log (loaderStep f) forwarded y xs = [] ∧
      log (loaderStep f) (fun _ y => upcoming y.manager) y xs = [] := by
  induction xs generalizing y with
  | nil => exact ⟨hs, rfl, rfl⟩
  | cons x xs ih =>
    obtain ⟨hs', ho'⟩ := idle_step hR.1 hs
    obtain ⟨hrun, hwords, hevents⟩ := ih hs' ho' hR.2
    have hout := outgoing_of_not ho
    rw [log_cons, log_cons, hwords, hevents, run_cons, upcoming, hs]
    refine ⟨hrun, ?_, ?_⟩
    · exact (List.append_nil _).trans hout
    · rw [hout]
      rfl

/-- A load that comes to its end raises `config_done` once, after its words. -/
theorem Loading.events_run {l : List (UdpPort × Word)} {xs : List Stimulus}
    (hpage : Holds f page n) (hg : g ≤ epcqTimeout)
    (h : Loading f page n g left (l ++ outgoing y.manager) y)
    (hne : y.manager.nextState ≠ .idle) (hR : Along (loaderStep f) (Prompt g) y xs)
    (hend : (Clocked.run (loaderStep f) y xs).manager.nextState = .idle) :
    log (loaderStep f) (fun _ y => upcoming y.manager) y xs =
      (log (loaderStep f) forwarded y xs).map Event.ofWord ++ [.done] := by
  induction xs generalizing l left y with
  | nil => exact absurd hend hne
  | cons x xs ih =>
    have hnext := h.step hpage hg hR.1
    have hout : forwarded x y = outgoing y.manager := rfl
    rw [log_cons, log_cons, List.map_append, upcoming, hout]
    by_cases hs : (loaderStep f x y).manager.nextState = .idle
    · -- the load has come to its end
      have hdone : y.manager.nextState = .readDone := by
        rcases idle_of_step hs with hidle | hdone | herr
        · exact absurd hidle hne
        · exact hdone
        · exact absurd herr h.ne_configError
      obtain ⟨-, hwords, hevents⟩ := idle_run hs (hnext.dvalOutReg_of_idle hs) hR.2
      rw [hwords, hevents, if_pos hdone]
      simp
    · have hdone : y.manager.nextState ≠ .readDone := by
        intro hdone
        apply hs
        show (stateMachine _ _).nextState = _
        simp only [stateMachine, hdone]
      rw [if_neg hdone, List.append_nil, ih hnext hs hR.2 hend, List.append_assoc]

/-- The output ports are one edge behind. -/
theorem log_events (xs : List Stimulus) :
    log (loaderStep f) (fun x y => events (managerInput x y) y.manager) y xs ++
        events i (run (loaderStep f) y xs).manager =
      events i y.manager ++ log (loaderStep f) (fun _ y => upcoming y.manager) y xs := by
  induction xs generalizing y with
  | nil => exact (List.append_nil _).symm
  | cons x xs ih =>
    have hstep : events i (loaderStep f x y).manager = upcoming y.manager := events_step _ _ _
    rw [log_cons, log_cons, run_cons, List.append_assoc, ih, hstep]
    rfl

/-! ## Blocks -/

/-- The number of blocks in a page: the first place without a header. -/
def blockCount (f : Flash) (page : ℕ) : ℕ :=
  (List.range 256).findIdx fun j => !decide (IsHeader (blockHeader f page j))

theorem blockCount_le : blockCount f page ≤ 256 :=
  List.findIdx_le_length.trans_eq List.length_range

theorem holds_blockCount (hpage : page < 10) : Holds f page (blockCount f page) where
  page_lt := hpage
  headers := by
    intro j hj
    have h := List.not_of_lt_findIdx hj
    rw [List.getElem_range] at h
    simpa using h
  last := by
    have hle : blockCount f page ≤ 256 := blockCount_le
    rcases Nat.eq_or_lt_of_le hle with h256 | hlt
    · exact .inl h256
    · have h := List.findIdx_of_getElem?_eq_some (List.getElem?_range hlt)
      exact .inr ⟨hlt, by simpa [blockCount] using h⟩

/-- A load, as it shows on the output ports. -/
theorem load_events {xs : List Stimulus} (hpage : page < 10) (hg : g ≤ epcqTimeout)
    (hs : Starts f page y) (hev : events i y.manager = [])
    (hR : Along (loaderStep f) (Prompt g) y xs)
    (hlen : (blockCount f page + 1) * (g + 66) + 3 ≤ xs.length) :
    log (loaderStep f) (fun x y => events (managerInput x y) y.manager) y xs =
      (blocksPayload f page (blockCount f page)).map Event.ofWord ++ [.done] := by
  -- the output ports are one edge behind
  rcases List.eq_nil_or_concat' xs with rfl | ⟨xs, x, rfl⟩
  · simp at hlen
  rw [List.length_append, List.length_singleton] at hlen
  rw [along_concat] at hR
  obtain ⟨hidle, hout, hwords⟩ := load_run (holds_blockCount hpage) hg hs hR.1 (by omega)
  have hstart : Loading f page (blockCount f page) g
      ((blockCount f page + 1) * (g + 66) + 2) ([] ++ outgoing y.manager) y := by
    rw [outgoing_of_not hs.dvalOutReg]
    exact .start hs le_rfl
  have hne : y.manager.nextState ≠ .idle := by simp [hs.nextState]
  have hevents := hstart.events_run (holds_blockCount hpage) hg hne hR.1 hidle
  have hlast : upcoming (Clocked.run (loaderStep f) y xs).manager = [] := by
    rw [upcoming, outgoing_of_not hout, hidle]
    rfl
  have hports := log_events (f := f) (y := y) (i := i) (xs ++ [x])
  have hend : events i (loaderStep f x (Clocked.run (loaderStep f) y xs)).manager = [] :=
    (events_step _ _ _).trans hlast
  have hcat : log (loaderStep f) (fun _ y => upcoming y.manager) y (xs ++ [x]) =
      log (loaderStep f) (fun _ y => upcoming y.manager) y xs := by
    rw [log_concat, hlast, List.append_nil]
  rw [run_concat, hend, hev, hcat, hevents, hwords, List.append_nil, List.nil_append] at hports
  exact hports

theorem decoded_eq : decoded f page = blocksPayload f page (blockCount f page) := by
  rw [decoded, blocksPayload, List.takeWhile_eq_take_findIdx_not, List.take_range]
  congr 2
  exact Nat.min_eq_left blockCount_le

/-! ## A load -/

/-- What the registers are like when they are not busy with a word or a request. -/
structure Settled (s : State) : Prop where
  dval : s.nextState = .idle ∨ s.nextState = .readDone ∨ s.nextState = .configError →
    s.dvalOutReg = false ∧ s.epcqReadDataReg = false
  read : s.nextState = .idle → s.epcqReadData = false

theorem Settled.step (h : Settled s) (i : Input) : Settled (ConfigDataManager.step i s) := by
  have hread : (stateMachine i s).epcqReadDataReg = decide (s.nextState = .readCpage) :=
    (stateMachine_read i s).1
  have hdval : (stateMachine i s).dvalOutReg = true →
      (stateMachine i s).nextState = .readData ∧ s.nextState = .readData := by
    unfold stateMachine
    cases hs : s.nextState with
    | readData =>
      dsimp only
      split_ifs <;> simp [defaults, hs]
    | waitRead =>
      dsimp only
      split_ifs <;> simp [defaults]
    | idle | hwReset | resetWait | startConfig | readCpage | configError | readDone =>
      simp [defaults]
  constructor
  · intro hnext
    have hnext : (stateMachine i s).nextState = .idle ∨ (stateMachine i s).nextState = .readDone ∨
        (stateMachine i s).nextState = .configError := hnext
    constructor
    · by_contra hd
      obtain ⟨hn, -⟩ := hdval (by simpa [ConfigDataManager.step] using hd)
      rw [hn] at hnext
      simp at hnext
    · show (stateMachine i s).epcqReadDataReg = false
      rw [hread]
      apply decide_eq_false
      intro hs
      simp [stateMachine, hs] at hnext
  · intro hnext
    exact (h.dval (idle_of_step hnext)).2

theorem settled_run (js : List Input) : Settled (run step reset js) := by
  induction js using List.reverseRecOn with
  | nil => exact ⟨by simp [reset], by simp [reset]⟩
  | append_singleton js i ih =>
    rw [run_concat]
    exact ih.step i

/-- A load that is asked for in `IDLE`, when the answers to earlier requests have
    all been delivered, puts out the words of the blocks of the page, and then
    raises `config_done` once. -/
theorem page_decoded {js : List Input} (hpage : i.configPage.toNat < 10)
    (hs : (run step reset js).nextState = .idle)
    (hload : i.loadConfig = true) (hi : i.ethDvalIn = false) (hg : g ≤ epcqTimeout)
    (hR : Along (busStep f) (Answered g) (busStep f i ⟨run step reset js, [], 0⟩) is)
    (hlen : (blockCount f i.configPage.toNat + 1) * (g + 66) + 3 ≤ is.length) :
    log (busStep f) (fun j b => events j b.manager) (busStep f i ⟨run step reset js, [], 0⟩) is =
      (decoded f i.configPage.toNat).map Event.ofWord ++ [.done] := by
  have hsettled := settled_run js
  generalize run step reset js = s at *
  obtain ⟨hout, hreg⟩ := hsettled.dval (.inl hs)
  have hread := hsettled.read hs
  have hstep : stateMachine i s = { defaults s with
      configBusy := false
      timer := 0
      configPageReg := i.configPage.toNat
      nextState := .startConfig
      portOutReg := 0 } := by
    simp [stateMachine, hs, hload]
  have hstart : Starts f i.configPage.toNat ⟨step i s, []⟩ := by
    refine ⟨?_, ?_, ?_, ?_⟩
    · show (stateMachine i s).nextState = _
      rw [hstep]
    · show (stateMachine i s).configPageReg = _
      rw [hstep]
    · show (stateMachine i s).dvalOutReg = _
      rw [hstep]
      rfl
    · have hreq : (stateMachine i s).epcqReadDataReg = false := by
        rw [hstep]
        rfl
      simp [pending, step, hi, hreg, hreq]
  have hsim : Sim (busStep f i ⟨s, [], 0⟩) ⟨step i s, []⟩ := by
    refine ⟨rfl, ?_, ?_, ?_, ?_⟩
    · intro hv
      exact absurd (hi.symm.trans hv) Bool.false_ne_true
    · intro hv
      exact absurd (hi.symm.trans hv) Bool.false_ne_true
    · simp [busStep, hi, hread]
    · intro hw
      have hw : (stateMachine i s).nextState = _ ∨ (stateMachine i s).nextState = _ := hw
      rw [hstep] at hw
      rcases hw with hw | hw <;> cases hw
  obtain ⟨hprompt, hlog⟩ := hsim.run hR
  have hev : events i (step i s) = [] := by
    rw [events_step, upcoming, outgoing_of_not hout, hs]
    rfl
  rw [hlog, decoded_eq]
  exact load_events hpage hg hstart hev hprompt (by rwa [List.length_map])

/-- A memory that is erased but for a block of three words in page 3. -/
def oneBlock : Flash := fun a =>
  if a = 0x7E4000 then 0xCD031042 else if a = 0x7E4001 then 7 else if a = 0x7E4002 then 8
  else BitVec.allOnes 32

/-- A page in consecutive cycles. -/
def pageWordsAt (addr : BitVec 32) : List Input :=
  (readPage oneBlock addr).map (busWord udpPortEpcqio)

/-- The load of page 0 after reset finds nothing; then page 3 is loaded. -/
theorem page_decoded_oneBlock : log (busStep oneBlock) (fun j b => events j b.manager)
    (busStep oneBlock { quiet with loadConfig := true, configPage := 3 } ⟨run step reset
      (powerUp ++ ([quiet, quiet] ++ pageWordsAt 0x01F60000 ++ [quiet])), [], 0⟩)
    (List.replicate 4 quiet ++ pageWordsAt 0x01F90000 ++ List.replicate 5 quiet ++
      pageWordsAt 0x01F90100 ++ List.replicate 10 quiet) =
    [.word 0x1042 7, .word 0x1042 8, .done] := by
  have hjs : run step reset (powerUp ++ ([quiet, quiet] ++ pageWordsAt 0x01F60000 ++ [quiet])) =
      run step started ([quiet, quiet] ++ pageWordsAt 0x01F60000 ++ [quiet]) := by
    rw [run_append, run_powerUp.1]
  have hdecoded : (decoded oneBlock 3).map Event.ofWord ++ [.done] =
      [.word 0x1042 7, .word 0x1042 8, .done] := by
    decide +kernel
  rw [← hdecoded]
  apply page_decoded (g := 6) (i := { quiet with loadConfig := true, configPage := 3 })
  · decide
  · rw [hjs]
    decide +kernel
  · rfl
  · rfl
  · decide
  · rw [hjs]
    decide +kernel
  · decide +kernel

end FpgaEthernet.ConfigDataManager
