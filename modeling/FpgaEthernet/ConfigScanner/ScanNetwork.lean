import FpgaEthernet.Clocked.Delay
import FpgaEthernet.CommonModules.ConfigRegisterBlock
import FpgaEthernet.ConfigScanner.ConfigBlockScanner

/-!
# The configuration blocks behind the scanner

`config_block_scanner` with a family of blocks: the words of the scanner go to
all blocks, what the blocks put out comes back through
`config_scanner/config_read_multiplexer.vhd`. There may be registers on the way
to and from every block, and between the multiplexer and the scanner. No one
else sends configuration words.

Main results:

* `Line.Shows.clock`: what a block and the registers around it show `c` edges
  after it was, or was not, asked for all its words.
* `Fabric.step`: the same for the whole family: the words of the block that was
  asked reach the scanner in consecutive cycles, and nothing else does.
-/

namespace FpgaEthernet.ConfigScan

open Clocked ConfigRegisterBlock ConfigBlockScanner

/-! ## Model -/

/-- A data signal and its valid signal. -/
structure ConfigBus where
  data : Word
  valid : Bool
  deriving DecidableEq

namespace ConfigBus

/-- The word, if it is valid. -/
def shown (b : ConfigBus) : Option Word := if b.valid then some b.data else none

/-- The word, if it is valid and for the block `addr`. -/
def meant (addr : BitVec 7) (b : ConfigBus) : Option Word :=
  if b.valid = true ∧ blockAddress b.data = addr then some b.data else none

/-- No word, or one that asks a block for its registers. -/
def OnlyReads (b : ConfigBus) : Prop := b.valid = true → isRead b.data = true

def idle : ConfigBus := ⟨0, false⟩

end ConfigBus

open ConfigBus

/-- `multiplexer` (`config_read_multiplexer.vhd` lines 57-70): of several valid
    lines the last one is taken. -/
def multiplexer {N : ℕ} (lines : Fin N → ConfigBus) (out : ConfigBus) : ConfigBus :=
  let o := (List.finRange N).foldl
    (fun o I => if (lines I).valid then ⟨(lines I).data, true⟩ else o) out
  if ∀ I, (lines I).valid = false then { o with valid := false } else o

/-- A block of `n` registers, with `r` registers before it and `p` behind it. -/
structure Line (n r p : ℕ) where
  request : Delay ConfigBus r
  block : ConfigRegisterBlock.State n
  reply : Delay ConfigBus p

namespace Line

variable {n r p : ℕ}

/-- `config_data_in` and `config_valid_in` of the block. -/
def blockIn (l : Line n r p) (bus : ConfigBus) : ConfigBus := l.request.out bus

/-- `config_data_out` and `config_valid_out` of the block. -/
def blockOut (l : Line n r p) : ConfigBus :=
  ⟨l.block.reader.configDataOut, l.block.reader.configValidOut⟩

/-- What the line shows the multiplexer. -/
def out (l : Line n r p) : ConfigBus := l.reply.out l.blockOut

/-- One edge of `clock`. -/
def clock (addr : BitVec 7) (bus : ConfigBus) (l : Line n r p) : Line n r p where
  request := l.request.clock bus
  block := ConfigRegisterBlock.step addr ⟨(l.blockIn bus).data, (l.blockIn bus).valid⟩ l.block
  reply := l.reply.clock l.blockOut

end Line

/-- A family of blocks with 1 to 127 registers and addresses of their own, so
    near that the first word of each is in the input register of the scanner in
    the last cycle of `WAIT_BLOCK` or before. -/
structure Network (N : ℕ) where
  address : Fin N → BitVec 7
  size : Fin N → ℕ
  request : Fin N → ℕ
  reply : Fin N → ℕ
  back : ℕ
  address_injective : Function.Injective address
  one_le_size : ∀ b, 1 ≤ size b
  size_le : ∀ b, size b ≤ 127
  near : ∀ b, request b + reply b + back + 6 ≤ maxTimer + 1

variable {N : ℕ} {net : Network N}

/-- The registers of all blocks. -/
abbrev Contents (net : Network N) := (b : Fin N) → Fin (net.size b) → Word

/-- The scanner, the blocks and the multiplexer. -/
structure System (net : Network N) where
  scanner : ConfigBlockScanner.State
  lines : (b : Fin N) → Line (net.size b) (net.request b) (net.reply b)
  mux : ConfigBus
  back : Delay ConfigBus net.back

/-- The input ports of the scanner apart from those of the configuration bus. -/
structure External where
  udpReady : Bool
  startScanBlocks : Bool
  startScanSingle : Bool
  startBlockAddress : BitVec 7
  deriving DecidableEq

/-- `config_data_out` and `config_valid_out` of the scanner. -/
def scannerOut (s : ConfigBlockScanner.State) : ConfigBus := ⟨s.configDataOut, s.configValidOut⟩

/-- The registers before `scannerOut`. -/
def scannerOutReg (s : ConfigBlockScanner.State) : ConfigBus :=
  ⟨s.configDataOutReg, s.configValidOutReg⟩

/-- The input registers of the scanner. -/
def scannerInReg (s : ConfigBlockScanner.State) : ConfigBus :=
  ⟨s.configDataInReg, s.configValidInReg⟩

/-- What the scanner sees at an edge. -/
def System.inputs (x : External) (y : System net) : ConfigBlockScanner.Input where
  configDataIn := (y.back.out y.mux).data
  configValidIn := (y.back.out y.mux).valid
  udpReady := x.udpReady
  startScanBlocks := x.startScanBlocks
  startScanSingle := x.startScanSingle
  startBlockAddress := x.startBlockAddress

/-- One edge of `clock`. -/
def step (x : External) (y : System net) : System net where
  scanner := ConfigBlockScanner.step (y.inputs x) y.scanner
  lines b := (y.lines b).clock (net.address b) (scannerOut y.scanner)
  mux := multiplexer (fun b => (y.lines b).out) y.mux
  back := y.back.clock y.mux

/-- The registers when `reset` is released, with the given settings. -/
def initial (A : Contents net) : System net where
  scanner := ConfigBlockScanner.initial
  lines b := {
    request := .const .idle
    block := ConfigRegisterBlock.initial (A b)
    reply := .const .idle }
  mux := .idle
  back := .const .idle

/-! ## The multiplexer -/

theorem shown_eq_none {b : ConfigBus} : b.shown = none ↔ b.valid = false := by
  cases h : b.valid <;> simp [shown, h]

theorem foldl_lines {lines : Fin N → ConfigBus} {b : Fin N} {l : List (Fin N)}
    (h : ∀ I ∈ l, I ≠ b → (lines I).valid = false) (o : ConfigBus) :
    l.foldl (fun o I => if (lines I).valid then ⟨(lines I).data, true⟩ else o) o =
      if b ∈ l ∧ (lines b).valid = true then ⟨(lines b).data, true⟩ else o := by
  induction l generalizing o with
  | nil => simp
  | cons I l ih =>
    rw [List.foldl_cons, ih fun J hJ => h J (List.mem_cons_of_mem I hJ)]
    by_cases hI : I = b
    · subst hI
      by_cases hv : (lines I).valid = true <;> simp [hv]
    · simp [h I List.mem_cons_self hI, Ne.symm hI]

/-- One line that may be valid is passed on. -/
theorem shown_multiplexer {lines : Fin N → ConfigBus} {b : Fin N}
    (h : ∀ I, I ≠ b → (lines I).shown = none) (o : ConfigBus) :
    (multiplexer lines o).shown = (lines b).shown := by
  have hl : ∀ I, I ≠ b → (lines I).valid = false := fun I hI => shown_eq_none.1 (h I hI)
  unfold multiplexer
  rw [foldl_lines (b := b) (l := List.finRange N) fun I _ => hl I]
  by_cases hv : (lines b).valid = true
  · have hall : ¬∀ I, (lines I).valid = false := fun ha => by simp [ha b] at hv
    simp [hv, hall, shown]
  · have hall : ∀ I, (lines I).valid = false := fun I => by
      by_cases hI : I = b
      · simpa [hI] using hv
      · exact hl I hI
    simp [hall, shown]

/-- Without a valid line nothing is passed on. -/
theorem shown_multiplexer_none {lines : Fin N → ConfigBus} (h : ∀ I, (lines I).shown = none)
    (o : ConfigBus) : (multiplexer lines o).shown = none := by
  have hall : ∀ I, (lines I).valid = false := fun I => shown_eq_none.1 (h I)
  simp [multiplexer, hall, shown]

/-! ## One block -/

theorem isBlockRead_readRequest (addr : BitVec 7) : IsBlockRead addr (readRequest addr) := by
  have hbit : ∀ j, (readRequest addr).getLsbD j =
      if j < 16 then false
      else if j < 24 then true
      else if j < 31 then addr.getLsbD (j - 24)
      else decide (j = 31) := by
    intro j
    show (1#1 ++ addr ++ (0xFF : BitVec 8) ++ (0 : BitVec 16) :
      BitVec (1 + 7 + 8 + 16)).getLsbD j = _
    simp only [BitVec.getLsbD_append]
    by_cases h16 : j < 16
    · simp [h16]
    by_cases h24 : j < 24
    · have hones : ∀ k < 8, (0xFF : BitVec 8).getLsbD k = true := by decide
      have hlt : j - 16 < 8 := by omega
      simp only [h16, h24, hlt, if_true, if_false, hones _ hlt]
    by_cases h31 : j < 31
    · simp [h16, h24, h31, show ¬j - 16 < 8 by omega, show j - 24 < 7 by omega,
        show j - 16 - 8 = j - 24 by omega]
    · simp [h16, h24, h31, show ¬j - 16 < 8 by omega, show ¬j - 16 - 8 < 7 by omega]
      omega
  refine ⟨hbit 31, ?_, ?_⟩
  · apply BitVec.eq_of_getLsbD_eq
    intro j hj
    rw [blockAddress, BitVec.getLsbD_extractLsb', hbit]
    simp [hj, show ¬24 + j < 16 by omega, show 24 + j < 31 by omega]
  · have hreg : (readRequest addr).extractLsb' 17 7 = BitVec.allOnes 7 := by
      apply BitVec.eq_of_getLsbD_eq
      intro j hj
      rw [BitVec.getLsbD_extractLsb', hbit, BitVec.getLsbD_allOnes, if_neg (by omega),
        if_pos (by omega), Bool.and_true]
    rw [registerInt, hreg]
    rfl

theorem meant_of_ne {addr : BitVec 7} {b : ConfigBus} (h : b.meant addr = none) :
    b.valid = true → blockAddress b.data ≠ addr := by
  intro hv ha
  simp [meant, hv, ha] at h

theorem meant_eq_some {addr : BitVec 7} {b : ConfigBus} {w : Word} (h : b.meant addr = some w) :
    b.valid = true ∧ b.data = w := by
  unfold meant at h
  split_ifs at h with hc
  exact ⟨hc.1, Option.some.inj h⟩

namespace Line

variable {n r p : ℕ} {l : Line n r p} {addr : BitVec 7} {A : Fin n → Word} {ask : Bool}
  {c : ℕ} {bus : ConfigBus}

/-- The request a block gets if it is asked. -/
def requests (addr : BitVec 7) (ask : Bool) : List Word := if ask then [readRequest addr] else []

/-- The words it answers with. -/
def replies (addr : BitVec 7) (A : Fin n → Word) (ask : Bool) : List Word :=
  if ask then dump addr A else []

/-- The input register of the block. -/
def blockInReg (l : Line n r p) : ConfigBus := ⟨l.block.configDataInReg, l.block.configValidInReg⟩

/-- What stands in the line `c` edges after the scanner was about to ask the
    block; or for any `c` if the block was not asked. The registers of the
    block are `A`. -/
structure Shows (addr : BitVec 7) (A : Fin n → Word) (ask : Bool) (c : ℕ) (l : Line n r p) :
    Prop where
  reads : ∀ j, (l.request j).OnlyReads
  request : l.request.Carries (meant addr) none (burst 2 (requests addr ask)) c
  keeps : Keeps addr A l.block
  reg : l.blockInReg.meant addr = burst (r + 3) (requests addr ask) c
  reader : if ask = true ∧ r + 3 < c ∧ c ≤ r + 3 + 2 * n then Dumping (c - (r + 3)) l.block
    else l.block.reader.blockReadIndex = 0
  block : l.blockOut.shown = burst (r + 4) (replies addr A ask) c
  reply : l.reply.Carries shown none (burst (r + 4) (replies addr A ask)) c

/-- What the line shows the multiplexer. -/
theorem Shows.out (h : Shows addr A ask c l) :
    l.out.shown = burst (r + p + 4) (replies addr A ask) c := by
  unfold Line.out
  rw [h.reply.out h.block]
  show late p none (burst (r + 4) _) c = _
  rw [late_burst, show p + (r + 4) = r + p + 4 by omega]

/-- What the reader of the block does with the request, and without it. -/
theorem Shows.reader_step (h : Shows addr A ask c l) (hn : 1 ≤ n) (i : ConfigRegisterBlock.Input) :
    (if ask = true ∧ r + 3 < c + 1 ∧ c + 1 ≤ r + 3 + 2 * n then
        Dumping (c + 1 - (r + 3)) (ConfigRegisterBlock.step addr i l.block)
      else (ConfigRegisterBlock.step addr i l.block).reader.blockReadIndex = 0) ∧
      output addr i l.block = burst (r + 4) (replies addr A ask) (c + 1) := by
  have hreader := h.reader
  have hreg := h.reg
  have hlen : (dump addr A).length = 2 * n := by simp [dump]
  have hword : ∀ k < 2 * n, (dump addr A)[k]? = some (dumpWord addr A k) := fun k hk => by
    simp [dump, hk]
  by_cases hask : ask = true
  · rw [requests, if_pos hask] at hreg
    rw [replies, if_pos hask, burst_succ]
    rcases lt_trichotomy c (r + 3) with hc | hc | hc
    · -- the request is still on its way
      rw [if_neg (by omega)] at hreader
      rw [if_neg (by omega), burst_of_lt hc]
      exact silent_step hn hreader (meant_of_ne (hreg.trans (burst_of_lt hc)))
    · -- the request is in the input register
      subst hc
      rw [if_neg (by omega)] at hreader
      rw [if_pos ⟨hask, by omega, by omega⟩, show r + 3 + 1 - (r + 3) = 1 by omega]
      have hreq : l.blockInReg.meant addr = some (readRequest addr) := by
        rw [hreg]
        exact burst_start
      obtain ⟨hv, hd⟩ := meant_eq_some hreq
      have hr : IsBlockRead addr l.block.configDataInReg := by
        rw [show l.block.configDataInReg = readRequest addr from hd]
        exact isBlockRead_readRequest addr
      obtain ⟨h1, h2⟩ := dump_start (i := i) hv hr hreader
      refine ⟨h1, h2.trans ?_⟩
      rw [h.keeps.regs, burst_start, hword 0 (by omega)]
    · -- the words are put out
      rcases lt_trichotomy c (r + 3 + 2 * n) with hlt | hend | hgt
      · rw [if_pos ⟨hask, hc, hlt.le⟩] at hreader
        rw [if_pos ⟨hask, by omega, by omega⟩, show c + 1 - (r + 3) = c - (r + 3) + 1 by omega]
        obtain ⟨h1, h2⟩ := hreader.step (i := i) (by omega) (by omega)
        refine ⟨h1, h2.trans ?_⟩
        obtain ⟨k, rfl⟩ := Nat.exists_eq_add_of_le hc.le
        rw [burst_add, h.keeps.regs, hword k (by omega), show r + 3 + k - (r + 3) = k by omega]
      · subst hend
        rw [if_pos ⟨hask, by omega, le_rfl⟩, show r + 3 + 2 * n - (r + 3) = 2 * n by omega]
          at hreader
        rw [if_neg (by omega), burst_of_le (by omega)]
        exact hreader.finish hn
      · rw [if_neg (by omega)] at hreader
        rw [if_neg (by omega), burst_of_le (by omega)]
        refine silent_step hn hreader
          (meant_of_ne (b := l.blockInReg) (hreg.trans (burst_of_le ?_)))
        simp only [List.length_singleton]
        omega
  · have hf : ask = false := by simpa using hask
    rw [if_neg fun hc => hask hc.1] at hreader
    rw [if_neg fun hc => hask hc.1, replies, if_neg hask, burst_nil]
    refine silent_step hn hreader (meant_of_ne (b := l.blockInReg) ?_)
    rw [hreg, requests, if_neg hask, burst_nil]

/-- One edge, with the request at the input if the block is asked. -/
theorem Shows.clock (h : Shows addr A ask c l) (hn : 1 ≤ n) (hreads : bus.OnlyReads)
    (hbus : bus.meant addr = burst 2 (requests addr ask) c) :
    Shows addr A ask (c + 1) (l.clock addr bus) := by
  obtain ⟨hreader, hout⟩ := h.reader_step hn ⟨(l.blockIn bus).data, (l.blockIn bus).valid⟩
  exact {
    reads := Delay.forall_clock h.reads hreads
    request := h.request.clock hbus
    keeps := h.keeps.step fun hv => .inl (Delay.forall_out h.reads hreads hv)
    reg := by
      rw [show r + 3 = r + 2 + 1 from rfl, burst_succ]
      show (l.request.out bus).meant addr = _
      rw [h.request.out hbus, late_burst]
    reader := hreader
    block := hout
    reply := h.reply.clock h.block }

/-- The block is not asked, or has not been asked yet, or has answered. -/
def Over (n r p : ℕ) (ask : Bool) (c : ℕ) : Prop :=
  ask = true → c = 0 ∨ r + p + 4 + 2 * n ≤ c

theorem Over.requests {j : ℕ} (h : Over n r p ask c) (hj : j ≤ r + 1) :
    burst (2 + j) (requests addr ask) c = none := by
  unfold Line.requests
  split_ifs with hask
  · rcases h hask with rfl | hc
    · exact burst_of_lt (by omega)
    · exact burst_of_le (by simp only [List.length_singleton]; omega)
  · exact burst_nil ..

theorem Over.replies {j : ℕ} (h : Over n r p ask c) (hj : j ≤ p) :
    burst (r + 4 + j) (replies addr A ask) c = none := by
  unfold Line.replies
  split_ifs with hask
  · have hlen : (dump addr A).length = 2 * n := by simp [dump]
    rcases h hask with rfl | hc
    · exact burst_of_lt (by omega)
    · exact burst_of_le (by omega)
  · exact burst_nil ..

/-- Before a block is asked and after it has answered the line is the same. -/
theorem Shows.over {ask' : Bool} {e : ℕ} (h : Shows addr A ask c l) (ho : Over n r p ask c)
    (ho' : Over n r p ask' e) : Shows addr A ask' e l where
  reads := h.reads
  request := h.request.congr fun j hj => by
    rw [late_burst, late_burst, Nat.add_comm, ho.requests (by omega), ho'.requests (by omega)]
  keeps := h.keeps
  reg := by
    rw [h.reg, show r + 3 = 2 + (r + 1) by omega, ho.requests le_rfl, ho'.requests le_rfl]
  reader := by
    have hidle : ∀ {a : Bool} {k : ℕ}, Over n r p a k →
        ¬(a = true ∧ r + 3 < k ∧ k ≤ r + 3 + 2 * n) := by
      intro a k hok hc
      have hk := hok hc.1
      omega
    have hreader := h.reader
    rw [if_neg (hidle ho)] at hreader
    rw [if_neg (hidle ho')]
    exact hreader
  block := by
    rw [h.block]
    exact (ho.replies (j := 0) (Nat.zero_le p)).trans (ho'.replies (j := 0) (Nat.zero_le p)).symm
  reply := h.reply.congr fun j hj => by
    rw [late_burst, late_burst, Nat.add_comm, ho.replies (by omega), ho'.replies (by omega)]

end Line

/-! ## All blocks -/

variable {A : Contents net} {asked : Option (BitVec 7)} {first c : ℕ} {ws : List Word}
  {x : External} {y : System net}

/-- The words of the block `a`; none if there is no such block. -/
def words (A : Contents net) (a : BitVec 7) : List Word :=
  (List.finRange N).flatMap fun b => if net.address b = a then dump (net.address b) (A b) else []

theorem words_address (A : Contents net) (b : Fin N) :
    words A (net.address b) = dump (net.address b) (A b) := by
  have key : ∀ l : List (Fin N), l.Nodup →
      l.flatMap (fun I =>
          if net.address I = net.address b then dump (net.address I) (A I) else []) =
        if b ∈ l then dump (net.address b) (A b) else [] := by
    intro l hl
    induction l with
    | nil => rfl
    | cons I l ih =>
      obtain ⟨hI, hl⟩ := List.nodup_cons.1 hl
      rw [List.flatMap_cons, ih hl]
      by_cases hIb : I = b
      · subst hIb
        simp [hI]
      · have hne : net.address I ≠ net.address b := fun h => hIb (net.address_injective h)
        simp [hne, Ne.symm hIb]
  rw [words, key _ (List.nodup_finRange N), if_pos (List.mem_finRange b)]

theorem words_missing {a : BitVec 7} (h : ∀ b, net.address b ≠ a) : words A a = [] := by
  simp [words, h]

/-- `first` edges after the scanner was about to ask, `ws` begins to come in;
    without a block of this address that is when the scanner gives up. -/
inductive Served (A : Contents net) : Option (BitVec 7) → ℕ → List Word → Prop
  | block (b : Fin N) :
      Served A (some (net.address b)) (net.request b + net.reply b + net.back + 6)
        (dump (net.address b) (A b))
  | missing {a : BitVec 7} (h : ∀ b, net.address b ≠ a) : Served A (some a) (maxTimer + 1) []
  | none : Served A none (maxTimer + 1) []

theorem Served.first_le (h : Served A asked first ws) : first ≤ maxTimer + 1 := by
  cases h with
  | block b => exact net.near b
  | missing | none => exact le_rfl

theorem Served.le_first (h : Served A asked first ws) : 6 ≤ first := by
  cases h with
  | block b => omega
  | missing | none => decide

theorem Served.eq_nil (h : Served A asked first ws) (hws : ws = []) : first = maxTimer + 1 := by
  cases h with
  | block b =>
    have hlen := congrArg List.length hws
    have hone := net.one_le_size b
    simp only [dump, List.length_map, List.length_range, List.length_nil] at hlen
    omega
  | missing | none => rfl

theorem exists_served (A : Contents net) (a : BitVec 7) :
    ∃ first, Served A (some a) first (words A a) := by
  by_cases h : ∃ b, net.address b = a
  · obtain ⟨b, rfl⟩ := h
    rw [words_address]
    exact ⟨_, .block b⟩
  · have h' : ∀ b, net.address b ≠ a := fun b hb => h ⟨b, hb⟩
    rw [words_missing h']
    exact ⟨_, .missing h'⟩

/-- The words on the configuration bus `c` edges after the scanner was about to
    ask; or for any `c` if it was not. The registers of the blocks are `A`. -/
structure Fabric (A : Contents net) (asked : Option (BitVec 7)) (first : ℕ) (ws : List Word) (c : ℕ)
    (y : System net) : Prop where
  outReg : (scannerOutReg y.scanner).shown = burst 1 (asked.map readRequest).toList c
  out : (scannerOut y.scanner).shown = burst 2 (asked.map readRequest).toList c
  lines : ∀ b,
    (y.lines b).Shows (net.address b) (A b) (decide (asked = some (net.address b))) c
  mux : y.mux.shown = burst (first - (net.back + 1)) ws c
  back : y.back.Carries shown none (burst (first - (net.back + 1)) ws) c
  inReg : (scannerInReg y.scanner).shown = burst first ws c

/-- Nothing is asked, and no word is on its way. -/
abbrev Quiet (A : Contents net) (y : System net) : Prop := Fabric A none (maxTimer + 1) [] 0 y

theorem meant_eq (addr : BitVec 7) (b : ConfigBus) :
    b.meant addr = b.shown.filter fun w => blockAddress w = addr := by
  cases hv : b.valid with
  | false => simp [meant, shown, hv]
  | true =>
    by_cases ha : blockAddress b.data = addr <;> simp [meant, shown, hv, ha, Option.filter]

/-- What the scanner sends asks the block that it is to ask, and no other. -/
theorem Fabric.meant (h : Fabric A asked first ws c y) (addr : BitVec 7) :
    (scannerOut y.scanner).meant addr =
      burst 2 (Line.requests addr (decide (asked = some addr))) c := by
  rw [meant_eq, h.out]
  cases asked with
  | none => simp [Line.requests]
  | some a =>
    have haddr : blockAddress (readRequest a) = a := (isBlockRead_readRequest a).2.1
    show (burst 2 [readRequest a] c).filter _ = _
    unfold Line.requests
    by_cases ha : a = addr
    · subst ha
      cases hb : burst 2 [readRequest a] c with
      | none => simp [hb]
      | some w =>
        obtain rfl := List.mem_singleton.1 (mem_of_burst hb)
        simp [hb, haddr, Option.filter]
    · have hdec : decide ((some a : Option (BitVec 7)) = some addr) = false := by simpa using ha
      rw [hdec, if_neg (by simp), burst_nil]
      cases hb : burst 2 [readRequest a] c with
      | none => rfl
      | some w =>
        obtain rfl := List.mem_singleton.1 (mem_of_burst hb)
        simp [haddr, ha, Option.filter]

theorem Fabric.onlyReads (h : Fabric A asked first ws c y) : (scannerOut y.scanner).OnlyReads := by
  intro hv
  have hout := h.out
  rw [shown, if_pos hv] at hout
  have hmem := mem_of_burst hout.symm
  obtain ⟨a, -, ha⟩ : ∃ a, asked = some a ∧ readRequest a = (scannerOut y.scanner).data := by
    simpa [Option.mem_toList, Option.map_eq_some_iff] using hmem
  rw [← ha]
  exact (isBlockRead_readRequest a).1

/-- The multiplexer passes on what the block that was asked puts out. -/
theorem Fabric.mux_step (h : Fabric A asked first ws c y) (hs : Served A asked first ws) :
    (step x y).mux.shown = burst (first - (net.back + 1)) ws (c + 1) := by
  have hline : ∀ b, (y.lines b).out.shown = burst (net.request b + net.reply b + 4)
      (Line.replies (net.address b) (A b) (decide (asked = some (net.address b)))) c :=
    fun b => (h.lines b).out
  have hother : ∀ b, asked ≠ some (net.address b) → (y.lines b).out.shown = none := by
    intro b hb
    rw [hline, decide_eq_false hb, Line.replies, if_neg (by simp), burst_nil]
  show (multiplexer (fun b => (y.lines b).out) y.mux).shown = _
  cases hs with
  | block b =>
    rw [shown_multiplexer (b := b) fun I hI => hother I fun heq =>
      hI (net.address_injective (Option.some.inj heq)).symm, hline, decide_eq_true rfl,
      Line.replies, if_pos rfl, ← burst_succ]
    congr 1
    omega
  | missing hm =>
    rw [shown_multiplexer_none fun b => hother b fun heq => hm b (Option.some.inj heq).symm,
      burst_nil]
  | none => rw [shown_multiplexer_none fun b => hother b (by simp), burst_nil]

/-- One edge. The scanner asks if it was about to. -/
theorem Fabric.step (h : Fabric A asked first ws c y) (hs : Served A asked first ws)
    (hreq : (scannerOutReg (step x y).scanner).shown =
      burst 1 (asked.map readRequest).toList (c + 1))
    (hout : scannerOut (step x y).scanner = scannerOutReg y.scanner)
    (hin : scannerInReg (step x y).scanner = y.back.out y.mux) :
    Fabric A asked first ws (c + 1) (step x y) where
  outReg := hreq
  out := by rw [hout, h.outReg, burst_succ]
  lines b := (h.lines b).clock (net.one_le_size b) h.onlyReads (h.meant _)
  mux := h.mux_step hs
  back := h.back.clock h.mux
  inReg := by
    rw [hin, h.back.out h.mux, late_burst]
    rcases eq_or_ne ws [] with rfl | hws
    · rw [burst_nil, burst_nil]
    · cases hs with
      | block b =>
        rw [← burst_succ]
        congr 1
        omega
      | missing | none => exact absurd rfl hws

/-- Nothing is asked, or has not been yet, or all has been answered. -/
def Over (asked : Option (BitVec 7)) (first : ℕ) (ws : List Word) (c : ℕ) : Prop :=
  asked = none ∨ c = 0 ∨ first + ws.length ≤ c

theorem Over.requests {k : ℕ} (h : Over asked first ws c) (hs : Served A asked first ws)
    (hk : 1 ≤ k) (hk' : k ≤ 5) : burst k (asked.map readRequest).toList c = none := by
  have hlen : (asked.map readRequest).toList.length ≤ 1 := by cases asked <;> simp
  have hfirst := hs.le_first
  rcases h with rfl | rfl | hc
  · exact burst_nil ..
  · exact burst_of_lt hk
  · exact burst_of_le (by omega)

theorem Over.words {k : ℕ} (h : Over asked first ws c) (hs : Served A asked first ws)
    (hk : ws ≠ [] → 1 ≤ k ∧ k ≤ first) : burst k ws c = none := by
  rcases eq_or_ne ws [] with rfl | hws
  · exact burst_nil ..
  · obtain ⟨h1, h2⟩ := hk hws
    rcases h with rfl | rfl | hc
    · cases hs with
      | none => exact absurd rfl hws
    · exact burst_of_lt h1
    · exact burst_of_le (by omega)

theorem Over.line (h : Over asked first ws c) (hs : Served A asked first ws) (b : Fin N) :
    Line.Over (net.size b) (net.request b) (net.reply b)
      (decide (asked = some (net.address b))) c := by
  intro hask
  have hasked := of_decide_eq_true hask
  rcases h with rfl | rfl | hc
  · simp at hasked
  · exact .inl rfl
  · cases hs with
    | block b' =>
      obtain rfl := net.address_injective (Option.some.inj hasked)
      simp only [dump, List.length_map, List.length_range] at hc
      exact .inr (by omega)
    | missing hm => exact absurd (Option.some.inj hasked).symm (hm b)
    | none => simp at hasked

/-- Before something is asked and after it has been answered all is the same. -/
theorem Fabric.over {asked' : Option (BitVec 7)} {first' e : ℕ} {ws' : List Word}
    (h : Fabric A asked first ws c y) (hs : Served A asked first ws) (ho : Over asked first ws c)
    (hs' : Served A asked' first' ws') (ho' : Over asked' first' ws' e) :
    Fabric A asked' first' ws' e y := by
  have hpos : ∀ {a : Option (BitVec 7)} {k : ℕ} {us : List Word}, Served A a k us →
      us ≠ [] → net.back + 1 < k := by
    intro a k us hu hne
    cases hu with
    | block b => omega
    | missing | none => exact absurd rfl hne
  have h6 := hs.le_first
  have h6' := hs'.le_first
  exact {
    outReg := by
      rw [h.outReg, ho.requests hs le_rfl (by omega), ho'.requests hs' le_rfl (by omega)]
    out := by
      rw [h.out, ho.requests hs (by omega) (by omega), ho'.requests hs' (by omega) (by omega)]
    lines := fun b => (h.lines b).over (ho.line hs b) (ho'.line hs' b)
    mux := by
      rw [h.mux, ho.words hs fun hne => by have := hpos hs hne; omega,
        ho'.words hs' fun hne => by have := hpos hs' hne; omega]
    back := h.back.congr fun j hj => by
      rw [late_burst, late_burst, ho.words hs fun hne => by have := hpos hs hne; omega,
        ho'.words hs' fun hne => by have := hpos hs' hne; omega]
    inReg := by
      rw [h.inReg, ho.words hs fun _ => by omega, ho'.words hs' fun _ => by omega] }

/-- After reset nothing is on its way. -/
theorem quiet_initial (A : Contents net) : Quiet A (initial A) where
  outReg := (burst_nil ..).symm
  out := (burst_nil ..).symm
  lines b := {
    reads := fun _ hv => by cases hv
    request := fun j => by
      rw [late_burst]
      exact (burst_nil ..).symm
    keeps := ⟨rfl, fun hv => by cases hv⟩
    reg := (burst_nil ..).symm
    reader := rfl
    block := (burst_nil ..).symm
    reply := fun j => by
      rw [late_burst]
      exact (burst_nil ..).symm }
  mux := (burst_nil ..).symm
  back := fun j => by
    rw [late_burst]
    exact (burst_nil ..).symm
  inReg := (burst_nil ..).symm

end FpgaEthernet.ConfigScan
