import FpgaEthernet.Server.EpcqCommands
import FpgaEthernet.Server.FlashConfig

/-!
# Writing the memory

Model of `writeEPCQ` (`server/src/ODILEServer.cpp`) with the datagrams it sends.

Main results:

* `run_writePages`: the page loop, when every page reads as it was written.
* `writeEPCQ_in_sector_iff`: every page lies in the sector that was erased iff the
  data is less than a sector.
* `writeEPCQ_flash`: with a memory behind the commands the function does what
  `Server.writeEPCQ` says.
-/

namespace FpgaEthernet.OdileServer

open Clocked

/-! ## Model -/

/-- The words of a page, from `data_idx` on (lines 591-598). -/
def pageOf (data : List Word) (dataIdx : ℕ) : List Word :=
  (List.range pageSizeWords).map fun wordIdx => data.getD (dataIdx + wordIdx) 0xFFFFFFFF

/-- The page loop (lines 589-624), with the passes left as the first argument. -/
def writePages (replies : Replies) (data : List Word) : ℕ → ℕ → Word → ℤ → Host ℤ
  | 0, _, _, wordsWritten => pure wordsWritten
  | k + 1, dataIdx, currAddress, wordsWritten => do
    let writePage := pageOf data dataIdx
    let readPage ← storePage replies currAddress writePage
    if readPage ≠ writePage then return -2
    else
      writePages replies data k (dataIdx + pageSizeWords) (currAddress + 256)
        (wordsWritten + pageSizeWords)

/-- `writeEPCQ` (lines 557-626). -/
def writeEPCQ (replies : Replies) (data : List Word) (startAddress : Word) (performErase : Bool) :
    Host ℤ := do
  let bytesToWrite := data.length * 4
  let pagesToWrite := bytesToWrite / pageSizeBytes + 1
  if bytesToWrite > sectorBytes then return -1
  else
    sendCommand "ERB" 0 noWord
    sendCommand "ESA" 0 startAddress
    if performErase then sendCommand "ESE" 0 noWord
    writePages replies data pagesToWrite 0 startAddress 0

/-! ## Specification -/

variable {s : Device} {replies : Replies} {sent : List Datagram} {data : List Word}
  {a startAddress : Word} {k n : ℕ}

/-- What has just been written is what is read. -/
def ReadsBack (s : Device) (replies : Replies) : Prop :=
  ∀ sent d a page, (s.accesses sent).getLast? = some (.write a page) →
    Datagram.op d = some (.readData page.length) → replies (sent ++ [d]) = page

/-- The pages that are written, with their addresses. -/
def pagesWritten (l : List Access) : List (Word × List Word) :=
  l.filterMap fun
    | .write a page => some (a, page)
    | _ => none

/-- The sectors that are erased, by an address in each. -/
def erasedAt (l : List Access) : List Word :=
  l.filterMap fun
    | .erase a => some a
    | _ => none

/-- A page lies in the sector from `base` on. -/
def InSector (base : Word) (p : Word × List Word) : Prop :=
  base.toNat ≤ p.1.toNat ∧ p.1.toNat + 4 * p.2.length ≤ base.toNat + sectorBytes

/-- The pages lie in the sector of the start address, and are the data and padding. -/
structure StaysInSector (startAddress : Word) (data : List Word) (l : List Access) : Prop where
  inSector : ∀ p ∈ pagesWritten l, InSector startAddress p
  contents : ∃ m, (pagesWritten l).flatMap Prod.snd = data ++ List.replicate m 0xFFFFFFFF

/-! ## The pages -/

/-- The pages of the loop, with their addresses. -/
def pagesFrom (data : List Word) : ℕ → ℕ → Word → List (Word × List Word)
  | 0, _, _ => []
  | k + 1, dataIdx, a =>
    (a, pageOf data dataIdx) :: pagesFrom data k (dataIdx + pageSizeWords) (a + 256)

theorem length_pageOf (data : List Word) (dataIdx : ℕ) :
    (pageOf data dataIdx).length = pageSizeWords := by
  simp [pageOf]

theorem pagesFrom_eq (data : List Word) (k dataIdx : ℕ) (a : Word) :
    pagesFrom data k dataIdx a = (List.range k).map fun i =>
      (a + BitVec.ofNat 32 (pageSizeBytes * i), pageOf data (dataIdx + pageSizeWords * i)) := by
  induction k generalizing dataIdx a with
  | zero => rfl
  | succ k ih =>
    rw [pagesFrom, ih, List.range_succ_eq_map, List.map_cons, List.map_map]
    refine congrArg₂ _ (by simp) (List.map_congr_left fun i _ => ?_)
    rw [Function.comp_apply, address_succ, Nat.add_assoc, Nat.add_comm pageSizeWords,
      ← Nat.mul_succ]

theorem pageOf_eq (data : List Word) (n : ℕ) :
    pageOf data n = (data.drop n).take pageSizeWords ++
      List.replicate (pageSizeWords - (data.length - n)) 0xFFFFFFFF := by
  apply List.ext_getElem
  · rw [length_pageOf, List.length_append, List.length_take, List.length_drop,
      List.length_replicate]
    omega
  · intro j hj _
    rw [length_pageOf] at hj
    simp only [pageOf, List.getElem_map, List.getElem_range, List.getElem_append, List.length_take,
      List.length_drop, List.getElem_take, List.getElem_drop, List.getElem_replicate]
    split_ifs with h
    · rw [List.getD_eq_getElem?_getD, List.getElem?_eq_getElem (by omega), Option.getD_some]
    · rw [List.getD_eq_getElem?_getD, List.getElem?_eq_none (by omega), Option.getD_none]

/-- The data, and padding to the end of the last page. -/
theorem flatMap_pagesFrom (h : data.length ≤ n + pageSizeWords * k) (a : Word) :
    ∃ m, (pagesFrom data k n a).flatMap Prod.snd =
      data.drop n ++ List.replicate m 0xFFFFFFFF := by
  induction k generalizing n a with
  | zero =>
    refine ⟨0, ?_⟩
    rw [List.drop_of_length_le (show data.length ≤ n from h)]
    rfl
  | succ k ih =>
    obtain ⟨m, hm⟩ := ih (n := n + pageSizeWords) (by rw [Nat.mul_succ] at h; omega) (a + 256)
    rw [pagesFrom, List.flatMap_cons, hm, pageOf_eq]
    rcases Nat.le_total (data.length - n) pageSizeWords with hlast | hfull
    · have hnil : data.drop (n + pageSizeWords) = [] := List.drop_of_length_le (by omega)
      refine ⟨pageSizeWords - (data.length - n) + m, ?_⟩
      rw [hnil, List.take_of_length_le (by rw [List.length_drop]; exact hlast), List.nil_append,
        List.append_assoc, ← List.replicate_add]
    · refine ⟨m, ?_⟩
      rw [Nat.sub_eq_zero_of_le hfull, List.replicate_zero, List.append_nil, ← List.append_assoc,
        ← List.drop_drop, List.take_append_drop]

/-- The datagrams of pages that are written and read back. -/
def pagesDatagrams (l : List (Word × List Word)) : List Datagram :=
  l.flatMap fun p => pageDatagrams p.1 p.2

/-- Pages for the memory: their addresses can be sent, and they are full. -/
def Storable (l : List (Word × List Word)) : Prop :=
  ∀ p ∈ l, p.1 ≠ noWord ∧ p.2.length = pageSizeWords

theorem accesses_pagesDatagrams {l : List (Word × List Word)} (h : Storable l)
    (hs : s.buffer = []) :
    s.accesses (pagesDatagrams l) =
      l.flatMap fun p => [.write p.1 p.2, .read p.1 pageSizeWords] := by
  refine Device.accesses_flatMap (fun p hp s hs => ?_) hs
  obtain ⟨ha, hlen⟩ := h p hp
  obtain ⟨hacc, hafter⟩ := accesses_pageDatagrams ha hlen hs
  exact ⟨hacc, congrArg Device.buffer hafter⟩

theorem ReadsBack.storePage (h : ReadsBack s replies) {page : List Word} (ha : a ≠ noWord)
    (hlen : page.length = pageSizeWords) (hs : (s.after sent).buffer = []) :
    replies (sent ++ pageDatagrams a page) = page := by
  rw [pageDatagrams, ← List.append_assoc]
  refine h _ _ a page ?_ (hlen ▸ op_readPage)
  rw [Device.accesses_append, (accesses_writeDatagrams ha hlen hs).1, List.getLast?_concat]

/-- A pass of the page loop. -/
theorem run_writePages_succ (replies : Replies) (data : List Word) (k n : ℕ) (a : Word)
    (wordsWritten : ℤ) :
    (writePages replies data (k + 1) n a wordsWritten).run sent =
      if replies (sent ++ pageDatagrams a (pageOf data n)) ≠ pageOf data n then
        (-2, sent ++ pageDatagrams a (pageOf data n))
      else (writePages replies data k (n + pageSizeWords) (a + 256)
        (wordsWritten + pageSizeWords)).run (sent ++ pageDatagrams a (pageOf data n)) := by
  rw [writePages, StateT.run_bind, run_storePage]
  exact apply_ite (fun m : Host ℤ => m.run (sent ++ pageDatagrams a (pageOf data n))) _ _ _

/-- The page loop, where every page reads as it was written. -/
theorem run_writePages (h : ReadsBack s replies) {wordsWritten : ℤ}
    (hl : Storable (pagesFrom data k n a)) (hs : (s.after sent).buffer = []) :
    (writePages replies data k n a wordsWritten).run sent =
      (wordsWritten + pageSizeWords * k, sent ++ pagesDatagrams (pagesFrom data k n a)) := by
  induction k generalizing n a sent wordsWritten with
  | zero =>
    rw [pagesFrom, pagesDatagrams, List.flatMap_nil, List.append_nil, Nat.cast_zero, mul_zero,
      add_zero]
    rfl
  | succ k ih =>
    obtain ⟨⟨ha, hlen⟩, hl⟩ := List.forall_mem_cons.1 hl
    have hread := h.storePage ha hlen hs
    have hbuffer : (s.after (sent ++ pageDatagrams a (pageOf data n))).buffer = [] := by
      rw [Device.after_append, (accesses_pageDatagrams ha hlen hs).2]
    rw [run_writePages_succ, if_neg (not_not.2 hread), ih hl hbuffer, pagesFrom, pagesDatagrams,
      pagesDatagrams, List.flatMap_cons, List.append_assoc]
    push_cast
    congr 1
    ring

/-! ## The function -/

/-- What is sent before the pages. -/
def begun (startAddress : Word) (performErase : Bool) : List Datagram :=
  [commandDatagram "ERB" 0 noWord, commandDatagram "ESA" 0 startAddress] ++
    if performErase then [commandDatagram "ESE" 0 noWord] else []

theorem run_writeEPCQ (replies : Replies) (haccept : data.length * 4 ≤ sectorBytes)
    (performErase : Bool) :
    (writeEPCQ replies data startAddress performErase).run [] =
      (writePages replies data (data.length * 4 / pageSizeBytes + 1) 0 startAddress 0).run
        (begun startAddress performErase) := by
  unfold writeEPCQ
  simp only [gt_iff_lt, not_lt.2 haccept, if_false]
  cases performErase <;> rfl

theorem accesses_begun (ha : startAddress ≠ noWord) (performErase : Bool) :
    s.accesses (begun startAddress performErase) =
        (if performErase then [.erase startAddress] else []) ∧
      (s.after (begun startAddress performErase)).buffer = [] := by
  have hops : (begun startAddress performErase).filterMap Datagram.op =
      [.clearBuffers, .setAddress startAddress] ++
        if performErase then [.eraseSector] else [] := by
    rw [begun, List.filterMap_append, List.filterMap_cons_some op_clearBuffers,
      List.filterMap_cons_some (op_setAddress ha)]
    cases performErase
    · rfl
    · rw [if_pos rfl, List.filterMap_cons_some op_eraseSector]
      rfl
  rw [Device.accesses, Device.after, hops]
  cases performErase <;> exact ⟨rfl, rfl⟩

/-- The address of page `i` of a sector. -/
theorem toNat_address (startAddress : Word) (i : ℕ) :
    (startAddress + BitVec.ofNat 32 (pageSizeBytes * i)).toNat =
      (startAddress.toNat + 256 * i) % 2 ^ 32 := by
  rw [BitVec.toNat_add, BitVec.toNat_ofNat, Nat.add_mod_mod]
  rfl

theorem storable_pagesFrom (data : List Word) (k n : ℕ)
    (halign : startAddress.toNat % sectorBytes = 0) :
    Storable (pagesFrom data k n startAddress) := by
  intro p hp
  rw [pagesFrom_eq] at hp
  obtain ⟨i, -, rfl⟩ := List.mem_map.1 hp
  refine ⟨fun hno => ?_, length_pageOf data _⟩
  have hmod := toNat_address startAddress i
  dsimp only at hno
  rw [hno] at hmod
  have hmax : noWord.toNat = 0xFFFFFFFF := rfl
  unfold sectorBytes at halign
  omega

theorem inSector_pagesFrom_iff (data : List Word) (n : ℕ)
    (halign : startAddress.toNat % sectorBytes = 0) (hk : k ≤ 257) :
    (∀ p ∈ pagesFrom data k n startAddress, InSector startAddress p) ↔ k ≤ 256 := by
  have hlt := startAddress.isLt
  have hwords : 4 * pageSizeWords = 256 := rfl
  unfold sectorBytes at halign
  rw [pagesFrom_eq]
  constructor
  · intro h
    by_contra hk'
    obtain ⟨hlow, hhigh⟩ := h _ (List.mem_map_of_mem (List.mem_range.2 (show 256 < k by omega)))
    dsimp only at hlow hhigh
    rw [toNat_address] at hlow hhigh
    rw [length_pageOf, hwords, sectorBytes] at hhigh
    omega
  · intro hk' p hp
    obtain ⟨i, hi, rfl⟩ := List.mem_map.1 hp
    rw [List.mem_range] at hi
    unfold InSector
    dsimp only
    rw [toNat_address, length_pageOf, hwords, sectorBytes]
    omega

/-- The accesses to pages that are written and read back. -/
def pageAccesses (l : List (Word × List Word)) : List Access :=
  l.flatMap fun p => [.write p.1 p.2, .read p.1 pageSizeWords]

theorem pagesWritten_pageAccesses (l : List (Word × List Word)) :
    pagesWritten (pageAccesses l) = l := by
  induction l with
  | nil => rfl
  | cons p l ih => exact congrArg (p :: ·) ih

theorem erasedAt_pageAccesses (l : List (Word × List Word)) : erasedAt (pageAccesses l) = [] := by
  induction l with
  | nil => rfl
  | cons p l ih => exact ih

/-- With faithful replies the function erases at most the sector of the start address and
    then writes the pages of the data. -/
theorem accesses_writeEPCQ (hback : ReadsBack s replies)
    (halign : startAddress.toNat % sectorBytes = 0) (haccept : data.length * 4 ≤ sectorBytes)
    (performErase : Bool) :
    s.accesses ((writeEPCQ replies data startAddress performErase).run []).2 =
      (if performErase then [.erase startAddress] else []) ++
        pageAccesses (pagesFrom data (data.length * 4 / pageSizeBytes + 1) 0 startAddress) := by
  have hstore := storable_pagesFrom data (data.length * 4 / pageSizeBytes + 1) 0 halign
  have hstart : startAddress ≠ noWord := (hstore _ List.mem_cons_self).1
  obtain ⟨hacc, hbuffer⟩ := accesses_begun (s := s) hstart performErase
  rw [run_writeEPCQ replies haccept, run_writePages hback hstore hbuffer, Device.accesses_append,
    hacc, accesses_pagesDatagrams hstore hbuffer]
  rfl

theorem written_writeEPCQ (hback : ReadsBack s replies)
    (halign : startAddress.toNat % sectorBytes = 0) (haccept : data.length * 4 ≤ sectorBytes)
    (performErase : Bool) :
    pagesWritten (s.accesses ((writeEPCQ replies data startAddress performErase).run []).2) =
        pagesFrom data (data.length * 4 / pageSizeBytes + 1) 0 startAddress ∧
      erasedAt (s.accesses ((writeEPCQ replies data startAddress performErase).run []).2) =
        if performErase then [startAddress] else [] := by
  rw [accesses_writeEPCQ hback halign haccept]
  cases performErase
  · exact ⟨pagesWritten_pageAccesses _, erasedAt_pageAccesses _⟩
  · exact ⟨pagesWritten_pageAccesses _, congrArg (startAddress :: ·) (erasedAt_pageAccesses _)⟩

/-- A page that is written lies in the sector of a start address that begins a sector, and
    the pages are the data and padding, iff the data is less than a sector; and only this
    sector is erased. -/
theorem writeEPCQ_in_sector_iff (hback : ReadsBack s replies)
    (halign : startAddress.toNat % sectorBytes = 0) (haccept : data.length * 4 ≤ sectorBytes)
    (performErase : Bool) :
    erasedAt (s.accesses ((writeEPCQ replies data startAddress performErase).run []).2) =
        (if performErase then [startAddress] else []) ∧
      (StaysInSector startAddress data
          (s.accesses ((writeEPCQ replies data startAddress performErase).run []).2) ↔
        data.length * 4 < sectorBytes) := by
  obtain ⟨hpages, herased⟩ := written_writeEPCQ hback halign haccept performErase
  refine ⟨herased, ?_⟩
  have hk : data.length * 4 / pageSizeBytes + 1 ≤ 256 ↔ data.length * 4 < sectorBytes := by
    unfold pageSizeBytes sectorBytes
    omega
  have hin := inSector_pagesFrom_iff (k := data.length * 4 / pageSizeBytes + 1) data 0 halign
    (by unfold sectorBytes at haccept; unfold pageSizeBytes; omega)
  constructor
  · intro h
    have hpage := h.inSector
    rw [hpages, hin, hk] at hpage
    exact hpage
  · intro hlt
    refine ⟨?_, ?_⟩
    · rw [hpages, hin, hk]
      exact hlt
    · rw [hpages]
      exact flatMap_pagesFrom (n := 0)
        (by unfold pageSizeBytes pageSizeWords pageSizeBytes; omega) _

/-- Replies that give back the page written last. -/
def echo (s : Device) : Replies := fun sent =>
  match (s.accesses sent.dropLast).getLast? with
  | some (.write _ page) => page
  | _ => []

theorem readsBack_echo (s : Device) : ReadsBack s (echo s) := by
  intro sent d a page hlast _
  rw [echo, List.dropLast_concat, hlast]

/-- Data of two pages. -/
def hundredWords : List Word := (List.range 100).map (BitVec.ofNat 32)

theorem writeEPCQ_in_sector_iff_hundredWords :
    erasedAt (Device.accesses ⟨0, []⟩
          ((writeEPCQ (echo ⟨0, []⟩) hundredWords 0x01F60000 true).run []).2) =
        (if true then [0x01F60000] else []) ∧
      (StaysInSector 0x01F60000 hundredWords
          (Device.accesses ⟨0, []⟩
            ((writeEPCQ (echo ⟨0, []⟩) hundredWords 0x01F60000 true).run []).2) ↔
        hundredWords.length * 4 < sectorBytes) :=
  writeEPCQ_in_sector_iff (readsBack_echo ⟨0, []⟩) (by decide) (by decide) true

/-- Of a sector of data a page is written to the next sector. -/
theorem full_sector_overruns :
    ¬StaysInSector 0x01F60000 (List.replicate 16384 0)
      (Device.accesses ⟨0, []⟩
        ((writeEPCQ (echo ⟨0, []⟩) (List.replicate 16384 0) 0x01F60000 true).run []).2) := by
  have haligned : (0x01F60000 : Word).toNat % sectorBytes = 0 := by decide
  have hlen : (List.replicate 16384 (0 : Word)).length = 16384 := List.length_replicate
  generalize List.replicate 16384 (0 : Word) = data at hlen ⊢
  intro h
  have hpage := h.inSector
  rw [(written_writeEPCQ (readsBack_echo ⟨0, []⟩) haligned (by rw [hlen]; decide) true).1, hlen,
    inSector_pagesFrom_iff _ _ haligned (by decide)] at hpage
  exact absurd hpage (by decide)

/-! ## With a memory -/

section

open Epcq
open Server (bswap32)

/-- The memory after an access. The ODILE has the bytes of a word the other way round. -/
def stored (f : Flash) : Access → Flash
  | .erase a => eraseSector f a
  | .write a page => program f a (page.map bswap32)
  | .read _ _ => f

/-- The memory after the datagrams `sent`. -/
def memoryAfter (f : Flash) (s : Device) (sent : List Datagram) : Flash :=
  (s.accesses sent).foldl stored f

/-- The replies of a memory to reading a page. -/
def memoryReplies (f : Flash) (s : Device) : Replies := fun sent =>
  match (s.accesses sent).getLast? with
  | some (.read a _) => (readPage (memoryAfter f s sent) a).map bswap32
  | _ => []

variable {f : Flash}

theorem memory_pageDatagrams {page : List Word} (ha : a ≠ noWord)
    (hlen : page.length = pageSizeWords) (hs : (s.after sent).buffer = []) :
    memoryAfter f s (sent ++ pageDatagrams a page) =
        program (memoryAfter f s sent) a (page.map bswap32) ∧
      memoryReplies f s (sent ++ pageDatagrams a page) =
        (readPage (program (memoryAfter f s sent) a (page.map bswap32)) a).map bswap32 := by
  have hacc := (accesses_pageDatagrams ha hlen hs).1
  have hafter : memoryAfter f s (sent ++ pageDatagrams a page) =
      program (memoryAfter f s sent) a (page.map bswap32) := by
    rw [memoryAfter, Device.accesses_append, hacc, List.foldl_append]
    rfl
  refine ⟨hafter, ?_⟩
  rw [memoryReplies, hafter, Device.accesses_append, hacc, List.getLast?_append]
  rfl

theorem writePages_flash (hl : Storable (pagesFrom data k (n * pageSizeWords) a))
    (hs : (s.after sent).buffer = []) (wordsWritten : ℤ) :
    Server.writePages data k n a wordsWritten (memoryAfter f s sent) =
      (memoryAfter f s ((writePages (memoryReplies f s) data k (n * pageSizeWords) a
          wordsWritten).run sent).2,
        ((writePages (memoryReplies f s) data k (n * pageSizeWords) a wordsWritten).run
          sent).1) := by
  induction k generalizing n a sent wordsWritten with
  | zero => rfl
  | succ k ih =>
    obtain ⟨⟨ha, hlen⟩, hl⟩ := List.forall_mem_cons.1 hl
    obtain ⟨hafter, hread⟩ := memory_pageDatagrams (f := f) ha hlen hs
    have hbuffer :
        (s.after (sent ++ pageDatagrams a (pageOf data (n * pageSizeWords)))).buffer = [] := by
      rw [Device.after_append, (accesses_pageDatagrams ha hlen hs).2]
    have hpage : Server.writePage data n = pageOf data (n * pageSizeWords) := rfl
    rw [← Nat.succ_mul] at hl
    rw [Server.writePages, run_writePages_succ, hread, hpage]
    dsimp only
    split_ifs with hsame
    · rw [hafter]
    · rw [← hafter, ih hl hbuffer, ← Nat.succ_mul]
      rfl

/-- With a memory behind the commands the function leaves there, and returns, what
    `Server.writeEPCQ` says. -/
theorem writeEPCQ_flash (f : Flash) (s : Device) (halign : startAddress.toNat % sectorBytes = 0)
    (performErase : Bool) :
    Server.writeEPCQ f data startAddress performErase =
      (memoryAfter f s ((writeEPCQ (memoryReplies f s) data startAddress performErase).run []).2,
        ((writeEPCQ (memoryReplies f s) data startAddress performErase).run []).1) := by
  have hstore := storable_pagesFrom data (data.length * 4 / pageSizeBytes + 1) 0 halign
  have hstart : startAddress ≠ noWord := (hstore _ List.mem_cons_self).1
  obtain ⟨hacc, hbuffer⟩ := accesses_begun (s := s) hstart performErase
  rcases Nat.lt_or_ge sectorBytes (data.length * 4) with hmore | haccept
  · have hrun :
        (writeEPCQ (memoryReplies f s) data startAddress performErase).run [] = (-1, []) := by
      unfold writeEPCQ
      simp only [gt_iff_lt, hmore, if_true]
      rfl
    rw [hrun, Server.writeEPCQ, if_pos (show data.length * 4 > 65536 from hmore)]
    rfl
  · have hmemory : memoryAfter f s (begun startAddress performErase) =
        if performErase then eraseSector f startAddress else f := by
      rw [memoryAfter, hacc]
      cases performErase <;> rfl
    rw [run_writeEPCQ _ haccept, Server.writeEPCQ,
      if_neg (show ¬data.length * 4 > 65536 from not_lt.2 haccept), ← hmemory]
    exact writePages_flash (n := 0) (by rwa [Nat.zero_mul]) hbuffer 0

end

end FpgaEthernet.OdileServer
