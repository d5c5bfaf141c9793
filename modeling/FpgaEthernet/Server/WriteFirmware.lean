import FpgaEthernet.Numeric.Strtol
import FpgaEthernet.Server.ReadEpcq
import FpgaEthernet.Server.WriteEpcq

/-!
# Writing firmware

Model of `writeFirmware` (`server/src/ODILEServer.cpp`): the number of pages is taken
from the map file; before a page whose address is that of a sector the sector is erased;
a page that does not read as it was written ends the function.

Main results:

* `accesses_writeFirmware`: the accesses to the memory are those of a prefix of the pages.
* `writeFirmware_erases_first`: whatever is received, a sector is erased once, before
  its first page, and the pages are contiguous up to the last one.
-/

namespace FpgaEthernet.OdileServer

open Clocked
open Numeric (isSpace strtol)
open Server (bswap32)

/-! ## Model -/

/-- `std::stoi(s, nullptr, 0)`: `none` where it throws. -/
def stoi (s : List Char) : Option ℤ := (strtol s).filter fun n => -2 ^ 31 ≤ n ∧ n < 2 ^ 31

/-- The end address, relative to the start address (lines 411-418): the eighth word of
    the map file. -/
def endAddressOf (mapfile : List Char) : Option Word :=
  let words := (mapfile.splitOnP isSpace).filter fun w => !w.isEmpty
  (stoi (words.getD 7 [])).map (BitVec.ofInt 32)

/-- The `.rpd` file: the bytes that are left of it, and `word`, into which they are read. -/
structure Ifile where
  word : Word
  bytes : List (BitVec 8)

/-- The word with the bytes `bs` in the memory of the host. -/
def ofBytes (bs : List (BitVec 8)) : Word := bs.foldr (fun b w => w <<< 8 ||| b.setWidth 32) 0

/-- `ifile.read((char *)&word, 4)`: at the end of the file bytes of `word` stay. -/
def Ifile.read (f : Ifile) : Ifile where
  word := ofBytes (f.bytes.take 4 ++ (wordBytes f.word).drop f.bytes.length)
  bytes := f.bytes.drop 4

/-- The words of a page (lines 453-457), with the words left as the first argument. -/
def Ifile.readPage : ℕ → Ifile → List Word × Ifile
  | 0, f => ([], f)
  | k + 1, f => (bswap32 f.read.word :: (readPage k f.read).1, (readPage k f.read).2)

/-- How the function ends. Behind its loop there is no `return`. -/
inductive Outcome
  | returned (n : ℤ)
  | reachesEnd
  | throws
  deriving DecidableEq

/-- The page loop (lines 439-498), with the passes left as the first argument. -/
def writeFirmwarePages (replies : Replies) : ℕ → Word → Ifile → Host Outcome
  | 0, _, _ => pure .reachesEnd
  | k + 1, currAddress, ifile => do
    sendCommand "ESA" 0 currAddress
    if currAddress.toNat % sectorBytes = 0 then sendCommand "ESE" 0 noWord
    let (writePage, ifile) := ifile.readPage pageSizeWords
    let readPage ← storePage replies currAddress writePage
    if readPage ≠ writePage then return .returned (-2)
    else writeFirmwarePages replies k (currAddress + 256) ifile

/-- `writeFirmware` (lines 409-500). -/
def writeFirmware (replies : Replies) (mapfile : List Char) (ifile : Ifile)
    (startAddress : Word) : Host Outcome :=
  match endAddressOf mapfile with
  | none => pure .throws
  | some endAddress => do
    let pagesToWrite := endAddress.toNat / pageSizeBytes + 1
    if startAddress.toNat % sectorBytes ≠ 0 then return .returned (-1)
    else
      sendCommand "ERB" 0 noWord
      writeFirmwarePages replies pagesToWrite startAddress ifile

/-! ## Specification -/

variable {s : Device} {replies : Replies} {sent : List Datagram} {mapfile : List Char}
  {ifile : Ifile} {endAddress startAddress a : Word} {l : List Access} {k : ℕ}

/-- The sector of an address. -/
def sectorOf (a : Word) : ℕ := a.toNat / sectorBytes

/-- The sectors that are erased or written to. -/
def touched (l : List Access) : List ℕ :=
  (erasedAt l ++ (pagesWritten l).map Prod.fst).map sectorOf

/-- A write is preceded by an erase in its sector. -/
def Covered (l : List Access) : Prop :=
  ∀ l₁ a page l₂, l = l₁ ++ .write a page :: l₂ → ∃ e ∈ erasedAt l₁, sectorOf e = sectorOf a

/-- Pages one after the other from `startAddress` on. -/
def Contiguous (startAddress : Word) (ps : List (Word × List Word)) : Prop :=
  ps.map (fun p => p.1.toNat) =
    (List.range ps.length).map fun i => startAddress.toNat + pageSizeBytes * i

/-- The erase discipline of pages from `startAddress` on. -/
structure ErasesFirst (startAddress : Word) (l : List Access) : Prop where
  covered : Covered l
  once : ∀ sector ∈ touched l, ((erasedAt l).map sectorOf).count sector = 1
  contiguous : Contiguous startAddress (pagesWritten l)

/-! ## The file -/

theorem ofBytes_wordBytes (w : Word) : ofBytes (wordBytes w) = w := by
  apply BitVec.eq_of_getLsbD_eq
  intro i hi
  simp only [ofBytes, wordBytes, List.foldr_cons, List.foldr_nil, BitVec.ofNat_eq_ofNat,
    BitVec.zero_shiftLeft, BitVec.zero_or, BitVec.getLsbD_or, BitVec.getLsbD_shiftLeft,
    BitVec.getLsbD_setWidth, BitVec.getLsbD_extractLsb', zero_add]
  interval_cases i <;> simp

theorem length_readPage (k : ℕ) (f : Ifile) : (f.readPage k).1.length = k := by
  induction k generalizing f with
  | zero => rfl
  | succ k ih => rw [Ifile.readPage, List.length_cons, ih]

/-! ## The pages -/

/-- The pages of the loop, with their addresses. -/
def firmwarePages : ℕ → Word → Ifile → List (Word × List Word)
  | 0, _, _ => []
  | k + 1, a, f =>
    (a, (f.readPage pageSizeWords).1) :: firmwarePages k (a + 256) (f.readPage pageSizeWords).2

/-- What a pass of the loop sends before its page. -/
def eraseDatagrams (a : Word) : List Datagram :=
  [commandDatagram "ESA" 0 a] ++
    if a.toNat % sectorBytes = 0 then [commandDatagram "ESE" 0 noWord] else []

/-- The datagrams of a pass of the loop. -/
def passDatagrams (p : Word × List Word) : List Datagram :=
  eraseDatagrams p.1 ++ pageDatagrams p.1 p.2

/-- The accesses of a pass of the loop. -/
def passAccesses (p : Word × List Word) : List Access :=
  (if p.1.toNat % sectorBytes = 0 then [.erase p.1] else []) ++
    [.write p.1 p.2, .read p.1 pageSizeWords]

@[simp] theorem length_firmwarePages (k : ℕ) (a : Word) (f : Ifile) :
    (firmwarePages k a f).length = k := by
  induction k generalizing a f with
  | zero => rfl
  | succ k ih => rw [firmwarePages, List.length_cons, ih]

theorem addresses_firmwarePages (k : ℕ) (a : Word) (f : Ifile) :
    (firmwarePages k a f).map Prod.fst =
      (List.range k).map fun i => a + BitVec.ofNat 32 (pageSizeBytes * i) := by
  induction k generalizing a f with
  | zero => rfl
  | succ k ih =>
    rw [firmwarePages, List.map_cons, ih, List.range_succ_eq_map, List.map_cons, List.map_map]
    refine congrArg₂ _ (by simp) (List.map_congr_left fun i _ => ?_)
    rw [Function.comp_apply, address_succ]

theorem length_of_mem_firmwarePages {p : Word × List Word} {f : Ifile}
    (h : p ∈ firmwarePages k a f) : p.2.length = pageSizeWords := by
  induction k generalizing a f with
  | zero => cases h
  | succ k ih =>
    rcases List.mem_cons.1 h with rfl | h
    · exact length_readPage _ _
    · exact ih h

theorem accesses_eraseDatagrams (ha : a ≠ noWord) (hs : s.buffer = []) :
    s.accesses (eraseDatagrams a) = (if a.toNat % sectorBytes = 0 then [.erase a] else []) ∧
      s.after (eraseDatagrams a) = ⟨a, []⟩ := by
  have hops : (eraseDatagrams a).filterMap Datagram.op =
      .setAddress a :: if a.toNat % sectorBytes = 0 then [.eraseSector] else [] := by
    rw [eraseDatagrams, List.filterMap_append, List.filterMap_cons_some (op_setAddress ha)]
    split_ifs
    · rw [List.filterMap_cons_some op_eraseSector]
      rfl
    · rfl
  rw [Device.accesses, Device.after, hops, ← hs]
  split_ifs <;> exact ⟨rfl, rfl⟩

theorem accesses_passDatagrams {p : Word × List Word} (ha : p.1 ≠ noWord)
    (hlen : p.2.length = pageSizeWords) (hs : s.buffer = []) :
    s.accesses (passDatagrams p) = passAccesses p ∧ (s.after (passDatagrams p)).buffer = [] := by
  obtain ⟨herase, haddress⟩ := accesses_eraseDatagrams ha hs
  obtain ⟨hpage, hbuffer⟩ := accesses_pageDatagrams (s := ⟨p.1, []⟩) ha hlen rfl
  rw [passDatagrams, Device.accesses_append, Device.after_append, herase, haddress, hpage, hbuffer]
  exact ⟨rfl, rfl⟩

theorem accesses_passesDatagrams {ps : List (Word × List Word)} (h : Storable ps)
    (hs : s.buffer = []) : s.accesses (ps.flatMap passDatagrams) = ps.flatMap passAccesses := by
  refine Device.accesses_flatMap (fun p hp s hs => ?_) hs
  obtain ⟨ha, hlen⟩ := h p hp
  exact accesses_passDatagrams ha hlen hs

/-! ## The loop -/

/-- A pass of the loop. -/
theorem run_writeFirmwarePages_succ (replies : Replies) (k : ℕ) (a : Word) (f : Ifile) :
    (writeFirmwarePages replies (k + 1) a f).run sent =
      if replies (sent ++ passDatagrams (a, (f.readPage pageSizeWords).1)) ≠
          (f.readPage pageSizeWords).1 then
        (.returned (-2), sent ++ passDatagrams (a, (f.readPage pageSizeWords).1))
      else (writeFirmwarePages replies k (a + 256) (f.readPage pageSizeWords).2).run
        (sent ++ passDatagrams (a, (f.readPage pageSizeWords).1)) := by
  have hbegin : (writeFirmwarePages replies (k + 1) a f).run sent =
      (storePage replies a (f.readPage pageSizeWords).1 >>= fun readPage =>
        if readPage ≠ (f.readPage pageSizeWords).1 then return .returned (-2)
        else writeFirmwarePages replies k (a + 256) (f.readPage pageSizeWords).2 : Host Outcome).run
          (sent ++ eraseDatagrams a) := by
    rw [writeFirmwarePages, eraseDatagrams]
    split_ifs with herase
    · rw [← List.append_assoc]
      rfl
    · rw [List.append_nil]
      rfl
  rw [hbegin, StateT.run_bind, run_storePage, List.append_assoc]
  exact apply_ite (fun m : Host Outcome => m.run (sent ++ passDatagrams (a, _))) _ _ _

/-- The loop takes the first pages: all of them, or those up to one that does not read as
    it was written. -/
theorem run_writeFirmwarePages (replies : Replies) (k : ℕ) (a : Word) (f : Ifile)
    (sent : List Datagram) :
    ∃ ps, ps <+: firmwarePages k a f ∧
      ((writeFirmwarePages replies k a f).run sent).2 = sent ++ ps.flatMap passDatagrams ∧
      (((writeFirmwarePages replies k a f).run sent).1 = .reachesEnd ∧ ps = firmwarePages k a f ∨
        ((writeFirmwarePages replies k a f).run sent).1 = .returned (-2) ∧
          ∃ p, ps.getLast? = some p ∧ replies (sent ++ ps.flatMap passDatagrams) ≠ p.2) := by
  induction k generalizing a f sent with
  | zero => exact ⟨[], List.prefix_refl [], (List.append_nil sent).symm, Or.inl ⟨rfl, rfl⟩⟩
  | succ k ih =>
    rw [run_writeFirmwarePages_succ, firmwarePages]
    set page := (f.readPage pageSizeWords).1
    split_ifs with hread
    · refine ⟨[(a, page)], List.cons_prefix_cons.2 ⟨rfl, List.nil_prefix⟩, ?_,
        Or.inr ⟨rfl, (a, page), rfl, ?_⟩⟩
      · rw [List.flatMap_singleton]
      · rwa [List.flatMap_singleton]
    · obtain ⟨ps, hprefix, hsent, hends⟩ := ih (a + 256) (f.readPage pageSizeWords).2
        (sent ++ passDatagrams (a, page))
      have happend : sent ++ passDatagrams (a, page) ++ ps.flatMap passDatagrams =
          sent ++ ((a, page) :: ps).flatMap passDatagrams := by
        rw [List.flatMap_cons, List.append_assoc]
      refine ⟨(a, page) :: ps, List.cons_prefix_cons.2 ⟨rfl, hprefix⟩, hsent.trans happend, ?_⟩
      rcases hends with ⟨hend, hall⟩ | ⟨hend, p, hlast, hother⟩
      · exact Or.inl ⟨hend, congrArg _ hall⟩
      · refine Or.inr ⟨hend, p, ?_, happend ▸ hother⟩
        rw [List.getLast?_cons, hlast]
        rfl

/-! ## The discipline -/

theorem pagesWritten_passes (ps : List (Word × List Word)) :
    pagesWritten (ps.flatMap passAccesses) = ps := by
  induction ps with
  | nil => rfl
  | cons p ps ih =>
    rw [List.flatMap_cons, pagesWritten, List.filterMap_append, ← pagesWritten, ← pagesWritten, ih,
      passAccesses]
    split_ifs <;> rfl

theorem erasedAt_passes (ps : List (Word × List Word)) :
    erasedAt (ps.flatMap passAccesses) =
      (ps.map Prod.fst).filter fun a => a.toNat % sectorBytes = 0 := by
  induction ps with
  | nil => rfl
  | cons p ps ih =>
    rw [List.flatMap_cons, erasedAt, List.filterMap_append, ← erasedAt, ← erasedAt, ih,
      List.map_cons, List.filter_cons, passAccesses]
    simp only [decide_eq_true_eq]
    split_ifs <;> rfl

theorem Covered.of_isPrefix {l' : List Access} (h : Covered l') (hl : l <+: l') : Covered l := by
  obtain ⟨r, rfl⟩ := hl
  intro l₁ a page l₂ hsplit
  refine h l₁ a page (l₂ ++ r) ?_
  rw [hsplit, List.append_assoc, List.cons_append]

theorem Covered.concat (h : Covered l) {x : Access}
    (hx : ∀ a page, x = .write a page → ∃ e ∈ erasedAt l, sectorOf e = sectorOf a) :
    Covered (l ++ [x]) := by
  intro l₁ a page l₂ hsplit
  induction l₂ using List.reverseRecOn with
  | nil =>
    obtain ⟨rfl, hlast⟩ := List.append_inj' hsplit rfl
    exact hx a page (List.singleton_inj.1 hlast)
  | append_singleton l₂ y =>
    rw [← List.cons_append, ← List.append_assoc] at hsplit
    exact h l₁ a page l₂ (List.append_inj' hsplit rfl).1

theorem Covered.erase (h : Covered l) (a : Word) : Covered (l ++ [.erase a]) :=
  h.concat fun _ _ hx => by cases hx

theorem Covered.write (h : Covered l) (ha : ∃ e ∈ erasedAt l, sectorOf e = sectorOf a)
    (page : List Word) (n : ℕ) : Covered (l ++ [.write a page, .read a n]) := by
  have hwrite : Covered (l ++ [.write a page]) := h.concat fun b _ hx => by
    obtain ⟨rfl, -⟩ := Access.write.inj hx
    exact ha
  rw [← List.singleton_append, ← List.append_assoc]
  exact hwrite.concat fun _ _ hx => by cases hx

theorem Contiguous.of_isPrefix {ps ps' : List (Word × List Word)}
    (h : Contiguous startAddress ps') (hps : ps <+: ps') : Contiguous startAddress ps := by
  have htake := List.prefix_iff_eq_take.1 hps
  unfold Contiguous at h ⊢
  rw [htake, List.map_take, h, ← List.map_take, List.take_range, List.length_take]

theorem contiguous_firmwarePages {f : Ifile}
    (hfits : startAddress.toNat + pageSizeBytes * k ≤ 2 ^ 32) :
    Contiguous startAddress (firmwarePages k startAddress f) := by
  have haddresses := congrArg (List.map BitVec.toNat) (addresses_firmwarePages k startAddress f)
  rw [List.map_map, List.map_map] at haddresses
  refine haddresses.trans ?_
  rw [length_firmwarePages]
  refine List.map_congr_left fun i hi => ?_
  rw [List.mem_range] at hi
  rw [Function.comp_apply, toNat_address]
  unfold pageSizeBytes at hfits ⊢
  omega

theorem Contiguous.toNat_concat {ps : List (Word × List Word)} {p : Word × List Word}
    (h : Contiguous startAddress (ps ++ [p])) :
    p.1.toNat = startAddress.toNat + pageSizeBytes * ps.length := by
  rw [Contiguous, List.map_append, List.length_append, List.length_singleton, List.range_succ,
    List.map_append] at h
  exact List.singleton_inj.1 (List.append_inj' h rfl).2

/-- The pages of a prefix have the sector of each of them at its first page. -/
theorem Contiguous.exists_sector {ps : List (Word × List Word)}
    (halign : startAddress.toNat % sectorBytes = 0) {p : Word × List Word}
    (h : Contiguous startAddress (ps ++ [p])) (hp : p.1.toNat % sectorBytes ≠ 0) :
    ∃ q ∈ ps, q.1.toNat % sectorBytes = 0 ∧ sectorOf q.1 = sectorOf p.1 := by
  have haddress := h.toNat_concat
  have hps := h.of_isPrefix (List.prefix_append ps [p])
  unfold sectorBytes pageSizeBytes at *
  have hmem : startAddress.toNat + 256 * (ps.length / 256 * 256) ∈
      ps.map (fun p => p.1.toNat) := by
    rw [hps]
    refine List.mem_map_of_mem (List.mem_range.2 ?_)
    omega
  obtain ⟨q, hq, hqaddress⟩ := List.mem_map.1 hmem
  refine ⟨q, hq, by omega, ?_⟩
  unfold sectorOf sectorBytes
  omega

theorem covered_passes {ps : List (Word × List Word)}
    (halign : startAddress.toNat % sectorBytes = 0) (h : Contiguous startAddress ps) :
    Covered (ps.flatMap passAccesses) := by
  induction ps using List.reverseRecOn with
  | nil =>
    intro l₁ a page l₂ hsplit
    simp at hsplit
  | append_singleton ps p ih =>
    have hps := ih (h.of_isPrefix (List.prefix_append ps [p]))
    rw [List.flatMap_append, List.flatMap_singleton, passAccesses]
    split_ifs with herase
    · have herased : p.1 ∈ erasedAt (ps.flatMap passAccesses ++ [.erase p.1]) := by
        rw [erasedAt, List.filterMap_append]
        exact List.mem_append_right _ List.mem_cons_self
      rw [← List.append_assoc]
      exact (hps.erase p.1).write ⟨p.1, herased, rfl⟩ p.2 pageSizeWords
    · obtain ⟨q, hq, hqerase, hsector⟩ := h.exists_sector halign herase
      have herased : q.1 ∈ erasedAt (ps.flatMap passAccesses) := by
        rw [erasedAt_passes]
        exact List.mem_filter.2 ⟨List.mem_map_of_mem hq, decide_eq_true hqerase⟩
      rw [List.nil_append]
      exact hps.write ⟨q.1, herased, hsector⟩ p.2 pageSizeWords

theorem nodup_erasedAt_passes {ps : List (Word × List Word)} (h : Contiguous startAddress ps) :
    ((erasedAt (ps.flatMap passAccesses)).map sectorOf).Nodup := by
  have hnodup : (ps.map fun p => p.1.toNat).Nodup := by
    rw [h]
    refine List.nodup_range.map fun i j hij => ?_
    unfold pageSizeBytes at hij
    omega
  have haddresses : (ps.map Prod.fst).Nodup :=
    List.Nodup.of_map BitVec.toNat (by rwa [List.map_map])
  rw [erasedAt_passes]
  refine (haddresses.filter _).map_on fun a ha b hb hab => BitVec.eq_of_toNat_eq ?_
  have ha := of_decide_eq_true (List.mem_filter.1 ha).2
  have hb := of_decide_eq_true (List.mem_filter.1 hb).2
  unfold sectorOf at hab
  unfold sectorBytes at *
  omega

/-- A touched sector is erased, where writes are covered. -/
theorem Covered.mem_erasedAt (h : Covered l) {sector : ℕ} (hsector : sector ∈ touched l) :
    sector ∈ (erasedAt l).map sectorOf := by
  rw [touched, List.map_append, List.mem_append] at hsector
  rcases hsector with herased | hwritten
  · exact herased
  · obtain ⟨a, ha, rfl⟩ := List.mem_map.1 hwritten
    obtain ⟨p, hp, rfl⟩ := List.mem_map.1 ha
    obtain ⟨x, hx, hxp⟩ := List.mem_filterMap.1 hp
    obtain ⟨l₁, l₂, rfl⟩ := List.append_of_mem hx
    cases x with
    | write a page =>
      obtain rfl := Option.some.inj hxp
      obtain ⟨e, he, hsector⟩ := h l₁ a page l₂ rfl
      refine List.mem_map.2 ⟨e, ?_, hsector⟩
      rw [erasedAt, List.filterMap_append]
      exact List.mem_append_left _ he
    | erase a => cases hxp
    | read a n => cases hxp

theorem erasesFirst_of_isPrefix {ps : List (Word × List Word)}
    (halign : startAddress.toNat % sectorBytes = 0) (h : Contiguous startAddress ps)
    (hl : l <+: ps.flatMap passAccesses) : ErasesFirst startAddress l := by
  have hcovered := (covered_passes halign h).of_isPrefix hl
  have hnodup : ((erasedAt l).map sectorOf).Nodup :=
    (nodup_erasedAt_passes h).sublist ((hl.filterMap _).map _).sublist
  have hpages : pagesWritten l <+: ps := pagesWritten_passes ps ▸ hl.filterMap _
  exact ⟨hcovered, fun sector hsector => List.count_eq_one_of_mem hnodup
    (hcovered.mem_erasedAt hsector), h.of_isPrefix hpages⟩

/-! ## The function -/

theorem run_writeFirmware (hend : endAddressOf mapfile = some endAddress)
    (halign : startAddress.toNat % sectorBytes = 0) :
    (writeFirmware replies mapfile ifile startAddress).run [] =
      (writeFirmwarePages replies (endAddress.toNat / pageSizeBytes + 1) startAddress ifile).run
        [commandDatagram "ERB" 0 noWord] := by
  rw [writeFirmware, hend]
  simp only [halign, ne_eq, not_true_eq_false, if_false]
  rfl

/-- The accesses are those of the first pages: of all of them, or of those up to one that
    does not read as it was written. -/
theorem accesses_writeFirmware (hend : endAddressOf mapfile = some endAddress)
    (halign : startAddress.toNat % sectorBytes = 0) (s : Device) (replies : Replies)
    (ifile : Ifile) :
    ∃ ps, ps <+: firmwarePages (endAddress.toNat / pageSizeBytes + 1) startAddress ifile ∧
      s.accesses ((writeFirmware replies mapfile ifile startAddress).run []).2 =
        ps.flatMap passAccesses ∧
      (((writeFirmware replies mapfile ifile startAddress).run []).1 = .reachesEnd ∧
          ps = firmwarePages (endAddress.toNat / pageSizeBytes + 1) startAddress ifile ∨
        ((writeFirmware replies mapfile ifile startAddress).run []).1 = .returned (-2) ∧
          ∃ p, ps.getLast? = some p ∧
            replies ((writeFirmware replies mapfile ifile startAddress).run []).2 ≠ p.2) := by
  obtain ⟨ps, hps, hsent, hends⟩ := run_writeFirmwarePages replies
    (endAddress.toNat / pageSizeBytes + 1) startAddress ifile [commandDatagram "ERB" 0 noWord]
  have hstore : Storable ps := by
    intro p hp
    have hpage := hps.subset hp
    refine ⟨fun hno => ?_, length_of_mem_firmwarePages hpage⟩
    have hmem := List.mem_map_of_mem (f := Prod.fst) hpage
    rw [addresses_firmwarePages] at hmem
    obtain ⟨i, -, haddress⟩ := List.mem_map.1 hmem
    have hmod := toNat_address startAddress i
    have hmax : noWord.toNat = 0xFFFFFFFF := rfl
    rw [haddress, hno, hmax] at hmod
    unfold sectorBytes at halign
    omega
  have hclear : s.accesses [commandDatagram "ERB" 0 noWord] = [] ∧
      (s.after [commandDatagram "ERB" 0 noWord]).buffer = [] := by
    rw [Device.accesses, Device.after, List.filterMap_cons_some op_clearBuffers]
    exact ⟨rfl, rfl⟩
  rw [run_writeFirmware hend halign]
  refine ⟨ps, hps, ?_, ?_⟩
  · rw [hsent, Device.accesses_append, hclear.1, accesses_passesDatagrams hstore hclear.2,
      List.nil_append]
  · rwa [hsent]

/-- Whatever is received and whenever the function is left waiting: a write follows an
    erase of its sector, a sector is erased once, and the pages are contiguous. They
    reach the page of the end address unless one does not read as it was written. -/
theorem writeFirmware_erases_first (hend : endAddressOf mapfile = some endAddress)
    (halign : startAddress.toNat % sectorBytes = 0)
    (hfits : startAddress.toNat + pageSizeBytes * (endAddress.toNat / pageSizeBytes + 1) ≤ 2 ^ 32)
    (s : Device) (replies : Replies) (ifile : Ifile) :
    (∀ sent, sent <+: ((writeFirmware replies mapfile ifile startAddress).run []).2 →
        ErasesFirst startAddress (s.accesses sent)) ∧
      (((writeFirmware replies mapfile ifile startAddress).run []).1 = .reachesEnd ∧
          (pagesWritten
            (s.accesses ((writeFirmware replies mapfile ifile startAddress).run []).2)).length =
            endAddress.toNat / pageSizeBytes + 1 ∨
        ((writeFirmware replies mapfile ifile startAddress).run []).1 = .returned (-2) ∧
          ∃ p, (pagesWritten
              (s.accesses ((writeFirmware replies mapfile ifile startAddress).run []).2)).getLast? =
              some p ∧
            replies ((writeFirmware replies mapfile ifile startAddress).run []).2 ≠ p.2) := by
  obtain ⟨ps, hps, hacc, hends⟩ := accesses_writeFirmware hend halign s replies ifile
  have hcontiguous := (contiguous_firmwarePages (f := ifile) hfits).of_isPrefix hps
  rw [hacc, pagesWritten_passes]
  refine ⟨fun sent hsent => ?_, ?_⟩
  · obtain ⟨rest, hrest⟩ := hsent
    refine erasesFirst_of_isPrefix halign hcontiguous ?_
    rw [← hacc, ← hrest, Device.accesses_append]
    exact List.prefix_append _ _
  · rcases hends with ⟨hend, hall⟩ | hends
    · exact Or.inl ⟨hend, by rw [hall, length_firmwarePages]⟩
    · exact Or.inr hends

/-- A map file of firmware of two pages. -/
def twoPages : List Char :=
  "BLOCK\t\tSTART ADDRESS\t\tEND ADDRESS\n\nPage_0\t\t0x00000000\t\t0x000001FF\n".toList

theorem writeFirmware_erases_first_twoPages :
    (∀ sent, sent <+:
          ((writeFirmware (echo ⟨0, []⟩) twoPages ⟨0, [0xCA, 0xFE]⟩ 0x01000000).run []).2 →
        ErasesFirst 0x01000000 (Device.accesses ⟨0, []⟩ sent)) ∧
      (((writeFirmware (echo ⟨0, []⟩) twoPages ⟨0, [0xCA, 0xFE]⟩ 0x01000000).run []).1 =
            .reachesEnd ∧
          (pagesWritten (Device.accesses ⟨0, []⟩
            ((writeFirmware (echo ⟨0, []⟩) twoPages ⟨0, [0xCA, 0xFE]⟩ 0x01000000).run
              []).2)).length = (0x1FF : Word).toNat / pageSizeBytes + 1 ∨
        ((writeFirmware (echo ⟨0, []⟩) twoPages ⟨0, [0xCA, 0xFE]⟩ 0x01000000).run []).1 =
            .returned (-2) ∧
          ∃ p, (pagesWritten (Device.accesses ⟨0, []⟩
              ((writeFirmware (echo ⟨0, []⟩) twoPages ⟨0, [0xCA, 0xFE]⟩ 0x01000000).run
                []).2)).getLast? = some p ∧
            echo ⟨0, []⟩
              ((writeFirmware (echo ⟨0, []⟩) twoPages ⟨0, [0xCA, 0xFE]⟩ 0x01000000).run []).2 ≠
              p.2) :=
  writeFirmware_erases_first (by decide) (by decide) (by decide) ⟨0, []⟩ (echo ⟨0, []⟩)
    ⟨0, [0xCA, 0xFE]⟩

end FpgaEthernet.OdileServer
