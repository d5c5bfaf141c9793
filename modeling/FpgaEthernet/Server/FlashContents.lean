import FpgaEthernet.Server.WriteFirmware
import FpgaEthernet.Storage.SectorFill

/-!
# What is in the EPCQ memory

`writeFirmware`, `writeEPCQ` and `readEPCQ` (`server/src/ODILEServer.cpp`) with a memory
behind the commands.

Main results:

* `writeFirmware_stores`: the firmware is written to the end, and the memory holds the
  bytes of the file from the start address on.
* `readEPCQ_contents`: what `readEPCQ` makes a file of.
* `write_read`: the words of `writeEPCQ` are in the memory, and are what is read.
* `firmware_dump`: firmware that is read has the bytes of each word reversed.
-/

namespace FpgaEthernet.OdileServer

open Clocked Epcq Storage
open Server (bswap32 bswap32_bswap32)

variable {f g : Flash} {s : Device} {sent : List Datagram} {a startAddress : Word} {k n : ℕ}
  {page data : List Word} {ifile : Ifile}

/-! ## Pages and sectors -/

/-- A memory with words filled in. -/
abbrev filled (f : Flash) (a : Word) (ws : List Word) : Flash :=
  fill sectorWords (BitVec.allOnes 32) f (wordAddr a) ws

/-- The rest of the sector of an address is erased. -/
abbrev ReadyAt (f : Flash) (a : Word) : Prop :=
  Ready sectorWords (BitVec.allOnes 32) f (wordAddr a)

/-- The memory when a page is written: where it begins a sector, this is erased. -/
def beforePage (f : Flash) (a : Word) : Flash :=
  if a.toNat % sectorBytes = 0 then eraseSector f a else f

theorem sectorWords_pos : 0 < sectorWords := by decide

/-- A page ends in the sector it begins in. -/
theorem sectorEnd_page (ha : a.toNat % pageSizeBytes = 0) :
    sectorEnd sectorWords (wordAddr a + pageWords) =
      (wordAddr a / sectorWords + 1) * sectorWords := by
  have hdiv : wordAddr a = a.toNat / 4 := rfl
  refine sectorEnd_of_lt sectorWords_pos ?_ ?_
  all_goals
    rw [hdiv]
    unfold pageSizeBytes at ha
    unfold sectorWords pageWords
    omega

theorem sectorEnd_of_ne (ha : a.toNat % pageSizeBytes = 0) (hne : a.toNat % sectorBytes ≠ 0) :
    sectorEnd sectorWords (wordAddr a) = (wordAddr a / sectorWords + 1) * sectorWords := by
  have hdiv : wordAddr a = a.toNat / 4 := rfl
  refine sectorEnd_of_lt sectorWords_pos ?_ ?_
  all_goals
    rw [hdiv]
    unfold pageSizeBytes at ha
    unfold sectorBytes at hne
    unfold sectorWords
    omega

theorem ready_of_aligned (ha : a.toNat % sectorBytes = 0) : ReadyAt f a := by
  have hsector : wordAddr a = wordAddr a / sectorWords * sectorWords := by
    have hdiv : wordAddr a = a.toNat / 4 := rfl
    unfold sectorBytes at ha
    unfold sectorWords
    omega
  rw [ReadyAt, hsector]
  exact ready_mul sectorWords_pos _

theorem beforePage_erased (ha : a.toNat % pageSizeBytes = 0) (hready : ReadyAt f a) {x : ℕ}
    (hlow : wordAddr a ≤ x) (hhigh : x < sectorEnd sectorWords (wordAddr a + pageWords)) :
    beforePage f a x = BitVec.allOnes 32 := by
  rw [sectorEnd_page ha] at hhigh
  unfold beforePage
  split_ifs with herase
  · rw [eraseSector, if_pos]
    unfold sectorWords at hhigh ⊢
    omega
  · refine hready x hlow ?_
    rwa [sectorEnd_of_ne ha herase]

theorem beforePage_of_lt {x : ℕ} (h : x < wordAddr a) : beforePage f a x = f x := by
  unfold beforePage
  split_ifs with herase
  · rw [eraseSector, if_neg]
    have hdiv : wordAddr a = a.toNat / 4 := rfl
    unfold sectorBytes at herase
    unfold sectorWords
    omega
  · rfl

theorem beforePage_of_le (ha : a.toNat % pageSizeBytes = 0) {x : ℕ}
    (h : sectorEnd sectorWords (wordAddr a + pageWords) ≤ x) : beforePage f a x = f x := by
  rw [sectorEnd_page ha] at h
  unfold beforePage
  split_ifs with herase
  · rw [eraseSector, if_neg]
    unfold sectorWords at h ⊢
    omega
  · rfl

/-- A page that is written. -/
theorem program_beforePage (ha : a.toNat % pageSizeBytes = 0) (hready : ReadyAt f a)
    (hlen : page.length = pageWords) : program (beforePage f a) a page = filled f a page := by
  have hend := le_sectorEnd sectorWords_pos (wordAddr a + pageWords)
  refine eq_fill sectorWords_pos (fun x hx => ?_) (fun i hi => ?_) (fun x hlow hhigh => ?_)
    fun x hx => ?_
  · rw [program_of_lt hx, beforePage_of_lt hx]
  · have herased := beforePage_erased ha hready (x := wordAddr a + i) (by omega) (by omega)
    rw [program_erased hi herased, List.getD_eq_getElem?_getD, List.getD_eq_getElem?_getD,
      List.getElem?_eq_getElem hi]
    rfl
  · rw [program_of_le hlow, beforePage_erased ha hready (by omega) (by rwa [← hlen])]
  · rw [program_of_le ((le_sectorEnd sectorWords_pos _).trans hx),
      beforePage_of_le ha (by rwa [← hlen])]

/-- An erased sector does not show under a fill that begins in it. -/
theorem filled_beforePage {ws : List Word} (ha : a.toNat % pageSizeBytes = 0)
    (hlen : pageWords ≤ ws.length) : filled (beforePage f a) a ws = filled f a ws := by
  refine eq_fill sectorWords_pos (fun x hx => ?_) (fun i hi => fill_add hi) ready_fill
    fun x hx => ?_
  · exact (fill_of_lt hx).trans (beforePage_of_lt hx)
  · refine (fill_of_le sectorWords_pos hx).trans (beforePage_of_le ha ?_)
    exact (sectorEnd_mono (Nat.add_le_add_left hlen _)).trans hx

/-- A page that is written reads so. -/
theorem readPage_filled (hlen : page.length = pageWords) : readPage (filled f a page) a = page := by
  rw [readPage, ← hlen, map_fill le_rfl, List.take_length]

/-! ## Writing firmware -/

/-- The words of the file, as the ODILE has them. -/
def fileWords (n : ℕ) (f : Ifile) : List Word := (f.readPage n).1.map bswap32

@[simp] theorem length_fileWords (n : ℕ) (f : Ifile) : (fileWords n f).length = n := by
  rw [fileWords, List.length_map, length_readPage]

theorem readPage_add (m n : ℕ) (f : Ifile) :
    (f.readPage (m + n)).1 = (f.readPage m).1 ++ ((f.readPage m).2.readPage n).1 ∧
      (f.readPage (m + n)).2 = ((f.readPage m).2.readPage n).2 := by
  induction m generalizing f with
  | zero => rw [Nat.zero_add]; exact ⟨rfl, rfl⟩
  | succ m ih =>
    obtain ⟨hwords, hrest⟩ := ih f.read
    rw [Nat.add_right_comm, Ifile.readPage, Ifile.readPage, hwords, hrest]
    exact ⟨rfl, rfl⟩

theorem fileWords_add (m n : ℕ) (f : Ifile) :
    fileWords (m + n) f = fileWords m f ++ fileWords n (f.readPage m).2 := by
  rw [fileWords, (readPage_add m n f).1, List.map_append]
  rfl

theorem map_bswap32_map (ws : List Word) : (ws.map bswap32).map bswap32 = ws := by
  rw [List.map_map, funext bswap32_bswap32 (f := bswap32 ∘ bswap32) (g := id), List.map_id]

/-- A pass of the page loop, with the memory behind it. -/
theorem pass_memory (hs : (s.after sent).buffer = []) (hne : a ≠ noWord)
    (ha : a.toNat % pageSizeBytes = 0) (hlen : page.length = pageSizeWords)
    (hready : ReadyAt (memoryAfter f s sent) a) :
    memoryAfter f s (sent ++ passDatagrams (a, page)) =
        filled (memoryAfter f s sent) a (page.map bswap32) ∧
      memoryReplies f s (sent ++ passDatagrams (a, page)) = page ∧
      (s.after (sent ++ passDatagrams (a, page))).buffer = [] := by
  obtain ⟨hacc, hbuffer⟩ := accesses_passDatagrams (p := (a, page)) hne hlen hs
  have hlen' : (page.map bswap32).length = pageWords := by
    rw [List.length_map, hlen]
    rfl
  have hmemory : memoryAfter f s (sent ++ passDatagrams (a, page)) =
      filled (memoryAfter f s sent) a (page.map bswap32) := by
    rw [← program_beforePage ha hready hlen', memoryAfter, Device.accesses_append, hacc,
      List.foldl_append, passAccesses, beforePage]
    split_ifs <;> rfl
  refine ⟨hmemory, ?_, ?_⟩
  · have hlast : (s.accesses (sent ++ passDatagrams (a, page))).getLast? =
        some (.read a pageSizeWords) := by
      rw [Device.accesses_append, hacc, passAccesses, ← List.append_assoc, List.getLast?_append]
      rfl
    rw [memoryReplies, hlast, hmemory]
    show (readPage (filled _ a (page.map bswap32)) a).map bswap32 = page
    rw [readPage_filled hlen', map_bswap32_map]
  · rw [Device.after_append]
    exact hbuffer

/-- The page loop, from a page at `x` on: it comes to its end, and the memory has the
    words of the file. -/
theorem run_passes {x : ℕ} (ifile : Ifile) (hs : (s.after sent).buffer = [])
    (ha : a.toNat % pageSizeBytes = 0)
    (hfits : a.toNat + pageSizeBytes * k ≤ 2 ^ 32) (hx : 0 < k → wordAddr a = x)
    (hready : Ready sectorWords (BitVec.allOnes 32) (memoryAfter f s sent) x) :
    ((writeFirmwarePages (memoryReplies f s) k a ifile).run sent).1 = .reachesEnd ∧
      memoryAfter f s ((writeFirmwarePages (memoryReplies f s) k a ifile).run sent).2 =
        fill sectorWords (BitVec.allOnes 32) (memoryAfter f s sent) x
          (fileWords (pageSizeWords * k) ifile) := by
  induction k generalizing a ifile sent x with
  | zero => exact ⟨rfl, (fill_nil sectorWords_pos hready).symm⟩
  | succ k ih =>
    obtain rfl := hx k.succ_pos
    have hne : a ≠ noWord := by
      rintro rfl
      exact absurd ha (by decide)
    obtain ⟨hmemory, hreply, hbuffer⟩ :=
      pass_memory (f := f) hs hne ha (length_readPage pageSizeWords ifile) hready
    have hnext : (a + 256).toNat = (a.toNat + 256) % 2 ^ 32 := BitVec.toNat_add a 256
    have hlen : (fileWords pageSizeWords ifile).length = pageWords := length_fileWords _ _
    unfold pageSizeBytes at ha hfits
    obtain ⟨hend, hrest⟩ := @ih (sent ++ passDatagrams (a, _)) (a + 256) _
      (ifile.readPage pageSizeWords).2 hbuffer
      (by unfold pageSizeBytes; omega) (by unfold pageSizeBytes; omega)
      (fun hk => Server.wordAddr_next (by omega))
      (by rw [hmemory, ← hlen]; exact ready_fill)
    rw [run_writeFirmwarePages_succ, hreply, if_neg (not_not.2 rfl)]
    refine ⟨hend, hrest.trans ?_⟩
    have happend : fill sectorWords (BitVec.allOnes 32)
        (filled (memoryAfter f s sent) a (fileWords pageSizeWords ifile)) (wordAddr a + pageWords)
          (fileWords (pageSizeWords * k) (ifile.readPage pageSizeWords).2) =
        filled (memoryAfter f s sent) a (fileWords pageSizeWords ifile ++
          fileWords (pageSizeWords * k) (ifile.readPage pageSizeWords).2) := by
      rw [← hlen]
      exact fill_append sectorWords_pos
    rw [hmemory, Nat.mul_succ, Nat.add_comm (pageSizeWords * k), fileWords_add]
    exact happend

theorem wordBytes_ofBytes (b₀ b₁ b₂ b₃ : BitVec 8) :
    wordBytes (ofBytes [b₀, b₁, b₂, b₃]) = [b₀, b₁, b₂, b₃] := by
  simp only [wordBytes, ofBytes, List.foldr_cons, List.foldr_nil, List.cons.injEq, and_true]
  refine ⟨?_, ?_, ?_, ?_⟩
  all_goals
    apply BitVec.eq_of_getLsbD_eq
    intro i hi
    simp only [BitVec.getLsbD_extractLsb', BitVec.getLsbD_or, BitVec.getLsbD_shiftLeft,
      BitVec.getLsbD_setWidth, BitVec.ofNat_eq_ofNat, BitVec.getLsbD_zero]
    interval_cases i <;> simp

/-- A word of the file has four of its bytes. -/
theorem wordBytes_read (h : 4 ≤ ifile.bytes.length) :
    wordBytes ifile.read.word = ifile.bytes.take 4 := by
  have hdrop : (wordBytes ifile.word).drop ifile.bytes.length = [] := List.drop_of_length_le h
  rw [Ifile.read, hdrop, List.append_nil]
  have hlength : (ifile.bytes.take 4).length = 4 := List.length_take_of_le h
  obtain ⟨b₀, b₁, b₂, b₃, hbytes⟩ := List.length_eq_four.1 hlength
  rw [hbytes]
  exact wordBytes_ofBytes b₀ b₁ b₂ b₃

/-- As long as there are bytes, the words are those of the file. -/
theorem bytes_fileWords (h : 4 * n ≤ ifile.bytes.length) :
    (fileWords n ifile).flatMap wordBytes = ifile.bytes.take (4 * n) := by
  induction n generalizing ifile with
  | zero => rfl
  | succ n ih =>
    have hwords : fileWords (n + 1) ifile = ifile.read.word :: fileWords n ifile.read := by
      rw [fileWords, Ifile.readPage, List.map_cons, bswap32_bswap32]
      rfl
    have hrest : 4 * n ≤ ifile.read.bytes.length := by
      show 4 * n ≤ (ifile.bytes.drop 4).length
      rw [List.length_drop]
      omega
    rw [hwords, List.flatMap_cons, wordBytes_read (by omega), ih hrest, Nat.mul_succ,
      Nat.add_comm, List.take_add]
    rfl

/-- The words of the memory from a word address on. -/
def contents (f : Flash) (a : Word) (n : ℕ) : List Word :=
  (List.range n).map fun i => f (wordAddr a + i)

theorem contents_filled {ws : List Word} (h : n ≤ ws.length) :
    contents (filled f a ws) a n = ws.take n := map_fill h

theorem fileWords_take (h : n ≤ k) (f : Ifile) : (fileWords k f).take n = fileWords n f := by
  obtain ⟨m, rfl⟩ := Nat.exists_eq_add_of_le h
  rw [fileWords_add, List.take_left' (length_fileWords n f)]

section

variable {mapfile : List Char} {endAddress : Word}

/-- The memory after the firmware has been written. -/
theorem writeFirmware_memory (hend : endAddressOf mapfile = some endAddress)
    (halign : startAddress.toNat % sectorBytes = 0)
    (hfits : startAddress.toNat + pageSizeBytes * (endAddress.toNat / pageSizeBytes + 1) ≤ 2 ^ 32)
    (f : Flash) (s : Device) (ifile : Ifile) :
    ((writeFirmware (memoryReplies f s) mapfile ifile startAddress).run []).1 = .reachesEnd ∧
      memoryAfter f s ((writeFirmware (memoryReplies f s) mapfile ifile startAddress).run []).2 =
        filled f startAddress
          (fileWords (pageSizeWords * (endAddress.toNat / pageSizeBytes + 1)) ifile) := by
  have hclear : memoryAfter f s [commandDatagram "ERB" 0 noWord] = f ∧
      (s.after [commandDatagram "ERB" 0 noWord]).buffer = [] := by
    rw [memoryAfter, Device.accesses, Device.after, List.filterMap_cons_some op_clearBuffers]
    exact ⟨rfl, rfl⟩
  obtain ⟨hreaches, hmemory⟩ := run_passes (f := f) ifile hclear.2
    (by unfold sectorBytes at halign; unfold pageSizeBytes; omega) hfits (fun _ => rfl)
    (ready_of_aligned halign)
  rw [hclear.1] at hmemory
  rw [run_writeFirmware hend halign]
  exact ⟨hreaches, hmemory⟩

/-- Whatever is in the memory before, the firmware is written to its end; the memory then
    has the words of the file from the start address on, and the bytes of the file as far
    as they go. What is left of the last sector is erased, and all else is as before. -/
theorem writeFirmware_stores (hend : endAddressOf mapfile = some endAddress)
    (halign : startAddress.toNat % sectorBytes = 0)
    (hfits : startAddress.toNat + pageSizeBytes * (endAddress.toNat / pageSizeBytes + 1) ≤ 2 ^ 32)
    (f : Flash) (s : Device) (ifile : Ifile) :
    ((writeFirmware (memoryReplies f s) mapfile ifile startAddress).run []).1 = .reachesEnd ∧
      memoryAfter f s ((writeFirmware (memoryReplies f s) mapfile ifile startAddress).run []).2 =
        filled f startAddress
          (fileWords (pageSizeWords * (endAddress.toNat / pageSizeBytes + 1)) ifile) ∧
      ∀ n ≤ pageSizeWords * (endAddress.toNat / pageSizeBytes + 1),
        4 * n ≤ ifile.bytes.length →
        (contents (memoryAfter f s ((writeFirmware (memoryReplies f s) mapfile ifile
            startAddress).run []).2) startAddress n).flatMap wordBytes =
          ifile.bytes.take (4 * n) := by
  obtain ⟨hreaches, hmemory⟩ := writeFirmware_memory hend halign hfits f s ifile
  refine ⟨hreaches, hmemory, fun n hn hbytes => ?_⟩
  have hcontents : contents (filled f startAddress (fileWords
      (pageSizeWords * (endAddress.toNat / pageSizeBytes + 1)) ifile)) startAddress n =
        (fileWords (pageSizeWords * (endAddress.toNat / pageSizeBytes + 1)) ifile).take n :=
    contents_filled (by rwa [length_fileWords])
  rw [hmemory, hcontents, fileWords_take hn, bytes_fileWords hbytes]

end

theorem writeFirmware_stores_twoPages :
    ((writeFirmware (memoryReplies (fun _ => 0) ⟨0, []⟩) twoPages ⟨0, [0xCA, 0xFE, 0x12, 0x34]⟩
        0x01000000).run []).1 = .reachesEnd ∧
      memoryAfter (fun _ => 0) ⟨0, []⟩ ((writeFirmware (memoryReplies (fun _ => 0) ⟨0, []⟩) twoPages
          ⟨0, [0xCA, 0xFE, 0x12, 0x34]⟩ 0x01000000).run []).2 =
        filled (fun _ => 0) 0x01000000 (fileWords
          (pageSizeWords * ((0x1FF : Word).toNat / pageSizeBytes + 1))
          ⟨0, [0xCA, 0xFE, 0x12, 0x34]⟩) ∧
      ∀ n ≤ pageSizeWords * ((0x1FF : Word).toNat / pageSizeBytes + 1),
        4 * n ≤ (⟨0, [0xCA, 0xFE, 0x12, 0x34]⟩ : Ifile).bytes.length →
        (contents (memoryAfter (fun _ => 0) ⟨0, []⟩ ((writeFirmware
            (memoryReplies (fun _ => 0) ⟨0, []⟩) twoPages ⟨0, [0xCA, 0xFE, 0x12, 0x34]⟩
            0x01000000).run []).2) 0x01000000 n).flatMap wordBytes =
          (⟨0, [0xCA, 0xFE, 0x12, 0x34]⟩ : Ifile).bytes.take (4 * n) :=
  writeFirmware_stores (by decide) (by decide) (by decide) (fun _ => 0) ⟨0, []⟩
    ⟨0, [0xCA, 0xFE, 0x12, 0x34]⟩

/-! ## Writing words -/

/-- A page of the memory is erased, and what follows it in its sector. -/
def ErasedFrom (f : Flash) (a : Word) : Prop :=
  ∀ x, wordAddr a ≤ x → x < sectorEnd sectorWords (wordAddr a + pageWords) →
    f x = BitVec.allOnes 32

/-- A page that is written to an erased one. -/
theorem program_erasedFrom (h : ErasedFrom f a) (hlen : page.length = pageWords) :
    program f a page = filled f a page := by
  have hend := le_sectorEnd sectorWords_pos (wordAddr a + pageWords)
  refine eq_fill sectorWords_pos (fun x hx => program_of_lt hx) (fun i hi => ?_)
    (fun x hlow hhigh => ?_) fun x hx => ?_
  · rw [program_erased hi (h _ (by omega) (by omega)), List.getD_eq_getElem?_getD,
      List.getD_eq_getElem?_getD, List.getElem?_eq_getElem hi]
    rfl
  · rw [program_of_le hlow, h x (by omega) (by rwa [← hlen])]
  · exact program_of_le ((le_sectorEnd sectorWords_pos _).trans hx)

/-- The next page in the sector is erased as well. -/
theorem erasedFrom_next {b : Word} (hlen : page.length = pageWords)
    (hb : wordAddr b = wordAddr a + pageWords) (hpage : b.toNat % pageSizeBytes = 0)
    (hne : b.toNat % sectorBytes ≠ 0) : ErasedFrom (filled f a page) b := by
  intro x hlow hhigh
  rw [sectorEnd_page hpage, ← sectorEnd_of_ne hpage hne, hb, ← hlen] at hhigh
  exact ready_fill x (by rwa [hlen, ← hb]) hhigh

/-- The page loop in an erased sector. -/
theorem run_writePages_memory {x : ℕ} {wordsWritten : ℤ} (data : List Word)
    (hs : (s.after sent).buffer = []) (ha : a.toNat % pageSizeBytes = 0)
    (hin : a.toNat % sectorBytes + pageSizeBytes * k ≤ sectorBytes)
    (herased : 0 < k → ErasedFrom (memoryAfter f s sent) a) (hx : 0 < k → wordAddr a = x)
    (hready : Ready sectorWords (BitVec.allOnes 32) (memoryAfter f s sent) x) :
    ((writePages (memoryReplies f s) data k n a wordsWritten).run sent).1 =
        wordsWritten + pageSizeWords * k ∧
      memoryAfter f s ((writePages (memoryReplies f s) data k n a wordsWritten).run sent).2 =
        fill sectorWords (BitVec.allOnes 32) (memoryAfter f s sent) x
          (((pagesFrom data k n a).flatMap Prod.snd).map bswap32) := by
  induction k generalizing n a sent x wordsWritten with
  | zero =>
    refine ⟨?_, (fill_nil sectorWords_pos hready).symm⟩
    rw [Nat.cast_zero, mul_zero, add_zero]
    rfl
  | succ k ih =>
    obtain rfl := hx k.succ_pos
    have herased := herased k.succ_pos
    have hne : a ≠ noWord := by
      rintro rfl
      exact absurd ha (by decide)
    have hlen : ((pageOf data n).map bswap32).length = pageWords := by
      rw [List.length_map, length_pageOf]
      rfl
    obtain ⟨hmemory, hreply⟩ :=
      memory_pageDatagrams (f := f) hne (length_pageOf data n) hs
    rw [program_erasedFrom herased hlen] at hmemory hreply
    rw [readPage_filled hlen, map_bswap32_map] at hreply
    have hbuffer : (s.after (sent ++ pageDatagrams a (pageOf data n))).buffer = [] := by
      rw [Device.after_append, (accesses_pageDatagrams hne (length_pageOf data n) hs).2]
    have hnext : (a + 256).toNat = (a.toNat + 256) % 2 ^ 32 := BitVec.toNat_add a 256
    unfold pageSizeBytes sectorBytes at *
    have haddr : 0 < k → wordAddr (a + 256) = wordAddr a + pageWords := fun hk =>
      Server.wordAddr_next (by omega)
    obtain ⟨hwritten, hrest⟩ := @ih (sent ++ pageDatagrams a (pageOf data n)) (a + 256)
      (n + pageSizeWords) _ (wordsWritten + pageSizeWords) hbuffer (by omega) (by omega)
      (fun hk => by
        rw [hmemory]
        exact erasedFrom_next hlen (haddr hk) (by unfold pageSizeBytes; omega)
          (by unfold sectorBytes; omega)) haddr
      (by rw [hmemory, ← hlen]; exact ready_fill)
    have happend : fill sectorWords (BitVec.allOnes 32)
        (filled (memoryAfter f s sent) a ((pageOf data n).map bswap32)) (wordAddr a + pageWords)
          (((pagesFrom data k (n + pageSizeWords) (a + 256)).flatMap Prod.snd).map bswap32) =
        filled (memoryAfter f s sent) a ((pageOf data n).map bswap32 ++
          ((pagesFrom data k (n + pageSizeWords) (a + 256)).flatMap Prod.snd).map bswap32) := by
      rw [← hlen]
      exact fill_append sectorWords_pos
    rw [run_writePages_succ, hreply, if_neg (not_not.2 rfl)]
    refine ⟨hwritten.trans ?_, hrest.trans ?_⟩
    · push_cast
      ring
    · rw [hmemory, happend, pagesFrom, List.flatMap_cons, List.map_append]

/-- The words that `writeEPCQ` writes: the data, and padding to the end of a page. -/
def padded (data : List Word) : List Word :=
  data ++ List.replicate (pageSizeWords * (data.length * 4 / pageSizeBytes + 1) - data.length)
    0xFFFFFFFF

theorem length_flatMap_pagesFrom (data : List Word) (k n : ℕ) (a : Word) :
    ((pagesFrom data k n a).flatMap Prod.snd).length = pageSizeWords * k := by
  induction k generalizing n a with
  | zero => rfl
  | succ k ih =>
    rw [pagesFrom, List.flatMap_cons, List.length_append, length_pageOf, ih, Nat.mul_succ,
      Nat.add_comm]

theorem flatMap_pagesFrom_padded (data : List Word) (a : Word) :
    (pagesFrom data (data.length * 4 / pageSizeBytes + 1) 0 a).flatMap Prod.snd = padded data := by
  have hlast : data.length ≤ 0 + pageSizeWords * (data.length * 4 / pageSizeBytes + 1) := by
    unfold pageSizeWords pageSizeBytes
    omega
  obtain ⟨m, hpages⟩ := flatMap_pagesFrom hlast a
  have hlen := congrArg List.length hpages
  rw [length_flatMap_pagesFrom, List.drop_zero, List.length_append, List.length_replicate] at hlen
  rw [hpages, List.drop_zero, padded, hlen, Nat.add_sub_cancel_left]

theorem length_padded (data : List Word) :
    (padded data).length = pageSizeWords * (data.length * 4 / pageSizeBytes + 1) := by
  rw [padded, List.length_append, List.length_replicate]
  unfold pageSizeWords pageSizeBytes
  omega

/-- Whatever is in the memory before, less than a sector of data is written to the end:
    the sector of the start address holds the data and is erased behind it, and all else
    is as before. -/
theorem writeEPCQ_memory (halign : startAddress.toNat % sectorBytes = 0)
    (hlt : data.length * 4 < sectorBytes) (f : Flash) (s : Device) :
    ((writeEPCQ (memoryReplies f s) data startAddress true).run []).1 = (padded data).length ∧
      memoryAfter f s ((writeEPCQ (memoryReplies f s) data startAddress true).run []).2 =
        filled f startAddress ((padded data).map bswap32) := by
  have hstore := storable_pagesFrom data (data.length * 4 / pageSizeBytes + 1) 0 halign
  have hstart : startAddress ≠ noWord := (hstore _ List.mem_cons_self).1
  obtain ⟨hacc, hbuffer⟩ := accesses_begun (s := s) hstart true
  have hbegun : memoryAfter f s (begun startAddress true) = beforePage f startAddress := by
    rw [memoryAfter, hacc, beforePage, if_pos halign]
    rfl
  have hpage : startAddress.toNat % pageSizeBytes = 0 := by
    unfold sectorBytes at halign
    unfold pageSizeBytes
    omega
  have hready : ReadyAt f startAddress := ready_of_aligned halign
  have herased : ErasedFrom (beforePage f startAddress) startAddress := fun x hlow hhigh =>
    beforePage_erased hpage hready hlow hhigh
  have hend := le_sectorEnd sectorWords_pos (wordAddr startAddress)
  obtain ⟨hwritten, hmemory⟩ := run_writePages_memory (f := f) (n := 0)
    (k := data.length * 4 / pageSizeBytes + 1) data hbuffer hpage
    (by rw [halign]; unfold sectorBytes at hlt ⊢; unfold pageSizeBytes; omega)
    (fun _ => by rw [hbegun]; exact herased) (fun _ => rfl)
    (by rw [hbegun]; exact ready_of_aligned halign)
  rw [run_writeEPCQ _ hlt.le]
  refine ⟨?_, ?_⟩
  · rw [hwritten, length_padded]
    push_cast
    ring
  · rw [hmemory, hbegun, flatMap_pagesFrom_padded]
    refine filled_beforePage hpage ?_
    rw [List.length_map, length_padded]
    exact Nat.le_mul_of_pos_right pageSizeWords (Nat.succ_pos _)

/-! ## Reading it -/

/-- The memory as the host reads it, by byte address. -/
def hostView (f : Flash) (a : Word) : Word := bswap32 (f (wordAddr a))

theorem flashWords_hostView (ha : a.toNat % 4 = 0) (hfits : a.toNat + 4 * n ≤ 2 ^ 32) :
    flashWords (hostView f) a n = (contents f a n).map bswap32 := by
  rw [flashWords, contents, List.map_map]
  refine List.map_congr_left fun k hk => ?_
  have hk := List.mem_range.1 hk
  have hword : wordAddr (a + BitVec.ofNat 32 (4 * k)) = wordAddr a + k := by
    rw [wordAddr, wordAddr, BitVec.toNat_add, BitVec.toNat_ofNat, Nat.add_mod_mod,
      Nat.mod_eq_of_lt (by omega)]
    omega
  rw [hostView, hword]
  rfl

/-- Full pages are read into the file as they are in the memory. -/
theorem readEPCQ_contents {replies : Replies} (h : Answers (hostView f) s replies)
    (ha : a.toNat % pageSizeBytes = 0) (hfits : a.toNat + 4 * n ≤ 2 ^ 32)
    (hn : n % pageSizeWords = 0) :
    ((readEPCQ replies a n).run []).1 =
      (((contents f a n).map bswap32).flatMap wordBytes, (n : ℤ)) := by
  obtain ⟨b, hfile⟩ := run_readEPCQ h a n
  have hpages : pageSizeWords * (n / pageSizeWords) = n :=
    Nat.mul_div_cancel' (Nat.dvd_of_mod_eq_zero hn)
  have hne : ∀ i < n / pageSizeWords, a + BitVec.ofNat 32 (pageSizeBytes * i) ≠ noWord := by
    intro i _ hno
    have hmod := toNat_address a i
    have hmax : noWord.toNat = 0xFFFFFFFF := rfl
    rw [hno, hmax] at hmod
    unfold pageSizeBytes at ha
    omega
  have hbytes : a.toNat % 4 = 0 := by
    unfold pageSizeBytes at ha
    omega
  rw [hfile, hn, pagesRead_eq hne, hpages, flashWords_hostView hbytes hfits]
  simp [bytesWritten]

/-- Whatever is in the memory before, less than a sector of data is written to its end
    and stays, padded to a page, in an otherwise erased sector; all else is as before.
    Read into a file, it is the data in the byte order of the host. -/
theorem write_read (halign : startAddress.toNat % sectorBytes = 0)
    (hlt : data.length * 4 < sectorBytes) (f : Flash) (s : Device) :
    ((writeEPCQ (memoryReplies f s) data startAddress true).run []).1 = (padded data).length ∧
      memoryAfter f s ((writeEPCQ (memoryReplies f s) data startAddress true).run []).2 =
        filled f startAddress ((padded data).map bswap32) ∧
      ∀ s' replies, Answers (hostView (memoryAfter f s ((writeEPCQ (memoryReplies f s) data
          startAddress true).run []).2)) s' replies →
        ∀ n ≤ (padded data).length, n % pageSizeWords = 0 →
          ((readEPCQ replies startAddress n).run []).1 =
            (((padded data).take n).flatMap wordBytes, (n : ℤ)) := by
  obtain ⟨hwritten, hmemory⟩ := writeEPCQ_memory halign hlt f s
  refine ⟨hwritten, hmemory, fun s' replies h n hle hn => ?_⟩
  have hsector : (padded data).length * 4 ≤ sectorBytes := by
    rw [length_padded]
    unfold sectorBytes at hlt ⊢
    unfold pageSizeWords pageSizeBytes
    omega
  rw [hmemory] at h
  have hwords : contents (filled f startAddress ((padded data).map bswap32)) startAddress n =
      ((padded data).map bswap32).take n := contents_filled (by rwa [List.length_map])
  unfold sectorBytes at halign hsector
  rw [readEPCQ_contents h (by unfold pageSizeBytes; omega) (by omega) hn, hwords,
    ← List.map_take, map_bswap32_map]

theorem write_read_page :
    ((writeEPCQ (memoryReplies (fun _ => 0) ⟨0, []⟩) [0xCAFE, 0xBEEF] 0x01F60000 true).run
        []).1 = (padded [0xCAFE, 0xBEEF]).length ∧
      memoryAfter (fun _ => 0) ⟨0, []⟩ ((writeEPCQ (memoryReplies (fun _ => 0) ⟨0, []⟩)
          [0xCAFE, 0xBEEF] 0x01F60000 true).run []).2 =
        filled (fun _ => 0) 0x01F60000 ((padded [0xCAFE, 0xBEEF]).map bswap32) ∧
      ∀ s' replies, Answers (hostView (memoryAfter (fun _ => 0) ⟨0, []⟩ ((writeEPCQ
          (memoryReplies (fun _ => 0) ⟨0, []⟩) [0xCAFE, 0xBEEF] 0x01F60000 true).run []).2)) s'
            replies →
        ∀ n ≤ (padded [0xCAFE, 0xBEEF]).length, n % pageSizeWords = 0 →
          ((readEPCQ replies 0x01F60000 n).run []).1 =
            (((padded [0xCAFE, 0xBEEF]).take n).flatMap wordBytes, (n : ℤ)) :=
  write_read (by decide) (by decide) (fun _ => 0) ⟨0, []⟩

theorem wordBytes_bswap32 (w : Word) : wordBytes (bswap32 w) = (wordBytes w).reverse := by
  have hbyte : ∀ j < 4, (bswap32 w).extractLsb' (8 * j) 8 = w.extractLsb' (8 * (3 - j)) 8 := by
    intro j hj
    apply BitVec.eq_of_getLsbD_eq
    intro i hi
    rw [BitVec.getLsbD_extractLsb', BitVec.getLsbD_extractLsb',
      Server.getLsbD_bswap32 w (by omega), show 8 * j + i = 8 * j + i from rfl,
      show (8 * j + i) / 8 = j by omega, show (8 * j + i) % 8 = i by omega]
  rw [wordBytes, show (0 : ℕ) = 8 * 0 from rfl]
  exact congrArg₂ _ (hbyte 0 (by decide)) (congrArg₂ _ (hbyte 1 (by decide))
    (congrArg₂ _ (hbyte 2 (by decide)) (congrArg₂ _ (hbyte 3 (by decide)) rfl)))

/-- Firmware that has been written, read into a file, is the file with the bytes of each
    word the other way round. -/
theorem firmware_dump {mapfile : List Char} {endAddress : Word}
    (hend : endAddressOf mapfile = some endAddress)
    (halign : startAddress.toNat % sectorBytes = 0)
    (hfits : startAddress.toNat + pageSizeBytes * (endAddress.toNat / pageSizeBytes + 1) ≤ 2 ^ 32)
    (f : Flash) (s s' : Device) (ifile : Ifile) (replies : Replies)
    (h : Answers (hostView (memoryAfter f s ((writeFirmware (memoryReplies f s) mapfile ifile
      startAddress).run []).2)) s' replies) (hn : n % pageSizeWords = 0)
    (hle : n ≤ pageSizeWords * (endAddress.toNat / pageSizeBytes + 1)) :
    ((readEPCQ replies startAddress n).run []).1 =
      ((fileWords n ifile).flatMap fun w => (wordBytes w).reverse, (n : ℤ)) := by
  rw [(writeFirmware_memory hend halign hfits f s ifile).2] at h
  set words := pageSizeWords * (endAddress.toNat / pageSizeBytes + 1) with hwords
  have hcontents : contents (filled f startAddress (fileWords words ifile)) startAddress n =
      (fileWords words ifile).take n := contents_filled (by rwa [length_fileWords])
  have hlast : startAddress.toNat + 4 * n ≤ 2 ^ 32 := by
    unfold pageSizeWords at hwords
    unfold pageSizeBytes at hwords hfits
    omega
  unfold sectorBytes at halign
  rw [readEPCQ_contents h (by unfold pageSizeBytes; omega) hlast hn, hcontents,
    fileWords_take hle, List.flatMap_map]
  exact congrArg (·, (n : ℤ)) (congrArg₂ _ (funext wordBytes_bswap32) rfl)

theorem firmware_dump_twoPages :
    ((readEPCQ (repliesOf (hostView (memoryAfter (fun _ => 0) ⟨0, []⟩ ((writeFirmware
        (memoryReplies (fun _ => 0) ⟨0, []⟩) twoPages ⟨0, [0xCA, 0xFE, 0x12, 0x34]⟩
        0x01000000).run []).2)) ⟨0, []⟩) 0x01000000 (128 : ℕ)).run []).1 =
      ((fileWords 128 ⟨0, [0xCA, 0xFE, 0x12, 0x34]⟩).flatMap fun w => (wordBytes w).reverse,
        ((128 : ℕ) : ℤ)) :=
  firmware_dump (show endAddressOf twoPages = some 0x1FF by decide) (by decide) (by decide)
    (fun _ => 0) ⟨0, []⟩ ⟨0, []⟩ ⟨0, [0xCA, 0xFE, 0x12, 0x34]⟩ _ (answers_repliesOf _ _)
    (by decide) (by decide)

end FpgaEthernet.OdileServer
