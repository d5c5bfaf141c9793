import FpgaEthernet.Flash.Epcq
import FpgaEthernet.Server.ConfigBlockList

/-!
# Writing a configuration page

Model of `writeFlashConfig` and `writeEPCQ` (`server/src/ODILEServer.cpp`). The
words of a message are sent as the host stores them, so that the memory gets each
with its bytes the other way round.

Main results:

* `frameConfig_eq`: the framed message as a list of blocks.
* `frameConfig_positions`: where the headers are inserted, and where they stand.
* `writeFlashConfig_word`: what the sector holds afterwards.
-/

namespace FpgaEthernet.Server

open Epcq

/-! ## Model -/

/-- `CONFIG_PAGE_ADDRESS` (`ODILEServer.cpp` lines 25-26). -/
def configPageAddress : List (BitVec 32) :=
  [0x01F60000, 0x01F70000, 0x01F80000, 0x01F90000, 0x01FA0000, 0x01FB0000, 0x01FC0000, 0x01FD0000,
    0x01FE0000, 0x01FF0000]

/-- `block_size` of block `i` (line 649). -/
def blockSize (nwords i : ℕ) : BitVec 8 :=
  if i < nwords / 63 + 1 - 1 then 63 else BitVec.ofNat 8 (nwords % 63)

/-- `header` (lines 650-651). -/
def frameHeader (blockSize : BitVec 8) : Word :=
  bswap32 ((0xCD <<< 24 : Word) + (blockSize.setWidth 32 <<< 16) + 0x4268)

/-- The loop that inserts the headers (lines 646-653). -/
def frameConfig (configMessage : List Word) : List Word :=
  (List.range (configMessage.length / 63 + 1)).foldl
    (fun m i => m.insertIdx (i * 64) (frameHeader (blockSize configMessage.length i))) configMessage

/-- `write_page` in one pass of the page loop (lines 591-598). -/
def writePage (data : List Word) (pageIdx : ℕ) : List Word :=
  (List.range pageWords).map fun wordIdx => data.getD (pageIdx * pageWords + wordIdx) 0xFFFFFFFF

/-- The page loop (lines 589-624), with the passes left as the first argument. It
    ends early when a page does not read as it was written. -/
def writePages (data : List Word) : ℕ → ℕ → BitVec 32 → ℤ → Flash → Flash × ℤ
  | 0, _, _, wordsWritten, f => (f, wordsWritten)
  | k + 1, pageIdx, currAddress, wordsWritten, f =>
    let page := writePage data pageIdx
    let f' := program f currAddress (page.map bswap32)
    if (readPage f' currAddress).map bswap32 ≠ page then (f', -2)
    else writePages data k (pageIdx + 1) (currAddress + 256) (wordsWritten + pageWords) f'

/-- `writeEPCQ` (lines 557-625). -/
def writeEPCQ (f : Flash) (data : List Word) (startAddress : BitVec 32) (performErase : Bool) :
    Flash × ℤ :=
  let bytesToWrite := data.length * 4
  let pagesToWrite := bytesToWrite / 256 + 1
  if bytesToWrite > 65536 then (f, -1)
  else writePages data pagesToWrite 0 startAddress 0
    (if performErase then eraseSector f startAddress else f)

/-- `writeFlashConfig` (lines 643-668). -/
def writeFlashConfig (f : Flash) (configMessage : List Word) (configPage : ℤ) : Flash × ℤ :=
  if configPage ≥ 10 ∨ configPage < 0 then (f, -2)
  else writeEPCQ f (frameConfig configMessage) (configPageAddress.getD configPage.toNat 0) true

/-! ## The framed message -/

/-- The words of block `j`. -/
def chunk (m : List Word) (j : ℕ) : List Word := (m.drop (63 * j)).take 63

/-- Block `j`, with its header. -/
def block (m : List Word) (j : ℕ) : List Word :=
  frameHeader (blockSize m.length j) :: chunk m j

variable {m : List Word} {j k : ℕ}

theorem length_chunk (m : List Word) (j : ℕ) : (chunk m j).length = min 63 (m.length - 63 * j) := by
  rw [chunk, List.length_take, List.length_drop]

/-- All blocks but the last are full. -/
theorem length_blocks (hk : k ≤ m.length / 63) :
    ((List.range k).flatMap (block m)).length = 64 * k := by
  induction k with
  | zero => rfl
  | succ k ih =>
    rw [List.range_succ, List.flatMap_append, List.flatMap_singleton, List.length_append,
      ih (by omega), block, List.length_cons, length_chunk]
    omega

theorem insertIdx_append (l r : List Word) (w : Word) :
    (l ++ r).insertIdx l.length w = l ++ w :: r := by
  induction l with
  | nil => rfl
  | cons a l ih =>
    rw [List.cons_append, List.length_cons, List.insertIdx_succ_cons, ih]
    rfl

/-- After `k` passes the first `k` blocks have their headers. -/
theorem foldl_blocks (hk : k ≤ m.length / 63 + 1) :
    (List.range k).foldl
      (fun l i => l.insertIdx (i * 64) (frameHeader (blockSize m.length i))) m =
        (List.range k).flatMap (block m) ++ m.drop (63 * k) := by
  induction k with
  | zero => rfl
  | succ k ih =>
    have hlen : k * 64 = ((List.range k).flatMap (block m)).length := by
      rw [length_blocks (by omega), Nat.mul_comm]
    have hsplit : m.drop (63 * k) = chunk m k ++ m.drop (63 * (k + 1)) := by
      rw [chunk, Nat.mul_succ, ← List.drop_drop, List.take_append_drop]
    rw [List.range_succ, List.foldl_append, ih (by omega), List.foldl_cons, List.foldl_nil, hlen,
      insertIdx_append, List.flatMap_append, List.flatMap_singleton, hsplit, List.append_assoc]
    rfl

/-- The framed message. -/
theorem frameConfig_eq (m : List Word) :
    frameConfig m = (List.range (m.length / 63 + 1)).flatMap (block m) := by
  rw [frameConfig, foldl_blocks le_rfl, List.drop_of_length_le (by omega), List.append_nil]

/-- The message is made of its chunks. -/
theorem flatMap_chunk (m : List Word) :
    (List.range (m.length / 63 + 1)).flatMap (chunk m) = m := by
  have h : ∀ k, (List.range k).flatMap (chunk m) = m.take (63 * k) := by
    intro k
    induction k with
    | zero => rfl
    | succ k ih =>
      rw [List.range_succ, List.flatMap_append, List.flatMap_singleton, ih, chunk, Nat.mul_succ,
        List.take_add]
  rw [h, List.take_of_length_le (by omega)]

theorem length_frameConfig (m : List Word) :
    (frameConfig m).length = m.length + (m.length / 63 + 1) := by
  have h : ∀ k, ((List.range k).flatMap (block m)).length =
      ((List.range k).flatMap (chunk m)).length + k := by
    intro k
    induction k with
    | zero => rfl
    | succ k ih =>
      rw [List.range_succ, List.flatMap_append, List.flatMap_append, List.flatMap_singleton,
        List.flatMap_singleton, List.length_append, List.length_append, ih, block, List.length_cons]
      omega
  rw [frameConfig_eq, h, flatMap_chunk]

/-- The size field counts the words of the block without its header. -/
theorem toNat_blockSize (hj : j ≤ m.length / 63) :
    (blockSize m.length j).toNat = (chunk m j).length := by
  rw [length_chunk, blockSize]
  split_ifs with h
  · rw [show (63 : BitVec 8).toNat = 63 from rfl]
    omega
  · rw [BitVec.toNat_ofNat]
    omega

/-- The words of block `j` in the framed message. -/
theorem frameConfig_getElem? (hj : j ≤ m.length / 63) (hk : k ≤ (chunk m j).length) :
    (frameConfig m)[64 * j + k]? = (block m j)[k]? := by
  have hsplit : List.range (m.length / 63 + 1) =
      List.range j ++ j :: (List.range (m.length / 63 - j)).map (j + 1 + ·) := by
    rw [show m.length / 63 + 1 = j + 1 + (m.length / 63 - j) by omega, List.range_add,
      List.range_succ, List.append_assoc]
    rfl
  have hlen : 64 * j + k - ((List.range j).flatMap (block m)).length = k := by
    rw [length_blocks hj]
    omega
  rw [frameConfig_eq, hsplit, List.flatMap_append, List.flatMap_cons,
    List.getElem?_append_right (by rw [length_blocks hj]; omega), hlen,
    List.getElem?_append_left (by rw [block, List.length_cons]; omega)]

/-! ## The positions of the headers -/

/-- The vector after the first `k` insertions. -/
def inserted (m : List Word) (k : ℕ) : List Word :=
  (List.range k).foldl (fun l i => l.insertIdx (i * 64) (frameHeader (blockSize m.length i))) m

/-- The words at the positions that `p` picks, where the first word is at position `n`. -/
def wordsAt (p : ℕ → Bool) (n : ℕ) (l : List Word) : List Word :=
  ((l.zipIdx n).filter fun x => p x.2).map Prod.fst

/-- A position of a header. -/
def isHeaderPosition (n : ℕ) : Bool := n % 64 = 0

theorem wordsAt_append (p : ℕ → Bool) (n : ℕ) (l r : List Word) :
    wordsAt p n (l ++ r) = wordsAt p n l ++ wordsAt p (n + l.length) r := by
  rw [wordsAt, List.zipIdx_append, List.filter_append, List.map_append]
  rfl

theorem wordsAt_cons (p : ℕ → Bool) (n : ℕ) (w : Word) (l : List Word) :
    wordsAt p n (w :: l) = (if p n then [w] else []) ++ wordsAt p (n + 1) l := by
  rw [wordsAt, List.zipIdx_cons, List.filter_cons]
  split_ifs <;> rfl

/-- Where the positions are all picked, or all left. -/
theorem wordsAt_eq {p : ℕ → Bool} {b : Bool} {n : ℕ} {l : List Word}
    (h : ∀ k < l.length, p (n + k) = b) : wordsAt p n l = if b then l else [] := by
  induction l generalizing n with
  | nil => cases b <;> rfl
  | cons w l ih =>
    have hhead : p n = b := h 0 (Nat.succ_pos _)
    have htail := ih (n := n + 1) fun k hk => by
      rw [Nat.add_assoc, Nat.add_comm 1]
      exact h (k + 1) (Nat.succ_lt_succ hk)
    rw [wordsAt_cons, htail, hhead]
    cases b <;> rfl

/-- A block has its header at a multiple of 64, and no other word. -/
theorem wordsAt_block (m : List Word) (j : ℕ) :
    wordsAt isHeaderPosition (64 * j) (block m j) = [frameHeader (blockSize m.length j)] ∧
      wordsAt (fun n => !isHeaderPosition n) (64 * j) (block m j) = chunk m j := by
  have hhead : isHeaderPosition (64 * j) = true := by
    simp [isHeaderPosition]
  have htail : ∀ k < (chunk m j).length, isHeaderPosition (64 * j + 1 + k) = false := by
    intro k hk
    rw [length_chunk] at hk
    simp only [isHeaderPosition, decide_eq_false_iff_not]
    omega
  rw [block, wordsAt_cons, wordsAt_cons, hhead, wordsAt_eq htail,
    wordsAt_eq (b := true) fun k hk => by rw [htail k hk]; rfl]
  exact ⟨rfl, rfl⟩

theorem wordsAt_blocks (hk : k ≤ m.length / 63 + 1) :
    wordsAt isHeaderPosition 0 ((List.range k).flatMap (block m)) =
        (List.range k).map (fun j => frameHeader (blockSize m.length j)) ∧
      wordsAt (fun n => !isHeaderPosition n) 0 ((List.range k).flatMap (block m)) =
        (List.range k).flatMap (chunk m) := by
  induction k with
  | zero => exact ⟨rfl, rfl⟩
  | succ k ih =>
    obtain ⟨hheaders, hrest⟩ := ih (by omega)
    obtain ⟨hheader, hchunk⟩ := wordsAt_block m k
    rw [List.range_succ, List.flatMap_append, List.flatMap_singleton, wordsAt_append,
      wordsAt_append, length_blocks (by omega), Nat.zero_add, hheaders, hrest, hheader, hchunk,
      List.map_append, List.flatMap_append, List.flatMap_singleton]
    exact ⟨rfl, rfl⟩

/-- The top byte of a header, before its bytes are swapped. -/
theorem frameHeader_top :
    ∀ size : BitVec 8, (bswap32 (frameHeader size)).extractLsb' 24 8 = 0xCD := by
  decide +kernel

/-- An insertion never goes behind the end of the vector; in the vector that comes out
    the words at the multiples of 64 are the headers, and the others are the message. -/
theorem frameConfig_positions (m : List Word) :
    (∀ i < m.length / 63 + 1, i * 64 ≤ (inserted m i).length) ∧
      frameConfig m = inserted m (m.length / 63 + 1) ∧
      (frameConfig m).length = m.length + m.length / 63 + 1 ∧
      wordsAt isHeaderPosition 0 (frameConfig m) =
        (List.range (m.length / 63 + 1)).map (fun j => frameHeader (blockSize m.length j)) ∧
      (∀ w ∈ wordsAt isHeaderPosition 0 (frameConfig m), (bswap32 w).extractLsb' 24 8 = 0xCD) ∧
      wordsAt (fun n => !isHeaderPosition n) 0 (frameConfig m) = m := by
  obtain ⟨hheaders, hrest⟩ := wordsAt_blocks (m := m) le_rfl
  rw [← frameConfig_eq] at hheaders hrest
  refine ⟨fun i hi => ?_, rfl, length_frameConfig m, hheaders, fun w hw => ?_, ?_⟩
  · rw [inserted, foldl_blocks hi.le, List.length_append, length_blocks (by omega)]
    omega
  · rw [hheaders] at hw
    obtain ⟨j, -, rfl⟩ := List.mem_map.1 hw
    exact frameHeader_top _
  · rw [hrest, flatMap_chunk]

/-! ## The sector afterwards -/

theorem bswap32_erased : bswap32 0xFFFFFFFF = BitVec.allOnes 32 := by decide

theorem length_writePage (data : List Word) (pageIdx : ℕ) :
    (writePage data pageIdx).length = pageWords := by
  rw [writePage, List.length_map, List.length_range]

theorem getD_writePage {data : List Word} {pageIdx : ℕ} (hk : k < pageWords) :
    ((writePage data pageIdx).map bswap32).getD k 0 =
      bswap32 (data.getD (pageIdx * pageWords + k) 0xFFFFFFFF) := by
  rw [List.getD_eq_getElem?_getD, writePage, List.getElem?_map, List.getElem?_map,
    List.getElem?_range hk]
  rfl

/-- The next page begins 64 words on. -/
theorem wordAddr_next {addr : BitVec 32} (h : addr.toNat + 256 < 2 ^ 32) :
    wordAddr (addr + 256) = wordAddr addr + pageWords := by
  rw [wordAddr, wordAddr, BitVec.toNat_add, show (256 : BitVec 32).toNat = 256 from rfl,
    Nat.mod_eq_of_lt h, show pageWords = 64 from rfl]
  omega

/-- The page loop, from page `idx` on, in a sector that begins at `base`: what it
    leaves in the sector, and that it leaves what came before alone. -/
theorem writePages_word {data : List Word} {base idx : ℕ} {addr : BitVec 32} {n : ℤ} {f : Flash}
    (ha : wordAddr addr = base + pageWords * idx) (hb : addr.toNat + 256 * k < 2 ^ 32)
    (hf : ∀ j, pageWords * idx ≤ j → j < sectorWords → f (base + j) = BitVec.allOnes 32)
    (hl : data.length ≤ pageWords * (idx + k)) :
    (∀ j, pageWords * idx ≤ j → j < sectorWords →
        (writePages data k idx addr n f).1 (base + j) = bswap32 (data.getD j 0xFFFFFFFF)) ∧
      ∀ a < base + pageWords * idx, (writePages data k idx addr n f).1 a = f a := by
  induction k generalizing idx addr n f with
  | zero =>
    rw [Nat.add_zero] at hl
    refine ⟨fun j hj hs => ?_, fun a _ => rfl⟩
    rw [List.getD_eq_getElem?_getD, List.getElem?_eq_none (by omega), Option.getD_none,
      bswap32_erased]
    exact hf j hj hs
  | succ k ih =>
    have hlen : ((writePage data idx).map bswap32).length = pageWords := by
      rw [List.length_map, length_writePage]
    have hlow : ∀ a < base + pageWords * idx,
        program f addr ((writePage data idx).map bswap32) a = f a := fun a h =>
      program_of_lt (by omega)
    have hnext := @ih (idx + 1) (addr + 256) (n + pageWords)
      (program f addr ((writePage data idx).map bswap32)) ?_ ?_ ?_ ?_
    · rcases Nat.lt_or_ge (pageWords * idx) sectorWords with hin | hout
      · -- the page was erased, and reads as it was written
        have hread : readPage (program f addr ((writePage data idx).map bswap32)) addr =
            (writePage data idx).map bswap32 := by
          refine readPage_program hlen fun i hi => ?_
          rw [ha, Nat.add_assoc]
          refine hf _ (by omega) ?_
          rw [show pageWords = 64 from rfl] at hi hin ⊢
          rw [show sectorWords = 16384 from rfl] at hin ⊢
          omega
        have hsame : ¬(readPage (program f addr ((writePage data idx).map bswap32)) addr).map
            bswap32 ≠ writePage data idx := by
          rw [hread, List.map_map, not_not]
          have hid : bswap32 ∘ bswap32 = id := funext bswap32_bswap32
          rw [hid, List.map_id]
        rw [writePages, if_neg hsame]
        refine ⟨fun j hj hs => ?_, fun a h => ?_⟩
        · rcases Nat.lt_or_ge j (pageWords * (idx + 1)) with hj' | hj'
          · rw [Nat.mul_succ] at hj'
            rw [hnext.2 _ (by rw [Nat.mul_succ]; omega),
              show base + j = wordAddr addr + (j - pageWords * idx) by omega,
              program_erased (by omega) ?_, getD_writePage (by omega), Nat.mul_comm idx,
              Nat.add_sub_cancel' hj]
            rw [show wordAddr addr + (j - pageWords * idx) = base + j by omega]
            exact hf j hj hs
          · exact hnext.1 j hj' hs
        · rw [hnext.2 a (by rw [Nat.mul_succ]; omega), hlow a h]
      · refine ⟨fun j hj hs => absurd hs (by omega), fun a h => ?_⟩
        have hkeep := hnext.2 a (by rw [Nat.mul_succ]; omega)
        rw [writePages]
        split_ifs
        · exact hlow a h
        · rw [hkeep, hlow a h]
    · have hone : addr.toNat + 256 < 2 ^ 32 :=
        Nat.lt_of_le_of_lt (Nat.add_le_add_left (Nat.le_mul_of_pos_right 256 k.succ_pos) _) hb
      rw [wordAddr_next hone, ha, Nat.mul_succ, Nat.add_assoc]
    · rw [BitVec.toNat_add, show (256 : BitVec 32).toNat = 256 from rfl]
      omega
    · intro j hj hs
      rw [Nat.mul_succ] at hj
      rw [program_of_le (by omega)]
      exact hf j (by omega) hs
    · rw [show idx + 1 + k = idx + (k + 1) by omega]
      exact hl

theorem wordAddr_configPage {page : ℕ} (h : page < 10) :
    wordAddr (configPageAddress.getD page 0) = 0x7D8000 + 0x4000 * page ∧
      (configPageAddress.getD page 0).toNat = 0x01F60000 + 0x10000 * page := by
  interval_cases page <;> exact ⟨rfl, rfl⟩

/-- What the sector of a page holds after a message that fits has been written,
    whatever was there before. -/
theorem writeFlashConfig_word {f : Flash} {page : ℕ} (hp : page < 10)
    (hfit : (frameConfig m).length * 4 ≤ 65536) (hj : j < sectorWords) :
    (writeFlashConfig f m page).1 (wordAddr (configPageAddress.getD page 0) + j) =
      bswap32 ((frameConfig m).getD j 0xFFFFFFFF) := by
  obtain ⟨hword, haddr⟩ := wordAddr_configPage hp
  have herased : ∀ i, pageWords * 0 ≤ i → i < sectorWords →
      eraseSector f (configPageAddress.getD page 0)
        (wordAddr (configPageAddress.getD page 0) + i) = BitVec.allOnes 32 := by
    intro i _ hi
    rw [eraseSector, if_pos]
    rw [show sectorWords = 16384 from rfl] at hi ⊢
    omega
  have hlen : (frameConfig m).length ≤
      pageWords * (0 + ((frameConfig m).length * 4 / 256 + 1)) := by
    rw [show pageWords = 64 from rfl]
    omega
  have hpages := writePages_word (n := 0)
    (show wordAddr (configPageAddress.getD page 0) =
      wordAddr (configPageAddress.getD page 0) + pageWords * 0 from rfl)
    (by omega) herased hlen
  rw [writeFlashConfig, if_neg (by omega), writeEPCQ, if_neg (by omega), if_pos rfl,
    Int.toNat_natCast]
  exact hpages.1 j (by omega) hj

end FpgaEthernet.Server
