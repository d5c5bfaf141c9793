import FpgaEthernet.Flash.ConfigDataManager
import FpgaEthernet.Server.FlashConfig

/-!
# Configuration pages, written and loaded

The host writes a message to a configuration page, `config_data_manager` loads
the page. In the size field of a block the host gives the number of words after
the header (`ODILEServer.cpp` line 649), the manager counts the header as well
(`config_data_manager.vhd` lines 190-191, 213).

Main results:

* `loaded_words`: every block loses its last word.
* `config_loaded_iff`: the message comes back only if it is empty.
-/

namespace FpgaEthernet.ConfigRoundTrip

open Clocked ConfigDataManager Epcq Server

variable {f : Flash} {m : List Word} {page j : ℕ}

theorem wordAddr_blockAddr (hp : page < 10) (hj : j ≤ 256) :
    wordAddr (blockAddr page j) = wordAddr (configPageAddress.getD page 0) + 64 * j := by
  rw [wordAddr, blockAddr_toNat hp hj, (wordAddr_configPage hp).1]
  omega

/-- A message that fits has at most 256 blocks. -/
theorem blocks_le (hfit : (frameConfig m).length * 4 ≤ 65536) : m.length / 63 + 1 ≤ 256 := by
  rw [length_frameConfig] at hfit
  omega

/-- The fields of a header, as the manager reads them. -/
theorem frameHeader_fields : ∀ size : BitVec 8, IsHeader (bswap32 (frameHeader size)) ∧
    sizeField (bswap32 (frameHeader size)) = size.toNat ∧
    lo (bswap32 (frameHeader size)) = 0x4268 := by
  decide +kernel

/-- The words of a block in the memory. -/
theorem block_word (hp : page < 10) (hfit : (frameConfig m).length * 4 ≤ 65536)
    (hj : j ≤ m.length / 63) {k : ℕ} (hk : k ≤ (chunk m j).length) :
    some ((writeFlashConfig f m page).1 (wordAddr (blockAddr page j) + k)) =
      ((block m j).map bswap32)[k]? := by
  have h256 := blocks_le hfit
  have hlen := length_chunk m j
  have hk' : k < (block m j).length := by
    rw [block, List.length_cons]
    omega
  have hsector : 64 * j + k < sectorWords := by
    rw [show sectorWords = 16384 from rfl]
    omega
  rw [wordAddr_blockAddr hp (by omega), Nat.add_assoc, writeFlashConfig_word hp hfit hsector,
    List.getD_eq_getElem?_getD, frameConfig_getElem? hj hk, List.getElem?_map,
    List.getElem?_eq_getElem hk']
  rfl

theorem blockHeader_eq (hp : page < 10) (hfit : (frameConfig m).length * 4 ≤ 65536)
    (hj : j ≤ m.length / 63) :
    blockHeader (writeFlashConfig f m page).1 page j =
      bswap32 (frameHeader (blockSize m.length j)) := by
  have h := block_word (f := f) hp hfit hj (Nat.zero_le _)
  exact Option.some_injective _ h

/-- The page holds the blocks of the message. -/
theorem holds_blocks (hp : page < 10) (hfit : (frameConfig m).length * 4 ≤ 65536) :
    Holds (writeFlashConfig f m page).1 page (m.length / 63 + 1) where
  page_lt := hp
  headers j hj := by
    rw [blockHeader_eq hp hfit (by omega)]
    exact (frameHeader_fields _).1
  last := by
    have h256 := blocks_le hfit
    rcases Nat.eq_or_lt_of_le h256 with h | h
    · exact .inl h
    · refine .inr ⟨h, ?_⟩
      -- after the last block the sector is erased
      have hsector : 64 * (m.length / 63 + 1) < sectorWords := by
        rw [show sectorWords = 16384 from rfl]
        omega
      have hout : (frameConfig m).length ≤ 64 * (m.length / 63 + 1) := by
        rw [length_frameConfig]
        omega
      rw [blockHeader, wordAddr_blockAddr hp (by omega), writeFlashConfig_word hp hfit hsector,
        List.getD_eq_getElem?_getD, List.getElem?_eq_none hout]
      decide

/-- Of a block all words but the last are forwarded. -/
theorem blockPayload_eq (hp : page < 10) (hfit : (frameConfig m).length * 4 ≤ 65536)
    (hj : j ≤ m.length / 63) :
    blockPayload (writeFlashConfig f m page).1 page j =
      (chunk m j).dropLast.map fun w => ((0x4268 : UdpPort), bswap32 w) := by
  have hlen := length_chunk m j
  have hsize : sizeField (blockHeader (writeFlashConfig f m page).1 page j) =
      (chunk m j).length := by
    rw [blockHeader_eq hp hfit hj, (frameHeader_fields _).2.1, toNat_blockSize hj]
  have hport : lo ((readPage (writeFlashConfig f m page).1 (blockAddr page j)).headD 0) =
      0x4268 := by
    show lo (blockHeader _ page j) = _
    rw [blockHeader_eq hp hfit hj, (frameHeader_fields _).2.2]
  have hpage : (readPage (writeFlashConfig f m page).1 (blockAddr page j)).take
      (chunk m j).length = ((block m j).map bswap32).take (chunk m j).length := by
    apply List.ext_getElem?
    intro k
    rw [List.getElem?_take, List.getElem?_take]
    split_ifs with hk
    · rw [getElem?_readPage (show k < 64 by omega)]
      exact block_word hp hfit hj hk.le
    · rfl
  rw [blockPayload, payload, hsize, hport, hpage, List.drop_take, block, List.map_cons,
    List.drop_succ_cons, List.drop_zero, ← List.map_take, ← List.dropLast_eq_take, List.map_map]
  rfl

/-! ## Loading what was written -/

section

variable {g : ℕ} {y : Loader} {is : List Stimulus}

/-- The words that a load forwards. -/
theorem loaded_words (hp : page < 10) (hfit : (frameConfig m).length * 4 ≤ 65536)
    (hg : g ≤ epcqTimeout) (hs : Starts (writeFlashConfig f m page).1 page y)
    (hR : Along (loaderStep (writeFlashConfig f m page).1) (Prompt g) y is)
    (hlen : (m.length / 63 + 2) * (g + 66) + 2 ≤ is.length) :
    log (loaderStep (writeFlashConfig f m page).1) forwarded y is =
      ((List.range (m.length / 63 + 1)).flatMap fun j => (chunk m j).dropLast).map
        fun w => ((0x4268 : UdpPort), bswap32 w) := by
  rw [(load_run (holds_blocks hp hfit) hg hs hR hlen).2.2, blocksPayload, List.map_flatMap]
  refine List.flatMap_congr fun j hj => ?_
  rw [List.mem_range] at hj
  exact blockPayload_eq hp hfit (by omega)

/-- If the message has a word, one is lost. -/
theorem length_dropLast_lt (hm : m ≠ []) :
    ((List.range (m.length / 63 + 1)).flatMap fun j => (chunk m j).dropLast).length <
      m.length := by
  have hpos := List.length_pos_iff.2 hm
  conv_rhs => rw [← flatMap_chunk m]
  rw [List.length_flatMap, List.length_flatMap]
  refine List.sum_lt_sum _ _ (fun j _ => ?_) ⟨0, List.mem_range.2 (by omega), ?_⟩
  · rw [List.length_dropLast]
    exact Nat.sub_le _ _
  · rw [List.length_dropLast, length_chunk]
    omega

/-- What is forwarded is the message just when the message is empty. -/
theorem config_loaded_iff (hp : page < 10) (hfit : (frameConfig m).length * 4 ≤ 65536)
    (hg : g ≤ epcqTimeout) (hs : Starts (writeFlashConfig f m page).1 page y)
    (hR : Along (loaderStep (writeFlashConfig f m page).1) (Prompt g) y is)
    (hlen : (m.length / 63 + 2) * (g + 66) + 2 ≤ is.length) :
    log (loaderStep (writeFlashConfig f m page).1) forwarded y is =
      m.map (fun w => ((0x4268 : UdpPort), bswap32 w)) ↔ m = [] := by
  rw [loaded_words hp hfit hg hs hR hlen]
  constructor
  · intro h
    by_contra hm
    have hlt := length_dropLast_lt hm
    have hl := congrArg List.length h
    rw [List.length_map, List.length_map] at hl
    omega
  · rintro rfl
    rfl

end

/-! ## A message of two blocks and one of a word -/

/-- An erased memory with a message in page 3. -/
def written (m : List Word) : Flash := (writeFlashConfig (fun _ => BitVec.allOnes 32) m 3).1

/-- The load of page 3 begins. -/
def loading : Loader := ⟨{ reset with nextState := .startConfig, configPageReg := 3 }, []⟩

/-- The memory delivers a word at every edge. -/
def steady (n : ℕ) : List Stimulus := List.replicate n ⟨false, 0, true⟩

/-- A message of two blocks. -/
def twoBlocks : List Word := (List.range 70).map (BitVec.ofNat 32)

theorem config_loaded_iff_twoBlocks :
    log (loaderStep (written twoBlocks)) forwarded loading (steady 218) =
      twoBlocks.map (fun w => ((0x4268 : UdpPort), bswap32 w)) ↔ twoBlocks = [] :=
  config_loaded_iff (g := 6) (by decide) (by decide +kernel) (by decide) ⟨rfl, rfl, rfl, rfl⟩
    (by decide +kernel) (by decide +kernel)

/-- A write of 0x0001 to register 0x01 of block 0x10, as the host stores it. -/
def oneWord : List Word := [0x01000110]

/-- The word does not come back. -/
theorem config_word_lost : Along (loaderStep (written oneWord)) (Prompt 6) loading (steady 150) ∧
    log (loaderStep (written oneWord)) forwarded loading (steady 150) ≠
      oneWord.map fun w => ((0x4268 : UdpPort), bswap32 w) := by
  decide +kernel

end FpgaEthernet.ConfigRoundTrip
