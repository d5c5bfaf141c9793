import FpgaEthernet.Ethernet.EthCommon

/-!
# The EPCQ flash memory

The memory behind the `epcqio_control` commands, as far as the host and the
configuration manager use it: a sector is erased at a time, a page of 64 words is
programmed or read, and programming only clears bits.

Main results:

* `readPage_program`: an erased page that has been programmed reads as it was
  written.
-/

namespace FpgaEthernet.Epcq

/-- The words of the memory, by word address. -/
abbrev Flash := ℕ → Word

/-- The words of a page. -/
def pageWords : ℕ := 64

/-- The words of a sector. -/
def sectorWords : ℕ := 16384

/-- The word a byte address lies in. -/
def wordAddr (addr : BitVec 32) : ℕ := addr.toNat / 4

/-- The page read at an address. -/
def readPage (f : Flash) (addr : BitVec 32) : List Word :=
  (List.range pageWords).map fun k => f (wordAddr addr + k)

/-- Programming the words `ws`, from an address on. -/
def program (f : Flash) (addr : BitVec 32) (ws : List Word) : Flash := fun a =>
  if wordAddr addr ≤ a ∧ a < wordAddr addr + ws.length then
    f a &&& ws.getD (a - wordAddr addr) 0
  else f a

/-- Erasing the sector an address lies in. -/
def eraseSector (f : Flash) (addr : BitVec 32) : Flash := fun a =>
  if a / sectorWords = wordAddr addr / sectorWords then BitVec.allOnes 32 else f a

@[simp] theorem length_readPage (f : Flash) (addr : BitVec 32) :
    (readPage f addr).length = pageWords := by
  rw [readPage, List.length_map, List.length_range]

theorem getElem?_readPage {f : Flash} {addr : BitVec 32} {k : ℕ} (h : k < pageWords) :
    (readPage f addr)[k]? = some (f (wordAddr addr + k)) := by
  rw [readPage, List.getElem?_map, List.getElem?_range h]
  rfl

theorem program_of_lt {f : Flash} {addr : BitVec 32} {ws : List Word} {a : ℕ}
    (h : a < wordAddr addr) : program f addr ws a = f a :=
  if_neg fun hc => by omega

theorem program_of_le {f : Flash} {addr : BitVec 32} {ws : List Word} {a : ℕ}
    (h : wordAddr addr + ws.length ≤ a) : program f addr ws a = f a :=
  if_neg fun hc => by omega

/-- Programming an erased word. -/
theorem program_erased {f : Flash} {addr : BitVec 32} {ws : List Word} {k : ℕ}
    (hk : k < ws.length) (hf : f (wordAddr addr + k) = BitVec.allOnes 32) :
    program f addr ws (wordAddr addr + k) = ws.getD k 0 := by
  rw [program, if_pos ⟨by omega, by omega⟩, hf, BitVec.allOnes_and, Nat.add_sub_cancel_left]

/-- An erased page reads as it was written. -/
theorem readPage_program {f : Flash} {addr : BitVec 32} {ws : List Word}
    (hlen : ws.length = pageWords)
    (hf : ∀ k < pageWords, f (wordAddr addr + k) = BitVec.allOnes 32) :
    readPage (program f addr ws) addr = ws := by
  apply List.ext_getElem?
  intro k
  rcases Nat.lt_or_ge k pageWords with hk | hk
  · rw [getElem?_readPage hk, program_erased (hlen ▸ hk) (hf k hk), List.getD_eq_getElem?_getD,
      List.getElem?_eq_getElem (hlen ▸ hk)]
    rfl
  · rw [List.getElem?_eq_none (by rw [length_readPage]; exact hk),
      List.getElem?_eq_none (by omega)]

end FpgaEthernet.Epcq
