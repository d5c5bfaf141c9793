import FpgaEthernet.Server.ConfigBlockList

/-!
# The configuration words of the host

The word that `createConfigMessages` makes of an entry, beside what `config_register_block`
makes of the word. The address of an entry is a `char`: one from `0x80` on is negative, and
its sign covers the address of the block.

Main results:

* `registerWriter_halfWord`: what a block does with the word that names a half-register.
* `createConfigMessages_encodes_iff`: of which entries the words are decoded as writes.
-/

namespace FpgaEthernet.Server

open Clocked ConfigRegisterBlock

/-! ## Specification -/

/-- The entries that are sent. -/
def RegisterBlock.sent (b : RegisterBlock) (writeAll : Bool) : List ConfigEntry :=
  b.configEntries.filter fun e =>
    (e.value != e.defaultValue || writeAll) && e.name != "UNUSED"

/-- What a block does with a write to half-register `k` of the block `a`: the registers,
    `reconfiged` and `write_error`. -/
def writeHalf {n : ℕ} (addr a : BitVec 7) (k : ℕ) (v : BitVec 16) (regs : Fin n → Word) :
    (Fin n → Word) × Bool × Bool :=
  if a = addr then
    if h : k / 2 < n then
      (Function.update regs ⟨k / 2, h⟩ (setHalf (regs ⟨k / 2, h⟩) (decide (k % 2 = 1)) v),
        true, false)
    else (regs, false, true)
  else (regs, false, false)

/-- The word has the layout of a write of `v` to entry `e` of the block `a`, and every
    `config_register_block` takes it for that. -/
structure Encodes (a e : BitVec 8) (v : BitVec 16) (w : Word) : Prop where
  word : w = layout a e v
  write : isRead w = false
  decoded : ∀ (n : ℕ) (addr : BitVec 7) (s : State n), s.configDataInReg = w →
    s.configValidInReg = true →
    registerWriter addr s = writeHalf addr (a.setWidth 7) e.toNat v s.configRegistersReg

/-! ## Decoding -/

theorem registerWriter_halfWord {n k : ℕ} (hk : k < 256) {addr a : BitVec 7} {v : BitVec 16}
    {s : State n} (hword : s.configDataInReg = halfWord a k v)
    (hvalid : s.configValidInReg = true) :
    registerWriter addr s = writeHalf addr a k v s.configRegistersReg := by
  simp only [registerWriter, writeHalf, hword, hvalid, if_true, isRead_halfWord,
    Bool.false_eq_true, if_false, blockAddress_halfWord, registerInt_halfWord hk, isUpper_halfWord,
    lo_halfWord]

theorem encodes_layout {a : BitVec 8} (ha : a.toNat < 128) (e : BitVec 8) (v : BitVec 16) :
    Encodes a e v (layout a e v) where
  word := rfl
  write := by rw [layout_eq ha, isRead_halfWord]
  decoded _ _ _ hword hvalid := by
    rw [layout_eq ha] at hword
    exact registerWriter_halfWord e.isLt hword hvalid

/-- A negative `char` sets the flag of a read. -/
theorem isRead_configWord {e : BitVec 8} (he : 128 ≤ e.toNat) (a : BitVec 8) (v : BitVec 16) :
    isRead (configWord a e v) = true := by
  have hme : e.msb = true := by
    rw [BitVec.msb_eq_true_iff_two_mul_ge]
    omega
  rw [isRead, configWord, BitVec.getLsbD_or, BitVec.getLsbD_or, BitVec.getLsbD_shiftLeft,
    BitVec.getLsbD_shiftLeft, BitVec.getLsbD_signExtend, BitVec.getLsbD_signExtend, hme]
  simp

theorem encodes_configWord_iff {a : BitVec 8} (ha : a.toNat < 128) (e : BitVec 8)
    (v : BitVec 16) : Encodes a e v (configWord a e v) ↔ e.toNat < 128 := by
  constructor
  · intro h
    by_contra he
    have hread := isRead_configWord (not_lt.1 he) a v
    exact absurd (hread.symm.trans h.write) Bool.noConfusion
  · intro he
    rw [configWord_eq_layout ha he]
    exact encodes_layout ha e v

/-! ## The message of a block -/

/-- In the message of a block below 128 exactly the words of the entries with an address
    below 128 are decoded as the writes of their values. -/
theorem createConfigMessages_encodes_iff {b : RegisterBlock} (hb : b.address.toNat < 128)
    (writeAll : Bool) :
    List.Forall₂ (fun e w => Encodes b.address e.address e.value (bswap32 w) ↔
      e.address.toNat < 128) (b.sent writeAll) (b.createConfigMessages writeAll) := by
  rw [RegisterBlock.createConfigMessages, ← RegisterBlock.sent, List.forall₂_map_right_iff,
    List.forall₂_same]
  intro e _
  rw [bswap32_bswap32]
  exact encodes_configWord_iff hb e.address e.value

theorem createConfigMessages_encodes_iff_adc :
    List.Forall₂ (fun e w => Encodes 0x20 e.address e.value (bswap32 w) ↔ e.address.toNat < 128)
      (RegisterBlock.sent ⟨0x20, "ADCConfigBlock", adcEntries⟩ true)
      (RegisterBlock.createConfigMessages ⟨0x20, "ADCConfigBlock", adcEntries⟩ true) :=
  createConfigMessages_encodes_iff (b := ⟨0x20, "ADCConfigBlock", adcEntries⟩) (by decide) true

/-- The word of entry `0x80` of block `0x10` is that of a read of another block. -/
theorem char_sign_extends :
    (RegisterBlock.createConfigMessages ⟨0x10, "SFP0ConfigBlock", [⟨1, 0, 0x80, "ENTRY"⟩]⟩
        false).map bswap32 = [0xFF800001] ∧
      ¬Encodes 0x10 0x80 1 0xFF800001 := by
  refine ⟨by decide, fun h => ?_⟩
  exact absurd h.write (by decide)

end FpgaEthernet.Server
