import FpgaEthernet.CommonModules.ConfigRegisterBlock

/-!
# The configuration message

Model of `server/src/ConfigBlockList.cpp` and `ConfigRegisterBlock.cpp`: the
master list of all configuration entries and the message that is made of them.

Main results:

* `message_eq`: the message as the words of the used entries, in order.
* `settings_kept_iff`: for which values every entry survives the message.
-/

namespace FpgaEthernet.Server

open Clocked ConfigRegisterBlock

/-! ## Model -/

/-- `ConfigEntry` (`ConfigRegisterBlock.hpp`), without its description. -/
structure ConfigEntry where
  value : BitVec 16
  defaultValue : BitVec 16
  address : BitVec 8
  name : String
  deriving DecidableEq

/-- The constructor of a named entry (`ConfigRegisterBlock.cpp` line 6). -/
def configEntry (defaultValue : BitVec 16) (address : BitVec 8) (name : String) : ConfigEntry :=
  ⟨defaultValue, defaultValue, address, name⟩

/-- The constructor of an unused entry (line 8). -/
def unusedEntry (address : BitVec 8) : ConfigEntry := ⟨0x0000, 0x0000, address, "UNUSED"⟩

/-- `ConfigRegisterBlock` (`ConfigRegisterBlock.hpp`). -/
structure RegisterBlock where
  address : BitVec 8
  name : String
  configEntries : List ConfigEntry
  deriving DecidableEq

/-- `ConfigBlockList` (`ConfigBlockList.hpp`). -/
structure ConfigBlockList where
  blocks : List RegisterBlock
  writeAll : Bool
  deriving DecidableEq

/-- `bswap_32`. -/
def bswap32 (w : Word) : Word :=
  (w.extractLsb' 0 8 ++ w.extractLsb' 8 8 ++ w.extractLsb' 16 8 ++ w.extractLsb' 24 8 : BitVec 32)

/-- The configuration word of an entry (line 25). A `char` is promoted to `int`. -/
def configWord (address entryAddress : BitVec 8) (value : BitVec 16) : Word :=
  address.signExtend 32 <<< 24 ||| entryAddress.signExtend 32 <<< 16 ||| value.setWidth 32

/-- `createConfigMessages` (lines 18-30). -/
def RegisterBlock.createConfigMessages (b : RegisterBlock) (writeAll : Bool) : List Word :=
  (b.configEntries.filter fun e =>
    (e.value != e.defaultValue || writeAll) && e.name != "UNUSED").map fun e =>
      bswap32 (configWord b.address e.address e.value)

/-- `getConfigMessage` (`ConfigBlockList.cpp` lines 229-240). -/
def ConfigBlockList.getConfigMessage (l : ConfigBlockList) : List Word :=
  l.blocks.flatMap fun b => b.createConfigMessages l.writeAll

/-- The entries of `baseEnetBlock` (lines 108-129). -/
def baseEnetEntries : List ConfigEntry :=
  [configEntry 0x4455 0x00 "SFP0_MAC0",
    configEntry 0x2233 0x01 "ENET_MAC1",
    configEntry 0xEE11 0x02 "ENET_MAC2",
    unusedEntry 0x03,
    configEntry 0x7434 0x04 "SFP_ServerMAC0",
    configEntry 0x1151 0x05 "SFP_ServerMAC1",
    configEntry 0x6CB3 0x06 "SFP_ServerMAC2",
    unusedEntry 0x07,
    configEntry 0x0003 0x08 "SFP_IP0",
    configEntry 0xC0A8 0x09 "ENET_IP1",
    configEntry 0x0001 0x0A "SFP_ServerIP0",
    configEntry 0xC0A8 0x0B "ENET_ServerIP1",
    configEntry 0x0058 0x0C "SFP_TSE0",
    configEntry 0x0050 0x0D "ENET_TSE1",
    configEntry 0x1000 0x0E "SFP0_UDP",
    unusedEntry 0x0F,
    configEntry 0x0555 0x10 "ENET_FIFO",
    configEntry 0x0000 0x11 "ENET_CounterEnable",
    configEntry 0x012c 0x12 "ENET_PacketSize",
    unusedEntry 0x13,
    configEntry 0x0007 0x14 "ENET_HeaderConfig",
    unusedEntry 0x15]

/-- The entries of an Ethernet block: the eight assignments that are made for
    each of the interfaces (lines 137-144, 148-155, 159-166). -/
def enetEntries (mac0 serverMac0 serverMac1 serverMac2 ip0 serverIp0 tse0 udp : ConfigEntry) :
    List ConfigEntry :=
  (((((((baseEnetEntries.set 0 mac0).set 4 serverMac0).set 5 serverMac1).set 6 serverMac2).set 8
    ip0).set 10 serverIp0).set 12 tse0).set 14 udp

/-- `SFP0ConfigBlock`. -/
def sfp0ConfigBlock : RegisterBlock where
  address := 0x10
  name := "SFP0ConfigBlock"
  configEntries := enetEntries
    (configEntry 0x4455 0x00 "SFP0_MAC0")
    (configEntry 0x7434 0x04 "SFP_ServerMAC0")
    (configEntry 0x1151 0x05 "SFP_ServerMAC1")
    (configEntry 0x6CB3 0x06 "SFP_ServerMAC2")
    (configEntry 0x0003 0x08 "SFP_IP0")
    (configEntry 0x0001 0x0A "SFP_ServerIP0")
    (configEntry 0x0058 0x0C "SFP_TSE0")
    (configEntry 0x1000 0x0E "SFP0_UDP")

/-- `SFP1ConfigBlock`. -/
def sfp1ConfigBlock : RegisterBlock where
  address := 0x11
  name := "SFP1ConfigBlock"
  configEntries := enetEntries
    (configEntry 0x4456 0x00 "SFP1_MAC0")
    (configEntry 0x7434 0x04 "SFP_ServerMAC0")
    (configEntry 0x1151 0x05 "SFP_ServerMAC1")
    (configEntry 0x6CB3 0x06 "SFP_ServerMAC2")
    (configEntry 0x0004 0x08 "SFP_IP0")
    (configEntry 0x0001 0x0A "SFP_ServerIP0")
    (configEntry 0x0058 0x0C "SFP_TSE0")
    (configEntry 0x1100 0x0E "SFP1_UDP")

/-- `RJ45ConfigBlock`. -/
def rj45ConfigBlock : RegisterBlock where
  address := 0x12
  name := "RJ45ConfigBlock"
  configEntries := enetEntries
    (configEntry 0x4457 0x00 "RJ45_MAC0")
    (configEntry 0x0275 0x04 "RJ45_ServerMAC0")
    (configEntry 0x0C22 0x05 "RJ45_ServerMAC1")
    (configEntry 0x000E 0x06 "RJ45_ServerMAC2")
    (configEntry 0x0105 0x08 "RJ45_IP0")
    (configEntry 0x0101 0x0A "RJ45_ServerIP0")
    (configEntry 0x00D8 0x0C "RJ45_TSE0")
    (configEntry 0x1200 0x0E "RJ45_UDP")

/-- The entries of `baseTSEConfigBlock` (lines 167-182). -/
def baseTseEntries : List ConfigEntry :=
  [configEntry 0x0140 0x00 "TSE_MDIO_Ctrl0_OR",
    configEntry 0x937F 0x01 "TSE_MDIO_Ctrl0_AND",
    configEntry 0x0000 0x02 "TSE_MDIO_AN_OR",
    configEntry 0xFC1F 0x03 "TSE_MDIO_AN_AND",
    configEntry 0x0000 0x04 "TSE_MDIO_1000BASE",
    configEntry 0xFFFF 0x05 "TSE_MDIO_1000BASE",
    configEntry 0xC000 0x06 "TSE_MDIO_MDIOCtrl",
    configEntry 0xFFFF 0x07 "TSE_MDIO_PHYCtrl",
    configEntry 0x0004 0x08 "TSE_MDIO_ExtPHYStat",
    configEntry 0xFFF4 0x09 "TSE_MDIO_ExtPHYStat",
    configEntry 0x0000 0x0A "TSE_MDIO_ExtPHYCtrl",
    configEntry 0xFFFF 0x0B "TSE_MDIO_ExtPHYCtrl",
    configEntry 0x03D8 0x0C "TSE_MDIO_ResetCycles0",
    configEntry 0x0000 0x0D "TSE_MDIO_ResetCycles1",
    configEntry 0x4240 0x0C "TSE_MDIO_WaitCycles0",
    configEntry 0x000F 0x0D "TSE_MDIO_WaitCycles1"]

/-- The entries of `ADCConfigBlock` (lines 197-204). -/
def adcEntries : List ConfigEntry :=
  [configEntry 0x0004 0x00 "ADC_Tap_Delays",
    configEntry 0x0000 0x02 "ADC_Output_Config",
    configEntry 0x0001 0x04 "ADC_CDS_NSkips",
    configEntry 0x0001 0x05 "ADC_CDS_Config",
    configEntry 0x0001 0x06 "ADC_CDS_NSamples",
    configEntry 0x0000 0x07 "ADC_Trigger_Samples",
    configEntry 0x0000 0x08 "ADC_Trigger_Delay",
    configEntry 0x0001 0x09 "ADC_Data_Multiplier"]

/-- What the constructor of `ConfigBlockList` builds (lines 13-216). -/
def configBlockList : ConfigBlockList where
  blocks :=
    [sfp0ConfigBlock, sfp1ConfigBlock, rj45ConfigBlock,
      ⟨0x13, "SFP0TSEConfigBlock", baseTseEntries⟩,
      ⟨0x14, "SFP1TSEConfigBlock", baseTseEntries⟩,
      ⟨0x15, "RJ45TSEConfigBlock", baseTseEntries⟩,
      ⟨0x20, "ADCConfigBlock", adcEntries⟩]
  writeAll := true

/-- The list with the value `v i j` in entry `j` of block `i`. -/
def ConfigBlockList.withValues (l : ConfigBlockList) (v : ℕ → ℕ → BitVec 16) : ConfigBlockList :=
  { l with
    blocks := l.blocks.zipIdx.map fun b => { b.1 with
      configEntries := b.1.configEntries.zipIdx.map fun e => { e.1 with value := v b.2 e.2 } } }

/-- An entry that is sent: where it is in the list, and its addresses. -/
structure Slot where
  block : ℕ
  entry : ℕ
  blockAddress : BitVec 8
  address : BitVec 8
  deriving DecidableEq

/-- The entries that are not named `UNUSED`, in order. -/
def ConfigBlockList.slots (l : ConfigBlockList) : List Slot :=
  l.blocks.zipIdx.flatMap fun b =>
    (b.1.configEntries.zipIdx.filter fun e => e.1.name != "UNUSED").map fun e =>
      ⟨b.2, e.2, b.1.address, e.1.address⟩

/-- The slot whose value is the last one sent to the address of `q`. -/
def winner (q : Slot) : ℕ :=
  if 3 ≤ q.block ∧ q.block ≤ 5 ∧ 12 ≤ q.entry ∧ q.entry ≤ 13 then q.entry + 2 else q.entry

/-! ## The message -/

/-- The configuration word of a slot. -/
def Slot.word (v : ℕ → ℕ → BitVec 16) (q : Slot) : Word :=
  configWord q.blockAddress q.address (v q.block q.entry)

theorem getLsbD_bswap32 (w : Word) {j : ℕ} (hj : j < 32) :
    (bswap32 w).getLsbD j = w.getLsbD (8 * (3 - j / 8) + j % 8) := by
  show (w.extractLsb' 0 8 ++ w.extractLsb' 8 8 ++ w.extractLsb' 16 8 ++ w.extractLsb' 24 8 :
    BitVec (8 + 8 + 8 + 8)).getLsbD j = _
  simp only [BitVec.getLsbD_append, BitVec.getLsbD_extractLsb']
  split_ifs with h8 h16 h24
  · rw [show 8 * (3 - j / 8) + j % 8 = 24 + j by omega]
    simp [h8]
  · rw [show 8 * (3 - j / 8) + j % 8 = 16 + (j - 8) by omega]
    simp [h16]
  · rw [show 8 * (3 - j / 8) + j % 8 = 8 + (j - 8 - 8) by omega]
    simp [h24]
  · rw [show 8 * (3 - j / 8) + j % 8 = 0 + (j - 8 - 8 - 8) by omega]
    simp [show j - 8 - 8 - 8 < 8 by omega]

theorem bswap32_bswap32 (w : Word) : bswap32 (bswap32 w) = w := by
  apply BitVec.eq_of_getLsbD_eq
  intro j hj
  rw [getLsbD_bswap32 _ hj, getLsbD_bswap32 _ (by omega)]
  congr 1
  omega

/-- The message, byte-swapped back, is made of the words of the slots. -/
theorem message_eq {l : ConfigBlockList} (hw : l.writeAll = true) (v : ℕ → ℕ → BitVec 16) :
    (l.withValues v).getConfigMessage.map bswap32 = l.slots.map (Slot.word v) := by
  have hblock : ∀ b : RegisterBlock × ℕ,
      ({ b.1 with configEntries := b.1.configEntries.zipIdx.map fun e =>
        { e.1 with value := v b.2 e.2 } } : RegisterBlock).createConfigMessages true =
      ((b.1.configEntries.zipIdx.filter fun e => e.1.name != "UNUSED").map fun e =>
        bswap32 (configWord b.1.address e.1.address (v b.2 e.2))) := by
    intro b
    simp only [RegisterBlock.createConfigMessages, List.filter_map, List.map_map, Bool.or_true,
      Bool.true_and]
    rfl
  simp only [ConfigBlockList.getConfigMessage, ConfigBlockList.withValues, hw, List.flatMap_map,
    hblock, List.map_flatMap, List.map_map, ConfigBlockList.slots]
  refine congrArg (fun f => List.flatMap f l.blocks.zipIdx)
    (funext fun b => List.map_congr_left fun e _ => ?_)
  exact bswap32_bswap32 _

theorem msb_of_lt {a : BitVec 8} (ha : a.toNat < 128) : a.msb = false := by
  rw [BitVec.msb_eq_false_iff_two_mul_lt]
  omega

/-- The layout of a configuration word. -/
def layout (a e : BitVec 8) (v : BitVec 16) : Word :=
  a.setWidth 32 <<< 24 ||| e.setWidth 32 <<< 16 ||| v.setWidth 32

/-- The layout names the block and the half-register. -/
theorem layout_eq {a : BitVec 8} (ha : a.toNat < 128) (e : BitVec 8) (v : BitVec 16) :
    layout a e v = halfWord (a.setWidth 7) e.toNat v := by
  have ha7 : a[7] = false := by
    have hmsb := msb_of_lt ha
    rw [BitVec.msb_eq_getLsbD_last] at hmsb
    simpa using hmsb
  unfold layout
  apply BitVec.eq_of_getLsbD_eq
  intro j hj
  rw [getLsbD_halfWord, BitVec.ofNat_toNat, BitVec.setWidth_eq]
  simp only [BitVec.getLsbD_or, BitVec.getLsbD_shiftLeft, BitVec.getLsbD_setWidth]
  by_cases h16 : j < 16
  · simp [h16, hj, show j < 24 by omega]
  by_cases h24 : j < 24
  · simp [h16, h24, hj, BitVec.getLsbD_of_ge v j (by omega)]
    intro _
    omega
  by_cases h31 : j < 31
  · simp [h16, h24, h31, hj, BitVec.getLsbD_of_ge v j (by omega),
      BitVec.getLsbD_of_ge e (j - 16) (by omega), show j - 24 < 32 by omega,
      show j - 24 < 7 by omega]
  · obtain rfl : j = 31 := by omega
    simp [ha7]

/-- A `char` below 128 keeps its bits. -/
theorem configWord_eq_layout {a e : BitVec 8} (ha : a.toNat < 128) (he : e.toNat < 128)
    (v : BitVec 16) : configWord a e v = layout a e v := by
  rw [configWord, BitVec.signExtend_eq_setWidth_of_msb_false (msb_of_lt ha),
    BitVec.signExtend_eq_setWidth_of_msb_false (msb_of_lt he), layout]

theorem configWord_eq {a e : BitVec 8} (ha : a.toNat < 128) (he : e.toNat < 128) (v : BitVec 16) :
    configWord a e v = halfWord (a.setWidth 7) e.toNat v := by
  rw [configWord_eq_layout ha he, layout_eq ha]

/-! ## The registers -/

variable {n : ℕ} {addr : BitVec 7} {k : ℕ}

theorem slots_last : ∀ q ∈ configBlockList.slots,
    ((configBlockList.slots.filter fun r =>
      r.blockAddress = q.blockAddress ∧ r.address = q.address).getLast?).map
        (fun r => (r.block, r.entry)) = some (q.block, winner q) := by
  decide +kernel

theorem slots_address : ∀ q ∈ configBlockList.slots,
    q.blockAddress.toNat < 128 ∧ q.address.toNat < 128 := by
  decide +kernel

theorem slots_writeAll : configBlockList.writeAll = true := rfl

/-- Words of slots leave in the half-register of a slot the value of the last of them that
    has its address. -/
theorem halfOf_slots {v : ℕ → ℕ → BitVec 16} {q : Slot} (hq : q ∈ configBlockList.slots)
    (hn : q.address.toNat < 2 * n) {l : List Slot} (hl : ∀ r ∈ l, r ∈ configBlockList.slots)
    (regs : Fin n → Word) :
    halfOf ((l.map (Slot.word v)).foldl (writeWord (q.blockAddress.setWidth 7)) regs)
        q.address.toNat =
      (((l.filter fun r => r.blockAddress = q.blockAddress ∧ r.address = q.address).getLast?).map
        fun r => v r.block r.entry).getD (halfOf regs q.address.toNat) := by
  have hfor : ∀ r ∈ l,
      decide (isRead (r.word v) = false ∧ ConfigRegisterBlock.blockAddress (r.word v) =
          q.blockAddress.setWidth 7 ∧ halfAddress (r.word v) = q.address.toNat) =
        decide (r.blockAddress = q.blockAddress ∧ r.address = q.address) := by
    intro r hr
    obtain ⟨hb, ha⟩ := slots_address r (hl r hr)
    obtain ⟨hqb, hqa⟩ := slots_address q hq
    rw [decide_eq_decide, Slot.word, configWord_eq hb ha, halfAddress, isRead_halfWord,
      blockAddress_halfWord, registerInt_halfWord (by omega), isUpper_halfWord]
    have hkey : 2 * (r.address.toNat / 2) + (decide (r.address.toNat % 2 = 1)).toNat =
        r.address.toNat := by
      rcases Nat.mod_two_eq_zero_or_one r.address.toNat with hp | hp <;> simp [hp] <;> omega
    rw [hkey, BitVec.toNat_inj]
    have hblock : r.blockAddress.setWidth 7 = q.blockAddress.setWidth 7 ↔
        r.blockAddress = q.blockAddress := by
      rw [← BitVec.toNat_inj, ← BitVec.toNat_inj, BitVec.toNat_setWidth, BitVec.toNat_setWidth,
        Nat.mod_eq_of_lt hb, Nat.mod_eq_of_lt hqb]
    rw [hblock]
    simp
  have hfilter : ((l.map (Slot.word v)).filter fun w =>
      isRead w = false ∧ ConfigRegisterBlock.blockAddress w = q.blockAddress.setWidth 7 ∧
        halfAddress w = q.address.toNat) = (l.filter fun r =>
      r.blockAddress = q.blockAddress ∧ r.address = q.address).map (Slot.word v) := by
    rw [List.filter_map]
    exact congrArg _ (List.filter_congr hfor)
  rw [halfOf_foldl _ _ hn, hfilter, List.getLast?_map, Option.map_map]
  refine congrArg (fun x : Option (BitVec 16) => x.getD (halfOf regs q.address.toNat))
    (Option.map_congr fun r hr => ?_)
  have hmem := List.mem_filter.1 (List.mem_of_getLast? hr)
  obtain ⟨hb, ha⟩ := slots_address r (hl r hmem.1)
  rw [Function.comp_apply, Slot.word, configWord_eq hb ha, lo_halfWord]

/-- The message leaves in the half-register of a slot the value of its winner. -/
theorem halfOf_foldl_message {v : ℕ → ℕ → BitVec 16} {q : Slot}
    (hq : q ∈ configBlockList.slots) (hn : q.address.toNat < 2 * n) (regs : Fin n → Word) :
    halfOf (((configBlockList.withValues v).getConfigMessage.map bswap32).foldl
      (writeWord (q.blockAddress.setWidth 7)) regs) q.address.toNat = v q.block (winner q) := by
  rw [message_eq slots_writeAll, halfOf_slots hq hn fun _ hr => hr]
  obtain ⟨r, hr, hwin⟩ := Option.map_eq_some_iff.1 (slots_last q hq)
  obtain ⟨hblock, hentry⟩ : r.block = q.block ∧ r.entry = winner q := by simpa using hwin
  rw [hr, Option.map_some, Option.getD_some, hblock, hentry]

/-- The block with the address of a slot holds the value of its winner, once it
    has been fed the message. -/
theorem halfOf_message {v : ℕ → ℕ → BitVec 16} {q : Slot} (hq : q ∈ configBlockList.slots)
    {s : State n} (hn : q.address.toNat < 2 * n) {js : List Input} (d : Input)
    (hfed : fed js = (configBlockList.withValues v).getConfigMessage.map bswap32) :
    halfOf (run (step (q.blockAddress.setWidth 7)) s (js ++ [d])).configRegistersReg
      q.address.toNat = v q.block (winner q) := by
  have hregs : (run (step (q.blockAddress.setWidth 7)) s (js ++ [d])).configRegistersReg =
      (registerWriter (q.blockAddress.setWidth 7)
        (run (step (q.blockAddress.setWidth 7)) s js)).1 := by
    rw [run_concat]
    rfl
  rw [hregs, written_run, hfed, halfOf_foldl_message hq hn]

/-- The entries of a list, apart from those named `UNUSED`. -/
theorem mem_slots {l : ConfigBlockList} {v : ℕ → ℕ → BitVec 16} {P : ℕ → BitVec 8 → BitVec 8 →
    BitVec 16 → Prop} :
    (∀ i b, (l.withValues v).blocks[i]? = some b → ∀ e ∈ b.configEntries, e.name ≠ "UNUSED" →
      P i b.address e.address e.value) ↔
    ∀ q ∈ l.slots, P q.block q.blockAddress q.address (v q.block q.entry) := by
  constructor
  · intro h q hq
    obtain ⟨⟨b, i⟩, hb, hq⟩ := List.mem_flatMap.1 hq
    obtain ⟨⟨e, j⟩, he, rfl⟩ := List.mem_map.1 hq
    obtain ⟨he, hname⟩ := List.mem_filter.1 he
    have hb' : l.blocks[i]? = some b := List.mem_zipIdx_iff_getElem?.1 hb
    refine h i { b with configEntries := b.configEntries.zipIdx.map fun e =>
      { e.1 with value := v i e.2 } } ?_ { e with value := v i j } ?_ (by simpa using hname)
    · simp [ConfigBlockList.withValues, hb']
    · exact List.mem_map.2 ⟨(e, j), he, rfl⟩
  · intro h i b hb e he hname
    simp only [ConfigBlockList.withValues, List.getElem?_map, List.getElem?_zipIdx,
      Option.map_map, Option.map_eq_some_iff, Nat.zero_add] at hb
    obtain ⟨b', hb', rfl⟩ := hb
    obtain ⟨⟨e', j⟩, he', rfl⟩ := List.mem_map.1 he
    refine h ⟨i, j, b'.address, e'.address⟩ ?_
    refine List.mem_flatMap.2 ⟨(b', i), List.mem_zipIdx_iff_getElem?.2 hb', ?_⟩
    exact List.mem_map.2 ⟨(e', j), List.mem_filter.2 ⟨he', by simpa using hname⟩, rfl⟩

/-- Fed the message, the blocks with the matching addresses hold the value of
    every entry that is not named `UNUSED` exactly if, in each of the three TSE
    blocks, the two words of the reset time are those of the wait time, which are
    sent to the same addresses after them. -/
theorem settings_kept_iff {v : ℕ → ℕ → BitVec 16} {n : ℕ → ℕ}
    (hn : ∀ i b, (configBlockList.withValues v).blocks[i]? = some b → ∀ e ∈ b.configEntries,
      e.name ≠ "UNUSED" → e.address.toNat / 2 < n i)
    (s : (i : ℕ) → State (n i)) {js : ℕ → List Input} (d : Input)
    (hfed : ∀ i, fed (js i) = (configBlockList.withValues v).getConfigMessage.map bswap32) :
    (∀ i b, (configBlockList.withValues v).blocks[i]? = some b → ∀ e ∈ b.configEntries,
      e.name ≠ "UNUSED" →
        halfOf (run (step (b.address.setWidth 7)) (s i) (js i ++ [d])).configRegistersReg
          e.address.toNat = e.value) ↔
    ∀ i, 3 ≤ i → i ≤ 5 → v i 12 = v i 14 ∧ v i 13 = v i 15 := by
  rw [mem_slots (P := fun i _ a _ => a.toNat / 2 < n i)] at hn
  rw [mem_slots (P := fun i b a w =>
    halfOf (run (step (b.setWidth 7)) (s i) (js i ++ [d])).configRegistersReg a.toNat = w)]
  have hwin : ∀ q ∈ configBlockList.slots,
      (halfOf (run (step (q.blockAddress.setWidth 7)) (s q.block)
        (js q.block ++ [d])).configRegistersReg q.address.toNat = v q.block q.entry ↔
      v q.block (winner q) = v q.block q.entry) := by
    intro q hq
    have := hn q hq
    rw [halfOf_message hq (by omega) d (hfed q.block)]
  constructor
  · intro h i h3 h5
    have hmem : ∀ i ∈ [3, 4, 5], ∀ j ∈ [12, 13], ∃ q ∈ configBlockList.slots,
        q.block = i ∧ q.entry = j := by decide +kernel
    have hi : i ∈ [3, 4, 5] := by simp; omega
    have key : ∀ j ∈ [12, 13], v i j = v i (j + 2) := by
      intro j hj
      obtain ⟨q, hq, rfl, rfl⟩ := hmem i hi j hj
      have hw : winner q = q.entry + 2 := if_pos ⟨h3, h5, by simp at hj; omega⟩
      rw [← hw]
      exact ((hwin q hq).1 (h q hq)).symm
    exact ⟨key 12 (by simp), key 13 (by simp)⟩
  · intro h q hq
    rw [hwin q hq]
    unfold winner
    split_ifs with hw
    · obtain ⟨h12, h13⟩ := h q.block hw.1 hw.2.1
      rcases (show q.entry = 12 ∨ q.entry = 13 by omega) with he | he
      · rw [he, h12]
      · rw [he, h13]
    · rfl

/-- Words fed one after the other. -/
def feed (ws : List Word) : List Input := ws.map fun w => ⟨w, true⟩

theorem fed_feed (ws : List Word) : fed (feed ws) = ws := by
  simp [fed, feed, List.filterMap_map]

/-- In every entry the number of its block. -/
def blockNumbers : ℕ → ℕ → BitVec 16 := fun i _ => BitVec.ofNat 16 i

theorem settings_kept_iff_blockNumbers :
    (∀ (i : ℕ) (b : RegisterBlock), (configBlockList.withValues blockNumbers).blocks[i]? = some b →
      ∀ e ∈ b.configEntries, e.name ≠ "UNUSED" →
        halfOf (run (step (b.address.setWidth 7)) (initial fun _ : Fin 16 => 0)
          (feed ((configBlockList.withValues blockNumbers).getConfigMessage.map bswap32) ++
            [⟨0, false⟩])).configRegistersReg e.address.toNat = e.value) ↔
    ∀ i, 3 ≤ i → i ≤ 5 → blockNumbers i 12 = blockNumbers i 14 ∧
      blockNumbers i 13 = blockNumbers i 15 :=
  settings_kept_iff (v := blockNumbers) (n := fun _ => 16)
    ((mem_slots (P := fun _ _ a _ => a.toNat / 2 < 16)).2 (by decide +kernel))
    (fun _ => initial fun _ => 0) ⟨0, false⟩ fun _ => fed_feed _

/-- With the default values the reset time of the PHY is lost: the words of the
    wait time are sent to the same addresses. -/
theorem reset_cycles_lost :
    ¬∀ (i : ℕ) (b : RegisterBlock), configBlockList.blocks[i]? = some b →
      ∀ e ∈ b.configEntries, e.name ≠ "UNUSED" →
      halfOf (run (step (b.address.setWidth 7)) (initial fun _ : Fin 16 => 0)
        (feed (configBlockList.getConfigMessage.map bswap32) ++ [⟨0, false⟩])).configRegistersReg
          e.address.toNat = e.value := by
  intro h
  have hreset := h 3 ⟨0x13, "SFP0TSEConfigBlock", baseTseEntries⟩ rfl
    (configEntry 0x03D8 0x0C "TSE_MDIO_ResetCycles0") (by decide) (by decide)
  revert hreset
  decide +kernel

end FpgaEthernet.Server
