import FpgaEthernet.Server.ConfigBlockList
import FpgaEthernet.Server.IniReader

/-!
# Settings kept in a file

Models of `writeINI` and `readINI` of `server/src/ConfigRegisterBlock.cpp` and
`ConfigBlockList.cpp`: the settings are written under the names of the blocks and
of their entries, and read back into a new list.

Main results:

* `readINI_writeINI`: what a list with clean names holds after the round trip.
* `ini_roundTrip`: which entries of the constructor's list come back, whatever
  they hold.
* `ini_kept_iff`: which values of all its entries come back.
-/

namespace FpgaEthernet.Server

open Numeric

/-! ## Model -/

/-- A block as it is written (`ConfigRegisterBlock.cpp` lines 37-48); the
    descriptions of its entries are given by their position. -/
def RegisterBlock.writeINI (b : RegisterBlock) (description : ℕ → String)
    (writeAll writeDescription : Bool) : List Char :=
  ('[' :: (b.name.toList ++ [']', '\n'])) ++ b.configEntries.zipIdx.flatMap fun e =>
    if (e.1.value != e.1.defaultValue || writeAll) && e.1.name != "UNUSED" then
      (if writeDescription then
        ';' :: (showHex (e.1.address.signExtend 32).toNat ++ ' ' :: (description e.2).toList ++
          ['\n'])
      else []) ++ (e.1.name.toList ++ [' ', '=', ' '] ++ showHex e.1.value.toNat ++ ['\n'])
    else []

/-- `findEntry` (lines 64-70): the first entry with the name. -/
def RegisterBlock.findEntry (b : RegisterBlock) (entryName : List Char) : Option ℕ :=
  b.configEntries.findIdx? fun e => e.name.toList = entryName

/-- A field of the file is read into its entry (lines 57-60). -/
def RegisterBlock.readField (reader : INIReader) (b : RegisterBlock) (field : List Char) :
    RegisterBlock :=
  match b.findEntry field with
  | some i => { b with configEntries := b.configEntries.modify i fun e =>
      { e with value := BitVec.ofInt 16 (reader.getInteger b.name.toList field 0) } }
  | none => b

/-- `ConfigRegisterBlock::readINI` (lines 50-63). -/
def RegisterBlock.readINI (reader : INIReader) (b : RegisterBlock) : RegisterBlock :=
  if b.name.toList ∈ reader.sections then
    (reader.getFields b.name.toList).foldl (RegisterBlock.readField reader) b
  else b

/-- `ConfigBlockList::writeINI` (`ConfigBlockList.cpp` lines 242-250): the text of
    the file. -/
def ConfigBlockList.writeINI (l : ConfigBlockList) (description : ℕ → ℕ → String) : List Char :=
  l.blocks.zipIdx.flatMap fun b => b.1.writeINI (description b.2) true true

/-- `ConfigBlockList::readINI` (lines 218-227) for a file with this text, and the
    error it returns. -/
def ConfigBlockList.readINI (l : ConfigBlockList) (text : List Char) : ConfigBlockList × ℕ :=
  let parsed := iniParse valueHandler .empty text
  ({ l with blocks := l.blocks.map (RegisterBlock.readINI parsed.user) }, parsed.error)

/-- The descriptions of `baseEnetBlock`'s entries. -/
def baseEnetDescriptions : List String :=
  ["Mac address bits[15:0] for SFP0 interface",
    "Mac address bits[31:16] for Ethernet interface",
    "Mac address bits[47:32] for Ethernet interface",
    "Unused",
    "Mac address bits[15:0] for SFP0/1 interface",
    "Mac address bits[31:16] for SFP0/1 interface",
    "Mac address bits[47:32] for SFP0/1 interface",
    "Unused",
    "IP address bits [15:0] for SFP interface",
    "IP address bits [31:16] for Ethernet interface",
    "Server IP address bits [15:0] for SFP0/1 interfaces",
    "Server IP address bits [31:16] for Ethernet interface",
    "TSE configuration bits [15:0] for TSE MAC (SFP interface)",
    "TSE configuration bits [31:16] for TSE MAC",
    "Base UDP address for SFP0 interface",
    "Unused",
    "FIFO enable flags for Ethernet interfaces",
    "Counter enable flags for Ethernet interface",
    "Packet size (in 32-bit words) for Ethernet interfaces",
    "Unused",
    "Ethernet header configuration",
    "Unused"]

/-- The descriptions of `SFP1ConfigBlock`'s entries. -/
def sfp1Descriptions : List String :=
  (baseEnetDescriptions.set 0 "Mac address bits[15:0] for SFP1 interface").set 14
    "Base UDP address for SFP1 interface"

/-- The descriptions of `RJ45ConfigBlock`'s entries. -/
def rj45Descriptions : List String :=
  (((((((baseEnetDescriptions.set 0 "Mac address bits[15:0] for RJ45 interface").set 4
    "Server Mac address bits[15:0] for RJ45 interface").set 5
    "Server Mac address bits[31:16] for RJ45 interface").set 6
    "Server Mac address bits[47:32] for RJ45 interface").set 8
    "IP address bits [15:0] for RJ45 interface").set 10
    "Server IP address bits [15:0] for RJ45 interface").set 12
    "TSE configuration bits [15:0] for TSE MAC (RJ45 interface)").set 14
    "Base UDP address for RJ45 interface"

/-- The descriptions of `baseTSEConfigBlock`'s entries. -/
def baseTseDescriptions : List String :=
  ["MDIO Control Register OR bits",
    "MDIO Control Register AND bits",
    "MDIO Autonegotiation register OR bits",
    "MDIO Autonegotiation register AND bits",
    "MDIO 1000BASE Register OR bits",
    "MDIO 1000BASE Register AND bits",
    "MDIO PHY Control Register OR bits",
    "MDIO PHY Control Register AND bits",
    "MDIO Extended PHY Status Register OR bits",
    "MDIO Extended PHY Status Register AND bits",
    "MDIO Extended PHY Control Register OR bits",
    "MDIO Extended PHY Control Register AND bits",
    "Clock cycles (bits [15:0]) to wait during a HW reset",
    "Clock cycles (bits [31:16])to wait during a HW reset",
    "Clock cycles (bits [15:0]) to wait after a HW reset before configuring the PHY",
    "Clock cycles (bits [31:16])to wait after a HW reset before configuring the PHY"]

/-- The descriptions of `ADCConfigBlock`'s entries. -/
def adcDescriptions : List String :=
  ["Tap delay for the 20-bit 1.6 Msps ADCs. Bits [2:0] set input tap delay, bits [6:4] control " ++
      "output tap delay, bits [11:8] control LVDS tap delay for CDS module",
    "Output config for the 20-bit ADCs. [0] LVDS, [1] CDS, [2] integral mode, [3] trigger mode",
    "Number of skips to perform CDS over",
    "Config for CDS block (bit 0 controls output average if hi, output sum of pixels if low)",
    "Number of samples to read in integral mode",
    "Number of samples to read per trigger in triggered mode",
    "Number of 100 MHz clock cycles to wait before starting CNVST",
    "Multiplier to apply to ADC data before CDS module"]

/-- The `description` fields of the constructor's entries. -/
def descriptions : List (List String) :=
  [baseEnetDescriptions, sfp1Descriptions, rj45Descriptions, baseTseDescriptions,
    baseTseDescriptions, baseTseDescriptions, adcDescriptions]

/-- The description of entry `j` of block `i`. -/
def descriptionOf (i j : ℕ) : String := ((descriptions[i]?.getD [])[j]?).getD ""

/-- Entry `j` of block `i`. -/
def ConfigBlockList.entryAt (l : ConfigBlockList) (i j : ℕ) : Option ConfigEntry :=
  l.blocks[i]?.bind fun b => b.configEntries[j]?

/-! ## The file -/

/-- The entries that are written. -/
def RegisterBlock.used (b : RegisterBlock) : List (ConfigEntry × ℕ) :=
  b.configEntries.zipIdx.filter fun e => e.1.name != "UNUSED"

/-- The comment and the pair of an entry. -/
def entryLines (description : ℕ → String) (e : ConfigEntry × ℕ) : List IniLine :=
  [.comment (showHex (e.1.address.signExtend 32).toNat ++ ' ' :: (description e.2).toList),
    .pair e.1.name.toList (showHex e.1.value.toNat)]

/-- The lines of a block. -/
def RegisterBlock.iniLines (b : RegisterBlock) (description : ℕ → String) : List IniLine :=
  .sectionStart b.name.toList :: b.used.flatMap (entryLines description)

/-- The lines of a list. -/
def ConfigBlockList.iniLines (l : ConfigBlockList) (description : ℕ → ℕ → String) : List IniLine :=
  l.blocks.zipIdx.flatMap fun b => b.1.iniLines (description b.2)

/-- The pairs of a block. -/
def RegisterBlock.pairs (b : RegisterBlock) : List IniPair :=
  b.used.map fun e => ⟨b.name.toList, e.1.name.toList, showHex e.1.value.toNat⟩

theorem textOf_append (ls ls' : List (List Char)) : textOf (ls ++ ls') = textOf ls ++ textOf ls' :=
  List.flatMap_append ..

theorem flatMap_ite {α β : Type} (p : α → Bool) (f : α → List β) (l : List α) :
    (l.flatMap fun x => if p x then f x else []) = (l.filter p).flatMap f := by
  induction l with
  | nil => rfl
  | cons x l ih =>
    rw [List.flatMap_cons, ih]
    rcases Bool.eq_false_or_eq_true (p x) with hx | hx
    · rw [List.filter_cons_of_pos hx, List.flatMap_cons, if_pos hx]
    · rw [List.filter_cons_of_neg (by simp [hx]), if_neg (by simp [hx]), List.nil_append]

theorem RegisterBlock.writeINI_eq (b : RegisterBlock) (description : ℕ → String) :
    b.writeINI description true true = textOf ((b.iniLines description).map IniLine.text) := by
  have hentry : ∀ e : ConfigEntry × ℕ,
      textOf ((entryLines description e).map IniLine.text) =
        ';' :: (showHex (e.1.address.signExtend 32).toNat ++ ' ' :: (description e.2).toList ++
          ['\n']) ++ (e.1.name.toList ++ [' ', '=', ' '] ++ showHex e.1.value.toNat ++ ['\n']) := by
    intro e
    simp [entryLines, textOf, IniLine.text]
  have hentries : ∀ es : List (ConfigEntry × ℕ),
      textOf ((es.flatMap (entryLines description)).map IniLine.text) =
        es.flatMap fun e => textOf ((entryLines description e).map IniLine.text) := by
    intro es
    simp only [textOf, List.map_flatMap, List.flatMap_assoc]
  rw [RegisterBlock.iniLines, List.map_cons, ← List.singleton_append, textOf_append, hentries,
    RegisterBlock.writeINI]
  simp only [Bool.or_true, Bool.true_and, if_true, hentry, RegisterBlock.used, ← flatMap_ite]
  congr 1
  simp [textOf, IniLine.text]

theorem ConfigBlockList.writeINI_eq (l : ConfigBlockList) (description : ℕ → ℕ → String) :
    l.writeINI description = textOf ((l.iniLines description).map IniLine.text) := by
  simp only [ConfigBlockList.writeINI, ConfigBlockList.iniLines, RegisterBlock.writeINI_eq, textOf,
    List.map_flatMap, List.flatMap_assoc]

/-- The pairs of the file are those of the blocks. -/
theorem pairsOf_iniLines (l : ConfigBlockList) (description : ℕ → ℕ → String) (sec : List Char) :
    pairsOf sec (l.iniLines description) = l.blocks.flatMap RegisterBlock.pairs := by
  have hentries : ∀ (es : List (ConfigEntry × ℕ)) (d : ℕ → String) (sec : List Char)
      (ls : List IniLine), pairsOf sec (es.flatMap (entryLines d) ++ ls) =
        (es.map fun e => ⟨sec, e.1.name.toList, showHex e.1.value.toNat⟩) ++ pairsOf sec ls := by
    intro es d sec ls
    induction es with
    | nil => rfl
    | cons e es ih =>
      rw [List.flatMap_cons, List.append_assoc, List.map_cons, List.cons_append, ← ih]
      rfl
  have hblocks : ∀ (bs : List RegisterBlock) (k : ℕ) (sec : List Char),
      pairsOf sec ((bs.zipIdx k).flatMap fun b => b.1.iniLines (description b.2)) =
        bs.flatMap RegisterBlock.pairs := by
    intro bs
    induction bs with
    | nil => exact fun k sec => rfl
    | cons b bs ih =>
      intro k sec
      rw [List.zipIdx_cons, List.flatMap_cons, List.flatMap_cons, ← ih (k + 1) b.name.toList]
      exact hentries b.used (description k) b.name.toList _
  exact hblocks l.blocks 0 sec

/-! ## Clean names -/

/-- The names of the blocks and of their entries. -/
def ConfigBlockList.names (l : ConfigBlockList) : List (String × List String) :=
  l.blocks.map fun b => (b.name, b.configEntries.map ConfigEntry.name)

/-- A name that the parser keeps whole. -/
def IsName (x : String) : Prop := IsWord x.toList ∧ x.toList.length < maxName

instance (x : String) : Decidable (IsName x) := inferInstanceAs (Decidable (_ ∧ _))

/-- The names are words, and where two of them differ they differ in more than
    the case of their letters. -/
def CleanNames (ns : List (String × List String)) : Prop :=
  (∀ n ∈ ns, IsName n.1 ∧ (∀ x ∈ n.2, IsName x) ∧
    n.2.Pairwise fun x y => toLower x.toList = toLower y.toList → x = y) ∧
  (ns.map fun n => toLower n.1.toList).Nodup

instance (ns : List (String × List String)) : Decidable (CleanNames ns) :=
  inferInstanceAs (Decidable (_ ∧ _))

/-- Descriptions that fit into a comment. -/
def CleanText (s : String) : Prop := '\n' ∉ s.toList ∧ s.toList.length < 180

instance (s : String) : Decidable (CleanText s) := inferInstanceAs (Decidable (_ ∧ _))

variable {l : ConfigBlockList} {b : RegisterBlock} {description : ℕ → ℕ → String}

theorem CleanNames.block (h : CleanNames l.names) (hb : b ∈ l.blocks) :
    IsName b.name ∧ ∀ e ∈ b.configEntries, IsName e.name ∧
      ∀ e' ∈ b.configEntries, toLower e.name.toList = toLower e'.name.toList →
        e.name = e'.name := by
  obtain ⟨hname, hentries, hpairs⟩ := h.1 _ (List.mem_map_of_mem hb)
  have hsame := hpairs.forall_of_forall_of_flip (fun _ _ _ => rfl)
    (hpairs.imp fun hxy heq => (hxy heq.symm).symm)
  exact ⟨hname, fun e he => ⟨hentries e.name (List.mem_map_of_mem he), fun e' he' =>
    hsame (List.mem_map_of_mem he) (List.mem_map_of_mem he')⟩⟩

theorem showHex_isWord (n : ℕ) : IsWord (showHex n) := by
  refine ⟨showHex_ne_nil n, fun c hc => ?_⟩
  rw [isWordChar, digitVal_showHex hc]
  rfl

theorem mem_used {e : ConfigEntry × ℕ} :
    e ∈ b.used ↔ b.configEntries[e.2]? = some e.1 ∧ e.1.name ≠ "UNUSED" := by
  rw [RegisterBlock.used, List.mem_filter, List.mem_zipIdx_iff_getElem?]
  simp

/-- The lines of a list with clean names are clean. -/
theorem iniLines_clean (h : CleanNames l.names) (hd : ∀ i j, CleanText (description i j)) :
    ∀ x ∈ l.iniLines description, x.Clean := by
  intro x hx
  obtain ⟨⟨b, i⟩, hb, hx⟩ := List.mem_flatMap.1 hx
  obtain ⟨hname, hentries⟩ := h.block (List.fst_mem_of_mem_zipIdx hb)
  rcases List.mem_cons.1 hx with rfl | hx
  · exact hname
  obtain ⟨⟨e, j⟩, he, hx⟩ := List.mem_flatMap.1 hx
  have hmem := List.mem_of_getElem? (mem_used.1 he).1
  obtain ⟨hword, hlen⟩ := (hentries e hmem).1
  rcases List.mem_cons.1 hx with rfl | hx
  · obtain ⟨hline, hshort⟩ := hd i j
    have hhex := (showHex_isWord (e.address.signExtend 32).toNat).not_mem (c := '\n') (by decide)
    have hlong := length_showHex (n := (e.address.signExtend 32).toNat) (k := 8) (by omega)
      (by have := (e.address.signExtend 32).isLt; omega)
    constructor
    · simp [hhex, hline]
    · simp only [List.length_append, List.length_cons, iniMaxLine]
      omega
  · rw [List.mem_singleton.1 hx]
    have hlong := length_showHex (n := e.value.toNat) (k := 4) (by omega)
      (by have := e.value.isLt; omega)
    refine ⟨hword, showHex_isWord _, hlen, ?_⟩
    simp only [iniMaxLine, maxName]
    omega

/-- What the reader holds once it has read the file of a list. -/
def ConfigBlockList.reader (l : ConfigBlockList) : INIReader :=
  (l.blocks.flatMap RegisterBlock.pairs).foldl (giveTo valueHandler) .empty

/-- The file of a list with clean names is read as its pairs, without an error. -/
theorem iniParse_writeINI (h : CleanNames l.names) (hd : ∀ i j, CleanText (description i j)) :
    (iniParse valueHandler .empty (l.writeINI description)).user = l.reader ∧
      (iniParse valueHandler .empty (l.writeINI description)).error = 0 := by
  have hok : ∀ u a b c, (valueHandler u a b c).2 = true := fun _ _ _ _ => rfl
  have hparse := iniParse_document hok (iniLines_clean h hd) .empty
  rw [l.writeINI_eq, ConfigBlockList.reader, ← pairsOf_iniLines l description []]
  exact hparse

/-! ## What the reader holds -/

/-- No entry before entry `j` has the name. -/
def RegisterBlock.IsFirst (b : RegisterBlock) (j : ℕ) (name : String) : Prop :=
  ∀ k < j, ∀ e ∈ b.configEntries[k]?, e.name ≠ name

instance (b : RegisterBlock) (j : ℕ) (name : String) : Decidable (b.IsFirst j name) :=
  inferInstanceAs (Decidable (∀ k < j, ∀ e ∈ b.configEntries[k]?, e.name ≠ name))

theorem findEntry_eq_some {j : ℕ} {e : ConfigEntry} (he : b.configEntries[j]? = some e) :
    b.findEntry e.name.toList = some j ↔ b.IsFirst j e.name := by
  obtain ⟨hj, rfl⟩ := List.getElem?_eq_some_iff.1 he
  rw [RegisterBlock.findEntry, List.findIdx?_eq_some_iff_getElem]
  constructor
  · rintro ⟨_, _, hbefore⟩ k hk e hke hname
    obtain ⟨hlt, rfl⟩ := List.getElem?_eq_some_iff.1 hke
    apply hbefore k hk
    simp [hname]
  · intro h
    refine ⟨hj, by simp, fun k hk => ?_⟩
    have hne := h k hk _ (List.getElem?_eq_getElem (by omega))
    simpa [String.toList_inj] using hne

theorem toNat_of_isWordChar {c : Char} (h : isWordChar c) : c.toNat < 128 := by
  have hle : ∀ d : Char, c ≤ d → c.toNat ≤ d.toNat := fun d hd => UInt32.le_iff_toNat_le.1 hd
  simp only [isWordChar, digitVal, Bool.or_eq_true, decide_eq_true_eq] at h
  rcases h with h | rfl
  · split_ifs at h with h1 h2 h3
    · exact lt_of_le_of_lt (hle _ h1.2) (by decide)
    · exact lt_of_le_of_lt (hle _ h2.2) (by decide)
    · exact lt_of_le_of_lt (hle _ h3.2) (by decide)
    · exact absurd h (by decide)
  · decide

theorem toLower_not_mem {s : List Char} (h : IsWord s) : '=' ∉ toLower s := by
  have hchars : ∀ n < 128, isWordChar (Char.ofNat n) → (Char.ofNat n).toLower ≠ '=' := by decide
  intro hmem
  obtain ⟨c, hc, heq⟩ := List.mem_map.1 hmem
  have hword := h.2 c hc
  have hlower := hchars c.toNat (toNat_of_isWordChar hword)
  rw [Char.ofNat_toNat] at hlower
  exact hlower hword heq

theorem append_cons_inj {c : Char} {a a' t t' : List Char} (ha : c ∉ a) (ha' : c ∉ a')
    (h : a ++ c :: t = a' ++ c :: t') : a = a' ∧ t = t' := by
  have htake : ∀ {a t : List Char}, c ∉ a → (a ++ c :: t).takeWhile (· ≠ c) = a := by
    intro a t ha
    rw [List.takeWhile_append_of_pos, List.takeWhile_cons_of_neg (by simp), List.append_nil]
    intro x hx
    simp only [ne_eq, decide_not, Bool.not_eq_true', decide_eq_false_iff_not]
    rintro rfl
    exact ha hx
  have heq : a = a' := by rw [← htake (t := t) ha, h, htake ha']
  subst heq
  have := List.append_cancel_left h
  exact ⟨rfl, List.cons_inj_right c |>.1 this⟩

/-- Keys are the same exactly if section and name are, but for the case of their
    letters. -/
theorem makeKey_inj {s s' n n' : List Char} (hs : IsWord s) (hs' : IsWord s') :
    makeKey s n = makeKey s' n' ↔ toLower s = toLower s' ∧ toLower n = toLower n' := by
  have hkey : ∀ s n, makeKey s n = toLower s ++ '=' :: toLower n := by
    intro s n
    simp only [makeKey, toLower, List.map_append, List.map_cons]
    rfl
  rw [hkey, hkey]
  constructor
  · exact append_cons_inj (toLower_not_mem hs) (toLower_not_mem hs')
  · rintro ⟨h, h'⟩
    rw [h, h']

/-- Two blocks with the same section are the same. -/
theorem CleanNames.block_inj (h : CleanNames l.names) {b' : RegisterBlock} (hb : b ∈ l.blocks)
    (hb' : b' ∈ l.blocks) (hsec : toLower b.name.toList = toLower b'.name.toList) : b = b' := by
  have hnodup := h.2
  rw [ConfigBlockList.names, List.map_map] at hnodup
  exact List.inj_on_of_nodup_map hnodup hb hb' hsec

theorem find?_pairs (h : CleanNames l.names) (hb : b ∈ l.blocks) {j : ℕ} {e : ConfigEntry}
    (he : b.configEntries[j]? = some e) (hused : e.name ≠ "UNUSED") (hfirst : b.IsFirst j e.name) :
    (l.blocks.flatMap RegisterBlock.pairs).find?
        (fun p => p.key = makeKey b.name.toList e.name.toList) =
      some ⟨b.name.toList, e.name.toList, showHex e.value.toNat⟩ := by
  obtain ⟨hname, hentries⟩ := h.block hb
  have hkey : ∀ e' ∈ b.configEntries,
      makeKey b.name.toList e'.name.toList = makeKey b.name.toList e.name.toList ↔
        e'.name = e.name := by
    intro e' he'
    rw [makeKey_inj hname.1 hname.1]
    constructor
    · exact fun heq => (hentries e' he').2 e (List.mem_of_getElem? he) heq.2
    · intro heq
      rw [heq]
      exact ⟨rfl, rfl⟩
  obtain ⟨bs, bs', hsplit⟩ := List.append_of_mem hb
  have hnodup : (bs ++ b :: bs').Nodup := by
    have := h.2
    rw [ConfigBlockList.names, List.map_map] at this
    exact hsplit ▸ List.Nodup.of_map _ this
  rw [List.find?_flatMap, List.findSome?_eq_some_iff]
  refine ⟨bs, b, bs', hsplit, ?_, ?_⟩
  · rw [RegisterBlock.pairs, RegisterBlock.used, List.find?_map, List.find?_filter,
      Option.map_eq_some_iff]
    refine ⟨(e, j), ?_, rfl⟩
    obtain ⟨hj, hget⟩ := List.getElem?_eq_some_iff.1 he
    rw [List.find?_eq_some_iff_getElem]
    refine ⟨by simpa [IniPair.key] using hused, j, by simpa using hj, by simp [hget], ?_⟩
    intro k hk
    have hlt : k < b.configEntries.length := by omega
    have hne := hfirst k hk _ (List.getElem?_eq_getElem hlt)
    have := mt (hkey _ (List.getElem_mem hlt)).1 hne
    simp [IniPair.key, this]
  · intro b' hb'
    rw [List.find?_eq_none]
    intro p hp
    obtain ⟨e', -, rfl⟩ := List.mem_map.1 hp
    have hmem : b' ∈ l.blocks := hsplit ▸ List.mem_append_left _ hb'
    simp only [IniPair.key, decide_eq_true_eq, makeKey_inj (h.block hmem).1.1 hname.1]
    rintro ⟨hsec, -⟩
    obtain rfl := h.block_inj hmem hb hsec
    exact (List.nodup_append.1 hnodup).2.2 b' hb' b' List.mem_cons_self rfl

/-- The integer of an entry is its value, if it is the first with its name. -/
theorem getInteger_reader (h : CleanNames l.names) (hb : b ∈ l.blocks) {j : ℕ} {e : ConfigEntry}
    (he : b.configEntries[j]? = some e) (hused : e.name ≠ "UNUSED") (hfirst : b.IsFirst j e.name) :
    l.reader.getInteger b.name.toList e.name.toList 0 = e.value.toNat :=
  getInteger_pairs (find?_pairs h hb he hused hfirst) (by have := e.value.isLt; omega) rfl

theorem mem_getFields_reader (h : CleanNames l.names) (hb : b ∈ l.blocks) {x : List Char} :
    x ∈ l.reader.getFields b.name.toList ↔ ∃ e ∈ b.used, e.1.name.toList = x := by
  rw [INIReader.getFields, ConfigBlockList.reader, mem_fields_foldl]
  constructor
  · rintro (hx | ⟨p, hp, hsec, hname⟩)
    · exact absurd hx List.not_mem_nil
    · obtain ⟨b', hb', hp⟩ := List.mem_flatMap.1 hp
      obtain ⟨e, he, rfl⟩ := List.mem_map.1 hp
      obtain rfl := h.block_inj hb' hb hsec
      exact ⟨e, he, hname⟩
  · rintro ⟨e, he, rfl⟩
    exact Or.inr ⟨_, List.mem_flatMap.2 ⟨b, hb, List.mem_map_of_mem he⟩, rfl, rfl⟩

theorem mem_sections_reader (hb : b ∈ l.blocks) {e : ConfigEntry × ℕ} (he : e ∈ b.used) :
    b.name.toList ∈ l.reader.sections :=
  mem_sections_foldl.2 (Or.inr ⟨_, List.mem_flatMap.2 ⟨b, hb, List.mem_map_of_mem he⟩, rfl⟩)

/-! ## Reading -/

variable {r : INIReader}

theorem readField_name (field : List Char) : (b.readField r field).name = b.name := by
  unfold RegisterBlock.readField
  split <;> rfl

theorem readField_names (field : List Char) :
    (b.readField r field).configEntries.map ConfigEntry.name =
      b.configEntries.map ConfigEntry.name := by
  unfold RegisterBlock.readField
  split
  · next i =>
    apply List.ext_getElem?
    intro k
    simp only [List.getElem?_map, List.getElem?_modify]
    cases b.configEntries[k]? with
    | none => rfl
    | some e =>
      simp only [Option.map_some]
      split <;> rfl
  · rfl

theorem isFirst_congr {b b' : RegisterBlock} {j : ℕ} {name : String}
    (h : b.configEntries.map ConfigEntry.name = b'.configEntries.map ConfigEntry.name) :
    b.IsFirst j name ↔ b'.IsFirst j name := by
  have hiff : ∀ b : RegisterBlock, b.IsFirst j name ↔
      ∀ k < j, (b.configEntries.map ConfigEntry.name)[k]? ≠ some name := by
    intro b
    refine forall₂_congr fun k _ => ?_
    rw [List.getElem?_map]
    cases b.configEntries[k]? with
    | none => simp
    | some e => simp
  rw [hiff, hiff, h]

/-- A field that is read sets the first entry with its name. -/
theorem readField_entry {j : ℕ} {e : ConfigEntry} (he : b.configEntries[j]? = some e)
    (field : List Char) :
    (b.readField r field).configEntries[j]? = some
      (if e.name.toList = field ∧ b.IsFirst j e.name then
        { e with value := BitVec.ofInt 16 (r.getInteger b.name.toList field 0) } else e) := by
  by_cases hfield : e.name.toList = field ∧ b.IsFirst j e.name
  · obtain ⟨rfl, hfirst⟩ := hfield
    have hentry := (findEntry_eq_some he).2 hfirst
    simp [RegisterBlock.readField, hentry, he, hfirst]
  · rw [if_neg hfield]
    unfold RegisterBlock.readField
    split
    · next i hi =>
      have hne : i ≠ j := by
        rintro rfl
        apply hfield
        obtain ⟨hlt, hname, _⟩ := List.findIdx?_eq_some_iff_getElem.1 hi
        obtain ⟨_, hget⟩ := List.getElem?_eq_some_iff.1 he
        rw [hget] at hname
        have hfound : e.name.toList = field := by simpa using hname
        refine ⟨hfound, (findEntry_eq_some he).1 ?_⟩
        rw [hfound]
        exact hi
      rw [List.getElem?_modify_ne _ _ hne, he]
    · exact he

/-- So do several fields, one after the other. -/
theorem foldl_readField {j : ℕ} {e : ConfigEntry} (he : b.configEntries[j]? = some e)
    (fields : List (List Char)) :
    (fields.foldl (RegisterBlock.readField r) b).configEntries[j]? = some
      (if e.name.toList ∈ fields ∧ b.IsFirst j e.name then
        { e with value := BitVec.ofInt 16 (r.getInteger b.name.toList e.name.toList 0) }
      else e) := by
  induction fields generalizing b e with
  | nil => simpa using he
  | cons field fields ih =>
    have hrest := ih (readField_entry (r := r) he field)
    rw [List.foldl_cons, hrest, readField_name]
    have hnames : (b.readField r field).IsFirst j e.name ↔ b.IsFirst j e.name :=
      isFirst_congr (readField_names field)
    by_cases hfirst : b.IsFirst j e.name
    · by_cases hfield : e.name.toList = field
      · simp [hfield, hfirst, hnames]
      · simp [hfield, hfirst, hnames]
    · simp [hfirst, hnames]

/-- What a block holds after reading. -/
theorem readINI_entry {j : ℕ} {e : ConfigEntry} (he : b.configEntries[j]? = some e) :
    (b.readINI r).configEntries[j]? = some
      (if b.name.toList ∈ r.sections ∧ e.name.toList ∈ r.getFields b.name.toList ∧
          b.IsFirst j e.name then
        { e with value := BitVec.ofInt 16 (r.getInteger b.name.toList e.name.toList 0) }
      else e) := by
  unfold RegisterBlock.readINI
  by_cases hsec : b.name.toList ∈ r.sections
  · rw [if_pos hsec, foldl_readField he]
    simp [hsec]
  · rw [if_neg hsec, he]
    simp [hsec]

theorem readINI_names (r : INIReader) (b : RegisterBlock) :
    (b.readINI r).configEntries.map ConfigEntry.name = b.configEntries.map ConfigEntry.name := by
  have hfields : ∀ (fields : List (List Char)) (b : RegisterBlock),
      (fields.foldl (RegisterBlock.readField r) b).configEntries.map ConfigEntry.name =
        b.configEntries.map ConfigEntry.name := by
    intro fields
    induction fields with
    | nil => exact fun b => rfl
    | cons field fields ih =>
      intro b
      rw [List.foldl_cons, ih, readField_names]
  unfold RegisterBlock.readINI
  split
  · exact hfields _ b
  · rfl

/-! ## The round trip -/

/-- Entry `j` of block `i` is the first of its block with the name. -/
def ConfigBlockList.IsFirst (l : ConfigBlockList) (i j : ℕ) (name : String) : Prop :=
  ∀ k < j, ∀ e ∈ l.entryAt i k, e.name ≠ name

instance (l : ConfigBlockList) (i j : ℕ) (name : String) : Decidable (l.IsFirst i j name) :=
  inferInstanceAs (Decidable (∀ k < j, ∀ e ∈ l.entryAt i k, e.name ≠ name))

/-- Reading adds no entries. -/
theorem readINI_entryAt_none {i j : ℕ} (text : List Char) (he : l.entryAt i j = none) :
    (l.readINI text).1.entryAt i j = none := by
  unfold ConfigBlockList.entryAt at he ⊢
  cases hb : l.blocks[i]? with
  | none => simp [ConfigBlockList.readINI, hb]
  | some b =>
    rw [hb, Option.bind_some] at he
    have hlength := congrArg List.length
      (readINI_names (iniParse valueHandler .empty text).user b)
    rw [List.length_map, List.length_map] at hlength
    simp only [ConfigBlockList.readINI, List.getElem?_map, hb, Option.map_some, Option.bind_some]
    rw [List.getElem?_eq_none_iff] at he ⊢
    omega

/-- The block with these values in its entries. -/
def RegisterBlock.withValues (b : RegisterBlock) (v : ℕ → BitVec 16) : RegisterBlock :=
  { b with configEntries := b.configEntries.zipIdx.map fun e => { e.1 with value := v e.2 } }

variable {v : ℕ → ℕ → BitVec 16}

theorem withValues_block {i : ℕ} (hb : l.blocks[i]? = some b) :
    (l.withValues v).blocks[i]? = some (b.withValues (v i)) := by
  simp only [ConfigBlockList.withValues, List.getElem?_map, List.getElem?_zipIdx, hb,
    Option.map_some, Nat.zero_add]
  rfl

theorem withValues_entry {j : ℕ} {e : ConfigEntry} (he : b.configEntries[j]? = some e)
    (w : ℕ → BitVec 16) :
    (b.withValues w).configEntries[j]? = some { e with value := w j } := by
  simp [RegisterBlock.withValues, he]

theorem withValues_entryNames (w : ℕ → BitVec 16) :
    (b.withValues w).configEntries.map ConfigEntry.name =
      b.configEntries.map ConfigEntry.name := by
  rw [RegisterBlock.withValues, List.map_map]
  nth_rewrite 2 [← List.zipIdx_map_fst 0 b.configEntries]
  rw [List.map_map]
  rfl

theorem withValues_names (v : ℕ → ℕ → BitVec 16) : (l.withValues v).names = l.names := by
  rw [ConfigBlockList.names, ConfigBlockList.withValues, List.map_map, ConfigBlockList.names]
  nth_rewrite 2 [← List.zipIdx_map_fst 0 l.blocks]
  rw [List.map_map]
  apply List.map_congr_left
  intro b _
  exact congrArg (Prod.mk b.1.name) (withValues_entryNames (v b.2))

/-- After the round trip an entry holds what was written if it is not named
    `UNUSED` and is the first of its block with its name, and what it held before
    else. -/
theorem readINI_writeINI (h : CleanNames l.names) (hd : ∀ i j, CleanText (description i j))
    {i j : ℕ} {e : ConfigEntry} (he : l.entryAt i j = some e) :
    (l.readINI ((l.withValues v).writeINI description)).1.entryAt i j = some
      (if e.name ≠ "UNUSED" ∧ l.IsFirst i j e.name then { e with value := v i j } else e) := by
  obtain ⟨b, hb, he⟩ := Option.bind_eq_some_iff.1 he
  have hwritten := withValues_names v ▸ h
  have hparse := (iniParse_writeINI hwritten hd).1
  have hblock := withValues_block (v := v) hb
  have hmem := List.mem_of_getElem? hblock
  have hentry := withValues_entry he (v i)
  have hfirst : l.IsFirst i j e.name ↔ b.IsFirst j e.name := by
    simp only [ConfigBlockList.IsFirst, ConfigBlockList.entryAt, hb, Option.bind_some,
      RegisterBlock.IsFirst]
  have hback : (l.readINI ((l.withValues v).writeINI description)).1.entryAt i j =
      (b.readINI (l.withValues v).reader).configEntries[j]? := by
    simp only [ConfigBlockList.readINI, ConfigBlockList.entryAt, List.getElem?_map, hb,
      Option.map_some, Option.bind_some, hparse]
  rw [hback, readINI_entry he]
  simp only [hfirst]
  by_cases hkeep : e.name ≠ "UNUSED" ∧ b.IsFirst j e.name
  · obtain ⟨hused, hisFirst⟩ := hkeep
    have husedEntry : ({ e with value := v i j }, j) ∈ (b.withValues (v i)).used :=
      mem_used.2 ⟨hentry, hused⟩
    have hfields := (mem_getFields_reader hwritten hmem).2 ⟨_, husedEntry, rfl⟩
    have hvalue := getInteger_reader hwritten hmem hentry hused
      ((isFirst_congr (withValues_entryNames (v i))).2 hisFirst)
    have hsec := mem_sections_reader hmem husedEntry
    rw [if_pos ⟨hsec, hfields, hisFirst⟩, if_pos ⟨hused, hisFirst⟩]
    have hread : BitVec.ofInt 16 ((l.withValues v).reader.getInteger b.name.toList e.name.toList 0)
        = v i j := by
      rw [show (l.withValues v).reader.getInteger b.name.toList e.name.toList 0 =
        ((v i j).toNat : ℤ) from hvalue]
      simp
    rw [hread]
  · rw [if_neg hkeep, if_neg]
    rintro ⟨-, hfields, hisFirst⟩
    obtain ⟨⟨e', k⟩, hused, hname⟩ := (mem_getFields_reader hwritten hmem).1 hfields
    exact hkeep ⟨String.toList_inj.1 hname ▸ (mem_used.1 hused).2, hisFirst⟩

/-! ## The constructor's list -/

/-- What `CleanNames` asks of the names of one block. -/
def CleanEntries (xs : List String) : Prop :=
  (∀ x ∈ xs, IsName x) ∧ xs.Pairwise fun x y => toLower x.toList = toLower y.toList → x = y

/-- The same of their characters, which is checked faster. -/
def CleanChars (cs : List (List Char)) : Prop :=
  (∀ c ∈ cs, IsWord c ∧ c.length < maxName) ∧ cs.Pairwise fun c d => toLower c = toLower d → c = d

instance (cs : List (List Char)) : Decidable (CleanChars cs) :=
  inferInstanceAs (Decidable (_ ∧ _))

theorem cleanEntries_of_spelled {xs : List String} {cs : List (List Char)}
    (hs : xs = cs.map String.ofList) (h : CleanChars cs) : CleanEntries xs := by
  rw [hs]
  constructor
  · intro x hx
    obtain ⟨c, hc, rfl⟩ := List.mem_map.1 hx
    rw [IsName, String.toList_ofList]
    exact h.1 c hc
  · rw [List.pairwise_map]
    refine h.2.imp fun hcd heq => ?_
    rw [String.toList_ofList, String.toList_ofList] at heq
    rw [hcd heq]

theorem spelled_nil : ([] : List String) = ([] : List (List Char)).map String.ofList := rfl

/-- A literal is a list of characters. -/
theorem spelled_cons {x : String} {c : List Char} {xs : List String} {cs : List (List Char)}
    (hx : x = String.ofList c) (hs : xs = cs.map String.ofList) :
    x :: xs = (c :: cs).map String.ofList := by
  rw [hx, hs, List.map_cons]

theorem configBlockList_blockNames :
    CleanEntries (configBlockList.blocks.map RegisterBlock.name) := by
  apply cleanEntries_of_spelled
  · repeat' first | exact spelled_nil | apply spelled_cons rfl
  · decide +kernel

theorem configBlockList_entries {b : RegisterBlock} (hb : b ∈ configBlockList.blocks) :
    CleanEntries (b.configEntries.map ConfigEntry.name) := by
  fin_cases hb
  all_goals
    apply cleanEntries_of_spelled
    · repeat' first | exact spelled_nil | apply spelled_cons rfl
    · decide +kernel

theorem configBlockList_names : CleanNames configBlockList.names := by
  constructor
  · intro n hn
    obtain ⟨b, hb, rfl⟩ := List.mem_map.1 hn
    exact ⟨configBlockList_blockNames.1 _ (List.mem_map_of_mem hb), configBlockList_entries hb⟩
  · decide +kernel

theorem cleanText_ofList {cs : List Char} (h : '\n' ∉ cs ∧ cs.length < 180) :
    CleanText (String.ofList cs) := by
  rw [CleanText, String.toList_ofList]
  exact h

theorem cleanText_set {ds : List String} (h : ∀ d ∈ ds, CleanText d) {x : String}
    (hx : CleanText x) (i : ℕ) : ∀ d ∈ ds.set i x, CleanText d := by
  intro d hd
  rcases List.mem_or_eq_of_mem_set hd with hd | rfl
  · exact h d hd
  · exact hx

theorem baseEnetDescriptions_clean : ∀ d ∈ baseEnetDescriptions, CleanText d := by
  repeat refine List.forall_mem_cons.2 ⟨cleanText_ofList (by decide), ?_⟩
  exact List.forall_mem_nil _

theorem baseTseDescriptions_clean : ∀ d ∈ baseTseDescriptions, CleanText d := by
  repeat refine List.forall_mem_cons.2 ⟨cleanText_ofList (by decide), ?_⟩
  exact List.forall_mem_nil _

set_option maxRecDepth 4000 in
theorem cleanText_append {cs ds : List Char} (h : '\n' ∉ cs ++ ds ∧ (cs ++ ds).length < 180) :
    CleanText (String.ofList cs ++ String.ofList ds) := by
  rw [CleanText, String.toList_append, String.toList_ofList, String.toList_ofList]
  exact h

theorem adcDescriptions_clean : ∀ d ∈ adcDescriptions, CleanText d := by
  refine List.forall_mem_cons.2 ⟨cleanText_append (by decide +kernel), ?_⟩
  repeat refine List.forall_mem_cons.2 ⟨cleanText_ofList (by decide), ?_⟩
  exact List.forall_mem_nil _

theorem descriptions_clean : ∀ ds ∈ descriptions, ∀ d ∈ ds, CleanText d := by
  have hbase := baseEnetDescriptions_clean
  have hsfp1 : ∀ d ∈ sfp1Descriptions, CleanText d := by
    iterate 2 refine cleanText_set ?_ (cleanText_ofList (by decide)) _
    exact hbase
  have hrj45 : ∀ d ∈ rj45Descriptions, CleanText d := by
    iterate 8 refine cleanText_set ?_ (cleanText_ofList (by decide)) _
    exact hbase
  have htse := baseTseDescriptions_clean
  simp only [descriptions, List.forall_mem_cons]
  exact ⟨hbase, hsfp1, hrj45, htse, htse, htse, adcDescriptions_clean, List.forall_mem_nil _⟩

theorem descriptionOf_clean (i j : ℕ) : CleanText (descriptionOf i j) := by
  have hnone : CleanText "" := ⟨List.not_mem_nil, Nat.succ_pos _⟩
  unfold descriptionOf
  cases hds : descriptions[i]? with
  | none => exact hnone
  | some ds =>
    rw [Option.getD_some]
    cases hd : ds[j]? with
    | none => exact hnone
    | some d => exact descriptions_clean ds (List.mem_of_getElem? hds) d (List.mem_of_getElem? hd)

/-- The constructor's list with these values is written, and read into a new one. -/
def iniRoundTrip (v : ℕ → ℕ → BitVec 16) : ConfigBlockList :=
  (configBlockList.readINI ((configBlockList.withValues v).writeINI descriptionOf)).1

theorem withValues_entryAt (v : ℕ → ℕ → BitVec 16) (i j : ℕ) :
    (l.withValues v).entryAt i j = (l.entryAt i j).map fun e => { e with value := v i j } := by
  unfold ConfigBlockList.entryAt
  cases hb : l.blocks[i]? with
  | none => simp [ConfigBlockList.withValues, hb]
  | some b =>
    rw [withValues_block hb, Option.bind_some, Option.bind_some]
    cases he : b.configEntries[j]? with
    | none => simp [RegisterBlock.withValues, he]
    | some e => exact withValues_entry he (v i)

theorem withValues_isFirst {i j : ℕ} {name : String} :
    (l.withValues v).IsFirst i j name ↔ l.IsFirst i j name := by
  unfold ConfigBlockList.IsFirst
  refine forall₂_congr fun k _ => ?_
  rw [withValues_entryAt]
  cases l.entryAt i k <;> simp

/-- What an entry of the constructor's list holds after the round trip. -/
theorem iniRoundTrip_entry {i j : ℕ} {e : ConfigEntry} (he : configBlockList.entryAt i j = some e) :
    (iniRoundTrip v).entryAt i j = some
      (if e.name ≠ "UNUSED" ∧ configBlockList.IsFirst i j e.name then { e with value := v i j }
      else e) :=
  readINI_writeINI configBlockList_names descriptionOf_clean he

theorem unused_value : ∀ b ∈ configBlockList.blocks, ∀ e ∈ b.configEntries,
    e.name = "UNUSED" → e.value = 0x0000 := by
  decide +kernel

/-- An entry that is not named `UNUSED` and is the first of its block with its
    name comes back as it was written; one that is named `UNUSED` is not written,
    and comes back empty. -/
theorem ini_roundTrip {v : ℕ → ℕ → BitVec 16} {i j : ℕ} {e : ConfigEntry}
    (he : (configBlockList.withValues v).entryAt i j = some e) :
    (e.name ≠ "UNUSED" → (configBlockList.withValues v).IsFirst i j e.name →
      (iniRoundTrip v).entryAt i j = some e) ∧
    (e.name = "UNUSED" → (iniRoundTrip v).entryAt i j = some { e with value := 0x0000 }) := by
  rw [withValues_entryAt, Option.map_eq_some_iff] at he
  obtain ⟨e, he, rfl⟩ := he
  rw [iniRoundTrip_entry he, withValues_isFirst]
  constructor
  · intro hused hfirst
    rw [if_pos ⟨hused, hfirst⟩]
  · intro hunused
    obtain ⟨b, hb, hentry⟩ := Option.bind_eq_some_iff.1 he
    have hzero := unused_value b (List.mem_of_getElem? hb) e (List.mem_of_getElem? hentry) hunused
    rw [if_neg fun h => h.1 hunused, ← hzero]

/-- The number of its block and its own number in every entry. -/
def entryNumbers : ℕ → ℕ → BitVec 16 := fun i j => BitVec.ofNat 16 (256 * i + j)

theorem ini_roundTrip_entryNumbers :
    ((configEntry 0x0101 0x0A "RJ45_ServerIP0").name ≠ "UNUSED" →
      (configBlockList.withValues entryNumbers).IsFirst 2 10 "RJ45_ServerIP0" →
      (iniRoundTrip entryNumbers).entryAt 2 10 =
        some { configEntry 0x0101 0x0A "RJ45_ServerIP0" with value := 0x020A }) ∧
    ((configEntry 0x0101 0x0A "RJ45_ServerIP0").name = "UNUSED" →
      (iniRoundTrip entryNumbers).entryAt 2 10 =
        some { configEntry 0x0101 0x0A "RJ45_ServerIP0" with value := 0x0000 }) :=
  ini_roundTrip (v := entryNumbers) (i := 2) (j := 10)
    (e := { configEntry 0x0101 0x0A "RJ45_ServerIP0" with value := 0x020A }) (by decide +kernel)

/-- A value in an entry named `UNUSED` is lost. -/
theorem unused_lost :
    ¬∀ (v : ℕ → ℕ → BitVec 16) (i j : ℕ),
      (iniRoundTrip v).entryAt i j = (configBlockList.withValues v).entryAt i j := by
  intro h
  have hentry : configBlockList.entryAt 0 3 = some (unusedEntry 0x03) := by decide +kernel
  have hback := h entryNumbers 0 3
  rw [iniRoundTrip_entry hentry, withValues_entryAt, hentry] at hback
  revert hback
  decide +kernel

/-- The entries that are not read back, and what they hold in a new list: those
    named `UNUSED` and, in the TSE blocks, the second one of a name. -/
def lostValue (i j : ℕ) : Option (BitVec 16) :=
  if i < 3 ∧ j ∈ [3, 7, 15, 19, 21] then some 0x0000
  else if 3 ≤ i ∧ i ≤ 5 ∧ j ∈ [5, 11] then some 0xFFFF
  else if 3 ≤ i ∧ i ≤ 5 ∧ j = 9 then some 0xFFF4
  else none

theorem lostValue_eq (i j : ℕ) :
    lostValue i j = (configBlockList.entryAt i j).bind fun e =>
      if e.name ≠ "UNUSED" ∧ configBlockList.IsFirst i j e.name then none else some e.value := by
  have hall : ∀ i < 7, ∀ j < 22, lostValue i j = (configBlockList.entryAt i j).bind fun e =>
      if e.name ≠ "UNUSED" ∧ configBlockList.IsFirst i j e.name then none else some e.value := by
    decide +kernel
  have hlength : ∀ b ∈ configBlockList.blocks, b.configEntries.length ≤ 22 := by decide
  by_cases hin : i < 7 ∧ j < 22
  · exact hall i hin.1 j hin.2
  · have hlost : lostValue i j = none := by
      have hj : 22 ≤ j → j ∉ [3, 7, 15, 19, 21] ∧ j ∉ [5, 11] ∧ j ≠ 9 := by
        intro hj
        simp
        omega
      unfold lostValue
      rw [if_neg, if_neg, if_neg]
      · rintro ⟨-, hi, rfl⟩
        omega
      · rintro ⟨-, hi, hmem⟩
        exact (hj (by omega)).2.1 hmem
      · rintro ⟨hi, hmem⟩
        exact (hj (by omega)).1 hmem
    have hentry : configBlockList.entryAt i j = none := by
      unfold ConfigBlockList.entryAt
      cases hb : configBlockList.blocks[i]? with
      | none => rfl
      | some b =>
        have hi : i < 7 := (List.getElem?_eq_some_iff.1 hb).1
        have := hlength b (List.mem_of_getElem? hb)
        rw [Option.bind_some, List.getElem?_eq_none (by omega)]
    rw [hlost, hentry, Option.bind_none]

/-- Exactly the values that come back: every entry that is lost held what it
    holds in a new list. -/
theorem ini_kept_iff (v : ℕ → ℕ → BitVec 16) :
    (∀ i j, (iniRoundTrip v).entryAt i j = (configBlockList.withValues v).entryAt i j) ↔
      ∀ i j w, lostValue i j = some w → v i j = w := by
  refine forall₂_congr fun i j => ?_
  rw [lostValue_eq, withValues_entryAt]
  cases he : configBlockList.entryAt i j with
  | none =>
    have hnone := readINI_entryAt_none
      ((configBlockList.withValues v).writeINI descriptionOf) he
    simp [iniRoundTrip, hnone]
  | some e =>
    rw [iniRoundTrip_entry he, Option.map_some, Option.bind_some]
    by_cases hkeep : e.name ≠ "UNUSED" ∧ configBlockList.IsFirst i j e.name
    · rw [if_pos hkeep, if_pos hkeep]
      simp
    · rw [if_neg hkeep, if_neg hkeep]
      constructor
      · rintro h w hw
        obtain rfl := Option.some_inj.1 hw
        exact (congrArg ConfigEntry.value (Option.some_inj.1 h)).symm
      · intro h
        rw [h e.value rfl]

end FpgaEthernet.Server
