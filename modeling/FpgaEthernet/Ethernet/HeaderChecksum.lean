import FpgaEthernet.Numeric.OnesComplement
import FpgaEthernet.Ethernet.HeaderGenerator

/-!
# The IPv4 header checksum

`checksum_computer` of `ethernet/header_generator.vhd`: the checksum of an IPv4 header is
right if the ones'-complement sum of its ten half words is `0xFFFF`.

Main results:

* `ipWords_eq`: the five IPv4 header words emitted for inputs held from the
  start pulse on.
* `headerChecksum_toNat`: the checksum complements the half word sum after two
  folds, each of which is a 16-bit addition.
* `ipWords_onesSum_iff`: the checksum is right iff the first fold does not carry out of
  16 bits.
-/

namespace FpgaEthernet.HeaderGenerator

open Clocked OnesComplement

/-- The word put on the outputs by an edge. -/
def emitted (i : Input) (s : State) : List Word :=
  if (step i s).headerValid then [(step i s).headerData] else []

/-- `header_start` pulsed for one cycle, and the other inputs held for `n` more
    edges. -/
def pulse (i : Input) (n : ℕ) : List Input :=
  { i with headerStart := true } :: List.replicate n { i with headerStart := false }

/-- The five IPv4 header words emitted after the pulse, which follow the four
    Ethernet header words. -/
def ipWords (i : Input) (n : ℕ) (s : State) : List Word :=
  ((log step emitted s (pulse i n)).drop 4).take 5

/-- The sum `checksum_computer` holds after its five additions. -/
def headerSum (i : Input) : BitVec 23 :=
  [ipHeaderWords i 0, ipHeaderWords i 1, ipHeaderWords i 2, ipHeaderWords i 3,
    ipHeaderWords i 4].foldl addHalves 0

/-- The checksum computed for held inputs. -/
def headerChecksum (i : Input) : BitVec 16 :=
  ~~~ (foldCarry (foldCarry (headerSum i))).extractLsb' 0 16

/-- The two halves of a word. -/
def halves (w : Word) : List (BitVec 16) := [hi w, lo w]

/-- The nine half words of the header other than the checksum. -/
def otherHalves (i : Input) : List (BitVec 16) :=
  halves (ipHeaderWords i 0) ++ halves (ipHeaderWords i 1) ++ [hi (ipHeaderWords i 2)] ++
    halves (ipHeaderWords i 3) ++ halves (ipHeaderWords i 4)

/-! ## The words emitted -/

/-- The words emitted in the twelve edges from the pulse to `IP4`: the checksum
    is ready at the edge before `IP2` uses it. -/
theorem log_pulse {i : Input} {s : State} (hidle : s.nextState = .idle) (hstep : s.step = -1)
    (h0 : i.config.getLsbD 0 = true) (h1 : i.config.getLsbD 1 = true) :
    log step emitted s (pulse i 11) =
      [ethHeaderWords i.toFields 0, ethHeaderWords i.toFields 1,
        ethHeaderWords i.toFields 2, ethHeaderWords i.toFields 3,
        ipHeaderWords i 0, ipHeaderWords i 1, ip2Word i.protocol (headerChecksum i),
        ipHeaderWords i 3, ipHeaderWords i 4] := by
  simp [pulse, emitted, step, stateMachine, checksumComputer, fNextState, hidle, hstep, h0, h1,
    List.replicate]
  exact ⟨rfl, rfl, rfl, rfl, rfl⟩

/-- The five IPv4 header words, however long the inputs are held. -/
theorem ipWords_eq {i : Input} {n : ℕ} {s : State} (hidle : s.nextState = .idle)
    (hstep : s.step = -1) (h0 : i.config.getLsbD 0 = true) (h1 : i.config.getLsbD 1 = true)
    (hn : 11 ≤ n) :
    ipWords i n s = [ipHeaderWords i 0, ipHeaderWords i 1, ip2Word i.protocol (headerChecksum i),
      ipHeaderWords i 3, ipHeaderWords i 4] := by
  obtain ⟨m, rfl⟩ := Nat.exists_eq_add_of_le hn
  have hsplit : pulse i (11 + m) =
      pulse i 11 ++ List.replicate m { i with headerStart := false } := by
    rw [pulse, List.replicate_add]
    rfl
  rw [ipWords, hsplit, log_append, log_pulse hidle hstep h0 h1]
  rfl

/-! ## The checksum -/

/-- As long as the sum stays below 23 bits the additions are those of the half
    words. -/
theorem foldl_addHalves_toNat (ws : List Word) (sum : BitVec 23)
    (h : sum.toNat + 131070 * ws.length < 2 ^ 23) :
    (ws.foldl addHalves sum).toNat = sum.toNat + natSum (ws.flatMap halves) := by
  induction ws generalizing sum with
  | nil => simp
  | cons w ws ih =>
    have hhi := (hi w).isLt
    have hlo := (lo w).isLt
    rw [List.length_cons] at h
    have hadd : (addHalves sum w).toNat = sum.toNat + (hi w).toNat + (lo w).toNat := by
      simp only [addHalves, BitVec.toNat_add, BitVec.toNat_setWidth]
      omega
    rw [List.foldl_cons, ih _ (by omega), hadd, List.flatMap_cons, natSum_append]
    simp only [halves, natSum_cons, natSum_nil]
    omega

/-- The fold keeps 16 bits of the sum of the low part and the carries. -/
theorem foldCarry_toNat (sum : BitVec 23) :
    (foldCarry sum).toNat = (sum.toNat % 65536 + sum.toNat / 65536) % 65536 := by
  have h := sum.isLt
  have hc : sum.toNat / 65536 % 128 = sum.toNat / 65536 := by omega
  simp only [foldCarry, BitVec.toNat_setWidth, BitVec.toNat_add, BitVec.extractLsb'_toNat,
    Nat.shiftRight_eq_div_pow, Nat.pow_zero, Nat.div_one, Nat.reducePow, hc]
  omega

/-- The five additions do not overflow the 23 bits, and the checksum field
    counts as zero. -/
theorem headerSum_toNat (i : Input) : (headerSum i).toNat = natSum (otherHalves i) := by
  have hlo : lo (ipHeaderWords i 2) = 0 := lo_append (255#8 ++ i.protocol) 0
  rw [headerSum, foldl_addHalves_toNat _ _ (by simp)]
  simp [otherHalves, halves, hlo]

/-- The checksum is the complement of the twice folded sum. -/
theorem headerChecksum_toNat (i : Input) :
    (headerChecksum i).toNat = 65535 - ((natSum (otherHalves i) % 65536 +
      natSum (otherHalves i) / 65536) % 65536) := by
  have hf : (foldCarry (headerSum i)).toNat < 65536 := by
    rw [foldCarry_toNat]
    exact Nat.mod_lt _ (by decide)
  have hff : (foldCarry (foldCarry (headerSum i))).toNat = (foldCarry (headerSum i)).toNat := by
    rw [foldCarry_toNat (foldCarry _), Nat.div_eq_of_lt hf, Nat.add_zero, Nat.mod_mod,
      Nat.mod_eq_of_lt hf]
  rw [headerChecksum, BitVec.toNat_not, BitVec.extractLsb'_toNat, hff, Nat.shiftRight_zero,
    Nat.mod_eq_of_lt hf, foldCarry_toNat, headerSum_toNat]

theorem natSum_otherHalves_lt (i : Input) : natSum (otherHalves i) < 589824 := by
  have h0 := (hi (ipHeaderWords i 0)).isLt
  have h1 := (lo (ipHeaderWords i 0)).isLt
  have h2 := (hi (ipHeaderWords i 1)).isLt
  have h3 := (lo (ipHeaderWords i 1)).isLt
  have h4 := (hi (ipHeaderWords i 2)).isLt
  have h5 := (hi (ipHeaderWords i 3)).isLt
  have h6 := (lo (ipHeaderWords i 3)).isLt
  have h7 := (hi (ipHeaderWords i 4)).isLt
  have h8 := (lo (ipHeaderWords i 4)).isLt
  simp only [otherHalves, halves, natSum_append, natSum_cons, natSum_nil]
  omega

/-- The half words of the emitted header sum to those other than the checksum
    and the checksum. -/
theorem natSum_header (i : Input) :
    natSum ([ipHeaderWords i 0, ipHeaderWords i 1, ip2Word i.protocol (headerChecksum i),
      ipHeaderWords i 3, ipHeaderWords i 4].flatMap halves) =
      natSum (otherHalves i) + (headerChecksum i).toNat := by
  have hhi : hi (ip2Word i.protocol (headerChecksum i)) = hi (ipHeaderWords i 2) :=
    (hi_append (255#8 ++ i.protocol) _).trans (hi_append (255#8 ++ i.protocol) 0).symm
  have hlo : lo (ip2Word i.protocol (headerChecksum i)) = headerChecksum i :=
    lo_append (255#8 ++ i.protocol) _
  simp only [List.flatMap_cons, List.flatMap_nil, otherHalves, halves, natSum_append, natSum_cons,
    natSum_nil, hhi, hlo]
  omega

/-- The checksum in the IPv4 header words is right iff adding the carries of the sum of the
    other nine half words to its low 16 bits does not carry again. -/
theorem ipWords_onesSum_iff (i : Input) (n : ℕ) (s : State) (hidle : s.nextState = .idle)
    (hstep : s.step = -1) (h0 : i.config.getLsbD 0 = true) (h1 : i.config.getLsbD 1 = true)
    (hn : 11 ≤ n) :
    onesSum ((ipWords i n s).flatMap halves) = 0xFFFF ↔
      natSum (otherHalves i) % 65536 + natSum (otherHalves i) / 65536 < 65536 := by
  have hlt := natSum_otherHalves_lt i
  rw [ipWords_eq hidle hstep h0 h1 hn, onesSum_eq_ffff_iff, natSum_header, headerChecksum_toNat]
  generalize natSum (otherHalves i) = t at hlt
  rcases Nat.lt_or_ge (t % 65536 + t / 65536) 65536 with h | h
  · have hsum : t + (65535 - (t % 65536 + t / 65536) % 65536) = 65535 * (t / 65536 + 1) := by
      rw [Nat.mod_eq_of_lt h]
      omega
    rw [hsum]
    simp [h]
  · -- the lost carry leaves the sum one above a multiple of 65535
    have hsum : t + (65535 - (t % 65536 + t / 65536) % 65536) =
        65535 * (t / 65536 + 2) + 1 := by
      rw [Nat.mod_eq_sub_mod h, Nat.mod_eq_of_lt (by omega)]
      omega
    rw [hsum]
    omega

/-- A UDP packet with one payload word from `192.168.0.3` to `192.168.58.122`. -/
def lostCarry : Input where
  protocol := 0x11
  appHeader := 0
  config := 0x00000007
  sourceMacAddr := 0xEE1122334455
  destMacAddr := 0x6CB311517434
  etherType := 0x0800
  sourceIp := 0xC0A80003
  destIp := 0xC0A83A7A
  sourcePort := 0x3000
  destPort := 0x3000
  headerStart := false
  payloadLen := 1

theorem ipWords_onesSum_iff_lostCarry :
    onesSum ((ipWords lostCarry 11 reset).flatMap halves) = 0xFFFF ↔
      natSum (otherHalves lostCarry) % 65536 + natSum (otherHalves lostCarry) / 65536 < 65536 :=
  ipWords_onesSum_iff lostCarry 11 reset rfl rfl (by decide) (by decide) le_rfl

/-- For this packet the first fold carries and the header checksum is wrong. -/
theorem lostCarry_onesSum :
    reset.nextState = .idle ∧ reset.step = -1 ∧ lostCarry.config.getLsbD 0 = true ∧
      lostCarry.config.getLsbD 1 = true ∧
      onesSum ((ipWords lostCarry 11 reset).flatMap halves) ≠ 0xFFFF := by
  decide +kernel

end FpgaEthernet.HeaderGenerator
