import Mathlib.Tactic

/-!
# Ones'-complement sums

The 16-bit ones'-complement sum of the Internet checksum: every carry out of the
top bit is added back in at the bottom.

Main results:

* `onesSum_toNat`: the sum is the representative of the integer sum modulo
  `65535` in `1 .. 65535`, and `0` only for an integer sum of `0`.
* `onesSum_eq_ffff_iff`: the sum is `0xFFFF` iff the integer sum is a positive
  multiple of `65535`.
-/

namespace FpgaEthernet.OnesComplement

/-- Addition with end-around carry. -/
def endAround (a b : BitVec 16) : BitVec 16 :=
  BitVec.ofNat 16 ((a.toNat + b.toNat) % 65536 + (a.toNat + b.toNat) / 65536)

/-- The ones'-complement sum of a list of half words. -/
def onesSum (l : List (BitVec 16)) : BitVec 16 := l.foldl endAround 0

/-- The integer sum of a list of half words. -/
def natSum (l : List (BitVec 16)) : ℕ := (l.map BitVec.toNat).sum

@[simp] theorem natSum_nil : natSum [] = 0 := rfl

@[simp] theorem natSum_cons (a : BitVec 16) (l : List (BitVec 16)) :
    natSum (a :: l) = a.toNat + natSum l := by
  simp [natSum]

@[simp] theorem natSum_append (l l' : List (BitVec 16)) :
    natSum (l ++ l') = natSum l + natSum l' := by
  simp [natSum]

/-- The representative of `n` modulo `65535` in `1 .. 65535`, or `0` for `0`. -/
def fold (n : ℕ) : ℕ := if n = 0 then 0 else (n - 1) % 65535 + 1

theorem endAround_toNat (a b : BitVec 16) :
    (endAround a b).toNat = fold (a.toNat + b.toNat) := by
  have hlt : a.toNat + b.toNat ≤ 131070 := by
    have ha := a.isLt
    have hb := b.isLt
    omega
  rw [endAround, BitVec.toNat_ofNat]
  generalize a.toNat + b.toNat = t at hlt
  unfold fold
  rcases Nat.lt_or_ge t 65536 with h | h
  · split_ifs <;> omega
  · obtain ⟨u, rfl⟩ := Nat.exists_eq_add_of_le h
    split_ifs <;> omega

theorem fold_add_fold (m n : ℕ) : fold (fold m + n) = fold (m + n) := by
  unfold fold
  split_ifs <;> omega

theorem onesSum_concat (l : List (BitVec 16)) (a : BitVec 16) :
    onesSum (l ++ [a]) = endAround (onesSum l) a := by
  simp [onesSum]

/-- The ones'-complement sum is the integer sum with all carries folded in. -/
theorem onesSum_toNat (l : List (BitVec 16)) : (onesSum l).toNat = fold (natSum l) := by
  induction l using List.reverseRecOn with
  | nil => rfl
  | append_singleton l a ih =>
    rw [onesSum_concat, endAround_toNat, ih, fold_add_fold, natSum_append, natSum_cons,
      natSum_nil, Nat.add_zero]

theorem onesSum_eq_ffff_iff (l : List (BitVec 16)) :
    onesSum l = 0xFFFF ↔ 0 < natSum l ∧ 65535 ∣ natSum l := by
  rw [← BitVec.toNat_inj, onesSum_toNat, fold]
  have h : (0xFFFF : BitVec 16).toNat = 65535 := rfl
  rw [h]
  generalize natSum l = t
  split_ifs with h0
  · simp [h0]
  · rw [Nat.dvd_iff_mod_eq_zero]
    constructor <;> omega

end FpgaEthernet.OnesComplement
