import Mathlib.Tactic

/-!
# Filling an erasable memory

A memory that is erased sector by sector and written from the start of a sector on.
`fill` is the memory afterwards: the words, then erased cells up to the end of the last
sector that was begun, and around them what was there before.

Main results:

* `fill_append`: to fill twice, the second time where the first ended, is to fill once.
* `eq_fill`: what makes a memory the fill of another.
* `map_fill`: the words that were filled in.
-/

namespace FpgaEthernet.Storage

universe u

variable {α : Type u} {S n m base a : ℕ} {e : α} {g g' : ℕ → α} {ws ws' : List α}

/-- The first cell from `n` on that begins a sector. -/
def sectorEnd (S n : ℕ) : ℕ := (n + (S - 1)) / S * S

/-- The memory `g` with the words `ws` from `base` on, in sectors of `S` cells that are `e`
    when erased. -/
def fill (S : ℕ) (e : α) (g : ℕ → α) (base : ℕ) (ws : List α) : ℕ → α := fun a =>
  if a < base then g a
  else if a < base + ws.length then ws.getD (a - base) e
  else if a < sectorEnd S (base + ws.length) then e
  else g a

/-- What is left of the sector that `n` lies in is erased. -/
def Ready (S : ℕ) (e : α) (g : ℕ → α) (n : ℕ) : Prop := ∀ a, n ≤ a → a < sectorEnd S n → g a = e

/-! ## Sectors -/

theorem le_sectorEnd (hS : 0 < S) (n : ℕ) : n ≤ sectorEnd S n := by
  have hdiv := Nat.div_add_mod (n + (S - 1)) S
  have hmod := Nat.mod_lt (n + (S - 1)) hS
  rw [Nat.mul_comm] at hdiv
  unfold sectorEnd
  omega

theorem sectorEnd_mono (h : n ≤ m) : sectorEnd S n ≤ sectorEnd S m :=
  Nat.mul_le_mul_right S (Nat.div_le_div_right (by omega))

/-- At the start of a sector nothing is left of the one before. -/
theorem sectorEnd_mul (hS : 0 < S) (k : ℕ) : sectorEnd S (k * S) = k * S := by
  rw [sectorEnd, Nat.mul_comm k, Nat.mul_add_div hS, Nat.div_eq_of_lt (by omega), Nat.add_zero,
    Nat.mul_comm]

/-- Inside of a sector. -/
theorem sectorEnd_of_lt (hS : 0 < S) {k : ℕ} (hlow : k * S < n) (hhigh : n ≤ (k + 1) * S) :
    sectorEnd S n = (k + 1) * S := by
  have hdiv : (n + (S - 1)) / S = k + 1 := by
    rw [Nat.add_mul, Nat.one_mul] at hhigh
    refine Nat.div_eq_of_lt_le ?_ ?_
    · rw [Nat.add_mul, Nat.one_mul]
      omega
    · rw [Nat.add_mul, Nat.add_mul, Nat.one_mul]
      omega
  rw [sectorEnd, hdiv]

/-- A sector that is begun at `k * S`. -/
theorem ready_mul (hS : 0 < S) (k : ℕ) : Ready S e g (k * S) := by
  intro a hlow hhigh
  rw [sectorEnd_mul hS] at hhigh
  exact absurd hlow (Nat.not_le.2 hhigh)

/-! ## Filling -/

theorem fill_of_lt (h : a < base) : fill S e g base ws a = g a := if_pos h

theorem fill_of_le (hS : 0 < S) (h : sectorEnd S (base + ws.length) ≤ a) :
    fill S e g base ws a = g a := by
  have hle := le_sectorEnd hS (base + ws.length)
  rw [fill, if_neg (by omega), if_neg (by omega), if_neg (by omega)]

theorem fill_add (h : n < ws.length) : fill S e g base ws (base + n) = ws.getD n e := by
  rw [fill, if_neg (by omega), if_pos (by omega), Nat.add_sub_cancel_left]

theorem fill_erased (hlow : base + ws.length ≤ a) (hhigh : a < sectorEnd S (base + ws.length)) :
    fill S e g base ws a = e := by
  rw [fill, if_neg (by omega), if_neg (by omega), if_pos hhigh]

/-- After a fill the rest of its last sector is erased. -/
theorem ready_fill : Ready S e (fill S e g base ws) (base + ws.length) := fun _ hlow hhigh =>
  fill_erased hlow hhigh

/-- The words that were filled in. -/
theorem map_fill (h : n ≤ ws.length) :
    (List.range n).map (fun k => fill S e g base ws (base + k)) = ws.take n := by
  apply List.ext_getElem
  · rw [List.length_map, List.length_range, List.length_take, min_eq_left h]
  · intro k hk _
    rw [List.length_map, List.length_range] at hk
    rw [List.getElem_map, List.getElem_range, fill_add (hk.trans_le h), List.getElem_take,
      List.getD_eq_getElem?_getD, List.getElem?_eq_getElem (hk.trans_le h), Option.getD_some]

theorem fill_nil (hS : 0 < S) (h : Ready S e g base) : fill S e g base [] = g := by
  funext a
  rcases Nat.lt_or_ge a base with hbase | hbase
  · exact fill_of_lt hbase
  rcases Nat.lt_or_ge a (sectorEnd S base) with hend | hend
  · rw [fill_erased hbase hend, h a hbase hend]
  · exact fill_of_le hS hend

/-- To fill twice, the second time where the first ended, is to fill once. -/
theorem fill_append (hS : 0 < S) :
    fill S e (fill S e g base ws) (base + ws.length) ws' = fill S e g base (ws ++ ws') := by
  funext a
  have hlen : base + (ws ++ ws').length = base + ws.length + ws'.length := by
    rw [List.length_append, Nat.add_assoc]
  rcases Nat.lt_or_ge a (base + ws.length) with hfirst | hfirst
  · rw [fill_of_lt hfirst]
    rcases Nat.lt_or_ge a base with hbase | hbase
    · rw [fill_of_lt hbase, fill_of_lt hbase]
    · obtain ⟨n, rfl⟩ := Nat.exists_eq_add_of_le hbase
      have hn : n < ws.length := by omega
      rw [fill_add hn, fill_add (by rw [List.length_append]; omega), List.getD_eq_getElem?_getD,
        List.getD_eq_getElem?_getD, List.getElem?_append_left hn]
  rcases Nat.lt_or_ge a (base + ws.length + ws'.length) with hsecond | hsecond
  · obtain ⟨n, rfl⟩ := Nat.exists_eq_add_of_le hfirst
    rw [fill_add (by omega), Nat.add_assoc, fill_add (by rw [List.length_append]; omega),
      List.getD_eq_getElem?_getD, List.getD_eq_getElem?_getD,
      List.getElem?_append_right (Nat.le_add_right _ _), Nat.add_sub_cancel_left]
  rcases Nat.lt_or_ge a (sectorEnd S (base + ws.length + ws'.length)) with hend | hend
  · rw [fill_erased hsecond hend, fill_erased (by omega) (by rw [hlen]; exact hend)]
  · have hmono : sectorEnd S (base + ws.length) ≤ sectorEnd S (base + ws.length + ws'.length) :=
      sectorEnd_mono (Nat.le_add_right _ _)
    rw [fill_of_le hS hend, fill_of_le hS (hmono.trans hend),
      fill_of_le hS (by rw [hlen]; exact hend)]

/-- What makes a memory the fill of another. -/
theorem eq_fill (hS : 0 < S) (hlow : ∀ a < base, g' a = g a)
    (hwords : ∀ n < ws.length, g' (base + n) = ws.getD n e)
    (herased : Ready S e g' (base + ws.length))
    (hhigh : ∀ a, sectorEnd S (base + ws.length) ≤ a → g' a = g a) :
    g' = fill S e g base ws := by
  funext a
  rcases Nat.lt_or_ge a base with hbase | hbase
  · rw [fill_of_lt hbase, hlow a hbase]
  rcases Nat.lt_or_ge a (base + ws.length) with hin | hin
  · obtain ⟨n, rfl⟩ := Nat.exists_eq_add_of_le hbase
    rw [fill_add (by omega), hwords n (by omega)]
  rcases Nat.lt_or_ge a (sectorEnd S (base + ws.length)) with hend | hend
  · rw [fill_erased hin hend, herased a hin hend]
  · rw [fill_of_le hS hend, hhigh a hend]

end FpgaEthernet.Storage
