import Mathlib.Data.List.Intervals
import Mathlib.Tactic

/-!
# Delay lines

A delay line is a row of registers that a value passes through, one register an
edge. Streams are functions of the number of edges; what is shown before the
first value arrives is `idle`.

Main results:

* `Carries.clock`, `Carries.out`: a line that carries a stream goes on carrying
  it, and shows it late.
* `late_burst`: words sent without a gap stay together.
* `filterMap_burst`: whoever looks for long enough sees them all, once.
-/

namespace FpgaEthernet.Clocked

universe u v

variable {α : Type u} {β : Type v}

/-! ## Streams -/

/-- The stream `f`, late by `d` edges. -/
def late (d : ℕ) (idle : β) (f : ℕ → β) (c : ℕ) : β := if c < d then idle else f (c - d)

@[simp] theorem late_zero (idle : β) (f : ℕ → β) : late 0 idle f = f := rfl

theorem late_succ (d : ℕ) (idle : β) (f : ℕ → β) (c : ℕ) :
    late (d + 1) idle f (c + 1) = late d idle f c := by
  simp [late]

/-- Delays add up. -/
theorem late_late (d e : ℕ) (idle : β) (f : ℕ → β) :
    late d idle (late e idle f) = late (d + e) idle f := by
  funext c
  unfold late
  by_cases hd : c < d
  · rw [if_pos hd, if_pos (by omega)]
  · rw [if_neg hd]
    by_cases he : c - d < e
    · rw [if_pos he, if_pos (by omega)]
    · rw [if_neg he, if_neg (by omega), Nat.sub_sub]

/-- The words `ws` in consecutive cycles, the first after `start` edges. -/
def burst (start : ℕ) (ws : List α) : ℕ → Option α := late start none fun c => ws[c]?

theorem late_burst (d start : ℕ) (ws : List α) :
    late d none (burst start ws) = burst (d + start) ws := late_late ..

@[simp] theorem burst_nil (start : ℕ) (c : ℕ) : burst start ([] : List α) c = none := by
  simp [burst, late]

theorem burst_succ (start : ℕ) (ws : List α) (c : ℕ) :
    burst (start + 1) ws (c + 1) = burst start ws c := late_succ ..

theorem burst_of_lt {start c : ℕ} {ws : List α} (h : c < start) : burst start ws c = none :=
  if_pos h

theorem burst_of_le {start c : ℕ} {ws : List α} (h : start + ws.length ≤ c) :
    burst start ws c = none := by
  unfold burst late
  rw [if_neg (by omega)]
  exact List.getElem?_eq_none (by omega)

theorem burst_add {start k : ℕ} {ws : List α} : burst start ws (start + k) = ws[k]? := by
  simp [burst, late]

theorem burst_start {start : ℕ} {ws : List α} : burst start ws start = ws[0]? := by
  simp [burst, late]

theorem mem_of_burst {start c : ℕ} {ws : List α} {w : α} (h : burst start ws c = some w) :
    w ∈ ws := by
  unfold burst late at h
  split_ifs at h
  exact List.mem_of_getElem? h

theorem burst_isSome {start c : ℕ} {ws : List α} :
    (burst start ws c).isSome = decide (start ≤ c ∧ c < start + ws.length) := by
  by_cases h : c < start
  · rw [burst_of_lt h]
    exact (decide_eq_false (by omega)).symm
  · obtain ⟨k, rfl⟩ := Nat.exists_eq_add_of_le (Nat.le_of_not_lt h)
    rw [burst_add, Bool.eq_iff_iff, decide_eq_true_eq, Option.isSome_iff_exists]
    simp [List.getElem?_eq_some_iff]

/-- Whoever looks from before the first word until after the last one sees
    the words, each once. -/
theorem filterMap_burst {start b e : ℕ} {ws : List α} (hb : b ≤ start)
    (he : start + ws.length ≤ e) : (List.Ico b e).filterMap (burst start ws) = ws := by
  have hbefore : (List.Ico b start).filterMap (burst start ws) = [] := by
    rw [List.filterMap_eq_nil_iff]
    intro c hc
    exact burst_of_lt (List.Ico.mem.1 hc).2
  have hafter : (List.Ico (start + ws.length) e).filterMap (burst start ws) = [] := by
    rw [List.filterMap_eq_nil_iff]
    intro c hc
    exact burst_of_le (List.Ico.mem.1 hc).1
  have hwords : ∀ n ≤ ws.length,
      (List.Ico start (start + n)).filterMap (burst start ws) = ws.take n := by
    intro n hn
    induction n with
    | zero => simp
    | succ n ih =>
      rw [← Nat.add_assoc, List.Ico.succ_top (Nat.le_add_right ..), List.filterMap_append,
        ih (by omega), List.take_add_one]
      cases h : ws[n]? <;> simp [List.filterMap, burst_add, h]
  rw [← List.Ico.append_consecutive hb (by omega : start ≤ e),
    ← List.Ico.append_consecutive (Nat.le_add_right start ws.length) he, List.filterMap_append,
    List.filterMap_append, hbefore, hafter, hwords _ le_rfl]
  simp

/-! ## Lines -/

/-- A line of `d` registers, the one next to the input first. -/
def Delay (α : Type u) (d : ℕ) : Type u := Fin d → α

namespace Delay

variable {d : ℕ}

/-- The line with all its registers `a`. -/
def const (a : α) : Delay α d := fun _ => a

/-- What the line shows while `a` is at its input: `a` itself without a
    register. -/
def out (l : Delay α d) (a : α) : α := if h : d = 0 then a else l ⟨d - 1, by omega⟩

/-- One edge, with `a` at the input. -/
def clock (l : Delay α d) (a : α) : Delay α d := fun j =>
  if (j : ℕ) = 0 then a else l ⟨j - 1, by omega⟩

/-- What is in the registers is what `f` had at the input before the last `c`
    edges, as `view` shows it. -/
def Carries (view : α → β) (idle : β) (f : ℕ → β) (c : ℕ) (l : Delay α d) : Prop :=
  ∀ j : Fin d, view (l j) = late (j + 1) idle f c

variable {view : α → β} {idle : β} {f : ℕ → β} {c : ℕ} {l : Delay α d} {a : α}

theorem Carries.clock (h : Carries view idle f c l) (ha : view a = f c) :
    Carries view idle f (c + 1) (l.clock a) := by
  intro j
  rw [late_succ]
  unfold Delay.clock
  by_cases hj : (j : ℕ) = 0
  · rw [if_pos hj, ha, hj, late_zero]
  · rw [if_neg hj, h]
    congr 1
    show (j : ℕ) - 1 + 1 = j
    omega

theorem Carries.out (h : Carries view idle f c l) (ha : view a = f c) :
    view (l.out a) = late d idle f c := by
  unfold Delay.out
  by_cases hd : d = 0
  · rw [dif_pos hd, ha, hd, late_zero]
  · rw [dif_neg hd, h]
    congr 1
    show d - 1 + 1 = d
    omega

/-- A stream can be taken for another that has shown the same so far. -/
theorem Carries.congr {g : ℕ → β} {e : ℕ} (h : Carries view idle f c l)
    (hfg : ∀ j < d, late (j + 1) idle f c = late (j + 1) idle g e) :
    Carries view idle g e l := fun j => (h j).trans (hfg j j.isLt)

/-- A condition on every register. -/
theorem forall_clock {P : α → Prop} (h : ∀ j, P (l j)) (ha : P a) : ∀ j, P (l.clock a j) := by
  intro j
  unfold clock
  split_ifs
  · exact ha
  · exact h _

theorem forall_out {P : α → Prop} (h : ∀ j, P (l j)) (ha : P a) : P (l.out a) := by
  unfold out
  split_ifs
  · exact ha
  · exact h _

/-- A relation between every value and the ones after it, itself included. -/
def Pairs (R : α → α → Prop) (l : Delay α d) : Prop := ∀ j k : Fin d, k ≤ j → R (l j) (l k)

theorem Pairs.clock {R : α → α → Prop} (h : Pairs R l) (hl : ∀ j, R (l j) a) (ha : R a a) :
    Pairs R (l.clock a) := by
  intro j k hk
  unfold Delay.clock
  by_cases hj : (j : ℕ) = 0
  · have hk0 : (k : ℕ) = 0 := by
      have := Fin.le_def.1 hk
      omega
    rw [if_pos hj, if_pos hk0]
    exact ha
  · rw [if_neg hj]
    by_cases hk0 : (k : ℕ) = 0
    · rw [if_pos hk0]
      exact hl _
    · rw [if_neg hk0]
      apply h
      exact Fin.le_def.2 (Nat.sub_le_sub_right (Fin.le_def.1 hk) 1)

end Delay

end FpgaEthernet.Clocked
