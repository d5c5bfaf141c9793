import Mathlib.Data.List.Basic
import Mathlib.Tactic

/-!
# An ideal FIFO

A FIFO with one write port and one read port on one clock. Fullness and
emptiness are judged on the contents before the edge: a write to a full FIFO is
dropped, a read from an empty one is ignored. A show-ahead FIFO presents
`head?`; a registered one loads what it reads into an output register, which
the machine around it keeps.

Main results:

* `taken_append_clock`: one edge neither loses, duplicates nor reorders; what
  is read followed by what stays is what was there followed by what came in.
* `clock_length`: the used-word count after an edge.
* `forall₂_clock`, `rel_nextQ`: two FIFOs with the same requests keep step.
-/

namespace FpgaEthernet.Clocked

universe u

/-- The contents of a FIFO of `depth` words, oldest first. -/
structure Fifo (α : Type u) (depth : ℕ) where
  contents : List α
  bounded : contents.length ≤ depth

namespace Fifo

variable {α : Type u} {depth : ℕ}

instance [DecidableEq α] : DecidableEq (Fifo α depth) := fun f g =>
  decidable_of_iff (f.contents = g.contents) (by cases f; cases g; simp)

@[ext] theorem ext {f g : Fifo α depth} (h : f.contents = g.contents) : f = g := by
  cases f; cases g; simpa using h

/-- A FIFO after reset. -/
def empty : Fifo α depth := ⟨[], Nat.zero_le _⟩

instance : Inhabited (Fifo α depth) := ⟨empty⟩

@[simp] theorem empty_contents : (empty : Fifo α depth).contents = [] := rfl

/-- The number of words held, `usedw`. -/
def usedw (f : Fifo α depth) : ℕ := f.contents.length

/-- The word a write request brings in: none when the FIFO is full. -/
def accepted (f : Fifo α depth) (wr : Bool) (a : α) : List α :=
  if wr ∧ f.contents.length < depth then [a] else []

/-- The word a read request takes out: none when the FIFO is empty. -/
def taken (f : Fifo α depth) (rd : Bool) : List α :=
  if rd then f.contents.take 1 else []

/-- One edge with write request `wr` (and data `a`) and read request `rd`. -/
def clock (f : Fifo α depth) (wr : Bool) (a : α) (rd : Bool) : Fifo α depth where
  contents := (if rd then f.contents.tail else f.contents) ++ f.accepted wr a
  bounded := by
    have := f.bounded
    unfold accepted
    split_ifs <;> simp <;> omega

/-- The output register of a registered FIFO after an edge. -/
def nextQ (f : Fifo α depth) (rd : Bool) (q : α) : α :=
  if rd then f.contents.headD q else q

@[simp] theorem clock_contents (f : Fifo α depth) (wr : Bool) (a : α) (rd : Bool) :
    (f.clock wr a rd).contents =
      (if rd then f.contents.tail else f.contents) ++ f.accepted wr a := rfl

@[simp] theorem accepted_false (f : Fifo α depth) (a : α) : f.accepted false a = [] := by
  simp [accepted]

@[simp] theorem taken_false (f : Fifo α depth) : f.taken false = [] := by
  simp [taken]

@[simp] theorem nextQ_false (f : Fifo α depth) (q : α) : f.nextQ false q = q := by
  simp [nextQ]

theorem accepted_of_lt (f : Fifo α depth) (a : α) (h : f.contents.length < depth) :
    f.accepted true a = [a] := by
  simp [accepted, h]

/-- What is read followed by what stays is what was there followed by what came
    in. -/
theorem taken_append_clock (f : Fifo α depth) (wr : Bool) (a : α) (rd : Bool) :
    f.taken rd ++ (f.clock wr a rd).contents = f.contents ++ f.accepted wr a := by
  cases rd
  · simp
  · cases hc : f.contents with
    | nil => simp [taken, hc]
    | cons b l => simp [taken, hc]

/-- The word read from a non-empty FIFO is the one the register shows next. -/
theorem taken_eq_nextQ (f : Fifo α depth) (q : α) (h : f.contents ≠ []) :
    f.taken true = [f.nextQ true q] := by
  obtain ⟨a, l, hl⟩ := List.exists_cons_of_ne_nil h
  simp [taken, nextQ, hl]

theorem taken_length (f : Fifo α depth) (h : f.contents ≠ []) : (f.taken true).length = 1 := by
  rw [taken_eq_nextQ f (f.contents.head h) h, List.length_singleton]

/-- The used-word count after an edge. -/
theorem clock_length (f : Fifo α depth) (wr : Bool) (a : α) (rd : Bool) :
    (f.clock wr a rd).contents.length + (f.taken rd).length =
      f.contents.length + (f.accepted wr a).length := by
  have h := congrArg List.length (taken_append_clock f wr a rd)
  rw [List.length_append, List.length_append] at h
  omega

/-! ## Two FIFOs on one clock -/

variable {β : Type*} {R : α → β → Prop} {f : Fifo α depth} {g : Fifo β depth}

/-- FIFOs with the same requests keep step: what is in one stays related to what is in the
    other. -/
theorem forall₂_clock (h : List.Forall₂ R f.contents g.contents) {wr : Bool} {a : α} {b : β}
    (hab : wr = true → R a b) (rd : Bool) :
    List.Forall₂ R (f.clock wr a rd).contents (g.clock wr b rd).contents := by
  have hrest : List.Forall₂ R (if rd then f.contents.tail else f.contents)
      (if rd then g.contents.tail else g.contents) := by
    cases rd with
    | false => exact h
    | true =>
      obtain ⟨l, hl⟩ := f
      obtain ⟨m, hm⟩ := g
      cases h with
      | nil => exact .nil
      | cons _ hrest => exact hrest
  have hnew : List.Forall₂ R (f.accepted wr a) (g.accepted wr b) := by
    unfold accepted
    rw [h.length_eq]
    split_ifs with hwr
    · exact .cons (hab hwr.1) .nil
    · exact .nil
  exact List.rel_append hrest hnew

/-- What is read from them is related. -/
theorem rel_nextQ (h : List.Forall₂ R f.contents g.contents) (hne : f.contents ≠ []) (p : α)
    (q : β) : R (f.nextQ true p) (g.nextQ true q) := by
  obtain ⟨l, hl⟩ := f
  obtain ⟨m, hm⟩ := g
  cases h with
  | nil => exact absurd rfl hne
  | cons hab _ => exact hab

end Fifo

end FpgaEthernet.Clocked
