import FpgaEthernet.Clocked.Fifo

/-!
# A FIFO behind a write register

A FIFO with an output register whose write request and data come from a register, so
that a word is in the FIFO from the second edge after it came in. What the machine
around it reads is decided by its read request, which it keeps itself.

Main results:

* `taken_append_held`: one edge neither loses, duplicates nor reorders.
* `taken_eq_q`: a read shows the word it takes.
* `usedw_clock_le`, `usedw_clock`: the number of words in the FIFO after an edge.
-/

namespace FpgaEthernet.Clocked

universe u

/-- The write register, the FIFO and its output register. -/
structure InputBuffer (α : Type u) (depth : ℕ) where
  wrreq : Bool
  data : α
  fifo : Fifo α depth
  q : α

namespace InputBuffer

variable {α : Type u} {depth : ℕ} {b : InputBuffer α depth} {rd : Bool}

/-- One edge with read request `rd`, at which the word `a` comes in if `wr` says so. -/
def clock (b : InputBuffer α depth) (rd wr : Bool) (a : α) : InputBuffer α depth where
  wrreq := wr
  data := a
  fifo := b.fifo.clock b.wrreq b.data rd
  q := b.fifo.nextQ rd b.q

/-- The word on its way into the FIFO. -/
def written (b : InputBuffer α depth) : List α := if b.wrreq then [b.data] else []

/-- The words in the FIFO and on their way there. -/
def held (b : InputBuffer α depth) : List α := b.fifo.contents ++ b.written

/-- The number of words in the FIFO. -/
def usedw (b : InputBuffer α depth) : ℕ := b.fifo.usedw

/-- At most one word is on its way into the FIFO. -/
theorem held_length_le : b.held.length ≤ b.usedw + 1 := by
  rw [held, written, List.length_append, usedw, Fifo.usedw]
  split_ifs <;> simp

theorem held_of_wrreq (h : b.wrreq = false) : b.held = b.fifo.contents := by
  rw [held, written, h, if_neg Bool.false_ne_true, List.append_nil]

/-- What is read and what is held after an edge is what was held and what came in. -/
theorem taken_append_held (wr : Bool) (a : α) (h : b.held.length ≤ depth) :
    b.fifo.taken rd ++ (b.clock rd wr a).held = b.held ++ if wr then [a] else [] := by
  have haccepted : b.fifo.accepted b.wrreq b.data = b.written := by
    rw [held, written, List.length_append] at h
    unfold Fifo.accepted written
    cases hwrreq : b.wrreq with
    | false => rfl
    | true =>
      rw [hwrreq, if_pos rfl, List.length_singleton] at h
      exact if_pos ⟨rfl, h⟩
  have hfifo := b.fifo.taken_append_clock b.wrreq b.data rd
  rw [haccepted] at hfifo
  unfold held
  rw [← hfifo, List.append_assoc]
  rfl

/-- A read shows the word it takes. -/
theorem taken_eq_q (wr : Bool) (a : α) (h : 1 ≤ b.usedw) :
    b.fifo.taken true = [(b.clock true wr a).q] := by
  apply Fifo.taken_eq_nextQ
  rintro hnil
  rw [usedw, Fifo.usedw, hnil, List.length_nil] at h
  exact absurd h (by decide)

@[simp] theorem q_clock_false (wr : Bool) (a : α) : (b.clock false wr a).q = b.q :=
  b.fifo.nextQ_false b.q

theorem usedw_clock_le (wr : Bool) (a : α) :
    (if rd then b.usedw - 1 else b.usedw) ≤ (b.clock rd wr a).usedw := by
  simp only [usedw, Fifo.usedw, clock, Fifo.clock_contents, List.length_append]
  split_ifs
  · rw [List.length_tail]
    omega
  · omega

/-- Nothing is being written. -/
theorem usedw_clock (wr : Bool) (a : α) (h : b.wrreq = false) :
    (b.clock rd wr a).usedw = if rd then b.usedw - 1 else b.usedw := by
  simp only [usedw, Fifo.usedw, clock, h, Fifo.clock_contents, Fifo.accepted_false, List.append_nil]
  split_ifs
  · exact List.length_tail
  · rfl

end InputBuffer

end FpgaEthernet.Clocked
