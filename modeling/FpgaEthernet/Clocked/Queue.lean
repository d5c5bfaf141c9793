import Mathlib.Data.List.Basic
import Mathlib.Tactic

/-!
# Reading ahead

An unbounded FIFO with an output register, for machines that ask for words before
they need them. Any number of words may come in at an edge; a read of an empty FIFO
is ignored. The output register shows a word from the edge after it was asked for.

Main results:

* `Remains.clock_read`, `Remains.clock_wait`: how many of the words that are there for
  sure have been read, and what is left when more is asked for than is there.
* `Remains.q_eq`: what the output register shows.
-/

namespace FpgaEthernet.Clocked

universe u

/-- The contents, oldest first, and the output register. -/
structure Queue (α : Type u) where
  contents : List α
  q : α

variable {α : Type u}

/-- One edge with read request `rd`, at which `new` comes in. -/
def Queue.clock (b : Queue α) (rd : Bool) (new : List α) : Queue α where
  contents := (if rd then b.contents.tail else b.contents) ++ new
  q := if rd then b.contents.headD b.q else b.q

/-- What is left of `f` when `n` reads have been tried, of which the first `todo` find a
    word for sure. -/
def Remains (todo n : ℕ) (f l : List α) : Prop :=
  ∃ k, l = f.drop k ∧ k ≤ f.length ∧ (n ≤ todo → k = n) ∧ (todo ≤ n → todo ≤ k)

variable {todo n : ℕ} {f new : List α} {b : Queue α}

theorem remains_zero (todo : ℕ) (f : List α) : Remains todo 0 f f :=
  ⟨0, rfl, Nat.zero_le _, fun _ => rfl, id⟩

theorem Remains.clock_wait (h : Remains todo n f b.contents) :
    Remains todo n (f ++ new) (b.clock false new).contents := by
  obtain ⟨k, hk, hlength, hn⟩ := h
  refine ⟨k, ?_, ?_, hn⟩
  · rw [List.drop_append_of_le_length hlength, ← hk]
    rfl
  · rw [List.length_append]
    omega

theorem Remains.clock_read (h : Remains todo n f b.contents) (hf : todo ≤ f.length) :
    Remains todo (n + 1) (f ++ new) (b.clock true new).contents := by
  obtain ⟨k, hk, hlength, hexact, hmore⟩ := h
  have hcontents : (b.clock true new).contents = (f.drop k).tail ++ new := by rw [← hk]; rfl
  rw [hcontents]
  rcases hlength.lt_or_eq with hlt | rfl
  · refine ⟨k + 1, ?_, ?_, ?_, ?_⟩
    · rw [List.tail_drop, List.drop_append_of_le_length hlt]
    · rw [List.length_append]
      omega
    · omega
    · omega
  · refine ⟨f.length, ?_, ?_, ?_, ?_⟩
    · simp
    · rw [List.length_append]
      omega
    · omega
    · omega

/-- A read that finds a word for sure finds the next one. -/
theorem Remains.q_eq (h : Remains todo n f b.contents) (hn : n < todo) (hf : todo ≤ f.length)
    (new : List α) :
    f[n]? = some (b.clock true new).q := by
  obtain ⟨k, hk, -, hexact, -⟩ := h
  obtain rfl := hexact hn.le
  have hq : (b.clock true new).q = (f.drop k).headD b.q := by rw [← hk]; rfl
  rw [hq, List.headD_eq_head?_getD, List.head?_drop, List.getElem?_eq_getElem (by omega)]
  rfl

end FpgaEthernet.Clocked
