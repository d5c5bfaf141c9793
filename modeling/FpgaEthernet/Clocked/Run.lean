import Mathlib.Data.List.Basic
import Mathlib.Tactic

/-!
# Runs of a clocked machine

A clocked machine is a step function `ι → σ → σ`: one edge takes the inputs
present at the edge and the registers before it to the registers after it. This
file has the vocabulary in which the development speaks about runs.

* `run`: the registers after a list of edges.
* `trace`: the same for the first edges of an infinite schedule.
* `log`: what an observer who looks at the inputs and registers before every
  edge has seen, in order.
* `Along`: a condition that every edge of a run meets.

Main results:

* `run_invariant`, `log_invariant`, `log₂_invariant`: a property that holds
  initially and is kept by every edge meeting the condition holds at the end of
  every run along the condition. The property may mention one or two logs.
* `Along.of_isPrefix`, `along_iff`: a condition along a run is a condition on
  every edge of it.
* `run_iff_last`: what holds after a run, by its last edge.
* `run_edges`, `log_edges`, `along_edges`: runs of a part of a machine; `run_driven`,
  `log_driven`, `run_part`, `log_part`: of one that takes one edge at every edge.
* `log_congr`, `along_congr`: a run of another machine that takes the same edges.
* `foldl_run`: what a run adds to an account, by what its edges add.
* `run_meets`, `run_reaches`, `run_settles`: a run in which a measure falls until a property
  holds comes to it.
-/

namespace FpgaEthernet.Clocked

universe u v w

section

variable {ι : Type u} {σ : Type v} {α β : Type w} (step : ι → σ → σ)

/-- The registers after the edges `is`, starting from `s`. -/
def run (s : σ) (is : List ι) : σ := is.foldl (fun s i => step i s) s

/-- Everything seen through `obs` along the edges `is`. -/
def log (obs : ι → σ → List α) (s : σ) : List ι → List α
  | [] => []
  | i :: is => obs i s ++ log obs (step i s) is

/-- The registers after the first `n` edges of a schedule, which gives the inputs
    of every edge. -/
def trace (s : σ) (x : ℕ → ι) (n : ℕ) : σ := run step s ((List.range n).map x)

/-- Every edge of the run meets `R`, which may look at the inputs of the edge
    and at the registers before it. -/
def Along (R : ι → σ → Prop) (s : σ) : List ι → Prop
  | [] => True
  | i :: is => R i s ∧ Along R (step i s) is

instance Along.decidable {R : ι → σ → Prop} [∀ i s, Decidable (R i s)] :
    ∀ (is : List ι) (s : σ), Decidable (Along step R s is)
  | [], _ => isTrue trivial
  | i :: is, s =>
    have := Along.decidable (R := R) is (step i s)
    inferInstanceAs (Decidable (R i s ∧ Along step R (step i s) is))

@[simp] theorem run_nil (s : σ) : run step s [] = s := rfl

@[simp] theorem run_cons (s : σ) (i : ι) (is : List ι) :
    run step s (i :: is) = run step (step i s) is := rfl

theorem run_append (s : σ) (is js : List ι) :
    run step s (is ++ js) = run step (run step s is) js := by
  simp [run]

@[simp] theorem run_concat (s : σ) (is : List ι) (i : ι) :
    run step s (is ++ [i]) = step i (run step s is) := by
  simp [run]

@[simp] theorem trace_zero (s : σ) (x : ℕ → ι) : trace step s x 0 = s := rfl

theorem trace_succ (s : σ) (x : ℕ → ι) (n : ℕ) :
    trace step s x (n + 1) = step (x n) (trace step s x n) := by
  simp [trace, List.range_succ]

@[simp] theorem log_nil (obs : ι → σ → List α) (s : σ) : log step obs s [] = [] := rfl

@[simp] theorem log_cons (obs : ι → σ → List α) (s : σ) (i : ι) (is : List ι) :
    log step obs s (i :: is) = obs i s ++ log step obs (step i s) is := rfl

theorem log_append (obs : ι → σ → List α) (s : σ) (is js : List ι) :
    log step obs s (is ++ js) = log step obs s is ++ log step obs (run step s is) js := by
  induction is generalizing s with
  | nil => simp
  | cons i is ih => simp [ih]

@[simp] theorem log_concat (obs : ι → σ → List α) (s : σ) (is : List ι) (i : ι) :
    log step obs s (is ++ [i]) = log step obs s is ++ obs i (run step s is) := by
  simp [log_append]

theorem log_isPrefix (obs : ι → σ → List α) (s : σ) {is js : List ι} (h : is <+: js) :
    log step obs s is <+: log step obs s js := by
  obtain ⟨ks, rfl⟩ := h
  rw [log_append]
  exact List.prefix_append _ _

/-- What an observer has seen whose notes are a function of the inputs. -/
theorem log_eq_flatMap {obs : ι → σ → List α} {f : ι → List α} (h : ∀ i s, obs i s = f i) (s : σ)
    (is : List ι) : log step obs s is = is.flatMap f := by
  induction is generalizing s with
  | nil => rfl
  | cons i is ih => rw [log_cons, ih, h, List.flatMap_cons]

/-- What an observer has seen who picks out some of what another one sees. -/
theorem log_filterMap (g : α → Option β) (obs : ι → σ → List α) (s : σ) (is : List ι) :
    log step (fun i s => (obs i s).filterMap g) s is = (log step obs s is).filterMap g := by
  induction is generalizing s with
  | nil => rfl
  | cons i is ih => rw [log_cons, log_cons, ih, List.filterMap_append]

/-- The registers of a part of a machine that takes any number of edges of its own at an
    edge of the machine. -/
theorem run_edges {κ τ : Type*} {t : κ → τ → τ} {p : σ → τ} {g : ι → σ → List κ}
    (h : ∀ i s, p (step i s) = run t (p s) (g i s)) (s : σ) (is : List ι) :
    p (run step s is) = run t (p s) (log step g s is) := by
  induction is generalizing s with
  | nil => rfl
  | cons i is ih => rw [run_cons, ih, h, log_cons, run_append]

/-- What an observer has seen who looks at such a part. -/
theorem log_edges {κ τ : Type*} {t : κ → τ → τ} {p : σ → τ} {g : ι → σ → List κ}
    (h : ∀ i s, p (step i s) = run t (p s) (g i s)) (obs : κ → τ → List α) (s : σ) (is : List ι) :
    log step (fun i s => log t obs (p s) (g i s)) s is = log t obs (p s) (log step g s is) := by
  induction is generalizing s with
  | nil => rfl
  | cons i is ih => rw [log_cons, ih, h, log_cons, log_append]

/-- The registers of a part of a machine that is driven by the rest of it. -/
theorem run_driven {κ τ : Type*} {t : κ → τ → τ} {p : σ → τ} {g : ι → σ → κ}
    (h : ∀ i s, p (step i s) = t (g i s) (p s)) (s : σ) (is : List ι) :
    p (run step s is) = run t (p s) (log step (fun i s => [g i s]) s is) :=
  run_edges step h s is

/-- What an observer has seen who looks at a part that is driven by the rest. -/
theorem log_driven {κ τ : Type*} {t : κ → τ → τ} {p : σ → τ} {g : ι → σ → κ}
    (h : ∀ i s, p (step i s) = t (g i s) (p s)) (obs : κ → τ → List α) (s : σ) (is : List ι) :
    log step (fun i s => obs (g i s) (p s)) s is =
      log t obs (p s) (log step (fun i s => [g i s]) s is) := by
  rw [← log_edges step (g := fun i s => [g i s]) h]
  simp only [log_cons, log_nil, List.append_nil]

theorem log_inputs {κ : Type*} (g : ι → κ) (s : σ) (is : List ι) :
    log step (fun i _ => [g i]) s is = is.map g := by
  rw [List.map_eq_flatMap]
  exact log_eq_flatMap step (f := fun i => [g i]) (fun _ _ => rfl) s is

/-- The registers of a part of a machine that steps on its own inputs. -/
theorem run_part {κ τ : Type*} {t : κ → τ → τ} {p : σ → τ} {g : ι → κ}
    (h : ∀ i s, p (step i s) = t (g i) (p s)) (s : σ) (is : List ι) :
    p (run step s is) = run t (p s) (is.map g) := by
  rw [run_driven step h, log_inputs]

/-- What an observer has seen who looks at such a part only. -/
theorem log_part {κ τ : Type*} {t : κ → τ → τ} {p : σ → τ} {g : ι → κ}
    (h : ∀ i s, p (step i s) = t (g i) (p s)) (obs : κ → τ → List α) (s : σ) (is : List ι) :
    log step (fun i s => obs (g i) (p s)) s is = log t obs (p s) (is.map g) := by
  rw [log_driven step h, log_inputs]

/-- What an observer has seen of another machine that takes the same edges. -/
theorem log_congr {t : ι → σ → σ} {is : List ι} (h : ∀ i ∈ is, ∀ s, step i s = t i s)
    (obs : ι → σ → List α) (s : σ) : log step obs s is = log t obs s is := by
  induction is generalizing s with
  | nil => rfl
  | cons i is ih =>
    rw [log_cons, log_cons, h i List.mem_cons_self,
      ih fun j hj => h j (List.mem_cons_of_mem i hj)]

/-- What is seen before the edges, by what is seen after them. -/
theorem log_before (f : σ → α) (s : σ) (is : List ι) (j : ι) :
    log step (fun _ s => [f s]) s (is ++ [j]) =
      f s :: log step (fun i s => [f (step i s)]) s is := by
  induction is generalizing s with
  | nil => rfl
  | cons i is ih => rw [List.cons_append, log_cons, ih, log_cons, List.singleton_append,
      List.singleton_append]

/-- What an observer who notes one thing at every edge has noted at edge `q`. -/
theorem log_getElem? (f : ι → σ → α) (s : σ) (is : List ι) (q : ℕ) :
    (log step (fun i s => [f i s]) s is)[q]? =
      is[q]?.map fun i => f i (run step s (is.take q)) := by
  induction is generalizing s q with
  | nil => rfl
  | cons i is ih =>
    rw [log_cons, List.singleton_append]
    cases q with
    | zero => rfl
    | succ q => exact ih (step i s) q

@[simp] theorem along_nil (R : ι → σ → Prop) (s : σ) : Along step R s [] := trivial

@[simp] theorem along_cons (R : ι → σ → Prop) (s : σ) (i : ι) (is : List ι) :
    Along step R s (i :: is) ↔ R i s ∧ Along step R (step i s) is := Iff.rfl

theorem along_append (R : ι → σ → Prop) (s : σ) (is js : List ι) :
    Along step R s (is ++ js) ↔ Along step R s is ∧ Along step R (run step s is) js := by
  induction is generalizing s with
  | nil => simp
  | cons i is ih => simp [ih, and_assoc]

@[simp] theorem along_concat (R : ι → σ → Prop) (s : σ) (is : List ι) (i : ι) :
    Along step R s (is ++ [i]) ↔ Along step R s is ∧ R i (run step s is) := by
  simp [along_append]

/-- A condition along a run holds along every beginning of it. -/
theorem Along.of_isPrefix {R : ι → σ → Prop} {s : σ} {is js : List ι}
    (h : Along step R s (is ++ js)) : Along step R s is :=
  ((along_append step R s is js).1 h).1

theorem Along.mono {R R' : ι → σ → Prop} {s : σ} {is : List ι} (h : Along step R s is)
    (hR : ∀ i s, R i s → R' i s) : Along step R' s is := by
  induction is generalizing s with
  | nil => trivial
  | cons i is ih => exact ⟨hR i s h.1, ih h.2⟩

theorem Along.and {R R' : ι → σ → Prop} {s : σ} {is : List ι} (h : Along step R s is)
    (h' : Along step R' s is) : Along step (fun i s => R i s ∧ R' i s) s is := by
  induction is generalizing s with
  | nil => trivial
  | cons i is ih => exact ⟨⟨h.1, h'.1⟩, ih h.2 h'.2⟩

/-- A condition on the inputs alone. -/
theorem along_of_forall {P : ι → Prop} {s : σ} {is : List ι} (h : ∀ i ∈ is, P i) :
    Along step (fun i _ => P i) s is := by
  induction is generalizing s with
  | nil => trivial
  | cons i is ih =>
    exact ⟨h i List.mem_cons_self, ih fun j hj => h j (List.mem_cons_of_mem i hj)⟩

/-- A condition along the run of a part of a machine. -/
theorem along_edges {κ τ : Type*} {t : κ → τ → τ} {p : σ → τ} {g : ι → σ → List κ}
    (h : ∀ i s, p (step i s) = run t (p s) (g i s)) (R : κ → τ → Prop) (s : σ) (is : List ι) :
    Along t R (p s) (log step g s is) ↔ Along step (fun i s => Along t R (p s) (g i s)) s is := by
  induction is generalizing s with
  | nil => exact Iff.rfl
  | cons i is ih => rw [log_cons, along_append, along_cons, ← h, ih]

theorem along_congr {t : ι → σ → σ} {is : List ι} (h : ∀ i ∈ is, ∀ s, step i s = t i s)
    (R : ι → σ → Prop) (s : σ) : Along step R s is ↔ Along t R s is := by
  induction is generalizing s with
  | nil => exact Iff.rfl
  | cons i is ih =>
    rw [along_cons, along_cons, h i List.mem_cons_self,
      ih fun j hj => h j (List.mem_cons_of_mem i hj)]

/-- A condition along a run is a condition on every edge of it. -/
theorem along_iff (R : ι → σ → Prop) (s : σ) (is : List ι) :
    Along step R s is ↔ ∀ js i, js ++ [i] <+: is → R i (run step s js) := by
  induction is generalizing s with
  | nil => simp
  | cons k ks ih =>
    rw [along_cons, ih]
    constructor
    · rintro ⟨h0, h1⟩ js i hp
      cases js with
      | nil =>
        obtain rfl : i = k := by simpa using hp
        exact h0
      | cons j js =>
        rw [List.cons_append, List.cons_prefix_cons] at hp
        obtain ⟨rfl, hp⟩ := hp
        exact h1 js i hp
    · intro h
      refine ⟨h [] k (by simp), fun js i hp => ?_⟩
      exact h (k :: js) i (by simpa using hp)

/-- What was seen along a run was seen at one of its edges. -/
theorem mem_log_iff {obs : ι → σ → List α} {s : σ} {is : List ι} {a : α} :
    a ∈ log step obs s is ↔ ∃ js i, js ++ [i] <+: is ∧ a ∈ obs i (run step s js) := by
  induction is generalizing s with
  | nil => simp
  | cons k ks ih =>
    rw [log_cons, List.mem_append, ih]
    constructor
    · rintro (h | ⟨js, i, hp, h⟩)
      · exact ⟨[], k, by simp, h⟩
      · exact ⟨k :: js, i, by simpa using hp, h⟩
    · rintro ⟨js, i, hp, h⟩
      cases js with
      | nil =>
        obtain rfl : i = k := by simpa using hp
        exact Or.inl h
      | cons j js =>
        rw [List.cons_append, List.cons_prefix_cons] at hp
        obtain ⟨rfl, hp⟩ := hp
        exact Or.inr ⟨js, i, hp, h⟩

/-! ## Invariants -/

/-- An invariant of the registers, kept by every edge that meets `R`. -/
theorem run_invariant {R : ι → σ → Prop} {I : σ → Prop} {s : σ} {is : List ι} (h₀ : I s)
    (hstep : ∀ i s, R i s → I s → I (step i s)) (hR : Along step R s is) :
    I (run step s is) := by
  induction is generalizing s with
  | nil => exact h₀
  | cons i is ih => exact ih (hstep i s hR.1 h₀) hR.2

/-- An invariant holds before every edge. -/
theorem Along.and_invariant {R : ι → σ → Prop} {I : σ → Prop} {s : σ} {is : List ι}
    (hR : Along step R s is) (h₀ : I s) (hstep : ∀ i s, R i s → I s → I (step i s)) :
    Along step (fun i s => R i s ∧ I s) s is := by
  induction is generalizing s with
  | nil => trivial
  | cons i is ih => exact ⟨⟨hR.1, h₀⟩, ih hR.2 (hstep i s hR.1 h₀)⟩

/-- If every edge adds to an account what an observer notes at it, the run adds all of
    the notes. -/
theorem foldl_run {γ : Type*} {R : ι → σ → Prop} {obs : ι → σ → List α} {f : γ → α → γ}
    {account : σ → γ} (hstep : ∀ i s, R i s → account (step i s) = (obs i s).foldl f (account s))
    {s : σ} {is : List ι} (hR : Along step R s is) :
    account (run step s is) = (log step obs s is).foldl f (account s) := by
  induction is generalizing s with
  | nil => rfl
  | cons i is ih => rw [run_cons, ih hR.2, hstep i s hR.1, log_cons, List.foldl_append]

/-- What the last edge decides. -/
theorem run_iff_last {R Q : ι → σ → Prop} {P : σ → Prop} {s : σ} {is : List ι} (h₀ : ¬P s)
    (hstep : ∀ i s, R i s → (P (step i s) ↔ Q i s)) (hR : Along step R s is) :
    P (run step s is) ↔ ∃ js i, is = js ++ [i] ∧ Q i (run step s js) := by
  induction is using List.reverseRecOn with
  | nil =>
    refine ⟨fun h => absurd h h₀, ?_⟩
    rintro ⟨js, i, hnil, -⟩
    exact absurd hnil.symm (List.append_ne_nil_of_right_ne_nil js (List.cons_ne_nil i []))
  | append_singleton is i ih =>
    rw [along_concat] at hR
    rw [run_concat, hstep i _ hR.2]
    refine ⟨fun h => ⟨is, i, rfl, h⟩, ?_⟩
    rintro ⟨js, j, heq, h⟩
    obtain ⟨rfl, hij⟩ := List.append_inj' heq rfl
    obtain rfl := List.singleton_inj.1 hij
    exact h

/-- An invariant relating what was seen so far to the registers. -/
theorem log_invariant {R : ι → σ → Prop} {obs : ι → σ → List α} {I : List α → σ → Prop}
    {s : σ} {is : List ι} (h₀ : I [] s)
    (hstep : ∀ l i s, R i s → I l s → I (l ++ obs i s) (step i s)) (hR : Along step R s is) :
    I (log step obs s is) (run step s is) := by
  induction is using List.reverseRecOn with
  | nil => exact h₀
  | append_singleton is i ih =>
    rw [along_concat] at hR
    rw [log_concat, run_concat]
    exact hstep _ i _ hR.2 (ih hR.1)

/-- An invariant relating two logs to the registers. -/
theorem log₂_invariant {R : ι → σ → Prop} {obs : ι → σ → List α} {obs' : ι → σ → List β}
    {I : List α → List β → σ → Prop} {s : σ} {is : List ι} (h₀ : I [] [] s)
    (hstep : ∀ l l' i s, R i s → I l l' s → I (l ++ obs i s) (l' ++ obs' i s) (step i s))
    (hR : Along step R s is) :
    I (log step obs s is) (log step obs' s is) (run step s is) := by
  induction is using List.reverseRecOn with
  | nil => exact h₀
  | append_singleton is i ih =>
    rw [along_concat] at hR
    rw [log_concat, log_concat, run_concat]
    exact hstep _ _ i _ hR.2 (ih hR.1)

/-- A property that stays, and before which a measure never rises and falls at the edges
    that `goes` picks, holds at the end of every run with more such edges than the measure. -/
theorem run_reaches {R : ι → σ → Prop} {I P : σ → Prop} (μ : σ → ℕ) (goes : ι → Bool) {s : σ}
    {is : List ι} (h₀ : I s) (hstep : ∀ i s, R i s → I s → I (step i s))
    (hkeep : ∀ i s, R i s → I s → P s → P (step i s))
    (hfall : ∀ i s, R i s → I s → ¬P s →
      μ (step i s) ≤ μ s ∧ (goes i = true → μ (step i s) < μ s))
    (hR : Along step R s is) (hcount : μ s < is.countP goes) : P (run step s is) := by
  have hkept : ∀ {s : σ} {is : List ι}, I s → P s → Along step R s is → P (run step s is) :=
    fun hI hP hR => (run_invariant step (I := fun s => I s ∧ P s) ⟨hI, hP⟩
      (fun i s hi h => ⟨hstep i s hi h.1, hkeep i s hi h.1 h.2⟩) hR).2
  induction is generalizing s with
  | nil => cases hcount
  | cons i is ih =>
    by_cases hP : P s
    · exact hkept h₀ hP hR
    · obtain ⟨hle, hlt⟩ := hfall i s hR.1 h₀ hP
      refine ih (hstep i s hR.1 h₀) hR.2 ?_
      rw [List.countP_cons] at hcount
      by_cases hgoes : goes i = true
      · rw [if_pos hgoes, Nat.lt_succ_iff] at hcount
        exact (hlt hgoes).trans_le hcount
      · rw [if_neg hgoes] at hcount
        exact hle.trans_lt hcount

/-- A run in which a measure falls until a property holds, and which is as long as the
    measure, has the property at some edge. -/
theorem run_meets {R : ι → σ → Prop} {I P : σ → Prop} (μ : σ → ℕ) (hzero : ∀ s, μ s = 0 → P s)
    {s : σ} {is : List ι} (h₀ : I s)
    (hstep : ∀ i s, R i s → I s → ¬P s → I (step i s) ∧ μ (step i s) < μ s)
    (hR : Along step R s is) (hlen : μ s ≤ is.length) : ∃ js, js <+: is ∧ P (run step s js) := by
  induction is generalizing s with
  | nil => exact ⟨[], List.prefix_rfl, hzero s (Nat.le_zero.1 hlen)⟩
  | cons i is ih =>
    by_cases hP : P s
    · exact ⟨[], List.nil_prefix, hP⟩
    · obtain ⟨hI, hfall⟩ := hstep i s hR.1 h₀ hP
      rw [List.length_cons] at hlen
      obtain ⟨js, hjs, hmet⟩ := ih hI hR.2 (Nat.le_of_lt_succ (hfall.trans_le hlen))
      exact ⟨i :: js, List.cons_prefix_cons.2 ⟨rfl, hjs⟩, hmet⟩

/-- The same for a measure that is bounded, and falls from the second edge on, when `K` has
    come to hold. -/
theorem run_settles {R : ι → σ → Prop} {J K P : σ → Prop} (μ : σ → ℕ) (goes : ι → Bool) {n : ℕ}
    (hbound : ∀ s, μ s < n) {s : σ} {is : List ι} (h₀ : J s)
    (hstep : ∀ i s, R i s → J s → J (step i s) ∧ K (step i s))
    (hkeep : ∀ i s, R i s → J s → K s → P s → P (step i s))
    (hfall : ∀ i s, R i s → J s → K s → ¬P s →
      μ (step i s) ≤ μ s ∧ (goes i = true → μ (step i s) < μ s))
    (hR : Along step R s is) (hcount : n + 1 ≤ is.countP goes) : P (run step s is) := by
  cases is with
  | nil => cases hcount
  | cons i is =>
    have hcount : n ≤ is.countP goes := by
      rw [List.countP_cons] at hcount
      split_ifs at hcount <;> omega
    exact run_reaches step (s := step i s) (I := fun s => J s ∧ K s) μ goes (hstep i s hR.1 h₀)
      (fun j s hj h => hstep j s hj h.1) (fun j s hj h => hkeep j s hj h.1 h.2)
      (fun j s hj h => hfall j s hj h.1 h.2) hR.2 ((hbound _).trans_le hcount)

end

end FpgaEthernet.Clocked
