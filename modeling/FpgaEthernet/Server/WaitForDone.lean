import FpgaEthernet.Controller.OdileController

/-!
# Waiting for `DON`

Model of `waitForDone` (`server/src/ODILEServer.cpp`): the loop that receives words
until one of them is `DON`, or until the timeout. The time that has elapsed is taken
from `tv_nsec` alone, so that it is counted within the second.

Main results:

* `overdue_of_timedOut`: the loop does not give up too early.
* `not_timedOut_of_le`: with a timeout of 999 ms or more it never gives up.
* `waitForDone_eq_promised_iff`: it returns when it should iff the first overdue
  reading is one that the loop notices.
-/

namespace FpgaEthernet.OdileServer

open Command
open OdileController (command)

/-! ## Model -/

/-- `timespec`, as `clock_gettime` fills it. -/
structure Timespec where
  tvSec : ℤ
  tvNsec : ℕ
  tvNsec_lt : tvNsec < 1000000000

/-- `ts.tv_nsec/1000/1000` (lines 83 and 98). -/
def Timespec.ms (ts : Timespec) : ℤ := (ts.tvNsec / 1000 / 1000 : ℕ)

/-- One pass of the loop: the words that `recieveData` appends to the buffer, and the
    clock after it. `bytes_recvd` is the number of these words, or negative if there
    are none. -/
structure Pass where
  received : List Word
  ts : Timespec

/-- The comparison with `DON` (line 93). -/
def isDone (w : Word) : Bool := w &&& 0x00FFFFFF == 0x00444F4E

/-- The test for the timeout (lines 98-102). -/
def TimedOut (timeoutMs starttime : ℤ) (x : Pass) : Prop :=
  timeoutMs > 0 ∧ x.ts.ms - starttime > timeoutMs

instance (timeoutMs starttime : ℤ) (x : Pass) : Decidable (TimedOut timeoutMs starttime x) :=
  inferInstanceAs (Decidable (_ ∧ _))

/-- The loop (lines 85-103), with the buffer as it is before the passes: what it
    returns, and in which of them. The buffer is not cleared between two passes. -/
def waitLoop (timeoutMs starttime : ℤ) : List Word → List Pass → Option (ℕ × Bool)
  | _, [] => none
  | buffer, x :: xs =>
    let buffer := buffer ++ x.received
    if 0 < x.received.length ∧ buffer.any isDone then some (0, true)
    else if TimedOut timeoutMs starttime x then some (0, false)
    else (waitLoop timeoutMs starttime buffer xs).map fun r => (r.1 + 1, r.2)

/-- `waitForDone` (lines 77-105), after the passes `xs`; `none` as long as it waits. -/
def waitForDone (timeoutMs : ℤ) (start : Timespec) (xs : List Pass) : Option (ℕ × Bool) :=
  waitLoop timeoutMs start.ms [] xs

/-! ## Specification -/

/-- The time in ns. -/
def Timespec.ns (ts : Timespec) : ℤ := ts.tvSec * 1000000000 + ts.tvNsec

/-- A word that is received says `DON`. -/
def Answered (x : Pass) : Prop := ∃ w ∈ x.received, command w = cmdDone

instance (x : Pass) : Decidable (Answered x) :=
  List.decidableBEx (fun w => command w = cmdDone) x.received

/-- More than `timeoutMs` have elapsed. -/
def Overdue (timeoutMs : ℤ) (start : Timespec) (x : Pass) : Prop :=
  timeoutMs * 1000000 < x.ts.ns - start.ns

instance (timeoutMs : ℤ) (start : Timespec) (x : Pass) : Decidable (Overdue timeoutMs start x) :=
  inferInstanceAs (Decidable (_ < _))

/-- What should be returned, and in which pass. -/
def promised (timeoutMs : ℤ) (start : Timespec) : List Pass → Option (ℕ × Bool)
  | [] => none
  | x :: xs =>
    if Answered x then some (0, true)
    else if Overdue timeoutMs start x then some (0, false)
    else (promised timeoutMs start xs).map fun r => (r.1 + 1, r.2)

/-- In the first overdue pass, if there was no `DON` up to it, the milliseconds within
    the second are more than `timeoutMs` above those of the start. -/
def Noticed (timeoutMs : ℤ) (start : Timespec) (xs : List Pass) : Prop :=
  ∀ pre x post, xs = pre ++ x :: post → (∀ y ∈ pre, ¬Overdue timeoutMs start y) →
    Overdue timeoutMs start x → (∀ y ∈ pre ++ [x], ¬Answered y) → timeoutMs < x.ts.ms - start.ms

/-! ## One pass -/

variable {timeoutMs : ℤ} {start : Timespec} {buffer : List Word} {x : Pass} {xs : List Pass}

theorem isDone_iff (w : Word) : isDone w = true ↔ command w = cmdDone := by
  have hmask : (w &&& 0x00FFFFFF).toNat = w.toNat % 2 ^ 24 := Nat.and_two_pow_sub_one_eq_mod _ 24
  have hlow : (command w).toNat = w.toNat % 2 ^ 24 := by
    rw [command, BitVec.extractLsb'_toNat, Nat.shiftRight_zero]
  rw [isDone, beq_iff_eq, ← BitVec.toNat_inj, ← BitVec.toNat_inj, hmask, hlow]
  rfl

theorem answered_iff : Answered x ↔ x.received.any isDone = true := by
  simp only [Answered, List.any_eq_true, isDone_iff]

/-- What is in the buffer already does not count. -/
theorem returns_true_iff (hb : buffer.any isDone = false) :
    0 < x.received.length ∧ (buffer ++ x.received).any isDone = true ↔ Answered x := by
  rw [List.any_append, hb, Bool.false_or, answered_iff]
  refine ⟨And.right, fun h => ⟨List.length_pos_iff.2 ?_, h⟩⟩
  rintro hnil
  rw [hnil] at h
  cases h

/-- Seconds that are not smaller, and milliseconds within the second that are larger by
    more than the timeout: the timeout is over. -/
theorem overdue_of_timedOut (hmono : start.ns ≤ x.ts.ns) (h : TimedOut timeoutMs start.ms x) :
    Overdue timeoutMs start x := by
  obtain ⟨ht, hms⟩ := h
  have hstart := start.tvNsec_lt
  have hx := x.ts.tvNsec_lt
  unfold Timespec.ms at hms
  unfold Timespec.ns at hmono
  unfold Overdue Timespec.ns
  omega

/-- The milliseconds within the second differ by less than a second. -/
theorem not_timedOut_of_le (ht : 999 ≤ timeoutMs) : ¬TimedOut timeoutMs start.ms x := by
  rintro ⟨-, hms⟩
  have hx := x.ts.tvNsec_lt
  unfold Timespec.ms at hms
  omega

/-! ## The loop -/

/-- Without a timeout only `DON` ends the loop. -/
theorem waitLoop_of_not_timedOut (hb : buffer.any isDone = false)
    (h : ∀ x ∈ xs, ¬TimedOut timeoutMs start.ms x) :
    waitLoop timeoutMs start.ms buffer xs =
      (xs.findIdx? fun x => decide (Answered x)).map fun k => (k, true) := by
  induction xs generalizing buffer with
  | nil => rfl
  | cons x xs ih =>
    rw [waitLoop, List.findIdx?_cons]
    by_cases ha : Answered x
    · rw [if_pos ((returns_true_iff hb).2 ha), decide_eq_true ha]
      rfl
    · have hb' : (buffer ++ x.received).any isDone = false := by
        rw [List.any_append, hb, Bool.false_or]
        exact Bool.eq_false_iff.2 fun h => ha (answered_iff.2 h)
      rw [if_neg fun h => ha ((returns_true_iff hb).1 h), if_neg (h x List.mem_cons_self),
        decide_eq_false ha, ih hb' fun y hy => h y (List.mem_cons_of_mem x hy)]
      simp [Option.map_map, Function.comp_def]

/-- Without a timeout it waits for `DON`. -/
theorem waitForDone_indefinitely (ht : timeoutMs ≤ 0) (start : Timespec) (xs : List Pass) :
    waitForDone timeoutMs start xs =
      (xs.findIdx? fun x => decide (Answered x)).map fun k => (k, true) :=
  waitLoop_of_not_timedOut rfl fun _ _ h => absurd h.1 (not_lt.2 ht)

/-- With 999 ms or more, also the default of 1000 ms, it never gives up. -/
theorem waitForDone_of_le (ht : 999 ≤ timeoutMs) (start : Timespec) (xs : List Pass) :
    waitForDone timeoutMs start xs =
      (xs.findIdx? fun x => decide (Answered x)).map fun k => (k, true) :=
  waitLoop_of_not_timedOut rfl fun _ _ => not_timedOut_of_le ht

theorem noticed_of_answered (h : Answered x) : Noticed timeoutMs start (x :: xs) := by
  intro pre y post heq _ _ hno
  cases pre with
  | nil =>
    obtain ⟨rfl, -⟩ := List.cons.inj heq
    exact absurd h (hno x List.mem_cons_self)
  | cons z pre =>
    obtain ⟨rfl, -⟩ := List.cons.inj heq
    exact absurd h (hno x List.mem_cons_self)

theorem noticed_of_overdue (ha : ¬Answered x) (h : Overdue timeoutMs start x) :
    Noticed timeoutMs start (x :: xs) ↔ timeoutMs < x.ts.ms - start.ms := by
  constructor
  · intro hn
    refine hn [] x xs rfl (fun y hy => absurd hy List.not_mem_nil) h fun y hy => ?_
    rwa [List.mem_singleton.1 hy]
  · intro hms pre y post heq hpre _ _
    cases pre with
    | nil =>
      obtain ⟨rfl, -⟩ := List.cons.inj heq
      exact hms
    | cons z pre =>
      obtain ⟨rfl, -⟩ := List.cons.inj heq
      exact absurd h (hpre x List.mem_cons_self)

theorem noticed_cons (ha : ¬Answered x) (h : ¬Overdue timeoutMs start x) :
    Noticed timeoutMs start (x :: xs) ↔ Noticed timeoutMs start xs := by
  constructor
  · intro hn pre y post heq hpre hy hno
    refine hn (x :: pre) y post (by rw [heq]; rfl) (List.forall_mem_cons.2 ⟨h, hpre⟩) hy ?_
    exact List.forall_mem_cons.2 ⟨ha, hno⟩
  · intro hn pre y post heq hpre hy hno
    cases pre with
    | nil =>
      obtain ⟨rfl, -⟩ := List.cons.inj heq
      exact absurd hy h
    | cons z pre =>
      obtain ⟨-, heq⟩ := List.cons.inj heq
      exact hn pre y post heq (fun w hw => hpre w (List.mem_cons_of_mem z hw)) hy
        fun w hw => hno w (List.mem_cons_of_mem z hw)

/-- The loop, with no `DON` in the buffer, against what it should return. -/
theorem waitLoop_eq_promised_iff (ht : 0 < timeoutMs) (hb : buffer.any isDone = false)
    (hmono : ∀ x ∈ xs, start.ns ≤ x.ts.ns) :
    waitLoop timeoutMs start.ms buffer xs = promised timeoutMs start xs ↔
      Noticed timeoutMs start xs := by
  induction xs generalizing buffer with
  | nil =>
    refine iff_of_true rfl fun pre x post heq => ?_
    cases pre <;> cases heq
  | cons x xs ih =>
    rw [waitLoop, promised]
    by_cases ha : Answered x
    · rw [if_pos ((returns_true_iff hb).2 ha), if_pos ha]
      exact iff_of_true rfl (noticed_of_answered ha)
    have hb' : (buffer ++ x.received).any isDone = false := by
      rw [List.any_append, hb, Bool.false_or]
      exact Bool.eq_false_iff.2 fun h => ha (answered_iff.2 h)
    have hx := hmono x List.mem_cons_self
    rw [if_neg fun h => ha ((returns_true_iff hb).1 h), if_neg ha]
    by_cases ho : Overdue timeoutMs start x
    · rw [noticed_of_overdue ha ho, if_pos ho]
      by_cases hms : TimedOut timeoutMs start.ms x
      · rw [if_pos hms]
        exact iff_of_true rfl hms.2
      · rw [if_neg hms]
        refine iff_of_false (fun h => ?_) fun h => hms ⟨ht, h⟩
        obtain ⟨r, -, hr⟩ := Option.map_eq_some_iff.1 h
        exact absurd (congrArg Prod.fst hr) r.1.succ_ne_zero
    · rw [noticed_cons ha ho, if_neg ho, if_neg fun h => ho (overdue_of_timedOut hx h),
        ← ih hb' fun y hy => hmono y (List.mem_cons_of_mem x hy)]
      refine (Option.map_injective fun r r' h => ?_).eq_iff
      obtain ⟨h₁, h₂⟩ := Prod.mk.inj h
      exact Prod.ext (Nat.succ_injective h₁) h₂

/-- With readings that never go back, it returns what it should and in the pass in
    which it should iff the first overdue reading is noticed. -/
theorem waitForDone_eq_promised_iff (ht : 0 < timeoutMs)
    (hmono : (start :: xs.map Pass.ts).Pairwise fun t t' => t.ns ≤ t'.ns) :
    waitForDone timeoutMs start xs = promised timeoutMs start xs ↔
      Noticed timeoutMs start xs := by
  refine waitLoop_eq_promised_iff ht rfl fun x hx => ?_
  exact (List.pairwise_cons.1 hmono).1 x.ts (List.mem_map_of_mem hx)

/-- A reading in ms. -/
def atMs (ms : ℕ) : Timespec where
  tvSec := (ms / 1000 : ℕ)
  tvNsec := ms % 1000 * 1000000
  tvNsec_lt := by omega

theorem waitForDone_eq_promised_iff_sameSecond :
    waitForDone 100 (atMs 0) [⟨[], atMs 50⟩, ⟨[], atMs 150⟩] =
        promised 100 (atMs 0) [⟨[], atMs 50⟩, ⟨[], atMs 150⟩] ↔
      Noticed 100 (atMs 0) [⟨[], atMs 50⟩, ⟨[], atMs 150⟩] :=
  waitForDone_eq_promised_iff (by decide) (by decide)

/-- 110 ms after 950 ms past the second the timeout of 100 ms is not noticed. -/
theorem timeout_over_the_second :
    waitForDone 100 (atMs 950) [⟨[], atMs 1060⟩] = none ∧
      promised 100 (atMs 950) [⟨[], atMs 1060⟩] = some (0, false) := by
  decide +kernel

end FpgaEthernet.OdileServer
