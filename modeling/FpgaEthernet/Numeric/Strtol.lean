import Mathlib.Tactic

/-!
# Integers in text

What `std::showbase << std::hex` writes for an unsigned integer, and what
`strtol` with base `0` reads: the base is taken from the text, and the reading
stops at the first character that is no digit of it.

Main results:

* `accumulate_toDigits`: the digits of a number are read back.
* `strtol_showHex`: so is what `showHex` writes, whatever follows it.
-/

namespace FpgaEthernet.Numeric

/-- `isspace` of the C locale. -/
def isSpace (c : Char) : Bool :=
  c = ' ' || c = '\t' || c = '\n' || c = '\x0b' || c = '\x0c' || c = '\r'

/-- The value of a digit, letters of either case counting from ten. -/
def digitVal (c : Char) : Option ℕ :=
  if '0' ≤ c ∧ c ≤ '9' then some (c.toNat - '0'.toNat)
  else if 'a' ≤ c ∧ c ≤ 'z' then some (c.toNat - 'a'.toNat + 10)
  else if 'A' ≤ c ∧ c ≤ 'Z' then some (c.toNat - 'A'.toNat + 10)
  else none

/-- The value of a digit of the base `b`. -/
def digitIn (b : ℕ) (c : Char) : Option ℕ := (digitVal c).filter (· < b)

/-- The value of the digits in front of a text, `n` being that of the digits
    before it. -/
def accumulate (b n : ℕ) : List Char → ℕ
  | [] => n
  | c :: cs =>
    match digitIn b c with
    | some d => accumulate b (b * n + d) cs
    | none => n

/-- A text starts with a digit of the base `b`. -/
def startsDigit (b : ℕ) (s : List Char) : Bool := s.head?.any fun c => (digitIn b c).isSome

/-- The sign in front of a text: whether it is negative, and the rest. -/
def signOf : List Char → Bool × List Char
  | '-' :: s => (true, s)
  | '+' :: s => (false, s)
  | s => (false, s)

/-- The base of a text (base argument `0`), and the text from its digits on. -/
def baseOf : List Char → ℕ × List Char
  | '0' :: 'x' :: s => if startsDigit 16 s then (16, s) else (8, '0' :: 'x' :: s)
  | '0' :: 'X' :: s => if startsDigit 16 s then (16, s) else (8, '0' :: 'X' :: s)
  | '0' :: s => (8, '0' :: s)
  | s => (10, s)

/-- `strtol(s, &end, 0)` for a 64-bit `long`: `none` where `end` is `s`. -/
def strtol (s : List Char) : Option ℤ :=
  let signed := signOf (s.dropWhile isSpace)
  let based := baseOf signed.2
  let n : ℤ := accumulate based.1 0 based.2
  if startsDigit based.1 based.2 then
    some (max (-2 ^ 63) (min (2 ^ 63 - 1) (if signed.1 then -n else n)))
  else none

/-- `os << std::showbase << std::hex << n`: a zero has no base in front. -/
def showHex (n : ℕ) : List Char :=
  if n = 0 then ['0'] else '0' :: 'x' :: Nat.toDigits 16 n

/-! ## Digits -/

theorem digitIn_digitChar {d : ℕ} (h : d < 16) : digitIn 16 d.digitChar = some d := by
  have hall : ∀ d < 16, digitIn 16 d.digitChar = some d := by decide
  exact hall d h

theorem startsDigit_toDigits (n : ℕ) (r : List Char) :
    startsDigit 16 (Nat.toDigits 16 n ++ r) = true := by
  induction n using Nat.strong_induction_on generalizing r with
  | _ n ih =>
    rw [Nat.toDigits_eq_if (by omega)]
    split
    · simp [startsDigit, digitIn_digitChar (by assumption)]
    · rw [List.append_assoc]
      apply ih
      omega

theorem accumulate_of_not_startsDigit {b n : ℕ} {r : List Char} (h : startsDigit b r = false) :
    accumulate b n r = n := by
  cases r with
  | nil => rfl
  | cons c cs =>
    have hc : digitIn b c = none := by
      simpa [startsDigit] using h
    rw [accumulate, hc]

/-- The digits of `n` are read as `n`, and the reading goes on after them. -/
theorem accumulate_toDigits_append (n : ℕ) (r : List Char) :
    accumulate 16 0 (Nat.toDigits 16 n ++ r) = accumulate 16 n r := by
  induction n using Nat.strong_induction_on generalizing r with
  | _ n ih =>
    rw [Nat.toDigits_eq_if (by omega)]
    split
    · simp [accumulate, digitIn_digitChar (by assumption)]
    · rw [List.append_assoc, ih _ (by omega), List.singleton_append, accumulate,
        digitIn_digitChar (by omega)]
      simp only [Nat.div_add_mod]

theorem accumulate_toDigits {n : ℕ} {r : List Char} (h : startsDigit 16 r = false) :
    accumulate 16 0 (Nat.toDigits 16 n ++ r) = n := by
  rw [accumulate_toDigits_append, accumulate_of_not_startsDigit h]

/-! ## The round trip -/

/-- A text that no reading of a number takes further: it starts with no digit
    of any base and no letter. -/
def Stops (r : List Char) : Prop := r.head?.all fun c => digitVal c = none

theorem Stops.startsDigit {r : List Char} (h : Stops r) (b : ℕ) : startsDigit b r = false := by
  cases r with
  | nil => rfl
  | cons c cs =>
    have hc : digitVal c = none := by simpa [Stops] using h
    simp [Numeric.startsDigit, digitIn, hc]

/-- What `showHex` writes is read back, whatever stands behind it. -/
theorem strtol_showHex {n : ℕ} (hn : n < 2 ^ 63) {r : List Char} (h : Stops r) :
    strtol (showHex n ++ r) = some (n : ℤ) := by
  unfold showHex
  split
  · next hzero =>
    subst hzero
    have hbase : baseOf ('0' :: r) = (8, '0' :: r) := by
      cases r with
      | nil => rfl
      | cons c cs =>
        have hc : digitVal c = none := by simpa [Stops] using h
        unfold baseOf
        split
        · next heq =>
          simp only [List.cons.injEq, true_and] at heq
          rw [heq.1] at hc
          exact absurd hc (by decide)
        · next heq =>
          simp only [List.cons.injEq, true_and] at heq
          rw [heq.1] at hc
          exact absurd hc (by decide)
        · next heq => rw [heq]
        · next heq => exact absurd rfl (heq _)
    have hread : accumulate 8 0 ('0' :: r) = 0 := by
      rw [accumulate, show digitIn 8 '0' = some 0 by decide]
      exact accumulate_of_not_startsDigit (h.startsDigit 8)
    have hsign : signOf (('0' :: r).dropWhile isSpace) = (false, '0' :: r) := by
      rw [List.dropWhile_cons_of_neg (by decide)]
      rfl
    simp only [strtol, List.singleton_append, hsign, hbase, hread]
    rfl
  · have hstart := startsDigit_toDigits n r
    have hbase : baseOf ('0' :: 'x' :: (Nat.toDigits 16 n ++ r)) =
        (16, Nat.toDigits 16 n ++ r) := by
      rw [baseOf, if_pos hstart]
    have hsign : signOf (('0' :: 'x' :: (Nat.toDigits 16 n ++ r)).dropWhile isSpace) =
        (false, '0' :: 'x' :: (Nat.toDigits 16 n ++ r)) := by
      rw [List.dropWhile_cons_of_neg (by decide)]
      rfl
    simp only [strtol, List.cons_append, hsign, hbase, hstart,
      accumulate_toDigits (h.startsDigit 16), if_true, Bool.false_eq_true, if_false]
    congr 1
    omega

/-! ## What is written -/

theorem showHex_ne_nil (n : ℕ) : showHex n ≠ [] := by
  unfold showHex
  split <;> simp

/-- `showHex` writes digits and letters only. -/
theorem digitVal_showHex {n : ℕ} {c : Char} (hc : c ∈ showHex n) : (digitVal c).isSome := by
  have hdigits : ∀ n : ℕ, ∀ c ∈ Nat.toDigits 16 n, (digitVal c).isSome := by
    intro n
    induction n using Nat.strong_induction_on with
    | _ n ih =>
      intro c hc
      have hchar : ∀ d < 16, (digitVal d.digitChar).isSome := by decide
      rw [Nat.toDigits_eq_if (by omega)] at hc
      split at hc
      · rw [List.mem_singleton.1 hc]
        exact hchar n (by assumption)
      · rcases List.mem_append.1 hc with hc | hc
        · exact ih _ (by omega) c hc
        · rw [List.mem_singleton.1 hc]
          exact hchar _ (by omega)
  unfold showHex at hc
  split at hc
  · rw [List.mem_singleton.1 hc]
    decide
  · rcases List.mem_cons.1 hc with rfl | hc
    · decide
    rcases List.mem_cons.1 hc with rfl | hc
    · decide
    · exact hdigits n c hc

theorem length_showHex {n k : ℕ} (hk : 0 < k) (h : n < 16 ^ k) : (showHex n).length ≤ k + 2 := by
  unfold showHex
  split
  · simp
  · have := (Nat.length_toDigits_le_iff (by omega) hk).2 h
    simpa using this

end FpgaEthernet.Numeric
