import FpgaEthernet.Numeric.Strtol

/-!
# Words in a text stream

What `os << std::hex << std::setw(d) << std::setfill('0')` writes for an unsigned word, and
what `is >> std::hex` reads: space in front is skipped, `0x` is allowed, and the reading stops
at the first character that is no digit.

Main results:

* `extractHex_digits`: a word in digits is read up to their end.
* `readHex_lines`: words in lines are read back, whatever the width.
-/

namespace FpgaEthernet.Numeric

variable {w d n : ℕ} {l r : List Char}

/-- The text behind a prefix of the base 16. -/
def skipBase : List Char → List Char
  | '0' :: 'x' :: s => s
  | '0' :: 'X' :: s => s
  | s => s

/-- `is >> std::hex >> word` for an unsigned word of `w` bits: the word and what is left of the
    stream, `none` where it fails. A negative number wraps around. -/
def extractHex (w : ℕ) (s : List Char) : Option (BitVec w × List Char) :=
  let signed := signOf (s.dropWhile isSpace)
  let digits := skipBase signed.2
  let n := accumulate 16 0 digits
  if startsDigit 16 digits ∧ n < 2 ^ w then
    some (if signed.1 then -BitVec.ofNat w n else BitVec.ofNat w n,
      digits.dropWhile fun c => (digitIn 16 c).isSome)
  else none

/-- The words of `while (is >> std::hex >> word)`, with the passes left as the second
    argument. -/
def hexWords (w : ℕ) : ℕ → List Char → List (BitVec w)
  | 0, _ => []
  | k + 1, s =>
    match extractHex w s with
    | some (x, s) => x :: hexWords w k s
    | none => []

/-- All words of a stream: each of them takes a character at least. -/
def readHex (w : ℕ) (s : List Char) : List (BitVec w) := hexWords w s.length s

/-- `os << std::hex << std::setw(d) << std::setfill('0') << n`. -/
def showPadded (d n : ℕ) : List Char := (Nat.toDigits 16 n).leftpad d '0'

/-- A word and the end of its line. -/
def hexLine (d : ℕ) (x : BitVec w) : List Char := showPadded d x.toNat ++ ['\n']

/-! ## Digits -/

/-- A text of digits. -/
def IsHex (l : List Char) : Prop := ∀ c ∈ l, (digitIn 16 c).isSome = true

theorem isHex_toDigits (n : ℕ) : IsHex (Nat.toDigits 16 n) := by
  induction n using Nat.strong_induction_on with
  | _ n ih =>
    rw [Nat.toDigits_eq_if (by omega)]
    split
    · intro c hc
      rw [List.mem_singleton.1 hc, digitIn_digitChar (by assumption)]
      rfl
    · intro c hc
      rcases List.mem_append.1 hc with hc | hc
      · exact ih (n / 16) (by omega) c hc
      · rw [List.mem_singleton.1 hc, digitIn_digitChar (by omega)]
        rfl

theorem isHex_showPadded (d n : ℕ) : IsHex (showPadded d n) := by
  intro c hc
  rw [showPadded, List.leftpad] at hc
  rcases List.mem_append.1 hc with hc | hc
  · rw [List.eq_of_mem_replicate hc]
    rfl
  · exact isHex_toDigits n c hc

theorem showPadded_ne_nil (d n : ℕ) : showPadded d n ≠ [] := by
  intro hnil
  have hstart := startsDigit_toDigits n []
  rw [showPadded, List.leftpad] at hnil
  rw [(List.append_eq_nil_iff.1 hnil).2] at hstart
  cases hstart

/-- Zeros in front do not count. -/
theorem accumulate_replicate (k : ℕ) (s : List Char) :
    accumulate 16 0 (List.replicate k '0' ++ s) = accumulate 16 0 s := by
  induction k with
  | zero => rfl
  | succ k ih => exact ih

theorem accumulate_showPadded (hr : startsDigit 16 r = false) :
    accumulate 16 0 (showPadded d n ++ r) = n := by
  rw [showPadded, List.leftpad, List.append_assoc, accumulate_replicate, accumulate_toDigits hr]

/-! ## Reading -/

theorem skipBase_of_ne {s : List Char} (h : ∀ c, s[1]? = some c → c ≠ 'x' ∧ c ≠ 'X') :
    skipBase s = s := by
  unfold skipBase
  split
  · exact absurd rfl (h 'x' rfl).1
  · exact absurd rfl (h 'X' rfl).2
  · rfl

/-- Digits up to a character that is none are read. -/
theorem extractHex_digits (hl : IsHex l) (hne : l ≠ []) (hr : Stops r)
    (hn : accumulate 16 0 (l ++ r) = n) (hw : n < 2 ^ w) :
    extractHex w (l ++ r) = some (BitVec.ofNat w n, r) := by
  obtain ⟨c, l, rfl⟩ := List.exists_cons_of_ne_nil hne
  have hc : (digitIn 16 c).isSome = true := hl c List.mem_cons_self
  have hspace : isSpace c = false := by
    by_contra hs
    simp only [isSpace, Bool.not_eq_false, Bool.or_eq_true, decide_eq_true_eq] at hs
    rcases hs with ((((rfl | rfl) | rfl) | rfl) | rfl) | rfl <;> exact absurd hc (by decide)
  have hsigned : signOf (c :: l ++ r) = (false, c :: l ++ r) := by
    rw [List.cons_append]
    unfold signOf
    split
    · next heq =>
      rw [(List.cons.inj heq).1] at hc
      exact absurd hc (by decide)
    · next heq =>
      rw [(List.cons.inj heq).1] at hc
      exact absurd hc (by decide)
    · rfl
  have hbase : skipBase (c :: l ++ r) = c :: l ++ r := by
    refine skipBase_of_ne fun c' hc' => ?_
    have hdigit : (digitIn 16 c').isSome = true ∨ digitVal c' = none := by
      cases l with
      | nil =>
        right
        cases r with
        | nil => cases hc'
        | cons c'' r =>
          obtain rfl : c'' = c' := Option.some.inj hc'
          simpa [Stops] using hr
      | cons c'' l =>
        obtain rfl : c'' = c' := Option.some.inj hc'
        exact .inl (hl _ (by simp))
    constructor <;> rintro rfl <;> revert hdigit <;> decide
  have hdrop : (c :: l ++ r).dropWhile (fun c => (digitIn 16 c).isSome) = r := by
    rw [List.dropWhile_append_of_pos hl]
    cases r with
    | nil => rfl
    | cons c'' r =>
      have hstop := hr.startsDigit 16
      rw [startsDigit, List.head?_cons, Option.any_some] at hstop
      rw [List.dropWhile_cons_of_neg (by rw [hstop]; exact Bool.false_ne_true)]
  have hstart : startsDigit 16 (c :: l ++ r) = true := hc
  have hlead : (c :: l ++ r).dropWhile isSpace = c :: l ++ r :=
    List.dropWhile_cons_of_neg (by rw [hspace]; exact Bool.false_ne_true)
  rw [extractHex]
  simp only [hlead, hsigned, hbase, hn, hdrop, hstart, hw, and_self, if_true, Bool.false_eq_true,
    if_false]

theorem extractHex_space {c : Char} (hc : isSpace c = true) (s : List Char) :
    extractHex w (c :: s) = extractHex w s := by
  rw [extractHex, extractHex, List.dropWhile_cons_of_pos hc]

theorem hexWords_space {c : Char} (hc : isSpace c = true) (k : ℕ) (s : List Char) :
    hexWords w k (c :: s) = hexWords w k s := by
  cases k with
  | zero => rfl
  | succ k => rw [hexWords, hexWords, extractHex_space hc]

theorem hexWords_nil (k : ℕ) : hexWords w k [] = [] := by
  cases k with
  | zero => rfl
  | succ k => rfl

theorem hexWords_lines (xs : List (BitVec w)) {k : ℕ} (hk : xs.length ≤ k) :
    hexWords w k (xs.flatMap (hexLine d)) = xs := by
  induction xs generalizing k with
  | nil => exact hexWords_nil k
  | cons x xs ih =>
    obtain ⟨k, rfl⟩ := Nat.exists_eq_add_of_le' (Nat.lt_of_lt_of_le xs.length.succ_pos hk)
    rw [List.length_cons] at hk
    have hread : extractHex w (showPadded d x.toNat ++ '\n' :: xs.flatMap (hexLine d)) =
        some (BitVec.ofNat w x.toNat, '\n' :: xs.flatMap (hexLine d)) :=
      extractHex_digits (isHex_showPadded d _) (showPadded_ne_nil d _)
        (show decide (digitVal '\n' = none) = true by decide) (accumulate_showPadded rfl) x.isLt
    rw [List.flatMap_cons, hexLine, List.append_assoc, List.singleton_append, hexWords, hread]
    dsimp only
    rw [BitVec.ofNat_toNat, BitVec.setWidth_eq, hexWords_space (by decide), ih (by omega)]

/-- Words in lines are read back. -/
theorem readHex_lines (d : ℕ) (xs : List (BitVec w)) : readHex w (xs.flatMap (hexLine d)) = xs := by
  refine hexWords_lines xs ?_
  induction xs with
  | nil => exact le_rfl
  | cons x xs ih =>
    have hline : 1 ≤ (hexLine d x).length := by simp [hexLine]
    rw [List.flatMap_cons, List.length_append, List.length_cons]
    omega

end FpgaEthernet.Numeric
