import FpgaEthernet.Ethernet.IcmpBlock
import FpgaEthernet.Ethernet.HeaderChecksum

/-!
# The ICMP checksum

`checksum_computer` of `ethernet/icmp_block.vhd`: the checksum of an echo reply is right if
the ones'-complement sum of its half words is `0xFFFF`. The
accumulator of 18 bits adds its carries one word late, and the last addition is
16 bits wide; the comment in the source knows of the carry that may be lost.

Main results:

* `requestSum_mod`: the accumulator is the integer sum of the half words modulo
  `65535`.
* `accumulator_run`: in every run it keeps within its bound, and is the sum of the half
  words that have arrived since it was cleared.
* `payload_onesSum_iff`: the checksum of a reply is right iff its last addition does not
  carry.
* `reply_onesSum_iff`: the same for the words received in a run.
-/

namespace FpgaEthernet.IcmpBlock

open Clocked OnesComplement
open HeaderGenerator (halves)

/-! ## The accumulator -/

theorem addWord_toNat (sum : BitVec 18) (w : Word) :
    (addWord sum w).toNat =
      sum.toNat % 65536 + sum.toNat / 65536 + (hi w).toNat + (lo w).toNat := by
  have hsum := sum.isLt
  have hhi := (hi w).isLt
  have hlo := (lo w).isLt
  have hc : sum.toNat / 65536 % 4 = sum.toNat / 65536 := by omega
  simp only [addWord, BitVec.toNat_add, BitVec.toNat_setWidth, BitVec.extractLsb'_toNat,
    Nat.shiftRight_eq_div_pow, Nat.pow_zero, Nat.div_one, Nat.reducePow, hc]
  omega

theorem requestSum_concat (ws : List Word) (w : Word) :
    (requestSum (ws ++ [w])).toNat = (requestSum ws).toNat % 65536 +
      (requestSum ws).toNat / 65536 + (hi w).toNat + (lo w).toNat := by
  rw [requestSum, List.foldl_append]
  exact addWord_toNat _ w

/-- What `checksum_computer` accumulates is the integer sum of the half words
    modulo `65535`, and zero only for a sum of zero. -/
theorem requestSum_mod (ws : List Word) :
    (requestSum ws).toNat % 65535 = natSum (ws.flatMap halves) % 65535 ∧
      (natSum (ws.flatMap halves) = 0 → (requestSum ws).toNat = 0) := by
  induction ws using List.reverseRecOn with
  | nil => exact ⟨rfl, fun _ => rfl⟩
  | append_singleton ws w ih =>
    obtain ⟨hmod, hzero⟩ := ih
    have hsum := requestSum_concat ws w
    have hnat : natSum ((ws ++ [w]).flatMap halves) =
        natSum (ws.flatMap halves) + ((hi w).toNat + (lo w).toNat) := by
      rw [List.flatMap_append, natSum_append]
      simp [halves]
    rw [hsum, hnat]
    constructor
    · omega
    · intro h
      have := hzero (by omega)
      omega

/-- The sum with its carries added to the low half word. -/
def lastSum (ws : List Word) : ℕ :=
  (requestSum ws).toNat % 65536 + (requestSum ws).toNat / 65536

theorem checksumOf_toNat (ws : List Word) :
    (checksumOf (requestSum ws)).toNat = 65535 - lastSum ws % 65536 := by
  have hsum := (requestSum ws).isLt
  have hc : (requestSum ws).toNat / 65536 % 4 = (requestSum ws).toNat / 65536 := by omega
  simp only [checksumOf, lastSum, BitVec.toNat_not, BitVec.toNat_add, BitVec.toNat_setWidth,
    BitVec.extractLsb'_toNat, Nat.shiftRight_eq_div_pow, Nat.pow_zero, Nat.div_one, Nat.reducePow,
    hc]
  omega

/-- The checksum of a reply is right iff adding the carries to the low half word of the
    accumulator does not carry again. -/
theorem payload_onesSum_iff (r : Request) :
    onesSum (r.payload.flatMap halves) = 0xFFFF ↔ lastSum r.words < 65536 := by
  have hsum : natSum (r.payload.flatMap halves) =
      65535 - lastSum r.words % 65536 + natSum (r.words.flatMap halves) := by
    rw [Request.payload, List.flatMap_cons, natSum_append, halves, hi_append, lo_append,
      natSum_cons, natSum_cons, natSum_nil, checksumOf_toNat]
    simp [icmpEchoReply]
  obtain ⟨hmod, hzero⟩ := requestSum_mod r.words
  have hlt := (requestSum r.words).isLt
  have hlast : lastSum r.words % 65535 = natSum (r.words.flatMap halves) % 65535 := by
    rw [← hmod, lastSum]
    omega
  have hle : lastSum r.words ≤ 65538 := by
    rw [lastSum]
    omega
  have hpos : natSum (r.words.flatMap halves) = 0 → lastSum r.words = 0 := fun hn => by
    rw [lastSum, hzero hn]
  rw [onesSum_eq_ffff_iff, hsum, Nat.dvd_iff_mod_eq_zero]
  generalize lastSum r.words = t at hlast hle hpos
  generalize natSum (r.words.flatMap halves) = n at hlast hpos
  rcases Nat.lt_or_ge t 65536 with h | h
  · rw [Nat.mod_eq_of_lt h]
    refine iff_of_true ⟨?_, by omega⟩ h
    rcases Nat.eq_zero_or_pos n with hn | hn
    · have := hpos hn
      omega
    · omega
  · -- the lost carry leaves the sum one above a multiple of 65535
    refine iff_of_false (fun hc => ?_) (by omega)
    have hmod' : t % 65536 = t - 65536 := by omega
    have hdvd := hc.2
    rw [hmod'] at hdvd
    omega

/-- In every run in which requests do not overlap, the checksum of a reply is right iff the
    last addition for its request does not carry. -/
theorem replies_onesSum (is : List Input) (hlen : Short (log step arriving reset is))
    (hdel : Along step Delivered reset is) (hap : Along step Apart reset is) :
    ∀ r ∈ replies (log step output reset is),
      onesSum (r.payload.flatMap halves) = 0xFFFF ↔ lastSum r.payload.tail < 65536 := by
  intro r hr
  obtain ⟨f, -, rfl⟩ := List.mem_map.1 ((replies_in_order hlen hdel hap).subset hr)
  exact payload_onesSum_iff (requestOf f)

/-! ## The words of a request -/

/-- The echo words that arrive in a run. -/
def echoWords (is : List Input) (s : State) : List Word := (log step arriving s is).map Echo.data

/-- An edge does not close a request. -/
def NotLast (i : Input) : Prop := ¬(i.frEop = true ∧ i.icmpPing = true)

instance : DecidablePred NotLast := fun i =>
  inferInstanceAs (Decidable ¬(i.frEop = true ∧ i.icmpPing = true))

/-- A request in progress: what has been accumulated. -/
structure Accumulating (ws : List Word) (s : State) : Prop where
  notClosing : ¬Closing s
  sum : s.sum = requestSum ws

variable {ws : List Word} {i : Input} {s : State}

theorem sum_step (h : Accumulating ws s) :
    (step i s).sum = requestSum (ws ++ (arriving i s).map Echo.data) := by
  by_cases hv : i.frDval = true ∧ i.icmpPing = true
  · simp [step, checksumComputer, h.notClosing, h.sum, hv, arriving, requestSum]
  · simp [step, checksumComputer, h.notClosing, h.sum, hv, arriving]

theorem Accumulating.step (h : Accumulating ws s) (hi : NotLast i) :
    Accumulating (ws ++ (arriving i s).map Echo.data) (IcmpBlock.step i s) :=
  ⟨hi, sum_step h⟩

theorem accumulating_run {is : List Input} (h : Accumulating [] s) (hi : ∀ i ∈ is, NotLast i) :
    Accumulating (echoWords is s) (run step s is) := by
  induction is using List.reverseRecOn with
  | nil => exact h
  | append_singleton is i ih =>
    rw [echoWords, log_concat, List.map_append, run_concat]
    exact (ih fun j hj => hi j (List.mem_append_left [i] hj)).step
      (hi i (List.mem_append_right is (List.mem_singleton_self i)))

/-! ## The accumulator in a run -/

/-- An edge beside the words that have arrived since the accumulator was cleared. The edge
    that clears it takes no word. -/
def collect (i : Input) (p : State × List Word) : State × List Word :=
  (step i p.1, if Closing p.1 then [] else p.2 ++ (arriving i p.1).map Echo.data)

/-- The words that have arrived in a run since the accumulator was cleared. -/
def sinceCleared (is : List Input) : List Word := (run collect (reset, []) is).2

theorem collect_run (is : List Input) :
    (run collect (reset, []) is).1 = run step reset is ∧
      (run step reset is).sum = requestSum (sinceCleared is) := by
  induction is using List.reverseRecOn with
  | nil => exact ⟨rfl, rfl⟩
  | append_singleton is i ih =>
    obtain ⟨hstate, hsum⟩ := ih
    rw [sinceCleared, run_concat, run_concat, collect, hstate, ← sinceCleared]
    refine ⟨rfl, ?_⟩
    by_cases hclosing : Closing (run step reset is)
    · simp [step, checksumComputer, hclosing, requestSum]
    · simp only [hclosing, if_false]
      exact sum_step ⟨hclosing, hsum⟩

theorem requestSum_le (ws : List Word) : (requestSum ws).toNat ≤ 3 * 65535 + 3 := by
  induction ws using List.reverseRecOn with
  | nil => exact Nat.zero_le _
  | append_singleton ws w _ =>
    have hsum := (requestSum ws).isLt
    have hhi := (hi w).isLt
    have hlo := (lo w).isLt
    have hadd := requestSum_concat ws w
    omega

/-- In every run the accumulator stays within `3 * 65535 + 3`, so that the addition of a
    word is exact, and is the sum of the half words that have arrived since it was cleared
    modulo `65535`. -/
theorem accumulator_run (is : List Input) :
    (run step reset is).sum.toNat ≤ 3 * 65535 + 3 ∧
      (∀ w, (addWord (run step reset is).sum w).toNat =
        (run step reset is).sum.toNat % 65536 + (run step reset is).sum.toNat / 65536 +
          (hi w).toNat + (lo w).toNat) ∧
      (run step reset is).sum.toNat % 65535 =
        natSum ((sinceCleared is).flatMap halves) % 65535 := by
  refine ⟨?_, addWord_toNat _, ?_⟩
  · rw [(collect_run is).2]
    exact requestSum_le _
  · rw [(collect_run is).2]
    exact (requestSum_mod _).1

/-! ## The reply -/

/-- The words of the reply: the type and checksum word that `icmp_payload` hands
    out first, and the words received. -/
def replyWords (ws : List Word) (s : State) : List Word :=
  (icmpEchoReply ++ s.checksum : BitVec 32) :: ws

/-- From an accumulator at zero, a request of any words closed at the edge `i`:
    after the next edge the checksum in the words of its reply is right iff adding the
    carries of the accumulator to its low half word does not carry again. -/
theorem reply_onesSum_iff (s : State) (is : List Input) (i j : Input) (hopen : ¬Closing s)
    (hsum : s.sum = 0) (his : ∀ k ∈ is, NotLast k) (hlast : i.frEop = true ∧ i.icmpPing = true) :
    onesSum ((replyWords (echoWords (is ++ [i]) s) (run step s (is ++ [i, j]))).flatMap halves) =
        0xFFFF ↔
      lastSum (echoWords (is ++ [i]) s) < 65536 := by
  have hacc := accumulating_run ⟨hopen, hsum⟩ his
  have hwords : echoWords (is ++ [i]) s =
      echoWords is s ++ (arriving i (run step s is)).map Echo.data := by
    rw [echoWords, log_concat, List.map_append]
    rfl
  have hchecksum : (run step s (is ++ [i, j])).checksum =
      checksumOf (requestSum (echoWords (is ++ [i]) s)) := by
    have hclosing : Closing (step i (run step s is)) := hlast
    have hnext : (checksumComputer j (step i (run step s is))).checksum =
        checksumOf (step i (run step s is)).sum := by
      rw [checksumComputer, if_pos hclosing]
    rw [run_append, hwords, ← sum_step hacc]
    exact hnext
  rw [replyWords, hchecksum]
  exact payload_onesSum_iff ⟨echoWords (is ++ [i]) s, 0, 0⟩

/-- An edge with a word of a request. -/
def requestWord (w : Word) (last : Bool) : Input :=
  { quietEdge true with frDataOut := w, frDval := true, frEop := last, icmpPing := true }

/-- The words of a request but its last: an identifier, a sequence number and data. -/
def pingWords : List Input :=
  [requestWord 0x58F10001 false, requestWord 0x10203040 false, requestWord 0xFFFE8001 false]

theorem reply_onesSum_iff_fourWords :
    onesSum ((replyWords (echoWords (pingWords ++ [requestWord 0x61626364 true]) reset)
        (run step reset (pingWords ++ [requestWord 0x61626364 true, quietEdge true]))).flatMap
          halves) = 0xFFFF ↔
      lastSum (echoWords (pingWords ++ [requestWord 0x61626364 true]) reset) < 65536 :=
  reply_onesSum_iff reset pingWords (requestWord 0x61626364 true) (quietEdge true) (by decide) rfl
    (by decide) (by decide)

/-- Two words, the second of which brings the accumulator to `0x1FFFF`. -/
def carryRequest : List Input := [requestWord 0x00010000 false, requestWord 0xFFFFFFFF true]

/-- The last carry is lost and the checksum is wrong by one. -/
theorem reply_lost_carry :
    ¬Closing reset ∧ reset.sum = 0 ∧ (∀ k ∈ carryRequest.take 1, NotLast k) ∧
      echoWords carryRequest reset = [0x00010000, 0xFFFFFFFF] ∧
      onesSum ((replyWords (echoWords carryRequest reset)
        (run step reset (carryRequest ++ [quietEdge true]))).flatMap halves) = 1 := by
  decide +kernel

end FpgaEthernet.IcmpBlock
