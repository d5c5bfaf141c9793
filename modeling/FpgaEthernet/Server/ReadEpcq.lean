import FpgaEthernet.Server.EpcqCommands

/-!
# Reading the memory into a file

Model of `readEPCQ` (`server/src/ODILEServer.cpp`): full pages are read and written to
the file in a loop, what is left after it. `outfile.write` counts bytes; in the loop it
is called with the bytes of a page, after the loop with the words that are left.

Main results:

* `run_readEPCQ`: what is in the file and what is returned.
* `readsAll_iff`: for which start addresses and numbers of words the file has the words
  that were asked for.
-/

namespace FpgaEthernet.OdileServer

open Clocked

/-! ## Model -/

/-- The bytes of a word in the memory of the host. -/
def wordBytes (w : Word) : List (BitVec 8) :=
  [w.extractLsb' 0 8, w.extractLsb' 8 8, w.extractLsb' 16 8, w.extractLsb' 24 8]

/-- `outfile.write((char *)&page[0], count)`. -/
def bytesWritten (page : List Word) (count : ℤ) : List (BitVec 8) :=
  (page.flatMap wordBytes).take count.toNat

/-- The variables of the loop, and the output file. -/
structure ReadState where
  currAddress : Word
  wordsLeft : ℤ
  wordsRead : ℤ
  outfile : List (BitVec 8)

/-- The page loop (lines 527-539), with the passes left as the first argument. -/
def readPages (replies : Replies) : ℕ → ReadState → Host ReadState
  | 0, v => pure v
  | k + 1, v => do
    sendCommand "ERD" pageSizeWords noWord
    let readPage ← recieveData replies []
    let currAddress := v.currAddress + 256
    sendCommand "ESA" 0 currAddress
    readPages replies k {
      currAddress := currAddress
      wordsLeft := v.wordsLeft - pageSizeWords
      wordsRead := v.wordsRead + pageSizeWords
      outfile := v.outfile ++ bytesWritten readPage pageSizeBytes }

/-- `readEPCQ` (lines 510-548): the output file and what is returned. -/
def readEPCQ (replies : Replies) (startAddress : Word) (wordsToRead : ℤ) :
    Host (List (BitVec 8) × ℤ) := do
  sendCommand "ERB" 0 noWord
  sendCommand "ESA" 0 startAddress
  let v ←
    readPages replies (wordsToRead.tdiv pageSizeWords).toNat ⟨startAddress, wordsToRead, 0, []⟩
  sendCommand "ERD" v.wordsLeft noWord
  let readPage ← recieveData replies []
  return (v.outfile ++ bytesWritten readPage v.wordsLeft, v.wordsRead + v.wordsLeft)

/-! ## Specification -/

variable {flash : Word → Word} {s : Device} {replies : Replies} {sent : List Datagram}
  {a c startAddress : Word} {k n : ℕ}

/-- `n` words from an address on. -/
def flashWords (flash : Word → Word) (a : Word) (n : ℕ) : List Word :=
  (List.range n).map fun k => flash (a + BitVec.ofNat 32 (4 * k))

/-- Every `ERD` is answered with the words from the address set last. -/
def Answers (flash : Word → Word) (s : Device) (replies : Replies) : Prop :=
  ∀ sent d n, Datagram.op d = some (.readData n) →
    replies (sent ++ [d]) = flashWords flash (s.after sent).address n

/-- Whatever is in the memory, the file has the `n` words from the start address on, and
    `n` is returned. -/
def ReadsAll (startAddress : Word) (n : ℕ) : Prop :=
  ∀ flash s replies, Answers flash s replies →
    ((readEPCQ replies startAddress n).run []).1 =
      ((flashWords flash startAddress n).flatMap wordBytes, (n : ℤ))

/-- The replies of a memory. -/
def repliesOf (flash : Word → Word) (s : Device) : Replies := fun sent =>
  match sent.getLast?.bind Datagram.op with
  | some (.readData n) => flashWords flash (s.after sent.dropLast).address n
  | _ => []

theorem answers_repliesOf (flash : Word → Word) (s : Device) :
    Answers flash s (repliesOf flash s) := by
  intro sent d n hd
  simp [repliesOf, hd]

@[simp] theorem length_flashWords (flash : Word → Word) (a : Word) (n : ℕ) :
    (flashWords flash a n).length = n := by
  simp [flashWords]

theorem flashWords_add (flash : Word → Word) (a : Word) (m n : ℕ) :
    flashWords flash a (m + n) =
      flashWords flash a m ++ flashWords flash (a + BitVec.ofNat 32 (4 * m)) n := by
  rw [flashWords, List.range_add, List.map_append, List.map_map]
  congr 1
  refine List.map_congr_left fun k _ => ?_
  rw [Function.comp_apply, Nat.mul_add, BitVec.ofNat_add, BitVec.add_assoc]

theorem getElem?_flashWords (h : k < n) :
    (flashWords flash a n)[k]? = some (flash (a + BitVec.ofNat 32 (4 * k))) := by
  rw [flashWords, List.getElem?_map, List.getElem?_range h]
  rfl

theorem length_flatMap_wordBytes (ws : List Word) :
    (ws.flatMap wordBytes).length = 4 * ws.length := by
  induction ws with
  | nil => rfl
  | cons w ws ih =>
    rw [List.flatMap_cons, List.length_append, ih, List.length_cons]
    show 4 + _ = _
    omega

/-- The first byte of word `k`. -/
theorem getElem?_flatMap_wordBytes (ws : List Word) (k : ℕ) :
    (ws.flatMap wordBytes)[4 * k]? = ws[k]?.map fun w => w.extractLsb' 0 8 := by
  induction ws generalizing k with
  | nil => rfl
  | cons w ws ih =>
    cases k with
    | zero => rfl
    | succ k =>
      rw [List.flatMap_cons, List.getElem?_append_right (by show 4 ≤ _; omega),
        List.getElem?_cons_succ, ← ih k]
      congr 1

/-! ## The addresses -/

/-- The address that is set after `ESA` with address `a`. -/
def lastSet (old a : Word) : Word := if a = noWord then old else a

theorem address_after_setAddress (s : Device) (a : Word) :
    (s.after [commandDatagram "ESA" 0 a]).address = lastSet s.address a := by
  unfold lastSet
  split_ifs with h
  · rw [h, Device.after, List.filterMap_cons_none op_setAddress_eq_none]
    rfl
  · rw [Device.after, List.filterMap_cons_some (op_setAddress h)]
    rfl

/-- The words of the pages that the loop reads, with the address that is set and the one
    that the host is at. -/
def pagesRead (flash : Word → Word) : ℕ → Word → Word → List Word
  | 0, _, _ => []
  | k + 1, a, c =>
    flashWords flash a pageSizeWords ++ pagesRead flash k (lastSet a (c + 256)) (c + 256)

theorem length_pagesRead (k : ℕ) (a c : Word) :
    (pagesRead flash k a c).length = pageSizeWords * k := by
  induction k generalizing a c with
  | zero => rfl
  | succ k ih =>
    rw [pagesRead, List.length_append, length_flashWords, ih, Nat.mul_succ, Nat.add_comm]

/-- Where every address is sent the pages lie side by side. -/
theorem pagesRead_eq (h : ∀ i < k, c + BitVec.ofNat 32 (pageSizeBytes * i) ≠ noWord) (a : Word) :
    pagesRead flash k (lastSet a c) c = flashWords flash c (pageSizeWords * k) := by
  induction k generalizing a c with
  | zero => rfl
  | succ k ih =>
    have hc : lastSet a c = c := if_neg (by simpa using h 0 k.succ_pos)
    have hnext : ∀ i < k, c + 256 + BitVec.ofNat 32 (pageSizeBytes * i) ≠ noWord := by
      intro i hi
      rw [address_succ]
      exact h (i + 1) (Nat.succ_lt_succ hi)
    rw [pagesRead, hc, ih hnext, Nat.mul_succ, Nat.add_comm, flashWords_add]
    rfl

/-- An address that is not sent is not read. -/
theorem getElem?_pagesRead (flash : Word → Word) (c : Word) (ha : a ≠ noWord) {i : ℕ} (hi : i < k) :
    ∃ b, b ≠ noWord ∧ (pagesRead flash k a c)[pageSizeWords * i]? = some (flash b) := by
  induction k generalizing a c i with
  | zero => exact absurd hi i.not_lt_zero
  | succ k ih =>
    cases i with
    | zero =>
      refine ⟨a, ha, ?_⟩
      rw [pagesRead, List.getElem?_append_left (by rw [length_flashWords]; decide),
        Nat.mul_zero, getElem?_flashWords (by decide)]
      simp
    | succ i =>
      have hset : lastSet a (c + 256) ≠ noWord := by
        unfold lastSet
        split_ifs with h
        · exact ha
        · exact h
      obtain ⟨b, hb, hget⟩ := ih (c := c + 256) hset (Nat.lt_of_succ_lt_succ hi)
      refine ⟨b, hb, ?_⟩
      rw [pagesRead, List.getElem?_append_right (by rw [length_flashWords, Nat.mul_succ]; omega),
        length_flashWords, Nat.mul_succ, Nat.add_sub_cancel, hget]

/-! ## The file -/

/-- A page is written whole. -/
theorem bytesWritten_page {page : List Word} (h : page.length = pageSizeWords) :
    bytesWritten page pageSizeBytes = page.flatMap wordBytes := by
  refine List.take_of_length_le ?_
  rw [length_flatMap_wordBytes, h]
  decide

/-- The page loop. -/
theorem run_readPages (h : Answers flash s replies) (v : ReadState) :
    ((readPages replies k v).run sent).1 = {
      currAddress := v.currAddress + BitVec.ofNat 32 (pageSizeBytes * k)
      wordsLeft := v.wordsLeft - pageSizeWords * k
      wordsRead := v.wordsRead + pageSizeWords * k
      outfile := v.outfile ++
        (pagesRead flash k (s.after sent).address v.currAddress).flatMap wordBytes } := by
  induction k generalizing v sent with
  | zero =>
    simp only [readPages, StateT.run_pure, pagesRead, List.flatMap_nil, List.append_nil, mul_zero,
      BitVec.add_zero, Nat.cast_zero, sub_zero, add_zero]
    rfl
  | succ k ih =>
    have hread : replies (sent ++ [commandDatagram "ERD" pageSizeWords noWord]) =
        flashWords flash (s.after sent).address pageSizeWords :=
      h sent _ _ (op_readData (by decide))
    have hstep : (readPages replies (k + 1) v).run sent =
        (readPages replies k {
          currAddress := v.currAddress + 256
          wordsLeft := v.wordsLeft - pageSizeWords
          wordsRead := v.wordsRead + pageSizeWords
          outfile := v.outfile ++
            bytesWritten (replies (sent ++ [commandDatagram "ERD" pageSizeWords noWord]))
              pageSizeBytes }).run
          (sent ++ [commandDatagram "ERD" pageSizeWords noWord] ++
            [commandDatagram "ESA" 0 (v.currAddress + 256)]) := rfl
    have haddress : (s.after (sent ++ [commandDatagram "ERD" pageSizeWords noWord] ++
        [commandDatagram "ESA" 0 (v.currAddress + 256)])).address =
          lastSet (s.after sent).address (v.currAddress + 256) := by
      rw [Device.after_append, address_after_setAddress, Device.after_append]
      rfl
    rw [hstep, ih, haddress, hread, bytesWritten_page (length_flashWords _ _ _), pagesRead,
      List.flatMap_append, List.append_assoc, address_succ]
    simp only [ReadState.mk.injEq, true_and, and_true]
    constructor <;> push_cast <;> ring

/-- What is in the file and what is returned: the pages of the loop, and of the words
    that are left as many bytes as there are words. -/
theorem run_readEPCQ (h : Answers flash s replies) (startAddress : Word) (n : ℕ) :
    ∃ b, ((readEPCQ replies startAddress n).run []).1 =
      ((pagesRead flash (n / pageSizeWords) (lastSet s.address startAddress)
          startAddress).flatMap wordBytes ++
        bytesWritten (flashWords flash b (n % pageSizeWords)) (n % pageSizeWords : ℕ),
        (n : ℤ)) := by
  let begun := [commandDatagram "ERB" 0 noWord, commandDatagram "ESA" 0 startAddress]
  let loop := (readPages replies (n / pageSizeWords) ⟨startAddress, n, 0, []⟩).run begun
  have hrun : (readEPCQ replies startAddress n).run [] =
      ((loop.1.outfile ++
          bytesWritten (replies (loop.2 ++ [commandDatagram "ERD" loop.1.wordsLeft noWord]))
            loop.1.wordsLeft, loop.1.wordsRead + loop.1.wordsLeft),
        loop.2 ++ [commandDatagram "ERD" loop.1.wordsLeft noWord]) := rfl
  have haddress : (s.after begun).address = lastSet s.address startAddress :=
    address_after_setAddress _ startAddress
  have hloop : loop.1 = _ := run_readPages h ⟨startAddress, n, 0, []⟩
  have hdivmod : (pageSizeWords * (n / pageSizeWords) + n % pageSizeWords : ℤ) = n := by
    exact_mod_cast Nat.div_add_mod n pageSizeWords
  have hleft : loop.1.wordsLeft = (n % pageSizeWords : ℕ) := by
    rw [hloop]
    push_cast
    linarith only [hdivmod]
  have hlt : n % pageSizeWords < 128 := (Nat.mod_lt n (by decide)).trans (by decide)
  refine ⟨(s.after loop.2).address, ?_⟩
  rw [hrun, hleft, h loop.2 _ _ (op_readData hlt), hloop, haddress, List.nil_append]
  simp only [Prod.mk.injEq, true_and]
  push_cast
  linarith only [hdivmod]

/-- The words that were asked for are read iff they fill pages, and the address of no page
    is all ones. -/
theorem readsAll_iff (startAddress : Word) (n : ℕ) :
    ReadsAll startAddress n ↔ n % pageSizeWords = 0 ∧
      ∀ i < n / pageSizeWords, startAddress + BitVec.ofNat 32 (pageSizeBytes * i) ≠ noWord := by
  constructor
  · intro h
    -- a memory that tells the address of all ones from the others
    let flash : Word → Word := fun a => if a = noWord then 1 else 0
    have hreads := h flash ⟨0, []⟩ _ (answers_repliesOf flash ⟨0, []⟩)
    obtain ⟨b, hfile⟩ := run_readEPCQ (answers_repliesOf flash ⟨0, []⟩) startAddress n
    rw [hfile] at hreads
    have hbytes := congrArg Prod.fst hreads
    dsimp only at hbytes
    have hlength := congrArg List.length hbytes
    constructor
    · rw [List.length_append, length_flatMap_wordBytes, length_flatMap_wordBytes, length_pagesRead,
        length_flashWords, bytesWritten, List.length_take, length_flatMap_wordBytes,
        length_flashWords, Int.toNat_natCast] at hlength
      have := Nat.div_add_mod n pageSizeWords
      omega
    · intro i hi haddr
      have hset : lastSet 0 startAddress ≠ noWord := by
        unfold lastSet
        split_ifs with hs
        · decide
        · exact hs
      obtain ⟨a, ha, hpage⟩ := getElem?_pagesRead flash startAddress hset hi
      have hlt : pageSizeWords * i < n :=
        (Nat.mul_lt_mul_of_pos_left hi (by decide)).trans_le (Nat.mul_div_le n pageSizeWords)
      have hbyte := congrArg (·[4 * (pageSizeWords * i)]?) hbytes
      rw [List.getElem?_append_left, getElem?_flatMap_wordBytes, hpage, getElem?_flatMap_wordBytes,
        getElem?_flashWords hlt, show 4 * (pageSizeWords * i) = pageSizeBytes * i by
          rw [← Nat.mul_assoc]; rfl, haddr] at hbyte
      · simp [flash, ha] at hbyte
      · rw [length_flatMap_wordBytes, length_pagesRead]
        exact Nat.mul_lt_mul_of_pos_left (Nat.mul_lt_mul_of_pos_left hi (by decide)) (by decide)
  · rintro ⟨hmod, haddr⟩ flash s replies hans
    obtain ⟨b, hfile⟩ := run_readEPCQ hans startAddress n
    have hn : pageSizeWords * (n / pageSizeWords) = n :=
      Nat.mul_div_cancel' (Nat.dvd_of_mod_eq_zero hmod)
    rw [hfile, hmod, pagesRead_eq haddr, hn]
    simp [bytesWritten]

/-- Of a single word, the default of `words_to_read`, one byte is written. -/
theorem one_word_short :
    ((readEPCQ (repliesOf (fun _ => 0x12345678) ⟨0, []⟩) 0 1).run []).1 = ([0x78], 1) ∧
      ¬ReadsAll 0 1 := by
  have hfile : ((readEPCQ (repliesOf (fun _ => 0x12345678) ⟨0, []⟩) 0 1).run []).1 =
      ([0x78], 1) := by decide +kernel
  refine ⟨hfile, fun h => ?_⟩
  have hreads := h _ _ _ (answers_repliesOf (fun _ => 0x12345678) ⟨0, []⟩)
  rw [Nat.cast_one, hfile] at hreads
  revert hreads
  decide

end FpgaEthernet.OdileServer
