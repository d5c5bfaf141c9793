import FpgaEthernet.Clocked.Run
import FpgaEthernet.Controller.OdileController
import FpgaEthernet.Server.ConfigBlockList

/-!
# The EPCQ commands of the host

Model of `sendCommand`, `sendData` and `recieveData` (`server/src/ODILEServer.cpp`) as
far as the functions that read and write the EPCQ memory use them, and of what their
commands mean to the ODILE.

A host function is a program that extends the list of the datagrams sent. What it
receives is a function of this list. A wait for `DON` without a timeout sends nothing
and only ever returns `true` (`waitForDone_indefinitely`); it does not show.

Main results:

* `op_command`: how the ODILE understands a command of the host.
* `op_setAddress_eq_none`: an address of all ones is not sent.
* `run_storePage`, `accesses_pageDatagrams`: a page that is written and read back.
-/

namespace FpgaEthernet.OdileServer

open Clocked Command
open OdileController (command)
open Server (bswap32 bswap32_bswap32)

/-! ## Model -/

/-- `COMMAND_PORT` (`ODILEServer.hpp` line 9). -/
def commandPort : UdpPort := 0x3000

/-- `FIRMWARE_PORT` (line 10). -/
def firmwarePort : UdpPort := 0x4000

/-- `PAGE_SIZE_BYTES` (line 36). -/
def pageSizeBytes : ℕ := 256

/-- `PAGE_SIZE_WORDS` (line 37). -/
def pageSizeWords : ℕ := pageSizeBytes / 4

/-- `SECTOR_BYTES` (line 38). -/
def sectorBytes : ℕ := 65536

/-- A datagram that is sent, with its words as they stand in the memory of the host. -/
structure Datagram where
  port : UdpPort
  data : List Word
  deriving DecidableEq

/-- A function of the host: it may send datagrams after those sent so far. -/
abbrev Host := StateM (List Datagram)

/-- What is received from `FIRMWARE_PORT` next, after the datagrams sent so far. -/
abbrev Replies := List Datagram → List Word

/-- `sendData` (lines 209-212). -/
def sendData (data : List Word) (port : UdpPort) : Host Unit :=
  modify fun sent => sent ++ [⟨port, data⟩]

/-- `recieveData` (lines 356-380) without a timeout and without `swap_bytes`: the words
    that come are appended to `data`. An answer always comes: one without words, to an `ERD` of
    none, is taken to arrive, where the `recv` of the source would wait for it. -/
def recieveData (replies : Replies) (data : List Word) : Host (List Word) := do
  return data ++ replies (← get)

/-- `stringToInt` (lines 141-148). -/
def stringToInt (str : String) : Word :=
  (List.range str.length).foldl
    (fun data i =>
      data + (BitVec.ofNat 32 (str.toList.getD (str.length - 1 - i) ' ').toNat <<< (i * 8))) 0

/-- The default of `secondWord` (`ODILEServer.hpp` line 51). -/
def noWord : Word := 0xFFFFFFFF

/-- The words of a command (lines 125-134): the prefix is left out unless it is in
    `1 .. 255`, and the second word if it is all ones. -/
def commandWords (cmd : String) (pre : ℤ) (secondWord : Word) : List Word :=
  let word := stringToInt cmd
  let word := if pre > 0 ∧ pre ≤ 255 then word + (BitVec.ofInt 32 pre <<< 24) else word
  bswap32 word :: if secondWord ≠ noWord then [bswap32 secondWord] else []

/-- The datagram of a command. -/
def commandDatagram (cmd : String) (pre : ℤ) (secondWord : Word) : Datagram :=
  ⟨commandPort, commandWords cmd pre secondWord⟩

/-- `sendCommand` (lines 119-136). -/
def sendCommand (cmd : String) (pre : ℤ) (secondWord : Word) : Host Unit :=
  if cmd.length ≠ 3 then pure ()
  else modify fun sent => sent ++ [commandDatagram cmd pre secondWord]

/-- What `writeFirmware` (lines 460-469) and `writeEPCQ` (lines 600-610) do with a page:
    set the address, send the page, write it and read it back. -/
def storePage (replies : Replies) (currAddress : Word) (writePage : List Word) :
    Host (List Word) := do
  sendCommand "ESA" 0 currAddress
  sendData writePage firmwarePort
  sendCommand "EWR" pageSizeWords noWord
  sendCommand "ERD" pageSizeWords noWord
  recieveData replies []

/-! ## What the commands mean -/

/-- What a datagram asks the ODILE to do. -/
inductive Op
  | clearBuffers
  | setAddress (address : Word)
  | eraseSector
  | writeData (numwords : ℕ)
  | readData (numwords : ℕ)
  | data (words : List Word)
  deriving DecidableEq

/-- The number of words in the prefix of a command. -/
def numwords (w : Word) : ℕ := (w.extractLsb' 24 7).toNat

/-- The meaning of a datagram: that of the case statement of `odile_controller` on its
    first word, the second word being the operand of `ESA`. -/
def Datagram.op (d : Datagram) : Option Op :=
  if d.port = firmwarePort then some (.data d.data)
  else if d.port = commandPort then
    match d.data.map bswap32 with
    | [] => none
    | w :: rest =>
      if command w = cmdEpcqClear then some .clearBuffers
      else if command w = cmdEpcqSeta then rest.head?.map .setAddress
      else if command w = cmdEpcqEraseSec then some .eraseSector
      else if command w = cmdEpcqWrite then some (.writeData (numwords w))
      else if command w = cmdEpcqRead then some (.readData (numwords w))
      else none
  else none

/-- The address set last, and the words that wait to be written. -/
structure Device where
  address : Word
  buffer : List Word

/-- An access to the memory. -/
inductive Access
  | erase (address : Word)
  | write (address : Word) (words : List Word)
  | read (address : Word) (numwords : ℕ)
  deriving DecidableEq

def Device.step : Op → Device → Device
  | .clearBuffers, s => { s with buffer := [] }
  | .setAddress a, s => { s with address := a }
  | .eraseSector, s => s
  | .writeData n, s => { s with buffer := s.buffer.drop n }
  | .readData _, s => s
  | .data ws, s => { s with buffer := s.buffer ++ ws }

/-- The access that is made of a command. -/
def Device.access : Op → Device → List Access
  | .eraseSector, s => [.erase s.address]
  | .writeData n, s => [.write s.address (s.buffer.take n)]
  | .readData n, s => [.read s.address n]
  | _, _ => []

/-- The device after the datagrams `sent`. -/
def Device.after (s : Device) (sent : List Datagram) : Device :=
  run Device.step s (sent.filterMap Datagram.op)

/-- The accesses that the datagrams `sent` make. -/
def Device.accesses (s : Device) (sent : List Datagram) : List Access :=
  log Device.step Device.access s (sent.filterMap Datagram.op)

variable {s : Device} {sent sent' : List Datagram} {d : Datagram} {op : Op}

theorem Device.after_append : s.after (sent ++ sent') = (s.after sent).after sent' := by
  rw [after, List.filterMap_append, run_append]
  rfl

theorem Device.accesses_append :
    s.accesses (sent ++ sent') = s.accesses sent ++ (s.after sent).accesses sent' := by
  rw [accesses, List.filterMap_append, log_append]
  rfl

/-- The accesses of datagrams that come in parts, where nothing waits between the parts. -/
theorem Device.accesses_flatMap {α : Type} {l : List α} {f : α → List Datagram}
    {g : α → List Access} (h : ∀ p ∈ l, ∀ s : Device, s.buffer = [] →
      s.accesses (f p) = g p ∧ (s.after (f p)).buffer = [])
    (hs : s.buffer = []) : s.accesses (l.flatMap f) = l.flatMap g := by
  induction l generalizing s with
  | nil => rfl
  | cons p l ih =>
    obtain ⟨hp, hl⟩ := List.forall_mem_cons.1 h
    obtain ⟨hacc, hafter⟩ := hp s hs
    rw [List.flatMap_cons, Device.accesses_append, hacc, ih hl hafter, List.flatMap_cons]

/-! ## The commands -/

theorem op_clearBuffers : (commandDatagram "ERB" 0 noWord).op = some .clearBuffers := by decide

theorem op_eraseSector : (commandDatagram "ESE" 0 noWord).op = some .eraseSector := by decide

theorem op_writeData :
    (commandDatagram "EWR" pageSizeWords noWord).op = some (.writeData pageSizeWords) := by decide

theorem op_setAddress {a : Word} (ha : a ≠ noWord) :
    (commandDatagram "ESA" 0 a).op = some (.setAddress a) := by
  have hwords : (commandWords "ESA" 0 a).map bswap32 = [0x455341, a] := by
    rw [commandWords, if_pos ha, List.map_cons, List.map_singleton, bswap32_bswap32,
      bswap32_bswap32]
    rfl
  rw [commandDatagram, Datagram.op, if_neg (show commandPort ≠ firmwarePort by decide),
    if_pos rfl, hwords]
  rfl

/-- An address of all ones is not sent. -/
theorem op_setAddress_eq_none : (commandDatagram "ESA" 0 noWord).op = none := by decide

/-- The prefix is added above the command. -/
theorem toNat_prefixed {n : ℕ} (hn : n < 128) :
    ((0x455244 : Word) + (BitVec.ofInt 32 n <<< 24)).toNat = 0x455244 + n * 2 ^ 24 := by
  rw [BitVec.ofInt_natCast, BitVec.toNat_add, BitVec.toNat_shiftLeft, BitVec.toNat_ofNat,
    Nat.shiftLeft_eq]
  simp only [BitVec.ofNat_eq_ofNat, BitVec.toNat_ofNat, Nat.reducePow, Nat.reduceMod,
    Nat.mod_mul_mod, Nat.add_mod_mod]
  omega

/-- The prefix of `ERD` is the number of words. -/
theorem op_readData {n : ℕ} (hn : n < 128) :
    (commandDatagram "ERD" n noWord).op = some (.readData n) := by
  have hnat := toNat_prefixed hn
  have hwords : (commandWords "ERD" n noWord).map bswap32 =
      [0x455244 + (BitVec.ofInt 32 n <<< 24)] := by
    rw [commandWords, if_neg (not_not.2 rfl), List.map_singleton, bswap32_bswap32]
    split_ifs with h
    · rfl
    · obtain rfl : n = 0 := by omega
      rfl
  generalize (0x455244 : Word) + (BitVec.ofInt 32 n <<< 24) = w at hwords hnat
  have hcommand : command w = cmdEpcqRead := by
    rw [← BitVec.toNat_inj, command, BitVec.extractLsb'_toNat, hnat, Nat.shiftRight_zero]
    show (0x455244 + n * 2 ^ 24) % 2 ^ 24 = 0x455244
    omega
  have hnumwords : numwords w = n := by
    rw [numwords, BitVec.extractLsb'_toNat, hnat, Nat.shiftRight_eq_div_pow]
    omega
  rw [commandDatagram, Datagram.op, if_neg (show commandPort ≠ firmwarePort by decide),
    if_pos rfl, hwords]
  dsimp only
  rw [hcommand, hnumwords]
  rfl

/-! ## A page -/

/-- The address of the next page. -/
theorem address_succ (c : Word) (i : ℕ) :
    c + 256 + BitVec.ofNat 32 (pageSizeBytes * i) =
      c + BitVec.ofNat 32 (pageSizeBytes * (i + 1)) := by
  rw [BitVec.add_assoc, Nat.mul_succ, Nat.add_comm, BitVec.ofNat_add]
  rfl

/-- The datagrams of a page that is written. -/
def writeDatagrams (a : Word) (page : List Word) : List Datagram :=
  [commandDatagram "ESA" 0 a, ⟨firmwarePort, page⟩, commandDatagram "EWR" pageSizeWords noWord]

/-- The datagrams of a page that is written and read back. -/
def pageDatagrams (a : Word) (page : List Word) : List Datagram :=
  writeDatagrams a page ++ [commandDatagram "ERD" pageSizeWords noWord]

theorem run_storePage (replies : Replies) (a : Word) (page : List Word) :
    (storePage replies a page).run sent =
      (replies (sent ++ pageDatagrams a page), sent ++ pageDatagrams a page) := by
  have happend : sent ++ pageDatagrams a page =
      sent ++ [commandDatagram "ESA" 0 a] ++ [⟨firmwarePort, page⟩] ++
        [commandDatagram "EWR" pageSizeWords noWord] ++
        [commandDatagram "ERD" pageSizeWords noWord] := by
    simp [pageDatagrams, writeDatagrams]
  rw [happend]
  rfl

theorem op_writeDatagrams {a : Word} (ha : a ≠ noWord) (page : List Word) :
    (writeDatagrams a page).filterMap Datagram.op =
      [.setAddress a, .data page, .writeData pageSizeWords] := by
  have hdata : (⟨firmwarePort, page⟩ : Datagram).op = some (.data page) := rfl
  rw [writeDatagrams, List.filterMap_cons_some (op_setAddress ha),
    List.filterMap_cons_some hdata, List.filterMap_cons_some op_writeData, List.filterMap_nil]

/-- A page is written where the address is set, and nothing waits afterwards. -/
theorem accesses_writeDatagrams {a : Word} (ha : a ≠ noWord) {page : List Word}
    (hlen : page.length = pageSizeWords) (hs : s.buffer = []) :
    s.accesses (writeDatagrams a page) = [.write a page] ∧
      s.after (writeDatagrams a page) = ⟨a, []⟩ := by
  rw [Device.accesses, Device.after, op_writeDatagrams ha]
  simp [Device.step, Device.access, hs, ← hlen]

theorem op_readPage :
    (commandDatagram "ERD" pageSizeWords noWord).op = some (.readData pageSizeWords) :=
  op_readData (by decide)

theorem accesses_pageDatagrams {a : Word} (ha : a ≠ noWord) {page : List Word}
    (hlen : page.length = pageSizeWords) (hs : s.buffer = []) :
    s.accesses (pageDatagrams a page) = [.write a page, .read a pageSizeWords] ∧
      s.after (pageDatagrams a page) = ⟨a, []⟩ := by
  obtain ⟨hacc, hafter⟩ := accesses_writeDatagrams ha hlen hs
  rw [pageDatagrams, Device.accesses_append, Device.after_append, hacc, hafter]
  exact ⟨rfl, rfl⟩

end FpgaEthernet.OdileServer
