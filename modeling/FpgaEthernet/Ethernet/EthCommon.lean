import Mathlib.Tactic

/-!
# Common Ethernet definitions

The subtypes and constants of the package `eth_common`
(`ethernet/eth_common.vhd`) that the modelled blocks use.

A `std_logic` is a `Bool`, a `std_logic_vector` a `BitVec`. A signal without an
initial value is taken to be low at power-up.
-/

namespace FpgaEthernet

/-- `subtype word` (`eth_common.vhd` line 32). -/
abbrev Word := BitVec 32

/-- `subtype mac_addr` (`eth_common.vhd` line 39). -/
abbrev MacAddr := BitVec 48

/-- `subtype ip_addr` (`eth_common.vhd` line 41). -/
abbrev IpAddr := BitVec 32

/-- `subtype udp_port` (`eth_common.vhd` line 43). -/
abbrev UdpPort := BitVec 16

/-- A word on a stream interface, with its start-of-packet and end-of-packet
    marks. -/
structure Beat where
  data : Word
  sop : Bool
  eop : Bool
  deriving DecidableEq

/-- Bits 31 downto 16 of a word. -/
def hi (w : Word) : BitVec 16 := w.extractLsb' 16 16

/-- Bits 15 downto 0 of a word. -/
def lo (w : Word) : BitVec 16 := w.extractLsb' 0 16

@[simp] theorem hi_append (a b : BitVec 16) : hi (a ++ b) = a :=
  BitVec.extractLsb'_append_eq_left

@[simp] theorem lo_append (a b : BitVec 16) : lo (a ++ b) = b :=
  BitVec.extractLsb'_append_eq_right

end FpgaEthernet
