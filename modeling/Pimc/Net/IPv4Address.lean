import Mathlib.Data.List.Sort
import Mathlib.Data.Nat.Notation
import Pimc.Lib.ByteOrder

/-!
# IPv4 addresses (lib/pimc/net/IPv4Address.hpp)
-/

namespace Pimc

/-- `class IPv4Address`: a 32-bit unsigned value. -/
@[ext]
structure IPv4Address where
  addr : BitVec 32
  deriving DecidableEq, Repr

namespace IPv4Address

/-- The default constructor: 0.0.0.0. -/
instance : Inhabited IPv4Address := ⟨⟨0⟩⟩

/-- The constructor from four octets, most significant first. -/
def ofOctets (o1 o2 o3 o4 : BitVec 8) : IPv4Address :=
  ⟨(o1.setWidth 32 <<< 24) + (o2.setWidth 32 <<< 16) + (o3.setWidth 32 <<< 8) + o4.setWidth 32⟩

def value (a : IPv4Address) : BitVec 32 := a.addr

/-- The factory method from the value in network byte order. -/
def from_nl (netlong : BitVec 32) : IPv4Address := ⟨Lib.ntohl netlong⟩

/-- The value in network byte order. -/
def to_nl (a : IPv4Address) : BitVec 32 := Lib.htonl a.addr

def oct1 (a : IPv4Address) : BitVec 8 := (a.addr >>> 24).setWidth 8

def oct2 (a : IPv4Address) : BitVec 8 := ((a.addr >>> 16) &&& 0xFF#32).setWidth 8

def oct3 (a : IPv4Address) : BitVec 8 := ((a.addr >>> 8) &&& 0xFF#32).setWidth 8

def oct4 (a : IPv4Address) : BitVec 8 := (a.addr &&& 0xFF#32).setWidth 8

def isMcast (a : IPv4Address) : Bool := a.addr >>> 28 == 14#32

def isLocalBroadcast (a : IPv4Address) : Bool := a.addr == 0xFFFFFFFF#32

def isDefault (a : IPv4Address) : Bool := a.addr == 0#32

def isLoopback (a : IPv4Address) : Bool := a.addr >>> 24 == 127#32

/-- The comparison operators compare the values. -/
instance : LinearOrder IPv4Address where
  le a b := a.addr.toNat ≤ b.addr.toNat
  lt a b := a.addr.toNat < b.addr.toNat
  le_refl _ := le_rfl
  le_trans _ _ _ := le_trans
  lt_iff_le_not_ge _ _ := lt_iff_le_not_ge
  le_antisymm _ _ h h' := IPv4Address.ext (BitVec.eq_of_toNat_eq (le_antisymm h h'))
  le_total a b := le_total a.addr.toNat b.addr.toNat
  toDecidableLE a b := inferInstanceAs (Decidable (a.addr.toNat ≤ b.addr.toNat))
  toDecidableLT a b := inferInstanceAs (Decidable (a.addr.toNat < b.addr.toNat))
  toDecidableEq := inferInstance

/-- `formatter<IPv4Address>`: the dotted decimal notation. -/
instance : ToString IPv4Address where
  toString a := s!"{a.oct1.toNat}.{a.oct2.toNat}.{a.oct3.toNat}.{a.oct4.toNat}"

example : toString (ofOctets 239 1 2 3) = "239.1.2.3" := by decide

end IPv4Address

end Pimc
