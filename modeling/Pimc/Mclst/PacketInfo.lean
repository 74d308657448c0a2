import Pimc.Net.IPv4Address
import Pimc.Packets.HdrViews

/-!
# The state of a receiver (apps/mclst/PacketInfo.hpp, MclstBeacon.hpp)

The array `receivedData` is the memory of `ReadM`, cut to the bytes received,
and a pointer into it is an offset. What the output handler shows is a list.
-/

namespace Pimc.Mclst

open Lib

def BufferSize : ℕ := 67584

structure PacketInfo where
  timestamp : BitVec 64
  source : IPv4Address
  sport : BitVec 16
  group : IPv4Address
  dport : BitVec 16
  ifIndex : BitVec 32
  ttl : ℤ
  receivedSize : BitVec 32
  payload : ℕ
  payloadSize : BitVec 32
  mclstBeacon : Bool
  remoteSeq : BitVec 64
  remoteTimestamp : BitVec 64
  remoteMsgLen : SizeT
  remoteMsg : ℕ
  deriving DecidableEq, Repr

namespace PacketInfo

def reset (pktInfo : PacketInfo) : PacketInfo :=
  { pktInfo with timestamp := 0, ifIndex := 0, ttl := -1, mclstBeacon := false }

-- The arguments `source`, `sport`, `group` and `dport` of the warnings.
def flow (pktInfo : PacketInfo) : String :=
  s!"{pktInfo.source}:{pktInfo.sport.toNat}->{pktInfo.group}:{pktInfo.dport.toNat}"

end PacketInfo

/-- The calls of the output handler. -/
inductive Shown where
  | warningTs (ts : BitVec 64) (text : String)
  | timeout (ts : BitVec 64)
  | receivedPacket (pktInfo : PacketInfo)
  deriving DecidableEq, Repr

structure Receiving where
  pktInfo : PacketInfo
  oh : List Shown
  deriving DecidableEq, Repr

namespace Receiving

/-- A receiver whose `pktInfo_` is zeroed memory. -/
def start : Receiving where
  pktInfo :=
    { timestamp := 0, source := default, sport := 0, group := default, dport := 0, ifIndex := 0,
      ttl := 0, receivedSize := 0, payload := 0, payloadSize := 0, mclstBeacon := false,
      remoteSeq := 0, remoteTimestamp := 0, remoteMsgLen := 0, remoteMsg := 0 }
  oh := []

def modify (f : PacketInfo → PacketInfo) (rcv : Receiving) : Receiving :=
  { rcv with pktInfo := f rcv.pktInfo }

def warningTs (rcv : Receiving) (text : String) : Receiving :=
  { rcv with oh := rcv.oh ++ [.warningTs rcv.pktInfo.timestamp text] }

@[simp] theorem modify_pktInfo (f : PacketInfo → PacketInfo) (rcv : Receiving) :
    (rcv.modify f).pktInfo = f rcv.pktInfo := rfl

end Receiving

/-! ### The beacon header -/

def MclstMagic : BitVec 64 := 11899030981529723792

namespace MclstBeaconHdr

-- `sizeof(MclstBeaconHdr)`, which is packed.
def size : SizeT := 26

def magic (hdr : ℕ) : ReadM (BitVec 64) := u64At hdr

def seq (hdr : ℕ) : ReadM (BitVec 64) := u64At (hdr + 8)

def timeNs (hdr : ℕ) : ReadM (BitVec 64) := u64At (hdr + 16)

def dataLen (hdr : ℕ) : ReadM (BitVec 16) := u16At (hdr + 24)

end MclstBeaconHdr

inductive PacketStatus where
  | Filtered
  | AcceptedNoShow
  | AcceptedShow
  deriving DecidableEq, Repr

namespace PacketStatus

-- The test of the bit `Accepted`.
def accepted : PacketStatus → Bool
  | Filtered => false
  | AcceptedNoShow => true
  | AcceptedShow => true

-- The test of the bit `Show`.
def shows : PacketStatus → Bool
  | Filtered => false
  | AcceptedNoShow => false
  | AcceptedShow => true

end PacketStatus

end Pimc.Mclst
