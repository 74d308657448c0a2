import Pimc.Lib.ByteMemory
import Pimc.Packets.PacketView

/-!
# Header views (lib/pimc/packets/IPv4HdrView.hpp, UDPHdrView.hpp)

A view is the offset of the header, which has the layout of `iphdr` and `udphdr`
on a little-endian host; the fields come in network byte order.
-/

namespace Pimc

open Lib

namespace IPv4HdrView

def HdrSize : SizeT := 20

def ihl (ipHdr : ℕ) : ReadM Byte := do
  let b ← u8At ipHdr
  return extractBits 0 4 b

def headerSizeBytes (ipHdr : ℕ) : ReadM (BitVec 16) := do
  let ihl ← ihl ipHdr
  return ihl.setWidth 16 <<< 2

def version (ipHdr : ℕ) : ReadM Byte := do
  let b ← u8At ipHdr
  return extractBits 4 4 b

def tos (ipHdr : ℕ) : ReadM Byte := u8At (ipHdr + 1)

def totalLen (ipHdr : ℕ) : ReadM (BitVec 16) := u16At (ipHdr + 2)

def id (ipHdr : ℕ) : ReadM (BitVec 16) := u16At (ipHdr + 4)

def flagsAndFragOff (ipHdr : ℕ) : ReadM (BitVec 16) := u16At (ipHdr + 6)

def ttl (ipHdr : ℕ) : ReadM Byte := u8At (ipHdr + 8)

def protocol (ipHdr : ℕ) : ReadM Byte := u8At (ipHdr + 9)

def hdrChecksum (ipHdr : ℕ) : ReadM (BitVec 16) := u16At (ipHdr + 10)

def saddr (ipHdr : ℕ) : ReadM (BitVec 32) := u32At (ipHdr + 12)

def daddr (ipHdr : ℕ) : ReadM (BitVec 32) := u32At (ipHdr + 16)

end IPv4HdrView

def UDPProto : Byte := 17

namespace UDPHdrView

def HdrSize : SizeT := 8

def sport (udpHdr : ℕ) : ReadM (BitVec 16) := u16At udpHdr

def dport (udpHdr : ℕ) : ReadM (BitVec 16) := u16At (udpHdr + 2)

def len (udpHdr : ℕ) : ReadM (BitVec 16) := u16At (udpHdr + 4)

end UDPHdrView

end Pimc
