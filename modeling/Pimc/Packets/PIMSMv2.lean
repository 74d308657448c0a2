import Pimc.Lib.ByteReader
import Pimc.Net.IPv4Address
import Pimc.Packets.PacketWriter
import Pimc.Pimsm.Update

/-!
# PIM SM v2 records (lib/pimc/packets/PIMSMv2.hpp, PIMSMv2Utils.hpp)

Each record has the function of the source that writes it, the bytes it leaves
in zeroed memory, and a reader of the same layout.
-/

namespace Pimc

open Lib

/-! ### Constants -/

def IPv4_FAMILY_NUMBER : Byte := 1

def PIMSMv2_NATIVE_ENCODING : Byte := 0

def PIMSMv2_HELLO : Byte := 0

def PIMSMv2_JOIN_PRUNE : Byte := 3

def PIMSMv2_OPT_HOLDTIME : BitVec 16 := 1

def PIMSMv2_OPT_DR_PRIORITY : BitVec 16 := 19

def PIMSMv2_OPT_GENERATION_ID : BitVec 16 := 20

namespace Pimsmv2

/-! ### `PIMSMv2Utils.hpp` -/

def writeHdr (pw : PacketWriter) (type : Byte) : MemM PacketWriter :=
  next pw 4 [
    .bits 0 4 4 2,
    .bits 0 0 4 (0xf &&& type),
    .u8 1 0]

def writeIPv4Addr (pw : PacketWriter) (uaddr : IPv4Address) : MemM PacketWriter := do
  let pw ← next pw 2 [
    .u8 0 IPv4_FAMILY_NUMBER,
    .u8 1 PIMSMv2_NATIVE_ENCODING]
  next pw 4 [.u32 0 uaddr.to_nl]

def writeIPv4JPHdr (pw : PacketWriter) (neighbor : IPv4Address) (grpNum : Byte)
    (holdtime : BitVec 16) : MemM PacketWriter := do
  let pw ← writeIPv4Addr pw neighbor
  let pw ← next pw 1 [.u8 0 0]
  let pw ← next pw 1 [.u8 0 grpNum]
  next pw 2 [.u16 0 (htons holdtime)]

def writeIPv4Grp (pw : PacketWriter) (group : IPv4Address) : MemM PacketWriter := do
  let pw ← next pw 4 [
    .u8 0 IPv4_FAMILY_NUMBER,
    .u8 1 PIMSMv2_NATIVE_ENCODING,
    .u8 2 0,
    .u8 3 32]
  next pw 4 [.u32 0 group.to_nl]

def writeIPv4Src (pw : PacketWriter) (src : IPv4Address) (rpt wc : Bool) :
    MemM PacketWriter := do
  let pw ← next pw 4 [
    .u8 0 IPv4_FAMILY_NUMBER,
    .u8 1 PIMSMv2_NATIVE_ENCODING,
    .bits 2 0 1 (if rpt then 1 else 0),
    .bits 2 1 1 (if wc then 1 else 0),
    .bits 2 2 1 1,
    .bits 2 3 5 0,
    .u8 3 32]
  next pw 4 [.u32 0 src.to_nl]

def writeOptHoldtime (pw : PacketWriter) (holdtime : BitVec 16) : MemM PacketWriter := do
  let pw ← next pw 4 [
    .u16 0 (htons PIMSMv2_OPT_HOLDTIME),
    .u16 2 (htons 2)]
  next pw 2 [.u16 0 (htons holdtime)]

def writeOptDrPriority (pw : PacketWriter) (drPrio : BitVec 32) : MemM PacketWriter := do
  let pw ← next pw 4 [
    .u16 0 (htons PIMSMv2_OPT_DR_PRIORITY),
    .u16 2 (htons 4)]
  next pw 4 [.u32 0 (htonl drPrio)]

def writeOptGenerationId (pw : PacketWriter) (genId : BitVec 32) : MemM PacketWriter := do
  let pw ← next pw 4 [
    .u16 0 (htons PIMSMv2_OPT_GENERATION_ID),
    .u16 2 (htons 4)]
  next pw 4 [.u32 0 (htonl genId)]

/-! ### The bytes of the records -/

def addrBytes (a : IPv4Address) : List Byte := be32 a.addr

def hdrBytes (type : Byte) : List Byte := [32 ||| (0xf &&& type), 0, 0, 0]

def uaddrBytes (a : IPv4Address) : List Byte := [1, 0] ++ addrBytes a

def jpHdrBytes (neighbor : IPv4Address) (grpNum : Byte) (holdtime : BitVec 16) : List Byte :=
  uaddrBytes neighbor ++ ([0] ++ ([grpNum] ++ be16 holdtime))

def grpBytes (group : IPv4Address) : List Byte := [1, 0, 0, 32] ++ addrBytes group

def srcFlags (rpt wc : Bool) : Byte := 4 ||| (if wc then 2 else 0) ||| (if rpt then 1 else 0)

def srcBytes (s : Source IPv4Address) : List Byte :=
  [1, 0, srcFlags s.rpt s.wildcard, 32] ++ addrBytes s.addr

/-- A hello option: its type, the length of its value and the value. -/
def optBytes (type length : BitVec 16) (value : List Byte) : List Byte :=
  be16 type ++ be16 length ++ value

theorem srcBytes_length (s : Source IPv4Address) : (srcBytes s).length = 8 := rfl

theorem jpHdrBytes_length (neighbor : IPv4Address) (grpNum : Byte) (holdtime : BitVec 16) :
    (jpHdrBytes neighbor grpNum holdtime).length = 10 := rfl

/-! ### What the functions write -/

theorem writes_u8 (v : Byte) : Writes (fun pw => next pw 1 [.u8 0 v]) [v] :=
  Writes.next rfl rfl

theorem writes_u16 (v : BitVec 16) : Writes (fun pw => next pw 2 [.u16 0 (htons v)]) (be16 v) := by
  have himage := image16_htons v
  apply Writes.next
  · rfl
  · rw [← himage]
    rfl

theorem writes_u32 (v : BitVec 32) : Writes (fun pw => next pw 4 [.u32 0 (htonl v)]) (be32 v) := by
  have himage := image32_htonl v
  apply Writes.next
  · rfl
  · rw [← himage]
    rfl

theorem writeHdr_writes (type : Byte) : Writes (fun pw => writeHdr pw type) (hdrBytes type) := by
  apply Writes.next
  · rfl
  · revert type
    decide

theorem writeIPv4Addr_writes (a : IPv4Address) :
    Writes (fun pw => writeIPv4Addr pw a) (uaddrBytes a) :=
  Writes.seq (Writes.next rfl rfl) (writes_u32 a.addr)

theorem writeIPv4JPHdr_writes (neighbor : IPv4Address) (grpNum : Byte) (holdtime : BitVec 16) :
    Writes (fun pw => writeIPv4JPHdr pw neighbor grpNum holdtime)
      (jpHdrBytes neighbor grpNum holdtime) :=
  Writes.seq (writeIPv4Addr_writes neighbor)
    (Writes.seq (writes_u8 0) (Writes.seq (writes_u8 grpNum) (writes_u16 holdtime)))

theorem writeIPv4Grp_writes (group : IPv4Address) :
    Writes (fun pw => writeIPv4Grp pw group) (grpBytes group) :=
  Writes.seq (Writes.next rfl rfl) (writes_u32 group.addr)

theorem writeIPv4Src_writes (s : Source IPv4Address) :
    Writes (fun pw => writeIPv4Src pw s.addr s.rpt s.wildcard) (srcBytes s) := by
  apply Writes.seq _ (writes_u32 s.addr.addr)
  apply Writes.next
  · rfl
  · cases s.rpt <;> cases s.wildcard <;> rfl

theorem writeOptHoldtime_writes (holdtime : BitVec 16) :
    Writes (fun pw => writeOptHoldtime pw holdtime)
      (optBytes PIMSMv2_OPT_HOLDTIME 2 (be16 holdtime)) :=
  Writes.seq (Writes.next rfl (by decide)) (writes_u16 holdtime)

theorem writeOptDrPriority_writes (drPrio : BitVec 32) :
    Writes (fun pw => writeOptDrPriority pw drPrio)
      (optBytes PIMSMv2_OPT_DR_PRIORITY 4 (be32 drPrio)) :=
  Writes.seq (Writes.next rfl (by decide)) (writes_u32 drPrio)

theorem writeOptGenerationId_writes (genId : BitVec 32) :
    Writes (fun pw => writeOptGenerationId pw genId)
      (optBytes PIMSMv2_OPT_GENERATION_ID 4 (be32 genId)) :=
  Writes.seq (Writes.next rfl (by decide)) (writes_u32 genId)

/-! ### Readers of the same layouts -/

open Reader

/-- The version and the type of the header, and its checksum. -/
def readHdr : Reader (Byte × Byte × BitVec 16) := do
  let first ← u8
  let reserved ← u8
  check (reserved == 0)
  let checksum ← u16
  return (first >>> 4, first &&& 0xf, checksum)

def readIPv4Addr : Reader IPv4Address := do
  let family ← u8
  let encoding ← u8
  check (family == IPv4_FAMILY_NUMBER && encoding == PIMSMv2_NATIVE_ENCODING)
  let addr ← u32
  return ⟨addr⟩

def readIPv4Grp : Reader IPv4Address := do
  let family ← u8
  let encoding ← u8
  let flags ← u8
  let maskLen ← u8
  check (family == IPv4_FAMILY_NUMBER && encoding == PIMSMv2_NATIVE_ENCODING && flags == 0 &&
    maskLen == 32)
  let addr ← u32
  return ⟨addr⟩

def readIPv4Src : Reader (Source IPv4Address) := do
  let family ← u8
  let encoding ← u8
  let flags ← u8
  let maskLen ← u8
  check (family == IPv4_FAMILY_NUMBER && encoding == PIMSMv2_NATIVE_ENCODING &&
    flags.getLsbD 2 && flags >>> 3 == 0 && maskLen == 32)
  let addr ← u32
  return { addr := ⟨addr⟩, wildcard := flags.getLsbD 1, rpt := flags.getLsbD 0 }

theorem readHdr_decodes (first : Byte) (checksum : BitVec 16) :
    Decodes readHdr ([first, 0] ++ be16 checksum) (first >>> 4, first &&& 0xf, checksum) := by
  have h : Decodes readHdr ([first] ++ ([0] ++ ([] ++ be16 checksum)))
      (first >>> 4, first &&& 0xf, checksum) :=
    Decodes.bind (Decodes.u8 _) (Decodes.bind (Decodes.u8 _) (Decodes.bind (Decodes.check rfl)
      (Decodes.ret (Decodes.u16 checksum) _)))
  exact h

theorem readIPv4Addr_decodes (a : IPv4Address) : Decodes readIPv4Addr (uaddrBytes a) a := by
  have h : Decodes readIPv4Addr ([1] ++ ([0] ++ ([] ++ be32 a.addr))) ⟨a.addr⟩ :=
    Decodes.bind (Decodes.u8 _) (Decodes.bind (Decodes.u8 _) (Decodes.bind (Decodes.check rfl)
      (Decodes.ret (Decodes.u32 a.addr) _)))
  exact h

theorem readIPv4Grp_decodes (group : IPv4Address) :
    Decodes readIPv4Grp (grpBytes group) group := by
  have h : Decodes readIPv4Grp ([1] ++ ([0] ++ ([0] ++ ([32] ++ ([] ++ be32 group.addr)))))
      ⟨group.addr⟩ :=
    Decodes.bind (Decodes.u8 _) (Decodes.bind (Decodes.u8 _) (Decodes.bind (Decodes.u8 _)
      (Decodes.bind (Decodes.u8 _) (Decodes.bind (Decodes.check rfl)
        (Decodes.ret (Decodes.u32 group.addr) _)))))
  exact h

theorem srcFlags_bits (rpt wc : Bool) :
    (srcFlags rpt wc).getLsbD 0 = rpt ∧ (srcFlags rpt wc).getLsbD 1 = wc ∧
      (srcFlags rpt wc).getLsbD 2 = true ∧ srcFlags rpt wc >>> 3 = 0 := by
  revert rpt wc
  decide

theorem readIPv4Src_decodes (s : Source IPv4Address) : Decodes readIPv4Src (srcBytes s) s := by
  obtain ⟨hrpt, hwc, hsparse, hreserved⟩ := srcFlags_bits s.rpt s.wildcard
  have h : Decodes readIPv4Src
      ([1] ++ ([0] ++ ([srcFlags s.rpt s.wildcard] ++ ([32] ++ ([] ++ be32 s.addr.addr)))))
      { addr := ⟨s.addr.addr⟩, wildcard := (srcFlags s.rpt s.wildcard).getLsbD 1,
        rpt := (srcFlags s.rpt s.wildcard).getLsbD 0 } :=
    Decodes.bind (Decodes.u8 _) (Decodes.bind (Decodes.u8 _) (Decodes.bind (Decodes.u8 _)
      (Decodes.bind (Decodes.u8 _) (Decodes.bind (Decodes.check (by
        rw [hsparse, hreserved]
        rfl)) (Decodes.ret (Decodes.u32 s.addr.addr) _)))))
  rw [hrpt, hwc] at h
  exact h

end Pimsmv2

end Pimc
