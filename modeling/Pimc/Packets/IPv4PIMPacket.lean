import Mathlib.Tactic.Ring
import Pimc.Packets.IPChecksum
import Pimc.Packets.PIMSMv2

/-!
# The PIM packets (apps/pimc/packets/IPv4PIMUpdatePacket.cpp, IPv4PIMHelloPacket.cpp)

The constructors of both packets differ in the PIM message between the IPv4
header and the checksum. `base` is the address of the buffer `data_`, which the
checksum depends on.
-/

namespace Pimc

open Lib

namespace Params

def AllPIMRouters : IPv4Address := IPv4Address.ofOctets 224 0 0 13

end Params

open Params

def IP_DF : BitVec 16 := 0x4000

def IPPROTO_PIM : Byte := 103

namespace IPv4HdrWriter

def HdrSize : ℕ := 20

/-- `next<IPv4HdrWriter>(pw, HdrSize)` and the setters; the header checksum is not set. -/
def write (pw : PacketWriter) (sz : ℕ) (source : IPv4Address) : MemM PacketWriter :=
  next pw HdrSize [
    .bits 0 4 4 4,
    .bits 0 0 4 5,
    .u8 1 192,
    .u16 2 (htons (BitVec.ofNat 16 sz)),
    .u16 4 0,
    .u16 6 (htons IP_DF),
    .u8 8 1,
    .u8 9 IPPROTO_PIM,
    .u32 12 source.to_nl,
    .u32 16 AllPIMRouters.to_nl]

/-- The bytes of the header. -/
def bytes (sz : ℕ) (source : IPv4Address) : List Byte :=
  [0x45, 192] ++ be16 (BitVec.ofNat 16 sz) ++ [0, 0, 0x40, 0, 1, 103, 0, 0] ++
    be32 source.addr ++ be32 AllPIMRouters.addr

theorem bytes_length (sz : ℕ) (source : IPv4Address) : (bytes sz source).length = HdrSize := rfl

theorem write_writes (sz : ℕ) (source : IPv4Address) :
    Writes (fun pw => write pw sz source) (bytes sz source) := by
  have hlen := image16_htons (BitVec.ofNat 16 sz)
  have hsource := image32_htonl source.addr
  apply Writes.next
  · rfl
  · unfold bytes
    rw [← hlen, ← hsource]
    -- each field is laid over the bytes so far before the next one is looked at
    simp only [List.foldl_cons, List.foldl_nil, Assign.run, overlay, image16, image32, HdrSize,
      List.replicate_succ, List.replicate_zero, List.modify_zero_cons, List.take_succ_cons,
      List.take_zero, List.drop_succ_cons, List.drop_zero, List.cons_append, List.nil_append,
      List.length_cons, List.length_nil, Nat.zero_add, Nat.reduceAdd]
    rfl

end IPv4HdrWriter

open IPv4HdrWriter

namespace Pimsmv2

def writeChkSum (base : ℕ) (pw : PacketWriter) (sz : ℕ) : MemM Unit := do
  let data ← loadAt pw.data sz
  let _ ← next pw 4 [.u16 2 (ipChecksumNs (base + pw.data) data)]

theorem writeChkSum_run (base : ℕ) (front back : List Byte) (b0 b1 : Byte) :
    (writeChkSum base (PacketWriter.mk' front.length) (4 + back.length)).run
        (front ++ ([b0, b1] ++ [0, 0] ++ back)) =
      .ok ((), front ++ ([b0, b1] ++
        image16 (ipChecksumNs (base + front.length) ([b0, b1] ++ [0, 0] ++ back)) ++ back)) := by
  obtain ⟨pim, hpim⟩ : ∃ pim, pim = [b0, b1] ++ [0, 0] ++ back := ⟨_, rfl⟩
  have hlen : pim.length = 4 + back.length := by
    rw [hpim]
    simp only [List.length_append, List.length_cons, List.length_nil]
  have hload : (loadAt (PacketWriter.mk' front.length).data (4 + back.length)).run (front ++ pim) =
      .ok (pim, front ++ pim) := by
    have hrun := loadAt_run front pim []
    rwa [List.append_nil, hlen] at hrun
  have hstore := next_run front.length front [b0, b1, 0, 0] back
    [.u16 2 (ipChecksumNs (base + front.length) pim)]
  have hmem : front ++ [b0, b1, 0, 0] ++ back = front ++ pim := by
    rw [hpim, List.append_assoc]
    rfl
  rw [hmem] at hstore
  have hall : (writeChkSum base (PacketWriter.mk' front.length) (4 + back.length)).run
      (front ++ pim) = .ok ((), front ++ ([b0, b1] ++
        image16 (ipChecksumNs (base + front.length) pim)) ++ back) := by
    unfold writeChkSum
    rw [run_bind_ok hload]
    exact run_bind_ok hstore
  rw [← hpim, hall, List.append_assoc]

end Pimsmv2

open Pimsmv2

/-! ### The constructors -/

/-- The sanity check. -/
def checkSize (name : String) (sz : ℕ) (pw : PacketWriter) : MemM Unit :=
  if pw.size ≠ sz then
    raise s!"expecting PIM {name} packet of size {sz}, whereas the encoded size is {pw.size} (including the IPv4 header)"
  else pure ()

def writePacket (base : ℕ) (name : String) (pimSz : ℕ) (source : IPv4Address)
    (writePim : PacketWriter → MemM PacketWriter) : MemM Unit := do
  let sz := HdrSize + pimSz
  let pw ← IPv4HdrWriter.write (PacketWriter.mk' 0) sz source
  let pimPw := pw.mark
  let pw ← writePim pw
  checkSize name sz pw
  writeChkSum base pimPw pimSz

def buildPacket (base : ℕ) (name : String) (pimSz : ℕ) (source : IPv4Address)
    (writePim : PacketWriter → MemM PacketWriter) : Except MemError (List Byte) :=
  ((writePacket base name pimSz source writePim).run (List.replicate (HdrSize + pimSz) 0)).map
    Prod.snd

namespace IPv4PIMUpdatePacket

def writeGroupEntry (pw : PacketWriter) (ge : GroupEntry IPv4Address) : MemM PacketWriter := do
  let pw ← writeIPv4Grp pw ge.group
  let pw ← next pw 2 [.u16 0 (htons (BitVec.ofNat 16 ge.joins.length))]
  let pw ← next pw 2 [.u16 0 (htons (BitVec.ofNat 16 ge.prunes.length))]
  let pw ← ge.joins.foldlM (fun pw s => writeIPv4Src pw s.addr s.rpt s.wildcard) pw
  ge.prunes.foldlM (fun pw s => writeIPv4Src pw s.addr s.rpt s.wildcard) pw

def build (base : ℕ) (update : Update IPv4Address) (source neighbor : IPv4Address)
    (holdtime : BitVec 16) : Except MemError (List Byte) :=
  let us := UpdateSummary.ofUpdate 0 update
  buildPacket base "Join/Prune update" (PIMJPHdrSize + us.size) source fun pw => do
    let pw ← writeHdr pw PIMSMv2_JOIN_PRUNE
    let pw ← writeIPv4JPHdr pw neighbor (BitVec.ofNat 8 update.groups.length) holdtime
    update.groups.foldlM writeGroupEntry pw

end IPv4PIMUpdatePacket

namespace IPv4PIMHelloPacket

def build (base : ℕ) (source : IPv4Address) (helloHoldtime : BitVec 16)
    (drPriority generationId : BitVec 32) : Except MemError (List Byte) :=
  let pimSz := PIMHdrSize + (HelloOptionHdrSize + 2) + (HelloOptionHdrSize + 4) +
    (HelloOptionHdrSize + 4)
  buildPacket base "Hello" pimSz source fun pw => do
    let pw ← writeHdr pw PIMSMv2_HELLO
    let pw ← writeOptHoldtime pw helloHoldtime
    let pw ← writeOptDrPriority pw drPriority
    writeOptGenerationId pw generationId

end IPv4PIMHelloPacket

/-! ### The bytes of the packets -/

/-- The PIM message `b0 b1 0 0 back` with its checksum, in a buffer at `base`. -/
def checksummed (base : ℕ) (b0 b1 : Byte) (back : List Byte) : List Byte :=
  [b0, b1] ++ image16 (ipChecksumNs (base + HdrSize) ([b0, b1] ++ [0, 0] ++ back)) ++ back

theorem buildPacket_ok (base : ℕ) (name : String) (source : IPv4Address) {b0 b1 : Byte}
    {back : List Byte} {writePim : PacketWriter → MemM PacketWriter}
    (hpim : Writes writePim ([b0, b1] ++ [0, 0] ++ back)) :
    buildPacket base name (4 + back.length) source writePim =
      .ok (IPv4HdrWriter.bytes (HdrSize + (4 + back.length)) source ++
        checksummed base b0 b1 back) := by
  obtain ⟨header, hheader⟩ : ∃ header, header =
      IPv4HdrWriter.bytes (HdrSize + (4 + back.length)) source := ⟨_, rfl⟩
  have hheaderLen : header.length = HdrSize := by
    rw [hheader]
    exact bytes_length _ source
  obtain ⟨pim, hpimEq⟩ : ∃ pim, pim = [b0, b1] ++ [0, 0] ++ back := ⟨_, rfl⟩
  have hpimLen : pim.length = 4 + back.length := by
    rw [hpimEq]
    simp only [List.length_append, List.length_cons, List.length_nil]
  have hzeros : List.replicate (HdrSize + (4 + back.length)) (0 : Byte) =
      [] ++ List.replicate header.length 0 ++ List.replicate (4 + back.length) 0 := by
    rw [hheaderLen, List.replicate_add, List.nil_append]
  have hfirst : (IPv4HdrWriter.write (PacketWriter.mk' 0) (HdrSize + (4 + back.length)) source).run
      (List.replicate (HdrSize + (4 + back.length)) 0) =
        .ok (⟨0, header.length⟩, header ++ List.replicate (4 + back.length) 0) := by
    have hwrite := write_writes (HdrSize + (4 + back.length)) source 0 []
      (List.replicate (4 + back.length) 0)
    rw [← hheader, ← hzeros, List.length_nil, Nat.zero_add, List.nil_append] at hwrite
    exact hwrite
  have hsecond : (writePim ⟨0, header.length⟩).run
      (header ++ List.replicate (4 + back.length) 0) =
        .ok (⟨0, header.length + (4 + back.length)⟩, header ++ pim) := by
    have hwrite := hpim 0 header []
    rw [← hpimEq, hpimLen, List.append_nil, List.append_nil] at hwrite
    exact hwrite
  have hcheck : (checkSize name (HdrSize + (4 + back.length))
      ⟨0, header.length + (4 + back.length)⟩).run (header ++ pim) = .ok ((), header ++ pim) := by
    unfold checkSize
    rw [if_neg]
    · rfl
    · rw [hheaderLen]
      exact not_not.mpr (Nat.sub_zero _)
  have hlast := writeChkSum_run base header back b0 b1
  rw [← hpimEq, hheaderLen] at hlast
  have hall : (writePacket base name (4 + back.length) source writePim).run
      (List.replicate (HdrSize + (4 + back.length)) 0) =
        .ok ((), header ++ checksummed base b0 b1 back) := by
    unfold writePacket
    rw [run_bind_ok hfirst, run_bind_ok hsecond, run_bind_ok hcheck, checksummed, ← hpimEq]
    rw [← hheaderLen] at hlast ⊢
    exact hlast
  unfold buildPacket
  rw [hall, ← hheader]
  rfl

namespace IPv4PIMUpdatePacket

def groupBytes (ge : GroupEntry IPv4Address) : List Byte :=
  grpBytes ge.group ++ (be16 (BitVec.ofNat 16 ge.joins.length) ++
    (be16 (BitVec.ofNat 16 ge.prunes.length) ++
      (ge.joins.flatMap srcBytes ++ ge.prunes.flatMap srcBytes)))

/-- The message after the PIM header. -/
def bodyBytes (update : Update IPv4Address) (neighbor : IPv4Address) (holdtime : BitVec 16) :
    List Byte :=
  jpHdrBytes neighbor (BitVec.ofNat 8 update.groups.length) holdtime ++
    update.groups.flatMap groupBytes

theorem flatMap_length {α : Type} (encode : α → List Byte) (n : ℕ)
    (h : ∀ a, (encode a).length = n) (as : List α) :
    (as.flatMap encode).length = n * as.length := by
  induction as with
  | nil => rfl
  | cons a as ih =>
    rw [List.flatMap_cons, List.length_append, h, ih, List.length_cons]
    ring

theorem groupBytes_length (ge : GroupEntry IPv4Address) : (groupBytes ge).length = ge.size := by
  have hsrcs := flatMap_length srcBytes 8 srcBytes_length
  simp only [groupBytes, List.length_append, hsrcs, GroupEntry.size]
  change 8 + (2 + (2 + (8 * ge.joins.length + 8 * ge.prunes.length))) = _
  omega

theorem bodyBytes_length (update : Update IPv4Address) (neighbor : IPv4Address)
    (holdtime : BitVec 16) : (bodyBytes update neighbor holdtime).length = 10 + update.size := by
  have hgroups : (update.groups.flatMap groupBytes).length = update.size := by
    rw [List.length_flatMap, Update.size, entriesSize]
    congr 1
    exact List.map_congr_left fun ge _ => groupBytes_length ge
  rw [bodyBytes, List.length_append, jpHdrBytes_length, hgroups]

theorem writeGroupEntry_writes (ge : GroupEntry IPv4Address) :
    Writes (fun pw => writeGroupEntry pw ge) (groupBytes ge) :=
  Writes.seq (writeIPv4Grp_writes ge.group) (Writes.seq (writes_u16 _) (Writes.seq (writes_u16 _)
    (Writes.seq (Writes.each fun s _ => writeIPv4Src_writes s)
      (Writes.each fun s _ => writeIPv4Src_writes s))))

/-- The sanity check never fails, and the packet is its header and its message. -/
theorem build_eq (base : ℕ) (update : Update IPv4Address) (source neighbor : IPv4Address)
    (holdtime : BitVec 16) :
    build base update source neighbor holdtime =
      .ok (IPv4HdrWriter.bytes (34 + update.size) source ++
        checksummed base 0x23 0 (bodyBytes update neighbor holdtime)) := by
  obtain ⟨body, hbody⟩ : ∃ body, body = bodyBytes update neighbor holdtime := ⟨_, rfl⟩
  have hwrites : Writes (fun pw => do
      let pw ← writeHdr pw PIMSMv2_JOIN_PRUNE
      let pw ← writeIPv4JPHdr pw neighbor (BitVec.ofNat 8 update.groups.length) holdtime
      update.groups.foldlM writeGroupEntry pw) ([0x23, 0] ++ [0, 0] ++ body) := by
    rw [hbody]
    exact Writes.seq (writeHdr_writes _) (Writes.seq (writeIPv4JPHdr_writes _ _ _)
      (Writes.each fun ge _ => writeGroupEntry_writes ge))
  have hlen : body.length = 10 + update.size := by
    rw [hbody]
    exact bodyBytes_length update neighbor holdtime
  have hbuilt := buildPacket_ok base "Join/Prune update" source hwrites
  have hpimSz : 4 + body.length = PIMJPHdrSize + (UpdateSummary.ofUpdate 0 update).size := by
    rw [hlen, ofUpdate_size, ← Nat.add_assoc]
    rfl
  have hsz : HdrSize + (4 + body.length) = 34 + update.size := by
    rw [hlen, ← Nat.add_assoc, ← Nat.add_assoc]
    rfl
  rw [hsz, hpimSz, hbody] at hbuilt
  exact hbuilt

end IPv4PIMUpdatePacket

namespace IPv4PIMHelloPacket

/-- The message after the PIM header. -/
def bodyBytes (helloHoldtime : BitVec 16) (drPriority generationId : BitVec 32) : List Byte :=
  optBytes PIMSMv2_OPT_HOLDTIME 2 (be16 helloHoldtime) ++
    (optBytes PIMSMv2_OPT_DR_PRIORITY 4 (be32 drPriority) ++
      optBytes PIMSMv2_OPT_GENERATION_ID 4 (be32 generationId))

theorem build_eq (base : ℕ) (source : IPv4Address) (helloHoldtime : BitVec 16)
    (drPriority generationId : BitVec 32) :
    build base source helloHoldtime drPriority generationId =
      .ok (IPv4HdrWriter.bytes 46 source ++
        checksummed base 0x20 0 (bodyBytes helloHoldtime drPriority generationId)) := by
  obtain ⟨body, hbody⟩ : ∃ body, body = bodyBytes helloHoldtime drPriority generationId :=
    ⟨_, rfl⟩
  have hwrites : Writes (fun pw => do
      let pw ← writeHdr pw PIMSMv2_HELLO
      let pw ← writeOptHoldtime pw helloHoldtime
      let pw ← writeOptDrPriority pw drPriority
      writeOptGenerationId pw generationId) ([0x20, 0] ++ [0, 0] ++ body) := by
    rw [hbody]
    exact Writes.seq (writeHdr_writes _) (Writes.seq (writeOptHoldtime_writes _)
      (Writes.seq (writeOptDrPriority_writes _) (writeOptGenerationId_writes _)))
  have hlen : body.length = 22 := by
    rw [hbody]
    rfl
  have hbuilt := buildPacket_ok base "Hello" source hwrites
  rw [hlen, hbody] at hbuilt
  exact hbuilt

end IPv4PIMHelloPacket

end Pimc
