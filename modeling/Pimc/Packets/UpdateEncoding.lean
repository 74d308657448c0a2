import Mathlib.Algebra.Order.BigOperators.Group.List
import Pimc.Packets.IPv4PIMPacket

/-!
# Reading a Join/Prune packet back

A reader of the Join/Prune message, record by record, with the counts of the
message kept next to the lists they announce.
-/

namespace Pimc

open Lib Reader Pimsmv2

/-! ### The reader -/

structure JPGroup where
  njoins : BitVec 16
  nprunes : BitVec 16
  entry : GroupEntry IPv4Address
  deriving DecidableEq, Repr

structure JPMessage where
  version : Byte
  type : Byte
  checksum : BitVec 16
  neighbor : IPv4Address
  ngroups : Byte
  holdtime : BitVec 16
  groups : List JPGroup
  deriving DecidableEq, Repr

def readGroupEntry : Reader JPGroup := do
  let group ← readIPv4Grp
  let njoins ← u16
  let nprunes ← u16
  let joins ← times njoins.toNat readIPv4Src
  let prunes ← times nprunes.toNat readIPv4Src
  return { njoins, nprunes, entry := { group, joins, prunes } }

def readJoinPrune : Reader JPMessage := do
  let hdr ← readHdr
  let neighbor ← readIPv4Addr
  let reserved ← u8
  check (reserved == 0)
  let ngroups ← u8
  let holdtime ← u16
  let groups ← times ngroups.toNat readGroupEntry
  return { version := hdr.1, type := hdr.2.1, checksum := hdr.2.2, neighbor, ngroups, holdtime,
           groups }

/-- The total length field of the IPv4 header. -/
def totalLen (data : List Byte) : Option (BitVec 16) :=
  (u16.run (data.drop 2)).map Prod.fst

/-! ### Bounds -/

/-- A group entry whose counts fit their fields. -/
def Countable (ge : GroupEntry IPv4Address) : Prop :=
  ge.joins.length < 2 ^ 16 ∧ ge.prunes.length < 2 ^ 16

theorem size_le_update {update : Update IPv4Address} {ge : GroupEntry IPv4Address}
    (h : ge ∈ update.groups) : ge.size ≤ update.size :=
  List.le_sum_of_mem (List.mem_map_of_mem h)

theorem countable_of_size {update : Update IPv4Address} (hsize : update.size ≤ 1466)
    {ge : GroupEntry IPv4Address} (h : ge ∈ update.groups) : Countable ge := by
  have hge := size_le_update h
  unfold GroupEntry.size at hge
  constructor <;> omega

theorem groups_le_size (ges : List (GroupEntry IPv4Address)) :
    12 * ges.length ≤ entriesSize ges := by
  induction ges with
  | nil => exact Nat.le_refl 0
  | cons ge ges ih =>
    simp only [entriesSize, List.map_cons, List.sum_cons, List.length_cons, GroupEntry.size] at ih ⊢
    omega

/-! ### What the reader returns -/

def JPGroup.ofEntry (ge : GroupEntry IPv4Address) : JPGroup where
  njoins := BitVec.ofNat 16 ge.joins.length
  nprunes := BitVec.ofNat 16 ge.prunes.length
  entry := ge

def JPMessage.ofUpdate (update : Update IPv4Address) (neighbor : IPv4Address)
    (holdtime checksum : BitVec 16) : JPMessage where
  version := 2
  type := PIMSMv2_JOIN_PRUNE
  checksum := checksum
  neighbor := neighbor
  ngroups := BitVec.ofNat 8 update.groups.length
  holdtime := holdtime
  groups := update.groups.map JPGroup.ofEntry

theorem counts_toNat {ge : GroupEntry IPv4Address} (h : Countable ge) :
    (BitVec.ofNat 16 ge.joins.length).toNat = ge.joins.length ∧
      (BitVec.ofNat 16 ge.prunes.length).toNat = ge.prunes.length := by
  rw [BitVec.toNat_ofNat, BitVec.toNat_ofNat]
  exact ⟨Nat.mod_eq_of_lt h.1, Nat.mod_eq_of_lt h.2⟩

theorem ngroups_toNat {update : Update IPv4Address} (hsize : update.size ≤ 1466) :
    (BitVec.ofNat 8 update.groups.length).toNat = update.groups.length := by
  have hgroups := groups_le_size update.groups
  unfold Update.size at hsize
  rw [BitVec.toNat_ofNat]
  omega

theorem readGroupEntry_decodes {ge : GroupEntry IPv4Address} (h : Countable ge) :
    Decodes readGroupEntry (IPv4PIMUpdatePacket.groupBytes ge) (JPGroup.ofEntry ge) := by
  obtain ⟨hjoins, hprunes⟩ := counts_toNat h
  have hsources : ∀ ss : List (Source IPv4Address),
      Decodes (times ss.length readIPv4Src) (ss.flatMap srcBytes) ss := by
    intro ss
    have htimes := Decodes.times (f := id) fun s (_ : s ∈ ss) => readIPv4Src_decodes s
    rwa [List.map_id] at htimes
  refine Decodes.bind (readIPv4Grp_decodes ge.group) (Decodes.bind (Decodes.u16 _)
    (Decodes.bind (Decodes.u16 _) ?_))
  rw [hjoins, hprunes]
  exact Decodes.bind (hsources ge.joins) (Decodes.ret (hsources ge.prunes) _)

theorem readJoinPrune_decodes {update : Update IPv4Address} (hsize : update.size ≤ 1466)
    (neighbor : IPv4Address) (holdtime checksum : BitVec 16) :
    Decodes readJoinPrune
      ([0x23, 0] ++ be16 checksum ++
        IPv4PIMUpdatePacket.bodyBytes update neighbor holdtime)
      (JPMessage.ofUpdate update neighbor holdtime checksum) := by
  have hcount := ngroups_toNat hsize
  have htimes : Decodes (times update.groups.length readGroupEntry)
      (update.groups.flatMap IPv4PIMUpdatePacket.groupBytes)
      (update.groups.map JPGroup.ofEntry) :=
    Decodes.times fun ge hge => readGroupEntry_decodes (countable_of_size hsize hge)
  have hversion : (0x23 : Byte) >>> 4 = 2 := by decide
  have htype : (0x23 : Byte) &&& 0xf = PIMSMv2_JOIN_PRUNE := by decide
  have hhdr := readHdr_decodes 0x23 checksum
  rw [hversion, htype] at hhdr
  have hbody : IPv4PIMUpdatePacket.bodyBytes update neighbor holdtime =
      uaddrBytes neighbor ++ ([0] ++ ([] ++ ([BitVec.ofNat 8 update.groups.length] ++
        (be16 holdtime ++ update.groups.flatMap IPv4PIMUpdatePacket.groupBytes)))) := by
    simp only [IPv4PIMUpdatePacket.bodyBytes, jpHdrBytes, List.append_assoc, List.nil_append]
  have hlast := Decodes.ret htimes fun groups => ({
    version := 2, type := PIMSMv2_JOIN_PRUNE, checksum, neighbor,
    ngroups := BitVec.ofNat 8 update.groups.length, holdtime, groups } : JPMessage)
  rw [hbody]
  apply Decodes.bind hhdr
  apply Decodes.bind (readIPv4Addr_decodes neighbor)
  apply Decodes.bind (Decodes.u8 0)
  apply Decodes.bind (Decodes.check rfl)
  apply Decodes.bind (Decodes.u8 _)
  apply Decodes.bind (Decodes.u16 holdtime)
  rw [hcount]
  exact hlast

/-! ### The packet -/

theorem checksummed_eq (base : ℕ) (b0 b1 : Byte) (back : List Byte) :
    ∃ checksum, checksummed base b0 b1 back = [b0, b1] ++ be16 checksum ++ back := by
  obtain ⟨sum, hsum⟩ : ∃ sum, sum =
      ipChecksumNs (base + IPv4HdrWriter.HdrSize) ([b0, b1] ++ [0, 0] ++ back) := ⟨_, rfl⟩
  refine ⟨htons sum, ?_⟩
  rw [← image16_htons, htons_htons, checksummed, hsum]

/-- The message of a packet, read back. -/
theorem readJoinPrune_build {base : ℕ} {update : Update IPv4Address} (hsize : update.size ≤ 1466)
    {source neighbor : IPv4Address} {holdtime : BitVec 16} {data : List Byte}
    (hdata : IPv4PIMUpdatePacket.build base update source neighbor holdtime = .ok data) :
    ∃ checksum, readJoinPrune.run (data.drop 20) =
      some (JPMessage.ofUpdate update neighbor holdtime checksum, []) := by
  rw [IPv4PIMUpdatePacket.build_eq] at hdata
  injection hdata with hdata
  obtain ⟨checksum, hbytes⟩ := checksummed_eq base 0x23 0
    (IPv4PIMUpdatePacket.bodyBytes update neighbor holdtime)
  have hdrop : data.drop 20 = [0x23, 0] ++ be16 checksum ++
      IPv4PIMUpdatePacket.bodyBytes update neighbor holdtime := by
    rw [← hdata, hbytes]
    exact List.drop_left' (IPv4HdrWriter.bytes_length _ source)
  have hread := readJoinPrune_decodes hsize neighbor holdtime checksum []
  rw [List.append_nil] at hread
  rw [hdrop]
  exact ⟨checksum, hread⟩

theorem build_length {base : ℕ} {update : Update IPv4Address} (hsize : update.size ≤ 1466)
    {source neighbor : IPv4Address} {holdtime : BitVec 16} {data : List Byte}
    (hdata : IPv4PIMUpdatePacket.build base update source neighbor holdtime = .ok data) :
    data.length = 34 + update.size ∧ (totalLen data).map BitVec.toNat = some data.length := by
  rw [IPv4PIMUpdatePacket.build_eq] at hdata
  injection hdata with hdata
  obtain ⟨checksum, hbytes⟩ := checksummed_eq base 0x23 0
    (IPv4PIMUpdatePacket.bodyBytes update neighbor holdtime)
  have hlen : data.length = 34 + update.size := by
    rw [← hdata, List.length_append, IPv4HdrWriter.bytes_length, hbytes, List.length_append,
      IPv4PIMUpdatePacket.bodyBytes_length]
    change 20 + (4 + (10 + update.size)) = 34 + update.size
    omega
  have htotal : totalLen data = some (BitVec.ofNat 16 (34 + update.size)) := by
    have hread := Decodes.u16 (BitVec.ofNat 16 (34 + update.size))
      ((IPv4HdrWriter.bytes (34 + update.size) source).drop 4 ++
        checksummed base 0x23 0 (IPv4PIMUpdatePacket.bodyBytes update neighbor holdtime))
    rw [totalLen, ← hdata]
    exact congrArg (Option.map Prod.fst) hread
  refine ⟨hlen, ?_⟩
  rw [htotal, hlen, Option.map_some, BitVec.toNat_ofNat]
  congr 1
  omega

theorem ofUpdate_entries (update : Update IPv4Address) (neighbor : IPv4Address)
    (holdtime checksum : BitVec 16) :
    (JPMessage.ofUpdate update neighbor holdtime checksum).groups.map (·.entry) =
      update.groups := by
  show (update.groups.map JPGroup.ofEntry).map (·.entry) = update.groups
  rw [List.map_map]
  exact List.map_id _

/-- `msg` is the update, with counts that are the lengths of its lists. -/
structure Carries (msg : JPMessage) (update : Update IPv4Address) (neighbor : IPv4Address)
    (holdtime : BitVec 16) : Prop where
  version : msg.version = 2
  type : msg.type = 3
  neighbor_eq : msg.neighbor = neighbor
  holdtime_eq : msg.holdtime = holdtime
  groups : msg.groups.map (·.entry) = update.groups
  ngroups : msg.ngroups.toNat = update.groups.length
  counts : ∀ g ∈ msg.groups, g.njoins.toNat = g.entry.joins.length ∧
    g.nprunes.toNat = g.entry.prunes.length

theorem ofUpdate_carries {update : Update IPv4Address} (hsize : update.size ≤ 1466)
    (neighbor : IPv4Address) (holdtime checksum : BitVec 16) :
    Carries (JPMessage.ofUpdate update neighbor holdtime checksum) update neighbor holdtime where
  version := rfl
  type := rfl
  neighbor_eq := rfl
  holdtime_eq := rfl
  groups := ofUpdate_entries update neighbor holdtime checksum
  ngroups := ngroups_toNat hsize
  counts := by
    intro g hg
    obtain ⟨ge, hge, rfl⟩ := List.mem_map.mp hg
    exact counts_toNat (countable_of_size hsize hge)

theorem updatePacket_faithful {update : Update IPv4Address} (hsize : update.size ≤ 1466)
    (base : ℕ) (source neighbor : IPv4Address) (holdtime : BitVec 16) :
    ∃ data, IPv4PIMUpdatePacket.build base update source neighbor holdtime = .ok data ∧
      data.length = 34 + update.size ∧
      (totalLen data).map BitVec.toNat = some data.length ∧
      (∃ msg, readJoinPrune.run (data.drop 20) = some (msg, []) ∧
        Carries msg update neighbor holdtime) ∧
      ∀ (base' : ℕ) (update' : Update IPv4Address) (source' neighbor' : IPv4Address)
        (holdtime' : BitVec 16), update'.size ≤ 1466 →
        IPv4PIMUpdatePacket.build base' update' source' neighbor' holdtime' = .ok data →
        update' = update := by
  obtain ⟨data, hdata⟩ : ∃ data,
      IPv4PIMUpdatePacket.build base update source neighbor holdtime = .ok data :=
    ⟨_, IPv4PIMUpdatePacket.build_eq base update source neighbor holdtime⟩
  obtain ⟨checksum, hread⟩ := readJoinPrune_build hsize hdata
  obtain ⟨hlen, htotal⟩ := build_length hsize hdata
  refine ⟨data, hdata, hlen, htotal,
    ⟨_, hread, ofUpdate_carries hsize neighbor holdtime checksum⟩, ?_⟩
  intro base' update' source' neighbor' holdtime' hsize' hdata'
  obtain ⟨checksum', hread'⟩ := readJoinPrune_build hsize' hdata'
  have hmsg : JPMessage.ofUpdate update' neighbor' holdtime' checksum' =
      JPMessage.ofUpdate update neighbor holdtime checksum := by
    rw [hread] at hread'
    injection hread' with hpair
    injection hpair with hmsg
    exact hmsg.symm
  have hgroups := congrArg (fun msg => msg.groups.map (·.entry)) hmsg
  simp only [ofUpdate_entries] at hgroups
  cases update
  cases update'
  exact congrArg Update.mk hgroups

/-- A group with a shared tree join and a pruned source. -/
def sampleUpdate : Update IPv4Address where
  groups := [{
    group := .ofOctets 239 1 2 3
    joins := [⟨.ofOctets 10 0 0 1, true, true⟩]
    prunes := [⟨.ofOctets 10 1 2 3, false, true⟩] }]

theorem updatePacket_faithful_example :
    ∃ data, IPv4PIMUpdatePacket.build 0 sampleUpdate (.ofOctets 10 2 2 2) (.ofOctets 10 2 2 1) 210 =
        .ok data ∧
      data.length = 62 ∧
      ∃ msg, readJoinPrune.run (data.drop 20) = some (msg, []) ∧
        msg.groups.map (·.entry) = sampleUpdate.groups := by
  have hsize : sampleUpdate.size ≤ 1466 := by decide
  obtain ⟨data, hdata, hlen, _, ⟨msg, hread, hcarries⟩, _⟩ :=
    updatePacket_faithful hsize 0 (.ofOctets 10 2 2 2) (.ofOctets 10 2 2 1) 210
  exact ⟨data, hdata, hlen, msg, hread, hcarries.groups⟩

end Pimc
