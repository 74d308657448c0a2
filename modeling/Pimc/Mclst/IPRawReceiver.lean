import Pimc.Mclst.ReceiverBase

/-!
# The raw receiver (apps/mclst/IPRawReceiver.hpp)

`processPacket` goes on in `processHdrs` with the packets for the group, and that
in `processUdp` once the view has both headers.
-/

namespace Pimc.Mclst

open Lib

namespace IPRawReceiver

def overrideTtl (ipTTL : ℤ) (rcv : Receiving) : Receiving :=
  if rcv.pktInfo.ttl ≠ ipTTL then
    (rcv.warningTs
      s!"in packet {rcv.pktInfo.flow} TTL received from recvmsg() is {rcv.pktInfo.ttl} whereas the TTL in the IPv4 header is {ipTTL}, overriding").modify
        fun pktInfo => { pktInfo with ttl := ipTTL }
  else rcv

def warnTrailing (udpSize remSize : SizeT) (rcv : Receiving) : Receiving :=
  if udpSize < remSize then
    rcv.warningTs
      s!"in packet {rcv.pktInfo.flow} UDP size {udpSize.toNat} is less than the size of the data after the IPv4 and UDP headers, which is {remSize.toNat}"
  else rcv

def processUdp (ipHdr udpHdr : ℕ) (pv : PacketView) (rcv : Receiving) :
    ReadM (PacketStatus × Receiving) := do
  let saddr ← IPv4HdrView.saddr ipHdr
  let sport ← UDPHdrView.sport udpHdr
  let dport ← UDPHdrView.dport udpHdr
  let ttl ← IPv4HdrView.ttl ipHdr
  let rcv := overrideTtl ttl.toNat (rcv.modify fun pktInfo => { pktInfo with
    source := IPv4Address.from_nl saddr
    sport := ntohs sport
    dport := ntohs dport })
  let remSize := pv.remaining
  let udpLen ← UDPHdrView.len udpHdr
  let udpSize := ntohs udpLen
  if udpSize.setWidth 64 < UDPHdrView.HdrSize then
    return (.AcceptedNoShow, rcv.warningTs
      s!"in packet {rcv.pktInfo.flow} UDP size {udpSize.toNat} is less than the UDP header size {UDPHdrView.HdrSize.toNat}")
  else
    let udpSize := udpSize - UDPHdrView.HdrSize.setWidth 16
    if udpSize.setWidth 64 > remSize then
      return (.AcceptedNoShow, rcv.warningTs
        s!"in packet {rcv.pktInfo.flow} UDP size {udpSize.toNat} is larger than the size of the data after the IPv4 and UDP headers, which is {remSize.toNat}")
    else
      let rcv := warnTrailing (udpSize.setWidth 64) remSize rcv
      let rcv ← dissectMclstBeaconPayload (rcv.modify fun pktInfo => { pktInfo with
        payload := pv.taken.toNat
        payloadSize := udpSize.setWidth 32 })
      return (.AcceptedShow, rcv)

def processHdrs (ipHdr : ℕ) (pv : PacketView) (rcv : Receiving) :
    ReadM (PacketStatus × Receiving) := do
  let effIPHdrSize ← IPv4HdrView.headerSizeBytes ipHdr
  if effIPHdrSize.setWidth 64 < IPv4HdrView.HdrSize then
    return (.AcceptedNoShow, rcv.warningTs
      s!"corrupted IPv4 header: header size in header is {effIPHdrSize.toNat} whereas the minimum header size is {IPv4HdrView.HdrSize.toNat}")
  else
    let skipCall := pv.skip (effIPHdrSize.setWidth 64 - IPv4HdrView.HdrSize)
    if !skipCall.returned then
      return (.AcceptedNoShow, rcv.warningTs
        s!"recvmsg() returned size {rcv.pktInfo.receivedSize.toNat} which is smaller than the actual IPv4 header size {IPv4HdrView.HdrSize.toNat}")
    else
      let pv : PacketView := skipCall.view
      let udpCall := pv.take UDPHdrView.HdrSize
      match udpCall.viewed with
      | none =>
        return (.AcceptedNoShow, rcv.warningTs
          s!"recvmsg() returned size {rcv.pktInfo.receivedSize.toNat} which is insufficient for IPv4 and UDP headers ({effIPHdrSize.toNat} + {UDPHdrView.HdrSize.toNat} = {effIPHdrSize.toNat + UDPHdrView.HdrSize.toNat})")
      | some udpHdr => processUdp ipHdr udpHdr udpCall.view rcv

/-- `groupNl` is the configured group in network byte order. -/
def processPacket (groupNl : BitVec 32) : ReceiverProvider := fun _ rcv => do
  let pv : PacketView := .mk' 0 (rcv.pktInfo.receivedSize.setWidth 64)
  let ipCall := pv.take IPv4HdrView.HdrSize
  match ipCall.viewed with
  | none =>
    return (.Filtered, rcv.warningTs
      s!"recvmsg() returned size {rcv.pktInfo.receivedSize.toNat} which is smaller than the minimum IPv4 header size {IPv4HdrView.HdrSize.toNat}")
  | some ipHdr =>
    let daddr ← IPv4HdrView.daddr ipHdr
    if daddr ≠ groupNl then return (.Filtered, rcv)
    else
      let protocol ← IPv4HdrView.protocol ipHdr
      if protocol ≠ UDPProto then return (.Filtered, rcv)
      else processHdrs ipHdr ipCall.view rcv

/-! ### The UDP datagram -/

/-- What is known of `pktInfo` when a packet is shown whose UDP header starts at `h`. -/
structure ShownPacket (data : List Byte) (h : ℕ) (pktInfo : PacketInfo) : Prop where
  source : pktInfo.source = ⟨beAt32 data 12⟩
  sport : pktInfo.sport = beAt16 data h
  dport : pktInfo.dport = beAt16 data (h + 2)
  ttl : pktInfo.ttl = (byteAt data 8).toNat
  payload : pktInfo.payload = h + 8
  payloadSize : pktInfo.payload + pktInfo.payloadSize.toNat = h + (beAt16 data (h + 4)).toNat
  inside : h + (beAt16 data (h + 4)).toNat ≤ data.length
  dissected : Dissected (pktInfo.payloadBytes data) pktInfo

/-- The UDP length `u` of the header at `h` has room for the header and fits the data. -/
def UdpFits (data : List Byte) (h : ℕ) : Prop :=
  8 ≤ (beAt16 data (h + 4)).toNat ∧ (beAt16 data (h + 4)).toNat - 8 ≤ data.length - h - 8

instance (data : List Byte) (h : ℕ) : Decidable (UdpFits data h) :=
  inferInstanceAs (Decidable (_ ∧ _))

theorem overrideTtl_pktInfo (ipTTL : ℤ) (rcv : Receiving) :
    (overrideTtl ipTTL rcv).pktInfo = { rcv.pktInfo with ttl := ipTTL } := by
  unfold overrideTtl
  split_ifs with h
  · rfl
  · rw [← not_not.mp h]

theorem warnTrailing_pktInfo (udpSize remSize : SizeT) (rcv : Receiving) :
    (warnTrailing udpSize remSize rcv).pktInfo = rcv.pktInfo := by
  unfold warnTrailing
  split_ifs <;> rfl

theorem setWidth_16_64 (v : BitVec 16) : (v.setWidth 64).toNat = v.toNat := by
  rw [BitVec.toNat_setWidth]
  omega

/-- The packet with the UDP header at `h` is shown if it `Fits`, and otherwise accepted unmarked. -/
structure ShownIf (data : List Byte) (h : ℕ) (Fits : Prop)
    (m : ReadM (PacketStatus × Receiving)) : Prop where
  fits : Fits → ∃ rcv', m.run data = .ok (.AcceptedShow, rcv') ∧ ShownPacket data h rcv'.pktInfo
  unfit : ¬ Fits → ∃ rcv', m.run data = .ok (.AcceptedNoShow, rcv') ∧
    rcv'.pktInfo.mclstBeacon = false

namespace ShownIf

variable {data : List Byte} {h : ℕ} {Fits : Prop}

theorem bind {α : Type} {m : ReadM α} {a : α} {f : α → ReadM (PacketStatus × Receiving)}
    (hrun : m.run data = .ok a) (hf : ShownIf data h Fits (f a)) :
    ShownIf data h Fits (m >>= f) where
  fits := by
    rw [read_bind_ok hrun]
    exact hf.fits
  unfit := by
    rw [read_bind_ok hrun]
    exact hf.unfit

theorem refused {rcv : Receiving} (hnot : ¬ Fits) (hflag : rcv.pktInfo.mclstBeacon = false) :
    ShownIf data h Fits (return (.AcceptedNoShow, rcv)) where
  fits := fun hfits => absurd hfits hnot
  unfit := fun _ => ⟨rcv, rfl, hflag⟩

theorem shown {m : ReadM Receiving} {rcv : Receiving} (hfits : Fits) (hrun : m.run data = .ok rcv)
    (hpacket : ShownPacket data h rcv.pktInfo) :
    ShownIf data h Fits (do return (.AcceptedShow, ← m)) :=
  bind hrun
    { fits := fun _ => ⟨rcv, rfl, hpacket⟩
      unfit := fun hnot => absurd hfits hnot }

theorem congr {Fits' : Prop} {m : ReadM (PacketStatus × Receiving)} (hiff : Fits' ↔ Fits)
    (hm : ShownIf data h Fits m) : ShownIf data h Fits' m where
  fits := fun hfits => hm.fits (hiff.mp hfits)
  unfit := fun hnot => hm.unfit fun hfits => hnot (hiff.mpr hfits)

end ShownIf

/-- What `processUdp` has found out before it looks into the payload. -/
structure BeforePayload (data : List Byte) (h : ℕ) (pktInfo : PacketInfo) : Prop where
  source : pktInfo.source = ⟨beAt32 data 12⟩
  sport : pktInfo.sport = beAt16 data h
  dport : pktInfo.dport = beAt16 data (h + 2)
  ttl : pktInfo.ttl = (byteAt data 8).toNat
  payload : pktInfo.payload = h + 8
  payloadSize : pktInfo.payloadSize.toNat = (beAt16 data (h + 4)).toNat - 8
  mclstBeacon : pktInfo.mclstBeacon = false

theorem BeforePayload.dissect {data : List Byte} {h : ℕ} {rcv : Receiving}
    (hb : BeforePayload data h rcv.pktInfo) (hudp : h + 8 ≤ data.length) (hfits : UdpFits data h) :
    ∃ rcv', (dissectMclstBeaconPayload rcv).run data = .ok rcv' ∧
      ShownPacket data h rcv'.pktInfo := by
  obtain ⟨hroom, hinside⟩ := hfits
  have hpayload := hb.payload
  have hsize := hb.payloadSize
  obtain ⟨rcv', hrun, hdissected, hsame⟩ := dissectMclstBeaconPayload_spec data rcv
    hb.mclstBeacon (by omega)
  have hpayload' : rcv'.pktInfo.payload = h + 8 :=
    (congrArg PacketInfo.payload hsame).trans hpayload
  have hsize' : rcv'.pktInfo.payloadSize.toNat = (beAt16 data (h + 4)).toNat - 8 := by
    rw [← hsize]
    exact congrArg (fun p => p.payloadSize.toNat) hsame
  have hbytes : rcv'.pktInfo.payloadBytes data = rcv.pktInfo.payloadBytes data := by
    unfold PacketInfo.payloadBytes
    rw [hpayload', hsize', hpayload, hsize]
  refine ⟨rcv', hrun, ?_⟩
  exact
    { source := (congrArg PacketInfo.source hsame).trans hb.source
      sport := (congrArg PacketInfo.sport hsame).trans hb.sport
      dport := (congrArg PacketInfo.dport hsame).trans hb.dport
      ttl := (congrArg PacketInfo.ttl hsame).trans hb.ttl
      payload := hpayload'
      payloadSize := by omega
      inside := by omega
      dissected := by rw [hbytes]; exact hdissected }

theorem udpLen_lt_hdr (u : BitVec 16) : u.setWidth 64 < UDPHdrView.HdrSize ↔ u.toNat < 8 := by
  have hhdr : UDPHdrView.HdrSize.toNat = 8 := rfl
  rw [BitVec.lt_def, setWidth_16_64, hhdr]

theorem udpSize_toNat {u : BitVec 16} (h : ¬ u.toNat < 8) :
    (u - UDPHdrView.HdrSize.setWidth 16).toNat = u.toNat - 8 := by
  have hhdr : (UDPHdrView.HdrSize.setWidth 16).toNat = 8 := rfl
  rw [BitVec.toNat_sub_of_le (BitVec.le_def.mpr (by omega)), hhdr]

theorem processUdp_spec {data : List Byte} {h : ℕ} (pv : PacketView) (rcv : Receiving)
    (hip : 20 ≤ data.length) (hudp : h + 8 ≤ data.length)
    (htaken : pv.taken_.toNat = h + 8) (hlen : pv.len_.toNat = data.length)
    (hflag : rcv.pktInfo.mclstBeacon = false) :
    ShownIf data h (UdpFits data h) (processUdp 0 h pv rcv) := by
  obtain ⟨saddr, hsaddr, hsaddr_eq⟩ := u32At_run data (0 + 12) (by omega)
  obtain ⟨sport, hsport, hsport_eq⟩ := u16At_run data h (by omega)
  obtain ⟨dport, hdport, hdport_eq⟩ := u16At_run data (h + 2) (by omega)
  have httl := u8At_run data (0 + 8) (by omega)
  obtain ⟨udpLen, hudpLen, hudpLen_eq⟩ := u16At_run data (h + 4) (by omega)
  obtain ⟨u, hu⟩ : ∃ u, u = beAt16 data (h + 4) := ⟨_, rfl⟩
  have hult := u.isLt
  have hrem : pv.remaining.toNat = data.length - (h + 8) := by
    rw [DataView.remaining_toNat (by omega), htaken, hlen]
  have hfits : UdpFits data h ↔ 8 ≤ u.toNat ∧ u.toNat - 8 ≤ data.length - h - 8 := by
    rw [hu]
    rfl
  unfold processUdp
  apply ShownIf.bind hsaddr
  apply ShownIf.bind hsport
  apply ShownIf.bind hdport
  apply ShownIf.bind httl
  apply ShownIf.bind hudpLen
  rw [hsport_eq, hdport_eq, hudpLen_eq, ← hu]
  obtain ⟨rcv₁, hrcv₁⟩ : ∃ rcv₁, rcv₁ = overrideTtl (byteAt data (0 + 8)).toNat
    (rcv.modify fun pktInfo => { pktInfo with
      source := IPv4Address.from_nl saddr
      sport := beAt16 data h
      dport := beAt16 data (h + 2) }) := ⟨_, rfl⟩
  have hinfo₁ : rcv₁.pktInfo = { rcv.pktInfo with
      source := IPv4Address.from_nl saddr
      sport := beAt16 data h
      dport := beAt16 data (h + 2)
      ttl := (byteAt data 8).toNat } := by
    rw [hrcv₁, overrideTtl_pktInfo]
    rfl
  have hflag₁ : rcv₁.pktInfo.mclstBeacon = false := by
    rw [hinfo₁]
    exact hflag
  simp only [← hrcv₁]
  by_cases h8 : u.toNat < 8
  · rw [if_pos ((udpLen_lt_hdr u).mpr h8)]
    exact .refused (by rw [hfits]; omega) hflag₁
  · rw [if_neg (fun hlt => h8 ((udpLen_lt_hdr u).mp hlt))]
    obtain ⟨udpSize, hudpSize⟩ : ∃ udpSize, udpSize = u - UDPHdrView.HdrSize.setWidth 16 := ⟨_, rfl⟩
    have hudpSize_toNat : udpSize.toNat = u.toNat - 8 := hudpSize ▸ udpSize_toNat h8
    have hbig : udpSize.setWidth 64 > pv.remaining ↔ data.length - (h + 8) < u.toNat - 8 := by
      rw [gt_iff_lt, BitVec.lt_def, setWidth_16_64, hudpSize_toNat, hrem]
    rw [← hudpSize]
    by_cases hover : data.length - (h + 8) < u.toNat - 8
    · rw [if_pos (hbig.mpr hover)]
      exact .refused (by rw [hfits]; omega) hflag₁
    · rw [if_neg (fun hgt => hover (hbig.mp hgt))]
      have hfitting : UdpFits data h := hfits.mpr ⟨by omega, by omega⟩
      obtain ⟨rcv₂, hrcv₂⟩ : ∃ rcv₂ : Receiving, rcv₂ =
        (warnTrailing (udpSize.setWidth 64) pv.remaining rcv₁).modify fun pktInfo =>
          { pktInfo with
            payload := pv.taken.toNat
            payloadSize := udpSize.setWidth 32 } := ⟨_, rfl⟩
      have hinfo₂ : rcv₂.pktInfo = { rcv₁.pktInfo with
          payload := pv.taken.toNat
          payloadSize := udpSize.setWidth 32 } := by
        rw [hrcv₂, Receiving.modify_pktInfo, warnTrailing_pktInfo]
      have hbefore : BeforePayload data h rcv₂.pktInfo := by
        rw [hinfo₂, hinfo₁]
        exact
          { source := congrArg IPv4Address.mk hsaddr_eq
            sport := rfl
            dport := rfl
            ttl := rfl
            payload := htaken
            payloadSize := by
              show (udpSize.setWidth 32).toNat = _
              rw [BitVec.toNat_setWidth, hudpSize_toNat, ← hu]
              omega
            mclstBeacon := hflag }
      obtain ⟨rcv', hrun, hpacket⟩ := hbefore.dissect hudp hfitting
      rw [← hrcv₂]
      exact .shown hfitting hrun hpacket

/-! ### The IPv4 header -/

/-- The size in bytes that the IHL says. -/
def hdrBytes (data : List Byte) : ℕ := 4 * ((byteAt data 0).toNat % 16)

theorem extractBits_ihl (b : Byte) : (extractBits 0 4 b).toNat = b.toNat % 16 := by
  unfold extractBits
  rw [BitVec.toNat_and, BitVec.toNat_ushiftRight]
  exact Nat.and_two_pow_sub_one_eq_mod b.toNat 4

theorem headerSizeBytes_run (data : List Byte) (h : 0 < data.length) :
    ∃ v, (IPv4HdrView.headerSizeBytes 0).run data = .ok v ∧ v.toNat = hdrBytes data := by
  refine ⟨(extractBits 0 4 (byteAt data 0)).setWidth 16 <<< 2, ?_, ?_⟩
  · unfold IPv4HdrView.headerSizeBytes IPv4HdrView.ihl
    have hihl : ((do let b ← u8At 0; return extractBits 0 4 b : ReadM Byte)).run data =
        .ok (extractBits 0 4 (byteAt data 0)) := by
      rw [read_bind_ok (u8At_run data 0 h)]
      rfl
    rw [read_bind_ok hihl]
    rfl
  · have hlow := extractBits_ihl (byteAt data 0)
    unfold hdrBytes
    rw [BitVec.toNat_shiftLeft, BitVec.toNat_setWidth, Nat.shiftLeft_eq]
    omega

/-- The datagrams whose UDP payload lies inside the data. -/
def WellFormed (data : List Byte) : Prop :=
  20 ≤ hdrBytes data ∧ hdrBytes data + 8 ≤ data.length ∧ UdpFits data (hdrBytes data)

instance (data : List Byte) : Decidable (WellFormed data) :=
  inferInstanceAs (Decidable (_ ∧ _ ∧ _))

theorem processHdrs_spec {data : List Byte} {len : SizeT} (rcv : Receiving)
    (hip : 20 ≤ data.length) (hlen : len.toNat = data.length)
    (hflag : rcv.pktInfo.mclstBeacon = false) :
    ShownIf data (hdrBytes data) (WellFormed data) (processHdrs 0 ⟨0, len, 20⟩ rcv) := by
  obtain ⟨size, hsize, hsize_eq⟩ := headerSizeBytes_run data (by omega)
  obtain ⟨h, hh⟩ : ∃ h, h = hdrBytes data := ⟨_, rfl⟩
  have hltlen := len.isLt
  have hltsize := size.isLt
  have hHdr : IPv4HdrView.HdrSize.toNat = 20 := rfl
  have hUdp : UDPHdrView.HdrSize.toNat = 8 := rfl
  have htwenty : (20 : SizeT).toNat = 20 := rfl
  have hsmall : size.setWidth 64 < IPv4HdrView.HdrSize ↔ h < 20 := by
    rw [BitVec.lt_def, setWidth_16_64, hsize_eq, hHdr, hh]
  unfold processHdrs WellFormed
  apply ShownIf.bind hsize
  rw [← hh]
  by_cases h20 : h < 20
  · rw [if_pos (hsmall.mpr h20)]
    exact .refused (fun hwell => absurd hwell.1 (by omega)) hflag
  · rw [if_neg (fun hlt => h20 (hsmall.mp hlt))]
    obtain ⟨opts, hopts⟩ : ∃ opts, opts = size.setWidth 64 - IPv4HdrView.HdrSize := ⟨_, rfl⟩
    have hopts_toNat : opts.toNat = h - 20 := by
      have hsize64 := setWidth_16_64 size
      rw [hopts, BitVec.toNat_sub_of_le (BitVec.le_def.mpr (by omega)), hsize64, hsize_eq, hHdr, hh]
    simp only [← hopts]
    by_cases hskip : h ≤ data.length
    · have hcall : PacketView.skip ⟨0, len, 20⟩ opts = ⟨true, none, ⟨0, len, 20 + opts⟩⟩ :=
        DataView.advance_accept _ (by show (20 : SizeT).toNat + _ ≤ len.toNat; omega)
      have hskipped : ((20 : SizeT) + opts).toNat = h := by
        rw [BitVec.toNat_add_of_lt (by omega), htwenty]
        omega
      simp only [hcall, Bool.not_true, Bool.false_eq_true, if_false]
      by_cases htake : h + 8 ≤ data.length
      · have hcall' : PacketView.take ⟨0, len, 20 + opts⟩ UDPHdrView.HdrSize =
            ⟨true, some (0 + (20 + opts).toNat), ⟨0, len, 20 + opts + UDPHdrView.HdrSize⟩⟩ :=
          DataView.advance_accept _ (by show (20 + opts).toNat + _ ≤ len.toNat; omega)
        have htaken : (20 + opts + UDPHdrView.HdrSize).toNat = h + 8 := by
          rw [BitVec.toNat_add_of_lt (by omega), hskipped, hUdp]
        have hspec := processUdp_spec ⟨0, len, 20 + opts + UDPHdrView.HdrSize⟩ rcv
          hip htake htaken hlen hflag
        simp only [hcall', hskipped, Nat.zero_add]
        exact hspec.congr ⟨fun hwell => hwell.2.2, fun hfits => ⟨by omega, htake, hfits⟩⟩
      · have hcall' : PacketView.take ⟨0, len, 20 + opts⟩ UDPHdrView.HdrSize =
            ⟨false, none, ⟨0, len, 20 + opts⟩⟩ :=
          DataView.advance_refuse _ (by show (20 + opts).toNat + _ < _; omega)
            (by show len.toNat < (20 + opts).toNat + _; omega)
        simp only [hcall']
        exact .refused (fun hwell => htake hwell.2.1) hflag
    · have hcall : PacketView.skip ⟨0, len, 20⟩ opts = ⟨false, none, ⟨0, len, 20⟩⟩ :=
        DataView.advance_refuse _ (by show (20 : SizeT).toNat + _ < _; omega)
          (by show len.toNat < (20 : SizeT).toNat + _; omega)
      simp only [hcall, Bool.not_false, if_true]
      exact .refused (fun hwell => absurd hwell.2.1 (by omega)) hflag

/-- The datagrams that the receiver drops. -/
def Foreign (group : IPv4Address) (data : List Byte) : Prop :=
  data.length < 20 ∨ beAt32 data 16 ≠ group.addr ∨ byteAt data 9 ≠ 17

instance (group : IPv4Address) (data : List Byte) : Decidable (Foreign group data) :=
  inferInstanceAs (Decidable (_ ∨ _ ∨ _))

structure Processed (group : IPv4Address) (data : List Byte) (status : PacketStatus)
    (rcv' : Receiving) : Prop where
  filtered : status = .Filtered ↔ Foreign group data
  shown : status = .AcceptedShow ↔ ¬ Foreign group data ∧ WellFormed data
  packet : status = .AcceptedShow → ShownPacket data (hdrBytes data) rcv'.pktInfo
  noBeacon : status ≠ .AcceptedShow → rcv'.pktInfo.mclstBeacon = false

theorem processed_filtered {group : IPv4Address} {data : List Byte} {rcv' : Receiving}
    (h : Foreign group data) (hflag : rcv'.pktInfo.mclstBeacon = false) :
    Processed group data .Filtered rcv' where
  filtered := iff_of_true rfl h
  shown := iff_of_false (by decide) fun hshown => hshown.1 h
  packet := fun hstatus => nomatch hstatus
  noBeacon := fun _ => hflag

theorem processed_noShow {group : IPv4Address} {data : List Byte} {rcv' : Receiving}
    (h : ¬ Foreign group data) (hnot : ¬ WellFormed data)
    (hflag : rcv'.pktInfo.mclstBeacon = false) : Processed group data .AcceptedNoShow rcv' where
  filtered := iff_of_false (by decide) h
  shown := iff_of_false (by decide) fun hshown => hnot hshown.2
  packet := fun hstatus => nomatch hstatus
  noBeacon := fun _ => hflag

theorem processed_show {group : IPv4Address} {data : List Byte} {rcv' : Receiving}
    (h : ¬ Foreign group data) (hwell : WellFormed data)
    (hpacket : ShownPacket data (hdrBytes data) rcv'.pktInfo) :
    Processed group data .AcceptedShow rcv' where
  filtered := iff_of_false (by decide) h
  shown := iff_of_true rfl ⟨h, hwell⟩
  packet := fun _ => hpacket
  noBeacon := fun hne => absurd rfl hne

theorem Processed.status_unique {group : IPv4Address} {data : List Byte}
    {status status' : PacketStatus} {rcv rcv' : Receiving} (h : Processed group data status rcv)
    (h' : Processed group data status' rcv') : status = status' := by
  have hfiltered := h.filtered.trans h'.filtered.symm
  have hshown := h.shown.trans h'.shown.symm
  cases status <;> cases status' <;> simp at hfiltered hshown ⊢

theorem processPacket_spec (group : IPv4Address) (sender : SockAddrIn) (data : List Byte)
    (rcv : Receiving) (hsize : rcv.pktInfo.receivedSize.toNat = data.length)
    (hflag : rcv.pktInfo.mclstBeacon = false) :
    ∃ status rcv', (processPacket group.to_nl sender rcv).run data = .ok (status, rcv') ∧
      Processed group data status rcv' := by
  obtain ⟨len, hlen⟩ : ∃ len : SizeT, len = rcv.pktInfo.receivedSize.setWidth 64 := ⟨_, rfl⟩
  have hlen_toNat : len.toNat = data.length := by
    have hlt := rcv.pktInfo.receivedSize.isLt
    rw [hlen, BitVec.toNat_setWidth, hsize]
    omega
  have hltlen := len.isLt
  have hip : IPv4HdrView.HdrSize.toNat = 20 := rfl
  have hudp : UDPHdrView.HdrSize.toNat = 8 := rfl
  have hzero : (0 : SizeT).toNat = 0 := rfl
  unfold processPacket
  rw [← hlen]
  by_cases hshort : data.length < 20
  · have htake : PacketView.take (.mk' 0 len) IPv4HdrView.HdrSize = ⟨false, none, .mk' 0 len⟩ :=
      DataView.advance_refuse _ (by show (0 : SizeT).toNat + _ < _; omega)
        (by show len.toNat < (0 : SizeT).toNat + _; omega)
    simp only [htake]
    exact ⟨_, _, rfl, processed_filtered (Or.inl hshort) hflag⟩
  · have htake : PacketView.take (.mk' 0 len) IPv4HdrView.HdrSize = ⟨true, some 0, ⟨0, len, 20⟩⟩ :=
      DataView.advance_accept _ (by show (0 : SizeT).toNat + _ ≤ len.toNat; omega)
    obtain ⟨daddr, hdaddr, hdaddr_eq⟩ := u32At_run data (0 + 16) (by omega)
    have hprotocol := u8At_run data (0 + 9) (by omega)
    have hgroup : daddr = group.to_nl ↔ beAt32 data 16 = group.addr := by
      apply Iff.intro
      · intro heq
        rw [heq] at hdaddr_eq
        exact hdaddr_eq.symm.trans (htonl_htonl group.addr)
      · intro heq
        have hswap := htonl_htonl daddr
        have hval : htonl daddr = group.addr := hdaddr_eq.trans heq
        rw [hval] at hswap
        exact hswap.symm
    simp only [htake]
    unfold IPv4HdrView.daddr IPv4HdrView.protocol UDPProto
    rw [read_bind_ok hdaddr]
    by_cases hdst : beAt32 data 16 = group.addr
    · rw [if_neg (not_not.mpr (hgroup.mpr hdst)), read_bind_ok hprotocol]
      by_cases hproto : byteAt data 9 = 17
      · have hspec := processHdrs_spec rcv (by omega) hlen_toNat hflag
        have hours : ¬ Foreign group data := by
          intro h
          rcases h with h | h | h
          · exact hshort h
          · exact h hdst
          · exact h hproto
        rw [if_neg (not_not.mpr hproto)]
        by_cases hwell : WellFormed data
        · obtain ⟨rcv', hrun, hpacket⟩ := hspec.fits hwell
          exact ⟨_, rcv', hrun, processed_show hours hwell hpacket⟩
        · obtain ⟨rcv', hrun, hflag'⟩ := hspec.unfit hwell
          exact ⟨_, rcv', hrun, processed_noShow hours hwell hflag'⟩
      · rw [if_pos hproto]
        exact ⟨_, _, rfl, processed_filtered (Or.inr (Or.inr hproto)) hflag⟩
    · rw [if_pos fun heq => hdst (hgroup.mp heq)]
      exact ⟨_, _, rfl, processed_filtered (Or.inr (Or.inl hdst)) hflag⟩

theorem receive_processed (group : IPv4Address) (recvTime : BitVec 64) (msg : Datagram)
    (rcv : Receiving) :
    ∃ status rcv', receive (processPacket group.to_nl) recvTime msg rcv = .ok (status, rcv') ∧
      Processed group msg.data status rcv' := by
  have hfresh := receivedInfo_fresh recvTime msg rcv.pktInfo
  exact processPacket_spec group msg.sender msg.data _ hfresh.receivedSize hfresh.mclstBeacon

/-- No read is outside the data received, and the three lengths decide the status. -/
theorem receive_exact (group : IPv4Address) (recvTime : BitVec 64) (msg : Datagram)
    (rcv : Receiving) :
    ∃ status rcv', receive (processPacket group.to_nl) recvTime msg rcv = .ok (status, rcv') ∧
      (status = .Filtered ↔ Foreign group msg.data) ∧
      (status = .AcceptedShow ↔ ¬ Foreign group msg.data ∧ WellFormed msg.data) ∧
      (status = .AcceptedNoShow ↔ ¬ Foreign group msg.data ∧ ¬ WellFormed msg.data) ∧
      (status = .AcceptedShow → ShownPacket msg.data (hdrBytes msg.data) rcv'.pktInfo) := by
  obtain ⟨status, rcv', hrun, hprocessed⟩ := receive_processed group recvTime msg rcv
  have hfiltered := hprocessed.filtered
  have hshown := hprocessed.shown
  refine ⟨status, rcv', hrun, hfiltered, hshown, ?_, hprocessed.packet⟩
  cases status with
  | Filtered => exact iff_of_false (by decide) fun h => h.1 (hfiltered.mp rfl)
  | AcceptedNoShow =>
    have hours : ¬ Foreign group msg.data := fun h => nomatch hfiltered.mpr h
    exact iff_of_true rfl ⟨hours, fun hwell => nomatch hshown.mpr ⟨hours, hwell⟩⟩
  | AcceptedShow => exact iff_of_false (by decide) fun h => h.2 (hshown.mp rfl).2

end IPRawReceiver

end Pimc.Mclst
