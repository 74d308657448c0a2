import Pimc.Mclst.IPRawReceiver
import Pimc.Mclst.Sender

/-!
# Beacons from the sender to the receivers

What `Sender` assembles is a beacon for `dissectMclstBeaconPayload`, and the
outcome is a function of the datagram.
-/

namespace Pimc.Mclst

open Lib Sender

/-! ### Reading a packet back -/

theorem beAt16_be16 (front back : List Byte) (v : BitVec 16) :
    beAt16 (front ++ (be16 v ++ back)) front.length = v := by
  have h0 := byteAt_append_right front (be16 v ++ back) 0
  have h1 := byteAt_append_right front (be16 v ++ back) 1
  rw [Nat.add_zero] at h0
  unfold beAt16
  rw [h0, h1]
  exact append_extract16 v

theorem beAt32_be32 (front back : List Byte) (v : BitVec 32) :
    beAt32 (front ++ (be32 v ++ back)) front.length = v := by
  have h0 := byteAt_append_right front (be32 v ++ back) 0
  have h1 := byteAt_append_right front (be32 v ++ back) 1
  have h2 := byteAt_append_right front (be32 v ++ back) 2
  have h3 := byteAt_append_right front (be32 v ++ back) 3
  rw [Nat.add_zero] at h0
  unfold beAt32
  rw [h0, h1, h2, h3]
  exact append_extract32 v

theorem beAt64_be64 (front back : List Byte) (v : BitVec 64) :
    beAt64 (front ++ (be64 v ++ back)) front.length = v := by
  have hhigh : beAt32 (front ++ (be64 v ++ back)) front.length = v.extractLsb' 32 32 := by
    unfold be64
    rw [List.append_assoc]
    exact beAt32_be32 front _ _
  have hlow : beAt32 (front ++ (be64 v ++ back)) (front.length + 4) = v.extractLsb' 0 32 := by
    have hrun := beAt32_be32 (front ++ be32 (v.extractLsb' 32 32)) back (v.extractLsb' 0 32)
    rw [List.length_append, List.append_assoc] at hrun
    unfold be64
    rw [List.append_assoc]
    exact hrun
  unfold beAt64
  rw [hhigh, hlow]
  exact append_extract64 v

theorem packet_length (hostname : List Byte) (timeNs seq : BitVec 64) :
    (packet hostname timeNs seq).length = 26 + hostname.length := by
  unfold packet
  simp only [List.length_append, be64_length, be16_length]

theorem packet_magic (hostname : List Byte) (timeNs seq : BitVec 64) :
    beAt64 (packet hostname timeNs seq) 0 = MclstMagic := by
  unfold packet
  simp only [List.append_assoc]
  exact beAt64_be64 [] _ MclstMagic

theorem packet_seq (hostname : List Byte) (timeNs seq : BitVec 64) :
    beAt64 (packet hostname timeNs seq) 8 = seq := by
  unfold packet
  simp only [List.append_assoc]
  exact beAt64_be64 (be64 MclstMagic) _ seq

theorem packet_timeNs (hostname : List Byte) (timeNs seq : BitVec 64) :
    beAt64 (packet hostname timeNs seq) 16 = timeNs := by
  have h := beAt64_be64 (be64 MclstMagic ++ be64 seq)
    (be16 (BitVec.ofNat 16 hostname.length) ++ hostname) timeNs
  unfold packet
  simp only [List.append_assoc] at h ⊢
  exact h

theorem packet_dataLen {hostname : List Byte} (timeNs seq : BitVec 64)
    (hfits : hostname.length < 1024) :
    (beAt16 (packet hostname timeNs seq) 24).toNat = hostname.length := by
  have h := beAt16_be16 (be64 MclstMagic ++ be64 seq ++ be64 timeNs) hostname
    (BitVec.ofNat 16 hostname.length)
  have hrun : beAt16 (packet hostname timeNs seq) 24 = BitVec.ofNat 16 hostname.length := by
    unfold packet
    simp only [List.append_assoc] at h ⊢
    exact h
  rw [hrun, BitVec.toNat_ofNat, Nat.mod_eq_of_lt (by omega)]

theorem packet_message (hostname : List Byte) (timeNs seq : BitVec 64) :
    (packet hostname timeNs seq).drop 26 = hostname := by
  unfold packet
  exact List.drop_left' rfl

theorem packet_isBeacon {hostname : List Byte} (timeNs seq : BitVec 64)
    (hfits : hostname.length < 1024) : IsBeacon (packet hostname timeNs seq) := by
  have hlen := packet_length hostname timeNs seq
  have hdata := packet_dataLen timeNs seq hfits
  refine ⟨by omega, packet_magic hostname timeNs seq, ?_⟩
  omega

/-! ### What a receiver makes of it -/

/-- The bytes of the message that `pktInfo` points at. -/
def PacketInfo.message (pktInfo : PacketInfo) (mem : List Byte) : List Byte :=
  (mem.drop pktInfo.remoteMsg).take pktInfo.remoteMsgLen.toNat

/-- `pktInfo` shows the beacon that the sender has sent. -/
structure Recognised (hostname : List Byte) (timeNs seq : BitVec 64) (mem : List Byte)
    (pktInfo : PacketInfo) : Prop where
  mclstBeacon : pktInfo.mclstBeacon = true
  remoteSeq : pktInfo.remoteSeq = seq
  remoteTimestamp : pktInfo.remoteTimestamp = timeNs
  message : pktInfo.message mem = hostname

theorem recognised_of_dissected {hostname mem : List Byte} {timeNs seq : BitVec 64}
    {pktInfo : PacketInfo} (hfits : hostname.length < 1024)
    (hpayload : pktInfo.payloadBytes mem = packet hostname timeNs seq)
    (h : Dissected (pktInfo.payloadBytes mem) pktInfo) :
    Recognised hostname timeNs seq mem pktInfo := by
  rw [hpayload] at h
  have hflag := h.beacon.mpr (packet_isBeacon timeNs seq hfits)
  have hfields := h.fields hflag
  have hsize : pktInfo.remoteMsgLen.toNat = hostname.length :=
    hfields.remoteMsgLen.trans (packet_dataLen timeNs seq hfits)
  have hmessage : pktInfo.message mem = hostname := by
    have hlen := congrArg List.length hpayload
    have hdrop := congrArg (List.drop 26) hpayload
    rw [packet_length] at hlen
    rw [packet_message] at hdrop
    unfold PacketInfo.payloadBytes at hlen hdrop
    rw [List.length_take, List.length_drop] at hlen
    rw [List.drop_take, List.drop_drop] at hdrop
    have hle : hostname.length ≤ pktInfo.payloadSize.toNat - 26 := by omega
    unfold PacketInfo.message
    rw [hfields.remoteMsg, hsize]
    calc (mem.drop (pktInfo.payload + 26)).take hostname.length
        = ((mem.drop (pktInfo.payload + 26)).take (pktInfo.payloadSize.toNat - 26)).take
            hostname.length := by rw [List.take_take, min_eq_left hle]
      _ = hostname := by rw [hdrop, List.take_length]
  exact ⟨hflag, hfields.remoteSeq.trans (packet_seq hostname timeNs seq),
    hfields.remoteTimestamp.trans (packet_timeNs hostname timeNs seq), hmessage⟩

/-- Two receivers agree on what they take for a beacon. -/
structure SameBeacon (pktInfo pktInfo' : PacketInfo) : Prop where
  mclstBeacon : pktInfo.mclstBeacon = pktInfo'.mclstBeacon
  fields : pktInfo.mclstBeacon = true → pktInfo.remoteSeq = pktInfo'.remoteSeq ∧
    pktInfo.remoteTimestamp = pktInfo'.remoteTimestamp ∧
    pktInfo.remoteMsgLen = pktInfo'.remoteMsgLen ∧ pktInfo.remoteMsg = pktInfo'.remoteMsg

theorem sameBeacon_of_dissected {payload : List Byte} {pktInfo pktInfo' : PacketInfo}
    (h : Dissected payload pktInfo) (h' : Dissected payload pktInfo')
    (hpayload : pktInfo.payload = pktInfo'.payload) : SameBeacon pktInfo pktInfo' where
  mclstBeacon := Bool.eq_iff_iff.mpr (h.beacon.trans h'.beacon.symm)
  fields := by
    intro hflag
    have hfields := h.fields hflag
    have hfields' := h'.fields (h'.beacon.mpr (h.beacon.mp hflag))
    refine ⟨?_, ?_, ?_, ?_⟩
    · rw [hfields.remoteSeq, hfields'.remoteSeq]
    · rw [hfields.remoteTimestamp, hfields'.remoteTimestamp]
    · exact BitVec.eq_of_toNat_eq (hfields.remoteMsgLen.trans hfields'.remoteMsgLen.symm)
    · rw [hfields.remoteMsg, hfields'.remoteMsg, hpayload]

inductive ReceiverKind where
  | receiver (dport : BitVec 16)
  | ipRawReceiver (group : IPv4Address)

def ReceiverKind.processPacket : ReceiverKind → ReceiverProvider
  | receiver dport => Receiver.processPacket dport
  | ipRawReceiver group => IPRawReceiver.processPacket group.to_nl

theorem receive_sameBeacon (kind : ReceiverKind) (recvTime : BitVec 64) (msg : Datagram)
    (rcv₁ rcv₂ : Receiving) :
    ∃ status rcv₁' rcv₂', receive kind.processPacket recvTime msg rcv₁ = .ok (status, rcv₁') ∧
      receive kind.processPacket recvTime msg rcv₂ = .ok (status, rcv₂') ∧
      SameBeacon rcv₁'.pktInfo rcv₂'.pktInfo := by
  cases kind with
  | receiver dport =>
    obtain ⟨rcv₁', hrun₁, _, hpayload₁, h₁⟩ := receive_receiver dport recvTime msg rcv₁
    obtain ⟨rcv₂', hrun₂, _, hpayload₂, h₂⟩ := receive_receiver dport recvTime msg rcv₂
    exact ⟨_, rcv₁', rcv₂', hrun₁, hrun₂,
      sameBeacon_of_dissected h₁ h₂ (hpayload₁.trans hpayload₂.symm)⟩
  | ipRawReceiver group =>
    obtain ⟨status₁, rcv₁', hrun₁, h₁⟩ :=
      IPRawReceiver.receive_processed group recvTime msg rcv₁
    obtain ⟨status₂, rcv₂', hrun₂, h₂⟩ :=
      IPRawReceiver.receive_processed group recvTime msg rcv₂
    have hstatus : status₁ = status₂ := h₁.status_unique h₂
    refine ⟨status₁, rcv₁', rcv₂', hrun₁, hstatus ▸ hrun₂, ?_⟩
    by_cases hshow : status₁ = .AcceptedShow
    · have hp₁ := h₁.packet hshow
      have hp₂ := h₂.packet (hstatus ▸ hshow)
      have hpayload : rcv₁'.pktInfo.payload = rcv₂'.pktInfo.payload :=
        hp₁.payload.trans hp₂.payload.symm
      have hbytes : rcv₁'.pktInfo.payloadBytes msg.data = rcv₂'.pktInfo.payloadBytes msg.data := by
        have hsize₁ := hp₁.payloadSize
        have hsize₂ := hp₂.payloadSize
        have hsize : rcv₁'.pktInfo.payloadSize.toNat = rcv₂'.pktInfo.payloadSize.toNat := by omega
        unfold PacketInfo.payloadBytes
        rw [hpayload, hsize]
      exact sameBeacon_of_dissected hp₁.dissected (hbytes ▸ hp₂.dissected) hpayload
    · have hflag₁ := h₁.noBeacon hshow
      have hflag₂ := h₂.noBeacon (hstatus ▸ hshow)
      refine ⟨hflag₁.trans hflag₂.symm, ?_⟩
      intro htrue
      rw [hflag₁] at htrue
      cases htrue

theorem receive_dissected (kind : ReceiverKind) (recvTime : BitVec 64) (msg : Datagram)
    (rcv : Receiving) :
    ∃ status rcv', receive kind.processPacket recvTime msg rcv = .ok (status, rcv') ∧
      (status = .AcceptedShow → Dissected (rcv'.pktInfo.payloadBytes msg.data) rcv'.pktInfo) ∧
      (status ≠ .AcceptedShow → rcv'.pktInfo.mclstBeacon = false) := by
  cases kind with
  | receiver dport =>
    obtain ⟨rcv', hrun, hbytes, _, h⟩ := receive_receiver dport recvTime msg rcv
    rw [← hbytes] at h
    exact ⟨_, rcv', hrun, fun _ => h, fun hne => absurd rfl hne⟩
  | ipRawReceiver group =>
    obtain ⟨status, rcv', hrun, h⟩ := IPRawReceiver.receive_processed group recvTime msg rcv
    exact ⟨status, rcv', hrun, fun hshow => (h.packet hshow).dissected, h.noBeacon⟩

/-! ### The dissection is exact -/

def assembleAll (pktSize : SizeT) : List (BitVec 64 × BitVec 64) → MemM Unit
  | [] => pure ()
  | (timeNs, seq) :: rest => do
    let _ ← assemble pktSize timeNs seq
    assembleAll pktSize rest

/-- The packet that the sender assembles after `earlier` ones. -/
def nextPacket (hostname : List Byte) (earlier : List (BitVec 64 × BitVec 64))
    (timeNs seq : BitVec 64) : MemM (List Byte) := do
  let pktSize ← init hostname
  assembleAll pktSize earlier
  assemble pktSize timeNs seq

theorem assembleAll_run {hostname : List Byte} (hfits : hostname.length < 1024)
    (earlier : List (BitVec 64 × BitVec 64)) {mem : List Byte} (hmem : Laid hostname mem) :
    ∃ mem', (assembleAll (26 + BitVec.ofNat 64 hostname.length) earlier).run mem =
      .ok ((), mem') ∧ Laid hostname mem' := by
  induction earlier generalizing mem with
  | nil => exact ⟨mem, rfl, hmem⟩
  | cons first earlier ih =>
    obtain ⟨mem₁, hrun, hlaid⟩ := assemble_run first.1 first.2 hfits hmem
    obtain ⟨mem₂, hrest, hlaid'⟩ := ih hlaid
    refine ⟨mem₂, ?_, hlaid'⟩
    unfold assembleAll
    rw [run_bind_ok hrun]
    exact hrest

theorem nextPacket_run {hostname pkt : List Byte} (earlier : List (BitVec 64 × BitVec 64))
    (timeNs seq : BitVec 64) (hpkt : pkt.length = 26 + 1024) (hfits : hostname.length < 1024)
    (hname : ∀ b ∈ hostname, b ≠ 0) :
    ∃ pkt', (nextPacket hostname earlier timeNs seq).run pkt =
      .ok (packet hostname timeNs seq, pkt') := by
  obtain ⟨mem₁, hinit, hlaid₁⟩ := init_run hpkt hfits hname
  obtain ⟨mem₂, hearlier, hlaid₂⟩ := assembleAll_run hfits earlier hlaid₁
  obtain ⟨mem₃, hrun, _⟩ := assemble_run timeNs seq hfits hlaid₂
  refine ⟨mem₃, ?_⟩
  unfold nextPacket
  rw [run_bind_ok hinit, run_bind_ok hearlier]
  exact hrun

/-- `mclstBeacon` is false whenever a payload is dissected, since `receive` resets it first. -/
theorem beacon_exact :
    (∀ (mem : List Byte) (rcv : Receiving), rcv.pktInfo.mclstBeacon = false →
      rcv.pktInfo.payload + rcv.pktInfo.payloadSize.toNat ≤ mem.length →
      ∃ rcv', (dissectMclstBeaconPayload rcv).run mem = .ok rcv' ∧
        Dissected (rcv.pktInfo.payloadBytes mem) rcv'.pktInfo) ∧
    (∀ (kind : ReceiverKind) (recvTime : BitVec 64) (msg : Datagram) (rcv : Receiving),
      ∃ status rcv', receive kind.processPacket recvTime msg rcv = .ok (status, rcv') ∧
        (status = .AcceptedShow → Dissected (rcv'.pktInfo.payloadBytes msg.data) rcv'.pktInfo) ∧
        (status ≠ .AcceptedShow → rcv'.pktInfo.mclstBeacon = false)) ∧
    (∀ (hostname pkt : List Byte) (earlier : List (BitVec 64 × BitVec 64)) (timeNs seq : BitVec 64),
      pkt.length = 26 + 1024 → hostname.length < 1024 → (∀ b ∈ hostname, b ≠ 0) →
      ∃ data pkt', (nextPacket hostname earlier timeNs seq).run pkt = .ok (data, pkt') ∧
        ∀ (kind : ReceiverKind) (recvTime : BitVec 64) (msg : Datagram) (rcv rcv' : Receiving),
          receive kind.processPacket recvTime msg rcv = .ok (.AcceptedShow, rcv') →
          rcv'.pktInfo.payloadBytes msg.data = data →
          Recognised hostname timeNs seq msg.data rcv'.pktInfo) ∧
    (∀ (kind : ReceiverKind) (recvTime : BitVec 64) (msg : Datagram) (rcv₁ rcv₂ : Receiving),
      ∃ status rcv₁' rcv₂', receive kind.processPacket recvTime msg rcv₁ = .ok (status, rcv₁') ∧
        receive kind.processPacket recvTime msg rcv₂ = .ok (status, rcv₂') ∧
        SameBeacon rcv₁'.pktInfo rcv₂'.pktInfo) := by
  refine ⟨?_, receive_dissected, ?_, receive_sameBeacon⟩
  · intro mem rcv hflag hin
    obtain ⟨rcv', hrun, hdissected, _⟩ := dissectMclstBeaconPayload_spec mem rcv hflag hin
    exact ⟨rcv', hrun, hdissected⟩
  · intro hostname pkt earlier timeNs seq hpkt hfits hname
    obtain ⟨pkt', hrun⟩ := nextPacket_run earlier timeNs seq hpkt hfits hname
    refine ⟨_, pkt', hrun, ?_⟩
    intro kind recvTime msg rcv rcv' hreceive hpayload
    obtain ⟨status, rcv'', hrun', hshown, _⟩ := receive_dissected kind recvTime msg rcv
    rw [hreceive] at hrun'
    obtain ⟨rfl, rfl⟩ := Prod.mk.inj (Except.ok.inj hrun')
    exact recognised_of_dissected hfits hpayload (hshown rfl)

/-- The third packet of the host `m1`. -/
def beaconDatagram : Datagram where
  sender := ⟨0x0200000A, 0x8813⟩
  control := [.ttl 64, .pktInfo 2]
  data := packet [0x6D, 0x31] 7 3
  fits := by decide

/-- A receiver that has shown the second packet, which it got behind an IPv4 and a UDP header. -/
def usedReceiving : Receiving where
  pktInfo :=
    { timestamp := 6, source := .ofOctets 10 0 0 2, sport := 5000, group := .ofOctets 239 1 2 3,
      dport := 6000, ifIndex := 2, ttl := 64, receivedSize := 56, payload := 28, payloadSize := 28,
      mclstBeacon := true, remoteSeq := 2, remoteTimestamp := 5, remoteMsgLen := 2,
      remoteMsg := 54 }
  oh := []

theorem beacon_exact_example :
    (∃ rcv', (dissectMclstBeaconPayload (usedReceiving.modify .reset)).run
        (List.replicate 28 0 ++ beaconDatagram.data) = .ok rcv' ∧
      Dissected beaconDatagram.data rcv'.pktInfo) ∧
    (∃ status rcv', receive (Receiver.processPacket 6000) 9 beaconDatagram usedReceiving =
        .ok (status, rcv') ∧
      (status = .AcceptedShow → Dissected (rcv'.pktInfo.payloadBytes beaconDatagram.data)
        rcv'.pktInfo)) ∧
    (∃ data pkt', (nextPacket [0x6D, 0x31] [(5, 1), (6, 2)] 7 3).run (List.replicate 1050 0) =
        .ok (data, pkt') ∧
      ∃ rcv', receive (Receiver.processPacket 6000) 9 beaconDatagram usedReceiving =
        .ok (.AcceptedShow, rcv') ∧ Recognised [0x6D, 0x31] 7 3 data rcv'.pktInfo) ∧
    ∃ status rcv₁ rcv₂, receive (IPRawReceiver.processPacket (IPv4Address.ofOctets 239 1 2 3).to_nl)
        9 beaconDatagram .start = .ok (status, rcv₁) ∧
      receive (IPRawReceiver.processPacket (IPv4Address.ofOctets 239 1 2 3).to_nl)
        9 beaconDatagram usedReceiving = .ok (status, rcv₂) ∧
      SameBeacon rcv₁.pktInfo rcv₂.pktInfo := by
  obtain ⟨hdissect, hreceive, hsent, hsame⟩ := beacon_exact
  refine ⟨?_, ?_, ?_, ?_⟩
  · exact hdissect (List.replicate 28 0 ++ beaconDatagram.data) (usedReceiving.modify .reset) rfl
      (by decide)
  · obtain ⟨status, rcv', hrun, hshown, _⟩ :=
      hreceive (.receiver 6000) 9 beaconDatagram usedReceiving
    exact ⟨status, rcv', hrun, hshown⟩
  · have hpkt : (List.replicate 1050 (0 : Byte)).length = 26 + 1024 := List.length_replicate
    have hfits : ([0x6D, 0x31] : List Byte).length < 1024 := by decide
    have hname : ∀ b ∈ ([0x6D, 0x31] : List Byte), b ≠ 0 := by decide
    obtain ⟨data, pkt', hrun, hrecognised⟩ := hsent _ _ [(5, 1), (6, 2)] 7 3 hpkt hfits hname
    obtain ⟨pkt'', hpacket⟩ := nextPacket_run [(5, 1), (6, 2)] 7 3 hpkt hfits hname
    rw [hpacket] at hrun
    obtain ⟨rfl, rfl⟩ := Prod.mk.inj (Except.ok.inj hrun)
    obtain ⟨rcv', hshown, hflow, _⟩ := receive_filledIn 6000 9 beaconDatagram usedReceiving
    refine ⟨_, _, hpacket, rcv', hshown, ?_⟩
    apply hrecognised (.receiver 6000) 9 beaconDatagram usedReceiving rcv' hshown
    apply payloadBytes_whole
    · rw [hflow]
      rfl
    · rw [hflow]
      rfl
  · exact hsame (.ipRawReceiver (.ofOctets 239 1 2 3)) 9 beaconDatagram .start usedReceiving

end Pimc.Mclst
