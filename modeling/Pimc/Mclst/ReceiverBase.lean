import Pimc.Mclst.PacketInfo

/-!
# Receiving a datagram (apps/mclst/ReceiverBase.hpp, Receiver.hpp)
-/

namespace Pimc.Mclst

open Lib

/-! ### The beacon -/

-- The viewer of the first `take`.
def viewHdr (hdr : ℕ) (rcv : Receiving) : ReadM Receiving := do
  let magic ← MclstBeaconHdr.magic hdr
  if be64toh magic = MclstMagic then
    let seq ← MclstBeaconHdr.seq hdr
    let timeNs ← MclstBeaconHdr.timeNs hdr
    let dataLen ← MclstBeaconHdr.dataLen hdr
    return rcv.modify fun pktInfo => { pktInfo with
      mclstBeacon := true
      remoteSeq := be64toh seq
      remoteTimestamp := be64toh timeNs
      remoteMsgLen := (be16toh dataLen).setWidth 64 }
  else
    return rcv

-- The second `take`, of the message.
def viewMsg (pv : PacketView) (rcv : Receiving) : Receiving :=
  match (pv.take rcv.pktInfo.remoteMsgLen).viewed with
  | some p => rcv.modify fun pktInfo => { pktInfo with remoteMsg := p }
  | none =>
    (rcv.modify fun pktInfo => { pktInfo with mclstBeacon := false }).warningTs
      s!"{rcv.pktInfo.flow}: in message #{rcv.pktInfo.remoteSeq.toNat} length is {rcv.pktInfo.remoteMsgLen.toNat}, but the remaining length is {pv.remaining.toNat}"

def dissectMclstBeaconPayload (rcv : Receiving) : ReadM Receiving := do
  let pv : PacketView := .mk' rcv.pktInfo.payload (rcv.pktInfo.payloadSize.setWidth 64)
  let hdrCall := pv.take MclstBeaconHdr.size
  match hdrCall.viewed with
  | none => return rcv
  | some p =>
    let rcv ← viewHdr p rcv
    if !rcv.pktInfo.mclstBeacon then return rcv
    else return viewMsg hdrCall.view rcv

/-! ### What the dissection finds -/

/-- A beacon header with the magic, and room for the message after it. -/
def IsBeacon (payload : List Byte) : Prop :=
  26 ≤ payload.length ∧ beAt64 payload 0 = MclstMagic ∧
    (beAt16 payload 24).toNat ≤ payload.length - 26

instance (payload : List Byte) : Decidable (IsBeacon payload) :=
  inferInstanceAs (Decidable (_ ∧ _ ∧ _))

/-- The fields of `pktInfo` that a beacon fills in, and where its message stands. -/
structure BeaconFields (payload : List Byte) (pktInfo : PacketInfo) : Prop where
  remoteSeq : pktInfo.remoteSeq = beAt64 payload 8
  remoteTimestamp : pktInfo.remoteTimestamp = beAt64 payload 16
  remoteMsgLen : pktInfo.remoteMsgLen.toNat = (beAt16 payload 24).toNat
  remoteMsg : pktInfo.remoteMsg = pktInfo.payload + 26
  inside : 26 + pktInfo.remoteMsgLen.toNat ≤ payload.length

structure Dissected (payload : List Byte) (pktInfo : PacketInfo) : Prop where
  beacon : pktInfo.mclstBeacon = true ↔ IsBeacon payload
  fields : pktInfo.mclstBeacon = true → BeaconFields payload pktInfo

/-- The payload that `pktInfo` points at. -/
def PacketInfo.payloadBytes (pktInfo : PacketInfo) (mem : List Byte) : List Byte :=
  (mem.drop pktInfo.payload).take pktInfo.payloadSize.toNat

/-- `pktInfo'` is `pktInfo` but for the fields of the beacon. -/
def SameFlow (pktInfo pktInfo' : PacketInfo) : Prop :=
  pktInfo' = { pktInfo with
    mclstBeacon := pktInfo'.mclstBeacon
    remoteSeq := pktInfo'.remoteSeq
    remoteTimestamp := pktInfo'.remoteTimestamp
    remoteMsgLen := pktInfo'.remoteMsgLen
    remoteMsg := pktInfo'.remoteMsg }

/-- `pktInfo` after the viewer of a header with the magic. -/
def withBeacon (mem : List Byte) (hdr : ℕ) (pktInfo : PacketInfo) : PacketInfo :=
  { pktInfo with
    mclstBeacon := true
    remoteSeq := beAt64 mem (hdr + 8)
    remoteTimestamp := beAt64 mem (hdr + 16)
    remoteMsgLen := (beAt16 mem (hdr + 24)).setWidth 64 }

theorem viewHdr_run {mem : List Byte} {hdr : ℕ} (rcv : Receiving) (h : hdr + 26 ≤ mem.length) :
    (viewHdr hdr rcv).run mem = .ok (if beAt64 mem hdr = MclstMagic then
      rcv.modify (withBeacon mem hdr) else rcv) := by
  obtain ⟨magic, hmagic, hmagic_eq⟩ := u64At_run mem hdr (by omega)
  obtain ⟨seq, hseq, hseq_eq⟩ := u64At_run mem (hdr + 8) (by omega)
  obtain ⟨timeNs, htime, htime_eq⟩ := u64At_run mem (hdr + 16) (by omega)
  obtain ⟨dataLen, hlen, hlen_eq⟩ := u16At_run mem (hdr + 24) (by omega)
  have hlen_be : be16toh dataLen = beAt16 mem (hdr + 24) := hlen_eq
  unfold viewHdr MclstBeaconHdr.magic MclstBeaconHdr.seq MclstBeaconHdr.timeNs MclstBeaconHdr.dataLen
  rw [read_bind_ok hmagic, hmagic_eq]
  split_ifs
  · rw [read_bind_ok hseq, read_bind_ok htime, read_bind_ok hlen, hseq_eq, htime_eq, hlen_be]
    rfl
  · rfl

theorem viewMsg_fits {pv : PacketView} {rcv : Receiving}
    (h : pv.taken_.toNat + rcv.pktInfo.remoteMsgLen.toNat ≤ pv.len_.toNat) :
    viewMsg pv rcv =
      rcv.modify fun pktInfo => { pktInfo with remoteMsg := pv.data + pv.taken_.toNat } := by
  unfold viewMsg PacketView.take
  rw [DataView.advance_accept _ h]

theorem viewMsg_short {pv : PacketView} {rcv : Receiving}
    (hsum : pv.taken_.toNat + rcv.pktInfo.remoteMsgLen.toNat < 2 ^ 64)
    (h : pv.len_.toNat < pv.taken_.toNat + rcv.pktInfo.remoteMsgLen.toNat) :
    (viewMsg pv rcv).pktInfo = { rcv.pktInfo with mclstBeacon := false } := by
  unfold viewMsg PacketView.take
  rw [DataView.advance_refuse _ hsum h]
  rfl

theorem payloadBytes_length {mem : List Byte} {pktInfo : PacketInfo}
    (hin : pktInfo.payload + pktInfo.payloadSize.toNat ≤ mem.length) :
    (pktInfo.payloadBytes mem).length = pktInfo.payloadSize.toNat := by
  unfold PacketInfo.payloadBytes
  rw [List.length_take, List.length_drop]
  omega

theorem dissected_of_not {payload : List Byte} {pktInfo : PacketInfo}
    (hflag : pktInfo.mclstBeacon = false) (hnot : ¬ IsBeacon payload) :
    Dissected payload pktInfo where
  beacon := iff_of_false (by rw [hflag]; exact Bool.false_ne_true) hnot
  fields := by
    intro htrue
    rw [hflag] at htrue
    cases htrue

/-- The second `take` of a header with the magic decides whether it is a beacon. -/
theorem viewMsg_spec {payload : List Byte} {pv : PacketView} {rcv : Receiving}
    (hdata : pv.data = rcv.pktInfo.payload) (htaken : pv.taken_.toNat = 26)
    (hlen : pv.len_.toNat = payload.length) (hroom : 26 ≤ payload.length)
    (hmagic : beAt64 payload 0 = MclstMagic) (hflag : rcv.pktInfo.mclstBeacon = true)
    (hseq : rcv.pktInfo.remoteSeq = beAt64 payload 8)
    (htime : rcv.pktInfo.remoteTimestamp = beAt64 payload 16)
    (hmsgLen : rcv.pktInfo.remoteMsgLen.toNat = (beAt16 payload 24).toNat) :
    Dissected payload (viewMsg pv rcv).pktInfo ∧ SameFlow rcv.pktInfo (viewMsg pv rcv).pktInfo := by
  have hlt := (beAt16 payload 24).isLt
  by_cases hmsg : (beAt16 payload 24).toNat ≤ payload.length - 26
  · have hbeacon : IsBeacon payload := ⟨hroom, hmagic, hmsg⟩
    rw [viewMsg_fits (by omega)]
    refine ⟨⟨iff_of_true hflag hbeacon, ?_⟩, rfl⟩
    intro _
    exact
      { remoteSeq := hseq
        remoteTimestamp := htime
        remoteMsgLen := hmsgLen
        remoteMsg := by
          show pv.data + pv.taken_.toNat = rcv.pktInfo.payload + 26
          rw [hdata, htaken]
        inside := by
          show 26 + rcv.pktInfo.remoteMsgLen.toNat ≤ payload.length
          omega }
  · have hnot : ¬ IsBeacon payload := fun h => hmsg h.2.2
    rw [viewMsg_short (by omega) (by omega)]
    exact ⟨dissected_of_not rfl hnot, rfl⟩

theorem dissectMclstBeaconPayload_spec (mem : List Byte) (rcv : Receiving)
    (hflag : rcv.pktInfo.mclstBeacon = false)
    (hin : rcv.pktInfo.payload + rcv.pktInfo.payloadSize.toNat ≤ mem.length) :
    ∃ rcv', (dissectMclstBeaconPayload rcv).run mem = .ok rcv' ∧
      Dissected (rcv.pktInfo.payloadBytes mem) rcv'.pktInfo ∧ SameFlow rcv.pktInfo rcv'.pktInfo := by
  obtain ⟨payload, hpayload⟩ : ∃ payload, payload = rcv.pktInfo.payloadBytes mem := ⟨_, rfl⟩
  obtain ⟨len, hlen⟩ : ∃ len : SizeT, len = rcv.pktInfo.payloadSize.setWidth 64 := ⟨_, rfl⟩
  have hlength : payload.length = rcv.pktInfo.payloadSize.toNat := by
    rw [hpayload]
    exact payloadBytes_length hin
  have hlen_toNat : len.toNat = payload.length := by
    have hlt := rcv.pktInfo.payloadSize.isLt
    rw [hlen, hlength, BitVec.toNat_setWidth]
    omega
  have hhdr : MclstBeaconHdr.size.toNat = 26 := rfl
  have hzero : (0 : SizeT).toNat = 0 := rfl
  unfold dissectMclstBeaconPayload
  rw [← hpayload, ← hlen]
  by_cases hroom : 26 ≤ payload.length
  · have htake : (PacketView.take (.mk' rcv.pktInfo.payload len) MclstBeaconHdr.size) =
        ⟨true, some rcv.pktInfo.payload, ⟨rcv.pktInfo.payload, len, 26⟩⟩ :=
      DataView.advance_accept _ (by show (0 : SizeT).toNat + _ ≤ len.toNat; omega)
    have hmagic : beAt64 payload 0 = beAt64 mem rcv.pktInfo.payload := by
      rw [hpayload]
      exact beAt64_slice (by omega)
    simp only [htake]
    rw [read_bind_ok (viewHdr_run rcv (by omega))]
    by_cases hm : beAt64 mem rcv.pktInfo.payload = MclstMagic
    · rw [if_pos hm]
      refine ⟨_, rfl, viewMsg_spec rfl rfl hlen_toNat hroom (hmagic.trans hm) rfl ?_ ?_ ?_⟩
      · rw [hpayload]
        exact (beAt64_slice (by omega)).symm
      · rw [hpayload]
        exact (beAt64_slice (by omega)).symm
      · have hlt := (beAt16 mem (rcv.pktInfo.payload + 24)).isLt
        have hslice : beAt16 payload 24 = beAt16 mem (rcv.pktInfo.payload + 24) := by
          rw [hpayload]
          exact beAt16_slice (by omega)
        rw [hslice]
        show ((beAt16 mem (rcv.pktInfo.payload + 24)).setWidth 64).toNat = _
        rw [BitVec.toNat_setWidth]
        omega
    · have hnot : ¬ IsBeacon payload := fun h => hm (hmagic ▸ h.2.1)
      rw [if_neg hm, hflag]
      exact ⟨rcv, rfl, dissected_of_not hflag hnot, rfl⟩
  · have htake : (PacketView.take (.mk' rcv.pktInfo.payload len) MclstBeaconHdr.size) =
        ⟨false, none, .mk' rcv.pktInfo.payload len⟩ :=
      DataView.advance_refuse _ (by show (0 : SizeT).toNat + _ < _; omega)
        (by show len.toNat < (0 : SizeT).toNat + _; omega)
    simp only [htake]
    exact ⟨rcv, rfl, dissected_of_not hflag fun h => hroom h.1, rfl⟩

/-! ### `receive` -/

-- The address and the port of the sender, in network byte order.
structure SockAddrIn where
  sin_addr : BitVec 32
  sin_port : BitVec 16
  deriving DecidableEq, Repr

-- The control messages that `receive` looks at.
inductive ControlMsg where
  | ttl (v : Byte)
  | pktInfo (ifIndex : BitVec 32)
  | other
  deriving DecidableEq, Repr

/-- What `recvmsg` fills in; the buffer it gets has `BufferSize` bytes. -/
structure Datagram where
  sender : SockAddrIn
  control : List ControlMsg
  data : List Byte
  fits : data.length ≤ BufferSize
  deriving DecidableEq, Repr

def receiveControl (pktInfo : PacketInfo) : ControlMsg → PacketInfo
  | .ttl v => { pktInfo with ttl := v.toNat }
  | .pktInfo ifIndex => { pktInfo with ifIndex := ifIndex }
  | .other => pktInfo

-- `processPacket` of a receiver provider.
abbrev ReceiverProvider := SockAddrIn → Receiving → ReadM (PacketStatus × Receiving)

/-- What `pktInfo_` is when `processPacket` is called. -/
def receivedInfo (recvTime : BitVec 64) (msg : Datagram) (pktInfo : PacketInfo) : PacketInfo :=
  msg.control.foldl receiveControl
    { pktInfo.reset with
      timestamp := recvTime
      receivedSize := BitVec.ofNat 32 msg.data.length }

def receive (impl : ReceiverProvider) (recvTime : BitVec 64) (msg : Datagram) (rcv : Receiving) :
    Except MemError (PacketStatus × Receiving) :=
  (impl msg.sender (rcv.modify (receivedInfo recvTime msg))).run msg.data

-- `Receiver::processPacket`, with the port of the configuration.
def Receiver.processPacket (dport : BitVec 16) : ReceiverProvider := fun sender rcv => do
  let rcv ← dissectMclstBeaconPayload (rcv.modify fun pktInfo => { pktInfo with
    dport := dport
    source := IPv4Address.from_nl sender.sin_addr
    sport := ntohs sender.sin_port
    payload := 0
    payloadSize := pktInfo.receivedSize })
  return (.AcceptedShow, rcv)

/-! ### What `processPacket` starts from -/

structure Fresh (msg : Datagram) (group : IPv4Address) (pktInfo : PacketInfo) : Prop where
  mclstBeacon : pktInfo.mclstBeacon = false
  receivedSize : pktInfo.receivedSize.toNat = msg.data.length
  group : pktInfo.group = group

theorem receiveControl_fresh {msg : Datagram} {group : IPv4Address} {pktInfo : PacketInfo}
    (h : Fresh msg group pktInfo) (c : ControlMsg) : Fresh msg group (receiveControl pktInfo c) := by
  cases c with
  | ttl v => exact ⟨h.mclstBeacon, h.receivedSize, h.group⟩
  | pktInfo ifIndex => exact ⟨h.mclstBeacon, h.receivedSize, h.group⟩
  | other => exact h

theorem receivedInfo_fresh (recvTime : BitVec 64) (msg : Datagram) (pktInfo : PacketInfo) :
    Fresh msg pktInfo.group (receivedInfo recvTime msg pktInfo) := by
  have hsize : (BitVec.ofNat 32 msg.data.length).toNat = msg.data.length := by
    have hfits := msg.fits
    unfold BufferSize at hfits
    rw [BitVec.toNat_ofNat, Nat.mod_eq_of_lt (by omega)]
  have hcontrol : ∀ (l : List ControlMsg) (pktInfo' : PacketInfo),
      Fresh msg pktInfo.group pktInfo' → Fresh msg pktInfo.group (l.foldl receiveControl pktInfo') := by
    intro l
    induction l with
    | nil => exact fun _ h => h
    | cons c l ih => exact fun pktInfo' h => ih _ (receiveControl_fresh h c)
  exact hcontrol msg.control _ ⟨rfl, hsize, rfl⟩

/-- `pktInfo_` when a UDP receiver comes to the payload. -/
def Receiver.filledIn (dport : BitVec 16) (recvTime : BitVec 64) (msg : Datagram)
    (pktInfo : PacketInfo) : PacketInfo :=
  { receivedInfo recvTime msg pktInfo with
    dport := dport
    source := IPv4Address.from_nl msg.sender.sin_addr
    sport := ntohs msg.sender.sin_port
    payload := 0
    payloadSize := (receivedInfo recvTime msg pktInfo).receivedSize }

theorem Receiver.filledIn_payloadSize (dport : BitVec 16) (recvTime : BitVec 64) (msg : Datagram)
    (pktInfo : PacketInfo) :
    (Receiver.filledIn dport recvTime msg pktInfo).payloadSize.toNat = msg.data.length :=
  (receivedInfo_fresh recvTime msg pktInfo).receivedSize

theorem payloadBytes_whole {mem : List Byte} {pktInfo : PacketInfo} (hstart : pktInfo.payload = 0)
    (hsize : pktInfo.payloadSize.toNat = mem.length) : pktInfo.payloadBytes mem = mem := by
  unfold PacketInfo.payloadBytes
  rw [hstart, hsize, List.drop_zero, List.take_length]

theorem receive_filledIn (dport : BitVec 16) (recvTime : BitVec 64) (msg : Datagram)
    (rcv : Receiving) :
    ∃ rcv', receive (Receiver.processPacket dport) recvTime msg rcv = .ok (.AcceptedShow, rcv') ∧
      SameFlow (Receiver.filledIn dport recvTime msg rcv.pktInfo) rcv'.pktInfo ∧
      Dissected msg.data rcv'.pktInfo := by
  obtain ⟨rcv₁, hrcv₁⟩ : ∃ rcv₁ : Receiving, rcv₁ =
    rcv.modify (Receiver.filledIn dport recvTime msg) := ⟨_, rfl⟩
  have hinfo : rcv₁.pktInfo = Receiver.filledIn dport recvTime msg rcv.pktInfo := by
    rw [hrcv₁]
    rfl
  have hsize : rcv₁.pktInfo.payloadSize.toNat = msg.data.length := by
    rw [hinfo]
    exact Receiver.filledIn_payloadSize dport recvTime msg rcv.pktInfo
  have hzero : rcv₁.pktInfo.payload = 0 := by
    rw [hinfo]
    rfl
  have hflag : rcv₁.pktInfo.mclstBeacon = false := by
    rw [hinfo]
    exact (receivedInfo_fresh recvTime msg rcv.pktInfo).mclstBeacon
  obtain ⟨rcv', hrun, hdissected, hsame⟩ :=
    dissectMclstBeaconPayload_spec msg.data rcv₁ hflag (by omega)
  rw [payloadBytes_whole hzero hsize] at hdissected
  rw [hinfo] at hsame
  refine ⟨rcv', ?_, hsame, hdissected⟩
  have hstart : (rcv.modify (receivedInfo recvTime msg)).modify (fun pktInfo => { pktInfo with
      dport := dport
      source := IPv4Address.from_nl msg.sender.sin_addr
      sport := ntohs msg.sender.sin_port
      payload := 0
      payloadSize := pktInfo.receivedSize }) = rcv₁ := hrcv₁.symm
  unfold receive Receiver.processPacket
  rw [hstart, read_bind_ok hrun]
  rfl

/-- A packet received through a UDP socket is its payload. -/
theorem receive_receiver (dport : BitVec 16) (recvTime : BitVec 64) (msg : Datagram)
    (rcv : Receiving) :
    ∃ rcv', receive (Receiver.processPacket dport) recvTime msg rcv = .ok (.AcceptedShow, rcv') ∧
      rcv'.pktInfo.payloadBytes msg.data = msg.data ∧ rcv'.pktInfo.payload = 0 ∧
      Dissected msg.data rcv'.pktInfo := by
  obtain ⟨rcv', hrun, hsame, hdissected⟩ := receive_filledIn dport recvTime msg rcv
  have hzero : rcv'.pktInfo.payload = 0 := congrArg PacketInfo.payload hsame
  have hsize : rcv'.pktInfo.payloadSize.toNat = msg.data.length := by
    rw [← Receiver.filledIn_payloadSize dport recvTime msg rcv.pktInfo]
    exact congrArg (fun p => p.payloadSize.toNat) hsame
  exact ⟨rcv', hrun, payloadBytes_whole hzero hsize, hzero, hdissected⟩

end Pimc.Mclst
