import Pimc.Mclst.Beacon
import Pimc.Mclst.ReceiveLoop

/-!
# Sessions (apps/mclst/Main.cpp, ReceiverBase.hpp)

A run of the sender, and a run of the receive loop on what the network makes of
the packets.
-/

namespace Pimc.Mclst

open Lib Sender

/-! ### The packets shown -/

def shownPackets (oh : List Shown) : List PacketInfo :=
  oh.filterMap fun shown => match shown with
    | .warningTs _ _ => none
    | .timeout _ => none
    | .receivedPacket pktInfo => some pktInfo

/-- `rcv` has shown these packets. -/
def Receiving.HasShown (infos : List PacketInfo) (rcv : Receiving) : Prop :=
  shownPackets rcv.oh = infos

variable {infos : List PacketInfo} {rcv : Receiving}

theorem Receiving.HasShown.warningTs (h : rcv.HasShown infos) (text : String) :
    (rcv.warningTs text).HasShown infos := by
  unfold HasShown Receiving.warningTs shownPackets
  rw [List.filterMap_append]
  exact (List.append_nil _).trans h

theorem Receiving.HasShown.modify (h : rcv.HasShown infos) (f : PacketInfo → PacketInfo) :
    (rcv.modify f).HasShown infos := h

theorem viewHdr_hasShown (hdr : ℕ) (h : rcv.HasShown infos) :
    Yields (viewHdr hdr rcv) (Receiving.HasShown infos) := by
  apply Yields.read
  intro magic
  apply Yields.ite
  · intro _
    exact Yields.read fun seq => Yields.read fun timeNs => Yields.read fun dataLen =>
      Yields.pure (h.modify _)
  · exact fun _ => Yields.pure h

theorem viewMsg_hasShown (pv : PacketView) (h : rcv.HasShown infos) :
    (viewMsg pv rcv).HasShown infos := by
  unfold viewMsg
  split
  · exact h.modify _
  · exact (h.modify _).warningTs _

theorem dissect_hasShown (h : rcv.HasShown infos) :
    Yields (dissectMclstBeaconPayload rcv) (Receiving.HasShown infos) := by
  unfold dissectMclstBeaconPayload
  dsimp only
  split
  · exact Yields.pure h
  · refine Yields.bind (viewHdr_hasShown _ h) ?_
    intro rcv' h'
    exact Yields.ite (fun _ => Yields.pure h') fun _ => Yields.pure (viewMsg_hasShown _ h')

namespace IPRawReceiver

theorem overrideTtl_hasShown (ipTTL : ℤ) (h : rcv.HasShown infos) :
    (overrideTtl ipTTL rcv).HasShown infos := by
  unfold overrideTtl
  split_ifs
  · exact (h.warningTs _).modify _
  · exact h

theorem warnTrailing_hasShown (udpSize remSize : SizeT) (h : rcv.HasShown infos) :
    (warnTrailing udpSize remSize rcv).HasShown infos := by
  unfold warnTrailing
  split_ifs
  · exact h.warningTs _
  · exact h

theorem processUdp_hasShown (ipHdr udpHdr : ℕ) (pv : PacketView) (h : rcv.HasShown infos) :
    Yields (processUdp ipHdr udpHdr pv rcv) fun shown => shown.2.HasShown infos := by
  apply Yields.read
  intro saddr
  apply Yields.read
  intro sport
  apply Yields.read
  intro dport
  apply Yields.read
  intro ttl
  have hflow := overrideTtl_hasShown ttl.toNat (h.modify fun pktInfo => { pktInfo with
    source := IPv4Address.from_nl saddr
    sport := ntohs sport
    dport := ntohs dport })
  apply Yields.read
  intro udpLen
  apply Yields.ite
  · exact fun _ => Yields.pure (hflow.warningTs _)
  · intro _
    apply Yields.ite
    · exact fun _ => Yields.pure (hflow.warningTs _)
    · intro _
      refine Yields.bind (dissect_hasShown ((warnTrailing_hasShown _ _ hflow).modify _)) ?_
      exact fun rcv' h' => Yields.pure h'

theorem processHdrs_hasShown (ipHdr : ℕ) (pv : PacketView) (h : rcv.HasShown infos) :
    Yields (processHdrs ipHdr pv rcv) fun shown => shown.2.HasShown infos := by
  apply Yields.read
  intro size
  apply Yields.ite
  · exact fun _ => Yields.pure (h.warningTs _)
  · intro _
    apply Yields.ite
    · exact fun _ => Yields.pure (h.warningTs _)
    · intro _
      dsimp only
      split
      · exact Yields.pure (h.warningTs _)
      · exact processUdp_hasShown _ _ _ h

theorem processPacket_hasShown (groupNl : BitVec 32) (sender : SockAddrIn)
    (h : rcv.HasShown infos) :
    Yields (processPacket groupNl sender rcv) fun shown => shown.2.HasShown infos := by
  unfold processPacket
  dsimp only
  split
  · exact Yields.pure (h.warningTs _)
  · apply Yields.read
    intro daddr
    apply Yields.ite
    · exact fun _ => Yields.pure h
    · intro _
      apply Yields.read
      intro protocol
      apply Yields.ite
      · exact fun _ => Yields.pure h
      · exact fun _ => processHdrs_hasShown _ _ h

end IPRawReceiver

/-- `receive` itself shows nothing but warnings. -/
theorem receive_hasShown (kind : ReceiverKind) {recvTime : BitVec 64} {msg : Datagram}
    {status : PacketStatus} {rcv' : Receiving} (h : rcv.HasShown infos)
    (hrun : receive kind.processPacket recvTime msg rcv = .ok (status, rcv')) :
    rcv'.HasShown infos := by
  have hreceived := h.modify (receivedInfo recvTime msg)
  cases kind with
  | receiver dport =>
    have hyields : Yields (Receiver.processPacket dport msg.sender
        (rcv.modify (receivedInfo recvTime msg))) fun shown => shown.2.HasShown infos :=
      Yields.bind (dissect_hasShown (hreceived.modify _)) fun rcv'' h'' => Yields.pure h''
    exact hyields msg.data _ hrun
  | ipRawReceiver group =>
    exact IPRawReceiver.processPacket_hasShown group.to_nl msg.sender hreceived msg.data _ hrun

/-! ### What a receiver takes from a datagram -/

namespace ReceiverKind

def status : ReceiverKind → Datagram → PacketStatus
  | receiver _, _ => .AcceptedShow
  | ipRawReceiver group, msg =>
    if IPRawReceiver.Foreign group msg.data then .Filtered
    else if IPRawReceiver.WellFormed msg.data then .AcceptedShow
    else .AcceptedNoShow

def flow : ReceiverKind → Datagram → FlowKey
  | receiver dport, msg =>
    ⟨IPv4Address.from_nl msg.sender.sin_addr, ntohs msg.sender.sin_port, dport⟩
  | ipRawReceiver _, msg =>
    ⟨⟨beAt32 msg.data 12⟩, beAt16 msg.data (IPRawReceiver.hdrBytes msg.data),
      beAt16 msg.data (IPRawReceiver.hdrBytes msg.data + 2)⟩

def payload : ReceiverKind → Datagram → List Byte
  | receiver _, msg => msg.data
  | ipRawReceiver _, msg => (msg.data.drop (IPRawReceiver.hdrBytes msg.data + 8)).take
      ((beAt16 msg.data (IPRawReceiver.hdrBytes msg.data + 4)).toNat - 8)

-- The call of `update` when the datagram is shown.
def rxUpdate (kind : ReceiverKind) (msg : Datagram) : RxUpdate :=
  ⟨kind.flow msg, BitVec.ofNat 64 (kind.payload msg).length⟩

end ReceiverKind

/-- `pktInfo` is what a receiver of this kind makes of `msg`. -/
structure TakenFrom (kind : ReceiverKind) (msg : Datagram) (pktInfo : PacketInfo) : Prop where
  flow : (⟨pktInfo.source, pktInfo.sport, pktInfo.dport⟩ : FlowKey) = kind.flow msg
  payload : pktInfo.payloadBytes msg.data = kind.payload msg
  payloadSize : pktInfo.payloadSize.toNat = (kind.payload msg).length
  dissected : Dissected (kind.payload msg) pktInfo

theorem status_of_processed {group : IPv4Address} {msg : Datagram} {status : PacketStatus}
    {rcv' : Receiving} (h : IPRawReceiver.Processed group msg.data status rcv') :
    status = ReceiverKind.status (.ipRawReceiver group) msg := by
  have hfiltered := h.filtered
  have hshown := h.shown
  unfold ReceiverKind.status
  dsimp only
  split_ifs with hforeign hwell
  · exact hfiltered.mpr hforeign
  · exact hshown.mpr ⟨hforeign, hwell⟩
  · cases status with
    | Filtered => exact absurd (hfiltered.mp rfl) hforeign
    | AcceptedNoShow => rfl
    | AcceptedShow => exact absurd (hshown.mp rfl).2 hwell

theorem takenFrom_of_shown {group : IPv4Address} {msg : Datagram} {pktInfo : PacketInfo}
    (h : IPRawReceiver.ShownPacket msg.data (IPRawReceiver.hdrBytes msg.data) pktInfo) :
    TakenFrom (.ipRawReceiver group) msg pktInfo := by
  have hsize := h.payloadSize
  have hstart := h.payload
  have hinside := h.inside
  have hpayload : pktInfo.payloadBytes msg.data =
      ReceiverKind.payload (.ipRawReceiver group) msg := by
    unfold PacketInfo.payloadBytes ReceiverKind.payload
    rw [hstart]
    congr 1
    omega
  refine ⟨?_, hpayload, ?_, hpayload ▸ h.dissected⟩
  · unfold ReceiverKind.flow
    rw [h.source, h.sport, h.dport]
  · rw [← hpayload, payloadBytes_length (by omega)]

theorem takenFrom_of_filledIn {dport : BitVec 16} {recvTime : BitVec 64} {msg : Datagram}
    {pktInfo pktInfo' : PacketInfo}
    (hsame : SameFlow (Receiver.filledIn dport recvTime msg pktInfo) pktInfo')
    (hdissected : Dissected msg.data pktInfo') : TakenFrom (.receiver dport) msg pktInfo' := by
  have hfilled := Receiver.filledIn_payloadSize dport recvTime msg pktInfo
  have hsize : pktInfo'.payloadSize.toNat = msg.data.length :=
    (congrArg (fun p => p.payloadSize.toNat) hsame).trans hfilled
  refine ⟨?_, payloadBytes_whole (congrArg PacketInfo.payload hsame) hsize, hsize, hdissected⟩
  exact congrArg (fun p => (⟨p.source, p.sport, p.dport⟩ : FlowKey)) hsame

theorem receive_taken (kind : ReceiverKind) (recvTime : BitVec 64) (msg : Datagram)
    (rcv : Receiving) :
    ∃ rcv', receive kind.processPacket recvTime msg rcv = .ok (kind.status msg, rcv') ∧
      shownPackets rcv'.oh = shownPackets rcv.oh ∧
      ((kind.status msg).shows = true → TakenFrom kind msg rcv'.pktInfo) := by
  have hoh : ∀ {status rcv'}, receive kind.processPacket recvTime msg rcv = .ok (status, rcv') →
      shownPackets rcv'.oh = shownPackets rcv.oh := receive_hasShown kind rfl
  cases kind with
  | receiver dport =>
    obtain ⟨rcv', hrun, hsame, hdissected⟩ := receive_filledIn dport recvTime msg rcv
    exact ⟨rcv', hrun, hoh hrun, fun _ => takenFrom_of_filledIn hsame hdissected⟩
  | ipRawReceiver group =>
    obtain ⟨status, rcv', hrun, hprocessed⟩ :=
      IPRawReceiver.receive_processed group recvTime msg rcv
    obtain rfl := status_of_processed hprocessed
    refine ⟨rcv', hrun, hoh hrun, ?_⟩
    intro hshows
    apply takenFrom_of_shown
    apply hprocessed.packet
    cases hstatus : ReceiverKind.status (.ipRawReceiver group) msg with
    | Filtered =>
      rw [hstatus] at hshows
      cases hshows
    | AcceptedNoShow =>
      rw [hstatus] at hshows
      cases hshows
    | AcceptedShow => rfl

/-! ### The limit -/

namespace Limiter

-- The choice that `main` makes by `count` of the configuration.
def ofCount (count : BitVec 64) : Limiter := if count = 0 then unlimited else limited count 0

/-- The accepted packets that the loop gets to see. -/
def takes {α : Type} : Limiter → List α → List α
  | unlimited, l => l
  | limited limit count, l => l.take (limit.toNat - count.toNat)

def Open : Limiter → Prop
  | unlimited => True
  | limited limit count => count.toNat < limit.toNat

theorem ofCount_open (count : BitVec 64) : (ofCount count).Open := by
  unfold ofCount
  split_ifs with hzero
  · exact trivial
  · have hne : count.toNat ≠ 0 := fun h => hzero (BitVec.eq_of_toNat_eq h)
    exact Nat.pos_of_ne_zero hne

variable {α : Type}

theorem takes_nil (limit : Limiter) : limit.takes ([] : List α) = [] := by
  cases limit with
  | unlimited => rfl
  | limited limit count => exact List.take_nil

theorem takes_of_reached {limit : Limiter} (hopen : limit.Open) (h : limit.reached.1 = true) (a : α)
    (l : List α) : limit.takes (a :: l) = [a] := by
  cases limit with
  | unlimited => cases h
  | limited limit count =>
    have hlt : count.toNat < limit.toNat := hopen
    have hlimit := limit.isLt
    have hone : (1 : BitVec 64).toNat = 1 := rfl
    have hge := BitVec.le_def.mp (of_decide_eq_true h)
    rw [BitVec.toNat_add_of_lt (by omega), hone] at hge
    have hleft : limit.toNat - count.toNat = 1 := by omega
    show (a :: l).take (limit.toNat - count.toNat) = [a]
    rw [hleft]
    rfl

theorem takes_of_not_reached {limit : Limiter} (hopen : limit.Open) (h : limit.reached.1 = false) :
    limit.reached.2.Open ∧
      ∀ (a : α) (l : List α), limit.takes (a :: l) = a :: limit.reached.2.takes l := by
  cases limit with
  | unlimited => exact ⟨trivial, fun _ _ => rfl⟩
  | limited limit count =>
    have hlt : count.toNat < limit.toNat := hopen
    have hlimit := limit.isLt
    have hone : (1 : BitVec 64).toNat = 1 := rfl
    have hnot := of_decide_eq_false h
    have hsum : (count + 1).toNat = count.toNat + 1 := BitVec.toNat_add_of_lt (by omega)
    rw [ge_iff_le, BitVec.le_def, hsum] at hnot
    refine ⟨?_, ?_⟩
    · show (count + 1).toNat < limit.toNat
      omega
    · intro a l
      have hleft : limit.toNat - count.toNat = (limit.toNat - (count + 1).toNat) + 1 := by omega
      show (a :: l).take (limit.toNat - count.toNat) = a :: l.take (limit.toNat - (count + 1).toNat)
      rw [hleft]
      rfl

end Limiter

/-! ### Runs of the loop -/

namespace ReceiverKind

/-- The datagram that an iteration accepts. -/
def heard (kind : ReceiverKind) (w : Wakeup) : Option Datagram :=
  match w.wake with
  | .interrupted => none
  | .failed => none
  | .timeout => none
  | .data msg => if (kind.status msg).accepted then some msg else none

def shows (kind : ReceiverKind) (msg : Datagram) : Bool := (kind.status msg).shows

/-- The datagrams that the loop shows, in the order in which they come. -/
def shown (kind : ReceiverKind) (limit : Limiter) (ws : List Wakeup) : List Datagram :=
  (limit.takes (ws.filterMap kind.heard)).filter kind.shows

end ReceiverKind

/-- From `s` to `t` these datagrams have been shown and counted. -/
def Shows (kind : ReceiverKind) (msgs : List Datagram) (s t : ReceiveState) : Prop :=
  (∃ infos, shownPackets t.rcv.oh = shownPackets s.rcv.oh ++ infos ∧
    List.Forall₂ (TakenFrom kind) msgs infos) ∧
  t.rxStats = (msgs.map kind.rxUpdate).foldl RxStats.apply s.rxStats

variable {kind : ReceiverKind}

theorem shows_nothing {s t : ReceiveState}
    (hoh : shownPackets t.rcv.oh = shownPackets s.rcv.oh) (hstats : t.rxStats = s.rxStats) :
    Shows kind [] s t :=
  ⟨⟨[], hoh.trans (List.append_nil _).symm, List.Forall₂.nil⟩, hstats⟩

theorem shows_one {msg : Datagram} {s : ReceiveState} {rcv : Receiving} {timer : Timer}
    {limit : Limiter} (hoh : shownPackets rcv.oh = shownPackets s.rcv.oh)
    (htaken : TakenFrom kind msg rcv.pktInfo) :
    Shows kind [msg] s
      { showAndCount { s with rcv := rcv, timer := timer } with limit := limit } := by
  have hsize : (rcv.pktInfo.payloadSize.setWidth 64 : BitVec 64) =
      BitVec.ofNat 64 (kind.payload msg).length := by
    rw [← htaken.payloadSize]
    exact (BitVec.ofNat_toNat _ _).symm
  have hupdate : s.rxStats.update rcv.pktInfo.source rcv.pktInfo.sport rcv.pktInfo.dport
      (rcv.pktInfo.payloadSize.setWidth 64) = s.rxStats.apply (kind.rxUpdate msg) := by
    unfold RxStats.apply ReceiverKind.rxUpdate
    rw [← htaken.flow, hsize]
  refine ⟨⟨[rcv.pktInfo], ?_, List.Forall₂.cons htaken List.Forall₂.nil⟩, hupdate⟩
  show shownPackets (rcv.oh ++ [.receivedPacket rcv.pktInfo]) = _
  unfold shownPackets at hoh ⊢
  rw [List.filterMap_append, hoh]
  rfl

theorem Shows.trans {msgs msgs' : List Datagram} {s t u : ReceiveState} (h : Shows kind msgs s t)
    (h' : Shows kind msgs' t u) : Shows kind (msgs ++ msgs') s u := by
  obtain ⟨⟨infos, hoh, htaken⟩, hstats⟩ := h
  obtain ⟨⟨infos', hoh', htaken'⟩, hstats'⟩ := h'
  refine ⟨⟨infos ++ infos', ?_, List.rel_append htaken htaken'⟩, ?_⟩
  · rw [hoh', hoh, List.append_assoc]
  · rw [hstats', hstats, List.map_append, List.foldl_append]

/-- What an iteration does with the datagram that it hears. -/
structure Hears (kind : ReceiverKind) (w : Wakeup) (s : ReceiveState) (returns : Bool)
    (s' : ReceiveState) : Prop where
  deaf : kind.heard w = none → returns = false ∧ s'.limit = s.limit
  heard : ∀ msg, kind.heard w = some msg →
    returns = s.limit.reached.1 ∧ s'.limit = s.limit.reached.2
  shows : Shows kind ((kind.heard w).toList.filter kind.shows) s s'

theorem hears_nothing {w : Wakeup} {s s' : ReceiveState} (hheard : kind.heard w = none)
    (hlimit : s'.limit = s.limit) (hoh : shownPackets s'.rcv.oh = shownPackets s.rcv.oh)
    (hstats : s'.rxStats = s.rxStats) : Hears kind w s false s' where
  deaf := fun _ => ⟨rfl, hlimit⟩
  heard := by
    intro msg hmsg
    rw [hheard] at hmsg
    cases hmsg
  shows := by
    rw [hheard]
    exact shows_nothing hoh hstats

theorem iterate_data (kind : ReceiverKind) {w : Wakeup} (s : ReceiveState) {msg : Datagram}
    (hwake : w.wake = .data msg) :
    ∃ event returns s', iterate kind.processPacket w s = .ok (event, returns, s') ∧
      Hears kind w s returns s' := by
  obtain ⟨rcv, hreceive, hoh, htaken⟩ := receive_taken kind w.reading msg s.rcv
  have htimestamp : (s.timer.save w.reading).timestamp = w.reading := rfl
  cases haccepted : (kind.status msg).accepted with
  | false =>
    have hheard : kind.heard w = none := by
      simp [ReceiverKind.heard, hwake, haccepted]
    exact ⟨_, _, _, iterate_filtered hwake hreceive haccepted, hears_nothing hheard rfl hoh rfl⟩
  | true =>
    have hheard : kind.heard w = some msg := by
      simp [ReceiverKind.heard, hwake, haccepted]
    obtain ⟨received, hreceived⟩ : ∃ received : ReceiveState, received =
      { s with rcv := rcv, timer := (s.timer.save w.reading).reset } := ⟨_, rfl⟩
    have hrun : iterate kind.processPacket w s = .ok (.accepted, s.limit.reached.1,
        { (if (kind.status msg).shows then showAndCount received else received) with
          limit := s.limit.reached.2 }) := by
      unfold iterate
      simp only [hwake, htimestamp, hreceive, haccepted, if_true, hreceived]
      split_ifs <;> rfl
    refine ⟨_, _, _, hrun, ?_, ?_, ?_⟩
    · intro hnone
      rw [hheard] at hnone
      cases hnone
    · exact fun _ _ => ⟨rfl, rfl⟩
    · rw [hheard, Option.toList_some]
      cases hshows : (kind.status msg).shows with
      | false =>
        have hkept : [msg].filter kind.shows = [] := by simp [ReceiverKind.shows, hshows]
        rw [hkept, hreceived]
        exact shows_nothing hoh rfl
      | true =>
        have hkept : [msg].filter kind.shows = [msg] := by simp [ReceiverKind.shows, hshows]
        rw [hkept, hreceived]
        exact shows_one hoh (htaken hshows)

theorem iterate_hears (kind : ReceiverKind) {w : Wakeup} (s : ReceiveState)
    (hwake : w.wake ≠ .failed) :
    ∃ event returns s', iterate kind.processPacket w s = .ok (event, returns, s') ∧
      Hears kind w s returns s' := by
  cases hw : w.wake with
  | interrupted =>
    have hheard : kind.heard w = none := by simp [ReceiverKind.heard, hw]
    refine ⟨.idle, false, { s with timer := s.timer.save w.reading }, ?_, ?_⟩
    · unfold iterate
      rw [hw]
    · exact hears_nothing hheard rfl rfl rfl
  | failed => exact absurd hw hwake
  | timeout =>
    have hheard : kind.heard w = none := by simp [ReceiverKind.heard, hw]
    have hshowTimeout : shownPackets (s.rcv.showTimeout w.reading).oh = shownPackets s.rcv.oh := by
      show shownPackets (s.rcv.oh ++ [.timeout w.reading]) = _
      unfold shownPackets
      rw [List.filterMap_append]
      exact List.append_nil _
    rw [iterate_timeout kind.processPacket hw]
    split_ifs
    · exact ⟨_, _, _, rfl, hears_nothing hheard rfl hshowTimeout rfl⟩
    · exact ⟨_, _, _, rfl, hears_nothing hheard rfl rfl rfl⟩
  | data msg => exact iterate_data kind s hw

theorem receiveLoop_shows (kind : ReceiverKind) (ws : List Wakeup) (s : ReceiveState)
    (hwakes : ∀ w ∈ ws, w.wake ≠ .failed) (hopen : s.limit.Open) :
    ∃ its t, receiveLoop kind.processPacket ws s = .ok (its, t) ∧
      Shows kind (kind.shown s.limit ws) s t := by
  induction ws generalizing s with
  | nil =>
    have hshown : kind.shown s.limit [] = [] := by
      unfold ReceiverKind.shown
      rw [List.filterMap_nil, Limiter.takes_nil]
      rfl
    refine ⟨[], s, rfl, ?_⟩
    rw [hshown]
    exact shows_nothing rfl rfl
  | cons w ws ih =>
    obtain ⟨event, returns, s', hrun, hhears⟩ := iterate_hears kind s (hwakes w List.mem_cons_self)
    have hrest := fun w' hw' => hwakes w' (List.mem_cons_of_mem w hw')
    unfold receiveLoop
    simp only [hrun]
    cases returns with
    | true =>
      have hshown : kind.shown s.limit (w :: ws) = (kind.heard w).toList.filter kind.shows := by
        cases hheard : kind.heard w with
        | none => cases (hhears.deaf hheard).1
        | some msg =>
          unfold ReceiverKind.shown
          rw [List.filterMap_cons_some hheard,
            Limiter.takes_of_reached hopen (hhears.heard msg hheard).1.symm]
          rfl
      refine ⟨[⟨s, w, event⟩], s', rfl, ?_⟩
      rw [hshown]
      exact hhears.shows
    | false =>
      obtain ⟨hopen', hshown⟩ : s'.limit.Open ∧ kind.shown s.limit (w :: ws) =
          (kind.heard w).toList.filter kind.shows ++ kind.shown s'.limit ws := by
        unfold ReceiverKind.shown
        cases hheard : kind.heard w with
        | none =>
          obtain ⟨_, hlimit⟩ := hhears.deaf hheard
          rw [List.filterMap_cons_none hheard, hlimit]
          exact ⟨hopen, rfl⟩
        | some msg =>
          obtain ⟨hreached, hlimit⟩ := hhears.heard msg hheard
          obtain ⟨hopen', htakes⟩ := Limiter.takes_of_not_reached hopen hreached.symm
          rw [List.filterMap_cons_some hheard, htakes, hlimit, ← List.filter_append]
          exact ⟨hopen', rfl⟩
      obtain ⟨its, t, hloop, hshows⟩ := ih s' hrest hopen'
      refine ⟨⟨s, w, event⟩ :: its, t, ?_, ?_⟩
      · simp only [hloop, Bool.false_eq_true, if_false]
      · rw [hshown]
        exact hhears.shows.trans hshows

/-! ### Sessions -/

def ReceiverKind.isBeacon (kind : ReceiverKind) (msg : Datagram) : Bool :=
  decide (IsBeacon (kind.payload msg))

/-- The beacons among the datagrams come from the sender: `arrived` has them in the order of their
arrival, each with the number of a packet that it is a copy of. -/
structure Brings (sent : List (List Byte)) (kind : ReceiverKind) (msgs : List Datagram)
    (arrived : List (Datagram × ℕ)) : Prop where
  beacons : msgs.filter kind.isBeacon = arrived.map Prod.fst
  copies : ∀ a ∈ arrived, sent[a.2]? = some (kind.payload a.1)

theorem forall₂_beacons {msgs : List Datagram} {infos : List PacketInfo}
    (h : List.Forall₂ (TakenFrom kind) msgs infos) :
    List.Forall₂ (TakenFrom kind) (msgs.filter kind.isBeacon)
      (infos.filter PacketInfo.mclstBeacon) := by
  induction h with
  | nil => exact List.Forall₂.nil
  | @cons msg pktInfo msgs infos htaken _ ih =>
    have hflag : kind.isBeacon msg = pktInfo.mclstBeacon :=
      Bool.eq_iff_iff.mpr (decide_eq_true_iff.trans htaken.dissected.beacon.symm)
    rw [List.filter_cons, List.filter_cons, hflag]
    split_ifs
    · exact List.Forall₂.cons htaken ih
    · exact ih

theorem packets_getElem {host : SenderHost} {n i : ℕ} {data : List Byte}
    (h : (packets host n)[i]? = some data) :
    data = packet host.hostname (host.gethostnanos (2 * i)) (BitVec.ofNat 64 i) := by
  unfold packets at h
  obtain ⟨j, hj, hdata⟩ := Option.map_eq_some_iff.mp (List.getElem?_map.symm.trans h)
  obtain ⟨_, rfl⟩ := List.getElem?_eq_some_iff.mp hj
  rw [List.getElem_range] at hdata
  exact hdata.symm

theorem recognised_of_brings {host : SenderHost} {n : ℕ} {msgs : List Datagram}
    {infos : List PacketInfo} {arrived : List (Datagram × ℕ)}
    (hfits : host.hostname.length < 1024) (hinfos : List.Forall₂ (TakenFrom kind) msgs infos)
    (hbrings : Brings (packets host n) kind msgs arrived) :
    List.Forall₂ (fun a pktInfo => Recognised host.hostname (host.gethostnanos (2 * a.2))
      (BitVec.ofNat 64 a.2) a.1.data pktInfo) arrived (infos.filter PacketInfo.mclstBeacon) := by
  have hbeacons := forall₂_beacons hinfos
  rw [hbrings.beacons, List.forall₂_map_left_iff] at hbeacons
  apply ((List.forall₂_and_left _ _).mpr ⟨hbrings.copies, hbeacons⟩).imp
  intro a pktInfo h
  obtain ⟨hcopy, htaken⟩ := h
  have hpayload := htaken.payload
  have hdissected := htaken.dissected
  rw [← hpayload] at hdissected
  exact recognised_of_dissected hfits (hpayload.trans (packets_getElem hcopy)) hdissected

/-- The network may lose, repeat and reorder the packets, and bring others. -/
theorem session_exact (host : SenderHost) (count : BitVec 64) (stop : ℕ)
    (hfits : host.hostname.length < 1024) (hsendto : ∀ i, host.sendto i = true)
    (hstop : StopsAt host count stop) (kind : ReceiverKind) (start : BitVec 64)
    (timeoutSec : BitVec 32) (limit : BitVec 64) (rcv : Receiving) (hnew : rcv.oh = [])
    (ws : List Wakeup) (hwakes : ∀ w ∈ ws, w.wake ≠ .failed) :
    ∃ r its t, Returns (Sender.run host count) r ∧
      r.sent = packets host (sentCount count stop) ∧
      receiveLoop kind.processPacket ws
        (.entered start timeoutSec rcv (.ofCount limit) RxStats.empty) = .ok (its, t) ∧
      List.Forall₂ (TakenFrom kind) (kind.shown (.ofCount limit) ws) (shownPackets t.rcv.oh) ∧
      t.rxStats = RxStats.run ((kind.shown (.ofCount limit) ws).map kind.rxUpdate) ∧
      ∀ arrived, Brings r.sent kind (kind.shown (.ofCount limit) ws) arrived →
        List.Forall₂ (fun a pktInfo => Recognised host.hostname (host.gethostnanos (2 * a.2))
          (BitVec.ofNat 64 a.2) a.1.data pktInfo) arrived
            ((shownPackets t.rcv.oh).filter PacketInfo.mclstBeacon) := by
  obtain ⟨r, hrun, hsent, _⟩ := run_returns hfits hsendto hstop
  obtain ⟨its, t, hloop, ⟨infos, hoh, htaken⟩, hstats⟩ := receiveLoop_shows kind ws
    (.entered start timeoutSec rcv (.ofCount limit) RxStats.empty) hwakes
    (Limiter.ofCount_open limit)
  have hinfos : shownPackets t.rcv.oh = infos := by
    have hstart : shownPackets rcv.oh = [] := by
      rw [hnew]
      rfl
    rw [hoh]
    show shownPackets rcv.oh ++ infos = infos
    rw [hstart, List.nil_append]
  refine ⟨r, its, t, hrun, hsent, hloop, hinfos ▸ htaken, hstats, ?_⟩
  intro arrived hbrings
  rw [hsent] at hbrings
  rw [hinfos]
  exact recognised_of_brings hfits htaken hbrings

/-- A sender that is stopped after four packets. -/
def fourPackets : SenderHost where
  hostname := [0x6D, 0x31]
  hostname_nul := by decide
  pkt := List.replicate 1050 0xFF
  pkt_size := List.length_replicate
  gethostnanos := fun k => BitVec.ofNat 64 (1000 * k)
  stopped := fun i => decide (4 ≤ i)
  sendto := fun _ => true

/-- A packet of `fourPackets` to 239.1.2.3 as a raw socket reads it. -/
def rawBeacon (timeNs seq : BitVec 64) : Datagram where
  sender := ⟨0, 0⟩
  control := [.ttl 64]
  data := [0x45, 0, 0, 56, 0, 0, 0, 0, 64, 17, 0, 0, 10, 0, 0, 2, 239, 1, 2, 3,
    0x13, 0x88, 0x17, 0x70, 0, 36, 0, 0] ++ packet [0x6D, 0x31] timeNs seq
  fits := by
    rw [List.length_append, packet_length]
    decide

/-- Two packets are lost, the third comes first and once more, and other datagrams come between. -/
def sampleSession : List Wakeup :=
  [⟨3, .data (rawBeacon 4000 2)⟩, ⟨4, .data (rawBeacon 0 0)⟩, ⟨5, .data unicastDatagram⟩,
    ⟨6, .data multicastDatagram⟩, ⟨7, .interrupted⟩, ⟨8, .data (rawBeacon 4000 2)⟩]

theorem session_exact_example :
    ∃ r its t, Returns (Sender.run fourPackets 0) r ∧ r.sent.length = 4 ∧
      receiveLoop (ReceiverKind.ipRawReceiver (.ofOctets 239 1 2 3)).processPacket sampleSession
        (.entered 0 1 .start (.ofCount 0) RxStats.empty) = .ok (its, t) ∧
      List.Forall₂ (fun a pktInfo => Recognised [0x6D, 0x31] (BitVec.ofNat 64 (1000 * (2 * a.2)))
          (BitVec.ofNat 64 a.2) a.1.data pktInfo)
        [(rawBeacon 4000 2, 2), (rawBeacon 0 0, 0), (rawBeacon 4000 2, 2)]
        ((shownPackets t.rcv.oh).filter PacketInfo.mclstBeacon) := by
  have hstop : StopsAt fourPackets 0 4 := ⟨by decide, Or.inl rfl⟩
  have hwakes : ∀ w ∈ sampleSession, w.wake ≠ .failed := by
    simp [sampleSession]
  obtain ⟨r, its, t, hrun, hsent, hloop, _, _, hbeacons⟩ := session_exact fourPackets 0 4
    (by decide) (fun _ => rfl) hstop (.ipRawReceiver (.ofOctets 239 1 2 3)) 0 1 0 .start rfl
    sampleSession hwakes
  refine ⟨r, its, t, hrun, ?_, hloop, hbeacons _ ⟨?_, ?_⟩⟩
  · rw [hsent]
    rfl
  · decide
  · rw [hsent]
    decide

end Pimc.Mclst
