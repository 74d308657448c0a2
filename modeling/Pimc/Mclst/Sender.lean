import Pimc.Lib.Outcome
import Pimc.Mclst.PacketInfo

/-!
# The sender (apps/mclst/Sender.hpp, Sender.cpp)

The memory of `MemM` is `pkt_`. The calls on the socket are left out but for
`sendto`; reading `i` of the clock, test `i` of `stopped` and the result of
packet `i` come from the host.
-/

namespace Pimc.Mclst

open Lib

structure SenderHost where
  hostname : List Byte
  hostname_nul : ∀ b ∈ hostname, b ≠ 0
  -- What `pkt_` holds before it is written to.
  pkt : List Byte
  pkt_size : pkt.length = 26 + 1024
  gethostnanos : ℕ → BitVec 64
  stopped : ℕ → Bool
  sendto : ℕ → Bool

namespace Sender

def messageSize : ℕ := 1024

-- `gethostname` into `pkt_.message`.
def gethostname (hostname : List Byte) : MemM Unit :=
  if hostname.length < messageSize then storeAt 26 (hostname ++ [0])
  else raise "unable to get local host name"

def strlen (s : ℕ) : MemM ℕ := fun mem =>
  match (mem.drop s).findIdx? (· == 0) with
  | some n => .ok (n, mem)
  | none => .error .outside

/-- The part of `init` that fills in the packet; it returns `pktSize_`. -/
def init (hostname : List Byte) : MemM SizeT := do
  gethostname hostname
  let msgLen ← strlen 26
  storeAt (26 + (messageSize - 1)) [0]
  storeAt 0 (image64 (htobe64 MclstMagic))
  storeAt 24 (image16 (htobe16 (BitVec.ofNat 16 msgLen)))
  return MclstBeaconHdr.size + BitVec.ofNat 64 msgLen

/-- The assignments before `sendto`, and the bytes that it gets. -/
def assemble (pktSize : SizeT) (timeNs seq : BitVec 64) : MemM (List Byte) := do
  storeAt 16 (image64 (htobe64 timeNs))
  storeAt 8 (image64 (htobe64 seq))
  loadAt 0 pktSize.toNat

end Sender

structure Sender where
  pkt : List Byte
  seq : BitVec 64
  pktSize : SizeT
  readings : ℕ
  tests : ℕ
  sent : List (List Byte)
  -- The arguments of `showSentPacket`.
  shown : List (BitVec 64 × BitVec 64)

namespace Sender

/-- One packet, up to the increment of `seq_`. -/
def sendOne (host : SenderHost) (s : Sender) : Outcome MemError Sender :=
  match (assemble s.pktSize (host.gethostnanos s.readings) s.seq).run s.pkt with
  | .error e => .throws e
  | .ok (data, pkt) =>
    if host.sendto s.sent.length then
      .ret { s with
        pkt := pkt
        seq := s.seq + 1
        readings := s.readings + 2
        sent := s.sent ++ [data]
        shown := s.shown ++ [(host.gethostnanos (s.readings + 1), s.seq)] }
    else .throws (.raised "failed to send packet")

/-- The loop, with at most `fuel` tests of `stopped`. -/
def sendLoop (host : SenderHost) (count : BitVec 64) : ℕ → Sender → Outcome MemError Sender
  | 0, _ => .running
  | fuel + 1, s =>
    if host.stopped s.tests then .ret { s with tests := s.tests + 1 }
    else do
      let s ← sendOne host { s with tests := s.tests + 1 }
      if count ≠ 0 ∧ s.seq ≥ count then return s
      else sendLoop host count fuel s

/-- What `run` leaves: the packets sent, and the arguments of `showTxStats`. -/
structure Run where
  sent : List (List Byte)
  count : BitVec 64
  stopped : Bool
  deriving DecidableEq, Repr

def run (host : SenderHost) (count : BitVec 64) (fuel : ℕ) : Outcome MemError Run :=
  match (init host.hostname).run host.pkt with
  | .error e => .throws e
  | .ok (pktSize, pkt) => do
    let s ← sendLoop host count fuel ⟨pkt, 0, pktSize, 0, 0, [], []⟩
    return ⟨s.sent, s.seq + 1, host.stopped s.tests⟩

/-! ### The packet -/

def packet (hostname : List Byte) (timeNs seq : BitVec 64) : List Byte :=
  be64 MclstMagic ++ be64 seq ++ be64 timeNs ++ be16 (BitVec.ofNat 16 hostname.length) ++ hostname

/-- `pkt_` after `init`: the fields `seq` and `timeNs` vary. -/
def Laid (hostname mem : List Byte) : Prop :=
  ∃ seq timeNs tail : List Byte, seq.length = 8 ∧ timeNs.length = 8 ∧
    mem = be64 MclstMagic ++ (seq ++ (timeNs ++ (be16 (BitVec.ofNat 16 hostname.length) ++
      (hostname ++ tail))))

theorem be64_length (v : BitVec 64) : (be64 v).length = 8 := rfl

theorem be16_length (v : BitVec 16) : (be16 v).length = 2 := rfl

theorem strlen_run {front name back : List Byte} (hname : ∀ b ∈ name, b ≠ 0) :
    (strlen front.length).run (front ++ (name ++ 0 :: back)) =
      .ok (name.length, front ++ (name ++ 0 :: back)) := by
  have hfind : (name ++ 0 :: back).findIdx? (· == 0) = some name.length := by
    induction name with
    | nil => rfl
    | cons b name ih =>
      have hb : (b == 0) = false := beq_eq_false_iff_ne.mpr (hname b List.mem_cons_self)
      have htail := ih fun c hc => hname c (List.mem_cons_of_mem b hc)
      rw [List.cons_append, List.findIdx?_cons, hb, htail]
      rfl
  simp only [strlen, StateT.run, List.drop_left, hfind]

theorem cut (l : List Byte) {n m : ℕ} (h : l.length = n + m) :
    ∃ a b, l = a ++ b ∧ a.length = n ∧ b.length = m := by
  refine ⟨l.take n, l.drop n, (List.take_append_drop n l).symm, ?_, ?_⟩
  · rw [List.length_take]
    omega
  · rw [List.length_drop]
    omega

theorem init_run {hostname pkt : List Byte} (hpkt : pkt.length = 26 + 1024)
    (hfits : hostname.length < 1024) (hname : ∀ b ∈ hostname, b ≠ 0) :
    ∃ pkt', (init hostname).run pkt = .ok (26 + BitVec.ofNat 64 hostname.length, pkt') ∧
      Laid hostname pkt' := by
  obtain ⟨hdr, message, hpkt_eq, hhdr, hmessage⟩ := cut pkt hpkt
  obtain ⟨magic, rest, hhdr_eq, hmagic, hrest⟩ := cut hdr (n := 8) (m := 18) hhdr
  obtain ⟨middle, dataLen, hrest_eq, hmiddle, hdataLen⟩ := cut rest (n := 16) (m := 2) hrest
  obtain ⟨seq, timeNs, hmiddle_eq, hseq, htimeNs⟩ := cut middle (n := 8) (m := 8) hmiddle
  obtain ⟨old, free, hmessage_eq, hold, hfree⟩ :=
    cut message (n := hostname.length + 1) (m := 1023 - hostname.length) (by omega)
  obtain ⟨front, last, hlast⟩ : ∃ front last, (0 : Byte) :: free = front ++ [last] :=
    ⟨_, _, (List.dropLast_append_getLast (List.cons_ne_nil 0 free)).symm⟩
  have hfront : front.length = 1023 - hostname.length := by
    have hlen := congrArg List.length hlast
    simp only [List.length_cons, List.length_append, List.length_nil] at hlen
    omega
  have hgethostname : (gethostname hostname).run pkt = .ok ((), hdr ++ (hostname ++ 0 :: free)) := by
    unfold gethostname messageSize
    rw [if_pos hfits, hpkt_eq, hmessage_eq, storeAt_run hdr old free _ hhdr (by simp [hold])]
    simp
  have hstrlen : (strlen 26).run (hdr ++ (hostname ++ 0 :: free)) =
      .ok (hostname.length, hdr ++ (hostname ++ 0 :: free)) := by
    rw [← hhdr]
    exact strlen_run hname
  have hlastByte : (storeAt (26 + (messageSize - 1)) [0]).run (hdr ++ (hostname ++ 0 :: free)) =
      .ok ((), hdr ++ (hostname ++ (front ++ [0]))) := by
    have hsplit : hdr ++ (hostname ++ 0 :: free) = (hdr ++ (hostname ++ front)) ++ ([last] ++ []) := by
      rw [hlast]
      simp
    have hoff : (hdr ++ (hostname ++ front)).length = 26 + (messageSize - 1) := by
      simp only [List.length_append, hhdr, hfront, messageSize]
      omega
    rw [hsplit, storeAt_run _ [last] [] [0] hoff rfl]
    simp
  have hstoreMagic : (storeAt 0 (image64 (htobe64 MclstMagic))).run
      (hdr ++ (hostname ++ (front ++ [0]))) =
      .ok ((), be64 MclstMagic ++ (rest ++ (hostname ++ (front ++ [0])))) := by
    rw [hhdr_eq, image64_htobe64, List.append_assoc]
    exact storeAt_run [] magic _ _ rfl (by rw [be64_length, hmagic])
  have hstoreLen : (storeAt 24 (image16 (htobe16 (BitVec.ofNat 16 hostname.length)))).run
      (be64 MclstMagic ++ (rest ++ (hostname ++ (front ++ [0])))) =
      .ok ((), (be64 MclstMagic ++ middle) ++
        (be16 (BitVec.ofNat 16 hostname.length) ++ (hostname ++ (front ++ [0])))) := by
    have hsplit : be64 MclstMagic ++ (rest ++ (hostname ++ (front ++ [0]))) =
        (be64 MclstMagic ++ middle) ++ (dataLen ++ (hostname ++ (front ++ [0]))) := by
      rw [hrest_eq]
      simp only [List.append_assoc]
    have himage : image16 (htobe16 (BitVec.ofNat 16 hostname.length)) =
        be16 (BitVec.ofNat 16 hostname.length) := image16_htons _
    rw [hsplit, himage]
    exact storeAt_run _ dataLen _ _ (by rw [List.length_append, be64_length, hmiddle])
      (by rw [be16_length, hdataLen])
  refine ⟨_, ?_, seq, timeNs, front ++ [0], hseq, htimeNs, rfl⟩
  unfold init
  rw [run_bind_ok hgethostname, run_bind_ok hstrlen, run_bind_ok hlastByte,
    run_bind_ok hstoreMagic, run_bind_ok hstoreLen, hmiddle_eq]
  simp only [List.append_assoc]
  rfl

theorem assemble_run {hostname mem : List Byte} (timeNs seq : BitVec 64)
    (hfits : hostname.length < 1024) (hmem : Laid hostname mem) :
    ∃ mem', (assemble (26 + BitVec.ofNat 64 hostname.length) timeNs seq).run mem =
      .ok (packet hostname timeNs seq, mem') ∧ Laid hostname mem' := by
  obtain ⟨oldSeq, oldTime, tail, hseq, htime, rfl⟩ := hmem
  obtain ⟨after, hafter⟩ : ∃ after, after =
    be16 (BitVec.ofNat 16 hostname.length) ++ (hostname ++ tail) := ⟨_, rfl⟩
  have hstoreTime : (storeAt 16 (image64 (htobe64 timeNs))).run
      (be64 MclstMagic ++ (oldSeq ++ (oldTime ++ after))) =
      .ok ((), be64 MclstMagic ++ (oldSeq ++ (be64 timeNs ++ after))) := by
    have hrun := storeAt_run (be64 MclstMagic ++ oldSeq) oldTime after (be64 timeNs)
      (by rw [List.length_append, be64_length, hseq])
      (by rw [be64_length, htime])
    rw [List.append_assoc, List.append_assoc] at hrun
    rw [image64_htobe64]
    exact hrun
  have hstoreSeq : (storeAt 8 (image64 (htobe64 seq))).run
      (be64 MclstMagic ++ (oldSeq ++ (be64 timeNs ++ after))) =
      .ok ((), be64 MclstMagic ++ (be64 seq ++ (be64 timeNs ++ after))) := by
    rw [image64_htobe64]
    exact storeAt_run (be64 MclstMagic) oldSeq _ _ rfl (by rw [be64_length, hseq])
  have hsize : (26 + BitVec.ofNat 64 hostname.length : SizeT).toNat =
      (packet hostname timeNs seq).length := by
    have hlength : (packet hostname timeNs seq).length = 26 + hostname.length := by
      unfold packet
      simp only [List.length_append, be64_length, be16_length]
    have hname : (BitVec.ofNat 64 hostname.length).toNat = hostname.length := by
      rw [BitVec.toNat_ofNat, Nat.mod_eq_of_lt (by omega)]
    have htwentysix : (26 : SizeT).toNat = 26 := rfl
    rw [hlength, BitVec.toNat_add_of_lt (by omega), hname, htwentysix]
  have hload : (loadAt 0 (26 + BitVec.ofNat 64 hostname.length : SizeT).toNat).run
      (be64 MclstMagic ++ (be64 seq ++ (be64 timeNs ++ after))) =
      .ok (packet hostname timeNs seq, be64 MclstMagic ++ (be64 seq ++ (be64 timeNs ++ after))) := by
    have hsplit : be64 MclstMagic ++ (be64 seq ++ (be64 timeNs ++ after)) =
        [] ++ packet hostname timeNs seq ++ tail := by
      rw [hafter, packet]
      simp only [List.append_assoc, List.nil_append]
    rw [hsplit, hsize]
    exact loadAt_run [] (packet hostname timeNs seq) tail
  refine ⟨_, ?_, be64 seq, be64 timeNs, tail, be64_length seq, be64_length timeNs, rfl⟩
  unfold assemble
  rw [← hafter, run_bind_ok hstoreTime, run_bind_ok hstoreSeq, hload]

/-! ### Runs -/

def packets (host : SenderHost) (n : ℕ) : List (List Byte) :=
  (List.range n).map fun i =>
    packet host.hostname (host.gethostnanos (2 * i)) (BitVec.ofNat 64 i)

/-- The state at a test of `stopped`, when `n` packets have been sent. -/
structure SentTo (host : SenderHost) (n : ℕ) (s : Sender) : Prop where
  pkt : Laid host.hostname s.pkt
  seq : s.seq = BitVec.ofNat 64 n
  pktSize : s.pktSize = 26 + BitVec.ofNat 64 host.hostname.length
  readings : s.readings = 2 * n
  sent : s.sent = packets host n

/-- How many packets go out when `stopped` is first seen at test `stop`. -/
def sentCount (count : BitVec 64) (stop : ℕ) : ℕ :=
  if count = 0 then stop else min stop count.toNat

/-- `stopped` is not seen before test `stop`, and then it is, unless the limit comes first. -/
structure StopsAt (host : SenderHost) (count : BitVec 64) (stop : ℕ) : Prop where
  before : ∀ i < stop, host.stopped i = false
  at_stop : host.stopped stop = true ∨ count ≠ 0 ∧ count.toNat ≤ stop

variable {host : SenderHost} {count : BitVec 64} {stop : ℕ}

theorem packets_length (host : SenderHost) (n : ℕ) : (packets host n).length = n := by
  simp [packets]

theorem sendOne_sentTo {n : ℕ} {s : Sender} (hfits : host.hostname.length < 1024)
    (hsendto : ∀ i, host.sendto i = true) (h : SentTo host n s) :
    ∃ s', sendOne host s = .ret s' ∧ SentTo host (n + 1) s' ∧ s'.tests = s.tests := by
  obtain ⟨pkt', hrun, hlaid⟩ :=
    assemble_run (host.gethostnanos s.readings) s.seq hfits h.pkt
  rw [← h.pktSize] at hrun
  have hsent : packets host (n + 1) = packets host n ++
      [packet host.hostname (host.gethostnanos (2 * n)) (BitVec.ofNat 64 n)] := by
    simp [packets, List.range_succ]
  unfold sendOne
  simp only [hrun, hsendto, if_true]
  refine ⟨_, rfl, ?_, rfl⟩
  exact
    { pkt := hlaid
      seq := by
        show s.seq + 1 = _
        rw [h.seq]
        exact (BitVec.ofNat_add n 1).symm
      pktSize := h.pktSize
      readings := by
        show s.readings + 2 = _
        rw [h.readings]
        rfl
      sent := by
        show s.sent ++ _ = _
        rw [hsent, h.sent, h.readings, h.seq] }

theorem SentTo.withTests {n : ℕ} {s : Sender} (h : SentTo host n s) (tests : ℕ) :
    SentTo host n { s with tests := tests } :=
  ⟨h.pkt, h.seq, h.pktSize, h.readings, h.sent⟩

theorem sentCount_le_stop (count : BitVec 64) (stop : ℕ) : sentCount count stop ≤ stop := by
  unfold sentCount
  split_ifs <;> omega

theorem sentCount_le_count (stop : ℕ) (h : count ≠ 0) : sentCount count stop ≤ count.toNat := by
  unfold sentCount
  rw [if_neg h]
  omega

/-- Short of the limit, the loop is at its end only when `stopped` is seen. -/
theorem stopped_of_end {n : ℕ} (hstop : StopsAt host count stop)
    (hlimit : count ≠ 0 → n < count.toNat) (hn : n = sentCount count stop) :
    host.stopped n = true := by
  have hn_stop : n = stop := by
    unfold sentCount at hn
    split_ifs at hn with hcount
    · exact hn
    · have hlt := hlimit hcount
      omega
  rw [hn_stop]
  rcases hstop.at_stop with h | h
  · exact h
  · have hlt := hlimit h.1
    have hle := h.2
    omega

/-- From a test of `stopped` on: the loop returns when `sentCount` packets are out. -/
theorem sendLoop_returns (hfits : host.hostname.length < 1024)
    (hsendto : ∀ i, host.sendto i = true) (hstop : StopsAt host count stop) (k n : ℕ) (s : Sender)
    (hk : n + k = sentCount count stop) (hlimit : count ≠ 0 → n < count.toNat)
    (htests : s.tests = n) (h : SentTo host n s) :
    ∃ s', Returns (fun fuel => sendLoop host count fuel s) s' ∧
      SentTo host (sentCount count stop) s' := by
  induction k generalizing n s with
  | zero =>
    have hend : n = sentCount count stop := hk
    have hstopped : host.stopped s.tests = true := by
      rw [htests]
      exact stopped_of_end hstop hlimit hend
    refine ⟨{ s with tests := s.tests + 1 }, ⟨1, ?_⟩, ?_⟩
    · intro fuel hfuel
      obtain ⟨fuel, rfl⟩ := Nat.exists_eq_add_of_le' hfuel
      simp only [sendLoop, hstopped, if_true]
    · rw [← hend]
      exact h.withTests _
  | succ k ih =>
    have hbefore : host.stopped s.tests = false := by
      have hle := sentCount_le_stop count stop
      rw [htests]
      exact hstop.before n (by omega)
    obtain ⟨s', hone, hs', htests'⟩ := sendOne_sentTo hfits hsendto (h.withTests (s.tests + 1))
    have hloop : ∀ fuel, sendLoop host count (fuel + 1) s =
        if count ≠ 0 ∧ s'.seq ≥ count then .ret s' else sendLoop host count fuel s' := by
      intro fuel
      simp only [sendLoop, hbefore, hone, Bool.false_eq_true, if_false, Outcome.ret_bind,
        Outcome.pure_eq]
    by_cases hreached : count ≠ 0 ∧ s'.seq ≥ count
    · -- the limit is reached with this packet
      have hend : n + 1 = sentCount count stop := by
        have hle := sentCount_le_count stop hreached.1
        have hge : count.toNat ≤ s'.seq.toNat := BitVec.le_def.mp hreached.2
        rw [hs'.seq, BitVec.toNat_ofNat] at hge
        have hmod := Nat.mod_le (n + 1) (2 ^ 64)
        omega
      refine ⟨s', ⟨1, ?_⟩, hend ▸ hs'⟩
      intro fuel hfuel
      obtain ⟨fuel, rfl⟩ := Nat.exists_eq_add_of_le' hfuel
      exact (hloop fuel).trans (if_pos hreached)
    · have hlimit' : count ≠ 0 → n + 1 < count.toNat := by
        intro hcount
        have hlt := hlimit hcount
        have hlt64 := count.isLt
        have hnot : ¬ s'.seq ≥ count := fun hge => hreached ⟨hcount, hge⟩
        rw [ge_iff_le, BitVec.le_def, hs'.seq, BitVec.toNat_ofNat,
          Nat.mod_eq_of_lt (by omega)] at hnot
        omega
      obtain ⟨t, ⟨m, hm⟩, ht⟩ := ih (n + 1) s' (by omega) hlimit' (by rw [htests', htests]) hs'
      refine ⟨t, ⟨m + 1, ?_⟩, ht⟩
      intro fuel hfuel
      obtain ⟨fuel, rfl⟩ := Nat.exists_eq_add_of_le' (le_trans (Nat.le_add_left 1 m) hfuel)
      exact ((hloop fuel).trans (if_neg hreached)).trans (hm fuel (by omega))

theorem run_returns (hfits : host.hostname.length < 1024) (hsendto : ∀ i, host.sendto i = true)
    (hstop : StopsAt host count stop) :
    ∃ r, Returns (run host count) r ∧ r.sent = packets host (sentCount count stop) ∧
      r.count = BitVec.ofNat 64 (sentCount count stop + 1) := by
  obtain ⟨pkt', hinit, hlaid⟩ := init_run host.pkt_size hfits host.hostname_nul
  have hstart : SentTo host 0 ⟨pkt', 0, 26 + BitVec.ofNat 64 host.hostname.length, 0, 0, [], []⟩ :=
    ⟨hlaid, rfl, rfl, rfl, rfl⟩
  have hlimit : count ≠ 0 → 0 < count.toNat := by
    intro hcount
    have hne : count.toNat ≠ 0 := fun h => hcount (BitVec.eq_of_toNat_eq h)
    omega
  obtain ⟨s', hloop, hs'⟩ := sendLoop_returns hfits hsendto hstop (sentCount count stop) 0 _
    (Nat.zero_add _) hlimit rfl hstart
  refine ⟨⟨s'.sent, s'.seq + 1, host.stopped s'.tests⟩, ?_, hs'.sent, ?_⟩
  · unfold run
    simp only [hinit]
    exact hloop.bind (Returns.of_eq fun _ => rfl)
  · show s'.seq + 1 = _
    rw [hs'.seq]
    exact (BitVec.ofNat_add _ 1).symm

/-- The number passed to `showTxStats` is the sequence number after the next one. -/
theorem txStats_never_exact (host : SenderHost) (count : BitVec 64) (stop : ℕ)
    (hfits : host.hostname.length < 1024) (hsendto : ∀ i, host.sendto i = true)
    (hstop : StopsAt host count stop) :
    ∃ r, Returns (run host count) r ∧ r.sent = packets host (sentCount count stop) ∧
      r.count.toNat ≠ r.sent.length := by
  obtain ⟨r, hrun, hsent, hcount⟩ := run_returns hfits hsendto hstop
  refine ⟨r, hrun, hsent, ?_⟩
  rw [hcount, hsent, packets_length, BitVec.toNat_ofNat]
  omega

/-- A host that stops after one packet. -/
def onePacket : SenderHost where
  hostname := [0x6d]
  hostname_nul := by decide
  pkt := List.replicate 1050 0
  pkt_size := List.length_replicate
  gethostnanos := fun _ => 0
  stopped := fun i => decide (1 ≤ i)
  sendto := fun _ => true

theorem onePacket_stopsAt : StopsAt onePacket 0 1 where
  before := by
    intro i hi
    obtain rfl : i = 0 := by omega
    rfl
  at_stop := Or.inl rfl

theorem txStats_never_exact_example :
    ∃ r, Returns (run onePacket 0) r ∧ r.sent = packets onePacket (sentCount 0 1) ∧
      r.count.toNat ≠ r.sent.length :=
  txStats_never_exact onePacket 0 1 (by decide) (fun _ => rfl) onePacket_stopsAt

theorem txStats_two_for_one :
    ∃ r, Returns (run onePacket 0) r ∧ r.sent.length = 1 ∧ r.count = 2 := by
  have hfits : onePacket.hostname.length < 1024 := by decide
  obtain ⟨r, hrun, hsent, hcount⟩ := run_returns hfits (fun _ => rfl) onePacket_stopsAt
  refine ⟨r, hrun, ?_, hcount⟩
  rw [hsent, packets_length]
  rfl

end Sender

end Pimc.Mclst
