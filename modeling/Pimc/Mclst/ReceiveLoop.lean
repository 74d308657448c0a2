import Pimc.Mclst.IPRawReceiver
import Pimc.Mclst.RxStats

/-!
# The receive loop (apps/mclst/ReceiverBase.hpp, Timer.hpp)

The loop consumes a list of wakeups of `select` and ends with the list when
`stopped_` is seen. Its history records what each iteration has done.
-/

namespace Pimc.Mclst

open Lib

structure Timer where
  startNs : BitVec 64
  timestampNs : BitVec 64
  timeoutNs : BitVec 64
  deriving DecidableEq, Repr

namespace Timer

def mk' (now : BitVec 64) (timeoutSec : BitVec 32) : Timer :=
  ⟨now, now, timeoutSec.setWidth 64 * 1000000000⟩

def save (timer : Timer) (now : BitVec 64) : Timer := { timer with timestampNs := now }

def reset (timer : Timer) : Timer := { timer with startNs := timer.timestampNs }

def timeout (timer : Timer) : Bool := decide (timer.timestampNs - timer.startNs ≥ timer.timeoutNs)

def timestamp (timer : Timer) : BitVec 64 := timer.timestampNs

end Timer

-- `UnlimitedPackets` and `LimitedPackets`.
inductive Limiter where
  | unlimited
  | limited (limit count : BitVec 64)
  deriving DecidableEq, Repr

def Limiter.reached : Limiter → Bool × Limiter
  | unlimited => (false, unlimited)
  | limited limit count => (decide (count + 1 ≥ limit), limited limit (count + 1))

/-- How `select` returns. -/
inductive Wake where
  | interrupted
  | failed
  | timeout
  | data (msg : Datagram)

structure Wakeup where
  reading : BitVec 64
  wake : Wake

structure ReceiveState where
  timer : Timer
  rcv : Receiving
  limit : Limiter
  rxStats : RxStats

/-- What an iteration has done. -/
inductive Event where
  | idle
  | timeoutShown
  | filtered
  | accepted
  deriving DecidableEq, Repr

def Receiving.showTimeout (rcv : Receiving) (ts : BitVec 64) : Receiving :=
  { rcv with oh := rcv.oh ++ [.timeout ts] }

def Receiving.showReceivedPacket (rcv : Receiving) : Receiving :=
  { rcv with oh := rcv.oh ++ [.receivedPacket rcv.pktInfo] }

def showAndCount (s : ReceiveState) : ReceiveState :=
  { s with
    rcv := s.rcv.showReceivedPacket
    rxStats := s.rxStats.update s.rcv.pktInfo.source s.rcv.pktInfo.sport s.rcv.pktInfo.dport
      (s.rcv.pktInfo.payloadSize.setWidth 64) }

/-- The body of the loop; the flag says that it returns. -/
def iterate (impl : ReceiverProvider) (w : Wakeup) (s : ReceiveState) :
    Except MemError (Event × Bool × ReceiveState) :=
  let s := { s with timer := s.timer.save w.reading }
  match w.wake with
  | .interrupted => .ok (.idle, false, s)
  | .failed => .error (.raised "select() failed")
  | .timeout =>
    if s.timer.timeout then
      .ok (.timeoutShown, false,
        { s with rcv := s.rcv.showTimeout s.timer.timestamp, timer := s.timer.reset })
    else .ok (.idle, false, s)
  | .data msg =>
    match receive impl s.timer.timestamp msg s.rcv with
    | .error e => .error e
    | .ok (ps, rcv) =>
      if ps.accepted then
        let s := { s with rcv := rcv, timer := s.timer.reset }
        let s := if ps.shows then showAndCount s else s
        .ok (.accepted, s.limit.reached.1, { s with limit := s.limit.reached.2 })
      else .ok (.filtered, false, { s with rcv := rcv })

/-- An iteration, and the state before it. -/
structure Iterated where
  before : ReceiveState
  wakeup : Wakeup
  event : Event

def receiveLoop (impl : ReceiverProvider) : List Wakeup → ReceiveState →
    Except MemError (List Iterated × ReceiveState)
  | [], s => .ok ([], s)
  | w :: ws, s =>
    match iterate impl w s with
    | .error e => .error e
    | .ok (event, returns, s') =>
      if returns then .ok ([⟨s, w, event⟩], s')
      else
        match receiveLoop impl ws s' with
        | .error e => .error e
        | .ok (its, t) => .ok (⟨s, w, event⟩ :: its, t)

/-! ### Accuracy -/

/-- The reading of the last accepted packet or reported timeout, or else of the start. -/
def lastMark (start : BitVec 64) (done : List Iterated) : BitVec 64 :=
  done.foldl (fun mark it => match it.event with
    | .accepted => it.wakeup.reading
    | .timeoutShown => it.wakeup.reading
    | .filtered => mark
    | .idle => mark) start

/-- The reading is at least the timeout after `mark`. -/
def Due (timeoutNs : ℕ) (mark reading : BitVec 64) : Prop :=
  mark.toNat + timeoutNs ≤ reading.toNat

/-- An iteration that is due accepts a packet or reports a timeout, and no other reports one. -/
def Accurate (timeoutNs : ℕ) (start : BitVec 64) (its : List Iterated) : Prop :=
  ∀ pre it post, its = pre ++ it :: post →
    (Due timeoutNs (lastMark start pre) it.wakeup.reading →
      it.event = .accepted ∨ it.event = .timeoutShown) ∧
    (it.event = .timeoutShown → Due timeoutNs (lastMark start pre) it.wakeup.reading)

/-- A datagram that the receiver drops comes in an iteration that is due. -/
def DueFiltered (filters : Datagram → Prop) (it : Iterated) : Prop :=
  ∃ msg, it.wakeup.wake = .data msg ∧ filters msg ∧
    Due it.before.timer.timeoutNs.toNat it.before.timer.startNs it.wakeup.reading

theorem lastMark_cons (start : BitVec 64) (it : Iterated) (its : List Iterated) :
    lastMark start (it :: its) = lastMark (lastMark start [it]) its := rfl

theorem accurate_nil (timeoutNs : ℕ) (start : BitVec 64) : Accurate timeoutNs start [] := by
  intro pre it post h
  cases pre <;> simp at h

theorem accurate_cons (timeoutNs : ℕ) (start : BitVec 64) (it : Iterated) (its : List Iterated) :
    Accurate timeoutNs start (it :: its) ↔
      ((Due timeoutNs start it.wakeup.reading → it.event = .accepted ∨ it.event = .timeoutShown) ∧
        (it.event = .timeoutShown → Due timeoutNs start it.wakeup.reading)) ∧
      Accurate timeoutNs (lastMark start [it]) its := by
  apply Iff.intro
  · intro h
    refine ⟨h [] it its rfl, ?_⟩
    intro pre it' post hits
    have hstep := h (it :: pre) it' post (by rw [hits]; rfl)
    rw [lastMark_cons] at hstep
    exact hstep
  · intro h pre it' post hits
    obtain ⟨hhead, htail⟩ := h
    cases pre with
    | nil =>
      obtain ⟨rfl, rfl⟩ := List.cons.inj hits
      exact hhead
    | cons it'' pre =>
      obtain ⟨rfl, hrest⟩ := List.cons.inj hits
      rw [lastMark_cons]
      exact htail pre it' post hrest

/-! ### Iterations -/

/-- The receiver returns from every datagram, and drops exactly those that it filters. -/
def Filters (impl : ReceiverProvider) (filters : Datagram → Prop) : Prop :=
  ∀ recvTime msg rcv, ∃ status rcv', receive impl recvTime msg rcv = .ok (status, rcv') ∧
    (status = .Filtered ↔ filters msg)

theorem timeout_iff {timer : Timer} (hclock : timer.startNs ≤ timer.timestampNs) :
    timer.timeout = true ↔ Due timer.timeoutNs.toNat timer.startNs timer.timestampNs := by
  have hle := BitVec.le_def.mp hclock
  unfold Timer.timeout Due
  rw [decide_eq_true_iff, ge_iff_le, BitVec.le_def, BitVec.toNat_sub_of_le hclock]
  omega

/-- What an iteration does, by the wakeup and the timer. -/
structure IterateSpec (filters : Datagram → Prop) (w : Wakeup) (s : ReceiveState) (event : Event)
    (s' : ReceiveState) : Prop where
  timeoutNs : s'.timer.timeoutNs = s.timer.timeoutNs
  startNs : s'.timer.startNs = lastMark s.timer.startNs [⟨s, w, event⟩]
  shown : event = .timeoutShown → Due s.timer.timeoutNs.toNat s.timer.startNs w.reading
  due : Due s.timer.timeoutNs.toNat s.timer.startNs w.reading →
    event = .accepted ∨ event = .timeoutShown ∨ ∃ msg, w.wake = .data msg ∧ filters msg
  filtered : (∃ msg, w.wake = .data msg ∧ filters msg) → event = .filtered

theorem iterate_timeout (impl : ReceiverProvider) {w : Wakeup} {s : ReceiveState}
    (hwake : w.wake = .timeout) :
    iterate impl w s = if (s.timer.save w.reading).timeout then
      .ok (.timeoutShown, false, { s with
        rcv := s.rcv.showTimeout w.reading
        timer := (s.timer.save w.reading).reset })
    else .ok (.idle, false, { s with timer := s.timer.save w.reading }) := by
  unfold iterate
  rw [hwake]
  rfl

theorem iterate_accepted {impl : ReceiverProvider} {w : Wakeup} {s : ReceiveState} {msg : Datagram}
    {ps : PacketStatus} {rcv : Receiving} (hwake : w.wake = .data msg)
    (hreceive : receive impl w.reading msg s.rcv = .ok (ps, rcv)) (hps : ps.accepted = true) :
    ∃ returns s', iterate impl w s = .ok (.accepted, returns, s') ∧
      s'.timer = (s.timer.save w.reading).reset := by
  have htimestamp : (s.timer.save w.reading).timestamp = w.reading := rfl
  unfold iterate
  simp only [hwake, htimestamp, hreceive, hps, if_true]
  refine ⟨_, _, rfl, ?_⟩
  split_ifs <;> rfl

theorem iterate_filtered {impl : ReceiverProvider} {w : Wakeup} {s : ReceiveState} {msg : Datagram}
    {ps : PacketStatus} {rcv : Receiving} (hwake : w.wake = .data msg)
    (hreceive : receive impl w.reading msg s.rcv = .ok (ps, rcv)) (hps : ps.accepted = false) :
    iterate impl w s =
      .ok (.filtered, false, { s with timer := s.timer.save w.reading, rcv := rcv }) := by
  have htimestamp : (s.timer.save w.reading).timestamp = w.reading := rfl
  unfold iterate
  simp only [hwake, htimestamp, hreceive, hps, Bool.false_eq_true, if_false]

theorem accepted_iff (ps : PacketStatus) : ps.accepted = false ↔ ps = .Filtered := by
  cases ps <;> decide

theorem iterate_spec {impl : ReceiverProvider} {filters : Datagram → Prop}
    (himpl : Filters impl filters) {w : Wakeup} {s : ReceiveState}
    (hwake : w.wake = .timeout ∨ ∃ msg, w.wake = .data msg) (hclock : s.timer.startNs ≤ w.reading) :
    ∃ event returns s', iterate impl w s = .ok (event, returns, s') ∧
      IterateSpec filters w s event s' := by
  rcases hwake with hwake | ⟨msg, hwake⟩
  · have hdata : ¬ ∃ msg, w.wake = .data msg ∧ filters msg := by
      intro h
      obtain ⟨msg, hmsg, _⟩ := h
      rw [hwake] at hmsg
      cases hmsg
    have htimeout : (s.timer.save w.reading).timeout = true ↔
        Due s.timer.timeoutNs.toNat s.timer.startNs w.reading := timeout_iff hclock
    rw [iterate_timeout impl hwake]
    by_cases hdue : Due s.timer.timeoutNs.toNat s.timer.startNs w.reading
    · rw [if_pos (htimeout.mpr hdue)]
      exact ⟨_, _, _, rfl, rfl, rfl, fun _ => hdue, fun _ => Or.inr (Or.inl rfl),
        fun h => absurd h hdata⟩
    · rw [if_neg fun h => hdue (htimeout.mp h)]
      exact ⟨_, _, _, rfl, rfl, rfl, fun h => (nomatch h), fun h => absurd h hdue,
        fun h => absurd h hdata⟩
  · obtain ⟨ps, rcv, hreceive, hfilters⟩ := himpl w.reading msg s.rcv
    have hdata : (∃ msg, w.wake = .data msg ∧ filters msg) ↔ filters msg := by
      apply Iff.intro
      · intro h
        obtain ⟨msg', hmsg', hfilter⟩ := h
        rw [hwake] at hmsg'
        obtain rfl := Wake.data.inj hmsg'
        exact hfilter
      · exact fun h => ⟨msg, hwake, h⟩
    cases hps : ps.accepted with
    | true =>
      obtain ⟨returns, s', hrun, htimer⟩ := iterate_accepted hwake hreceive hps
      have hnot : ¬ filters msg := by
        intro h
        rw [hfilters.mpr h] at hps
        cases hps
      refine ⟨_, returns, s', hrun, ?_, ?_, fun h => (nomatch h), fun _ => Or.inl rfl,
        fun h => absurd (hdata.mp h) hnot⟩
      · rw [htimer]
        rfl
      · rw [htimer]
        rfl
    | false =>
      have hfilter : filters msg := hfilters.mp ((accepted_iff ps).mp hps)
      exact ⟨_, _, _, iterate_filtered hwake hreceive hps, rfl, rfl, fun h => (nomatch h),
        fun _ => Or.inr (Or.inr (hdata.mpr hfilter)), fun _ => rfl⟩

/-! ### Runs -/

theorem step_accurate_iff {filters : Datagram → Prop} {w : Wakeup} {s s' : ReceiveState}
    {event : Event} (h : IterateSpec filters w s event s') :
    ((Due s.timer.timeoutNs.toNat s.timer.startNs w.reading →
        event = .accepted ∨ event = .timeoutShown) ∧
      (event = .timeoutShown → Due s.timer.timeoutNs.toNat s.timer.startNs w.reading)) ↔
      ¬ DueFiltered filters ⟨s, w, event⟩ := by
  apply Iff.intro
  · intro haccurate hdueFiltered
    obtain ⟨msg, hwake, hfilter, hdue⟩ := hdueFiltered
    have hevent := h.filtered ⟨msg, hwake, hfilter⟩
    rcases haccurate.1 hdue with haccepted | hshown
    · rw [hevent] at haccepted
      cases haccepted
    · rw [hevent] at hshown
      cases hshown
  · intro hnot
    refine ⟨?_, h.shown⟩
    intro hdue
    rcases h.due hdue with haccepted | hshown | ⟨msg, hwake, hfilter⟩
    · exact Or.inl haccepted
    · exact Or.inr hshown
    · exact absurd ⟨msg, hwake, hfilter, hdue⟩ hnot

theorem lastMark_single (start : BitVec 64) (it : Iterated) :
    lastMark start [it] = start ∨ lastMark start [it] = it.wakeup.reading := by
  obtain ⟨before, wakeup, event⟩ := it
  cases event with
  | idle => exact Or.inl rfl
  | timeoutShown => exact Or.inr rfl
  | filtered => exact Or.inl rfl
  | accepted => exact Or.inr rfl

theorem receiveLoop_accurate_iff {impl : ReceiverProvider} {filters : Datagram → Prop}
    (himpl : Filters impl filters) (ws : List Wakeup) (s : ReceiveState)
    (hwakes : ∀ w ∈ ws, w.wake = .timeout ∨ ∃ msg, w.wake = .data msg)
    (hclock : (s.timer.startNs :: ws.map Wakeup.reading).Pairwise (· ≤ ·)) :
    ∃ its t, receiveLoop impl ws s = .ok (its, t) ∧
      (Accurate s.timer.timeoutNs.toNat s.timer.startNs its ↔
        ∀ it ∈ its, ¬ DueFiltered filters it) := by
  induction ws generalizing s with
  | nil =>
    refine ⟨[], s, rfl, iff_of_true (accurate_nil _ _) ?_⟩
    intro it hit
    cases hit
  | cons w ws ih =>
    rw [List.map_cons, List.pairwise_cons, List.pairwise_cons] at hclock
    obtain ⟨hstart, hreading, hrest⟩ := hclock
    obtain ⟨event, returns, s', hrun, hspec⟩ := iterate_spec himpl
      (hwakes w List.mem_cons_self) (hstart w.reading List.mem_cons_self)
    have hstep := step_accurate_iff hspec
    unfold receiveLoop
    simp only [hrun]
    cases returns with
    | true =>
      refine ⟨[⟨s, w, event⟩], s', rfl, ?_⟩
      rw [accurate_cons, and_iff_left (accurate_nil _ _), List.forall_mem_singleton]
      exact hstep
    | false =>
      have hclock' : (s'.timer.startNs :: ws.map Wakeup.reading).Pairwise (· ≤ ·) := by
        refine List.pairwise_cons.mpr ⟨?_, hrest⟩
        intro reading hmem
        rw [hspec.startNs]
        rcases lastMark_single s.timer.startNs ⟨s, w, event⟩ with hmark | hmark
        · rw [hmark]
          exact hstart reading (List.mem_cons_of_mem _ hmem)
        · rw [hmark]
          exact hreading reading hmem
      obtain ⟨its, t, hloop, hiff⟩ := ih s' (fun w' hw' => hwakes w' (List.mem_cons_of_mem w hw'))
        hclock'
      rw [hspec.timeoutNs, hspec.startNs] at hiff
      refine ⟨⟨s, w, event⟩ :: its, t, ?_, ?_⟩
      · simp only [hloop, Bool.false_eq_true, if_false]
      · rw [accurate_cons, hiff, List.forall_mem_cons]
        exact and_congr_left fun _ => hstep

theorem ipRawReceiver_filters (group : IPv4Address) :
    Filters (IPRawReceiver.processPacket group.to_nl)
      (fun msg => IPRawReceiver.Foreign group msg.data) := by
  intro recvTime msg rcv
  obtain ⟨status, rcv', hrun, hprocessed⟩ :=
    IPRawReceiver.receive_processed group recvTime msg rcv
  exact ⟨status, rcv', hrun, hprocessed.filtered⟩

theorem receiver_filters (dport : BitVec 16) :
    Filters (Receiver.processPacket dport) (fun _ => False) := by
  intro recvTime msg rcv
  obtain ⟨rcv', hrun, _⟩ := receive_receiver dport recvTime msg rcv
  exact ⟨_, rcv', hrun, iff_of_false (by decide) not_false⟩

/-- The state in which the loop is entered at the reading `start`. -/
def ReceiveState.entered (start : BitVec 64) (timeoutSec : BitVec 32) (rcv : Receiving)
    (limit : Limiter) (rxStats : RxStats) : ReceiveState :=
  ⟨Timer.mk' start timeoutSec, rcv, limit, rxStats⟩

theorem timeoutNs_toNat (now : BitVec 64) (timeoutSec : BitVec 32) :
    (Timer.mk' now timeoutSec).timeoutNs.toNat = timeoutSec.toNat * 1000000000 := by
  have hlt := timeoutSec.isLt
  show (timeoutSec.setWidth 64 * BitVec.ofNat 64 1000000000).toNat = _
  rw [BitVec.toNat_mul, BitVec.toNat_setWidth, BitVec.toNat_ofNat]
  omega

/-- The receiver of a UDP socket is always accurate, and the raw one as long as no datagram that
it drops comes when a timeout is due. -/
theorem timeouts_accurate_iff (start : BitVec 64) (timeoutSec : BitVec 32) (rcv : Receiving)
    (limit : Limiter) (rxStats : RxStats) (ws : List Wakeup)
    (hwakes : ∀ w ∈ ws, w.wake = .timeout ∨ ∃ msg, w.wake = .data msg)
    (hclock : (start :: ws.map Wakeup.reading).Pairwise (· ≤ ·)) :
    (∀ group : IPv4Address, ∃ its t, receiveLoop (IPRawReceiver.processPacket group.to_nl) ws
        (.entered start timeoutSec rcv limit rxStats) = .ok (its, t) ∧
      (Accurate (timeoutSec.toNat * 1000000000) start its ↔
        ∀ it ∈ its, ¬ DueFiltered (fun msg => IPRawReceiver.Foreign group msg.data) it)) ∧
    (∀ dport : BitVec 16, ∃ its t, receiveLoop (Receiver.processPacket dport) ws
        (.entered start timeoutSec rcv limit rxStats) = .ok (its, t) ∧
      Accurate (timeoutSec.toNat * 1000000000) start its) := by
  have htimeout := timeoutNs_toNat start timeoutSec
  apply And.intro
  · intro group
    rw [← htimeout]
    exact receiveLoop_accurate_iff (ipRawReceiver_filters group) ws
      (.entered start timeoutSec rcv limit rxStats) hwakes hclock
  · intro dport
    obtain ⟨its, t, hrun, hiff⟩ := receiveLoop_accurate_iff (receiver_filters dport) ws
      (.entered start timeoutSec rcv limit rxStats) hwakes hclock
    rw [← htimeout]
    refine ⟨its, t, hrun, hiff.mpr ?_⟩
    intro it _ hdue
    obtain ⟨_, _, hfalse, _⟩ := hdue
    exact hfalse

/-- An empty UDP datagram from 10.0.0.2 to 10.0.0.1. -/
def unicastDatagram : Datagram where
  sender := ⟨0, 0⟩
  control := [.ttl 64]
  data := [0x45, 0, 0, 28, 0, 0, 0, 0, 64, 17, 0, 0, 10, 0, 0, 2, 10, 0, 0, 1,
    0x30, 0x39, 0, 53, 0, 8, 0, 0]
  fits := by decide

/-- An empty UDP datagram from 10.0.0.2 to 239.1.2.3. -/
def multicastDatagram : Datagram where
  sender := ⟨0, 0⟩
  control := [.ttl 64]
  data := [0x45, 0, 0, 28, 0, 0, 0, 0, 64, 17, 0, 0, 10, 0, 0, 2, 239, 1, 2, 3,
    0x30, 0x39, 0, 53, 0, 8, 0, 0]
  fits := by decide

/-- The first datagram puts the timeout off, the second one does not. -/
def sampleWakeups : List Wakeup :=
  [⟨500000000, .data multicastDatagram⟩, ⟨1200000000, .data unicastDatagram⟩,
    ⟨1500000000, .timeout⟩, ⟨1600000000, .data unicastDatagram⟩, ⟨2400000000, .timeout⟩,
    ⟨2500000000, .timeout⟩]

theorem timeouts_accurate_iff_example :
    (∃ its t, receiveLoop (IPRawReceiver.processPacket (IPv4Address.ofOctets 239 1 2 3).to_nl)
        sampleWakeups (.entered 0 1 .start .unlimited RxStats.empty) = .ok (its, t) ∧
      its.map (·.event) = [.accepted, .filtered, .timeoutShown, .filtered, .idle, .timeoutShown] ∧
      (Accurate 1000000000 0 its ↔ ∀ it ∈ its, ¬ DueFiltered (fun msg =>
        IPRawReceiver.Foreign (IPv4Address.ofOctets 239 1 2 3) msg.data) it)) ∧
    ∃ its t, receiveLoop (Receiver.processPacket 6000) sampleWakeups
        (.entered 0 1 .start .unlimited RxStats.empty) = .ok (its, t) ∧
      Accurate 1000000000 0 its := by
  have hwakes : ∀ w ∈ sampleWakeups, w.wake = .timeout ∨ ∃ msg, w.wake = .data msg := by
    simp [sampleWakeups]
  obtain ⟨hraw, hudp⟩ := timeouts_accurate_iff 0 1 .start .unlimited RxStats.empty sampleWakeups
    hwakes (by decide)
  obtain ⟨its, t, hrun, haccurate⟩ := hraw (.ofOctets 239 1 2 3)
  have hevents : (receiveLoop (IPRawReceiver.processPacket (IPv4Address.ofOctets 239 1 2 3).to_nl)
      sampleWakeups (.entered 0 1 .start .unlimited RxStats.empty)).map
        (fun r => r.1.map (·.event)) =
      .ok [.accepted, .filtered, .timeoutShown, .filtered, .idle, .timeoutShown] := rfl
  rw [hrun] at hevents
  exact ⟨⟨its, t, hrun, Except.ok.inj hevents, haccurate⟩, hudp 6000⟩

/-- It comes one second after the start, when the timeout is one second. -/
theorem timeout_missed :
    ∃ its t, receiveLoop (IPRawReceiver.processPacket (IPv4Address.ofOctets 239 1 2 3).to_nl)
        [⟨1000000000, .data unicastDatagram⟩]
        (.entered 0 1 .start .unlimited RxStats.empty) = .ok (its, t) ∧
      ¬ Accurate 1000000000 0 its := by
  refine ⟨[⟨.entered 0 1 .start .unlimited RxStats.empty,
    ⟨1000000000, .data unicastDatagram⟩, .filtered⟩], _, rfl, ?_⟩
  intro haccurate
  have hstep := (haccurate [] _ [] rfl).1 (by
    show 0 + 1000000000 ≤ 1000000000
    omega)
  revert hstep
  simp

end Pimc.Mclst
