import Pimc.Config.PIMCConfig
import Pimc.Events.FixedEventQueue
import Pimc.Lib.Attempts
import Pimc.Packets.IPv4PIMPacket

/-!
# Timer and event handlers (apps/pimc/scheduler, apps/pimc/net/IPv4PIMIntf.cpp)

The handlers refer to one timer and one interface, so they act on the state
`Exec` of `ipv4exec`. The host answers each reading of the clock, each test of
`stopped` and each `sendto` by its number in the run, which leaves the times,
the moment of the stop and the failures open. A packet object is given by the
arguments of its constructor.
-/

namespace Pimc

open Lib

/-! ### Timer.hpp -/

def NanosInSecond : BitVec 64 := 1000000000

structure Timer where
  ts : BitVec 64

namespace Timer

def cts (timer : Timer) : BitVec 64 := timer.ts

def inSec (timer : Timer) (seconds : BitVec 32) : BitVec 64 :=
  timer.ts + NanosInSecond * seconds.setWidth 64

theorem inSec_toNat (timer : Timer) {seconds : BitVec 32}
    (h : timer.ts.toNat + NanosInSecond.toNat * seconds.toNat < 2 ^ 64) :
    (timer.inSec seconds).toNat = timer.ts.toNat + NanosInSecond.toNat * seconds.toNat := by
  have hsec : (seconds.setWidth 64).toNat = seconds.toNat :=
    BitVec.toNat_setWidth_of_le (by decide)
  have hprod : (NanosInSecond * seconds.setWidth 64).toNat = NanosInSecond.toNat * seconds.toNat := by
    rw [BitVec.toNat_mul, hsec, Nat.mod_eq_of_lt (by omega)]
  rw [inSec, BitVec.toNat_add, hprod, Nat.mod_eq_of_lt h]

end Timer

/-! ### Packets -/

structure IPv4PIMHelloPacket where
  source : IPv4Address
  helloHoldtime : BitVec 16
  drPriority : BitVec 32
  generationId : BitVec 32

structure IPv4PIMUpdatePacket where
  n : ℕ
  update : Update IPv4Address
  source : IPv4Address
  neighbor : IPv4Address
  holdtime : BitVec 16

inductive PIMPacket where
  | hello (pkt : IPv4PIMHelloPacket)
  | update (pkt : IPv4PIMUpdatePacket)

namespace PIMPacket

/-- `data_` of a packet whose buffer is allocated at `base`. -/
def data (base : ℕ) : PIMPacket → Except MemError (List Byte)
  | .hello pkt =>
    IPv4PIMHelloPacket.build base pkt.source pkt.helloHoldtime pkt.drPriority pkt.generationId
  | .update pkt =>
    IPv4PIMUpdatePacket.build base pkt.update pkt.source pkt.neighbor pkt.holdtime

theorem data_ok (base : ℕ) (p : PIMPacket) : ∃ bytes, p.data base = .ok bytes := by
  cases p with
  | hello pkt => exact ⟨_, IPv4PIMHelloPacket.build_eq base _ _ _ _⟩
  | update pkt => exact ⟨_, IPv4PIMUpdatePacket.build_eq base _ _ _ _⟩

end PIMPacket

/-- `updatePackets` and `inverseUpdatePackets`. -/
def updatePackets (cfg : PIMCConfig IPv4Address) (updates : List (Update IPv4Address)) :
    List PIMPacket :=
  updates.zipIdx.map fun (update, i) =>
    .update ⟨i + 1, update, cfg.pimsmConfig.intfAddr, cfg.pimsmConfig.neighbor,
      cfg.pimsmConfig.jpHoldtime⟩

/-- The Hello packet with the given hold time. -/
def helloPacket (cfg : PIMSMConfig IPv4Address) (helloHoldtime : BitVec 16) : PIMPacket :=
  .hello ⟨cfg.intfAddr, helloHoldtime, cfg.drPriority, cfg.generationId⟩

/-! ### The periodic handlers -/

structure IPv4HelloEvent where
  pkt : PIMPacket
  helloPeriod : BitVec 32
  nextEventTime : BitVec 64

namespace IPv4HelloEvent

def create (timer : Timer) (cfg : PIMSMConfig IPv4Address) : IPv4HelloEvent :=
  ⟨helloPacket cfg cfg.helloHoldtime, cfg.helloPeriod.setWidth 32, timer.cts⟩

def ready (ev : IPv4HelloEvent) (timer : Timer) : Bool × IPv4HelloEvent :=
  if ev.nextEventTime ≤ timer.cts then
    (true, { ev with nextEventTime := timer.inSec ev.helloPeriod })
  else (false, ev)

end IPv4HelloEvent

structure IPv4JPUpdateEvent where
  updatePackets : List PIMPacket
  jpPeriod : BitVec 32
  nextEventTime : BitVec 64

namespace IPv4JPUpdateEvent

def create (timer : Timer) (cfg : PIMCConfig IPv4Address) : IPv4JPUpdateEvent :=
  ⟨Pimc.updatePackets cfg cfg.updates, cfg.pimsmConfig.jpPeriod,
    timer.inSec cfg.pimsmConfig.jpPeriod⟩

def ready (ev : IPv4JPUpdateEvent) (timer : Timer) : Bool × IPv4JPUpdateEvent :=
  if ev.nextEventTime ≤ timer.cts then
    (true, { ev with nextEventTime := timer.inSec ev.jpPeriod })
  else (false, ev)

end IPv4JPUpdateEvent

/-! ### Host and state -/

structure Host where
  /-- The error of `IPv4PIMIntf::create`, if it fails. -/
  create : Option String
  gethostnanos : ℕ → BitVec 64
  stopped : ℕ → Bool
  /-- The error of each `sendto`, if it fails. -/
  sendto : ℕ → Option String

/-- A call of `IPv4PIMIntf::send`, with the time the timer shows. -/
structure Sent where
  pkt : PIMPacket
  pktName : String
  cts : BitVec 64

structure Exec where
  timer : Timer
  hello : IPv4HelloEvent
  jpUpdate : IPv4JPUpdateEvent
  readings : ℕ
  tests : ℕ
  sent : List Sent

namespace Exec

/-- `timer.update()`. -/
def update (host : Host) (s : Exec) : Exec :=
  { s with timer := ⟨host.gethostnanos s.readings⟩, readings := s.readings + 1 }

/-- `IPv4PIMIntf::send`. -/
def send (host : Host) (pktName : String) (pkt : PIMPacket) (s : Exec) : Except String Unit × Exec :=
  let t := { s with sent := s.sent ++ [⟨pkt, pktName, s.timer.cts⟩] }
  match host.sendto s.sent.length with
  | some e => (.error s!"unable to send PIM {pktName} packet: {e}", t)
  | none => (.ok (), t)

/-- The loops of `IPv4JPUpdateEvent::fire` and `IPv4GoodbyeJPUpdateEvent::send`. -/
def sendEach (host : Host) (pktName : String) : List PIMPacket → Exec → Except String Unit × Exec
  | [], s => (.ok (), s)
  | pkt :: pkts, s =>
    match s.send host pktName pkt with
    | (.ok _, s) => sendEach host pktName pkts s
    | (.error e, s) => (.error e, s)

def helloHandler (host : Host) : EventHandler Exec String where
  ready s :=
    let (isReady, ev) := s.hello.ready s.timer
    (isReady, { s with hello := ev })
  fire s := s.send host "Hello" s.hello.pkt

def jpUpdateHandler (host : Host) : EventHandler Exec String where
  ready s :=
    let (isReady, ev) := s.jpUpdate.ready s.timer
    (isReady, { s with jpUpdate := ev })
  fire s := s.sendEach host "Join/Prune Update" s.jpUpdate.updatePackets

def events (host : Host) : List (EventHandler Exec String) :=
  [helloHandler host, jpUpdateHandler host]

/-! ### What the calls of `send` do -/

variable {host : Host}

def fails (host : Host) (k : ℕ) : Bool := (host.sendto k).isSome

/-- The calls of `send` for `pkts` in the state `s`. -/
def calls (pktName : String) (pkts : List PIMPacket) (s : Exec) : List Sent :=
  pkts.map fun pkt => ⟨pkt, pktName, s.timer.cts⟩

/-- `r` is what has become of handing over `as` in the state `s`. -/
structure Hands (host : Host) (as : List Sent) (s : Exec) (r : Except String Unit × Exec) :
    Prop where
  state : r.2 = { s with sent := s.sent ++ attempted (fails host) s.sent.length as }
  ok : allSucceed (fails host) s.sent.length as = true → r.1 = .ok ()
  error : allSucceed (fails host) s.sent.length as = false → ∃ e, r.1 = .error e

theorem send_failed {s : Exec} (h : fails host s.sent.length = true) (pktName : String)
    (pkt : PIMPacket) : ∃ e, s.send host pktName pkt =
      (.error e, { s with sent := s.sent ++ [⟨pkt, pktName, s.timer.cts⟩] }) := by
  obtain ⟨e, he⟩ := Option.isSome_iff_exists.mp h
  exact ⟨s!"unable to send PIM {pktName} packet: {e}", by simp only [send, he]⟩

theorem send_ok {s : Exec} (h : fails host s.sent.length = false) (pktName : String)
    (pkt : PIMPacket) : s.send host pktName pkt =
      (.ok (), { s with sent := s.sent ++ [⟨pkt, pktName, s.timer.cts⟩] }) := by
  have hnone := Option.isSome_eq_false_iff.mp h
  simp only [send, Option.isNone_iff_eq_none.mp hnone]

theorem sendEach_hands (host : Host) (pktName : String) (pkts : List PIMPacket) (s : Exec) :
    Hands host (calls pktName pkts s) s (s.sendEach host pktName pkts) := by
  induction pkts generalizing s with
  | nil => exact ⟨by simp [sendEach, calls, attempted], fun _ => rfl, by simp [calls, allSucceed]⟩
  | cons pkt pkts ih =>
    cases hf : fails host s.sent.length with
    | true =>
      obtain ⟨e, he⟩ := send_failed hf pktName pkt
      exact ⟨by simp [sendEach, he, calls, attempted, hf], by simp [calls, allSucceed, hf],
        fun _ => ⟨e, by simp only [sendEach, he]⟩⟩
    | false =>
      have hstep := send_ok hf pktName pkt
      have hrest := ih { s with sent := s.sent ++ [⟨pkt, pktName, s.timer.cts⟩] }
      have heach : s.sendEach host pktName (pkt :: pkts) =
          Exec.sendEach host pktName pkts
            { s with sent := s.sent ++ [⟨pkt, pktName, s.timer.cts⟩] } := by
        simp only [sendEach, hstep]
      rw [heach]
      exact ⟨by simpa [calls, attempted, hf] using hrest.state,
        fun h => hrest.ok (by simpa [calls, allSucceed, hf] using h),
        fun h => hrest.error (by simpa [calls, allSucceed, hf] using h)⟩

theorem send_hands (host : Host) (pktName : String) (pkt : PIMPacket) (s : Exec) :
    Hands host (calls pktName [pkt] s) s (s.send host pktName pkt) := by
  cases hf : fails host s.sent.length with
  | true =>
    obtain ⟨e, he⟩ := send_failed hf pktName pkt
    rw [he]
    exact ⟨by simp [calls, attempted], by simp [calls, allSucceed, hf], fun _ => ⟨e, rfl⟩⟩
  | false =>
    rw [send_ok hf pktName pkt]
    exact ⟨by simp [calls, attempted], fun _ => rfl, by simp [calls, allSucceed, hf]⟩

end Exec

end Pimc
