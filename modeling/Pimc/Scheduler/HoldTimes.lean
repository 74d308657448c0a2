import Mathlib.Data.List.Chain
import Pimc.Lib.Alarm
import Pimc.Scheduler.IPv4Exec

/-!
# Times between Hellos and between Join/Prunes

While the clock does not go back, each periodic handler is a polled alarm over
the readings of the main loop. A neighbour keeps its state for a hold time
after a message, so what counts is how late the next one can be.
-/

namespace Pimc

open Lib Exec

/-- Seconds in nanoseconds. -/
def nanos (seconds : ℕ) : ℕ := NanosInSecond.toNat * seconds

/-- The times of the iterations in which `fired` holds. -/
def timesOf (fired : Iteration → Bool) (its : List Iteration) : List ℕ :=
  (its.filter fired).map fun it => it.cts.toNat

def helloTimes (its : List Iteration) : List ℕ := timesOf (·.hello) its

def updateTimes (its : List Iteration) : List ℕ := timesOf (·.update) its

/-! ### The handlers are alarms -/

/-- `fired`, `next` and `period` belong to one of the two handlers. -/
structure IsAlarm (fired : Iteration → Bool)
    (next : IPv4HelloEvent → IPv4JPUpdateEvent → BitVec 64)
    (period : IPv4HelloEvent → IPv4JPUpdateEvent → BitVec 32) : Prop where
  fired_eq : ∀ hello jpUpdate (timer : Timer),
    fired ⟨timer.cts, (hello.ready timer).1, (jpUpdate.ready timer).1⟩ =
      decide (next hello jpUpdate ≤ timer.cts)
  next_eq : ∀ hello jpUpdate (timer : Timer),
    next (hello.ready timer).2 (jpUpdate.ready timer).2 =
      if next hello jpUpdate ≤ timer.cts then timer.inSec (period hello jpUpdate)
      else next hello jpUpdate
  period_eq : ∀ hello jpUpdate (timer : Timer),
    period (hello.ready timer).2 (jpUpdate.ready timer).2 = period hello jpUpdate

theorem hello_isAlarm :
    IsAlarm (·.hello) (fun hello _ => hello.nextEventTime) fun hello _ => hello.helloPeriod := by
  constructor <;> intro hello jpUpdate timer <;> unfold IPv4HelloEvent.ready <;> split <;> simp_all

theorem jpUpdate_isAlarm :
    IsAlarm (·.update) (fun _ jpUpdate => jpUpdate.nextEventTime)
      fun _ jpUpdate => jpUpdate.jpPeriod := by
  constructor <;> intro hello jpUpdate timer <;> unfold IPv4JPUpdateEvent.ready <;> split <;>
    simp_all

theorem timesOf_iterations {fired : Iteration → Bool}
    {next : IPv4HelloEvent → IPv4JPUpdateEvent → BitVec 64}
    {period : IPv4HelloEvent → IPv4JPUpdateEvent → BitVec 32} (halarm : IsAlarm fired next period)
    (timers : List Timer) (hello : IPv4HelloEvent) (jpUpdate : IPv4JPUpdateEvent)
    (h : ∀ t ∈ timers, t.cts.toNat + nanos (period hello jpUpdate).toNat < 2 ^ 64) :
    timesOf fired (iterations hello jpUpdate timers) =
      rings (nanos (period hello jpUpdate).toNat) (next hello jpUpdate).toNat
        (timers.map fun t => t.cts.toNat) := by
  induction timers generalizing hello jpUpdate with
  | nil => rfl
  | cons timer timers ih =>
    have hrest := ih (hello.ready timer).2 (jpUpdate.ready timer).2 fun t ht => by
      rw [halarm.period_eq]
      exact h t (List.mem_cons_of_mem timer ht)
    rw [halarm.period_eq, halarm.next_eq] at hrest
    have hfired := halarm.fired_eq hello jpUpdate timer
    by_cases hdue : next hello jpUpdate ≤ timer.cts
    · have hle : (next hello jpUpdate).toNat ≤ timer.cts.toNat := hdue
      have hset : (timer.inSec (period hello jpUpdate)).toNat =
          timer.cts.toNat + nanos (period hello jpUpdate).toNat :=
        timer.inSec_toNat (h timer List.mem_cons_self)
      rw [if_pos hdue, hset] at hrest
      rw [List.map_cons, rings, if_pos hle, ← hrest]
      simp [iterations, timesOf, hfired, hdue]
    · have hlt : ¬ (next hello jpUpdate).toNat ≤ timer.cts.toNat := hdue
      rw [if_neg hdue] at hrest
      rw [List.map_cons, rings, if_neg hlt, ← hrest]
      simp [iterations, timesOf, hfired, hdue]

/-! ### The readings of the main loop -/

section Readings

variable {host : Host} {d : ℕ}

theorem timersFrom_succ (k n : ℕ) :
    timersFrom host k (n + 1) = ⟨host.gethostnanos k⟩ :: timersFrom host (k + 1) n := by
  simp [timersFrom, List.range'_succ]

theorem mem_timersFrom {k n : ℕ} {t : Timer} (h : t ∈ timersFrom host k n) :
    ∃ i < k + n, t.cts = host.gethostnanos i := by
  obtain ⟨i, hi, rfl⟩ := List.mem_map.mp h
  exact ⟨i, (List.mem_range'_1.mp hi).2, rfl⟩

theorem timersFrom_chain {k n : ℕ} (h : ∀ i < k + n, Within d (host.gethostnanos i).toNat
    (host.gethostnanos (i + 1)).toNat) :
    ((host.gethostnanos k).toNat :: (timersFrom host (k + 1) n).map fun t => t.cts.toNat).IsChain
      (Within d) := by
  induction n generalizing k with
  | zero => exact .singleton _
  | succ n ih =>
    rw [timersFrom_succ, List.map_cons, List.isChain_cons_cons]
    exact ⟨h k (by omega), ih fun i hi => h i (by omega)⟩

end Readings

/-! ### A run with every send succeeding -/

theorem allSucceed_of_none {host : Host} (hsend : ∀ k, host.sendto k = none) (n : ℕ)
    (as : List Sent) : allSucceed (fails host) n as = true := by
  induction as generalizing n with
  | nil => rfl
  | cons a as ih => simp [allSucceed, fails, hsend, ih]

section Gaps

variable {host : Host} {cfg : PIMCConfig IPv4Address} {n d : ℕ}

/-- The rounds are the rings of an alarm that is first set at the first reading. -/
theorem updateTimes_eq (hupdate : ∀ k ≤ n,
    (host.gethostnanos k).toNat + nanos cfg.pimsmConfig.jpPeriod.toNat < 2 ^ 64) :
    updateTimes (mainIterations host cfg n) = rings (nanos cfg.pimsmConfig.jpPeriod.toNat)
      ((host.gethostnanos 0).toNat + nanos cfg.pimsmConfig.jpPeriod.toNat)
      ((timersFrom host 1 n).map fun t => t.cts.toNat) := by
  have htimes := timesOf_iterations jpUpdate_isAlarm (timersFrom host 1 n)
    (start host cfg).hello (start host cfg).jpUpdate fun t ht => by
      obtain ⟨i, hi, hcts⟩ := mem_timersFrom ht
      rw [hcts]
      exact hupdate i (by omega)
  have hset : (start host cfg).jpUpdate.nextEventTime.toNat =
      (host.gethostnanos 0).toNat + nanos cfg.pimsmConfig.jpPeriod.toNat :=
    Timer.inSec_toNat ⟨host.gethostnanos 0⟩ (hupdate 0 (Nat.zero_le n))
  rw [hset] at htimes
  exact htimes

theorem updateTimes_gaps
    (hclock : ∀ k < n, Within d (host.gethostnanos k).toNat (host.gethostnanos (k + 1)).toNat)
    (hupdate : ∀ k ≤ n,
      (host.gethostnanos k).toNat + nanos cfg.pimsmConfig.jpPeriod.toNat < 2 ^ 64) :
    ((host.gethostnanos 0).toNat :: updateTimes (mainIterations host cfg n)).IsChain
      (Gap (nanos cfg.pimsmConfig.jpPeriod.toNat) d) := by
  rw [updateTimes_eq hupdate]
  exact rings_gaps (timersFrom_chain fun i hi => hclock i (by omega))

/-- The first reading rings. -/
theorem mainIterations_head (cfg : PIMCConfig IPv4Address) (n : ℕ)
    (h : (host.gethostnanos 0).toNat ≤ (host.gethostnanos 1).toNat) :
    ∃ it its, mainIterations host cfg (n + 1) = it :: its ∧ it.hello = true := by
  have hdue : (start host cfg).hello.nextEventTime ≤ (Timer.mk (host.gethostnanos 1)).cts := h
  rw [mainIterations, timersFrom_succ, iterations]
  refine ⟨_, _, rfl, ?_⟩
  simp only [IPv4HelloEvent.ready, hdue, if_true]

theorem helloTimes_gaps
    (hclock : ∀ k < n, Within d (host.gethostnanos k).toNat (host.gethostnanos (k + 1)).toNat)
    (hhello : ∀ k ≤ n,
      (host.gethostnanos k).toNat + nanos cfg.pimsmConfig.helloPeriod.toNat < 2 ^ 64) :
    (helloTimes (mainIterations host cfg n)).IsChain
      (Gap (nanos cfg.pimsmConfig.helloPeriod.toNat) d) := by
  cases n with
  | zero => exact .nil
  | succ n =>
    have hperiod : (start host cfg).hello.helloPeriod.toNat =
        cfg.pimsmConfig.helloPeriod.toNat := BitVec.toNat_setWidth_of_le (by decide)
    have htimes := timesOf_iterations hello_isAlarm (timersFrom host 1 (n + 1))
      (start host cfg).hello (start host cfg).jpUpdate fun t ht => by
        obtain ⟨i, hi, hcts⟩ := mem_timersFrom ht
        rw [hcts, hperiod]
        exact hhello i (by omega)
    have hdue : (start host cfg).hello.nextEventTime.toNat ≤
        (Timer.mk (host.gethostnanos 1)).cts.toNat := (hclock 0 (Nat.succ_pos n)).1
    rw [hperiod, timersFrom_succ, List.map_cons, rings, if_pos hdue] at htimes
    rw [helloTimes, mainIterations, timersFrom_succ, htimes]
    exact rings_gaps (timersFrom_chain fun i hi => hclock i (by omega))

end Gaps

theorem ipv4exec_gaps (host : Host) (cfg : PIMCConfig IPv4Address) (n d : ℕ)
    (hcreate : host.create = none) (hsend : ∀ k, host.sendto k = none)
    (hrun : ∀ k < n, host.stopped k = false)
    (hclock : ∀ k < n, Within d (host.gethostnanos k).toNat (host.gethostnanos (k + 1)).toNat)
    (hhello : ∀ k ≤ n,
      (host.gethostnanos k).toNat + nanos cfg.pimsmConfig.helloPeriod.toNat < 2 ^ 64)
    (hupdate : ∀ k ≤ n,
      (host.gethostnanos k).toNat + nanos cfg.pimsmConfig.jpPeriod.toNat < 2 ^ 64) :
    let its := mainIterations host cfg n
    let helloPeriod := nanos cfg.pimsmConfig.helloPeriod.toNat
    let jpPeriod := nanos cfg.pimsmConfig.jpPeriod.toNat
    let helloHoldtime := nanos cfg.pimsmConfig.helloHoldtime.toNat
    let jpHoldtime := nanos cfg.pimsmConfig.jpHoldtime.toNat
    ipv4exec host cfg n = (none, its.flatMap (Iteration.calls cfg)) ∧
    (∀ it ∈ its.head?, it.hello = true) ∧
    (helloTimes its).IsChain (Gap helloPeriod d) ∧
    ((host.gethostnanos 0).toNat :: updateTimes its).IsChain (Gap jpPeriod d) ∧
    (0 < helloPeriod → d + helloPeriod ≤ helloHoldtime →
      (helloTimes its).IsChain fun a b => b < a + helloHoldtime) ∧
    (0 < jpPeriod → d + jpPeriod ≤ jpHoldtime →
      (updateTimes its).IsChain fun a b => b < a + jpHoldtime) := by
  intro its helloPeriod jpPeriod helloHoldtime jpHoldtime
  have hsent := allSucceed_of_none hsend 0 (mainCalls host cfg n)
  have htrace : ipv4exec host cfg n = (none, its.flatMap (Iteration.calls cfg)) := by
    rw [ipv4exec_running hcreate hrun, hsent, attempted_of_allSucceed hsent]
    rfl
  have hfirst : ∀ it ∈ its.head?, it.hello = true := by
    intro it hit
    cases n with
    | zero => cases hit
    | succ n =>
      obtain ⟨it', its', heq, hhello'⟩ :=
        mainIterations_head cfg n (hclock 0 (Nat.succ_pos n)).1
      rw [show its = it' :: its' from heq] at hit
      cases hit
      exact hhello'
  have hhellos := helloTimes_gaps hclock hhello
  have hupdates := updateTimes_gaps hclock hupdate
  exact ⟨htrace, hfirst, hhellos, hupdates, rings_within hhellos, rings_within hupdates.tail⟩

/-- Readings 25 seconds apart. -/
def slowHost : Host :=
  { sampleHost with
    gethostnanos := fun k => BitVec.ofNat 64 (nanos (25 * k))
    stopped := fun k => decide (6 ≤ k) }

theorem ipv4exec_gaps_example :
    (helloTimes (mainIterations slowHost samplePIMCConfig 6)).IsChain
      (fun a b => b < a + nanos 105) ∧
    (updateTimes (mainIterations slowHost samplePIMCConfig 6)).IsChain
      fun a b => b < a + nanos 210 := by
  obtain ⟨-, -, -, -, hhello, hupdate⟩ := ipv4exec_gaps slowHost samplePIMCConfig 6 (nanos 25) rfl
    (fun _ => rfl) (by decide) (by decide) (by decide) (by decide)
  exact ⟨hhello (by decide) (by decide), hupdate (by decide) (by decide)⟩

/-- The Hello period 0. -/
def eagerConfig : PIMCConfig IPv4Address :=
  { samplePIMCConfig with
    pimsmConfig := { samplePIMCConfig.pimsmConfig with helloPeriod := 0 } }

/-- With the period 0 two Hellos can be as far apart as two readings. -/
theorem helloTimes_eager :
    slowHost.create = none ∧ (∀ k, slowHost.sendto k = none) ∧
    (∀ k < 2, slowHost.stopped k = false) ∧
    (∀ k ≤ 2, (slowHost.gethostnanos k).toNat +
      nanos eagerConfig.pimsmConfig.helloPeriod.toNat < 2 ^ 64) ∧
    (∀ k < 2, Within (nanos 25) (slowHost.gethostnanos k).toNat
      (slowHost.gethostnanos (k + 1)).toNat) ∧
    ipv4exec slowHost eagerConfig 2 =
      (none, (mainIterations slowHost eagerConfig 2).flatMap (Iteration.calls eagerConfig)) ∧
    helloTimes (mainIterations slowHost eagerConfig 2) = [nanos 25, nanos 50] ∧
    ¬ nanos 50 < nanos 25 + nanos eagerConfig.pimsmConfig.helloPeriod.toNat + nanos 25 :=
  ⟨rfl, fun _ => rfl, by decide, by decide, by decide, rfl, by decide, by decide⟩

end Pimc
