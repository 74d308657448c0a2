import Pimc.Scheduler.Events

/-!
# The main loop (apps/pimc/scheduler/IPv4Exec.cpp)

`ipv4exec` with at most `fuel` tests of `stopped`: the value it returns, if it
has returned, and the calls of `send` so far. Which handlers fire in an
iteration is settled by the readings of the clock alone, so the calls of a run
are those of its iterations and of the shutdown, up to the first failure.
-/

namespace Pimc

open Lib

namespace Exec

/-- The timer, and the handlers made from it. -/
def start (host : Host) (cfg : PIMCConfig IPv4Address) : Exec :=
  let timer : Timer := ⟨host.gethostnanos 0⟩
  { timer := timer
    hello := IPv4HelloEvent.create timer cfg.pimsmConfig
    jpUpdate := IPv4JPUpdateEvent.create timer cfg
    readings := 1
    tests := 0
    sent := [] }

def mainLoop (host : Host) : ℕ → Exec → Option (Except String Unit) × Exec
  | 0, s => (none, s)
  | fuel + 1, s =>
    if host.stopped s.tests then (some (.ok ()), { s with tests := s.tests + 1 })
    else
      match FixedEventQueue.runOnce (events host) ({ s with tests := s.tests + 1 }.update host) with
      | (.error e, s) => (some (.error e), s)
      | (.ok _, s) => mainLoop host fuel s

end Exec

open Exec

/-- What follows the loop. -/
def shutdown (host : Host) (cfg : PIMCConfig IPv4Address) (s : Exec) : Option Bool × List Sent :=
  match (s.update host).sendEach host "Goodbye Join/Prune Update"
      (updatePackets cfg cfg.inverseUpdates) with
  | (.error _, s) => (some false, s.sent)
  | (.ok _, s) =>
    match (s.update host).send host "Goodbye" (helloPacket cfg.pimsmConfig 0) with
    | (.error _, s) => (some false, s.sent)
    | (.ok _, s) => (some true, s.sent)

def ipv4exec (host : Host) (cfg : PIMCConfig IPv4Address) (fuel : ℕ) : Option Bool × List Sent :=
  match host.create with
  | some _ => (some false, [])
  | none =>
    match mainLoop host fuel (start host cfg) with
    | (none, s) => (none, s.sent)
    | (some (.error _), s) => (some false, s.sent)
    | (some (.ok _), s) => shutdown host cfg s

/-! ### Iterations -/

/-- The reading of an iteration and the handlers that are ready at it. -/
structure Iteration where
  cts : BitVec 64
  hello : Bool
  update : Bool

def iterations : IPv4HelloEvent → IPv4JPUpdateEvent → List Timer → List Iteration
  | _, _, [] => []
  | hello, jpUpdate, timer :: timers =>
    ⟨timer.cts, (hello.ready timer).1, (jpUpdate.ready timer).1⟩ ::
      iterations (hello.ready timer).2 (jpUpdate.ready timer).2 timers

theorem iterations_length (hello : IPv4HelloEvent) (jpUpdate : IPv4JPUpdateEvent)
    (timers : List Timer) : (iterations hello jpUpdate timers).length = timers.length := by
  induction timers generalizing hello jpUpdate with
  | nil => rfl
  | cons timer timers ih => simp [iterations, ih]

/-- The timer after each of `n` updates, the first of which takes the `k`-th reading. -/
def timersFrom (host : Host) (k n : ℕ) : List Timer :=
  (List.range' k n).map fun i => ⟨host.gethostnanos i⟩

/-- The first `n` iterations of a run. -/
def mainIterations (host : Host) (cfg : PIMCConfig IPv4Address) (n : ℕ) : List Iteration :=
  iterations (start host cfg).hello (start host cfg).jpUpdate (timersFrom host 1 n)

theorem mainIterations_length (host : Host) (cfg : PIMCConfig IPv4Address) (n : ℕ) :
    (mainIterations host cfg n).length = n := by
  simp [mainIterations, iterations_length, timersFrom]

namespace Iteration

/-- The calls of `send` in an iteration: a Hello first, if it is due, and then all updates, if
they are due. -/
def calls (cfg : PIMCConfig IPv4Address) (it : Iteration) : List Sent :=
  (if it.hello then
    [⟨helloPacket cfg.pimsmConfig cfg.pimsmConfig.helloHoldtime, "Hello", it.cts⟩]
  else []) ++
  if it.update then
    (updatePackets cfg cfg.updates).map fun pkt => ⟨pkt, "Join/Prune Update", it.cts⟩
  else []

end Iteration

namespace Exec

variable {host : Host} {cfg : PIMCConfig IPv4Address}

/-- The handlers hold the packets of `cfg`. -/
structure Configured (cfg : PIMCConfig IPv4Address) (s : Exec) : Prop where
  hello : s.hello.pkt = helloPacket cfg.pimsmConfig cfg.pimsmConfig.helloHoldtime
  updates : s.jpUpdate.updatePackets = Pimc.updatePackets cfg cfg.updates

theorem start_configured (host : Host) (cfg : PIMCConfig IPv4Address) :
    Configured cfg (start host cfg) := ⟨rfl, rfl⟩

theorem hello_ready_pkt (ev : IPv4HelloEvent) (timer : Timer) :
    (ev.ready timer).2.pkt = ev.pkt := by
  unfold IPv4HelloEvent.ready
  split <;> rfl

theorem jpUpdate_ready_packets (ev : IPv4JPUpdateEvent) (timer : Timer) :
    (ev.ready timer).2.updatePackets = ev.updatePackets := by
  unfold IPv4JPUpdateEvent.ready
  split <;> rfl

/-- What the next iteration does in the state `s`. -/
def due (host : Host) (s : Exec) : Iteration :=
  let timer : Timer := ⟨host.gethostnanos s.readings⟩
  ⟨timer.cts, (s.hello.ready timer).1, (s.jpUpdate.ready timer).1⟩

/-- The state after the next iteration, if nothing fails. -/
def after (host : Host) (cfg : PIMCConfig IPv4Address) (s : Exec) : Exec :=
  let timer : Timer := ⟨host.gethostnanos s.readings⟩
  { timer := timer
    hello := (s.hello.ready timer).2
    jpUpdate := (s.jpUpdate.ready timer).2
    readings := s.readings + 1
    tests := s.tests + 1
    sent := s.sent ++ (s.due host).calls cfg }

theorem after_configured {s : Exec} (h : Configured cfg s) : Configured cfg (s.after host cfg) :=
  ⟨(hello_ready_pkt _ _).trans h.hello, (jpUpdate_ready_packets _ _).trans h.updates⟩

/-- The turn of one handler in the chain: `as` are its calls if it is ready. -/
theorem chainEvents_turn {eh : EventHandler Exec String} {isReady : Bool} {as : List Sent}
    {s t : Exec} (hready : eh.ready s = (isReady, t)) (hsent : t.sent = s.sent)
    (hfire : Hands host as t (eh.fire t)) (ehs : List (EventHandler Exec String)) (count : ℕ) :
    (allSucceed (fails host) s.sent.length (if isReady then as else []) = true →
      ∃ count', FixedEventQueue.chainEvents (eh :: ehs) count s = FixedEventQueue.chainEvents ehs
        count' { t with sent := s.sent ++ if isReady then as else [] }) ∧
    (allSucceed (fails host) s.sent.length (if isReady then as else []) = false →
      ∃ e, FixedEventQueue.chainEvents (eh :: ehs) count s = (.error e, { t with
        sent := s.sent ++ attempted (fails host) s.sent.length (if isReady then as else []) })) := by
  cases isReady with
  | false =>
    refine ⟨fun _ => ⟨count, ?_⟩, fun h => absurd h (by simp [allSucceed])⟩
    rw [FixedEventQueue.chainEvents_waiting hready]
    simp [← hsent]
  | true =>
    simp only [if_true]
    have hstate := hfire.state
    rw [hsent] at hstate
    refine ⟨?_, ?_⟩
    · intro h
      have hok := hfire.ok (by rwa [hsent])
      rw [attempted_of_allSucceed h] at hstate
      exact ⟨count + 1, FixedEventQueue.chainEvents_fired hready (Prod.ext hok hstate)⟩
    · intro h
      obtain ⟨e, he⟩ := hfire.error (by rwa [hsent])
      exact ⟨e, FixedEventQueue.chainEvents_failed hready (Prod.ext he hstate)⟩

/-- One iteration: all its calls are made, or those up to the first failure. -/
theorem runOnce_step (host : Host) {s : Exec} (h : Configured cfg s) :
    (allSucceed (fails host) s.sent.length ((s.due host).calls cfg) = true →
      ∃ count, FixedEventQueue.runOnce (events host) ({ s with tests := s.tests + 1 }.update host) =
        (.ok count, s.after host cfg)) ∧
    (allSucceed (fails host) s.sent.length ((s.due host).calls cfg) = false →
      ∃ e t, FixedEventQueue.runOnce (events host) ({ s with tests := s.tests + 1 }.update host) =
        (.error e, t) ∧
        t.sent = s.sent ++ attempted (fails host) s.sent.length ((s.due host).calls cfg)) := by
  let timer : Timer := ⟨host.gethostnanos s.readings⟩
  let s0 : Exec := { s with tests := s.tests + 1 }.update host
  let s1 : Exec := { s0 with hello := (s.hello.ready timer).2 }
  let hellos := if (s.hello.ready timer).1 then calls "Hello" [s1.hello.pkt] s1 else []
  let s2 : Exec := { s1 with sent := s.sent ++ hellos }
  let s3 : Exec := { s2 with jpUpdate := (s.jpUpdate.ready timer).2 }
  let updates := if (s.jpUpdate.ready timer).1 then
    calls "Join/Prune Update" s3.jpUpdate.updatePackets s3 else []
  have hcalls : (s.due host).calls cfg = hellos ++ updates := by
    have hpkt : s1.hello.pkt = _ := (hello_ready_pkt s.hello timer).trans h.hello
    have hpkts : s3.jpUpdate.updatePackets = _ :=
      (jpUpdate_ready_packets s.jpUpdate timer).trans h.updates
    simp only [hellos, updates, calls, hpkt, hpkts]
    rfl
  have hready1 : (helloHandler host).ready s0 = ((s.hello.ready timer).1, s1) := rfl
  have hready2 : (jpUpdateHandler host).ready s2 = ((s.jpUpdate.ready timer).1, s3) := rfl
  have hturn1 := chainEvents_turn hready1 rfl (send_hands host "Hello" s1.hello.pkt s1)
    [jpUpdateHandler host] 0
  have hturn2 := chainEvents_turn hready2 rfl
    (sendEach_hands host "Join/Prune Update" s3.jpUpdate.updatePackets s3) []
  have hafter : ({ s3 with sent := s2.sent ++ updates } : Exec) = s.after host cfg := by
    simp only [after, hcalls, s3, s2, s1, s0, List.append_assoc]
    rfl
  have hlen : s2.sent.length = s.sent.length + hellos.length := List.length_append
  rw [hcalls, allSucceed_append]
  cases hok1 : allSucceed (fails host) s.sent.length hellos with
  | false =>
    refine ⟨fun h => absurd h (by simp), fun _ => ?_⟩
    obtain ⟨e, he⟩ := hturn1.2 hok1
    refine ⟨e, _, he, ?_⟩
    rw [attempted_append_of_failed updates hok1]
    rfl
  | true =>
    obtain ⟨count, hcount⟩ := hturn1.1 hok1
    rw [Bool.true_and, ← hlen]
    refine ⟨?_, ?_⟩
    · intro hok2
      obtain ⟨count', hcount'⟩ := (hturn2 count).1 hok2
      exact ⟨count', hcount.trans (hcount'.trans (congrArg (Prod.mk _) hafter))⟩
    · intro hok2
      obtain ⟨e, he⟩ := (hturn2 count).2 hok2
      refine ⟨e, _, hcount.trans he, ?_⟩
      rw [attempted_append updates hok1, ← hlen, ← List.append_assoc]

/-! ### The loop -/

/-- The iterations of the loop that begins in the state `s`. -/
def itersFrom (host : Host) (s : Exec) (n : ℕ) : List Iteration :=
  iterations s.hello s.jpUpdate (timersFrom host s.readings n)

def callsFrom (host : Host) (cfg : PIMCConfig IPv4Address) (s : Exec) (n : ℕ) : List Sent :=
  (itersFrom host s n).flatMap (Iteration.calls cfg)

theorem callsFrom_succ (s : Exec) (n : ℕ) : callsFrom host cfg s (n + 1) =
    (s.due host).calls cfg ++ callsFrom host cfg (s.after host cfg) n := by
  simp only [callsFrom, itersFrom, timersFrom, List.range'_succ, List.map_cons, iterations,
    List.flatMap_cons]
  rfl

theorem mainLoop_succ {s : Exec} (h : host.stopped s.tests = false) (fuel : ℕ) :
    mainLoop host (fuel + 1) s =
      match FixedEventQueue.runOnce (events host) ({ s with tests := s.tests + 1 }.update host) with
      | (.error e, s) => (some (.error e), s)
      | (.ok _, s) => mainLoop host fuel s := by
  simp only [mainLoop, h, Bool.false_eq_true, if_false]

/-- `n` iterations of the loop: all their calls are made, or those up to the first failure. -/
theorem mainLoop_run {s : Exec} (hs : Configured cfg s) {n : ℕ}
    (hrun : ∀ k < n, host.stopped (s.tests + k) = false) :
    (allSucceed (fails host) s.sent.length (callsFrom host cfg s n) = true →
      ∃ t, t.sent = s.sent ++ callsFrom host cfg s n ∧ t.tests = s.tests + n ∧
        t.readings = s.readings + n ∧ ∀ fuel, mainLoop host (n + fuel) s = mainLoop host fuel t) ∧
    (allSucceed (fails host) s.sent.length (callsFrom host cfg s n) = false →
      ∃ e t, t.sent = s.sent ++ attempted (fails host) s.sent.length (callsFrom host cfg s n) ∧
        ∀ fuel, mainLoop host (n + fuel) s = (some (.error e), t)) := by
  induction n generalizing s with
  | zero =>
    have hnil : callsFrom host cfg s 0 = [] := rfl
    rw [hnil]
    refine ⟨fun _ => ⟨s, by simp, rfl, rfl, fun fuel => by rw [Nat.zero_add]⟩, fun h => ?_⟩
    exact absurd h (by simp [allSucceed])
  | succ n ih =>
    obtain ⟨hstep, hfail⟩ := runOnce_step host hs
    have hloop := mainLoop_succ (hrun 0 (Nat.succ_pos n))
    have hrun' : ∀ k < n, host.stopped ((s.after host cfg).tests + k) = false := by
      intro k hk
      have h := hrun (k + 1) (by omega)
      rwa [show s.tests + (k + 1) = s.tests + 1 + k by omega] at h
    obtain ⟨hrest, hrestFail⟩ := ih (after_configured hs) hrun'
    have hfuel : ∀ fuel, n + 1 + fuel = n + fuel + 1 := fun fuel => by omega
    have hlen : (s.after host cfg).sent.length =
        s.sent.length + ((s.due host).calls cfg).length := List.length_append
    rw [callsFrom_succ, allSucceed_append]
    cases hok : allSucceed (fails host) s.sent.length ((s.due host).calls cfg) with
    | false =>
      refine ⟨fun h => absurd h (by simp), fun _ => ?_⟩
      obtain ⟨e, t, hrun1, hsent⟩ := hfail hok
      refine ⟨e, t, ?_, fun fuel => ?_⟩
      · rw [hsent, attempted_append_of_failed _ hok]
      · rw [hfuel, hloop, hrun1]
    | true =>
      obtain ⟨count, hrun1⟩ := hstep hok
      rw [Bool.true_and, ← hlen]
      refine ⟨?_, ?_⟩
      · intro hok2
        obtain ⟨t, hsent, htests, hreadings, ht⟩ := hrest hok2
        refine ⟨t, ?_, ?_, ?_, fun fuel => ?_⟩
        · rw [hsent, ← List.append_assoc]
          rfl
        · rw [htests]
          exact Nat.add_right_comm s.tests 1 n
        · rw [hreadings]
          exact Nat.add_right_comm s.readings 1 n
        · rw [hfuel, hloop, hrun1]
          exact ht fuel
      · intro hok2
        obtain ⟨e, t, hsent, ht⟩ := hrestFail hok2
        refine ⟨e, t, ?_, fun fuel => ?_⟩
        · rw [hsent, attempted_append _ hok, ← hlen, ← List.append_assoc]
          rfl
        · rw [hfuel, hloop, hrun1]
          exact ht fuel

end Exec

/-! ### The shutdown -/

/-- The calls of the shutdown with the readings from the `k`-th on. -/
def shutdownFrom (host : Host) (cfg : PIMCConfig IPv4Address) (k : ℕ) : List Sent :=
  ((updatePackets cfg cfg.inverseUpdates).map fun pkt =>
    ⟨pkt, "Goodbye Join/Prune Update", host.gethostnanos k⟩) ++
  [⟨helloPacket cfg.pimsmConfig 0, "Goodbye", host.gethostnanos (k + 1)⟩]

theorem shutdown_eq (host : Host) (cfg : PIMCConfig IPv4Address) (s : Exec) :
    shutdown host cfg s =
      (some (allSucceed (fails host) s.sent.length (shutdownFrom host cfg s.readings)),
        s.sent ++ attempted (fails host) s.sent.length (shutdownFrom host cfg s.readings)) := by
  have hups := sendEach_hands host "Goodbye Join/Prune Update"
    (updatePackets cfg cfg.inverseUpdates) (s.update host)
  obtain ⟨ups, hdef⟩ : ∃ ups, ups = calls "Goodbye Join/Prune Update"
    (updatePackets cfg cfg.inverseUpdates) (s.update host) := ⟨_, rfl⟩
  rw [← hdef] at hups
  have hfrom : shutdownFrom host cfg s.readings = ups ++
      [⟨helloPacket cfg.pimsmConfig 0, "Goodbye", host.gethostnanos (s.readings + 1)⟩] := by
    rw [hdef]
    rfl
  have hsent : (s.update host).sent = s.sent := rfl
  obtain ⟨r, hr⟩ : ∃ r, r = (s.update host).sendEach host "Goodbye Join/Prune Update"
    (updatePackets cfg cfg.inverseUpdates) := ⟨_, rfl⟩
  rw [← hr] at hups
  have hstate := hups.state
  rw [hsent] at hstate
  rw [hfrom, allSucceed_append]
  cases hok : allSucceed (fails host) s.sent.length ups with
  | false =>
    obtain ⟨e, he⟩ := hups.error hok
    rw [attempted_append_of_failed _ hok, Bool.false_and, shutdown, ← hr,
      show r = (.error e, _) from Prod.ext he hstate]
  | true =>
    rw [attempted_of_allSucceed hok] at hstate
    rw [attempted_append _ hok, Bool.true_and, shutdown, ← hr,
      show r = (.ok (), _) from Prod.ext (hups.ok hok) hstate]
    obtain ⟨u, hu⟩ : ∃ u : Exec, u = { s.update host with sent := s.sent ++ ups }.update host :=
      ⟨_, rfl⟩
    have hulen : u.sent.length = s.sent.length + ups.length := by
      rw [hu]
      exact List.length_append
    have husent : u.sent = s.sent ++ ups := by
      rw [hu]
      rfl
    have hucts : u.timer.cts = host.gethostnanos (s.readings + 1) := by
      rw [hu]
      rfl
    simp only [← hu]
    cases hf : fails host u.sent.length with
    | true =>
      obtain ⟨e, he⟩ := send_failed hf "Goodbye" (helloPacket cfg.pimsmConfig 0)
      simp only [he]
      rw [husent, hucts]
      rw [hulen] at hf
      simp [allSucceed, attempted, hf]
    | false =>
      simp only [send_ok hf "Goodbye" (helloPacket cfg.pimsmConfig 0)]
      rw [husent, hucts]
      rw [hulen] at hf
      simp [allSucceed, attempted, hf]

/-! ### A whole run -/

section Run

variable {host : Host} {cfg : PIMCConfig IPv4Address} {n : ℕ}

/-- The calls of the first `n` iterations, if nothing fails. -/
def mainCalls (host : Host) (cfg : PIMCConfig IPv4Address) (n : ℕ) : List Sent :=
  (mainIterations host cfg n).flatMap (Iteration.calls cfg)

theorem mainLoop_start (cfg : PIMCConfig IPv4Address) (hrun : ∀ k < n, host.stopped k = false) :
    (allSucceed (fails host) 0 (mainCalls host cfg n) = true →
      ∃ t, t.sent = mainCalls host cfg n ∧ t.tests = n ∧ t.readings = n + 1 ∧
        ∀ fuel, mainLoop host (n + fuel) (start host cfg) = mainLoop host fuel t) ∧
    (allSucceed (fails host) 0 (mainCalls host cfg n) = false →
      ∃ e t, t.sent = attempted (fails host) 0 (mainCalls host cfg n) ∧
        ∀ fuel, mainLoop host (n + fuel) (start host cfg) = (some (.error e), t)) := by
  have hstart : ∀ k < n, host.stopped ((start host cfg).tests + k) = false := by
    intro k hk
    rw [show (start host cfg).tests + k = k from Nat.zero_add k]
    exact hrun k hk
  obtain ⟨hgo, hfail⟩ := mainLoop_run (start_configured host cfg) hstart
  refine ⟨fun hok => ?_, hfail⟩
  obtain ⟨t, hsent, htests, hreadings, hloop⟩ := hgo hok
  refine ⟨t, hsent, ?_, ?_, hloop⟩
  · rw [htests]
    exact Nat.zero_add n
  · rw [hreadings]
    exact Nat.add_comm 1 n

theorem ipv4exec_running (hcreate : host.create = none)
    (hrun : ∀ k < n, host.stopped k = false) : ipv4exec host cfg n =
      (if allSucceed (fails host) 0 (mainCalls host cfg n) then none else some false,
        attempted (fails host) 0 (mainCalls host cfg n)) := by
  obtain ⟨hgo, hfail⟩ := mainLoop_start cfg hrun
  cases hok : allSucceed (fails host) 0 (mainCalls host cfg n) with
  | true =>
    obtain ⟨t, hsent, -, -, hloop⟩ := hgo hok
    have hnone : mainLoop host n (start host cfg) = (none, t) := hloop 0
    simp [ipv4exec, hcreate, hnone, hsent, attempted_of_allSucceed hok]
  | false =>
    obtain ⟨e, t, hsent, hloop⟩ := hfail hok
    have herr : mainLoop host n (start host cfg) = (some (.error e), t) := hloop 0
    simp [ipv4exec, hcreate, herr, hsent]

theorem ipv4exec_stopped (hcreate : host.create = none)
    (hrun : ∀ k < n, host.stopped k = false) (hstop : host.stopped n = true) {fuel : ℕ}
    (hfuel : n < fuel) : ipv4exec host cfg fuel =
      (some (allSucceed (fails host) 0 (mainCalls host cfg n ++ shutdownFrom host cfg (n + 1))),
        attempted (fails host) 0 (mainCalls host cfg n ++ shutdownFrom host cfg (n + 1))) := by
  obtain ⟨m, hm⟩ : ∃ m, fuel = n + (m + 1) := ⟨fuel - n - 1, by omega⟩
  obtain ⟨hgo, hfail⟩ := mainLoop_start cfg hrun
  cases hok : allSucceed (fails host) 0 (mainCalls host cfg n) with
  | false =>
    obtain ⟨e, t, hsent, hloop⟩ := hfail hok
    have herr := hloop (m + 1)
    rw [← hm] at herr
    rw [attempted_append_of_failed _ hok, allSucceed_append, hok, Bool.false_and]
    simp [ipv4exec, hcreate, herr, hsent]
  | true =>
    obtain ⟨t, hsent, htests, hreadings, hloop⟩ := hgo hok
    have hstopped : mainLoop host fuel (start host cfg) =
        (some (.ok ()), { t with tests := t.tests + 1 }) := by
      have htest : host.stopped t.tests = true := by
        rw [htests]
        exact hstop
      rw [hm, hloop (m + 1), mainLoop, if_pos htest]
    have hexec : ipv4exec host cfg fuel =
        shutdown host cfg { t with tests := t.tests + 1 } := by
      simp only [ipv4exec, hcreate, hstopped]
    rw [allSucceed_append, attempted_append _ hok, hok, Bool.true_and, hexec, shutdown_eq]
    simp only [hsent, hreadings]
    simp

/-- Whatever a run hands over is a call of its iterations or of the shutdown after them. -/
theorem mem_ipv4exec {fuel : ℕ} {s : Sent} (h : s ∈ (ipv4exec host cfg fuel).2) :
    ∃ n, s ∈ mainCalls host cfg n ++ shutdownFrom host cfg (n + 1) := by
  cases hcreate : host.create with
  | some e =>
    rw [ipv4exec, hcreate] at h
    cases h
  | none =>
    by_cases hrun : ∀ k < fuel, host.stopped k = false
    · rw [ipv4exec_running hcreate hrun] at h
      exact ⟨fuel, List.mem_append_left _ (mem_of_attempted h)⟩
    · push Not at hrun
      obtain ⟨k, hk, hstop⟩ := hrun
      -- the run stops at the first test that says so
      have hexists : ∃ n, host.stopped n = true := ⟨k, Bool.eq_true_of_not_eq_false hstop⟩
      have hbefore : ∀ i < Nat.find hexists, host.stopped i = false := fun i hi =>
        Bool.eq_false_of_not_eq_true (Nat.find_min hexists hi)
      have hle : Nat.find hexists ≤ k := Nat.find_min' hexists (Bool.eq_true_of_not_eq_false hstop)
      rw [ipv4exec_stopped hcreate hbefore (Nat.find_spec hexists) (lt_of_le_of_lt hle hk)] at h
      exact ⟨Nat.find hexists, mem_of_attempted h⟩

end Run

/-! ### The order of the packets -/

/-- No update is due before the first Hello. -/
def HelloFirst (its : List Iteration) : Prop :=
  ∀ (i : ℕ) (it : Iteration), its[i]? = some it → it.update = true →
    ∃ j ≤ i, ∃ it' : Iteration, its[j]? = some it' ∧ it'.hello = true

theorem iterations_helloFirst {hello : IPv4HelloEvent} {jpUpdate : IPv4JPUpdateEvent}
    (h : hello.nextEventTime ≤ jpUpdate.nextEventTime) (timers : List Timer) :
    HelloFirst (iterations hello jpUpdate timers) := by
  induction timers generalizing hello jpUpdate with
  | nil =>
    intro i it hit
    simp [iterations] at hit
  | cons timer timers ih =>
    intro i it hit hupdate
    by_cases hdue : hello.nextEventTime ≤ timer.cts
    · exact ⟨0, Nat.zero_le i, _, rfl, by simp [IPv4HelloEvent.ready, hdue]⟩
    · have hlate : ¬ jpUpdate.nextEventTime ≤ timer.cts := fun hle => hdue (BitVec.le_trans h hle)
      cases i with
      | zero =>
        cases hit
        simp [IPv4JPUpdateEvent.ready, hlate] at hupdate
      | succ i =>
        simp only [iterations, IPv4HelloEvent.ready, IPv4JPUpdateEvent.ready, hdue, hlate, if_false,
          List.getElem?_cons_succ] at hit ⊢
        obtain ⟨j, hj, it', hit', hhello⟩ := ih h i it hit hupdate
        exact ⟨j + 1, Nat.succ_le_succ hj, it', hit', hhello⟩

theorem ipv4exec_order (host : Host) (cfg : PIMCConfig IPv4Address) (hcreate : host.create = none)
    (hclock : (host.gethostnanos 0).toNat +
      NanosInSecond.toNat * cfg.pimsmConfig.jpPeriod.toNat < 2 ^ 64)
    (n : ℕ) (hrun : ∀ k < n, host.stopped k = false) :
    ∃ its : List Iteration, its.length = n ∧ HelloFirst its ∧
      (∃ handed ok, CutAtFailure (fails host) (its.flatMap (Iteration.calls cfg)) handed ok ∧
        ipv4exec host cfg n = (if ok then none else some false, handed)) ∧
      (host.stopped n = true → ∃ handed ok,
        CutAtFailure (fails host)
          (its.flatMap (Iteration.calls cfg) ++ shutdownFrom host cfg (n + 1)) handed ok ∧
        ∀ fuel, n < fuel → ipv4exec host cfg fuel = (some ok, handed)) := by
  have hfirst : (start host cfg).hello.nextEventTime ≤ (start host cfg).jpUpdate.nextEventTime := by
    have hnext := Timer.inSec_toNat ⟨host.gethostnanos 0⟩ hclock
    show (host.gethostnanos 0).toNat ≤ (Timer.inSec ⟨host.gethostnanos 0⟩ _).toNat
    rw [hnext]
    exact Nat.le_add_right _ _
  refine ⟨mainIterations host cfg n, mainIterations_length host cfg n,
    iterations_helloFirst hfirst _, ?_, fun hstop => ?_⟩
  · exact ⟨_, _, cutAtFailure_attempted (mainCalls host cfg n), ipv4exec_running hcreate hrun⟩
  · exact ⟨_, _, cutAtFailure_attempted (mainCalls host cfg n ++ shutdownFrom host cfg (n + 1)),
      fun fuel hfuel => ipv4exec_stopped hcreate hrun hstop hfuel⟩

def sampleHost : Host where
  create := none
  gethostnanos k := BitVec.ofNat 64 (1000 * k)
  stopped k := decide (2 ≤ k)
  sendto _ := none

def samplePIMCConfig : PIMCConfig IPv4Address where
  pimsmConfig :=
    { neighbor := .ofOctets 10 0 0 2, intfAddr := .ofOctets 10 0 0 1, helloPeriod := 30,
      helloHoldtime := 105, jpPeriod := 60, jpHoldtime := 210, drPriority := 0, generationId := 1 }
  updates := [⟨[⟨.ofOctets 239 1 1 1, [⟨.ofOctets 10 1 1 1, false, false⟩], []⟩]⟩]
  inverseUpdates := [⟨[⟨.ofOctets 239 1 1 1, [], [⟨.ofOctets 10 1 1 1, false, false⟩]⟩]⟩]

/-- Readings 25 seconds apart, and the second update cannot be sent. -/
def failingHost : Host where
  create := none
  gethostnanos k := BitVec.ofNat 64 (25000000000 * k)
  stopped k := decide (8 ≤ k)
  sendto k := if k = 4 then some "no buffer space available" else none

theorem ipv4exec_order_example : ∃ its : List Iteration, its.length = 8 ∧ HelloFirst its ∧
    (∃ handed ok, CutAtFailure (fails failingHost)
      (its.flatMap (Iteration.calls samplePIMCConfig)) handed ok ∧
      ipv4exec failingHost samplePIMCConfig 8 = (if ok then none else some false, handed)) ∧
    ∃ handed ok, CutAtFailure (fails failingHost)
      (its.flatMap (Iteration.calls samplePIMCConfig) ++
        shutdownFrom failingHost samplePIMCConfig 9) handed ok ∧
      ∀ fuel, 8 < fuel → ipv4exec failingHost samplePIMCConfig fuel = (some ok, handed) := by
  obtain ⟨its, hlen, hfirst, hrunning, hstopped⟩ :=
    ipv4exec_order failingHost samplePIMCConfig rfl (by decide) 8 (by decide)
  exact ⟨its, hlen, hfirst, hrunning, hstopped rfl⟩

example : (ipv4exec failingHost samplePIMCConfig 9).2.map (·.pktName) =
    ["Hello", "Hello", "Join/Prune Update", "Hello", "Join/Prune Update"] := by decide

example : (ipv4exec sampleHost samplePIMCConfig 3).2.map (·.pktName) =
    ["Hello", "Goodbye Join/Prune Update", "Goodbye"] := by decide

end Pimc
