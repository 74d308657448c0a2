import Mathlib.Tactic.Linarith

/-!
# Fixed event queue (lib/pimc/events/FixedEventQueue.hpp)

A handler is asked whether it is ready and, if it is, fired; both may change
the state `σ` that the handlers share. The queue asks its handlers in order
and stops at the first one that fails.
-/

namespace Pimc

structure EventHandler (σ ε : Type) where
  ready : σ → Bool × σ
  fire : σ → Except ε Unit × σ

namespace FixedEventQueue

variable {σ ε : Type}

def chainEvents : List (EventHandler σ ε) → ℕ → σ → Except ε ℕ × σ
  | [], count, s => (.ok count, s)
  | eh :: ehs, count, s =>
    match eh.ready s with
    | (true, s) =>
      match eh.fire s with
      | (.ok _, s) => chainEvents ehs (count + 1) s
      | (.error e, s) => (.error e, s)
    | (false, s) => chainEvents ehs count s

def runOnce (ehs : List (EventHandler σ ε)) (s : σ) : Except ε ℕ × σ := chainEvents ehs 0 s

/-! ### One handler -/

variable {eh : EventHandler σ ε} {ehs : List (EventHandler σ ε)} {count : ℕ} {s t u : σ}

theorem chainEvents_waiting (hr : eh.ready s = (false, t)) :
    chainEvents (eh :: ehs) count s = chainEvents ehs count t := by
  simp [chainEvents, hr]

theorem chainEvents_fired (hr : eh.ready s = (true, t)) (hf : eh.fire t = (.ok (), u)) :
    chainEvents (eh :: ehs) count s = chainEvents ehs (count + 1) u := by
  simp [chainEvents, hr, hf]

theorem chainEvents_failed {e : ε} (hr : eh.ready s = (true, t)) (hf : eh.fire t = (.error e, u)) :
    chainEvents (eh :: ehs) count s = (.error e, u) := by
  simp [chainEvents, hr, hf]

end FixedEventQueue

end Pimc
