import Mathlib.Data.List.Induction
import Mathlib.Order.Lattice

/-!
# Soft state

A table keeps the state of a key until it expires. A message refreshes the state
of some keys for the time it gives and removes that of others, so a state lives
as long as messages that refresh it keep coming in.
-/

namespace Pimc.Lib

/-- What a message does to the state of a key. -/
inductive Effect where
  | keep
  | refresh
  | remove
  deriving DecidableEq, Repr

structure Arrival (κ : Type) where
  time : ℕ
  hold : ℕ
  effect : κ → Effect

/-- `expiry k` is when the state of `k` expires. -/
def Alive {κ : Type} (expiry : κ → ℕ) (t : ℕ) (k : κ) : Prop := t < expiry k

namespace Arrival

variable {κ : Type}

def apply (expiry : κ → ℕ) (a : Arrival κ) : κ → ℕ := fun k =>
  match a.effect k with
  | .keep => expiry k
  | .refresh => a.time + a.hold
  | .remove => 0

/-- The table after messages that arrived in this order. -/
def applyAll (expiry : κ → ℕ) (as : List (Arrival κ)) : κ → ℕ := as.foldl apply expiry

variable (expiry : κ → ℕ) {a : Arrival κ} {as : List (Arrival κ)} {k : κ}

theorem apply_keep (h : a.effect k = .keep) : apply expiry a k = expiry k := by
  simp only [apply, h]

theorem apply_refresh (h : a.effect k = .refresh) : apply expiry a k = a.time + a.hold := by
  simp only [apply, h]

theorem apply_remove (h : a.effect k = .remove) : apply expiry a k = 0 := by
  simp only [apply, h]

theorem applyAll_snoc (as : List (Arrival κ)) (a : Arrival κ) :
    applyAll expiry (as ++ [a]) = apply (applyAll expiry as) a := by
  simp [applyAll]

theorem applyAll_keep (h : ∀ a ∈ as, a.effect k = .keep) : applyAll expiry as k = expiry k := by
  induction as generalizing expiry with
  | nil => rfl
  | cons a as ih =>
    have hrest := ih (apply expiry a) fun b hb => h b (List.mem_cons_of_mem a hb)
    exact hrest.trans (apply_keep _ (h a List.mem_cons_self))

theorem applyAll_le (h : ∀ a ∈ as, a.effect k ≠ .refresh) : applyAll expiry as k ≤ expiry k := by
  induction as generalizing expiry with
  | nil => exact le_rfl
  | cons a as ih =>
    have hrest := ih (apply expiry a) fun b hb => h b (List.mem_cons_of_mem a hb)
    refine le_trans hrest ?_
    cases heff : a.effect k with
    | keep => rw [apply_keep _ heff]
    | refresh => exact absurd heff (h a List.mem_cons_self)
    | remove =>
      rw [apply_remove _ heff]
      exact Nat.zero_le _

/-- A state that is alive was there before, or has been refreshed. -/
theorem alive_cases {t : ℕ} (h : Alive (applyAll expiry as) t k) :
    Alive expiry t k ∨ ∃ a ∈ as, a.effect k = .refresh ∧ t < a.time + a.hold := by
  induction as generalizing expiry with
  | nil => exact Or.inl h
  | cons a as ih =>
    rcases ih (apply expiry a) h with halive | ⟨b, hb, hrefresh⟩
    · unfold Alive at halive
      cases heff : a.effect k with
      | keep =>
        rw [apply_keep expiry heff] at halive
        exact Or.inl halive
      | refresh =>
        rw [apply_refresh expiry heff] at halive
        exact Or.inr ⟨a, List.mem_cons_self, heff, halive⟩
      | remove =>
        rw [apply_remove expiry heff] at halive
        exact absurd halive (Nat.not_lt_zero t)
    · exact Or.inr ⟨b, List.mem_cons_of_mem a hb, hrefresh⟩

/-- A state that is removed and not refreshed is gone. -/
theorem applyAll_removed (h : ∀ a ∈ as, a.effect k ≠ .refresh) (ha : a ∈ as)
    (hremove : a.effect k = .remove) : applyAll expiry as k = 0 := by
  induction as generalizing expiry with
  | nil => cases ha
  | cons b as ih =>
    have hrest : ∀ c ∈ as, c.effect k ≠ .refresh := fun c hc => h c (List.mem_cons_of_mem b hc)
    rcases List.mem_cons.mp ha with rfl | ha
    · have hle := applyAll_le (apply expiry a) hrest
      rw [apply_remove _ hremove] at hle
      exact Nat.le_zero.mp hle
    · exact ih _ hrest ha

/-- Messages that come in order of time: the last refresh counts. -/
theorem le_applyAll {hold : ℕ} (hsorted : as.Pairwise fun a b => a.time ≤ b.time)
    (hhold : ∀ a ∈ as, a.effect k = .refresh → a.hold = hold)
    (h : ∀ a ∈ as, a.effect k ≠ .remove) (ha : a ∈ as) (hrefresh : a.effect k = .refresh) :
    a.time + hold ≤ applyAll expiry as k := by
  induction as using List.reverseRecOn with
  | nil => cases ha
  | append_singleton as b ih =>
    obtain ⟨hfront, _, hlast⟩ := List.pairwise_append.mp hsorted
    have hin : ∀ c ∈ as, c ∈ as ++ [b] := fun c hc => List.mem_append_left [b] hc
    have hb : b ∈ as ++ [b] := List.mem_append_right as List.mem_cons_self
    rw [applyAll_snoc]
    cases heff : b.effect k with
    | keep =>
      rw [apply_keep _ heff]
      rcases List.mem_append.mp ha with ha | ha
      · exact ih hfront (fun c hc => hhold c (hin c hc)) (fun c hc => h c (hin c hc)) ha
      · rw [List.mem_singleton.mp ha, heff] at hrefresh
        cases hrefresh
    | refresh =>
      rw [apply_refresh _ heff, hhold b hb heff]
      rcases List.mem_append.mp ha with ha | ha
      · exact Nat.add_le_add_right (hlast a ha b List.mem_cons_self) hold
      · rw [List.mem_singleton.mp ha]
    | remove => exact absurd heff (h b hb)

/-- If messages refresh what is asked for and nothing else, the states that are alive are those
asked for. -/
theorem alive_iff (hold : ℕ) {t : ℕ} {Asked : κ → Prop}
    (hsorted : as.Pairwise fun a b => a.time ≤ b.time)
    (hhold : ∀ a ∈ as, a.effect k = .refresh → a.hold = hold)
    (hkept : Asked k → ∀ a ∈ as, a.effect k ≠ .remove)
    (honly : ¬Asked k → ∀ a ∈ as, a.effect k ≠ .refresh)
    (hfresh : Asked k → ∃ a ∈ as, a.effect k = .refresh ∧ t < a.time + hold)
    (hstale : ¬Asked k → expiry k ≤ t ∨ ∃ a ∈ as, a.effect k = .remove) :
    Alive (applyAll expiry as) t k ↔ Asked k := by
  unfold Alive
  constructor
  · intro halive
    by_contra hno
    rcases hstale hno with hle | hremoved
    · have hbound := applyAll_le expiry (honly hno)
      omega
    · obtain ⟨a, ha, hremove⟩ := hremoved
      rw [applyAll_removed expiry (honly hno) ha hremove] at halive
      exact absurd halive (Nat.not_lt_zero t)
  · intro hasked
    obtain ⟨a, ha, hrefresh, ht⟩ := hfresh hasked
    have hle := le_applyAll expiry hsorted hhold (hkept hasked) ha hrefresh
    omega

end Arrival

end Pimc.Lib
