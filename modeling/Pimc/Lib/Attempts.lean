import Mathlib.Data.List.Basic

/-!
# Attempts up to the first failure

Items are handed over one after the other, the k-th attempt of the run failing
when `fails k`. A failed attempt is the last one. `attempted` is what has been
handed over and `allSucceed` whether the list was gone through.
-/

namespace Pimc.Lib

variable {α : Type} (fails : ℕ → Bool)

def attempted : ℕ → List α → List α
  | _, [] => []
  | n, a :: as => a :: if fails n then [] else attempted (n + 1) as

def allSucceed : ℕ → List α → Bool
  | _, [] => true
  | n, _ :: as => !fails n && allSucceed (n + 1) as

variable {fails}

theorem attempted_of_allSucceed {n : ℕ} {as : List α} (h : allSucceed fails n as = true) :
    attempted fails n as = as := by
  induction as generalizing n with
  | nil => rfl
  | cons a as ih =>
    simp only [allSucceed, Bool.and_eq_true, Bool.not_eq_true'] at h
    simp [attempted, h.1, ih h.2]

theorem mem_of_attempted {n : ℕ} {a : α} {as : List α} (h : a ∈ attempted fails n as) : a ∈ as := by
  induction as generalizing n with
  | nil => exact h
  | cons b as ih =>
    rcases List.mem_cons.mp h with rfl | h
    · exact List.mem_cons_self
    · split_ifs at h
      · cases h
      · exact List.mem_cons_of_mem b (ih h)

theorem allSucceed_append (n : ℕ) (as bs : List α) :
    allSucceed fails n (as ++ bs) =
      (allSucceed fails n as && allSucceed fails (n + as.length) bs) := by
  induction as generalizing n with
  | nil => simp [allSucceed]
  | cons a as ih =>
    have hlen : n + 1 + as.length = n + (as.length + 1) := by omega
    simp [allSucceed, ih, hlen, Bool.and_assoc]

theorem attempted_append {n : ℕ} {as : List α} (bs : List α) (h : allSucceed fails n as = true) :
    attempted fails n (as ++ bs) = as ++ attempted fails (n + as.length) bs := by
  induction as generalizing n with
  | nil => rfl
  | cons a as ih =>
    simp only [allSucceed, Bool.and_eq_true, Bool.not_eq_true'] at h
    have hlen : n + 1 + as.length = n + (as.length + 1) := by omega
    simp [attempted, h.1, ih h.2, hlen]

theorem attempted_append_of_failed {n : ℕ} {as : List α} (bs : List α)
    (h : allSucceed fails n as = false) :
    attempted fails n (as ++ bs) = attempted fails n as := by
  induction as generalizing n with
  | nil => simp [allSucceed] at h
  | cons a as ih =>
    cases hf : fails n with
    | true => simp [attempted, hf]
    | false =>
      simp only [allSucceed, hf, Bool.not_false, Bool.true_and] at h
      simp [attempted, hf, ih h]

/-! ### The first failure -/

/-- `handed` is all of `full`, or `full` cut right after the first attempt that fails; `ok`
says which. -/
def CutAtFailure (fails : ℕ → Bool) (full handed : List α) (ok : Bool) : Prop :=
  ((∀ k < full.length, fails k = false) ∧ handed = full ∧ ok = true) ∨
  ∃ k < full.length, fails k = true ∧ (∀ i < k, fails i = false) ∧
    handed = full.take (k + 1) ∧ ok = false

theorem cutAt_from (fails : ℕ → Bool) (n : ℕ) (as : List α) :
    (allSucceed fails n as = true ∧ ∀ k < as.length, fails (n + k) = false) ∨
    (allSucceed fails n as = false ∧ ∃ k < as.length, fails (n + k) = true ∧
      (∀ i < k, fails (n + i) = false) ∧ attempted fails n as = as.take (k + 1)) := by
  induction as generalizing n with
  | nil => exact Or.inl ⟨rfl, fun k hk => absurd hk (Nat.not_lt_zero k)⟩
  | cons a as ih =>
    cases hf : fails n with
    | true => exact Or.inr ⟨by simp [allSucceed, hf], 0, by simp, hf, by simp, by simp [attempted, hf]⟩
    | false =>
      have hshift : ∀ k, n + 1 + k = n + (k + 1) := fun k => by omega
      rcases ih (n + 1) with ⟨hok, hall⟩ | ⟨hbad, k, hk, hfail, hfirst, htake⟩
      · refine Or.inl ⟨by simp [allSucceed, hf, hok], fun k hk => ?_⟩
        cases k with
        | zero => exact hf
        | succ k =>
          rw [← hshift]
          exact hall k (by simpa using hk)
      · refine Or.inr ⟨by simp [allSucceed, hbad], k + 1, by simpa using hk, ?_, fun i hi => ?_, ?_⟩
        · rw [← hshift]
          exact hfail
        · cases i with
          | zero => exact hf
          | succ i =>
            rw [← hshift]
            exact hfirst i (by omega)
        · simp [attempted, hf, htake]

theorem cutAtFailure_attempted (as : List α) :
    CutAtFailure fails as (attempted fails 0 as) (allSucceed fails 0 as) := by
  rcases cutAt_from fails 0 as with ⟨hok, hall⟩ | ⟨hbad, k, hk, hfail, hfirst, htake⟩
  · exact Or.inl ⟨fun k hk => by simpa using hall k hk, attempted_of_allSucceed hok, hok⟩
  · exact Or.inr ⟨k, hk, by simpa using hfail, fun i hi => by simpa using hfirst i hi, htake, hbad⟩

end Pimc.Lib
