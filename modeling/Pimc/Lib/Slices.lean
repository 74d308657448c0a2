import Mathlib.Algebra.BigOperators.Intervals
import Mathlib.Algebra.Order.BigOperators.Group.Finset
import Mathlib.Data.List.Basic
import Mathlib.Tactic.Linarith

/-!
# Cutting a list over a sequence of bins

First fit of a list of equal items: bin `i` has room for `rooms i` of them and
takes as many as are left when its turn comes. The slice of a bin depends on
the rooms of the bins before it only, so it is given by a prefix sum and needs
no recursion over the bins.
-/

namespace Pimc.Lib

open Finset

variable {α : Type}

/-- How many items the first `n` bins have room for. -/
def taken (rooms : ℕ → ℕ) (n : ℕ) : ℕ := ∑ i ∈ range n, rooms i

/-- The items that fall to bin `i`. -/
def slice (rooms : ℕ → ℕ) (xs : List α) (i : ℕ) : List α :=
  (xs.drop (taken rooms i)).take (rooms i)

@[simp] theorem taken_zero (rooms : ℕ → ℕ) : taken rooms 0 = 0 := rfl

theorem taken_succ (rooms : ℕ → ℕ) (n : ℕ) : taken rooms (n + 1) = taken rooms n + rooms n :=
  sum_range_succ rooms n

theorem taken_mono (rooms : ℕ → ℕ) {m n : ℕ} (h : m ≤ n) : taken rooms m ≤ taken rooms n :=
  sum_le_sum_of_subset (range_mono h)

theorem taken_eq_zero {rooms : ℕ → ℕ} {n : ℕ} (h : ∀ i < n, rooms i = 0) : taken rooms n = 0 :=
  sum_eq_zero fun i hi => h i (mem_range.mp hi)

theorem length_slice (rooms : ℕ → ℕ) (xs : List α) (i : ℕ) :
    (slice rooms xs i).length = min (rooms i) (xs.length - taken rooms i) := by
  simp [slice]

theorem length_slice_le (rooms : ℕ → ℕ) (xs : List α) (i : ℕ) :
    (slice rooms xs i).length ≤ rooms i := by
  rw [length_slice]
  exact min_le_left _ _

theorem slice_eq_nil_iff {rooms : ℕ → ℕ} {xs : List α} {i : ℕ} :
    slice rooms xs i = [] ↔ rooms i = 0 ∨ xs.length ≤ taken rooms i := by
  rw [← List.length_eq_zero_iff, length_slice]
  omega

theorem slice_eq_nil_of_le {rooms : ℕ → ℕ} {xs : List α} {i : ℕ}
    (h : xs.length ≤ taken rooms i) : slice rooms xs i = [] :=
  slice_eq_nil_iff.mpr (Or.inr h)

/-- The slices of the first `n` bins, one after the other, are a prefix of the list. -/
theorem flatMap_slice (rooms : ℕ → ℕ) (xs : List α) (n : ℕ) :
    (List.range n).flatMap (slice rooms xs) = xs.take (taken rooms n) := by
  induction n with
  | zero => simp
  | succ n ih =>
    rw [List.range_succ, List.flatMap_append, ih, taken_succ, List.take_add]
    simp [slice]

/-- Bins with room for the whole list take it without loss, repetition or reordering. -/
theorem flatMap_slice_of_le {rooms : ℕ → ℕ} {xs : List α} {n : ℕ}
    (h : xs.length ≤ taken rooms n) : (List.range n).flatMap (slice rooms xs) = xs := by
  rw [flatMap_slice, List.take_of_length_le h]

/-- A bin that gets an item leaves the bins before it without room. -/
theorem length_slice_eq_of_lt {rooms : ℕ → ℕ} {xs : List α} {i j : ℕ} (hij : i < j)
    (h : slice rooms xs j ≠ []) : (slice rooms xs i).length = rooms i := by
  have hj : taken rooms j < xs.length := by
    rw [Ne, slice_eq_nil_iff] at h
    omega
  have hi : taken rooms (i + 1) ≤ taken rooms j := taken_mono rooms hij
  rw [taken_succ] at hi
  rw [length_slice]
  omega

/-! ### The last element -/

theorem split_snoc {xs pre post : List α} {x y : α} (h : xs ++ [x] = pre ++ y :: post) :
    (xs = pre ∧ x = y ∧ post = []) ∨ ∃ post', post = post' ++ [x] ∧ xs = pre ++ y :: post' := by
  rcases List.eq_nil_or_concat post with rfl | ⟨post', last, rfl⟩
  · obtain ⟨hpre, hlast⟩ := List.append_inj' h rfl
    exact Or.inl ⟨hpre, List.singleton_inj.mp hlast, rfl⟩
  · have hassoc : xs ++ [x] = (pre ++ y :: post') ++ [last] := by simpa using h
    obtain ⟨hpre, hlast⟩ := List.append_inj' hassoc rfl
    exact Or.inr ⟨post', by rw [List.singleton_inj.mp hlast, List.concat_eq_append], hpre⟩

end Pimc.Lib
