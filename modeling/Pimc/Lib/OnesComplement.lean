import Mathlib.Data.List.Induction
import Mathlib.Data.Nat.ModEq
import Pimc.Lib.ByteOrder

/-!
# Ones' complement sums

A sum of 16-bit words with end-around carry is the sum of the words modulo
65535, except that a sum which is not empty of ones never comes out as zero.
`weigh p bs` adds the bytes with alternating weights 256 and 1; the first
weight is 256 when `p` holds.
-/

namespace Pimc.Lib

/-! ### End-around carry -/

def onesAdd (a b : ℕ) : ℕ := if a + b < 65536 then a + b else a + b - 65535

/-- The 16-bit words of a byte sequence, the last one padded with a zero byte. -/
def wireWords : List Byte → List ℕ
  | b0 :: b1 :: rest => (256 * b0.toNat + b1.toNat) :: wireWords rest
  | [b] => [256 * b.toNat]
  | [] => []

def onesSum (bs : List Byte) : ℕ := (wireWords bs).foldl onesAdd 0

/-! ### Alternating weights -/

def weigh : Bool → List Byte → ℕ
  | _, [] => 0
  | true, b :: bs => 256 * b.toNat + weigh false bs
  | false, b :: bs => b.toNat + weigh true bs

theorem weigh_other_phase (p : Bool) (bs : List Byte) :
    weigh (!p) bs ≡ 256 * weigh p bs [MOD 65535] := by
  induction bs generalizing p with
  | nil => exact Nat.ModEq.refl 0
  | cons b bs ih =>
    have htail := ih (!p)
    rw [Bool.not_not] at htail
    cases p with
    | true =>
      simp only [weigh, Bool.not_true, Nat.ModEq] at htail ⊢
      omega
    | false =>
      simp only [weigh, Bool.not_false, Nat.ModEq] at htail ⊢
      omega

theorem weigh_append_even (p : Bool) {xs : List Byte} (ys : List Byte) (h : 2 ∣ xs.length) :
    weigh p (xs ++ ys) = weigh p xs + weigh p ys := by
  induction xs using List.twoStepInduction with
  | nil => simp [weigh]
  | singleton b =>
    simp only [List.length_cons, List.length_nil] at h
    omega
  | cons_cons b c xs ih _ =>
    have htail := ih (by
      simp only [List.length_cons] at h
      omega)
    cases p <;>
    · simp only [List.cons_append, weigh, htail]
      omega

theorem weigh_zeros (p : Bool) (n : ℕ) : weigh p (List.replicate n 0) = 0 := by
  induction n generalizing p with
  | zero => rfl
  | succ n ih =>
    have hzero : (0 : Byte).toNat = 0 := rfl
    cases p <;> simp only [List.replicate_succ, weigh, ih, hzero]

theorem weigh_padded (p : Bool) (bs : List Byte) (n : ℕ) :
    weigh p (bs ++ List.replicate n 0) = weigh p bs := by
  induction bs generalizing p with
  | nil => exact weigh_zeros p n
  | cons b bs ih => cases p <;> simp only [List.cons_append, weigh, ih]

theorem weigh_be16 (v : BitVec 16) : weigh true (be16 v) = v.toNat := by
  have h := extract16_toNat v
  simp only [be16, weigh]
  omega

/-! ### The sum of the words -/

theorem foldl_onesAdd (ws : List ℕ) (hws : ∀ w ∈ ws, w ≤ 65535) (a : ℕ) (ha : a ≤ 65535) :
    ws.foldl onesAdd a ≤ 65535 ∧ ws.foldl onesAdd a ≡ a + ws.sum [MOD 65535] ∧
      (ws.foldl onesAdd a = 0 ↔ a + ws.sum = 0) := by
  induction ws generalizing a with
  | nil => exact ⟨ha, Nat.ModEq.refl a, Iff.rfl⟩
  | cons w ws ih =>
    have hw := hws w List.mem_cons_self
    have hstep : onesAdd a w ≤ 65535 ∧ onesAdd a w ≡ a + w [MOD 65535] ∧
        (onesAdd a w = 0 ↔ a + w = 0) := by
      unfold onesAdd Nat.ModEq
      split_ifs <;> omega
    obtain ⟨hle, hmod, hzero⟩ := hstep
    obtain ⟨hle', hmod', hzero'⟩ := ih (fun x hx => hws x (List.mem_cons_of_mem w hx)) _ hle
    refine ⟨hle', ?_, ?_⟩
    · rw [List.sum_cons, ← Nat.add_assoc]
      exact hmod'.trans (hmod.add_right _)
    · rw [List.foldl_cons, hzero', List.sum_cons]
      omega

theorem wireWords_sum (bs : List Byte) : (wireWords bs).sum = weigh true bs := by
  induction bs using List.twoStepInduction with
  | nil => rfl
  | singleton b => simp [wireWords, weigh]
  | cons_cons b c bs ih _ =>
    simp only [wireWords, weigh, List.sum_cons, ih]
    omega

theorem wireWords_le (bs : List Byte) : ∀ w ∈ wireWords bs, w ≤ 65535 := by
  induction bs using List.twoStepInduction with
  | nil => simp [wireWords]
  | singleton b =>
    have hb := b.isLt
    simp only [wireWords, List.mem_singleton, forall_eq]
    omega
  | cons_cons b c bs ih _ =>
    have hb := b.isLt
    have hc := c.isLt
    simp only [wireWords, List.mem_cons, forall_eq_or_imp]
    exact ⟨by omega, ih⟩

theorem onesSum_eq_ones_iff (bs : List Byte) :
    onesSum bs = 0xFFFF ↔ 65535 ∣ weigh true bs ∧ weigh true bs ≠ 0 := by
  obtain ⟨hle, hmod, hzero⟩ := foldl_onesAdd (wireWords bs) (wireWords_le bs) 0 (by omega)
  rw [wireWords_sum, Nat.zero_add] at hmod hzero
  unfold onesSum
  unfold Nat.ModEq at hmod
  omega

end Pimc.Lib
