import Mathlib.Data.Set.Lattice
import Mathlib.Order.CompletePartialOrder
import Mathlib.Data.BitVec

/-!
# Words that begin with the same bits

The words that agree with `a` on the first `n` bits form a cylinder. Cylinders
are nested or disjoint, and a longer prefix makes a smaller one.
-/

namespace Pimc.Lib

variable {w : ℕ}

/-- The first `n` bits, the most significant ones, are the same. -/
def AgreeOn (n : ℕ) (a b : BitVec w) : Prop := ∀ i < n, a.getMsbD i = b.getMsbD i

namespace AgreeOn

theorem refl (n : ℕ) (a : BitVec w) : AgreeOn n a a := fun _ _ => rfl

theorem symm {n : ℕ} {a b : BitVec w} (h : AgreeOn n a b) : AgreeOn n b a :=
  fun i hi => (h i hi).symm

theorem trans {n : ℕ} {a b c : BitVec w} (h : AgreeOn n a b) (h' : AgreeOn n b c) :
    AgreeOn n a c := fun i hi => (h i hi).trans (h' i hi)

theorem mono {n m : ℕ} {a b : BitVec w} (h : AgreeOn m a b) (hle : n ≤ m) : AgreeOn n a b :=
  fun i hi => h i (lt_of_lt_of_le hi hle)

end AgreeOn

def cylinder (n : ℕ) (a : BitVec w) : Set (BitVec w) := {b | AgreeOn n a b}

theorem mem_cylinder_self (n : ℕ) (a : BitVec w) : a ∈ cylinder n a := AgreeOn.refl n a

theorem cylinder_subset {n m : ℕ} {a b : BitVec w} (hle : n ≤ m) (h : AgreeOn n a b) :
    cylinder m b ⊆ cylinder n a := by
  intro c hc
  exact h.trans (AgreeOn.mono hc hle)

/-- A word that leaves a longer prefix at its last bit only. -/
theorem exists_agree_not_agree {n m : ℕ} (hlt : n < m) (hm : m ≤ w) (b : BitVec w) :
    ∃ c, AgreeOn n b c ∧ ¬ AgreeOn m b c := by
  refine ⟨b ^^^ BitVec.twoPow w (w - 1 - n), ?_, ?_⟩
  · intro i hi
    have hne : ¬ i = w - (w - 1 - n) - 1 := by omega
    rw [BitVec.getMsbD_xor, BitVec.getMsbD_twoPow, decide_eq_false hne, Bool.and_false,
      Bool.xor_false]
  · intro h
    have hn := h n hlt
    have hw : w - 1 - n < w := by omega
    have heq : n = w - (w - 1 - n) - 1 := by omega
    rw [BitVec.getMsbD_xor, BitVec.getMsbD_twoPow, decide_eq_true hw, decide_eq_true heq] at hn
    cases hb : b.getMsbD n <;> rw [hb] at hn <;> cases hn

theorem cylinder_ssubset_iff {n m : ℕ} {a b : BitVec w} (hm : m ≤ w) :
    cylinder m b ⊂ cylinder n a ↔ n < m ∧ AgreeOn n a b := by
  rw [ssubset_iff_subset_not_subset]
  apply Iff.intro
  · intro h
    obtain ⟨hsub, hnot⟩ := h
    have hagree : AgreeOn n a b := hsub (mem_cylinder_self m b)
    refine ⟨?_, hagree⟩
    by_contra hge
    exact hnot (cylinder_subset (by omega) (hagree.mono (by omega)).symm)
  · intro h
    obtain ⟨hlt, hagree⟩ := h
    refine ⟨cylinder_subset hlt.le hagree, ?_⟩
    intro hsub
    obtain ⟨c, hc, hnot⟩ := exists_agree_not_agree hlt hm b
    exact hnot (hsub (hagree.trans hc))

theorem cylinder_nested_or_disjoint (n m : ℕ) (a b : BitVec w) :
    cylinder n a ⊆ cylinder m b ∨ cylinder m b ⊆ cylinder n a ∨
      Disjoint (cylinder n a) (cylinder m b) := by
  by_cases hmeet : ∃ c, c ∈ cylinder n a ∧ c ∈ cylinder m b
  · obtain ⟨c, ha, hb⟩ := hmeet
    rcases Nat.le_total n m with hle | hle
    · exact Or.inr (Or.inl (cylinder_subset hle (AgreeOn.trans ha (AgreeOn.mono hb hle).symm)))
    · exact Or.inl (cylinder_subset hle (AgreeOn.trans hb (AgreeOn.mono ha hle).symm))
  · refine Or.inr (Or.inr (Set.disjoint_left.mpr ?_))
    intro c ha hb
    exact hmeet ⟨c, ha, hb⟩

end Pimc.Lib
