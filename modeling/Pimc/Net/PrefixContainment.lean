import Mathlib.Data.Prod.Lex
import Mathlib.Data.Set.Image
import Pimc.Lib.BitPrefix
import Pimc.Net.IPv4Prefix

/-!
# Order and containment of prefixes (lib/pimc/net/IPv4Prefix.hpp)

A prefix stands for a cylinder of addresses, and its order is the lexicographic
order of address and length.
-/

namespace Pimc

open Lib IPv4Address

namespace IPv4Prefix

/-! ### The operators -/

def ascending (lengths : ℕ → ℕ → Bool) (lhs rhs : IPv4Prefix) : Bool :=
  if lhs.addr < rhs.addr then true
  else if lhs.addr > rhs.addr then false
  else lengths lhs.plen rhs.plen

def descending (lengths : ℕ → ℕ → Bool) (lhs rhs : IPv4Prefix) : Bool :=
  if lhs.addr > rhs.addr then true
  else if lhs.addr < rhs.addr then false
  else lengths lhs.plen rhs.plen

/-- `operator<`, and the others by their usual names. -/
def lt : IPv4Prefix → IPv4Prefix → Bool := ascending fun l r => decide (l < r)

def le : IPv4Prefix → IPv4Prefix → Bool := ascending fun l r => decide (l ≤ r)

def gt : IPv4Prefix → IPv4Prefix → Bool := descending fun l r => decide (l > r)

def ge : IPv4Prefix → IPv4Prefix → Bool := descending fun l r => decide (l ≥ r)

def eq (lhs rhs : IPv4Prefix) : Bool := lhs.addr == rhs.addr && lhs.plen == rhs.plen

def ne (lhs rhs : IPv4Prefix) : Bool := lhs.addr != rhs.addr || lhs.plen != rhs.plen

/-- `contains(IPv4Address)`. -/
def contains (p : IPv4Prefix) (addr : IPv4Address) : Bool :=
  p.addr == addr.land ⟨maskValue p.plen⟩

/-- `contains(IPv4Prefix)`. -/
def containsPrefix (p rhs : IPv4Prefix) : Bool :=
  if p.plen ≥ rhs.plen then false else p.contains rhs.addr

/-- Every prefix is what `make` builds from its own address and length. -/
theorem make_self (p : IPv4Prefix) : make p.addr p.plen = .ok p := by
  obtain ⟨q, hmake, haddr, hplen⟩ := make_ok p.addr p.plen_le
  rw [p.canonical] at haddr
  rw [hmake, IPv4Prefix.ext haddr hplen]

/-! ### The order -/

def key (p : IPv4Prefix) : IPv4Address ×ₗ ℕ := toLex (p.addr, p.plen)

theorem key_lt_iff (p q : IPv4Prefix) :
    p.key < q.key ↔ p.addr < q.addr ∨ p.addr = q.addr ∧ p.plen < q.plen :=
  Prod.Lex.toLex_lt_toLex

theorem key_le_iff (p q : IPv4Prefix) :
    p.key ≤ q.key ↔ p.addr < q.addr ∨ p.addr = q.addr ∧ p.plen ≤ q.plen :=
  Prod.Lex.toLex_le_toLex

theorem ascending_iff (lengths : ℕ → ℕ → Bool) (p q : IPv4Prefix) :
    ascending lengths p q = true ↔
      p.addr < q.addr ∨ p.addr = q.addr ∧ lengths p.plen q.plen = true := by
  unfold ascending
  rcases lt_trichotomy p.addr q.addr with hlt | heq | hgt
  · simp [hlt]
  · simp [heq]
  · simp [hgt, hgt.not_gt, hgt.ne']

theorem descending_iff (lengths : ℕ → ℕ → Bool) (p q : IPv4Prefix) :
    descending lengths p q = true ↔
      q.addr < p.addr ∨ q.addr = p.addr ∧ lengths p.plen q.plen = true := by
  unfold descending
  rcases lt_trichotomy q.addr p.addr with hlt | heq | hgt
  · simp [hlt]
  · simp [heq]
  · simp [hgt, hgt.not_gt, hgt.ne']

theorem lt_iff (p q : IPv4Prefix) : lt p q = true ↔ p.key < q.key := by
  unfold lt
  rw [ascending_iff, decide_eq_true_eq, key_lt_iff]

theorem le_iff (p q : IPv4Prefix) : le p q = true ↔ p.key ≤ q.key := by
  unfold le
  rw [ascending_iff, decide_eq_true_eq, key_le_iff]

theorem gt_iff (p q : IPv4Prefix) : gt p q = true ↔ q.key < p.key := by
  unfold gt
  rw [descending_iff, decide_eq_true_eq, key_lt_iff]

theorem ge_iff (p q : IPv4Prefix) : ge p q = true ↔ q.key ≤ p.key := by
  unfold ge
  rw [descending_iff, decide_eq_true_eq, key_le_iff]

theorem key_injective : Function.Injective key := by
  intro p q h
  have hpair : (p.addr, p.plen) = (q.addr, q.plen) := h
  injection hpair with haddr hplen
  exact IPv4Prefix.ext haddr hplen

theorem eq_iff (p q : IPv4Prefix) : eq p q = true ↔ p.key = q.key := by
  unfold eq
  rw [key_injective.eq_iff, Bool.and_eq_true, beq_iff_eq, beq_iff_eq, IPv4Prefix.ext_iff]

theorem ne_iff (p q : IPv4Prefix) : ne p q = true ↔ p.key ≠ q.key := by
  have hne : ne p q = !eq p q := by
    unfold ne eq
    rw [Bool.not_and]
    rfl
  rw [hne, Bool.not_eq_true', ← Bool.not_eq_true, eq_iff]

/-! ### The addresses of a prefix -/

/-- The addresses that a prefix contains. -/
def addresses (p : IPv4Prefix) : Set IPv4Address := {a | p.contains a = true}

theorem contains_iff (p : IPv4Prefix) (a : IPv4Address) :
    p.contains a = true ↔ AgreeOn p.plen p.addr.addr a.addr := by
  have hself := fun i hi => land_mask_bit (i := i) p.addr p.plen_le hi
  rw [p.canonical] at hself
  unfold contains
  rw [beq_iff_eq]
  apply Iff.intro
  · intro h i hi
    have hi32 : i < 32 := lt_of_lt_of_le hi p.plen_le
    have hbit := land_mask_bit a p.plen_le hi32
    rw [← h, decide_eq_true hi, Bool.true_and] at hbit
    exact hbit
  · intro h
    apply IPv4Address.ext
    apply BitVec.eq_of_getMsbD_eq
    intro i hi
    rw [land_mask_bit a p.plen_le hi, hself i hi]
    by_cases hlt : i < p.plen
    · rw [h i hlt]
    · rw [decide_eq_false hlt, Bool.false_and, Bool.false_and]

theorem addresses_eq (p : IPv4Prefix) :
    p.addresses = Set.preimage IPv4Address.addr (cylinder p.plen p.addr.addr) :=
  Set.ext (contains_iff p)

theorem addr_surjective : Function.Surjective IPv4Address.addr := fun v => ⟨⟨v⟩, rfl⟩

theorem addresses_subset_iff (p q : IPv4Prefix) :
    q.addresses ⊆ p.addresses ↔
      cylinder q.plen q.addr.addr ⊆ cylinder p.plen p.addr.addr := by
  rw [addresses_eq, addresses_eq]
  exact addr_surjective.preimage_subset_preimage_iff

theorem containsPrefix_iff (p q : IPv4Prefix) :
    p.containsPrefix q = true ↔ p.plen < q.plen ∧ AgreeOn p.plen p.addr.addr q.addr.addr := by
  unfold containsPrefix
  split_ifs with hge
  · exact iff_of_false (by simp) fun h => absurd h.1 (not_lt.mpr hge)
  · rw [contains_iff, and_iff_right (not_le.mp hge)]

theorem containsPrefix_iff_ssubset (p q : IPv4Prefix) :
    p.containsPrefix q = true ↔ q.addresses ⊂ p.addresses := by
  rw [containsPrefix_iff, ← cylinder_ssubset_iff q.plen_le, ssubset_iff_subset_not_subset,
    ssubset_iff_subset_not_subset, addresses_subset_iff, addresses_subset_iff]

theorem addresses_nested_or_disjoint (p q : IPv4Prefix) :
    p.addresses ⊆ q.addresses ∨ q.addresses ⊆ p.addresses ∨
      Disjoint p.addresses q.addresses := by
  rw [addresses_subset_iff, addresses_subset_iff, addresses_eq p, addresses_eq q]
  rcases cylinder_nested_or_disjoint p.plen q.plen p.addr.addr q.addr.addr with h | h | h
  · exact Or.inl h
  · exact Or.inr (Or.inl h)
  · exact Or.inr (Or.inr (h.preimage _))

theorem key_lt_of_containsPrefix {p q : IPv4Prefix} (h : p.containsPrefix q = true) :
    p.key < q.key := by
  obtain ⟨hlen, hagree⟩ := (containsPrefix_iff p q).mp h
  have hmasked : p.addr = q.addr.land ⟨maskValue p.plen⟩ :=
    beq_iff_eq.mp ((contains_iff p q.addr).mpr hagree)
  have hle : p.addr ≤ q.addr := by
    rw [hmasked]
    show (q.addr.addr &&& maskValue p.plen).toNat ≤ q.addr.addr.toNat
    rw [BitVec.toNat_and]
    exact Nat.and_le_left
  rw [key_lt_iff]
  rcases hle.lt_or_eq with hlt | heq
  · exact Or.inl hlt
  · exact Or.inr ⟨heq, hlen⟩

/-- Containment is inclusion of the addresses, and the order puts a prefix before those it
contains. -/
theorem contains_exact (p q : IPv4Prefix) :
    (∀ a : IPv4Address, p.contains a = true ↔
      ∀ i < p.plen, p.addr.addr.getMsbD i = a.addr.getMsbD i) ∧
    (p.containsPrefix q = true ↔ q.addresses ⊂ p.addresses) ∧
    (p.addresses ⊆ q.addresses ∨ q.addresses ⊆ p.addresses ∨
      Disjoint p.addresses q.addresses) ∧
    ((lt p q = true ↔ p.key < q.key) ∧ (le p q = true ↔ p.key ≤ q.key) ∧
      (gt p q = true ↔ p.key > q.key) ∧ (ge p q = true ↔ p.key ≥ q.key) ∧
      (eq p q = true ↔ p.key = q.key) ∧ (ne p q = true ↔ p.key ≠ q.key)) ∧
    (p.key = q.key ↔ p = q) ∧
    (p.containsPrefix q = true → lt p q = true) ∧
    ∀ l : List IPv4Prefix, l.Pairwise (fun r s => le r s = true) →
      l.Pairwise fun r s => s.containsPrefix r = false := by
  refine ⟨contains_iff p, containsPrefix_iff_ssubset p q, addresses_nested_or_disjoint p q,
    ⟨lt_iff p q, le_iff p q, gt_iff p q, ge_iff p q, eq_iff p q, ne_iff p q⟩,
    key_injective.eq_iff, ?_, ?_⟩
  · intro h
    exact (lt_iff p q).mpr (key_lt_of_containsPrefix h)
  · intro l hsorted
    apply hsorted.imp
    intro r s hle
    rw [← Bool.not_eq_true]
    intro hcontains
    exact absurd ((le_iff r s).mp hle) (not_le.mpr (key_lt_of_containsPrefix hcontains))

end IPv4Prefix

end Pimc
