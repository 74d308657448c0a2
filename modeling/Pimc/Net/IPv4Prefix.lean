import Mathlib.Tactic.Linarith
import Pimc.Net.IPv4Address

/-!
# IPv4 prefixes (lib/pimc/net/IPv4Prefix.hpp)

A prefix is built by `make` only, so it carries the bound of its length and the
canonical form of its address.
-/

namespace Pimc

namespace IPv4Address

/-- `operator&`. -/
def land (a b : IPv4Address) : IPv4Address := ⟨a.addr &&& b.addr⟩

/-- The shift by `32 - plen` is defined for lengths from 1 to 32. -/
def maskValue (plen : ℕ) : BitVec 32 :=
  if plen = 0 then 0 else 0xFFFFFFFF#32 - ((1#32 <<< (32 - plen)) - 1#32)

/-- `toMask(uint32_t)`. -/
def ofPrefixLength (plen : ℕ) : Except String IPv4Address :=
  if plen > 32 then .error s!"illegal IPv4 prefix length {plen}" else .ok ⟨maskValue plen⟩

theorem ofPrefixLength_ok {plen : ℕ} {mask : IPv4Address} :
    ofPrefixLength plen = .ok mask ↔ plen ≤ 32 ∧ mask = ⟨maskValue plen⟩ := by
  unfold ofPrefixLength
  split_ifs with h
  · constructor
    · intro hmask
      cases hmask
    · intro h'
      obtain ⟨hle, _⟩ := h'
      omega
  · rw [Except.ok.injEq, eq_comm]
    exact (and_iff_right (Nat.not_lt.mp h)).symm

theorem maskValue_bits : ∀ plen : Fin 33, ∀ i : Fin 32,
    (maskValue plen).getMsbD i = decide (i.val < plen.val) := by
  decide +kernel

/-- The mask keeps the first `plen` bits. -/
theorem land_mask_bit (a : IPv4Address) {plen i : ℕ} (hplen : plen ≤ 32) (hi : i < 32) :
    (a.land ⟨maskValue plen⟩).addr.getMsbD i = (decide (i < plen) && a.addr.getMsbD i) := by
  have hmask := maskValue_bits ⟨plen, by omega⟩ ⟨i, hi⟩
  simp only at hmask
  show (a.addr &&& maskValue plen).getMsbD i = _
  rw [BitVec.getMsbD_and, hmask, Bool.and_comm]

theorem land_land_mask (a mask : IPv4Address) : (a.land mask).land mask = a.land mask := by
  unfold land
  rw [BitVec.and_assoc, BitVec.and_self]

end IPv4Address

open IPv4Address

@[ext]
structure IPv4Prefix where
  addr : IPv4Address
  plen : ℕ
  plen_le : plen ≤ 32
  canonical : addr.land ⟨maskValue plen⟩ = addr
  deriving DecidableEq, Repr

namespace IPv4Prefix

def make (addr : IPv4Address) (plen : ℕ) : Except String IPv4Prefix :=
  match h : ofPrefixLength plen with
  | .error e => .error e
  | .ok mask => .ok
      { addr := addr.land mask
        plen := plen
        plen_le := (ofPrefixLength_ok.mp h).1
        canonical := by rw [← (ofPrefixLength_ok.mp h).2, land_land_mask] }

/-- `make` throws on no length up to 32. -/
theorem make_ok (addr : IPv4Address) {plen : ℕ} (h : plen ≤ 32) :
    ∃ p, make addr plen = .ok p ∧ p.addr = addr.land ⟨maskValue plen⟩ ∧ p.plen = plen := by
  have hmask := ofPrefixLength_ok.mpr ⟨h, rfl⟩
  unfold make
  split
  · rename_i e he
    rw [hmask] at he
    cases he
  · rename_i mask hm
    rw [hmask] at hm
    injection hm with hm
    refine ⟨_, rfl, ?_, rfl⟩
    show addr.land mask = addr.land ⟨maskValue plen⟩
    rw [hm]

end IPv4Prefix

end Pimc
