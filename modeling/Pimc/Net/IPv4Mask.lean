import Pimc.Net.IPv4Prefix

/-!
# Subnet masks (lib/pimc/net/IPv4Address.hpp)

`toMask` without arguments finds the prefix length of a mask by bisection.
-/

namespace Pimc

namespace IPv4Address

def isMask (a : IPv4Address) : Bool :=
  if a.addr == 0#32 then true
  else
    let m := 0xFFFFFFFF#32 - a.addr
    (m + 1) &&& m == 0

structure Bisection where
  pl : BitVec 32
  m : BitVec 32
  s : BitVec 32

def bisectStep (b : Bisection) : Bisection :=
  let mn := b.m >>> b.s
  let sn := b.s >>> 1
  if mn > 0 then ⟨b.pl - sn, mn, sn⟩ else ⟨b.pl + sn, b.m, sn⟩

theorem bisectStep_s (b : Bisection) : (bisectStep b).s = b.s >>> 1 := by
  simp only [bisectStep]
  split_ifs <;> rfl

/-- `while (s > 1u)`; the body halves `s`. -/
def bisect (b : Bisection) : Bisection :=
  if b.s > 1#32 then bisect (bisectStep b) else b
termination_by b.s.toNat
decreasing_by
  rename_i h
  have hone : (1#32).toNat = 1 := rfl
  rw [gt_iff_lt, BitVec.lt_def, hone] at h
  rw [bisectStep_s, BitVec.toNat_ushiftRight, Nat.shiftRight_eq_div_pow]
  omega

def toMask (a : IPv4Address) : Except String (BitVec 32) :=
  if a.addr == 0xFFFFFFFF#32 then .ok 32
  else if !a.isMask then
    .error s!"address {a.oct1.toNat}.{a.oct2.toNat}.{a.oct3.toNat}.{a.oct4.toNat} is not a mask"
  else
    let b := bisect ⟨16, 0xFFFFFFFF#32 - a.addr, 16⟩
    if b.m == 1#32 then .ok b.pl else .ok (b.pl - 1)

/-! ### `isMask` -/

theorem maskValue_toNat {plen : ℕ} (h0 : plen ≠ 0) (hle : plen ≤ 32) :
    (maskValue plen).toNat = 2 ^ 32 - 2 ^ (32 - plen) := by
  have hpos : 0 < 2 ^ (32 - plen) := Nat.pow_pos (by omega)
  have hlt : 2 ^ (32 - plen) < 2 ^ 32 := Nat.pow_lt_pow_right (by omega) (by omega)
  have hones : (0xFFFFFFFF#32).toNat = 2 ^ 32 - 1 := rfl
  have hone : (1#32).toNat = 1 := rfl
  have hshift : (1#32 <<< (32 - plen)).toNat = 2 ^ (32 - plen) := by
    rw [BitVec.toNat_shiftLeft, Nat.shiftLeft_eq, hone, Nat.one_mul, Nat.mod_eq_of_lt hlt]
  have hhost : (1#32 <<< (32 - plen) - 1#32).toNat = 2 ^ (32 - plen) - 1 := by
    rw [BitVec.toNat_sub_of_le (BitVec.le_def.mpr (by omega)), hshift, hone]
  unfold maskValue
  rw [if_neg h0, BitVec.toNat_sub_of_le (BitVec.le_def.mpr (by omega)), hhost, hones]
  omega

theorem isMask_maskValue : ∀ plen : Fin 33, isMask ⟨maskValue plen⟩ = true := by
  decide +kernel

theorem exists_of_isMask {a : IPv4Address} (h : a.isMask = true) :
    ∃ n ≤ 32, a = ⟨maskValue n⟩ := by
  by_cases hzero : a.addr = 0
  · exact ⟨0, by omega, IPv4Address.ext hzero⟩
  · have hlt := a.addr.isLt
    have hpos : a.addr.toNat ≠ 0 := fun h0 => hzero (BitVec.eq_of_toNat_eq h0)
    have hones : (0xFFFFFFFF#32).toNat = 2 ^ 32 - 1 := rfl
    have hone : (1 : BitVec 32).toNat = 1 := rfl
    obtain ⟨m, hm⟩ : ∃ m, m = 0xFFFFFFFF#32 - a.addr := ⟨_, rfl⟩
    have hm_toNat : m.toNat = 2 ^ 32 - 1 - a.addr.toNat := by
      rw [hm, BitVec.toNat_sub_of_le (BitVec.le_def.mpr (by omega)), hones]
    have hsucc : (m + 1).toNat = m.toNat + 1 := by
      rw [BitVec.toNat_add_of_lt (by omega), hone]
    have hand : (m + 1) &&& m = 0 := by
      unfold isMask at h
      rw [if_neg (by simpa using hzero), ← hm] at h
      exact beq_iff_eq.mp h
    have hnat : (m.toNat + 1) &&& (m.toNat + 1 - 1) = 0 := by
      have hcast := congrArg BitVec.toNat hand
      rwa [BitVec.toNat_and, hsucc] at hcast
    obtain ⟨k, hk⟩ := (Nat.and_sub_one_eq_zero_iff_isPowerOfTwo (Nat.succ_ne_zero _)).mp hnat
    have hk32 : k < 32 := (Nat.pow_lt_pow_iff_right (a := 2) (by omega)).mp (by omega)
    refine ⟨32 - k, by omega, IPv4Address.ext (BitVec.eq_of_toNat_eq ?_)⟩
    have hexp : 32 - (32 - k) = k := by omega
    rw [maskValue_toNat (by omega) (by omega), hexp]
    omega

theorem isMask_iff (a : IPv4Address) : a.isMask = true ↔ ∃ n ≤ 32, a = ⟨maskValue n⟩ := by
  apply Iff.intro
  · exact exists_of_isMask
  · intro h
    obtain ⟨n, hn, rfl⟩ := h
    exact isMask_maskValue ⟨n, by omega⟩

/-! ### `toMask` -/

theorem bisect_next {b : Bisection} (h : b.s > 1#32) : bisect b = bisect (bisectStep b) := by
  rw [bisect, if_pos h]

theorem bisect_end {b : Bisection} (h : ¬ b.s > 1#32) : bisect b = b := by
  rw [bisect, if_neg h]

theorem bisect_sixteen (pl m : BitVec 32) :
    bisect ⟨pl, m, 16⟩ = bisectStep (bisectStep (bisectStep (bisectStep ⟨pl, m, 16⟩))) := by
  have h8 : (bisectStep ⟨pl, m, 16⟩).s = 8 := by
    have hhalf : (16#32 >>> 1) = 8#32 := rfl
    rw [bisectStep_s]
    exact hhalf
  have h4 : (bisectStep (bisectStep ⟨pl, m, 16⟩)).s = 4 := by
    rw [bisectStep_s, h8]
    rfl
  have h2 : (bisectStep (bisectStep (bisectStep ⟨pl, m, 16⟩))).s = 2 := by
    rw [bisectStep_s, h4]
    rfl
  have h1 : (bisectStep (bisectStep (bisectStep (bisectStep ⟨pl, m, 16⟩)))).s = 1 := by
    rw [bisectStep_s, h2]
    rfl
  rw [bisect_next (show (16#32 > 1#32) by decide), bisect_next (by rw [h8]; decide),
    bisect_next (by rw [h4]; decide), bisect_next (by rw [h2]; decide),
    bisect_end (by rw [h1]; decide)]

/-- What the four rounds and the correction make of `m`. -/
def foundLength (m : BitVec 32) : BitVec 32 :=
  let b := bisectStep (bisectStep (bisectStep (bisectStep ⟨16, m, 16⟩)))
  if b.m == 1#32 then b.pl else b.pl - 1

theorem toMask_of_isMask {a : IPv4Address} (h : a.isMask = true) :
    a.toMask = if a.addr == 0xFFFFFFFF#32 then .ok 32
      else .ok (foundLength (0xFFFFFFFF#32 - a.addr)) := by
  have hnot : ¬ (!a.isMask) = true := by
    rw [h]
    decide
  unfold toMask
  rw [if_neg hnot, bisect_sixteen]
  obtain ⟨b, hb⟩ : ∃ b, b = bisectStep (bisectStep (bisectStep (bisectStep
    ⟨16, 0xFFFFFFFF#32 - a.addr, 16⟩))) := ⟨_, rfl⟩
  unfold foundLength
  rw [← hb]
  simp only
  rw [apply_ite Except.ok]

theorem foundLength_maskValue : ∀ plen : Fin 33,
    (if maskValue plen == 0xFFFFFFFF#32 then (.ok 32 : Except String (BitVec 32))
      else .ok (foundLength (0xFFFFFFFF#32 - maskValue plen))) = .ok (BitVec.ofNat 32 plen) := by
  decide +kernel

theorem toMask_maskValue {n : ℕ} (hn : n ≤ 32) : toMask ⟨maskValue n⟩ = .ok (BitVec.ofNat 32 n) := by
  rw [toMask_of_isMask ((isMask_iff _).mpr ⟨n, hn, rfl⟩)]
  exact foundLength_maskValue ⟨n, by omega⟩

theorem toMask_of_not_isMask {a : IPv4Address} (h : a.isMask = false) : ∃ e, a.toMask = .error e := by
  have hall : ¬ (a.addr == 0xFFFFFFFF#32) = true := by
    intro hones
    have hmask : a.isMask = true :=
      (isMask_iff a).mpr ⟨32, le_rfl, IPv4Address.ext (beq_iff_eq.mp hones)⟩
    rw [h] at hmask
    cases hmask
  unfold toMask
  rw [h, if_neg hall]
  exact ⟨_, rfl⟩

theorem toMask_ok_iff (a : IPv4Address) (n : BitVec 32) :
    a.toMask = .ok n ↔ n.toNat ≤ 32 ∧ a = ⟨maskValue n.toNat⟩ := by
  apply Iff.intro
  · intro h
    cases hmask : a.isMask with
    | false =>
      obtain ⟨e, he⟩ := toMask_of_not_isMask hmask
      rw [he] at h
      cases h
    | true =>
      obtain ⟨k, hk, rfl⟩ := (isMask_iff a).mp hmask
      rw [toMask_maskValue hk] at h
      injection h with h
      have hvalue : n.toNat = k := by
        rw [← h, BitVec.toNat_ofNat]
        omega
      rw [hvalue]
      exact ⟨hk, rfl⟩
  · intro h
    obtain ⟨hn, rfl⟩ := h
    rw [toMask_maskValue hn, BitVec.ofNat_toNat, BitVec.setWidth_eq]

/-- Masks are recognised, and the two conversions invert one another. -/
theorem toMask_exact (a : IPv4Address) :
    (a.isMask = true ↔ ∃ n ≤ 32, a = ⟨maskValue n⟩) ∧
    (∀ n : BitVec 32, a.toMask = .ok n ↔ n.toNat ≤ 32 ∧ a = ⟨maskValue n.toNat⟩) ∧
    (∀ n m, n ≤ 32 → m ≤ 32 → a = ⟨maskValue n⟩ → a = ⟨maskValue m⟩ → n = m) ∧
    ((∃ e, a.toMask = .error e) ↔ a.isMask = false) ∧
    ∀ n : BitVec 32, ofPrefixLength n.toNat = .ok a → a.toMask = .ok n := by
  refine ⟨isMask_iff a, toMask_ok_iff a, ?_, ?_, ?_⟩
  · intro n m hn hm ha ha'
    have hsame := toMask_maskValue hn
    rw [← ha, ha', toMask_maskValue hm] at hsame
    injection hsame with hsame
    have hvalue := congrArg BitVec.toNat hsame
    rw [BitVec.toNat_ofNat, BitVec.toNat_ofNat] at hvalue
    omega
  · apply Iff.intro
    · intro h
      obtain ⟨e, he⟩ := h
      rw [← Bool.not_eq_true]
      intro hmask
      obtain ⟨n, hn, rfl⟩ := (isMask_iff a).mp hmask
      rw [toMask_maskValue hn] at he
      cases he
    · exact toMask_of_not_isMask
  · intro n h
    exact (toMask_ok_iff a n).mpr (ofPrefixLength_ok.mp h)

end IPv4Address

end Pimc
