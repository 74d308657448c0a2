import Mathlib.Data.List.Basic
import Mathlib.Tactic.Linarith

/-!
# Polled alarms

An alarm is looked at whenever the clock is read. It rings at a reading that
has reached its time and is set anew from that reading, which may be late. Over
readings that are never more than `d` apart a positive period is overrun by
less than `d`.
-/

namespace Pimc.Lib

/-- The readings at which the alarm set to `next` rings. -/
def rings (period : ℕ) : ℕ → List ℕ → List ℕ
  | _, [] => []
  | next, r :: rs => if next ≤ r then r :: rings period (r + period) rs else rings period next rs

/-- Readings in order, no two neighbours more than `d` apart. -/
def Within (d a b : ℕ) : Prop := a ≤ b ∧ b ≤ a + d

/-- Two rings in a row. -/
def Gap (period d a b : ℕ) : Prop :=
  a + period ≤ b ∧ b ≤ a + period + d ∧ (0 < period → b < a + period + d)

instance (d a b : ℕ) : Decidable (Within d a b) := inferInstanceAs (Decidable (_ ∧ _))

variable {d period : ℕ}

/-- The rings after `last` when the reading before them was still early. -/
theorem rings_late {prev last next : ℕ} {rs : List ℕ} (hchain : (prev :: rs).IsChain (Within d))
    (hpos : 0 < period) (hnext : next = last + period) (hearly : prev < next) :
    (last :: rings period next rs).IsChain (Gap period d) := by
  induction rs generalizing prev last next with
  | nil => exact .singleton last
  | cons r rs ih =>
    obtain ⟨⟨hle, hd⟩, htail⟩ := List.isChain_cons_cons.mp hchain
    by_cases h : next ≤ r
    · rw [rings, if_pos h, List.isChain_cons_cons]
      exact ⟨⟨by omega, by omega, fun _ => by omega⟩, ih htail rfl (by omega)⟩
    · rw [rings, if_neg h]
      exact ih htail hnext (by omega)

theorem rings_zero {next : ℕ} {rs : List ℕ} (hchain : (next :: rs).IsChain (Within d)) :
    rings 0 next rs = rs := by
  induction rs generalizing next with
  | nil => rfl
  | cons r rs ih =>
    obtain ⟨⟨hle, _⟩, htail⟩ := List.isChain_cons_cons.mp hchain
    rw [rings, if_pos hle]
    exact congrArg (r :: ·) (ih htail)

/-- The rings of an alarm that is set at the reading `last`. -/
theorem rings_gaps {last : ℕ} {rs : List ℕ} (hchain : (last :: rs).IsChain (Within d)) :
    (last :: rings period (last + period) rs).IsChain (Gap period d) := by
  cases Nat.eq_zero_or_pos period with
  | inl hzero =>
    subst hzero
    rw [Nat.add_zero, rings_zero hchain]
    exact hchain.imp fun a b h => ⟨h.1, h.2, fun hpos => absurd hpos (Nat.lt_irrefl 0)⟩
  | inr hpos => exact rings_late hchain hpos rfl (by omega)

/-- Less than `hold` passes between two rings when the overrun leaves room for it. -/
theorem rings_within {hold : ℕ} {ts : List ℕ} (h : ts.IsChain (Gap period d)) (hpos : 0 < period)
    (hroom : d + period ≤ hold) : ts.IsChain fun a b => b < a + hold :=
  h.imp fun a b hgap => by
    have hlt := hgap.2.2 hpos
    omega

/-- When the readings end the next ring is not overdue. -/
theorem rings_recent {prev last next : ℕ} {rs : List ℕ} (hchain : (prev :: rs).IsChain (Within d))
    (hpos : 0 < period) (hnext : next = last + period) (hearly : prev < next) :
    (prev :: rs).getLast (List.cons_ne_nil _ _) <
      (last :: rings period next rs).getLast (List.cons_ne_nil _ _) + period := by
  induction rs generalizing prev last next with
  | nil =>
    show prev < last + period
    omega
  | cons r rs ih =>
    obtain ⟨_, htail⟩ := List.isChain_cons_cons.mp hchain
    rw [List.getLast_cons_cons]
    by_cases h : next ≤ r
    · simp only [rings, if_pos h, List.getLast_cons_cons]
      exact ih htail rfl (by omega)
    · simp only [rings, if_neg h]
      exact ih htail hnext (by omega)

/-! ### Rounds -/

section Rounds

variable {g : ℕ} {us : List ℕ}

/-- Rounds that are at most `g` apart. -/
theorem rounds_span (h : us.IsChain fun a b => b ≤ a + g) {i j a b : ℕ} (hij : i ≤ j)
    (ha : us[i]? = some a) (hb : us[j]? = some b) : b ≤ a + (j - i) * g := by
  induction j, hij using Nat.le_induction generalizing b with
  | base =>
    rw [ha] at hb
    injection hb with hb
    omega
  | succ j hij ih =>
    obtain ⟨hlt, hb⟩ := List.getElem?_eq_some_iff.mp hb
    have hmid : us[j]? = some us[j] := List.getElem?_eq_getElem (by omega)
    have hstep : us[j + 1] ≤ us[j] + g := List.isChain_iff_getElem.mp h j hlt
    have hspan := ih hmid
    have hcount : (j + 1 - i) * g = (j - i) * g + g := by
      rw [Nat.succ_sub hij, Nat.succ_mul]
    omega

theorem rounds_mono (h : us.IsChain fun a b => a ≤ b) {i j a b : ℕ} (hij : i ≤ j)
    (ha : us[i]? = some a) (hb : us[j]? = some b) : a ≤ b := by
  induction j, hij using Nat.le_induction generalizing b with
  | base =>
    rw [ha] at hb
    injection hb with hb
    exact hb.le
  | succ j hij ih =>
    obtain ⟨hlt, hb⟩ := List.getElem?_eq_some_iff.mp hb
    have hmid : us[j]? = some us[j] := List.getElem?_eq_getElem (by omega)
    have hstep : us[j] ≤ us[j + 1] := List.isChain_iff_getElem.mp h j hlt
    exact hb ▸ le_trans (ih hmid) hstep

/-- The round a moment belongs to when rounds are seen `delay` later. -/
theorem exists_round (h : us.IsChain fun a b => b ≤ a + g) {delay t m r : ℕ}
    (hr : us[m]? = some r) (hstart : r + delay ≤ t)
    (hlast : ∀ u ∈ us.getLast?, t < u + g + delay) :
    ∃ j u, m ≤ j ∧ us[j]? = some u ∧ u + delay ≤ t ∧ t < u + g + delay := by
  induction hn : us.length - m generalizing m r with
  | zero =>
    obtain ⟨hlt, _⟩ := List.getElem?_eq_some_iff.mp hr
    omega
  | succ n ih =>
    obtain ⟨hlt, hget⟩ := List.getElem?_eq_some_iff.mp hr
    rcases Nat.lt_or_ge (m + 1) us.length with hnext | hend
    · have hr' : us[m + 1]? = some us[m + 1] := List.getElem?_eq_getElem hnext
      have hstep : us[m + 1] ≤ us[m] + g := List.isChain_iff_getElem.mp h m hnext
      by_cases hseen : us[m + 1] + delay ≤ t
      · obtain ⟨j, u, hmj, hj⟩ := ih hr' hseen (by omega)
        exact ⟨j, u, by omega, hj⟩
      · exact ⟨m, r, le_rfl, hr, hstart, by omega⟩
    · have hlast' : us.getLast? = some r := by
        rw [List.getLast?_eq_getElem?, show us.length - 1 = m by omega, hr]
      exact ⟨m, r, le_rfl, hr, hstart, hlast r hlast'⟩

end Rounds

end Pimc.Lib
