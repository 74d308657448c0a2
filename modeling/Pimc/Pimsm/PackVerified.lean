import Pimc.Pimsm.PackLossless
import Pimc.Pimsm.PackSanityExact

/-!
# The updates of a configuration under the sanity check

A group that asks for no state leaves no entry behind, and the check reports it
as missing. There is no other way for the updates to fail it.
-/

namespace Pimc

open Lib UpdatePacker

variable {A : Type}

/-- The groups that the packer and the check agree on. -/
structure GroupConfig.Proper (g : GroupConfig A) : Prop where
  spt_nodup : g.spt.Nodup
  prunes_nodup : g.prunes.Nodup
  disjoint : ∀ a ∈ g.spt, a ∉ g.prunes
  limit : PruneLimit g

namespace Source

theorem wildcard_of_flags {s : Source A} (h : s.plain = true ∨ s.shared = true) :
    s.wildcard = s.shared ∧ (!s.wildcard) = s.plain := by
  obtain ⟨a, w, r⟩ := s
  revert h
  cases w <;> cases r <;> simp [plain, shared]

end Source

namespace UpdatePacker.Placed

variable {g : GroupConfig A} {es : List (GroupEntry A)}

theorem eq_nil_iff (h : Placed g es) : es = [] ↔ g.Degenerate := by
  constructor
  · intro hnil
    have hplain := h.plain_joins
    have hshared := h.shared_joins
    rw [hnil] at hplain hshared
    refine ⟨?_, hplain.symm⟩
    cases hrpt : g.rpt with
    | none => rfl
    | some rpt =>
      rw [hrpt] at hshared
      cases hshared
  · intro h'
    obtain ⟨hrpt, hspt⟩ := h'
    obtain ⟨rooms, k, n, hk, _, _, hes⟩ := h
    rw [hes, List.filterMap_eq_nil_iff]
    intro i _
    rcases entry_cases rooms hk i with ⟨rpt, _, hsome, _⟩ | ⟨_, heq⟩
    · rw [hrpt] at hsome
      cases hsome
    · have hslice : slice rooms g.spt i = [] := by
        rw [hspt]
        simp [slice]
      rw [heq, if_pos hslice]

theorem filter_wildcard (h : Placed g es) :
    (joinsOf es).filter (·.wildcard) = (g.rpt.map fun rpt => rpSource rpt.rp).toList := by
  rw [← h.shared_joins]
  apply List.filter_congr
  intro s hs
  exact (Source.wildcard_of_flags (h.joins_flags s hs)).1

theorem addrs_not_wildcard (h : Placed g es) :
    ((joinsOf es).filter (!·.wildcard)).map (·.addr) = g.spt := by
  rw [← h.plain_joins]
  congr 1
  apply List.filter_congr
  intro s hs
  exact (Source.wildcard_of_flags (h.joins_flags s hs)).2

theorem prune_addrs (h : Placed g es) : (prunesOf es).map (·.addr) = g.prunes := by
  rw [h.prunes_eq, List.map_map]
  exact List.map_id _

/-- The RP is in the entry with the prunes. -/
theorem rp_first (h : Placed g es) {ge : GroupEntry A} (hge : ge ∈ es) (hprunes : ge.prunes ≠ []) :
    ∃ s ∈ ge.joins, s.wildcard = true := by
  obtain ⟨p, hp⟩ := List.exists_mem_of_ne_nil _ hprunes
  have hin : p ∈ prunesOf es := List.mem_flatMap.mpr ⟨ge, hge, hp⟩
  rw [h.prunes_eq] at hin
  cases hrpt : g.rpt with
  | none =>
    rw [GroupConfig.prunes, hrpt] at hin
    cases hin
  | some rpt =>
    obtain ⟨pre, ge', post, hes, hrp, _, hother⟩ := h.rpt_in_one hrpt
    rw [hes, List.mem_append, List.mem_cons] at hge
    rcases hge with hpre | rfl | hpost
    · exact absurd (hother ge (List.mem_append_left _ hpre)).1 hprunes
    · exact ⟨rpSource rpt.rp, hrp, rfl⟩
    · exact absurd (hother ge (List.mem_append_right _ hpost)).1 hprunes

theorem verified (h : Placed g es) (hg : g.Proper) : GroupVerified g es where
  join_flags := by
    intro s hs
    rcases h.joins_flags s hs with hplain | hshared
    · right
      simpa [Source.plain] using hplain
    · left
      simpa [Source.shared] using hshared
  one_wildcard := by
    rw [h.filter_wildcard]
    cases g.rpt <;> simp
  joins_nodup := by
    rw [h.addrs_not_wildcard]
    exact hg.spt_nodup
  joins_eq := by
    intro a
    rw [h.addrs_not_wildcard]
  prune_flags := by
    intro s hs
    rw [h.prunes_eq] at hs
    obtain ⟨a, _, rfl⟩ := List.mem_map.mp hs
    exact ⟨rfl, rfl⟩
  prunes_nodup := by
    rw [h.prune_addrs]
    exact hg.prunes_nodup
  prunes_eq := by
    intro a
    rw [h.prune_addrs]
  rp_first := by
    intro pre ge post hes hprunes
    have hge : ge ∈ es := by
      rw [hes]
      simp
    obtain ⟨s, hs, hwild⟩ := h.rp_first hge hprunes
    exact ⟨s, List.mem_flatMap.mpr ⟨ge, by simp, hs⟩, hwild⟩
  disjoint := by
    rw [h.addrs_not_wildcard, h.prune_addrs]
    exact hg.disjoint
  rp_eq := by
    intro a
    have hmem : (∃ s ∈ joinsOf es, s.wildcard = true ∧ s.addr = a) ↔
        ∃ s ∈ (joinsOf es).filter (·.wildcard), s.addr = a := by
      simp only [List.mem_filter, and_assoc]
    rw [hmem, h.filter_wildcard]
    cases g.rpt <;> simp [rpSource]

end UpdatePacker.Placed

section Verify

variable [LinearOrder A]

theorem verified_build_iff {cfg : JPConfig A} {p : UpdatePacker A}
    (h : RunInv (fun _ => Placed) cfg.groups p) (hproper : ∀ g ∈ cfg.groups, g.Proper) :
    Verified cfg p.build ↔ ∀ g ∈ cfg.groups, ¬ g.Degenerate := by
  constructor
  · intro hv g hg hdeg
    have hnil := (h.placed_build hg).eq_nil_iff.mpr hdeg
    exact (hv.groups g.group).mpr ⟨g, hg, rfl⟩ hnil
  · intro hall
    refine ⟨fun a => ⟨fun hne => ?_, ?_⟩, fun g hg => (h.placed_build hg).verified (hproper g hg)⟩
    · obtain ⟨ge, hge⟩ := List.exists_mem_of_ne_nil _ hne
      obtain ⟨u, hu, hin⟩ := List.mem_flatMap.mp hge
      obtain ⟨hin, heq⟩ := List.mem_filter.mp hin
      obtain ⟨g, hg, hgroup⟩ := h.only_build hu hin
      exact ⟨g, hg, hgroup.symm.trans (of_decide_eq_true heq)⟩
    · intro h' hnil
      obtain ⟨g, hg, rfl⟩ := h'
      exact hall g hg ((h.placed_build hg).eq_nil_iff.mp hnil)

variable [ToString A] [Inhabited A]

/-- The packed updates pass the check unless a group asks for no state. -/
theorem pack_verified_iff (cfg : JPConfig A) (hdist : cfg.DistinctGroups)
    (hproper : ∀ g ∈ cfg.groups, g.Proper) :
    ∃ us, Returns (fun fuel => pack fuel cfg) us ∧
      (verifyUpdates cfg us = .ok () ↔ ∀ g ∈ cfg.groups, ¬ g.Degenerate) := by
  obtain ⟨p, hret, hinv⟩ := pack_placed cfg hdist fun g hg => (hproper g hg).limit
  refine ⟨p.build, hret, ?_⟩
  rw [verifyUpdates_ok_iff cfg hdist]
  exact verified_build_iff hinv hproper

end Verify

end Pimc
