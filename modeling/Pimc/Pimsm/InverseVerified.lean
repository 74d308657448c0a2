import Pimc.Pimsm.InverseLossless
import Pimc.Pimsm.InverseSanityCheck
import Pimc.Pimsm.PackVerified

/-!
# The inverse updates of a configuration under the sanity check

The inverse updates fail the check for two reasons: a group asks for no state, or
the RP of a group is lost to the last free slot.
-/

namespace Pimc

open Lib Params UpdatePacker InverseUpdatePacker

variable {A : Type}

namespace InverseUpdatePacker

theorem placed_eq_nil_iff {pre : List (GroupConfig A)} {g : GroupConfig A}
    {es : List (GroupEntry A)}
    (h : InverseUpdatePacker.Placed pre g es) : es = [] ↔ prunesOf es = [] := by
  obtain ⟨lost, rooms, n, _, _, rfl⟩ := h
  constructor
  · intro hes
    rw [hes]
    rfl
  · intro hprunes
    apply List.eq_nil_iff_forall_not_mem.mpr
    intro ge hge
    obtain ⟨i, _, hi⟩ := List.mem_filterMap.mp hge
    exact (inverseEntry_mem hi).2.2 (List.flatMap_eq_nil_iff.mp hprunes ge hge)

theorem inverseItems_eq_nil {g : GroupConfig A} (h : g.Degenerate) (lost : Bool) :
    inverseItems g lost = [] := by
  obtain ⟨hrpt, hspt⟩ := h
  rw [inverseItems_none hrpt, hspt]
  rfl

theorem wildcard_inverseItems (g : GroupConfig A) (lost : Bool) :
    (inverseItems g lost).filter (·.wildcard) =
      if lost = true then [] else (g.rpt.map fun rpt => rpSource rpt.rp).toList := by
  rw [← shared_inverseItems]
  apply List.filter_congr
  intro s hs
  exact (Source.wildcard_of_flags (flags_inverseItems g lost s hs)).1

theorem not_wildcard_inverseItems (g : GroupConfig A) (lost : Bool) :
    ((inverseItems g lost).filter (!·.wildcard)).map (·.addr) = g.spt := by
  have hplain : (inverseItems g lost).filter (!·.wildcard) =
      (inverseItems g lost).filter (·.plain) := by
    apply List.filter_congr
    intro s hs
    exact (Source.wildcard_of_flags (flags_inverseItems g lost s hs)).2
  rw [hplain, plain_inverseItems]

theorem items_verified {g : GroupConfig A} {es : List (GroupEntry A)}
    (hprunes : prunesOf es = inverseItems g false) (hnodup : g.spt.Nodup) :
    InverseGroupVerified g es where
  prune_flags := by
    intro s hs
    rw [hprunes] at hs
    rcases flags_inverseItems g false s hs with hplain | hshared
    · right
      simpa [Source.plain] using hplain
    · left
      simpa [Source.shared] using hshared
  rp_eq := by
    rw [hprunes, wildcard_inverseItems]
    cases g.rpt <;> rfl
  prunes_nodup := by
    rw [hprunes, not_wildcard_inverseItems]
    exact hnodup
  prunes_eq := by
    intro a
    rw [hprunes, not_wildcard_inverseItems]

end InverseUpdatePacker

section Verify

variable [DecidableEq A]

theorem InverseUpdatePacker.InverseInv.prunesOf_of_noLoss {groups : List (GroupConfig A)}
    {p : UpdatePacker A} (h : InverseInv groups p) (hno : NoLoss groups) {g : GroupConfig A}
    (hg : g ∈ groups) : prunesOf (entriesOf g.group p.build) = inverseItems g false := by
  obtain ⟨pre, post, hsplit⟩ := List.append_of_mem hg
  obtain ⟨lost, hlost, hprunes⟩ := h.prunesOf_build hsplit
  have hpre : NoLoss pre := by
    intro pre' g' post' heq
    exact hno pre' g' (post' ++ g :: post) (by simp [hsplit, heq])
  have hfalse : lost = false := by
    rw [← Bool.not_eq_true]
    exact fun htrue => hno pre g post hsplit ((hlost hpre).mp htrue)
  rw [hprunes, hfalse]

theorem inverseVerified_build_iff {cfg : JPConfig A} {p : UpdatePacker A}
    (h : InverseInv cfg.groups p) (hnodup : ∀ g ∈ cfg.groups, g.spt.Nodup) :
    InverseVerified cfg p.build ↔ NoLoss cfg.groups ∧ ∀ g ∈ cfg.groups, ¬g.Degenerate := by
  have hnil : ∀ g ∈ cfg.groups,
      (entriesOf g.group p.build = [] ↔ prunesOf (entriesOf g.group p.build) = []) := by
    intro g hg
    obtain ⟨pre, post, hsplit⟩ := List.append_of_mem hg
    rw [h.run.ready.entriesOf_build]
    exact placed_eq_nil_iff (h.run.placed pre g post hsplit)
  constructor
  · intro hv
    constructor
    · by_contra hno
      obtain ⟨pre, g, post, hsplit, hpre, hloses⟩ := exists_first_loss hno
      obtain ⟨lost, hlost, hprunes⟩ := h.prunesOf_build hsplit
      have hrp := (hv.group g (by rw [hsplit]; simp)).rp_eq
      obtain ⟨rpt, hrpt⟩ := Option.isSome_iff_exists.mp hloses.1
      rw [hprunes, wildcard_inverseItems, if_pos ((hlost hpre).mpr hloses), hrpt] at hrp
      cases hrp
    · intro g hg hdeg
      obtain ⟨pre, post, hsplit⟩ := List.append_of_mem hg
      obtain ⟨lost, _, hprunes⟩ := h.prunesOf_build hsplit
      rw [inverseItems_eq_nil hdeg] at hprunes
      exact (hv.groups g.group).mpr ⟨g, hg, rfl⟩ ((hnil g hg).mpr hprunes)
  · intro h'
    obtain ⟨hno, hasks⟩ := h'
    refine ⟨inverse_no_joins h, fun a => ⟨fun hne => ?_, ?_⟩, fun g hg =>
      items_verified (h.prunesOf_of_noLoss hno hg) (hnodup g hg)⟩
    · obtain ⟨ge, hge⟩ := List.exists_mem_of_ne_nil _ hne
      obtain ⟨u, hu, hin⟩ := List.mem_flatMap.mp hge
      obtain ⟨hin, heq⟩ := List.mem_filter.mp hin
      obtain ⟨g, hg, hgroup⟩ := h.run.only_build hu hin
      exact ⟨g, hg, hgroup.symm.trans (of_decide_eq_true heq)⟩
    · intro hg hempty
      obtain ⟨g, hg, rfl⟩ := hg
      have hitems : inverseItems g false = [] :=
        (h.prunesOf_of_noLoss hno hg).symm.trans ((hnil g hg).mp hempty)
      have hwithdrawals := length_inverseItems g
      rw [hitems, List.length_nil, withdrawals] at hwithdrawals
      apply hasks g hg
      refine ⟨?_, List.length_eq_zero_iff.mp (by omega)⟩
      cases hrpt : g.rpt with
      | none => rfl
      | some rpt =>
        rw [hrpt, Option.isSome_some, if_pos rfl] at hwithdrawals
        omega

end Verify

/-- The inverse updates pass the check unless an RP is lost or a group asks for no state. -/
theorem inversePack_verified_iff [LinearOrder A] [ToString A] [Inhabited A] (cfg : JPConfig A)
    (hdist : cfg.DistinctGroups) (hnodup : ∀ g ∈ cfg.groups, g.spt.Nodup) :
    ∃ us, Returns (fun fuel => inversePack fuel cfg) us ∧
      (verifyInverseUpdates cfg us = .ok () ↔
        NoLoss cfg.groups ∧ ∀ g ∈ cfg.groups, ¬g.Degenerate) := by
  obtain ⟨p, hret, hinv⟩ := inversePack_placed cfg hdist
  refine ⟨p.build, hret, ?_⟩
  rw [verifyInverseUpdates_ok_iff cfg hdist]
  exact inverseVerified_build_iff hinv hnodup

theorem exampleConfig_nodup : ∀ g ∈ exampleConfig.groups, g.spt.Nodup := by
  refine List.forall_mem_cons.mpr ⟨?_, by decide⟩
  apply List.nodup_range.map_on
  intro i hi j hj h
  have hbits := congrArg (fun a : IPv4Address => a.addr.toNat) h
  simp only [BitVec.toNat_ofNat] at hbits
  have hlt := List.mem_range.mp hi
  have hlt' := List.mem_range.mp hj
  omega

-- The updates of the example lose the RP of its second group.
theorem inversePack_verified_iff_example : ∃ us,
    Returns (fun fuel => inversePack fuel exampleConfig) us ∧
      verifyInverseUpdates exampleConfig us ≠ .ok () := by
  obtain ⟨us, hret, hverify⟩ := inversePack_verified_iff exampleConfig (by decide)
    exampleConfig_nodup
  refine ⟨us, hret, fun hok => ?_⟩
  have hno := (hverify.mp hok).1
  refine hno [_] _ [] rfl ⟨rfl, List.cons_ne_nil _ _, ?_⟩
  simp [spaceLeft, withdrawals, spaceAfter, maxSources, JPCapacity, GrpHdrSize, GrpASize, SrcASize]

end Pimc
