import Pimc.Net.IPv4Address
import Pimc.Pimsm.PackSanityConvert

/-!
# The sanity check is exact

A converter that has read the entries of a group converts if and only if they are
readable, and the comparison of two groups succeeds if and only if they agree as
sets.
-/

namespace Pimc

open Lib GroupEntryConverter

variable {A : Type}

/-! ### The class of converters -/

def groupEntryConverters [LinearOrder A] [Inhabited A] [ToString A] :
    ConverterClass A (GroupEntryConverter A) :=
  ⟨init, add, convert⟩

theorem verifyUpdates_eq [LinearOrder A] [Inhabited A] [ToString A] (cfg : JPConfig A)
    (us : List (Update A)) : verifyUpdates cfg us =
      verifyWith groupEntryConverters GroupConfigComparator.compare cfg us := rfl

section Convert

variable [LinearOrder A] {c : GroupEntryConverter A}

theorem convert_ok (hc : c.failed = false) :
    c.convert = .ok ⟨c.group, c.rp.map fun rp => ⟨rp, c.prunes.toList⟩, c.joins.toList⟩ := by
  unfold convert
  exact if_neg (by rw [Bool.not_eq_true]; exact hc)

theorem convert_ok_iff : (∃ r, c.convert = .ok r) ↔ c.failed = false := verdict_ok_iff _ _ _

end Convert

/-! ### The comparison -/

/-- Two groups compare equal if they agree as sets. -/
theorem compare_ok_iff [LinearOrder A] [ToString A] (group : A) (orig rslt : GroupConfig A) :
    GroupConfigComparator.compare group orig rslt = .ok () ↔
      (∀ a, a ∈ orig.spt ↔ a ∈ rslt.spt) ∧ orig.rpt.map (·.rp) = rslt.rpt.map (·.rp) ∧
        ∀ a, a ∈ orig.prunes ↔ a ∈ rslt.prunes := by
  unfold GroupConfigComparator.compare
  rw [verdict_eq_ok, ← vecSets_agree]
  unfold GroupConfig.prunes
  rcases orig.rpt with _ | ⟨origRp, origPrunes⟩
  · rcases rslt.rpt with _ | ⟨rsltRp, rsltPrunes⟩
    · simp only [groupBase_failed_ite, GroupBase.init]
      simp
    · simp [GroupBase.error]
  · rcases rslt.rpt with _ | ⟨rsltRp, rsltPrunes⟩
    · simp [GroupBase.error]
    · simp only [Option.map_some, Option.some.injEq]
      rw [← vecSets_agree]
      simp only [groupBase_failed_ite, GroupBase.init]
      by_cases hrp : origRp = rsltRp
      · simp only [hrp, ne_eq, not_true_eq_false, if_false, groupBase_failed_ite]
        simp [and_assoc]
      · simp only [hrp, ne_eq, not_false_eq_true, if_true, false_and, and_false, iff_false]
        simp [GroupBase.error]

/-! ### The checker -/

/-- What the entries of one group have to say. -/
structure GroupVerified (g : GroupConfig A) (es : List (GroupEntry A)) : Prop where
  join_flags : ∀ s ∈ joinsOf es, (s.wildcard = true ∧ s.rpt = true) ∨
    (s.wildcard = false ∧ s.rpt = false)
  one_wildcard : ((joinsOf es).filter (·.wildcard)).length ≤ 1
  joins_nodup : (((joinsOf es).filter (!·.wildcard)).map (·.addr)).Nodup
  joins_eq : ∀ a, a ∈ ((joinsOf es).filter (!·.wildcard)).map (·.addr) ↔ a ∈ g.spt
  prune_flags : ∀ s ∈ prunesOf es, s.rpt = true ∧ s.wildcard = false
  prunes_nodup : ((prunesOf es).map (·.addr)).Nodup
  prunes_eq : ∀ a, a ∈ (prunesOf es).map (·.addr) ↔ a ∈ g.prunes
  rp_first : ∀ pre ge post, es = pre ++ ge :: post → ge.prunes ≠ [] →
    ∃ s ∈ joinsOf (pre ++ [ge]), s.wildcard = true
  disjoint : ∀ a ∈ ((joinsOf es).filter (!·.wildcard)).map (·.addr),
    a ∉ (prunesOf es).map (·.addr)
  rp_eq : ∀ a, (∃ s ∈ joinsOf es, s.wildcard = true ∧ s.addr = a) ↔ ∃ rpt ∈ g.rpt, rpt.rp = a

/-- What a list of updates has to say about a configuration. -/
structure Verified [DecidableEq A] (cfg : JPConfig A) (us : List (Update A)) : Prop where
  groups : ∀ a, entriesOf a us ≠ [] ↔ ∃ g ∈ cfg.groups, g.group = a
  group : ∀ g ∈ cfg.groups, GroupVerified g (entriesOf g.group us)

theorem readable_iff {g : GroupConfig A} {es : List (GroupEntry A)} (h : GroupVerified g es) :
    Readable es := by
  refine ⟨⟨?_, h.one_wildcard, h.joins_nodup, h.prune_flags, h.prunes_nodup, h.disjoint⟩,
    h.rp_first⟩
  intro s hs
  exact (sameFlags_iff s).mpr (h.join_flags s hs)

/-- The wildcard join of a group, as the converter and as the rules see it. -/
theorem head_wildcard_iff {js : List (Source A)} (hone : (js.filter (·.wildcard)).length ≤ 1)
    (rp : Option A) : ((js.filter (·.wildcard)).head?).map (·.addr) = rp ↔
      ∀ a, (∃ s ∈ js, s.wildcard = true ∧ s.addr = a) ↔ rp = some a := by
  have hmem : ∀ a, (∃ s ∈ js, s.wildcard = true ∧ s.addr = a) ↔
      ((js.filter (·.wildcard)).head?).map (·.addr) = some a := by
    intro a
    rw [Option.map_eq_some_iff]
    apply Iff.intro
    · intro h'
      obtain ⟨s, hs, hw, ha⟩ := h'
      have hin : s ∈ js.filter (·.wildcard) := List.mem_filter.mpr ⟨hs, hw⟩
      obtain ⟨t, ht⟩ := List.length_eq_one_iff.mp
        (le_antisymm hone (List.length_pos_of_mem hin))
      rw [ht, List.mem_singleton] at hin
      exact ⟨s, by rw [ht, hin]; rfl, ha⟩
    · intro h'
      obtain ⟨s, hs, ha⟩ := h'
      obtain ⟨hin, hw⟩ := List.mem_filter.mp (List.mem_of_mem_head? hs)
      exact ⟨s, hin, hw, ha⟩
  apply Iff.intro
  · intro h a
    rw [hmem, h]
  · intro h
    apply Option.ext
    intro a
    rw [← hmem, h]

section Verify

variable [LinearOrder A] [ToString A]

theorem groupVerified_iff {g : GroupConfig A} {es : List (GroupEntry A)}
    {c : GroupEntryConverter A} (hread : Readable es)
    (hc : Tracks (joinsOf es) (prunesOf es) c) :
    GroupConfigComparator.compare g.group g
        ⟨c.group, c.rp.map fun rp => ⟨rp, c.prunes.toList⟩, c.joins.toList⟩ = .ok () ↔
      GroupVerified g es := by
  have hclean := hread.clean
  have hrp : (c.rp.map fun rp => (⟨rp, c.prunes.toList⟩ : RPT A)).map (·.rp) = c.rp := by
    cases c.rp <;> rfl
  -- without an RP the converter has no prune
  have hprunes : ∀ a, a ∈ GroupConfig.prunes (⟨c.group, c.rp.map fun rp =>
      ⟨rp, c.prunes.toList⟩, c.joins.toList⟩ : GroupConfig A) ↔
      a ∈ (prunesOf es).map (·.addr) := by
    intro a
    rw [← hc.prunes]
    cases hcrp : c.rp with
    | some rp => rfl
    | none =>
      refine iff_of_false List.not_mem_nil ?_
      rw [hc.prunes]
      intro hin
      obtain ⟨s, hs, _⟩ := List.mem_map.mp hin
      obtain ⟨ge, hge, hsge⟩ := List.mem_flatMap.mp hs
      obtain ⟨pre, post, hsplit⟩ := List.append_of_mem hge
      obtain ⟨w, hw, hwild⟩ := hread.rp_first pre ge post hsplit (List.ne_nil_of_mem hsge)
      have hwin : w ∈ joinsOf es := by
        obtain ⟨ge', hge', hwge⟩ := List.mem_flatMap.mp hw
        refine List.mem_flatMap.mpr ⟨ge', ?_, hwge⟩
        rw [hsplit]
        rcases List.mem_append.mp hge' with h | h
        · exact List.mem_append_left _ h
        · rw [List.mem_singleton.mp h]
          simp
      have hnone := hc.rp
      rw [hcrp, eq_comm, Option.map_eq_none_iff, List.head?_eq_none_iff,
        List.filter_eq_nil_iff] at hnone
      exact hnone w hwin hwild
  have hrpt : (g.rpt.map (·.rp) = c.rp) ↔
      ∀ a, (∃ s ∈ joinsOf es, s.wildcard = true ∧ s.addr = a) ↔ ∃ rpt ∈ g.rpt, rpt.rp = a := by
    rw [hc.rp, eq_comm, head_wildcard_iff hclean.one_wildcard]
    refine forall_congr' fun a => iff_congr Iff.rfl ?_
    rw [Option.map_eq_some_iff]
    rfl
  rw [compare_ok_iff, hrp, hrpt]
  apply Iff.intro
  · intro h'
    obtain ⟨hspt, hrp', hpr⟩ := h'
    refine ⟨?_, hclean.one_wildcard, hclean.joins_nodup, ?_, hclean.prune_flags,
      hclean.prunes_nodup, ?_, hread.rp_first, hclean.disjoint, hrp'⟩
    · intro s hs
      exact (sameFlags_iff s).mp (hclean.join_flags s hs)
    · intro a
      exact (hc.joins a).symm.trans (hspt a).symm
    · intro a
      rw [hpr, hprunes]
  · intro h
    refine ⟨fun a => ?_, h.rp_eq, fun a => ?_⟩
    · exact (h.joins_eq a).symm.trans (hc.joins a).symm
    · rw [hprunes, h.prunes_eq]

variable [Inhabited A]

theorem packSanity_decides : Decides (groupEntryConverters (A := A)) GroupConfigComparator.compare
    Reads Readable GroupVerified where
  follows := ⟨reads_init, fun _ _ n ge h => h.add n ge⟩
  readable_nil := (reads_init default).failed_iff.mp rfl
  convert_iff := by
    intro es c h
    exact convert_ok_iff.trans h.failed_iff
  compare_iff := by
    intro es c r g h hr
    have hc : c.failed = false := convert_ok_iff.mp ⟨r, hr⟩
    have hok : c.convert = .ok r := hr
    rw [convert_ok hc] at hok
    cases hok
    exact groupVerified_iff (h.failed_iff.mp hc) (h.tracks hc)

/-- The checker accepts exactly the updates that carry the configuration. -/
theorem verifyUpdates_ok_iff (cfg : JPConfig A) (hdist : cfg.DistinctGroups)
    (us : List (Update A)) : verifyUpdates cfg us = .ok () ↔ Verified cfg us := by
  rw [verifyUpdates_eq, verifyWith_ok_iff packSanity_decides cfg hdist]
  apply Iff.intro
  · intro h
    exact ⟨h.2.1, h.2.2⟩
  · intro h
    refine ⟨fun a => ?_, h.groups, h.group⟩
    by_cases hg : ∃ g ∈ cfg.groups, g.group = a
    · obtain ⟨g, hg, rfl⟩ := hg
      exact readable_iff (h.group g hg)
    · have hnil : entriesOf a us = [] := by
        by_contra hne
        exact hg ((h.groups a).mp hne)
      rw [hnil]
      exact packSanity_decides.readable_nil

end Verify

/-- The sanity check of IPv4 updates is exact. -/
theorem verifyUpdates_exact (cfg : JPConfig IPv4Address) (hdist : cfg.DistinctGroups)
    (us : List (Update IPv4Address)) : verifyUpdates cfg us = .ok () ↔ Verified cfg us :=
  verifyUpdates_ok_iff cfg hdist us

def verifiedConfig : JPConfig IPv4Address where
  groups := [⟨.ofOctets 239 1 1 1, some ⟨.ofOctets 10 0 0 1, [.ofOctets 10 0 0 2]⟩,
    [.ofOctets 10 0 0 3]⟩]

-- The entry before the RP may hold a join, the one with the RP the prune.
def verifiedUpdates : List (Update IPv4Address) :=
  [⟨[⟨.ofOctets 239 1 1 1, [⟨.ofOctets 10 0 0 3, false, false⟩], []⟩]⟩,
    ⟨[⟨.ofOctets 239 1 1 1, [⟨.ofOctets 10 0 0 1, true, true⟩],
      [⟨.ofOctets 10 0 0 2, false, true⟩]⟩]⟩]

theorem verifyUpdates_exact_example : verifiedConfig.DistinctGroups ∧
    (verifyUpdates verifiedConfig verifiedUpdates = .ok () ↔
      Verified verifiedConfig verifiedUpdates) :=
  ⟨by decide, verifyUpdates_exact verifiedConfig (by decide) verifiedUpdates⟩

end Pimc
