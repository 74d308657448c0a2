import Pimc.Net.IPv4Address
import Pimc.Pimsm.PackSanityConvert

/-!
# The sanity check of the inverse updates (pimsm/InversePackSanityCheck.hpp)

Nothing is joined: the sources and the RP of a group are among the prunes.
-/

namespace Pimc

open Lib

variable {A : Type}

/-! ### `class InverseGroupEntryConverter` -/

-- As in the class of the other check, `group` hides that of the base.
structure InverseGroupEntryConverter (A : Type) [LinearOrder A] where
  base : GroupBase A
  group : A
  joins : OrdSet A
  rp : Option A

namespace InverseGroupEntryConverter

section Definitions

variable [LinearOrder A] [Inhabited A] [ToString A]

def init (group : A) : InverseGroupEntryConverter A := ⟨.init group, default, .empty, none⟩

def error (c : InverseGroupEntryConverter A) (text : String) : InverseGroupEntryConverter A :=
  { c with base := c.base.error text }

def addPrune (updateNo : ℕ) (c : InverseGroupEntryConverter A) (se : Source A) :
    InverseGroupEntryConverter A :=
  let addr := se.addr
  if se.wildcard then
    let c :=
      if !se.rpt then c.error s!"inverse update #{updateNo}: RP {addr}: rpt bit is not set" else c
    match c.rp with
    | some rp =>
      if rp = addr then c.error s!"inverse update #{updateNo}: RP {addr}: duplicate insert"
      else c.error <| s!"inverse update #{updateNo}: previously set RP {rp}: " ++
        s!"attempt to set another RP {addr}"
    | none => { c with rp := some addr }
  else
    let c := if se.rpt then c.error s!"inverse update #{updateNo}: source {addr}: rpt bit set" else c
    let insop := c.joins.emplace addr
    let c := { c with joins := insop.1 }
    if !insop.2 then c.error s!"inverse update #{updateNo}: duplicate pruned source {addr}" else c

def add (updateNo : ℕ) (c : InverseGroupEntryConverter A) (ge : GroupEntry A) :
    InverseGroupEntryConverter A :=
  let size := ge.joins.length
  let c :=
    if ge.joins ≠ [] then c.error s!"inverse update #{updateNo}: ignoring {size} joins" else c
  ge.prunes.foldl (addPrune updateNo) c

def convert (c : InverseGroupEntryConverter A) : Except String (GroupConfig A) :=
  if c.base.failed then .error c.base.msg
  else .ok ⟨c.group, c.rp.map fun rp => ⟨rp, []⟩, c.joins.toList⟩

end Definitions

end InverseGroupEntryConverter

section Definitions

variable [LinearOrder A] [ToString A]

def inverseConverters [Inhabited A] : ConverterClass A (InverseGroupEntryConverter A) :=
  ⟨InverseGroupEntryConverter.init, InverseGroupEntryConverter.add,
    InverseGroupEntryConverter.convert⟩

def convertInverseUpdatesToJPConfig [Inhabited A] (updates : List (Update A)) :
    Except (List String) (UnorderedMap A (GroupConfig A)) :=
  inverseConverters.convertUpdates updates

-- `InverseGroupConfigComparator::compare`, on a comparator made for `group`.
def InverseGroupConfigComparator.compare (group : A) (orig rslt : GroupConfig A) :
    Except String Unit :=
  let gb : GroupBase A := .init group
  let js := compareAddrSets (vecSet orig.spt) (vecSet rslt.spt)
  let gb :=
    if !js.1.toList.isEmpty then
      gb.error ("missing SPT joined sources:\n    " ++ concat js.1.toList "\n    ")
    else gb
  let gb :=
    if !js.2.toList.isEmpty then
      gb.error ("extraneous SPT joined sources:\n    " ++ concat js.2.toList "\n    ")
    else gb
  let gb :=
    match orig.rpt, rslt.rpt with
    | some ⟨rp, _⟩, none =>
      gb.error <| s!"the original has RPT with RP {rp} and ?? pruned sources, " ++
        "while the result has no RPT"
    | none, some ⟨rp, _⟩ =>
      gb.error <| "the original has no RPT, " ++
        s!"while the result has RPT with RP {rp} and ?? pruned sources"
    | some ⟨origRp, _⟩, some ⟨rsltRp, _⟩ =>
      if origRp ≠ rsltRp then gb.error s!"original RP {origRp} != result RP {rsltRp}" else gb
    | none, none => gb
  if gb.failed then .error gb.msg else .ok ()

def compareInverseJPConfigs (orig rslt : UnorderedMap A (GroupConfig A)) : Except String Unit :=
  Comparator.compareConfigs InverseGroupConfigComparator.compare orig rslt

def verifyInverseUpdates [Inhabited A] (jpCfg : JPConfig A) (updates : List (Update A)) :
    Except String Unit :=
  match convertInverseUpdatesToJPConfig updates with
  | .error errors => .error (String.join errors)
  | .ok r =>
    let origCfg := jpCfg.groups.foldl (fun m ge => (m.tryEmplace ge.group ge).1) .empty
    compareInverseJPConfigs origCfg r

theorem verifyInverseUpdates_eq [Inhabited A] (cfg : JPConfig A) (us : List (Update A)) :
    verifyInverseUpdates cfg us =
      verifyWith inverseConverters InverseGroupConfigComparator.compare cfg us := rfl

end Definitions

/-! ### What a converter accepts -/

namespace InverseGroupEntryConverter

section Step

variable [LinearOrder A] [ToString A]

def failed (c : InverseGroupEntryConverter A) : Bool := c.base.failed

@[simp] theorem error_failed (c : InverseGroupEntryConverter A) (text : String) :
    (c.error text).failed = true := rfl

@[simp] theorem error_joins (c : InverseGroupEntryConverter A) (text : String) :
    (c.error text).joins = c.joins := rfl

@[simp] theorem error_rp (c : InverseGroupEntryConverter A) (text : String) :
    (c.error text).rp = c.rp := rfl

variable (n : ℕ) {c : InverseGroupEntryConverter A} {s : Source A} {ps : List (Source A)}

theorem addPrune_wildcard (hw : s.wildcard = true) :
    (addPrune n c s).failed = (c.failed || !s.rpt || c.rp.isSome) ∧
      (addPrune n c s).joins = c.joins ∧ (addPrune n c s).rp = c.rp.or (some s.addr) := by
  unfold addPrune
  simp only [hw, if_true]
  cases hr : s.rpt with
  | false =>
    simp only [Bool.not_false, if_true, error_rp]
    cases hrp : c.rp with
    | none => simp [failed, error, GroupBase.error]
    | some rp =>
      by_cases heq : rp = s.addr
      · simp [hrp, heq]
      · simp [hrp, heq]
  | true =>
    simp only [Bool.not_true, Bool.false_eq_true, if_false]
    cases hrp : c.rp with
    | none => simp [failed]
    | some rp =>
      by_cases heq : rp = s.addr
      · simp [hrp, heq]
      · simp [hrp, heq]

theorem addPrune_plain (hw : s.wildcard = false) :
    (addPrune n c s).failed = (c.failed || s.rpt || c.joins.contains s.addr) ∧
      (addPrune n c s).joins = (c.joins.emplace s.addr).1 ∧ (addPrune n c s).rp = c.rp := by
  unfold addPrune
  simp only [hw, Bool.false_eq_true, if_false, OrdSet.emplace_snd, Bool.not_not]
  cases hr : s.rpt <;> cases hj : c.joins.contains s.addr <;>
    simp [failed, error, GroupBase.error, hj]

theorem addPrune_spec (h : HoldsSources ps c.joins c.rp) :
    HoldsSources (ps ++ [s]) (addPrune n c s).joins (addPrune n c s).rp ∧
      ((addPrune n c s).failed = false ↔ c.failed = false ∧ JoinOk ps [] s) := by
  cases hw : s.wildcard with
  | true =>
    obtain ⟨hfailed, hjoins, hrp⟩ := addPrune_wildcard n (c := c) hw
    rw [hjoins, hrp, hfailed, joinOk_wildcard hw, ← h.rp_none]
    refine ⟨h.wildcard hw, ?_⟩
    simp only [Bool.or_eq_false_iff, Bool.not_eq_false', Option.isSome_eq_false_iff,
      Option.isNone_iff_eq_none, and_assoc]
  | false =>
    obtain ⟨hfailed, hjoins, hrp⟩ := addPrune_plain n (c := c) hw
    rw [hjoins, hrp, hfailed, joinOk_plain hw]
    refine ⟨h.plain hw, ?_⟩
    simp only [Bool.or_eq_false_iff, h.contains, and_assoc, List.map_nil, List.not_mem_nil,
      not_false_eq_true, and_true]

/-- The prunes of one entry; `p` is what was found wrong, or not, with the joins. -/
theorem foldl_addPrune_spec (ss : List (Source A)) {p : Prop}
    (h : HoldsSources ps c.joins c.rp) (hc : c.failed = false ↔ p ∧ CleanSources ps []) :
    HoldsSources (ps ++ ss) (ss.foldl (addPrune n) c).joins (ss.foldl (addPrune n) c).rp ∧
      ((ss.foldl (addPrune n) c).failed = false ↔ p ∧ CleanSources (ps ++ ss) []) := by
  induction ss generalizing ps c with
  | nil => simpa using ⟨h, hc⟩
  | cons s ss ih =>
    obtain ⟨hheld, hfailed⟩ := addPrune_spec n (s := s) h
    rw [hc, and_assoc, ← clean_join] at hfailed
    have hassoc : ps ++ s :: ss = (ps ++ [s]) ++ ss := by simp
    rw [List.foldl_cons, hassoc]
    exact ih hheld hfailed

end Step

/-! ### The entries of a group -/

structure Readable (es : List (GroupEntry A)) : Prop where
  no_joins : ∀ ge ∈ es, ge.joins = []
  clean : CleanSources (prunesOf es) []

theorem readable_nil : Readable ([] : List (GroupEntry A)) := ⟨by simp, clean_nil⟩

section Entries

variable [LinearOrder A]

/-- What the converter makes of the entries `es`. -/
structure Reads (es : List (GroupEntry A)) (c : InverseGroupEntryConverter A) : Prop where
  failed_iff : c.failed = false ↔ Readable es
  held : HoldsSources (prunesOf es) c.joins c.rp

theorem reads_init [Inhabited A] (group : A) : Reads [] (init group) where
  failed_iff := iff_of_true rfl readable_nil
  held := HoldsSources.empty

theorem Reads.add [ToString A] {es : List (GroupEntry A)} {c : InverseGroupEntryConverter A}
    (h : Reads es c) (n : ℕ) (ge : GroupEntry A) : Reads (es ++ [ge]) (c.add n ge) := by
  have hps : prunesOf (es ++ [ge]) = prunesOf es ++ ge.prunes := by simp [prunesOf]
  have hjoins : (∀ ge' ∈ es ++ [ge], ge'.joins = []) ↔
      (∀ ge' ∈ es, ge'.joins = []) ∧ ge.joins = [] := by
    simp [or_imp, forall_and]
  have hread : c.failed = false ↔ (∀ ge' ∈ es, ge'.joins = []) ∧ CleanSources (prunesOf es) [] :=
    h.failed_iff.trans ⟨fun hr => ⟨hr.no_joins, hr.clean⟩, fun hr => ⟨hr.1, hr.2⟩⟩
  obtain ⟨text, hadd⟩ : ∃ text, c.add n ge =
      ge.prunes.foldl (addPrune n) (if ge.joins ≠ [] then c.error text else c) := ⟨_, rfl⟩
  have hspec : HoldsSources (prunesOf (es ++ [ge])) (c.add n ge).joins (c.add n ge).rp ∧
      ((c.add n ge).failed = false ↔
        (∀ ge' ∈ es ++ [ge], ge'.joins = []) ∧ CleanSources (prunesOf (es ++ [ge])) []) := by
    rw [hadd, hps]
    split_ifs with hnil
    · refine foldl_addPrune_spec n ge.prunes h.held ?_
      rw [hjoins]
      exact iff_of_false (by simp) fun hr => hnil hr.1.2
    · refine foldl_addPrune_spec n ge.prunes h.held ?_
      rw [hjoins, hread, and_iff_left (not_not.mp hnil)]
  refine ⟨?_, hspec.1⟩
  exact hspec.2.trans ⟨fun hr => ⟨hr.1, hr.2⟩, fun hr => ⟨hr.no_joins, hr.clean⟩⟩

variable {c : InverseGroupEntryConverter A}

theorem convert_ok (hc : c.failed = false) :
    c.convert = .ok ⟨c.group, c.rp.map fun rp => ⟨rp, []⟩, c.joins.toList⟩ := by
  unfold convert
  exact if_neg (by rw [Bool.not_eq_true]; exact hc)

theorem convert_ok_iff : (∃ r, c.convert = .ok r) ↔ c.failed = false := verdict_ok_iff _ _ _

end Entries

end InverseGroupEntryConverter

/-! ### The comparison -/

theorem inverseCompare_ok_iff [LinearOrder A] [ToString A] (group : A) (orig rslt : GroupConfig A) :
    InverseGroupConfigComparator.compare group orig rslt = .ok () ↔
      (∀ a, a ∈ orig.spt ↔ a ∈ rslt.spt) ∧ orig.rpt.map (·.rp) = rslt.rpt.map (·.rp) := by
  unfold InverseGroupConfigComparator.compare
  rw [verdict_eq_ok, ← vecSets_agree]
  rcases orig.rpt with _ | ⟨origRp, origPrunes⟩
  · rcases rslt.rpt with _ | ⟨rsltRp, rsltPrunes⟩
    · simp only [groupBase_failed_ite, GroupBase.init]
      simp
    · simp [GroupBase.error]
  · rcases rslt.rpt with _ | ⟨rsltRp, rsltPrunes⟩
    · simp [GroupBase.error]
    · simp only [Option.map_some, Option.some.injEq]
      by_cases hrp : origRp = rsltRp
      · simp only [hrp, ne_eq, not_true_eq_false, if_false, groupBase_failed_ite, GroupBase.init]
        simp
      · simp only [hrp, ne_eq, not_false_eq_true, if_true, and_false, iff_false]
        simp [GroupBase.error]

/-! ### The checker -/

/-- What the entries of one group have to say. -/
structure InverseGroupVerified (g : GroupConfig A) (es : List (GroupEntry A)) : Prop where
  prune_flags : ∀ s ∈ prunesOf es, (s.wildcard = true ∧ s.rpt = true) ∨
    (s.wildcard = false ∧ s.rpt = false)
  rp_eq : ((prunesOf es).filter (·.wildcard)).map (·.addr) = (g.rpt.map (·.rp)).toList
  prunes_nodup : (((prunesOf es).filter (!·.wildcard)).map (·.addr)).Nodup
  prunes_eq : ∀ a, a ∈ ((prunesOf es).filter (!·.wildcard)).map (·.addr) ↔ a ∈ g.spt

/-- What a list of inverse updates has to say about a configuration. -/
structure InverseVerified [DecidableEq A] (cfg : JPConfig A) (us : List (Update A)) : Prop where
  no_joins : ∀ u ∈ us, ∀ ge ∈ u.groups, ge.joins = []
  groups : ∀ a, entriesOf a us ≠ [] ↔ ∃ g ∈ cfg.groups, g.group = a
  group : ∀ g ∈ cfg.groups, InverseGroupVerified g (entriesOf g.group us)

theorem InverseGroupVerified.clean {g : GroupConfig A} {es : List (GroupEntry A)}
    (h : InverseGroupVerified g es) : CleanSources (prunesOf es) [] := by
  have hone : ((prunesOf es).filter (·.wildcard)).length ≤ 1 := by
    have hlen := congrArg List.length h.rp_eq
    rw [List.length_map] at hlen
    rw [hlen]
    cases g.rpt.map (·.rp) <;> simp
  refine ⟨?_, hone, h.prunes_nodup, by simp, by simp, by simp⟩
  intro s hs
  exact (sameFlags_iff s).mpr (h.prune_flags s hs)

theorem map_addr_eq {ws : List (Source A)} (hone : ws.length ≤ 1) (rp : Option A) :
    ws.map (·.addr) = rp.toList ↔ (ws.head?).map (·.addr) = rp := by
  match ws, hone with
  | [], _ => cases rp <;> simp
  | [s], _ => cases rp <;> simp

section Verify

variable [LinearOrder A] [ToString A]

theorem inverseGroupVerified_iff {g : GroupConfig A} {es : List (GroupEntry A)}
    {c : InverseGroupEntryConverter A} (hclean : CleanSources (prunesOf es) [])
    (hc : HoldsSources (prunesOf es) c.joins c.rp) :
    InverseGroupConfigComparator.compare g.group g
        ⟨c.group, c.rp.map fun rp => ⟨rp, []⟩, c.joins.toList⟩ = .ok () ↔
      InverseGroupVerified g es := by
  have hrp : (c.rp.map fun rp => (⟨rp, []⟩ : RPT A)).map (·.rp) = c.rp := by
    cases c.rp <;> rfl
  have hrpt : g.rpt.map (·.rp) = c.rp ↔
      ((prunesOf es).filter (·.wildcard)).map (·.addr) = (g.rpt.map (·.rp)).toList := by
    rw [map_addr_eq hclean.one_wildcard, hc.rp, eq_comm]
  rw [inverseCompare_ok_iff, hrp, hrpt]
  apply Iff.intro
  · intro h'
    obtain ⟨hspt, hrp'⟩ := h'
    refine ⟨?_, hrp', hclean.joins_nodup, ?_⟩
    · intro s hs
      exact (sameFlags_iff s).mp (hclean.join_flags s hs)
    · intro a
      exact (hc.joins a).symm.trans (hspt a).symm
  · intro h
    exact ⟨fun a => (h.prunes_eq a).symm.trans (hc.joins a).symm, h.rp_eq⟩

variable [Inhabited A]

theorem inverseSanity_decides : Decides (inverseConverters (A := A))
    InverseGroupConfigComparator.compare InverseGroupEntryConverter.Reads
    InverseGroupEntryConverter.Readable InverseGroupVerified where
  follows := ⟨InverseGroupEntryConverter.reads_init, fun _ _ n ge h => h.add n ge⟩
  readable_nil := InverseGroupEntryConverter.readable_nil
  convert_iff := by
    intro es c h
    exact InverseGroupEntryConverter.convert_ok_iff.trans h.failed_iff
  compare_iff := by
    intro es c r g h hr
    have hc : c.failed = false := InverseGroupEntryConverter.convert_ok_iff.mp ⟨r, hr⟩
    have hok : c.convert = .ok r := hr
    rw [InverseGroupEntryConverter.convert_ok hc] at hok
    cases hok
    exact inverseGroupVerified_iff (h.failed_iff.mp hc).clean h.held

/-- The checker accepts exactly the updates that take the whole configuration back. -/
theorem verifyInverseUpdates_ok_iff (cfg : JPConfig A) (hdist : cfg.DistinctGroups)
    (us : List (Update A)) : verifyInverseUpdates cfg us = .ok () ↔ InverseVerified cfg us := by
  have hmem : ∀ u ∈ us, ∀ ge ∈ u.groups, ge ∈ entriesOf ge.group us := by
    intro u hu ge hge
    exact List.mem_flatMap.mpr ⟨u, hu, List.mem_filter.mpr ⟨hge, by simp⟩⟩
  rw [verifyInverseUpdates_eq, verifyWith_ok_iff inverseSanity_decides cfg hdist]
  apply Iff.intro
  · intro h
    obtain ⟨hread, hgroups, hgroup⟩ := h
    refine ⟨fun u hu ge hge => ?_, hgroups, hgroup⟩
    exact (hread ge.group).no_joins ge (hmem u hu ge hge)
  · intro h
    refine ⟨fun a => ⟨?_, ?_⟩, h.groups, h.group⟩
    · intro ge hge
      obtain ⟨u, hu, hin⟩ := List.mem_flatMap.mp hge
      exact h.no_joins u hu ge (List.mem_of_mem_filter hin)
    · by_cases hg : ∃ g ∈ cfg.groups, g.group = a
      · obtain ⟨g, hg, rfl⟩ := hg
        exact (h.group g hg).clean
      · have hnil : entriesOf a us = [] := by
          by_contra hne
          exact hg ((h.groups a).mp hne)
        rw [hnil]
        exact clean_nil

end Verify

/-! ### The order of the entries -/

theorem InverseGroupVerified.perm {g : GroupConfig A} {es es' : List (GroupEntry A)}
    (hp : es.Perm es') (h : InverseGroupVerified g es) : InverseGroupVerified g es' := by
  have hprunes : (prunesOf es).Perm (prunesOf es') := hp.flatMap_right _
  have hplain := (hprunes.filter (!·.wildcard)).map (·.addr)
  have hwild := (hprunes.filter (·.wildcard)).map (·.addr)
  rw [h.rp_eq] at hwild
  refine ⟨fun s hs => h.prune_flags s (hprunes.mem_iff.mpr hs), ?_,
    hplain.nodup_iff.mp h.prunes_nodup, fun a => hplain.mem_iff.symm.trans (h.prunes_eq a)⟩
  cases hrp : g.rpt.map (·.rp) with
  | none =>
    rw [hrp] at hwild
    exact List.nil_perm.mp hwild
  | some rp =>
    rw [hrp] at hwild
    exact (List.singleton_perm.mp hwild).symm

theorem InverseVerified.perm [DecidableEq A] {cfg : JPConfig A} {us us' : List (Update A)}
    (hp : (us.flatMap (·.groups)).Perm (us'.flatMap (·.groups))) (h : InverseVerified cfg us) :
    InverseVerified cfg us' := by
  have hentries : ∀ a, (entriesOf a us).Perm (entriesOf a us') := by
    intro a
    have hfilter := hp.filter (·.group = a)
    rw [List.filter_flatMap, List.filter_flatMap] at hfilter
    exact hfilter
  refine ⟨?_, ?_, fun g hg => (h.group g hg).perm (hentries g.group)⟩
  · intro u hu ge hge
    have hin := hp.mem_iff.mpr (List.mem_flatMap.mpr ⟨u, hu, hge⟩)
    obtain ⟨u', hu', hge'⟩ := List.mem_flatMap.mp hin
    exact h.no_joins u' hu' ge hge'
  · intro a
    have hnil : entriesOf a us' = [] ↔ entriesOf a us = [] := by
      rw [← List.length_eq_zero_iff, ← (hentries a).length_eq, List.length_eq_zero_iff]
    rw [ne_eq, hnil]
    exact h.groups a

/-- The sanity check of IPv4 inverse updates is exact, and it looks at the entries in any order. -/
theorem verifyInverseUpdates_exact (cfg : JPConfig IPv4Address) (hdist : cfg.DistinctGroups)
    (us : List (Update IPv4Address)) :
    (verifyInverseUpdates cfg us = .ok () ↔ InverseVerified cfg us) ∧
      ∀ us' : List (Update IPv4Address),
        (us.flatMap (·.groups)).Perm (us'.flatMap (·.groups)) →
        (verifyInverseUpdates cfg us' = .ok () ↔ verifyInverseUpdates cfg us = .ok ()) := by
  refine ⟨verifyInverseUpdates_ok_iff cfg hdist us, fun us' hp => ?_⟩
  rw [verifyInverseUpdates_ok_iff cfg hdist, verifyInverseUpdates_ok_iff cfg hdist]
  exact ⟨fun h => h.perm hp.symm, fun h => h.perm hp⟩

/-- A shared tree with a pruned source and two source trees, and a group of source trees only. -/
def inverseVerifiedConfig : JPConfig IPv4Address where
  groups := [
    ⟨.ofOctets 239 1 1 1, some ⟨.ofOctets 10 0 0 1, [.ofOctets 10 0 0 2]⟩,
      [.ofOctets 10 0 0 3, .ofOctets 10 0 0 4]⟩,
    ⟨.ofOctets 239 1 1 2, none, [.ofOctets 10 0 0 3, .ofOctets 10 0 0 5]⟩]

/-- Both groups are spread over several entries. -/
def inverseVerifiedUpdates : List (Update IPv4Address) :=
  [⟨[⟨.ofOctets 239 1 1 1, [], [⟨.ofOctets 10 0 0 1, true, true⟩,
      ⟨.ofOctets 10 0 0 3, false, false⟩]⟩]⟩,
    ⟨[⟨.ofOctets 239 1 1 1, [], [⟨.ofOctets 10 0 0 4, false, false⟩]⟩,
      ⟨.ofOctets 239 1 1 2, [], [⟨.ofOctets 10 0 0 5, false, false⟩]⟩]⟩,
    ⟨[⟨.ofOctets 239 1 1 2, [], [⟨.ofOctets 10 0 0 3, false, false⟩]⟩]⟩]

/-- The same entries from the last to the first, all of them in one update. -/
def reversedUpdates : List (Update IPv4Address) :=
  [⟨(inverseVerifiedUpdates.flatMap (·.groups)).reverse⟩]

theorem verifyInverseUpdates_exact_example : inverseVerifiedConfig.DistinctGroups ∧
    InverseVerified inverseVerifiedConfig inverseVerifiedUpdates ∧
    verifyInverseUpdates inverseVerifiedConfig reversedUpdates = .ok () := by
  have hok : verifyInverseUpdates inverseVerifiedConfig inverseVerifiedUpdates = .ok () := by decide
  have hdistinct : inverseVerifiedConfig.DistinctGroups := by decide
  have hperm : (inverseVerifiedUpdates.flatMap (·.groups)).Perm
      (reversedUpdates.flatMap (·.groups)) := by
    rw [reversedUpdates, List.flatMap_singleton]
    exact (List.reverse_perm _).symm
  obtain ⟨hexact, horder⟩ :=
    verifyInverseUpdates_exact inverseVerifiedConfig hdistinct inverseVerifiedUpdates
  exact ⟨hdistinct, hexact.mp hok, (horder reversedUpdates hperm).mpr hok⟩

end Pimc
