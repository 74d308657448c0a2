import Pimc.Pimsm.InverseLossless

/-!
# Capacity and shape of the updates

The queue is looked at whenever a packer has packed a group or evaluates a loop
condition. Between two such moments a packer changes one builder at most.
-/

namespace Pimc

open Lib Params

variable {A : Type}

/-! ### The queues of a run -/

namespace UpdatePacker

/-- The loop over the sources of `g` evaluates its condition in `s`. -/
def AtSources (groups : List (GroupConfig A)) (g : GroupConfig A) (s : SptLoop A) : Prop :=
  ∃ pre post p q k, groups = pre ++ g :: post ∧
    Returns (fun fuel => pre.foldlM (fitGroup fuel) init) p ∧
    Returns (fun fuel => findRptUb fuel p g) (q, k) ∧
    LoopReach (sptGuard g) (sptBody g) ⟨UBCursor.mk' q, 0, k⟩ s

inductive Reach (groups : List (GroupConfig A)) : List (UpdateBuilderImpl A) → Prop where
  | group {pre post : List (GroupConfig A)} {p : UpdatePacker A} (hg : groups = pre ++ post)
      (hp : Returns (fun fuel => pre.foldlM (fitGroup fuel) init) p) : Reach groups p.ubq
  | search {pre post : List (GroupConfig A)} {g : GroupConfig A} {p : UpdatePacker A}
      {rpt : RPT A} {c : UBCursor A} (hg : groups = pre ++ g :: post)
      (hp : Returns (fun fuel => pre.foldlM (fitGroup fuel) init) p) (hrpt : g.rpt = some rpt)
      (hc : LoopReach (rptGuard rpt) UBCursor.searchBody (UBCursor.mk' p) c) :
      Reach groups c.ubq
  | sources {g : GroupConfig A} {s : SptLoop A} (hs : AtSources groups g s) : Reach groups s.c.ubq

end UpdatePacker

namespace InverseUpdatePacker

/-- The loop over the sources of `g` evaluates its condition in `s`. -/
def AtSources (groups : List (GroupConfig A)) (g : GroupConfig A) (s : SptLoop A) : Prop :=
  ∃ pre post p, groups = pre ++ g :: post ∧
    Returns (fun fuel => pre.foldlM (fitGroup fuel) UpdatePacker.init) p ∧
    LoopReach (sptGuard g) (sptBody g) ⟨UBCursor.mk' p, 0, pruneRP g⟩ s

inductive Reach (groups : List (GroupConfig A)) : List (UpdateBuilderImpl A) → Prop where
  | group {pre post : List (GroupConfig A)} {p : UpdatePacker A} (hg : groups = pre ++ post)
      (hp : Returns (fun fuel => pre.foldlM (fitGroup fuel) UpdatePacker.init) p) :
      Reach groups p.ubq
  | sources {g : GroupConfig A} {s : SptLoop A} (hs : AtSources groups g s) : Reach groups s.c.ubq
  | search {g : GroupConfig A} {s : SptLoop A} {c : UBCursor A} (hs : AtSources groups g s)
      (hend : sptGuard g s = false) (hprp : s.pruneRP = 1)
      (hc : LoopReach rpGuard UBCursor.searchBody s.c c) : Reach groups c.ubq

end InverseUpdatePacker

/-! ### The queue of every state -/

theorem sized_of_mem {q : List (UpdateBuilderImpl A)} (h : ∀ i, Sized (ubAt q i)) :
    ∀ ub ∈ q, Sized ub := by
  intro ub hub
  obtain ⟨i, hi, rfl⟩ := List.mem_iff_getElem.mp hub
  have hsized := h i
  rw [ubAt_of_lt hi] at hsized
  exact hsized

section Pack

namespace UpdatePacker

variable {groups : List (GroupConfig A)}

theorem ready_front [DecidableEq A] (hdist : (groups.map (·.group)).Nodup)
    (hlim : ∀ g ∈ groups, PruneLimit g) {pre post : List (GroupConfig A)}
    (hg : groups = pre ++ post) {p : UpdatePacker A}
    (hp : Returns (fun fuel => pre.foldlM (fitGroup fuel) init) p) : Ready p := by
  have hpre : ∀ g ∈ pre, PruneLimit g := by
    intro g hin
    exact hlim g (by rw [hg]; exact List.mem_append_left post hin)
  obtain ⟨p', hret, hinv⟩ := packGroups_spec pre (nodup_front hg hdist) hpre
  rw [hp.unique hret]
  exact hinv.ready

/-- The states of the search loop, entered with a queue that is in order. -/
theorem searchInv_of_reach {g : GroupConfig A} {p : UpdatePacker A} {rpt : RPT A} {c : UBCursor A}
    (hp : Ready p) (hlim : PruneLimit g) (hrpt : g.rpt = some rpt)
    (hc : LoopReach (rptGuard rpt) UBCursor.searchBody (UBCursor.mk' p) c) :
    SearchInv p (rptSz rpt) c := by
  have hneed := rptSz_bounds hlim hrpt
  exact hc.of_step (searchVariant p) (searchInv_mk hp hneed.1)
    (search_step hneed.2 (rptGuard_iff rpt))

/-- The states of the loop over the sources. -/
theorem sptInv_of_reach {g : GroupConfig A} {p q : UpdatePacker A} {k : Option ℕ} {s : SptLoop A}
    (hp : Ready p) (hlim : PruneLimit g) (hq : Returns (fun fuel => findRptUb fuel p g) (q, k))
    (hs : LoopReach (sptGuard g) (sptBody g) ⟨UBCursor.mk' q, 0, k⟩ s) :
    IsRptUb (ubAt q.ubq) g k ∧ (∀ i ∈ k, i < q.ubq.length) ∧ SptInv q g k s := by
  obtain ⟨q', k', hfind, hready, hat, _, hk, hkl⟩ := findRptUb_spec hp hlim
  have hqk := hq.unique hfind
  rw [Prod.mk.injEq] at hqk
  obtain ⟨rfl, rfl⟩ := hqk
  have hrpt : IsRptUb (ubAt q.ubq) g k := by
    rw [show ubAt q.ubq = ubAt p.ubq from funext hat]
    exact hk
  refine ⟨hrpt, fun i hi => (hkl i hi).2, hs.of_step (sptVariant q g)
    (sptInv_entry hready fun i hi => (hkl i hi).1) ?_⟩
  intro s hinv hguard
  exact sptBody_spec hrpt (fun i hi => (hkl i hi).2) hinv hguard

theorem AtSources.inv [DecidableEq A] (hdist : (groups.map (·.group)).Nodup)
    (hlim : ∀ g ∈ groups, PruneLimit g) {g : GroupConfig A} {s : SptLoop A}
    (h : AtSources groups g s) : ∃ q k, IsRptUb (ubAt q.ubq) g k ∧ SptInv q g k s := by
  obtain ⟨pre, post, p, q, k, hg, hp, hq, hs⟩ := h
  have hready := ready_front hdist hlim hg hp
  obtain ⟨hk, _, hinv⟩ := sptInv_of_reach hready (hlim g (by simp [hg])) hq hs
  exact ⟨q, k, hk, hinv⟩

theorem search_cursorOk [DecidableEq A] (hdist : (groups.map (·.group)).Nodup)
    (hlim : ∀ g ∈ groups, PruneLimit g) {pre post : List (GroupConfig A)} {g : GroupConfig A}
    {p : UpdatePacker A} {rpt : RPT A} {c : UBCursor A} (hg : groups = pre ++ g :: post)
    (hp : Returns (fun fuel => pre.foldlM (fitGroup fuel) init) p) (hrpt : g.rpt = some rpt)
    (hc : LoopReach (rptGuard rpt) UBCursor.searchBody (UBCursor.mk' p) c) : CursorOk c := by
  have hready := ready_front hdist hlim hg hp
  exact (searchInv_of_reach hready (hlim g (by simp [hg])) hrpt hc).cursor

theorem AtSources.cursorOk [DecidableEq A] (hdist : (groups.map (·.group)).Nodup)
    (hlim : ∀ g ∈ groups, PruneLimit g) {g : GroupConfig A} {s : SptLoop A}
    (h : AtSources groups g s) : CursorOk s.c := by
  obtain ⟨q, k, _, hinv⟩ := h.inv hdist hlim
  exact hinv.cursor

theorem Reach.sized [DecidableEq A] (hdist : (groups.map (·.group)).Nodup)
    (hlim : ∀ g ∈ groups, PruneLimit g) {q : List (UpdateBuilderImpl A)} (h : Reach groups q) :
    ∀ ub ∈ q, Sized ub := by
  cases h with
  | group hg hp => exact sized_of_mem (ready_front hdist hlim hg hp).sized
  | search hg hp hrpt hc =>
    have hcursor := search_cursorOk hdist hlim hg hp hrpt hc
    exact sized_of_mem hcursor.ready.sized
  | sources hs =>
    have hcursor := hs.cursorOk hdist hlim
    exact sized_of_mem hcursor.ready.sized

/-- The bytes reserved for the RPT are there when the loop subtracts them. -/
theorem AtSources.reserve_le [DecidableEq A] (hdist : (groups.map (·.group)).Nodup)
    (hlim : ∀ g ∈ groups, PruneLimit g) {g : GroupConfig A} {s : SptLoop A}
    (h : AtSources groups g s) {rpt : RPT A} (hrpt : g.rpt = some rpt)
    (hub : s.rptUb = some s.c.addr) : reserve rpt ≤ s.c.deref.remaining := by
  obtain ⟨q, k, hk, hinv⟩ := h.inv hdist hlim
  have hki : k = some s.c.i := by
    have heq := hinv.rptUb_eq
    rw [hub] at heq
    exact (Option.filter_eq_some_iff.mp heq.symm).1
  obtain ⟨rpt', hrpt', hfit⟩ := hk.rpt_eq_some hki
  rw [hrpt] at hrpt'
  cases hrpt'
  rw [deref_eq, hinv.after s.c.i le_rfl]
  omega

theorem steady_fitGroup (p : UpdatePacker A) (g : GroupConfig A) :
    Steady fun fuel => fitGroup fuel p g := by
  have hfind : Steady fun fuel => findRptUb fuel p g := by
    unfold findRptUb
    cases g.rpt with
    | none => exact Steady.const _
    | some rpt => exact (Steady.whileLoop _ _ _).bind fun _ => Steady.const _
  unfold fitGroup
  refine hfind.bind fun r => (Steady.whileLoop _ _ _).bind fun s => ?_
  exact Steady.const _

end UpdatePacker

end Pack

section InversePack

namespace InverseUpdatePacker

variable {groups : List (GroupConfig A)}

theorem ready_front [DecidableEq A] (hdist : (groups.map (·.group)).Nodup)
    {pre post : List (GroupConfig A)} (hg : groups = pre ++ post) {p : UpdatePacker A}
    (hp : Returns (fun fuel => pre.foldlM (fitGroup fuel) UpdatePacker.init) p) : Ready p := by
  obtain ⟨p', hret, hinv⟩ := packGroups_spec pre (nodup_front hg hdist)
  rw [hp.unique hret]
  exact hinv.run.ready

/-- The states of the loop over the sources. -/
theorem sptInv_of_reach {g : GroupConfig A} {p : UpdatePacker A} {s : SptLoop A} (hp : Ready p)
    (hs : LoopReach (sptGuard g) (sptBody g) ⟨UBCursor.mk' p, 0, pruneRP g⟩ s) :
    ∃ lost, (lost = true ↔ RpLost g (inverseRooms (ubAt p.ubq))) ∧ SptInv p g lost s := by
  obtain ⟨lost, hlost⟩ := exists_lost g (inverseRooms (ubAt p.ubq))
  refine ⟨lost, hlost, hs.of_step (sptVariant p g) (sptInv_entry hp g lost) ?_⟩
  intro s hinv hguard
  exact sptBody_spec hlost hinv hguard

/-- The states of the search loop, entered with the RP pending. -/
theorem searchInv_of_reach {g : GroupConfig A} {p : UpdatePacker A} {lost : Bool} {s : SptLoop A}
    {c : UBCursor A} (h : SptInv p g lost s) (hprp : s.pruneRP = 1)
    (hc : LoopReach rpGuard UBCursor.searchBody s.c c) : SearchInv p 20 c :=
  hc.of_step (searchVariant p) (h.searchInv hprp) (search_step (by decide) rpGuard_iff)

theorem AtSources.inv [DecidableEq A] (hdist : (groups.map (·.group)).Nodup)
    {g : GroupConfig A} {s : SptLoop A} (h : AtSources groups g s) :
    ∃ p lost, SptInv p g lost s := by
  obtain ⟨pre, post, p, hg, hp, hs⟩ := h
  obtain ⟨lost, _, hinv⟩ := sptInv_of_reach (ready_front hdist hg hp) hs
  exact ⟨p, lost, hinv⟩

theorem AtSources.cursorOk [DecidableEq A] (hdist : (groups.map (·.group)).Nodup)
    {g : GroupConfig A} {s : SptLoop A} (h : AtSources groups g s) : CursorOk s.c := by
  obtain ⟨p, lost, hinv⟩ := h.inv hdist
  exact hinv.cursor

theorem search_cursorOk [DecidableEq A] (hdist : (groups.map (·.group)).Nodup)
    {g : GroupConfig A} {s : SptLoop A} {c : UBCursor A} (hs : AtSources groups g s)
    (hprp : s.pruneRP = 1) (hc : LoopReach rpGuard UBCursor.searchBody s.c c) : CursorOk c := by
  obtain ⟨p, lost, hinv⟩ := hs.inv hdist
  exact (searchInv_of_reach hinv hprp hc).cursor

theorem Reach.sized [DecidableEq A] (hdist : (groups.map (·.group)).Nodup)
    {q : List (UpdateBuilderImpl A)} (h : Reach groups q) : ∀ ub ∈ q, Sized ub := by
  cases h with
  | group hg hp => exact sized_of_mem (ready_front hdist hg hp).sized
  | sources hs =>
    have hcursor := hs.cursorOk hdist
    exact sized_of_mem hcursor.ready.sized
  | search hs hend hprp hc =>
    have hcursor := search_cursorOk hdist hs hprp hc
    exact sized_of_mem hcursor.ready.sized

theorem steady_fitGroup (p : UpdatePacker A) (g : GroupConfig A) :
    Steady fun fuel => fitGroup fuel p g := by
  unfold fitGroup
  refine (Steady.whileLoop _ _ _).bind fun s => ?_
  cases g.rpt with
  | none => exact Steady.const _
  | some rpt =>
    cases s.pruneRP == 1 with
    | false => exact Steady.const _
    | true => exact (Steady.whileLoop _ _ _).bind fun c => Steady.const _

end InverseUpdatePacker

end InversePack

/-! ### The updates -/

/-- The shape that an update has to have. -/
structure WellShaped (u : Update A) : Prop where
  groups_ne_nil : u.groups ≠ []
  distinct : (u.groups.map (·.group)).Nodup
  no_empty_entry : ∀ ge ∈ u.groups, ge.joins ≠ [] ∨ ge.prunes ≠ []
  size_le : (u.groups.map fun ge => 12 + 8 * (ge.joins.length + ge.prunes.length)).sum ≤ 1466

section Shape

variable [DecidableEq A]

theorem RunInv.wellShaped
    {Placed : List (GroupConfig A) → GroupConfig A → List (GroupEntry A) → Prop}
    {groups : List (GroupConfig A)} {p : UpdatePacker A} (h : RunInv Placed groups p) :
    ∀ u ∈ p.build, WellShaped u := by
  intro u hu
  obtain ⟨i, hi, hne⟩ := h.ready.mem_build hu
  have hsized := h.ready.sized i
  refine ⟨hne, ?_, ?_, ?_⟩
  · rw [hi]
    exact h.distinct i
  · rw [hi]
    exact h.nonempty i
  · rw [hi]
    have hsz := hsized.sz_eq
    have hle := hsized.le_capacity
    rw [hsz] at hle
    exact hle

-- What is claimed of every builder of a queue.
def BuildersExact (q : List (UpdateBuilderImpl A)) : Prop :=
  ∀ ub ∈ q, ub.sz = (ub.groups.map fun ge => 12 + 8 * (ge.joins.length + ge.prunes.length)).sum ∧
    ub.sz ≤ JPCapacity ∧ ub.remaining = JPCapacity - ub.sz

omit [DecidableEq A] in
theorem buildersExact_of_sized {q : List (UpdateBuilderImpl A)} (h : ∀ ub ∈ q, Sized ub) :
    BuildersExact q := by
  intro ub hub
  have hsized := h ub hub
  exact ⟨hsized.sz_eq, hsized.le_capacity, hsized.remaining_eq⟩

omit [DecidableEq A] in
theorem steady_pack (cfg : JPConfig A) : Steady fun fuel => pack fuel cfg := by
  unfold pack
  exact (Steady.foldlM UpdatePacker.steady_fitGroup _ _).bind fun _ => Steady.const _

omit [DecidableEq A] in
theorem steady_inversePack (cfg : JPConfig A) : Steady fun fuel => inversePack fuel cfg := by
  unfold inversePack
  exact (Steady.foldlM InverseUpdatePacker.steady_fitGroup _ _).bind fun _ => Steady.const _

/-- Both packers return well shaped updates, account for every byte on the way
and throw in no state. -/
theorem pack_capacity (cfg : JPConfig A) (hdist : cfg.DistinctGroups)
    (hlim : ∀ g ∈ cfg.groups, UpdatePacker.PruneLimit g) :
    (∃ us, Returns (fun fuel => pack fuel cfg) us ∧ ∀ u ∈ us, WellShaped u) ∧
    (∃ us, Returns (fun fuel => inversePack fuel cfg) us ∧ ∀ u ∈ us, WellShaped u) ∧
    (∀ q, UpdatePacker.Reach cfg.groups q → BuildersExact q) ∧
    (∀ q, InverseUpdatePacker.Reach cfg.groups q → BuildersExact q) ∧
    (∀ g s rpt, UpdatePacker.AtSources cfg.groups g s → g.rpt = some rpt →
      s.rptUb = some s.c.addr → SrcASize * (rpt.prunes.length + 1) ≤ s.c.deref.remaining) ∧
    (∀ fuel e, pack fuel cfg ≠ .throws e) ∧ ∀ fuel e, inversePack fuel cfg ≠ .throws e := by
  obtain ⟨p, hpack, hp⟩ := pack_placed cfg hdist hlim
  obtain ⟨q, hinverse, hq⟩ := inversePack_placed cfg hdist
  refine ⟨⟨p.build, hpack, hp.wellShaped⟩, ⟨q.build, hinverse, hq.run.wellShaped⟩, ?_, ?_, ?_,
    hpack.never_throws (steady_pack cfg), hinverse.never_throws (steady_inversePack cfg)⟩
  · intro r hr
    exact buildersExact_of_sized (hr.sized hdist hlim)
  · intro r hr
    exact buildersExact_of_sized (hr.sized hdist)
  · intro g s rpt hs hrpt hub
    exact hs.reserve_le hdist hlim hrpt hub

theorem pack_capacity_example : exampleConfig.DistinctGroups ∧
    (∃ us, Returns (fun fuel => pack fuel exampleConfig) us ∧ ∀ u ∈ us, WellShaped u) ∧
    ∃ us, Returns (fun fuel => inversePack fuel exampleConfig) us ∧ ∀ u ∈ us, WellShaped u :=
  have h := pack_capacity exampleConfig (by decide) (by decide)
  ⟨by decide, h.1, h.2.1⟩

end Shape

end Pimc
