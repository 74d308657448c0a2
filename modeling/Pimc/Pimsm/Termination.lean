import Pimc.Pimsm.Capacity

/-!
# Termination of the packing loops

The loops append to the queue that they scan. Behind the end of the queue a
builder is empty, and an empty builder takes 181 sources, or an RPT with as many
prunes as the limit allows.
-/

namespace Pimc

open Lib Params

variable {A : Type}

/-! ### The queue between two groups -/

namespace UpdatePacker

theorem foldlM_ready (groups : List (GroupConfig A)) (hlim : ∀ g ∈ groups, PruneLimit g) :
    ∃ p, Returns (fun fuel => groups.foldlM (fitGroup fuel) init) p ∧ Ready p := by
  refine foldlM_total fitGroup (fun _ => Ready) groups ?_ init ready_init
  intro done g rest p hgroups hp
  obtain ⟨p', k, hret, hready, _⟩ := fitGroup_spec hp (hlim g (by simp [hgroups]))
  exact ⟨p', hret, hready⟩

theorem ready_before {groups pre post : List (GroupConfig A)} {g : GroupConfig A}
    {p : UpdatePacker A} (hlim : ∀ g ∈ groups, PruneLimit g) (hg : groups = pre ++ g :: post)
    (hp : Returns (fun fuel => pre.foldlM (fitGroup fuel) init) p) : Ready p ∧ PruneLimit g := by
  have hpre : ∀ g' ∈ pre, PruneLimit g' := by
    intro g' hin
    exact hlim g' (by rw [hg]; exact List.mem_append_left _ hin)
  obtain ⟨p', hret, hready⟩ := foldlM_ready pre hpre
  rw [hp.unique hret]
  exact ⟨hready, hlim g (by simp [hg])⟩

/-- The loop that searches room for the RPT of `g` evaluates its condition at `c`. -/
def AtSearch (groups : List (GroupConfig A)) (g : GroupConfig A) (rpt : RPT A) (c : UBCursor A) :
    Prop :=
  ∃ pre post p, groups = pre ++ g :: post ∧ g.rpt = some rpt ∧
    Returns (fun fuel => pre.foldlM (fitGroup fuel) init) p ∧
    LoopReach (rptGuard rpt) UBCursor.searchBody (UBCursor.mk' p) c

theorem AtSearch.halts {groups : List (GroupConfig A)} {g : GroupConfig A} {rpt : RPT A}
    {c : UBCursor A} (hlim : ∀ g ∈ groups, PruneLimit g) (h : AtSearch groups g rpt c) :
    Halts (rptGuard rpt) UBCursor.searchBody c := by
  obtain ⟨pre, post, p, hg, hrpt, hp, hc⟩ := h
  obtain ⟨hready, hlimit⟩ := ready_before hlim hg hp
  have hneed := rptSz_bounds hlimit hrpt
  exact Halts.of_variant (SearchInv p (rptSz rpt)) (searchVariant p)
    (search_step hneed.2 (rptGuard_iff rpt)) (searchInv_of_reach hready hlimit hrpt hc)

theorem AtSources.halts {groups : List (GroupConfig A)} {g : GroupConfig A} {s : SptLoop A}
    (hlim : ∀ g ∈ groups, PruneLimit g) (h : AtSources groups g s) :
    Halts (sptGuard g) (sptBody g) s := by
  obtain ⟨pre, post, p, q, k, hg, hp, hq, hs⟩ := h
  obtain ⟨hready, hlimit⟩ := ready_before hlim hg hp
  obtain ⟨hk, hkl, hinv⟩ := sptInv_of_reach hready hlimit hq hs
  refine Halts.of_variant (SptInv q g k) (sptVariant q g) ?_ hinv
  intro t ht hguard
  exact sptBody_spec hk hkl ht hguard

end UpdatePacker

namespace InverseUpdatePacker

theorem foldlM_ready (groups : List (GroupConfig A)) :
    ∃ p, Returns (fun fuel => groups.foldlM (fitGroup fuel) UpdatePacker.init) p ∧ Ready p := by
  refine foldlM_total fitGroup (fun _ => Ready) groups ?_ UpdatePacker.init ready_init
  intro done g rest p hgroups hp
  obtain ⟨lost, hlost⟩ := exists_lost g (inverseRooms (ubAt p.ubq))
  obtain ⟨p', hret, hready, _⟩ := fitGroup_spec hp hlost
  exact ⟨p', hret, hready⟩

theorem AtSources.sptInv {groups : List (GroupConfig A)} {g : GroupConfig A} {s : SptLoop A}
    (h : AtSources groups g s) :
    ∃ p lost, (lost = true ↔ RpLost g (inverseRooms (ubAt p.ubq))) ∧ SptInv p g lost s := by
  obtain ⟨pre, post, p, hg, hp, hs⟩ := h
  obtain ⟨p', hret, hready⟩ := foldlM_ready pre
  rw [hp.unique hret] at hs
  obtain ⟨lost, hlost, hinv⟩ := sptInv_of_reach hready hs
  exact ⟨p', lost, hlost, hinv⟩

theorem AtSources.halts {groups : List (GroupConfig A)} {g : GroupConfig A} {s : SptLoop A}
    (h : AtSources groups g s) : Halts (sptGuard g) (sptBody g) s := by
  obtain ⟨p, lost, hlost, hinv⟩ := h.sptInv
  refine Halts.of_variant (SptInv p g lost) (sptVariant p g) ?_ hinv
  intro t ht hguard
  exact sptBody_spec hlost ht hguard

/-- The loop that searches room for the RP of `g` evaluates its condition at `c`. -/
def AtSearch (groups : List (GroupConfig A)) (g : GroupConfig A) (c : UBCursor A) : Prop :=
  ∃ s, AtSources groups g s ∧ sptGuard g s = false ∧ s.pruneRP = 1 ∧
    LoopReach rpGuard UBCursor.searchBody s.c c

theorem AtSearch.halts {groups : List (GroupConfig A)} {g : GroupConfig A} {c : UBCursor A}
    (h : AtSearch groups g c) : Halts rpGuard UBCursor.searchBody c := by
  obtain ⟨s, hs, _, hprp, hc⟩ := h
  obtain ⟨p, lost, _, hinv⟩ := hs.sptInv
  exact Halts.of_variant (SearchInv p 20) (searchVariant p) (search_step (by decide) rpGuard_iff)
    (searchInv_of_reach hinv hprp hc)

end InverseUpdatePacker

/-! ### An RPT beyond the limit -/

/-- What the constructor and `add` make of a builder. -/
inductive Built : UpdateBuilderImpl A → Prop where
  | init : Built .init
  | add {ub ub' : UpdateBuilderImpl A} {geb : GroupEntry A} {geSz : ℕ} (h : Built ub)
      (hadd : ub.add geb geSz = .ret ub') : Built ub'

theorem Built.sz_le {ub : UpdateBuilderImpl A} (h : Built ub) : ub.sz ≤ JPCapacity := by
  cases h with
  | init => exact Nat.zero_le _
  | @add ub₀ _ geb geSz _ hadd =>
    unfold UpdateBuilderImpl.add UpdateBuilderImpl.chkSz at hadd
    by_cases hsz : ub₀.sz + geSz > JPCapacity
    · rw [if_pos hsz] at hadd
      cases hadd
    · rw [if_neg hsz] at hadd
      cases hadd
      exact Nat.le_of_not_lt hsz

theorem Built.remaining_le {ub : UpdateBuilderImpl A} (h : Built ub) :
    ub.remaining ≤ JPCapacity := by
  have hsub : ub.remaining = JPCapacity - ub.sz := sizeSub_eq h.sz_le (by decide)
  omega

def QueueBuilt (c : UBCursor A) : Prop := ∀ ub ∈ c.ubq, Built ub

theorem QueueBuilt.incr {c : UBCursor A} (h : QueueBuilt c) : QueueBuilt c.incr := by
  unfold UBCursor.incr
  split_ifs
  · intro ub hub
    rcases List.mem_append.mp hub with hold | hnew
    · exact h ub hold
    · rw [List.mem_singleton.mp hnew]
      exact Built.init
  · exact h

theorem QueueBuilt.deref {c : UBCursor A} (h : QueueBuilt c) : Built c.deref := by
  rw [deref_eq]
  rcases Nat.lt_or_ge c.i c.ubq.length with hlt | hge
  · rw [ubAt_of_lt hlt]
    exact h _ (List.getElem_mem hlt)
  · rw [ubAt_of_le hge]
    exact Built.init

/-- No builder has the room, not even an empty one. -/
theorem search_never_returns {rpt : RPT A} (hrpt : MaxPruneSGrptLen < rpt.prunes.length)
    {c : UBCursor A} (h : QueueBuilt c) (fuel : ℕ) :
    whileLoop (UpdatePacker.rptGuard rpt) UBCursor.searchBody fuel c = .running := by
  refine whileLoop_diverges QueueBuilt ?_ c h fuel
  intro d hd
  have hroom := hd.deref.remaining_le
  have hsz : JPCapacity < UpdatePacker.rptSz rpt := by
    show 1466 < 12 + 8 * (rpt.prunes.length + 1)
    have hlen : 180 < rpt.prunes.length := hrpt
    omega
  exact ⟨(UpdatePacker.rptGuard_iff rpt d).mpr (lt_of_le_of_lt hroom hsz), d.incr, rfl, hd.incr⟩

theorem findRptUb_never_returns {g : GroupConfig A} {rpt : RPT A} (hrpt : g.rpt = some rpt)
    (hlen : MaxPruneSGrptLen < rpt.prunes.length) {p : UpdatePacker A}
    (h : QueueBuilt (UBCursor.mk' p)) (fuel : ℕ) : UpdatePacker.findRptUb fuel p g = .running := by
  unfold UpdatePacker.findRptUb
  simp only [hrpt, search_never_returns hlen h, Outcome.running_bind]

/-! ### The limit -/

theorem pack_returns (cfg : JPConfig A) (hlim : ∀ g ∈ cfg.groups, UpdatePacker.PruneLimit g) :
    ∃ us, Returns (fun fuel => pack fuel cfg) us := by
  obtain ⟨p, hret, _⟩ := UpdatePacker.foldlM_ready cfg.groups hlim
  exact ⟨p.build, hret.bind (Returns.of_eq fun _ => rfl)⟩

theorem inversePack_returns (cfg : JPConfig A) :
    ∃ us, Returns (fun fuel => inversePack fuel cfg) us := by
  obtain ⟨p, hret, _⟩ := InverseUpdatePacker.foldlM_ready cfg.groups
  exact ⟨p.build, hret.bind (Returns.of_eq fun _ => rfl)⟩

/-- Every loop returns from every state it comes to if no group has more RPT prunes than the
limit; with one prune more the search of `findRptUb` runs on, whatever the queue. -/
theorem packing_halts_up_to_limit (cfg : JPConfig IPv4Address)
    (hlim : ∀ g ∈ cfg.groups, UpdatePacker.PruneLimit g) :
    ((∃ us, Returns (fun fuel => pack fuel cfg) us) ∧
      (∀ g rpt c, UpdatePacker.AtSearch cfg.groups g rpt c →
        Halts (UpdatePacker.rptGuard rpt) UBCursor.searchBody c) ∧
      ∀ g s, UpdatePacker.AtSources cfg.groups g s →
        Halts (UpdatePacker.sptGuard g) (UpdatePacker.sptBody g) s) ∧
    ((∃ us, Returns (fun fuel => inversePack fuel cfg) us) ∧
      (∀ g s, InverseUpdatePacker.AtSources cfg.groups g s →
        Halts (InverseUpdatePacker.sptGuard g) (InverseUpdatePacker.sptBody g) s) ∧
      ∀ g c, InverseUpdatePacker.AtSearch cfg.groups g c →
        Halts InverseUpdatePacker.rpGuard UBCursor.searchBody c) ∧
    ∀ (g : GroupConfig IPv4Address) (rpt : RPT IPv4Address), g.rpt = some rpt →
      181 ≤ rpt.prunes.length →
      (∀ c, QueueBuilt c → ∀ fuel,
        whileLoop (UpdatePacker.rptGuard rpt) UBCursor.searchBody fuel c = .running) ∧
      ∀ p, QueueBuilt (UBCursor.mk' p) → ∀ fuel, UpdatePacker.findRptUb fuel p g = .running := by
  refine ⟨⟨pack_returns cfg hlim, ?_, ?_⟩, ⟨inversePack_returns cfg, ?_, ?_⟩, ?_⟩
  · intro g rpt c h
    exact h.halts hlim
  · intro g s h
    exact h.halts hlim
  · intro g s h
    exact h.halts
  · intro g c h
    exact h.halts
  · intro g rpt hrpt hlen
    exact ⟨fun c h => search_never_returns hlen h, fun p h => findRptUb_never_returns hrpt hlen h⟩

theorem packing_halts_up_to_limit_example :
    (∃ us, Returns (fun fuel => pack fuel exampleConfig) us) ∧
    (∃ us, Returns (fun fuel => inversePack fuel exampleConfig) us) :=
  have h := packing_halts_up_to_limit exampleConfig (by decide)
  ⟨h.1.1, h.2.1.1⟩

end Pimc
