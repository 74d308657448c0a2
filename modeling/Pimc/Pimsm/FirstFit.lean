import Pimc.Pimsm.PackLossless

/-!
# First fit without waste

A builder that a group leaves behind has no room for another of its sources, or
for its RPT. Later groups only take room away, so this still holds of the
updates that are built.
-/

namespace Pimc

namespace UpdatePacker

open Lib Params

variable {A : Type}

/-! ### Sources of an entry -/

theorem plain_join_slice {g : GroupConfig A} {rooms : ℕ → ℕ} {k : Option ℕ} {i : ℕ}
    {ge : GroupEntry A} (hge : ge ∈ packEntry g rooms k i) {s : Source A} (hs : s ∈ ge.joins)
    (hplain : s.plain = true) : slice rooms g.spt i ≠ [] := by
  intro hnil
  unfold packEntry at hge
  rw [hnil] at hge
  split at hge
  · cases hge
    rw [List.map_nil, List.nil_append, List.mem_singleton] at hs
    rw [hs] at hplain
    cases hplain
  · cases hge

theorem shared_join_rpt {g : GroupConfig A} {rooms : ℕ → ℕ} {k : Option ℕ} {i : ℕ}
    {ge : GroupEntry A} (hge : ge ∈ packEntry g rooms k i) {s : Source A} (hs : s ∈ ge.joins)
    (hshared : s.shared = true) : k = some i := by
  by_contra hne
  rw [packEntry_of_ne hne] at hge
  split at hge
  · cases hge
  · cases hge
    obtain ⟨a, _, rfl⟩ := List.mem_map.mp hs
    cases hshared

/-! ### Room left behind -/

theorem remaining_put {ub : UpdateBuilderImpl A} (h : Sized ub) {ge : GroupEntry A}
    (hge : ge.size ≤ ub.remaining) : (put ub (some ge)).remaining = ub.remaining - ge.size := by
  have hold := h.remaining_add
  have hnew := (h.add_put hge).2.remaining_add
  simp only [put] at hnew ⊢
  omega

/-- A builder before one that gets a source is filled up with sources. -/
theorem packEntry_waste {v : ℕ → UpdateBuilderImpl A} {g : GroupConfig A} {k : Option ℕ}
    {i j : ℕ} (hk : IsRptUb v g k) (hsized : Sized (v i)) (hij : i < j)
    (hj : slice (packRooms v g k) g.spt j ≠ []) :
    (put (v i) (packEntry g (packRooms v g k) k i)).remaining < 20 ∧
    ∀ ge ∈ packEntry g (packRooms v g k) k i,
      (put (v i) (packEntry g (packRooms v g k) k i)).remaining < 8 := by
  have hlen := length_slice_eq_of_lt hij hj
  have hfits := packEntry_fits hk i
  by_cases hki : k = some i
  · obtain ⟨rpt, hrpt, hfit⟩ := hk.rpt_eq_some hki
    subst hki
    rw [packRooms_eq hrpt] at hlen
    rw [packEntry_eq hrpt] at hfits ⊢
    have hput := remaining_put hsized (hfits _ rfl)
    have hlt : (put (v i) (some ⟨g.group, (slice (packRooms v g (some i)) g.spt i).map sgSource ++
        [rpSource rpt.rp], rpt.prunes.map rptSource⟩)).remaining < 8 := by
      rw [hput]
      rw [reserve_eq] at hlen hfit
      simp only [GroupEntry.size, List.length_append, List.length_map, List.length_singleton, hlen]
      omega
    exact ⟨lt_trans hlt (by decide), fun ge hge => hlt⟩
  · rw [packRooms_of_ne hki] at hlen
    rw [packEntry_of_ne hki] at hfits ⊢
    by_cases hs : slice (packRooms v g k) g.spt i = []
    · rw [if_pos hs]
      rw [hs, List.length_nil] at hlen
      exact ⟨by simp only [put]; omega, fun ge hge => by cases hge⟩
    · rw [if_neg hs] at hfits ⊢
      have hput := remaining_put hsized (hfits _ rfl)
      have hpos : 0 < (slice (packRooms v g k) g.spt i).length := List.length_pos_iff.mpr hs
      have hlt : (put (v i) (some ⟨g.group, (slice (packRooms v g k) g.spt i).map sgSource,
          []⟩)).remaining < 8 := by
        rw [hput]
        simp only [GroupEntry.size, List.length_map, List.length_nil]
        omega
      exact ⟨lt_trans hlt (by decide), fun ge hge => hlt⟩

/-! ### The invariant of a run -/

/-- The builders before one with an entry of `g` have no room for what is in that entry. -/
structure NoWaste (g : GroupConfig A) (v : ℕ → UpdateBuilderImpl A) : Prop where
  plain : ∀ i j, i < j → ∀ ge ∈ (v j).groups, ge.group = g.group →
    (∃ s ∈ ge.joins, s.plain = true) → (v i).remaining < 20 ∧
      ((∃ ge' ∈ (v i).groups, ge'.group = g.group) → (v i).remaining < 8)
  shared : ∀ i j, i < j → ∀ ge ∈ (v j).groups, ge.group = g.group →
    (∃ s ∈ ge.joins, s.shared = true) → (v i).remaining < 12 + 8 * (g.prunes.length + 1)

section Place

variable {v v' : ℕ → UpdateBuilderImpl A} {e : ℕ → Option (GroupEntry A)} {g : GroupConfig A}

theorem remaining_le_of_put (hsized : ∀ i, Sized (v i)) (hat : ∀ i, v' i = put (v i) (e i))
    (hfits : ∀ i, ∀ ge ∈ e i, ge.size ≤ (v i).remaining) (i : ℕ) :
    (v' i).remaining ≤ (v i).remaining := by
  rw [hat]
  cases he : e i with
  | none => exact le_rfl
  | some ge => exact (hsized i).remaining_put_le (hfits i ge he)

/-- Another group takes room away only. -/
theorem NoWaste.of_put {g' : GroupConfig A} (h : NoWaste g' v) (hsized : ∀ i, Sized (v i))
    (hat : ∀ i, v' i = put (v i) (e i)) (hfits : ∀ i, ∀ ge ∈ e i, ge.size ≤ (v i).remaining)
    (hgroup : ∀ i, ∀ ge ∈ e i, ge.group = g.group) (hne : g'.group ≠ g.group) : NoWaste g' v' := by
  have hle := remaining_le_of_put hsized hat hfits
  have hold : ∀ i, ∀ ge ∈ (v' i).groups, ge.group = g'.group → ge ∈ (v i).groups := by
    intro i ge hge heq
    rw [hat, put_groups, List.mem_append, Option.mem_toList] at hge
    rcases hge with hin | hnew
    · exact hin
    · exact absurd (heq.symm.trans (hgroup i ge hnew)) hne
  constructor
  · intro i j hij ge hge heq hjoin
    obtain ⟨h20, h8⟩ := h.plain i j hij ge (hold j ge hge heq) heq hjoin
    refine ⟨lt_of_le_of_lt (hle i) h20, fun hin => ?_⟩
    obtain ⟨ge', hge', heq'⟩ := hin
    exact lt_of_le_of_lt (hle i) (h8 ⟨ge', hold i ge' hge' heq', heq'⟩)
  · intro i j hij ge hge heq hjoin
    exact lt_of_le_of_lt (hle i) (h.shared i j hij ge (hold j ge hge heq) heq hjoin)

/-- The group that is placed. -/
theorem noWaste_self {k : Option ℕ} (hk : IsRptUb v g k) (hsized : ∀ i, Sized (v i))
    (hat : ∀ i, v' i = put (v i) (packEntry g (packRooms v g k) k i))
    (hnew : ∀ i, ∀ ge ∈ (v i).groups, ge.group ≠ g.group) : NoWaste g v' := by
  have hentry : ∀ i, ∀ ge ∈ (v' i).groups, ge.group = g.group →
      ge ∈ packEntry g (packRooms v g k) k i := by
    intro i ge hge heq
    rw [hat, put_groups, List.mem_append, Option.mem_toList] at hge
    rcases hge with hin | hin
    · exact absurd heq (hnew i ge hin)
    · exact hin
  constructor
  · intro i j hij ge hge heq hjoin
    obtain ⟨s, hs, hplain⟩ := hjoin
    have hslice := plain_join_slice (hentry j ge hge heq) hs hplain
    obtain ⟨h20, h8⟩ := packEntry_waste hk (hsized i) hij hslice
    rw [hat]
    refine ⟨h20, fun hin => ?_⟩
    obtain ⟨ge', hge', heq'⟩ := hin
    rw [← hat] at hge'
    exact h8 ge' (hentry i ge' hge' heq')
  · intro i j hij ge hge heq hjoin
    obtain ⟨s, hs, hshared⟩ := hjoin
    have hkj := shared_join_rpt (hentry j ge hge heq) hs hshared
    have hle := remaining_le_of_put hsized hat (packEntry_fits hk) i
    unfold IsRptUb at hk
    cases hrpt : g.rpt with
    | none =>
      simp only [hrpt] at hk
      rw [hk] at hkj
      cases hkj
    | some rpt =>
      simp only [hrpt] at hk
      obtain ⟨m, hm, _, hbefore⟩ := hk
      cases hkj.symm.trans hm
      have hlt := hbefore i hij
      rw [rptSz_eq, reserve_eq] at hlt
      rw [GroupConfig.prunes, hrpt]
      exact lt_of_le_of_lt hle hlt

end Place

structure WasteInv [DecidableEq A] (done : List (GroupConfig A)) (p : UpdatePacker A) : Prop where
  run : RunInv (fun _ _ _ => True) done p
  noWaste : ∀ g ∈ done, NoWaste g (ubAt p.ubq)

theorem WasteInv.place [DecidableEq A] {done : List (GroupConfig A)} {p : UpdatePacker A}
    (h : WasteInv done p) {g : GroupConfig A} (hnew : g.group ∉ done.map (·.group))
    (hlim : PruneLimit g) :
    ∃ p', Returns (fun fuel => fitGroup fuel p g) p' ∧ WasteInv (done ++ [g]) p' := by
  have hsized := h.run.ready.sized
  obtain ⟨p', k, hret, hready, hk, _, _, hlen, hat⟩ := fitGroup_spec h.run.ready hlim
  refine ⟨p', hret,
    h.run.place hnew hready hat hlen (fun i ge hge => packEntry_mem hge) trivial, ?_⟩
  intro g' hg'
  rcases List.mem_append.mp hg' with hin | hlast
  · have hne : g'.group ≠ g.group := fun heq => hnew (heq ▸ List.mem_map_of_mem hin)
    exact (h.noWaste g' hin).of_put hsized hat (packEntry_fits hk)
      (fun i ge hge => (packEntry_mem hge).1) hne
  · rw [List.mem_singleton.mp hlast]
    exact noWaste_self hk hsized hat fun i ge hge heq => hnew (heq ▸ h.run.only i ge hge)

theorem packGroups_waste [DecidableEq A] (groups : List (GroupConfig A))
    (hdist : (groups.map (·.group)).Nodup) (hlim : ∀ g ∈ groups, PruneLimit g) :
    ∃ p, Returns (fun fuel => groups.foldlM (fitGroup fuel) init) p ∧ WasteInv groups p := by
  refine foldlM_total fitGroup WasteInv groups ?_ init ⟨runInv_init, fun g hg => by cases hg⟩
  intro done g rest p hgroups hinv
  have hnew : g.group ∉ done.map (·.group) := group_new hgroups hdist
  exact hinv.place hnew (hlim g (by simp [hgroups]))

end UpdatePacker

/-! ### The updates of a configuration -/

section Pack

variable {A : Type}

open Lib UpdatePacker Params

/-- Bytes that an update leaves unused. -/
def Update.rem (u : Update A) : ℕ := JPCapacity - u.size

def Update.HasEntry (u : Update A) (g : A) : Prop := ∃ ge ∈ u.groups, ge.group = g

/-- First fit without waste. -/
structure FirstFit (cfg : JPConfig A) (us : List (Update A)) : Prop where
  fits : ∀ u ∈ us, u.size ≤ JPCapacity
  plain : ∀ g ∈ cfg.groups, ∀ (i j : ℕ) (ui uj : Update A), i < j →
    us[i]? = some ui → us[j]? = some uj →
    (∃ ge ∈ uj.groups, ge.group = g.group ∧ ∃ s ∈ ge.joins, s.plain = true) →
    (ui.HasEntry g.group → ui.rem < 8) ∧ (¬ ui.HasEntry g.group → ui.rem < 20)
  shared : ∀ g ∈ cfg.groups, ∀ (i j : ℕ) (ui uj : Update A), i < j →
    us[i]? = some ui → us[j]? = some uj →
    (∃ ge ∈ uj.groups, ge.group = g.group ∧ ∃ s ∈ ge.joins, s.shared = true) →
    ui.rem < 12 + 8 * (g.prunes.length + 1)

/-- The updates are the builders of the queue, in order. -/
theorem Ready.getElem?_build {p : UpdatePacker A} (h : Ready p) {i : ℕ} {u : Update A}
    (hu : p.build[i]? = some u) :
    u.groups = (ubAt p.ubq i).groups ∧ u.size ≤ JPCapacity ∧
      u.rem = (ubAt p.ubq i).remaining := by
  obtain ⟨n, hn, hbuild, _, _⟩ := h.build_eq
  rw [hbuild, List.getElem?_map, Option.map_eq_some_iff] at hu
  obtain ⟨ub, hub, rfl⟩ := hu
  obtain ⟨hi, hget⟩ := List.getElem?_eq_some_iff.mp hub
  rw [List.length_take] at hi
  rw [List.getElem_take] at hget
  have hat : ubAt p.ubq i = ub := by rw [ubAt_of_lt (by omega), hget]
  have hsized := h.sized i
  rw [hat] at hsized ⊢
  have hsize : ub.build.size = ub.sz := hsized.sz_eq.symm
  refine ⟨rfl, ?_, ?_⟩
  · rw [hsize]
    exact hsized.le_capacity
  · rw [Update.rem, hsize, hsized.remaining_eq]

theorem pack_first_fit [DecidableEq A] (cfg : JPConfig A) (hdist : cfg.DistinctGroups)
    (hlim : ∀ g ∈ cfg.groups, PruneLimit g) :
    ∃ us, Returns (fun fuel => pack fuel cfg) us ∧ FirstFit cfg us := by
  obtain ⟨p, hret, hinv⟩ := packGroups_waste cfg.groups hdist hlim
  refine ⟨p.build, hret.bind (Returns.of_eq fun _ => rfl), ?_, ?_, ?_⟩
  · intro u hu
    obtain ⟨i, hi⟩ := List.getElem?_of_mem hu
    exact (hinv.run.ready.getElem?_build hi).2.1
  · intro g hg i j ui uj hij hi hj hentry
    obtain ⟨hgi, _, hrem⟩ := hinv.run.ready.getElem?_build hi
    obtain ⟨hgj, _⟩ := hinv.run.ready.getElem?_build hj
    obtain ⟨ge, hge, heq, hjoin⟩ := hentry
    rw [hgj] at hge
    obtain ⟨h20, h8⟩ := (hinv.noWaste g hg).plain i j hij ge hge heq hjoin
    rw [hrem, Update.HasEntry, hgi]
    exact ⟨h8, fun _ => h20⟩
  · intro g hg i j ui uj hij hi hj hentry
    obtain ⟨_, _, hrem⟩ := hinv.run.ready.getElem?_build hi
    obtain ⟨hgj, _⟩ := hinv.run.ready.getElem?_build hj
    obtain ⟨ge, hge, heq, hjoin⟩ := hentry
    rw [hgj] at hge
    rw [hrem]
    exact (hinv.noWaste g hg).shared i j hij ge hge heq hjoin

theorem pack_first_fit_example : exampleConfig.DistinctGroups ∧
    ∃ us, Returns (fun fuel => pack fuel exampleConfig) us ∧ FirstFit exampleConfig us :=
  ⟨by decide, pack_first_fit exampleConfig (by decide) (by decide)⟩

end Pack

end Pimc
