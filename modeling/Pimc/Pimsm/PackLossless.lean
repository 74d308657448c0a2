import Pimc.Net.IPv4Address
import Pimc.Pimsm.PackFit
import Pimc.Pimsm.Run

/-!
# Packing is lossless

`Placed g es` says what the packer made of group `g`: the entries `es` are its
slices over the queue, with the RPT in one of them. Everything that the updates
say about the group follows from it.
-/

namespace Pimc

namespace UpdatePacker

open Lib Params

variable {A : Type}

/-- The entries of a group over the first `n` builders. -/
def Placed (g : GroupConfig A) (es : List (GroupEntry A)) : Prop :=
  ∃ rooms k n, (k.isSome = g.rpt.isSome) ∧ (∀ i ∈ k, i < n) ∧
    g.spt.length ≤ taken rooms n ∧ es = (List.range n).filterMap (packEntry g rooms k)

theorem packEntry_mem {g : GroupConfig A} {rooms : ℕ → ℕ} {k : Option ℕ} {i : ℕ}
    {ge : GroupEntry A} (h : ge ∈ packEntry g rooms k i) :
    ge.group = g.group ∧ (ge.joins ≠ [] ∨ ge.prunes ≠ []) := by
  unfold packEntry at h
  split at h
  · cases h
    exact ⟨rfl, Or.inl (by simp)⟩
  · split at h
    · cases h
    · rename_i hs
      cases h
      exact ⟨rfl, Or.inl (by simpa using hs)⟩

theorem IsRptUb.isSome_eq {v : ℕ → UpdateBuilderImpl A} {g : GroupConfig A} {k : Option ℕ}
    (h : IsRptUb v g k) : k.isSome = g.rpt.isSome := by
  unfold IsRptUb at h
  cases hrpt : g.rpt with
  | none =>
    simp only [hrpt] at h
    rw [h]
    rfl
  | some rpt =>
    simp only [hrpt] at h
    obtain ⟨i, hi, _⟩ := h
    rw [hi]
    rfl

/-- Packing returns, whatever was packed before. -/
theorem packGroups_spec [DecidableEq A] (groups : List (GroupConfig A))
    (hdist : (groups.map (·.group)).Nodup) (hlim : ∀ g ∈ groups, PruneLimit g) :
    ∃ p, Returns (fun fuel => groups.foldlM (fitGroup fuel) init) p ∧
      RunInv (fun _ => Placed) groups p := by
  refine foldlM_total fitGroup (RunInv fun _ => Placed) groups ?_ init runInv_init
  intro done g rest p hgroups hinv
  obtain ⟨p', k, hret, hready, hk, hkl, htaken, hlen, hat⟩ :=
    fitGroup_spec hinv.ready (hlim g (by simp [hgroups]))
  have hnew : g.group ∉ done.map (·.group) := group_new hgroups hdist
  exact ⟨p', hret, hinv.place hnew hready hat hlen (fun i ge hge => packEntry_mem hge)
    ⟨packRooms (ubAt p.ubq) g k, k, p'.ubq.length, hk.isSome_eq, hkl, htaken, rfl⟩⟩

/-! ### What the entries of a group say -/

theorem flatMap_range_single {β : Type} {k n : ℕ} (h : k < n) (xs : List β) :
    ((List.range n).flatMap fun i => if k = i then xs else []) = xs := by
  obtain ⟨m, rfl⟩ := Nat.exists_eq_add_of_lt h
  have hbefore : ((List.range k).flatMap fun i => if k = i then xs else []) = [] := by
    rw [List.flatMap_eq_nil_iff]
    intro i hi
    rw [if_neg (List.mem_range.mp hi).ne']
  rw [show k + m + 1 = k + (m + 1) from rfl, List.range_add, List.flatMap_append, hbefore,
    List.range_succ_eq_map, List.map_cons, List.flatMap_cons, List.map_map, List.flatMap_map]
  simp

namespace Placed

variable {g : GroupConfig A} {es : List (GroupEntry A)}

-- A function of the sources of one entry, over all entries of the group.
theorem flatMap_eq {β : Type} {rooms : ℕ → ℕ} {k : Option ℕ} {n : ℕ}
    (f : GroupEntry A → List β) (part : ℕ → List β)
    (hpart : ∀ i, (packEntry g rooms k i).toList.flatMap f = part i)
    (hes : es = (List.range n).filterMap (packEntry g rooms k)) :
    es.flatMap f = (List.range n).flatMap part := by
  rw [hes, flatMap_filterMap]
  exact List.flatMap_congr fun i _ => hpart i

theorem entry_cases (rooms : ℕ → ℕ) {k : Option ℕ} (hk : k.isSome = g.rpt.isSome) (i : ℕ) :
    (∃ rpt, k = some i ∧ g.rpt = some rpt ∧ packEntry g rooms k i =
      some ⟨g.group, (slice rooms g.spt i).map sgSource ++ [rpSource rpt.rp],
        rpt.prunes.map rptSource⟩) ∨
    (k ≠ some i ∧ packEntry g rooms k i =
      if slice rooms g.spt i = [] then none
      else some ⟨g.group, (slice rooms g.spt i).map sgSource, []⟩) := by
  by_cases hki : k = some i
  · rw [hki] at hk
    obtain ⟨rpt, hrpt⟩ := Option.isSome_iff_exists.mp (hk.symm.trans rfl)
    exact Or.inl ⟨rpt, hki, hrpt, by rw [hki, packEntry_eq hrpt]⟩
  · exact Or.inr ⟨hki, packEntry_of_ne hki⟩

theorem plain_joins (h : Placed g es) :
    ((joinsOf es).filter (·.plain)).map (·.addr) = g.spt := by
  obtain ⟨rooms, k, n, hk, _, htaken, hes⟩ := h
  have hpart : ∀ i, (packEntry g rooms k i).toList.flatMap
      (fun ge => (ge.joins.filter (·.plain)).map (·.addr)) = slice rooms g.spt i := by
    intro i
    rcases entry_cases rooms hk i with ⟨rpt, _, _, heq⟩ | ⟨_, heq⟩
    · rw [heq]
      simp only [Option.toList_some, List.flatMap_singleton, List.filter_append,
        filter_plain_sgSource, List.map_append, map_addr_sgSource]
      exact List.append_nil _
    · rw [heq]
      split_ifs with hs
      · rw [hs]
        rfl
      · simp only [Option.toList_some, List.flatMap_singleton, filter_plain_sgSource,
          map_addr_sgSource]
  have hflat := flatMap_eq _ _ hpart hes
  rw [flatMap_slice_of_le htaken] at hflat
  rw [← hflat, joinsOf, List.filter_flatMap, List.map_flatMap]

theorem shared_joins (h : Placed g es) :
    (joinsOf es).filter (·.shared) = (g.rpt.map fun rpt => rpSource rpt.rp).toList := by
  obtain ⟨rooms, k, n, hk, hkn, _, hes⟩ := h
  have hpart : ∀ i, (packEntry g rooms k i).toList.flatMap
      (fun ge => ge.joins.filter (·.shared)) =
      if k = some i then (g.rpt.map fun rpt => rpSource rpt.rp).toList else [] := by
    intro i
    rcases entry_cases rooms hk i with ⟨rpt, hki, hrpt, heq⟩ | ⟨hki, heq⟩
    · rw [heq, if_pos hki, hrpt]
      simp only [Option.toList_some, List.flatMap_singleton, List.filter_append,
        filter_shared_sgSource, Option.map_some]
      rfl
    · rw [heq, if_neg hki]
      split_ifs with hs
      · rfl
      · simp only [Option.toList_some, List.flatMap_singleton, filter_shared_sgSource]
  have hflat := flatMap_eq _ _ hpart hes
  rw [joinsOf, List.filter_flatMap, hflat]
  cases k with
  | none =>
    have hnone : g.rpt = none := by simpa using hk.symm
    rw [hnone]
    simp
  | some j =>
    simp only [Option.some.injEq]
    exact flatMap_range_single (hkn j rfl) _

theorem joins_flags (h : Placed g es) : ∀ s ∈ joinsOf es, s.plain = true ∨ s.shared = true := by
  obtain ⟨rooms, k, n, hk, _, _, hes⟩ := h
  intro s hs
  obtain ⟨ge, hge, hin⟩ := List.mem_flatMap.mp hs
  rw [hes] at hge
  obtain ⟨i, _, hi⟩ := List.mem_filterMap.mp hge
  have hsg : ∀ xs : List A, s ∈ xs.map sgSource → s.plain = true := by
    intro xs hmem
    obtain ⟨a, _, rfl⟩ := List.mem_map.mp hmem
    rfl
  rcases entry_cases rooms hk i with ⟨rpt, _, _, heq⟩ | ⟨_, heq⟩
  · rw [heq] at hi
    cases hi
    rcases List.mem_append.mp hin with hmem | hmem
    · exact Or.inl (hsg _ hmem)
    · rw [List.mem_singleton.mp hmem]
      exact Or.inr rfl
  · rw [heq] at hi
    split_ifs at hi with hsl
    cases hi
    exact Or.inl (hsg _ hin)

theorem prunes_eq (h : Placed g es) : prunesOf es = g.prunes.map rptSource := by
  obtain ⟨rooms, k, n, hk, hkn, _, hes⟩ := h
  have hpart : ∀ i, (packEntry g rooms k i).toList.flatMap (·.prunes) =
      if k = some i then g.prunes.map rptSource else [] := by
    intro i
    rcases entry_cases rooms hk i with ⟨rpt, hki, hrpt, heq⟩ | ⟨hki, heq⟩
    · rw [heq, if_pos hki, GroupConfig.prunes, hrpt]
      simp
    · rw [heq, if_neg hki]
      split_ifs <;> rfl
  have hflat := flatMap_eq _ _ hpart hes
  rw [prunesOf, hflat]
  cases k with
  | none =>
    have hnone : g.rpt = none := by simpa using hk.symm
    rw [GroupConfig.prunes, hnone]
    simp
  | some j =>
    simp only [Option.some.injEq]
    exact flatMap_range_single (hkn j rfl) _

-- An entry that carries no part of the shared tree.
def PlainEntry (ge : GroupEntry A) : Prop :=
  ge.prunes = [] ∧ ∀ s ∈ ge.joins, s.plain = true

theorem plainEntry_of_ne {rooms : ℕ → ℕ} {k : Option ℕ} {i : ℕ} (hki : k ≠ some i)
    {ge : GroupEntry A} (h : ge ∈ packEntry g rooms k i) : PlainEntry ge := by
  rw [packEntry_of_ne hki] at h
  split_ifs at h with hs
  · cases h
  · cases h
    refine ⟨rfl, fun s hs => ?_⟩
    obtain ⟨a, _, rfl⟩ := List.mem_map.mp hs
    rfl

/-- The RPT is in one entry, between entries that know nothing of it. -/
theorem rpt_in_one (h : Placed g es) {rpt : RPT A} (hrpt : g.rpt = some rpt) :
    ∃ pre ge post, es = pre ++ ge :: post ∧ rpSource rpt.rp ∈ ge.joins ∧
      ge.prunes = rpt.prunes.map rptSource ∧ ∀ ge' ∈ pre ++ post, PlainEntry ge' := by
  obtain ⟨rooms, k, n, hk, hkn, _, hes⟩ := h
  rw [hrpt] at hk
  obtain ⟨j, rfl⟩ := Option.isSome_iff_exists.mp hk
  obtain ⟨m, rfl⟩ := Nat.exists_eq_add_of_lt (hkn j rfl)
  have hsplit : List.range (j + m + 1) =
      List.range j ++ j :: (List.range m).map (fun i => j + (i + 1)) := by
    rw [show j + m + 1 = j + (m + 1) from rfl, List.range_add, List.range_succ_eq_map,
      List.map_cons, List.map_map]
    rfl
  have hother : ∀ l : List ℕ, j ∉ l →
      ∀ ge ∈ l.filterMap (packEntry g rooms (some j)), PlainEntry ge := by
    intro l hj ge hge
    obtain ⟨i, hi, hin⟩ := List.mem_filterMap.mp hge
    have hne : some j ≠ some i := by
      intro he
      rw [Option.some.inj he] at hj
      exact hj hi
    exact plainEntry_of_ne hne hin
  let entries : List ℕ → List (GroupEntry A) := List.filterMap (packEntry g rooms (some j))
  refine ⟨entries (List.range j), ⟨g.group, (slice rooms g.spt j).map sgSource ++
    [rpSource rpt.rp], rpt.prunes.map rptSource⟩,
    entries ((List.range m).map fun i => j + (i + 1)), ?_, ?_, rfl, ?_⟩
  · rw [hes, hsplit, List.filterMap_append, List.filterMap_cons_some (packEntry_eq hrpt rooms j)]
  · simp
  · intro ge hge
    rcases List.mem_append.mp hge with hpre | hpost
    · exact hother _ (by simp) ge hpre
    · exact hother _ (by simp) ge hpost

end Placed

end UpdatePacker

/-! ### The updates of a configuration -/

section Pack

variable {A : Type} [DecidableEq A]

open Lib UpdatePacker

/-- The updates carry the Join/Prune state of the configuration and nothing else. -/
structure Lossless (cfg : JPConfig A) (us : List (Update A)) : Prop where
  plain_joins : ∀ g ∈ cfg.groups,
    ((joinsOf (entriesOf g.group us)).filter (·.plain)).map (·.addr) = g.spt
  shared_joins : ∀ g ∈ cfg.groups, (joinsOf (entriesOf g.group us)).filter (·.shared) =
    (g.rpt.map fun rpt => ⟨rpt.rp, true, true⟩).toList
  joins_flags : ∀ g ∈ cfg.groups, ∀ s ∈ joinsOf (entriesOf g.group us),
    s.plain = true ∨ s.shared = true
  prunes_eq : ∀ g ∈ cfg.groups,
    prunesOf (entriesOf g.group us) = g.prunes.map fun a => ⟨a, false, true⟩
  only : ∀ u ∈ us, ∀ ge ∈ u.groups, ∃ g ∈ cfg.groups, ge.group = g.group

theorem pack_placed (cfg : JPConfig A) (hdist : cfg.DistinctGroups)
    (hlim : ∀ g ∈ cfg.groups, PruneLimit g) :
    ∃ p, Returns (fun fuel => pack fuel cfg) p.build ∧ RunInv (fun _ => Placed) cfg.groups p := by
  obtain ⟨p, hret, hinv⟩ := packGroups_spec cfg.groups hdist hlim
  exact ⟨p, hret.bind (Returns.of_eq fun _ => rfl), hinv⟩

theorem RunInv.placed_build {Placed : GroupConfig A → List (GroupEntry A) → Prop}
    {groups : List (GroupConfig A)} {p : UpdatePacker A} (h : RunInv (fun _ => Placed) groups p)
    {g : GroupConfig A} (hg : g ∈ groups) : Placed g (entriesOf g.group p.build) := by
  obtain ⟨pre, post, hsplit⟩ := List.append_of_mem hg
  rw [h.ready.entriesOf_build]
  exact h.placed pre g post hsplit

theorem RunInv.only_build {Placed : List (GroupConfig A) → GroupConfig A → List (GroupEntry A) → Prop}
    {groups : List (GroupConfig A)} {p : UpdatePacker A} (h : RunInv Placed groups p)
    {u : Update A} (hu : u ∈ p.build) {ge : GroupEntry A} (hge : ge ∈ u.groups) :
    ∃ g ∈ groups, ge.group = g.group := by
  obtain ⟨i, hi, _⟩ := h.ready.mem_build hu
  rw [hi] at hge
  obtain ⟨g, hg, heq⟩ := List.mem_map.mp (h.only i ge hge)
  exact ⟨g, hg, heq.symm⟩

theorem lossless_build {cfg : JPConfig A} {p : UpdatePacker A}
    (h : RunInv (fun _ => Placed) cfg.groups p) : Lossless cfg p.build where
  plain_joins _ hg := (h.placed_build hg).plain_joins
  shared_joins _ hg := (h.placed_build hg).shared_joins
  joins_flags _ hg := (h.placed_build hg).joins_flags
  prunes_eq _ hg := (h.placed_build hg).prunes_eq
  only _ hu _ hge := h.only_build hu hge

/-- Packing is lossless. -/
theorem pack_lossless (cfg : JPConfig A) (hdist : cfg.DistinctGroups)
    (hlim : ∀ g ∈ cfg.groups, PruneLimit g) :
    ∃ us, Returns (fun fuel => pack fuel cfg) us ∧ Lossless cfg us := by
  obtain ⟨p, hret, hinv⟩ := pack_placed cfg hdist hlim
  exact ⟨p.build, hret, lossless_build hinv⟩

-- Two groups, the second with an RPT that does not fit behind the first.
def exampleConfig : JPConfig IPv4Address where
  groups := [⟨.ofOctets 239 1 1 1, none, (List.range 179).map fun i => ⟨BitVec.ofNat 32 (i + 1)⟩⟩,
    ⟨.ofOctets 239 1 1 2, some ⟨.ofOctets 10 0 0 1, [.ofOctets 10 0 0 2, .ofOctets 10 0 0 3]⟩,
      [.ofOctets 10 0 0 4]⟩]

theorem pack_lossless_example : exampleConfig.DistinctGroups ∧
    ∃ us, Returns (fun fuel => pack fuel exampleConfig) us ∧ Lossless exampleConfig us :=
  ⟨by decide, pack_lossless exampleConfig (by decide) (by decide)⟩

/-- The shared-tree state of a group is never split over messages. -/
theorem pack_rpt_in_one (cfg : JPConfig A) (hdist : cfg.DistinctGroups)
    (hlim : ∀ g ∈ cfg.groups, PruneLimit g) :
    ∃ us, Returns (fun fuel => pack fuel cfg) us ∧
      ∀ g ∈ cfg.groups, ∀ rpt ∈ g.rpt,
        ∃ pre ge post, entriesOf g.group us = pre ++ ge :: post ∧
          ⟨rpt.rp, true, true⟩ ∈ ge.joins ∧
          ge.prunes = (rpt.prunes.map fun a => ⟨a, false, true⟩) ∧
          ∀ ge' ∈ pre ++ post, ge'.prunes = [] ∧ ∀ s ∈ ge'.joins, s.plain = true := by
  obtain ⟨p, hret, hinv⟩ := pack_placed cfg hdist hlim
  exact ⟨p.build, hret, fun g hg rpt hrpt => (hinv.placed_build hg).rpt_in_one hrpt⟩

theorem pack_rpt_in_one_example : exampleConfig.DistinctGroups ∧
    ∃ us, Returns (fun fuel => pack fuel exampleConfig) us ∧
      ∀ g ∈ exampleConfig.groups, ∀ rpt ∈ g.rpt,
        ∃ pre ge post, entriesOf g.group us = pre ++ ge :: post ∧
          ⟨rpt.rp, true, true⟩ ∈ ge.joins ∧
          ge.prunes = (rpt.prunes.map fun a => ⟨a, false, true⟩) ∧
          ∀ ge' ∈ pre ++ post, ge'.prunes = [] ∧ ∀ s ∈ ge'.joins, s.plain = true :=
  ⟨by decide, pack_rpt_in_one exampleConfig (by decide) (by decide)⟩

end Pack

end Pimc
