import Pimc.Lib.SoftState
import Pimc.Pimsm.InverseLossless

/-!
# The Join/Prune state of the upstream neighbor

What the updates are for: the neighbor keeps a state for every source tree and
every shared tree that is joined, and for every source that is pruned from a
shared tree. A Join(*,G) ends the Prune(S,G,rpt) states of its group that the
same message does not repeat.
-/

namespace Pimc

open Lib

variable {A : Type}

/-- What the neighbor can keep a state for. -/
inductive JPKey (A : Type) where
  | sg (group source : A)
  | shared (group rp : A)
  | rptPrune (group source : A)
  deriving DecidableEq, Repr

/-! ### Sources by kind -/

theorem mem_joinsOf {es : List (GroupEntry A)} {s : Source A} :
    s ∈ joinsOf es ↔ ∃ ge ∈ es, s ∈ ge.joins := List.mem_flatMap

theorem mem_prunesOf {es : List (GroupEntry A)} {s : Source A} :
    s ∈ prunesOf es ↔ ∃ ge ∈ es, s ∈ ge.prunes := List.mem_flatMap

/-- The sources of one kind, known by their addresses. -/
theorem mem_of_addresses {f : A → Source A} {P : Source A → Bool} {xs : List (Source A)}
    {as : List A} (h : (xs.filter P).map (·.addr) = as) (hP : ∀ s, P s = true ↔ s = f s.addr)
    (hf : ∀ a, (f a).addr = a) (a : A) : f a ∈ xs ↔ a ∈ as := by
  have hself : P (f a) = true := (hP _).mpr (by rw [hf])
  rw [← h, List.mem_map]
  constructor
  · intro hin
    exact ⟨f a, List.mem_filter.mpr ⟨hin, hself⟩, hf a⟩
  · intro hin
    obtain ⟨s, hs, rfl⟩ := hin
    obtain ⟨hs, hPs⟩ := List.mem_filter.mp hs
    rw [← (hP s).mp hPs]
    exact hs

theorem plain_iff (s : Source A) : s.plain = true ↔ s = ⟨s.addr, false, false⟩ := by
  obtain ⟨addr, wildcard, rpt⟩ := s
  cases wildcard <;> cases rpt <;> simp [Source.plain]

theorem shared_iff (s : Source A) : s.shared = true ↔ s = ⟨s.addr, true, true⟩ := by
  obtain ⟨addr, wildcard, rpt⟩ := s
  cases wildcard <;> cases rpt <;> simp [Source.shared]

/-- The RP of a group, known by the (*,G) sources. -/
theorem mem_of_shared {xs : List (Source A)} {rpt : Option (RPT A)}
    (h : xs.filter (·.shared) = (rpt.map fun rpt => ⟨rpt.rp, true, true⟩).toList) (rp : A) :
    ⟨rp, true, true⟩ ∈ xs ↔ ∃ r ∈ rpt, r.rp = rp := by
  have hmap : (xs.filter (·.shared)).map (·.addr) = (rpt.map (·.rp)).toList := by
    rw [h]
    cases rpt <;> rfl
  rw [mem_of_addresses (f := fun a => ⟨a, true, true⟩) hmap shared_iff fun _ => rfl]
  simp

section Neighbor

variable [DecidableEq A]

/-- What an update does to a state of the neighbor. -/
def jpEffect (u : Update A) : JPKey A → Effect
  | .sg group source =>
    let entries := entriesOf group [u]
    if ⟨source, false, false⟩ ∈ prunesOf entries then .remove
    else if ⟨source, false, false⟩ ∈ joinsOf entries then .refresh
    else .keep
  | .shared group rp =>
    let entries := entriesOf group [u]
    if ⟨rp, true, true⟩ ∈ prunesOf entries then .remove
    else if ⟨rp, true, true⟩ ∈ joinsOf entries then .refresh
    else .keep
  | .rptPrune group source =>
    let entries := entriesOf group [u]
    if ⟨source, false, true⟩ ∈ prunesOf entries then .refresh
    else if (joinsOf entries).any (·.shared) || ⟨source, false, true⟩ ∈ joinsOf entries then .remove
    else .keep

/-- The states that a configuration asks the neighbor for. -/
def JPConfig.Asked (cfg : JPConfig A) : JPKey A → Prop
  | .sg group source => ∃ g ∈ cfg.groups, g.group = group ∧ source ∈ g.spt
  | .shared group rp => ∃ g ∈ cfg.groups, g.group = group ∧ ∃ rpt ∈ g.rpt, rpt.rp = rp
  | .rptPrune group source => ∃ g ∈ cfg.groups, g.group = group ∧ source ∈ g.prunes

/-! ### Entries of one update -/

theorem entriesOf_one {u : Update A} {a : A} {ge : GroupEntry A} :
    ge ∈ entriesOf a [u] ↔ ge ∈ u.groups ∧ ge.group = a := by
  simp [entriesOf]

theorem mem_entriesOf (us : List (Update A)) {a : A} {ge : GroupEntry A} :
    ge ∈ entriesOf a us ↔ ∃ u ∈ us, ge ∈ entriesOf a [u] := by
  simp [entriesOf]

section Over

variable {us : List (Update A)} {a : A} {s : Source A}

theorem mem_joins_iff :
    s ∈ joinsOf (entriesOf a us) ↔ ∃ u ∈ us, s ∈ joinsOf (entriesOf a [u]) := by
  simp only [mem_joinsOf, mem_entriesOf us]
  aesop

theorem mem_prunes_iff :
    s ∈ prunesOf (entriesOf a us) ↔ ∃ u ∈ us, s ∈ prunesOf (entriesOf a [u]) := by
  simp only [mem_prunesOf, mem_entriesOf us]
  aesop

end Over

/-! ### What the updates of a configuration convey -/

namespace Lossless

variable {cfg : JPConfig A} {us : List (Update A)} (h : Lossless cfg us)

include h

theorem group_of_entry {a : A} {ge : GroupEntry A} (hge : ge ∈ entriesOf a us) :
    ∃ g ∈ cfg.groups, g.group = a := by
  obtain ⟨u, hu, hin⟩ := (mem_entriesOf _).mp hge
  obtain ⟨hin, hgroup⟩ := entriesOf_one.mp hin
  obtain ⟨g, hg, heq⟩ := h.only u hu ge hin
  exact ⟨g, hg, heq.symm.trans hgroup⟩

theorem group_of_join {a : A} {s : Source A} (hs : s ∈ joinsOf (entriesOf a us)) :
    ∃ g ∈ cfg.groups, g.group = a := by
  obtain ⟨ge, hge, _⟩ := mem_joinsOf.mp hs
  exact h.group_of_entry hge

theorem group_of_prune {a : A} {s : Source A} (hs : s ∈ prunesOf (entriesOf a us)) :
    ∃ g ∈ cfg.groups, g.group = a := by
  obtain ⟨ge, hge, _⟩ := mem_prunesOf.mp hs
  exact h.group_of_entry hge

theorem join_sg_iff (a s : A) :
    ⟨s, false, false⟩ ∈ joinsOf (entriesOf a us) ↔ cfg.Asked (.sg a s) := by
  have hmem : ∀ g ∈ cfg.groups,
      (⟨s, false, false⟩ ∈ joinsOf (entriesOf g.group us) ↔ s ∈ g.spt) :=
    fun g hg => mem_of_addresses (f := fun a => ⟨a, false, false⟩) (h.plain_joins g hg) plain_iff
      (fun _ => rfl) s
  constructor
  · intro hs
    obtain ⟨g, hg, rfl⟩ := h.group_of_join hs
    exact ⟨g, hg, rfl, (hmem g hg).mp hs⟩
  · intro hasked
    obtain ⟨g, hg, rfl, hs⟩ := hasked
    exact (hmem g hg).mpr hs

theorem join_shared_iff (a rp : A) :
    ⟨rp, true, true⟩ ∈ joinsOf (entriesOf a us) ↔ cfg.Asked (.shared a rp) := by
  constructor
  · intro hs
    obtain ⟨g, hg, rfl⟩ := h.group_of_join hs
    exact ⟨g, hg, rfl, (mem_of_shared (h.shared_joins g hg) rp).mp hs⟩
  · intro hasked
    obtain ⟨g, hg, rfl, hrp⟩ := hasked
    exact (mem_of_shared (h.shared_joins g hg) rp).mpr hrp

theorem no_join_rpt (a s : A) : ⟨s, false, true⟩ ∉ joinsOf (entriesOf a us) := by
  intro hs
  obtain ⟨g, hg, rfl⟩ := h.group_of_join hs
  rcases h.joins_flags g hg _ hs with hplain | hshared
  · cases hplain
  · cases hshared

theorem prune_iff (a : A) (s : Source A) :
    s ∈ prunesOf (entriesOf a us) ↔ s = ⟨s.addr, false, true⟩ ∧ cfg.Asked (.rptPrune a s.addr) := by
  constructor
  · intro hs
    obtain ⟨g, hg, rfl⟩ := h.group_of_prune hs
    rw [h.prunes_eq g hg] at hs
    obtain ⟨b, hb, rfl⟩ := List.mem_map.mp hs
    exact ⟨rfl, g, hg, rfl, hb⟩
  · intro hasked
    obtain ⟨heq, g, hg, rfl, hb⟩ := hasked
    rw [h.prunes_eq g hg, heq]
    exact List.mem_map.mpr ⟨s.addr, hb, rfl⟩

/-- An update of `us` has only prunes of sources from shared trees. -/
theorem no_prune {u : Update A} (hu : u ∈ us) (a : A) {s : Source A}
    (hs : s ≠ ⟨s.addr, false, true⟩) : s ∉ prunesOf (entriesOf a [u]) :=
  fun hin => hs ((h.prune_iff a s).mp (mem_prunes_iff.mpr ⟨u, hu, hin⟩)).1

theorem effect_sg {u : Update A} (hu : u ∈ us) (a s : A) : jpEffect u (.sg a s) =
    if ⟨s, false, false⟩ ∈ joinsOf (entriesOf a [u]) then .refresh else .keep := by
  have hno := h.no_prune hu a (s := ⟨s, false, false⟩) (by simp)
  simp only [jpEffect, if_neg hno]

theorem effect_shared {u : Update A} (hu : u ∈ us) (a rp : A) : jpEffect u (.shared a rp) =
    if ⟨rp, true, true⟩ ∈ joinsOf (entriesOf a [u]) then .refresh else .keep := by
  have hno := h.no_prune hu a (s := ⟨rp, true, true⟩) (by simp)
  simp only [jpEffect, if_neg hno]

/-- What is asked for is refreshed by some update, and nothing else is refreshed. -/
theorem refreshed_iff (k : JPKey A) : (∃ u ∈ us, jpEffect u k = .refresh) ↔ cfg.Asked k := by
  cases k with
  | sg a s =>
    rw [← h.join_sg_iff, mem_joins_iff]
    refine exists_congr fun u => and_congr_right fun hu => ?_
    rw [h.effect_sg hu]
    split_ifs with hin
    · exact iff_of_true rfl hin
    · exact iff_of_false (by simp) hin
  | shared a rp =>
    rw [← h.join_shared_iff, mem_joins_iff]
    refine exists_congr fun u => and_congr_right fun hu => ?_
    rw [h.effect_shared hu]
    split_ifs with hin
    · exact iff_of_true rfl hin
    · exact iff_of_false (by simp) hin
  | rptPrune a s =>
    have hprune := h.prune_iff a ⟨s, false, true⟩
    simp only [true_and] at hprune
    rw [← hprune, mem_prunes_iff]
    refine exists_congr fun u => and_congr_right fun hu => ?_
    simp only [jpEffect]
    split_ifs with hin
    · exact iff_of_true rfl hin
    · exact iff_of_false (by simp) hin
    · exact iff_of_false (by simp) hin

end Lossless

/-- Updates that refresh what a configuration asks for, end no part of it, and end the prunes from
its shared trees that it does not ask for. -/
structure Conveys (cfg : JPConfig A) (us : List (Update A)) : Prop where
  refreshed : ∀ k, cfg.Asked k → ∃ u ∈ us, jpEffect u k = .refresh
  kept : ∀ k, cfg.Asked k → ∀ u ∈ us, jpEffect u k ≠ .remove
  only : ∀ k, ¬cfg.Asked k → ∀ u ∈ us, jpEffect u k ≠ .refresh
  ended : ∀ a rp s, cfg.Asked (.shared a rp) → ¬cfg.Asked (.rptPrune a s) →
    ∃ u ∈ us, jpEffect u (.rptPrune a s) = .remove

/-- The message with the join of a shared tree has all the prunes of its group. -/
theorem prunes_beside_join {us : List (Update A)} {g : GroupConfig A}
    {rpt : RPT A} (hone : ∃ pre ge post, entriesOf g.group us = pre ++ ge :: post ∧
      UpdatePacker.rpSource rpt.rp ∈ ge.joins ∧
      ge.prunes = rpt.prunes.map UpdatePacker.rptSource ∧
      ∀ ge' ∈ pre ++ post, UpdatePacker.Placed.PlainEntry ge')
    {u : Update A} (hu : u ∈ us) (hjoin : (joinsOf (entriesOf g.group [u])).any (·.shared) = true)
    {s : A} (hs : s ∈ rpt.prunes) : ⟨s, false, true⟩ ∈ prunesOf (entriesOf g.group [u]) := by
  obtain ⟨pre, ge, post, hsplit, _, hprunes, hplain⟩ := hone
  obtain ⟨j, hj, hshared⟩ := List.any_eq_true.mp hjoin
  obtain ⟨ge', hge', hj⟩ := mem_joinsOf.mp hj
  have hin : ge' ∈ pre ++ ge :: post := hsplit ▸ (mem_entriesOf _).mpr ⟨u, hu, hge'⟩
  have heq : ge' = ge := by
    by_contra hne
    have hother : ge' ∈ pre ++ post := by
      simp only [List.mem_append, List.mem_cons] at hin ⊢
      tauto
    have hflag := (hplain ge' hother).2 j hj
    rw [plain_iff] at hflag
    rw [hflag] at hshared
    cases hshared
  rw [heq] at hge'
  refine mem_prunesOf.mpr ⟨ge, hge', ?_⟩
  rw [hprunes]
  exact List.mem_map_of_mem hs

theorem pack_conveys (cfg : JPConfig A) (hdist : cfg.DistinctGroups)
    (hlim : ∀ g ∈ cfg.groups, UpdatePacker.PruneLimit g) :
    ∃ us, Returns (fun fuel => pack fuel cfg) us ∧ Conveys cfg us := by
  obtain ⟨p, hret, hinv⟩ := pack_placed cfg hdist hlim
  have hus := lossless_build hinv
  refine ⟨p.build, hret, fun k => (hus.refreshed_iff k).mpr, ?_, ?_, ?_⟩
  · intro k hk u hu
    cases k with
    | sg a s =>
      rw [hus.effect_sg hu]
      split_ifs <;> simp
    | shared a rp =>
      rw [hus.effect_shared hu]
      split_ifs <;> simp
    | rptPrune a s =>
      obtain ⟨g, hg, rfl, hs⟩ := hk
      have hnone : ⟨s, false, true⟩ ∉ joinsOf (entriesOf g.group [u]) :=
        fun hin => hus.no_join_rpt g.group s (mem_joins_iff.mpr ⟨u, hu, hin⟩)
      cases hrpt : g.rpt with
      | none => simp [GroupConfig.prunes, hrpt] at hs
      | some rpt =>
        have hs' : s ∈ rpt.prunes := by simpa [GroupConfig.prunes, hrpt] using hs
        have hbeside := prunes_beside_join ((hinv.placed_build hg).rpt_in_one hrpt) hu
        simp only [jpEffect]
        split_ifs with hprune hjoin
        · simp
        · rw [decide_eq_false hnone, Bool.or_false] at hjoin
          exact absurd (hbeside hjoin hs') hprune
        · simp
  · intro k hk u hu heff
    exact hk ((hus.refreshed_iff k).mp ⟨u, hu, heff⟩)
  · intro a rp s hshared hno
    obtain ⟨u, hu, hin⟩ := mem_joins_iff.mp ((hus.join_shared_iff a rp).mpr hshared)
    refine ⟨u, hu, ?_⟩
    have hprune : ⟨s, false, true⟩ ∉ prunesOf (entriesOf a [u]) := fun hin =>
      hno ((hus.prune_iff a ⟨s, false, true⟩).mp (mem_prunes_iff.mpr ⟨u, hu, hin⟩)).2
    have hjoin : (joinsOf (entriesOf a [u])).any (·.shared) = true :=
      List.any_eq_true.mpr ⟨_, hin, rfl⟩
    simp only [jpEffect, if_neg hprune, hjoin, Bool.true_or, if_true]

/-! ### What the inverse updates convey -/

/-- Updates that refresh nothing and end every source tree that a configuration asks for. -/
structure Withdraws (cfg : JPConfig A) (us : List (Update A)) : Prop where
  no_refresh : ∀ k, ∀ u ∈ us, jpEffect u k ≠ .refresh
  source_trees : ∀ a s, cfg.Asked (.sg a s) → ∃ u ∈ us, jpEffect u (.sg a s) = .remove

theorem inverse_no_refresh {cfg : JPConfig A} {p : UpdatePacker A}
    (h : InverseUpdatePacker.InverseInv cfg.groups p) (k : JPKey A) :
    ∀ u ∈ p.build, jpEffect u k ≠ .refresh := by
  intro u hu
  have hjoins : ∀ a, joinsOf (entriesOf a [u]) = [] := by
    intro a
    rw [joinsOf, List.flatMap_eq_nil_iff]
    intro ge hge
    exact inverse_no_joins h u hu ge (entriesOf_one.mp hge).1
  cases k with
  | sg a s =>
    simp only [jpEffect, hjoins]
    split_ifs <;> simp_all
  | shared a rp =>
    simp only [jpEffect, hjoins]
    split_ifs <;> simp_all
  | rptPrune a s =>
    have hprune : ⟨s, false, true⟩ ∉ prunesOf (entriesOf a [u]) := by
      intro hin
      obtain ⟨ge, hge, _⟩ := mem_prunesOf.mp hin
      obtain ⟨hge, hgroup⟩ := entriesOf_one.mp hge
      obtain ⟨g, hg, heq⟩ := h.run.only_build hu hge
      obtain ⟨pre, post, hsplit⟩ := List.append_of_mem hg
      obtain ⟨lost, _, hprunes⟩ := h.prunesOf_build hsplit
      have hall : ⟨s, false, true⟩ ∈ prunesOf (entriesOf g.group p.build) := by
        rw [heq.symm.trans hgroup]
        exact mem_prunes_iff.mpr ⟨u, hu, hin⟩
      rw [hprunes] at hall
      rcases InverseUpdatePacker.flags_inverseItems g lost _ hall with hplain | hshared
      · cases hplain
      · cases hshared
    simp only [jpEffect, if_neg hprune, hjoins]
    split_ifs <;> simp_all

theorem removed_sg_iff {us : List (Update A)} (a s : A) :
    (∃ u ∈ us, jpEffect u (.sg a s) = .remove) ↔
      ⟨s, false, false⟩ ∈ prunesOf (entriesOf a us) := by
  rw [mem_prunes_iff]
  refine exists_congr fun u => and_congr_right fun _ => ?_
  simp only [jpEffect]
  split_ifs <;> simp_all

theorem removed_shared_iff {us : List (Update A)} (a rp : A) :
    (∃ u ∈ us, jpEffect u (.shared a rp) = .remove) ↔
      ⟨rp, true, true⟩ ∈ prunesOf (entriesOf a us) := by
  rw [mem_prunes_iff]
  refine exists_congr fun u => and_congr_right fun _ => ?_
  simp only [jpEffect]
  split_ifs <;> simp_all

/-- The inverse updates end the shared trees as well if no RP is lost on the way. -/
theorem inversePack_withdraws (cfg : JPConfig A) (hdist : cfg.DistinctGroups) :
    ∃ us, Returns (fun fuel => inversePack fuel cfg) us ∧ Withdraws cfg us ∧
      (InverseUpdatePacker.NoLoss cfg.groups ↔
        ∀ a rp, cfg.Asked (.shared a rp) → ∃ u ∈ us, jpEffect u (.shared a rp) = .remove) := by
  obtain ⟨p, hret, hinv⟩ := inversePack_placed cfg hdist
  refine ⟨p.build, hret, ⟨inverse_no_refresh hinv, ?_⟩, ?_, ?_⟩
  · intro a s hasked
    obtain ⟨g, hg, rfl, hs⟩ := hasked
    obtain ⟨pre, post, hsplit⟩ := List.append_of_mem hg
    obtain ⟨lost, _, hprunes⟩ := hinv.prunesOf_build hsplit
    rw [removed_sg_iff, hprunes, mem_of_addresses (f := fun a => ⟨a, false, false⟩)
      (InverseUpdatePacker.plain_inverseItems g lost) plain_iff fun _ => rfl]
    exact hs
  · intro hno a rp hasked
    obtain ⟨g, hg, rfl, hrp⟩ := hasked
    have hlossless := (inverse_lossless_iff hinv).mpr hno
    rw [removed_shared_iff, mem_of_shared (hlossless.shared_prunes g hg)]
    exact hrp
  · intro hall
    by_contra hno
    obtain ⟨pre, g, post, hsplit, hpre, hloses⟩ :=
      InverseUpdatePacker.exists_first_loss hno
    obtain ⟨lost, hlost, hprunes⟩ := hinv.prunesOf_build hsplit
    obtain ⟨rpt, hrpt⟩ := Option.isSome_iff_exists.mp hloses.1
    have hg : g ∈ cfg.groups := by
      rw [hsplit]
      simp
    have hin := (removed_shared_iff _ _).mp (hall g.group rpt.rp ⟨g, hg, rfl, rpt, hrpt, rfl⟩)
    have hshared := InverseUpdatePacker.shared_inverseItems g lost
    rw [if_pos ((hlost hpre).mpr hloses)] at hshared
    rw [hprunes] at hin
    have hmem := List.mem_filter.mpr ⟨hin, (rfl : (⟨rpt.rp, true, true⟩ : Source A).shared = true)⟩
    rw [hshared] at hmem
    cases hmem

end Neighbor

end Pimc
