import Pimc.TestGen.InversePackAgrees
import Pimc.TestGen.PackSimulation

/-!
# Inverse packing and its reference

The reference scans the updates from the first one for every group. It puts
`inverseEntry` of all prunes into each of them, so its updates withdraw the
whole configuration. The packer returns the same updates unless it loses an RP.
-/

namespace Pimc.TestGen

open Lib Params UpdatePacker InverseUpdatePacker

variable {A : Type}

namespace InversePackBuilder

/-! ### Placing a group -/

section Place

variable [LinearOrder A] [ToString A]

/-- Where the loop stands: the updates before `i` have their entries, the others are as they were. -/
structure PlaceInv (us : List (InverseUpdate A)) (g : GroupConfig A) (s : PlaceLoop A) : Prop where
  queue : Queue s.updates
  le_length : s.i ≤ s.updates.length
  length_le : us.length ≤ s.updates.length
  behind : ∀ j < s.i, (ubAt (packer s.updates).ubq j).groups ≠ []
  before : ∀ j < s.i, ubAt (packer s.updates).ubq j = put (ubAt (packer us).ubq j)
    (inverseEntry g (inverseItems g false) (inverseRooms (ubAt (packer us).ubq)) j)
  after : ∀ j, s.i ≤ j → ubAt (packer s.updates).ubq j = ubAt (packer us).ubq j
  addr : s.g.addr = g.group
  sorted : s.g.prunedSources.SortedLT
  items : s.g.items =
    (inverseItems g false).drop (taken (inverseRooms (ubAt (packer us).ubq)) s.i)
  done_iff : s.done = true ↔
    (inverseItems g false).length ≤ taken (inverseRooms (ubAt (packer us).ubq)) s.i

variable {us : List (InverseUpdate A)} {g : GroupConfig A} {s : PlaceLoop A}

omit [ToString A] in
theorem PlaceInv.taken_lt (h : PlaceInv us g s) (hg : s.done = false) :
    taken (inverseRooms (ubAt (packer us).ubq)) s.i < (inverseItems g false).length := by
  by_contra hge
  rw [h.done_iff.mpr (Nat.le_of_not_lt hge)] at hg
  cases hg

omit [ToString A] in
/-- The update that the generator yields. -/
theorem PlaceInv.current (h : PlaceInv us g s) : Queue (uq s.updates s.i) ∧
    (uq s.updates s.i).length = max s.updates.length (s.i + 1) ∧
    ((uq s.updates s.i).getD s.i .init).toBuilder = ubAt (packer us).ubq s.i := by
  refine ⟨h.queue.uq h.le_length h.behind, Queue.length_uq _ h.le_length, ?_⟩
  rw [← ubAt_packer, Queue.ubAt_uq, h.after s.i le_rfl]

omit [ToString A] in
/-- The loop goes on with the entry of update `i` in place. -/
theorem PlaceInv.move (h : PlaceInv us g s) {us' : List (InverseUpdate A)} {b : InverseGroup A}
    (hqueue : Queue us') (hlen : us'.length = max s.updates.length (s.i + 1))
    (hat : ∀ j, ubAt (packer us').ubq j = put (ubAt (packer s.updates).ubq j)
      (if j = s.i then inverseEntry g (inverseItems g false)
        (inverseRooms (ubAt (packer us).ubq)) s.i else none))
    (hne : (ubAt (packer us').ubq s.i).groups ≠ [])
    (haddr : b.addr = g.group) (hsorted : b.prunedSources.SortedLT)
    (hitems : b.items =
      (inverseItems g false).drop (taken (inverseRooms (ubAt (packer us).ubq)) (s.i + 1))) :
    PlaceInv us g ⟨us', s.i + 1, b, !b.hasPrunedSources⟩ := by
  obtain ⟨hbefore, hafter⟩ := put_step h.before h.after hat
  have hle := h.length_le
  refine ⟨hqueue, ?_, ?_, ?_, hbefore, hafter, haddr, hsorted, hitems, ?_⟩
  · show s.i + 1 ≤ us'.length
    omega
  · show us.length ≤ us'.length
    omega
  · intro j hj
    rcases Nat.lt_succ_iff_lt_or_eq.mp hj with hlt | rfl
    · show (ubAt (packer us').ubq j).groups ≠ []
      rw [hat, if_neg (by omega)]
      exact h.behind j hlt
    · exact hne
  · have hhas := InverseGroup.hasPrunedSources_iff (g := b)
    show (!b.hasPrunedSources) = true ↔ _
    rw [Bool.not_eq_true', ← Bool.not_eq_true, hhas, not_not, hitems, List.drop_eq_nil_iff]

/-- A full update is passed over. -/
theorem placeBody_full (h : PlaceInv us g s) (hg : s.done = false)
    (hfull : (ubAt (packer us).ubq s.i).remaining < 20) :
    ∃ t, placeBody s = .ret t ∧ PlaceInv us g t ∧ t.i = s.i + 1 := by
  obtain ⟨hqueue, hlen, hcur⟩ := h.current
  have hlt := h.taken_lt hg
  have hroom : inverseRooms (ubAt (packer us).ubq) s.i = 0 := rooms_eq_zero_iff.mpr hfull
  have hnone : inverseEntry g (inverseItems g false) (inverseRooms (ubAt (packer us).ubq)) s.i =
      none := inverseEntry_eq_none.mpr (slice_eq_nil_iff.mpr (Or.inl hroom))
  have htaken : taken (inverseRooms (ubAt (packer us).ubq)) (s.i + 1) =
      taken (inverseRooms (ubAt (packer us).ubq)) s.i := by
    rw [taken_succ, hroom, Nat.add_zero]
  have hhas : (!s.g.hasPrunedSources) = false := by
    rw [Bool.not_eq_false', InverseGroup.hasPrunedSources_iff, h.items, ← List.length_pos_iff,
      List.length_drop]
    omega
  have hmove := h.move (b := s.g) hqueue hlen
    (fun j => by rw [hnone, ite_self, Queue.ubAt_uq]; rfl)
    (by
      rw [Queue.ubAt_uq, h.after s.i le_rfl, ← hcur]
      exact (hqueue.getD_sized s.i).groups_ne_nil (by rw [hcur]; exact lt_trans hfull (by decide)))
    h.addr h.sorted (by rw [h.items, htaken])
  rw [hhas] at hmove
  refine ⟨_, ?_, hmove, rfl⟩
  have hf := InverseUpdate.full_eq (hqueue.getD_valid s.i) (hqueue.getD_sized s.i)
  rw [hcur, decide_eq_true hfull] at hf
  simp only [placeBody, hf, Outcome.ret_bind, Outcome.pure_eq, if_true]

/-- An update with room gets as many prunes as fit. -/
theorem placeBody_open (h : PlaceInv us g s) (hg : s.done = false)
    (hopen : 20 ≤ (ubAt (packer us).ubq s.i).remaining) :
    ∃ t, placeBody s = .ret t ∧ PlaceInv us g t ∧ t.i = s.i + 1 := by
  obtain ⟨hqueue, hlen, hcur⟩ := h.current
  have hlt := h.taken_lt hg
  set v := ubAt (packer us).ubq with hv
  set items := inverseItems g false with hitems
  have hrest : s.g.items = items.drop (taken (inverseRooms v) s.i) := h.items
  have hroom : inverseRooms v s.i = ((v s.i).remaining - 12) / 8 := inverseRooms_eq v s.i
  have hpos : 1 ≤ inverseRooms v s.i := by omega
  have hne : s.g.items ≠ [] := by
    rw [hrest, ← List.length_pos_iff, List.length_drop]
    omega
  obtain ⟨a, b, htake, ha, haddr, hb, hsorted⟩ :=
    InverseGroup.takePrunes_spec hpos hne h.sorted
  have hslice : s.g.items.take (inverseRooms v s.i) = slice (inverseRooms v) items s.i := by
    rw [hrest]
    rfl
  rw [hslice, h.addr] at ha
  have hsne : slice (inverseRooms v) items s.i ≠ [] := by
    rw [Ne, slice_eq_nil_iff]
    omega
  have hentry : inverseEntry g items (inverseRooms v) s.i = some a.toEntry := by
    rw [inverseEntry, if_neg hsne, ha]
  have hfit : a.toEntry.size ≤ (v s.i).remaining := inverseEntry_fits v g items s.i _ hentry
  have hane : a.items ≠ [] := by
    have hprunes : a.items = slice (inverseRooms v) items s.i := congrArg GroupEntry.prunes ha
    rw [hprunes]
    exact hsne
  obtain ⟨u, hadd, hu, hub⟩ := InverseUpdate.add_spec (hqueue.getD_valid s.i)
    (hqueue.getD_sized s.i) hane (by rw [hcur]; exact hfit)
  have hin : s.i < (uq s.updates s.i).length := by
    rw [hlen]
    omega
  rw [hcur] at hub
  have hqueue' : Queue ((uq s.updates s.i).set s.i u) := by
    apply hqueue.set hin hu
    · rw [hub, Queue.ubAt_uq, h.after s.i le_rfl]
    · rw [Queue.ubAt_uq, h.after s.i le_rfl]
      exact hfit
  have hmove := h.move hqueue' (b := b)
    (by rw [List.length_set, hlen])
    (fun j => by
      rw [Queue.ubAt_set hin, hub, hentry, Queue.ubAt_uq]
      by_cases hj : j = s.i
      · rw [if_pos hj, if_pos hj, hj, h.after s.i le_rfl]
      · rw [if_neg hj, if_neg hj]
        rfl)
    (by rw [Queue.ubAt_set hin, if_pos rfl, hub, put_groups]; simp)
    (haddr.trans h.addr) hsorted (by rw [hb, hrest, List.drop_drop, taken_succ])
  refine ⟨_, ?_, hmove, rfl⟩
  have hf := InverseUpdate.full_eq (hqueue.getD_valid s.i) (hqueue.getD_sized s.i)
  have hrem := InverseUpdate.remaining_eq (hqueue.getD_valid s.i) (hqueue.getD_sized s.i)
  rw [hcur] at hf hrem
  rw [decide_eq_false (by omega)] at hf
  have hms : TestGen.maxSources ((v s.i).remaining : ℤ) = (inverseRooms v s.i : ℤ) := by
    rw [maxSources_natCast (by omega), hroom]
  simp only [placeBody, hf, Outcome.ret_bind, Outcome.pure_eq, Bool.false_eq_true, if_false, hrem,
    hms, htake, hadd]

def placeVariant (us : List (InverseUpdate A)) (g : GroupConfig A) (s : PlaceLoop A) : ℕ :=
  (us.length + 1 - s.i) +
    ((inverseItems g false).length - taken (inverseRooms (ubAt (packer us).ubq)) s.i)

theorem placeBody_spec (s : PlaceLoop A) (h : PlaceInv us g s) (hg : (!s.done) = true) :
    ∃ t, placeBody s = .ret t ∧ PlaceInv us g t ∧
      placeVariant us g t < placeVariant us g s := by
  have hdone : s.done = false := by simpa using hg
  have hlt := h.taken_lt hdone
  have hstep : ∃ t, placeBody s = .ret t ∧ PlaceInv us g t ∧ t.i = s.i + 1 := by
    rcases Nat.lt_or_ge (ubAt (packer us).ubq s.i).remaining 20 with hfull | hopen
    · exact placeBody_full h hdone hfull
    · exact placeBody_open h hdone hopen
  obtain ⟨t, hbody, ht, hi⟩ := hstep
  have htaken := taken_succ (inverseRooms (ubAt (packer us).ubq)) s.i
  refine ⟨t, hbody, ht, ?_⟩
  unfold placeVariant
  rw [hi]
  rcases Nat.lt_or_ge s.i (us.length + 1) with hin | hout
  · omega
  · -- behind the list every update takes 181 prunes
    have hroom : inverseRooms (ubAt (packer us).ubq) s.i = 181 :=
      rooms_behind (by rw [length_packer]; omega)
    omega

/-- `place` puts the prunes of a group into the updates in order, and all of them. -/
theorem place_spec (hus : Queue us) (hasc : g.spt.SortedLT) :
    ∃ us', Returns (fun fuel => place fuel ⟨us⟩ (inverse (Group.ofConfig g))) ⟨us'⟩ ∧ Queue us' ∧
      us.length ≤ us'.length ∧
      (inverseItems g false).length ≤ taken (inverseRooms (ubAt (packer us).ubq)) us'.length ∧
      ∀ j, ubAt (packer us').ubq j = put (ubAt (packer us).ubq j)
        (inverseEntry g (inverseItems g false) (inverseRooms (ubAt (packer us).ubq)) j) := by
  have hitems := InverseGroup.inverse_items g
  have hhas := InverseGroup.hasPrunedSources_iff (g := inverse (Group.ofConfig g))
  rw [hitems] at hhas
  by_cases hne : inverseItems g false = []
  · have hno : (inverse (Group.ofConfig g)).hasPrunedSources = false := by
      rw [← Bool.not_eq_true, hhas, not_not]
      exact hne
    refine ⟨us, Returns.of_eq fun fuel => ?_, hus, le_rfl, ?_, fun j => ?_⟩
    · simp only [place, hno, Bool.false_eq_true, if_false]
    · rw [hne]
      exact Nat.zero_le _
    · rw [inverseEntry, if_pos (slice_eq_nil_of_le (by rw [hne]; exact Nat.zero_le _))]
      rfl
  · have hyes := hhas.mpr hne
    have hentry : PlaceInv us g ⟨us, 0, inverse (Group.ofConfig g), false⟩ := by
      refine ⟨hus, Nat.zero_le _, le_rfl, fun j hj => absurd hj (Nat.not_lt_zero j),
        fun j hj => absurd hj (Nat.not_lt_zero j), fun _ _ => rfl, rfl, hasc, hitems, ?_⟩
      have hpos := List.length_pos_iff.mpr hne
      exact iff_of_false Bool.false_ne_true (by rw [taken_zero]; omega)
    obtain ⟨s, hret, hinv, hdone⟩ := whileLoop_total (PlaceInv us g) (placeVariant us g)
      placeBody_spec ⟨us, 0, inverse (Group.ofConfig g), false⟩ hentry
    have htaken := hinv.done_iff.mp (by simpa using hdone)
    refine ⟨s.updates, ?_, hinv.queue, hinv.length_le,
      le_trans htaken (taken_mono _ hinv.le_length), fun j => ?_⟩
    · simp only [place, hyes, if_true]
      exact hret.bind (Returns.of_eq fun _ => rfl)
    · rcases Nat.lt_or_ge j s.i with hj | hj
      · exact hinv.before j hj
      · rw [hinv.after j hj, inverseEntry,
          if_pos (slice_eq_nil_of_le (le_trans htaken (taken_mono _ hj)))]
        rfl

end Place

/-! ### The result -/

theorem map_toUpdate_result (us : List (InverseUpdate A)) :
    (result ⟨us⟩).map InverseUpdate.toUpdate = (packer us).build := by
  have hlast : (us.getLastD .init).empty =
      ((packer us).ubq.getD ((packer us).ubq.length - 1) .init).empty := by
    have hub := ubAt_packer us (us.length - 1)
    rw [length_packer]
    show _ = (ubAt (packer us).ubq (us.length - 1)).empty
    rw [hub, List.getLastD_eq_getLast?, List.getLast?_eq_getElem?, ← List.getD_eq_getElem?_getD]
    cases us.getD (us.length - 1) .init with
    | mk maxSize groups =>
      simp only [InverseUpdate.empty, UpdateBuilderImpl.empty, InverseUpdate.toBuilder]
      cases groups <;> rfl
  have hbuild : ∀ xs : List (InverseUpdate A), (xs.map InverseUpdate.toBuilder).map
      UpdateBuilderImpl.build = xs.map InverseUpdate.toUpdate := by
    intro xs
    rw [List.map_map]
    rfl
  unfold result UpdatePacker.build
  simp only [← hlast]
  rw [length_packer]
  split_ifs with hempty
  · rw [List.dropLast_eq_take, ← hbuild, List.map_take]
    rfl
  · have hall : (packer us).ubq.take us.length = (packer us).ubq :=
      List.take_of_length_le (length_packer us).le
    rw [hall, ← hbuild]
    rfl

end InversePackBuilder

/-- The updates depend on what the builders hold only. -/
theorem build_congr {p p' : UpdatePacker A} (h : Ready p) (h' : Ready p')
    (hat : ∀ i, ubAt p.ubq i = ubAt p'.ubq i) : p.build = p'.build := by
  obtain ⟨m, hm, hbuild, hne, hnil⟩ := h.build_eq
  obtain ⟨n, hn, hbuild', hne', hnil'⟩ := h'.build_eq
  have hmn : m = n := count_unique hne hnil (fun i hi => by rw [hat]; exact hne' i hi)
    (fun i hi => by rw [hat]; exact hnil' i hi)
  subst hmn
  rw [hbuild, hbuild']
  congr 1
  apply List.ext_getElem
  · simp only [List.length_take]
    omega
  · intro i h1 h2
    rw [List.length_take] at h1
    have hi := hat i
    rw [ubAt_of_lt (by omega), ubAt_of_lt (by omega)] at hi
    rw [List.getElem_take, List.getElem_take, hi]

/-! ### The run -/

section Run

variable [LinearOrder A] [ToString A]

omit [LinearOrder A] [ToString A] in
theorem not_losesRp_nil (g : GroupConfig A) : ¬LosesRp [] g := by
  intro h
  obtain ⟨_, _, hone⟩ := h
  rw [maxSources_eq] at hone
  simp only [spaceLeft, List.foldl_nil, JPCapacity] at hone
  omega

-- The reference places every group as the first one is placed. As long as no RP
-- is lost the packer has the same builders.
structure InverseSimulates (done : List (GroupConfig A)) (pb : InversePackBuilder A) : Prop where
  queue : InversePackBuilder.Queue pb.updates
  run : RunInv (fun _ => Placed []) done (InversePackBuilder.packer pb.updates)
  agrees : NoLoss done → ∃ p,
    Returns (fun fuel => done.foldlM (InverseUpdatePacker.fitGroup fuel) UpdatePacker.init) p ∧
      Ready p ∧ ∀ i, ubAt p.ubq i = ubAt (InversePackBuilder.packer pb.updates).ubq i

theorem inversePackGroups_spec (groups : List (GroupConfig A))
    (hdist : (groups.map (·.group)).Nodup) (hasc : ∀ g ∈ groups, g.spt.SortedLT) :
    ∃ pb, Returns (fun fuel => groups.foldlM
        (fun pb g => InversePackBuilder.place fuel pb (inverse (Group.ofConfig g)))
        InversePackBuilder.init) pb ∧ InverseSimulates groups pb := by
  refine foldlM_total
    (fun fuel pb g => InversePackBuilder.place fuel pb (inverse (Group.ofConfig g)))
    InverseSimulates groups ?_ InversePackBuilder.init
    ⟨InversePackBuilder.queue_init, runInv_init,
      fun _ => ⟨UpdatePacker.init, Returns.of_eq fun _ => rfl, ready_init, fun _ => rfl⟩⟩
  intro done g rest pb hgroups h
  have hg : g ∈ groups := by simp [hgroups]
  obtain ⟨us', hplace, hqueue, hlen, htaken, hat⟩ :=
    InversePackBuilder.place_spec h.queue (hasc g hg)
  refine ⟨⟨us'⟩, hplace, hqueue, ?_, ?_⟩
  · refine h.run.place (group_new hgroups hdist) hqueue.ready hat ?_ ?_ ?_
    · rw [InversePackBuilder.length_packer, InversePackBuilder.length_packer]
      exact hlen
    · intro i ge hge
      obtain ⟨hgroup, _, hprunes⟩ := inverseEntry_mem hge
      exact ⟨hgroup, Or.inr hprunes⟩
    · rw [InversePackBuilder.length_packer]
      exact ⟨false, _, us'.length, fun _ => iff_of_false Bool.false_ne_true (not_losesRp_nil g),
        htaken, rfl⟩
  · intro hno
    obtain ⟨hdone, hloses⟩ := noLoss_snoc.mp hno
    obtain ⟨p, hp, hready, hub⟩ := h.agrees hdone
    obtain ⟨q, hq, hinv⟩ :=
      InverseUpdatePacker.packGroups_spec done (nodup_front hgroups hdist)
    rw [hq.unique hp] at hinv
    have hlost : false = true ↔ RpLost g (inverseRooms (ubAt p.ubq)) := by
      rw [rpLost_iff (hinv.filled hdone)]
      exact iff_of_false Bool.false_ne_true hloses
    obtain ⟨p', hfit, hready', _, _, hat'⟩ := InverseUpdatePacker.fitGroup_spec hready hlost
    refine ⟨p', ?_, hready', fun i => ?_⟩
    · simp only [List.foldlM_append, List.foldlM_cons, List.foldlM_nil]
      exact hp.bind (hfit.bind (Returns.of_eq fun _ => rfl))
    · rw [hat', hat, funext hub]

omit [ToString A] in
theorem inverseLossless_of_run {cfg : JPConfig A} {p : UpdatePacker A}
    (h : RunInv (fun _ => Placed []) cfg.groups p) : InverseLossless cfg p.build := by
  have hplaced : ∀ g ∈ cfg.groups, Placed [] g (entriesOf g.group p.build) := by
    intro g hg
    obtain ⟨pre, post, hsplit⟩ := List.append_of_mem hg
    rw [h.ready.entriesOf_build]
    exact h.placed pre g post hsplit
  have hitems : ∀ g ∈ cfg.groups,
      prunesOf (entriesOf g.group p.build) = inverseItems g false := by
    intro g hg
    obtain ⟨lost, hlost, hprunes⟩ := (hplaced g hg).prunes_eq
    have hfalse : lost = false := by
      rw [← Bool.not_eq_true, hlost noLoss_nil]
      exact not_losesRp_nil g
    rw [hprunes, hfalse]
  refine ⟨?_, ?_, ?_, ?_, fun u hu ge hge => h.only_build hu hge⟩
  · intro u hu ge hge
    obtain ⟨g, hg, heq⟩ := h.only_build hu hge
    apply (hplaced g hg).joins_eq_nil
    exact List.mem_flatMap.mpr ⟨u, hu, List.mem_filter.mpr ⟨hge, by simpa using heq⟩⟩
  · intro g hg
    rw [hitems g hg, plain_inverseItems]
  · intro g hg
    rw [hitems g hg, shared_inverseItems, if_neg Bool.false_ne_true]
    rfl
  · intro g hg
    rw [hitems g hg]
    exact flags_inverseItems g false

/-- The reference withdraws every configuration, and the packer returns the updates of the
reference unless it loses an RP. -/
theorem inversePack_agrees_iff (cfg : JPConfig A) (hdist : cfg.DistinctGroups)
    (hasc : ∀ g ∈ cfg.groups, g.spt.SortedLT) :
    ∃ us pus, Returns (fun fuel => Pimc.inversePack fuel cfg) us ∧
      Returns (fun fuel => TestGen.inversePack fuel (cfg.groups.map Group.ofConfig)) pus ∧
      InverseLossless cfg (pus.map InverseUpdate.toUpdate) ∧
      (us = pus.map InverseUpdate.toUpdate ↔ NoLoss cfg.groups) := by
  obtain ⟨p, hp, hinv⟩ := inversePack_placed cfg hdist
  obtain ⟨pb, hpb, hsim⟩ := inversePackGroups_spec cfg.groups hdist hasc
  have hresult := InversePackBuilder.map_toUpdate_result pb.updates
  have hlossless := inverseLossless_of_run hsim.run
  rw [← hresult] at hlossless
  refine ⟨p.build, pb.result, hp, ?_, hlossless, ?_, ?_⟩
  · unfold TestGen.inversePack
    simp only [List.foldlM_map]
    exact hpb.bind (Returns.of_eq fun _ => rfl)
  · intro heq
    rw [← inverse_lossless_iff hinv, heq]
    exact hlossless
  · intro hno
    obtain ⟨q, hq, hready, hat⟩ := hsim.agrees hno
    have hpq : p.build = q.build := by
      have hbuild : Returns (fun fuel => Pimc.inversePack fuel cfg) q.build :=
        hq.bind (Returns.of_eq fun _ => rfl)
      exact hp.unique hbuild
    rw [hpq]
    exact (build_congr hready hsim.queue.ready hat).trans hresult.symm

end Run

theorem inversePack_agrees_iff_example : ∃ us pus,
    Returns (fun fuel => Pimc.inversePack fuel generatedConfig) us ∧
      Returns (fun fuel =>
        TestGen.inversePack fuel (generatedConfig.groups.map Group.ofConfig)) pus ∧
      InverseLossless generatedConfig (pus.map InverseUpdate.toUpdate) ∧
      (us = pus.map InverseUpdate.toUpdate ↔ NoLoss generatedConfig.groups) := by
  have hasc : ∀ g ∈ generatedConfig.groups, PackBuilder.Ascending g := by decide
  exact inversePack_agrees_iff generatedConfig (by decide) fun g hg => (hasc g hg).spt

end Pimc.TestGen
