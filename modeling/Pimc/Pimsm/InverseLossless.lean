import Pimc.Pimsm.InverseFit
import Pimc.Pimsm.PackLossless

/-!
# When inverse packing is lossless

All builders but the last one that holds an entry are full, so the queue is
known by the bytes left in that one. `spaceLeft pre` computes them from the
sizes of the groups that were packed: it is 1466 to begin with, and a group
fills the update at hand before it goes on to empty ones. A group whose RP
comes to an update with a single slot left loses it (`LosesRp`).
-/

namespace Pimc

open Lib Params UpdatePacker

variable {A : Type}

namespace InverseUpdatePacker

/-! ### The fill level -/

/-- Bytes left in the last update after `n` sources of one group, `r` being left before. -/
def spaceAfter (r n : ℕ) : ℕ :=
  if n = 0 then r
  else if n ≤ maxSources r then r - GrpHdrSize - SrcASize * n
  else JPCapacity - GrpHdrSize - SrcASize * ((n - maxSources r - 1) % 181 + 1)

-- The sources that withdraw a group.
def withdrawals (g : GroupConfig A) : ℕ := (if g.rpt.isSome then 1 else 0) + g.spt.length

def spaceLeft (pre : List (GroupConfig A)) : ℕ :=
  pre.foldl (fun r g => spaceAfter r (withdrawals g)) JPCapacity

/-- Behind the groups `pre` there is a single slot for the RP and the sources of `g`. -/
def LosesRp (pre : List (GroupConfig A)) (g : GroupConfig A) : Prop :=
  g.rpt.isSome = true ∧ g.spt ≠ [] ∧ maxSources (spaceLeft pre) = 1

def NoLoss (groups : List (GroupConfig A)) : Prop :=
  ∀ pre g post, groups = pre ++ g :: post → ¬LosesRp pre g

theorem spaceLeft_snoc (pre : List (GroupConfig A)) (g : GroupConfig A) :
    spaceLeft (pre ++ [g]) = spaceAfter (spaceLeft pre) (withdrawals g) := by
  simp [spaceLeft]

theorem noLoss_nil : NoLoss ([] : List (GroupConfig A)) := by
  intro pre g post h
  simp at h

theorem noLoss_snoc {groups : List (GroupConfig A)} {g : GroupConfig A} :
    NoLoss (groups ++ [g]) ↔ NoLoss groups ∧ ¬LosesRp groups g := by
  constructor
  · intro h
    refine ⟨fun pre g' post hg => ?_, h groups g [] rfl⟩
    exact h pre g' (post ++ [g]) (by simp [hg])
  · intro h' pre g' post heq
    obtain ⟨hgroups, hg⟩ := h'
    rcases split_snoc heq with ⟨rfl, rfl, _⟩ | ⟨post', _, hcat⟩
    · exact hg
    · exact hgroups pre g' post' hcat

/-- A list that loses an RP has a first group that does. -/
theorem exists_first_loss {groups : List (GroupConfig A)} (h : ¬NoLoss groups) :
    ∃ pre g post, groups = pre ++ g :: post ∧ NoLoss pre ∧ LosesRp pre g := by
  induction groups using List.reverseRecOn with
  | nil => exact absurd noLoss_nil h
  | append_singleton groups g ih =>
    by_cases hgroups : NoLoss groups
    · have hg : LosesRp groups g := by
        by_contra hg
        exact h (noLoss_snoc.mpr ⟨hgroups, hg⟩)
      exact ⟨groups, g, [], rfl, hgroups, hg⟩
    · obtain ⟨pre, g', post, heq, hpre, hloss⟩ := ih hgroups
      exact ⟨pre, g', post ++ [g], by simp [heq], hpre, hloss⟩

/-- Full builders, then one with `r` bytes left, then empty ones. -/
def Filled (r : ℕ) (v : ℕ → UpdateBuilderImpl A) : Prop :=
  ∃ k, (∀ i < k, (v i).remaining < 20) ∧ (v k).remaining = r ∧
    ∀ i, k < i → (v i).remaining = JPCapacity

theorem filled_init : Filled JPCapacity (ubAt (UpdatePacker.init : UpdatePacker A).ubq) := by
  have hinit : ∀ i, ubAt (UpdatePacker.init : UpdatePacker A).ubq i = .init := by
    intro i
    cases i <;> rfl
  refine ⟨0, fun i hi => absurd hi (Nat.not_lt_zero i), ?_, fun i _ => ?_⟩
  · rw [hinit, Sized.init_remaining]
  · rw [hinit, Sized.init_remaining]

section Filled

variable {v v' : ℕ → UpdateBuilderImpl A} {r k : ℕ}

theorem taken_behind {rooms : ℕ → ℕ} (h : ∀ i, k < i → rooms i = 181) (j : ℕ) :
    taken rooms (k + 1 + j) = taken rooms (k + 1) + 181 * j := by
  induction j with
  | zero => rfl
  | succ j ih =>
    have hj := h (k + 1 + j) (by omega)
    rw [← Nat.add_assoc, taken_succ, ih, hj]
    omega

theorem rpLost_iff {g : GroupConfig A} (h : Filled r v) :
    RpLost g (inverseRooms v) ↔ g.rpt.isSome = true ∧ g.spt ≠ [] ∧ maxSources r = 1 := by
  obtain ⟨k, hfull, hk, hempty⟩ := h
  have hrk : inverseRooms v k = maxSources r := by
    rw [← hk]
    rfl
  constructor
  · intro h'
    obtain ⟨hsome, hspt, i, hone, hzero⟩ := h'
    refine ⟨hsome, hspt, ?_⟩
    rcases Nat.lt_trichotomy i k with hi | rfl | hi
    · rw [rooms_eq_zero_iff.mpr (hfull i hi)] at hone
      cases hone
    · rw [← hrk]
      exact hone
    · rw [rooms_empty (hempty i hi)] at hone
      cases hone
  · intro h'
    obtain ⟨hsome, hspt, hone⟩ := h'
    exact ⟨hsome, hspt, k, hrk.trans hone, fun j hj => rooms_eq_zero_iff.mpr (hfull j hj)⟩

theorem remaining_put_inverseEntry (hsized : ∀ i, Sized (v i)) (g : GroupConfig A)
    (items : List (Source A)) (i : ℕ) :
    (put (v i) (inverseEntry g items (inverseRooms v) i)).remaining =
      if slice (inverseRooms v) items i = [] then (v i).remaining
      else (v i).remaining - 12 - 8 * (slice (inverseRooms v) items i).length := by
  have hfit := inverseEntry_fits v g items i
  unfold inverseEntry at hfit ⊢
  split_ifs at hfit ⊢ with hs
  · rfl
  · have hadd := (hsized i).remaining_add
    have hput := ((hsized i).add_put (hfit _ rfl)).2.remaining_add
    simp only [put, GroupEntry.size, List.length_nil] at hput ⊢
    omega

/-- Placing a group keeps the shape of the queue. -/
theorem Filled.place (h : Filled r v) (hsized : ∀ i, Sized (v i)) (g : GroupConfig A)
    (items : List (Source A))
    (hat : ∀ i, v' i = put (v i) (inverseEntry g items (inverseRooms v) i)) :
    Filled (spaceAfter r items.length) v' := by
  obtain ⟨k, hfull, hk, hempty⟩ := h
  have hrem : ∀ i, (v' i).remaining = if slice (inverseRooms v) items i = []
      then (v i).remaining
      else (v i).remaining - 12 - 8 * (slice (inverseRooms v) items i).length := by
    intro i
    rw [hat, remaining_put_inverseEntry hsized]
  have hrk : inverseRooms v k = maxSources r := by
    rw [← hk]
    rfl
  have htk : taken (inverseRooms v) k = 0 := taken_eq_zero fun i hi => rooms_eq_zero_iff.mpr (hfull i hi)
  have htk1 : taken (inverseRooms v) (k + 1) = maxSources r := by
    rw [taken_succ, htk, hrk, Nat.zero_add]
  have hbehind := taken_behind (k := k) fun i hi => rooms_empty (hempty i hi)
  have hbefore : ∀ i < k, (v' i).remaining < 20 := by
    intro i hi
    rw [hrem, if_pos (slice_eq_nil_iff.mpr (Or.inl (rooms_eq_zero_iff.mpr (hfull i hi))))]
    exact hfull i hi
  have hlater : ∀ i, items.length ≤ taken (inverseRooms v) i → k < i →
      (v' i).remaining = JPCapacity := by
    intro i hle hi
    rw [hrem, if_pos (slice_eq_nil_of_le hle), hempty i hi]
  have hmr := maxSources_eq r
  by_cases hn : items.length = 0
  · refine ⟨k, hbefore, ?_, fun i hi => hlater i (by omega) hi⟩
    rw [hrem, if_pos (slice_eq_nil_of_le (by omega)), hk, spaceAfter, if_pos hn]
  · by_cases hle : items.length ≤ maxSources r
    · have hlen : (slice (inverseRooms v) items k).length = items.length := by
        rw [length_slice, htk, hrk]
        omega
      refine ⟨k, hbefore, ?_, fun i hi => hlater i ?_ hi⟩
      · have hne : slice (inverseRooms v) items k ≠ [] := List.ne_nil_of_length_pos (by omega)
        rw [hrem, if_neg hne, hlen, hk, spaceAfter, if_neg hn, if_pos hle]
        rfl
      · have hmono := taken_mono (inverseRooms v) (Nat.succ_le_of_lt hi)
        rw [Nat.succ_eq_add_one, htk1] at hmono
        exact le_trans hle hmono
    · -- the update at hand is filled up, and so are `j` empty ones behind it
      obtain ⟨j, hj⟩ : ∃ j, j = (items.length - maxSources r - 1) / 181 := ⟨_, rfl⟩
      have hlenAt : ∀ m, (slice (inverseRooms v) items (k + 1 + m)).length =
          min 181 (items.length - maxSources r - 181 * m) := by
        intro m
        rw [length_slice, hbehind, htk1, rooms_empty (hempty _ (by omega)), Nat.sub_sub]
      refine ⟨k + 1 + j, ?_, ?_, ?_⟩
      · intro i hi
        rcases Nat.lt_trichotomy i k with hik | rfl | hik
        · exact hbefore i hik
        · have hlen := length_slice (inverseRooms v) items i
          rw [htk, hrk] at hlen
          rw [hrem, hk]
          split_ifs with hs
          · rw [slice_eq_nil_iff, hrk, htk] at hs
            omega
          · omega
        · obtain ⟨m, rfl⟩ := Nat.exists_eq_add_of_le (Nat.succ_le_of_lt hik)
          have hlen := hlenAt m
          have hne : slice (inverseRooms v) items (k + 1 + m) ≠ [] :=
            List.ne_nil_of_length_pos (by omega)
          rw [hrem, if_neg hne, hlen, hempty _ (by omega)]
          simp only [JPCapacity]
          omega
      · have hlen := hlenAt j
        have hne : slice (inverseRooms v) items (k + 1 + j) ≠ [] :=
          List.ne_nil_of_length_pos (by omega)
        rw [hrem, if_neg hne, hlen, hempty _ (by omega), spaceAfter, if_neg hn, if_neg hle]
        simp only [JPCapacity, GrpHdrSize, GrpASize, SrcASize]
        omega
      · intro i hi
        obtain ⟨m, rfl⟩ := Nat.exists_eq_add_of_le (Nat.succ_le_of_lt hi)
        refine hlater _ ?_ (by omega)
        rw [show k + 1 + j + 1 + m = k + 1 + (j + 1 + m) by omega, hbehind, htk1]
        omega

end Filled

/-! ### What the entries of a group say -/

/-- The entries of a group that was placed behind the groups `pre`. -/
def Placed (pre : List (GroupConfig A)) (g : GroupConfig A) (es : List (GroupEntry A)) : Prop :=
  ∃ lost rooms n, (NoLoss pre → (lost = true ↔ LosesRp pre g)) ∧
    (inverseItems g lost).length ≤ taken rooms n ∧
    es = (List.range n).filterMap (inverseEntry g (inverseItems g lost) rooms)

theorem inverseEntry_mem {g : GroupConfig A} {items : List (Source A)} {rooms : ℕ → ℕ} {i : ℕ}
    {ge : GroupEntry A} (h : ge ∈ inverseEntry g items rooms i) :
    ge.group = g.group ∧ ge.joins = [] ∧ ge.prunes ≠ [] := by
  unfold inverseEntry at h
  split_ifs at h with hs
  · cases h
  · cases h
    exact ⟨rfl, rfl, hs⟩

namespace Placed

variable {pre : List (GroupConfig A)} {g : GroupConfig A} {es : List (GroupEntry A)}

theorem joins_eq_nil (h : Placed pre g es) : ∀ ge ∈ es, ge.joins = [] := by
  obtain ⟨lost, rooms, n, _, _, rfl⟩ := h
  intro ge hge
  obtain ⟨i, _, hi⟩ := List.mem_filterMap.mp hge
  exact (inverseEntry_mem hi).2.1

theorem prunes_eq (h : Placed pre g es) :
    ∃ lost, (NoLoss pre → (lost = true ↔ LosesRp pre g)) ∧ prunesOf es = inverseItems g lost := by
  obtain ⟨lost, rooms, n, hlost, htaken, rfl⟩ := h
  refine ⟨lost, hlost, ?_⟩
  have hpart : ∀ i, (inverseEntry g (inverseItems g lost) rooms i).toList.flatMap (·.prunes) =
      slice rooms (inverseItems g lost) i := by
    intro i
    unfold inverseEntry
    split_ifs with hs
    · rw [hs]
      rfl
    · simp
  rw [prunesOf, flatMap_filterMap, List.flatMap_congr fun i _ => hpart i,
    flatMap_slice_of_le htaken]

end Placed

theorem inverseItems_cases (g : GroupConfig A) (lost : Bool) :
    (inverseItems g lost = g.spt.map sgSource ∧ (lost = true ∨ g.rpt = none)) ∨
      ∃ rpt, g.rpt = some rpt ∧ lost = false ∧
        inverseItems g lost = rpSource rpt.rp :: g.spt.map sgSource := by
  cases lost with
  | true => exact Or.inl ⟨inverseItems_lost g, Or.inl rfl⟩
  | false =>
    cases hrpt : g.rpt with
    | none => exact Or.inl ⟨inverseItems_none hrpt false, Or.inr rfl⟩
    | some rpt => exact Or.inr ⟨rpt, rfl, rfl, inverseItems_some hrpt⟩

theorem plain_inverseItems (g : GroupConfig A) (lost : Bool) :
    ((inverseItems g lost).filter (·.plain)).map (·.addr) = g.spt := by
  have hsg := filter_plain_sgSource g.spt
  have haddr := map_addr_sgSource g.spt
  rcases inverseItems_cases g lost with ⟨heq, _⟩ | ⟨rpt, _, _, heq⟩
  · rw [heq, hsg, haddr]
  · rw [heq, List.filter_cons_of_neg (by simp [rpSource, Source.plain]), hsg, haddr]

theorem shared_inverseItems (g : GroupConfig A) (lost : Bool) :
    (inverseItems g lost).filter (·.shared) =
      if lost = true then [] else (g.rpt.map fun rpt => rpSource rpt.rp).toList := by
  have hsg := filter_shared_sgSource g.spt
  rcases inverseItems_cases g lost with ⟨heq, hcase⟩ | ⟨rpt, hrpt, hfalse, heq⟩
  · rw [heq, hsg]
    rcases hcase with htrue | hnone
    · rw [if_pos htrue]
    · rw [hnone]
      exact (ite_self []).symm
  · rw [heq, hfalse, hrpt, List.filter_cons_of_pos rfl, hsg]
    rfl

theorem flags_inverseItems (g : GroupConfig A) (lost : Bool) :
    ∀ s ∈ inverseItems g lost, s.plain = true ∨ s.shared = true := by
  have hsg : ∀ s ∈ g.spt.map sgSource, s.plain = true := by
    intro s hs
    obtain ⟨a, _, rfl⟩ := List.mem_map.mp hs
    rfl
  intro s hs
  rcases inverseItems_cases g lost with ⟨heq, _⟩ | ⟨rpt, _, _, heq⟩
  · rw [heq] at hs
    exact Or.inl (hsg s hs)
  · rw [heq] at hs
    rcases List.mem_cons.mp hs with rfl | hs
    · exact Or.inr rfl
    · exact Or.inl (hsg s hs)

/-! ### The run -/

/-- What holds of the queue behind the groups `done`. -/
structure InverseInv [DecidableEq A] (done : List (GroupConfig A)) (p : UpdatePacker A) :
    Prop where
  run : RunInv Placed done p
  filled : NoLoss done → Filled (spaceLeft done) (ubAt p.ubq)

theorem length_inverseItems (g : GroupConfig A) :
    (inverseItems g false).length = withdrawals g := by
  rcases inverseItems_cases g false with ⟨heq, hcase⟩ | ⟨rpt, hrpt, _, heq⟩
  · have hnone : g.rpt = none := hcase.resolve_left Bool.false_ne_true
    rw [heq, List.length_map, withdrawals, hnone]
    simp
  · rw [heq, List.length_cons, List.length_map, withdrawals, hrpt, Nat.add_comm]
    rfl

theorem packGroups_spec [DecidableEq A] (groups : List (GroupConfig A))
    (hdist : (groups.map (·.group)).Nodup) :
    ∃ p, Returns (fun fuel => groups.foldlM (fitGroup fuel) UpdatePacker.init) p ∧
      InverseInv groups p := by
  refine foldlM_total fitGroup InverseInv groups ?_ UpdatePacker.init
    ⟨runInv_init, fun _ => filled_init⟩
  intro done g rest p hgroups hinv
  have hready := hinv.run.ready
  have hnew : g.group ∉ done.map (·.group) := group_new hgroups hdist
  obtain ⟨lost, hlost⟩ := exists_lost g (inverseRooms (ubAt p.ubq))
  have hloses : NoLoss done → (lost = true ↔ LosesRp done g) := by
    intro hno
    rw [hlost]
    exact rpLost_iff (hinv.filled hno)
  obtain ⟨p', hret, hready', htaken, hlen, hat⟩ := fitGroup_spec hready hlost
  have hplaced : Placed done g ((List.range p'.ubq.length).filterMap
      (inverseEntry g (inverseItems g lost) (inverseRooms (ubAt p.ubq)))) :=
    ⟨lost, inverseRooms (ubAt p.ubq), p'.ubq.length, hloses, htaken, rfl⟩
  refine ⟨p', hret, hinv.run.place hnew hready' hat hlen ?_ hplaced, ?_⟩
  · intro i ge hge
    obtain ⟨hgroup, _, hprunes⟩ := inverseEntry_mem hge
    exact ⟨hgroup, Or.inr hprunes⟩
  · intro hno
    obtain ⟨hdone, hg⟩ := noLoss_snoc.mp hno
    have hfalse : lost = false := by
      rw [← Bool.not_eq_true]
      exact fun htrue => hg ((hloses hdone).mp htrue)
    have hfilled := (hinv.filled hdone).place hready.sized g (inverseItems g lost) hat
    rw [hfalse, length_inverseItems, ← spaceLeft_snoc] at hfilled
    exact hfilled

end InverseUpdatePacker

/-! ### The updates of a configuration -/

section InversePack

variable [DecidableEq A]

open InverseUpdatePacker

/-- The updates withdraw the state of the configuration and nothing else. -/
structure InverseLossless (cfg : JPConfig A) (us : List (Update A)) : Prop where
  no_joins : ∀ u ∈ us, ∀ ge ∈ u.groups, ge.joins = []
  plain_prunes : ∀ g ∈ cfg.groups,
    ((prunesOf (entriesOf g.group us)).filter (·.plain)).map (·.addr) = g.spt
  shared_prunes : ∀ g ∈ cfg.groups, (prunesOf (entriesOf g.group us)).filter (·.shared) =
    (g.rpt.map fun rpt => ⟨rpt.rp, true, true⟩).toList
  prunes_flags : ∀ g ∈ cfg.groups, ∀ s ∈ prunesOf (entriesOf g.group us),
    s.plain = true ∨ s.shared = true
  only : ∀ u ∈ us, ∀ ge ∈ u.groups, ∃ g ∈ cfg.groups, ge.group = g.group

theorem inversePack_placed (cfg : JPConfig A) (hdist : cfg.DistinctGroups) :
    ∃ p, Returns (fun fuel => inversePack fuel cfg) p.build ∧ InverseInv cfg.groups p := by
  obtain ⟨p, hret, hinv⟩ := InverseUpdatePacker.packGroups_spec cfg.groups hdist
  exact ⟨p, hret.bind (Returns.of_eq fun _ => rfl), hinv⟩

theorem InverseUpdatePacker.InverseInv.prunesOf_build {groups pre post : List (GroupConfig A)} {g : GroupConfig A}
    {p : UpdatePacker A} (h : InverseInv groups p) (hg : groups = pre ++ g :: post) :
    ∃ lost, (NoLoss pre → (lost = true ↔ LosesRp pre g)) ∧
      prunesOf (entriesOf g.group p.build) = inverseItems g lost := by
  rw [h.run.ready.entriesOf_build]
  exact (h.run.placed pre g post hg).prunes_eq

theorem inverse_no_joins {cfg : JPConfig A} {p : UpdatePacker A}
    (h : InverseInv cfg.groups p) : ∀ u ∈ p.build, ∀ ge ∈ u.groups, ge.joins = [] := by
  intro u hu ge hge
  obtain ⟨g, hg, heq⟩ := h.run.only_build hu hge
  obtain ⟨pre, post, hsplit⟩ := List.append_of_mem hg
  have hplaced := h.run.placed pre g post hsplit
  rw [← h.run.ready.entriesOf_build] at hplaced
  apply hplaced.joins_eq_nil
  exact List.mem_flatMap.mpr ⟨u, hu, List.mem_filter.mpr ⟨hge, by simpa using heq⟩⟩

theorem inverse_lossless_iff {cfg : JPConfig A} {p : UpdatePacker A}
    (h : InverseInv cfg.groups p) : InverseLossless cfg p.build ↔ NoLoss cfg.groups := by
  constructor
  · intro hus
    by_contra hno
    obtain ⟨pre, g, post, hsplit, hpre, hloses⟩ := exists_first_loss hno
    obtain ⟨lost, hlost, hprunes⟩ := h.prunesOf_build hsplit
    have hshared := hus.shared_prunes g (by rw [hsplit]; simp)
    obtain ⟨rpt, hrpt⟩ := Option.isSome_iff_exists.mp hloses.1
    rw [hprunes, shared_inverseItems, if_pos ((hlost hpre).mpr hloses), hrpt] at hshared
    cases hshared
  · intro hno
    have hitems : ∀ g ∈ cfg.groups, ∃ lost, lost = false ∧
        prunesOf (entriesOf g.group p.build) = inverseItems g lost := by
      intro g hg
      obtain ⟨pre, post, hsplit⟩ := List.append_of_mem hg
      obtain ⟨lost, hlost, hprunes⟩ := h.prunesOf_build hsplit
      have hpre : NoLoss pre := by
        intro pre' g' post' heq
        exact hno pre' g' (post' ++ g :: post) (by simp [hsplit, heq])
      refine ⟨lost, ?_, hprunes⟩
      rw [← Bool.not_eq_true]
      exact fun htrue => hno pre g post hsplit ((hlost hpre).mp htrue)
    refine ⟨inverse_no_joins h, ?_, ?_, ?_, fun u hu ge hge => h.run.only_build hu hge⟩
    · intro g hg
      obtain ⟨lost, _, hprunes⟩ := hitems g hg
      rw [hprunes, plain_inverseItems]
    · intro g hg
      obtain ⟨lost, hfalse, hprunes⟩ := hitems g hg
      rw [hprunes, shared_inverseItems, hfalse, if_neg Bool.false_ne_true]
      rfl
    · intro g hg
      obtain ⟨lost, _, hprunes⟩ := hitems g hg
      rw [hprunes]
      exact flags_inverseItems g lost

/-- Inverse packing is lossless but for the groups whose RP comes to a last free slot. -/
theorem inversePack_lossless_iff (cfg : JPConfig A) (hdist : cfg.DistinctGroups) :
    ∃ us, Returns (fun fuel => inversePack fuel cfg) us ∧
      (InverseLossless cfg us ↔
        ∀ pre g post, cfg.groups = pre ++ g :: post →
          ¬(g.rpt.isSome = true ∧ g.spt ≠ [] ∧ maxSources (spaceLeft pre) = 1)) := by
  obtain ⟨p, hret, hinv⟩ := inversePack_placed cfg hdist
  exact ⟨p.build, hret, inverse_lossless_iff hinv⟩

theorem inversePack_lossless_iff_example : exampleConfig.DistinctGroups ∧
    ∃ us, Returns (fun fuel => inversePack fuel exampleConfig) us ∧
      (InverseLossless exampleConfig us ↔
        ∀ pre g post, exampleConfig.groups = pre ++ g :: post →
          ¬(g.rpt.isSome = true ∧ g.spt ≠ [] ∧ maxSources (spaceLeft pre) = 1)) :=
  ⟨by decide, inversePack_lossless_iff exampleConfig (by decide)⟩

-- The first group leaves 22 bytes, room for one source.
theorem inversePack_loses_rp : ¬∃ us,
    Returns (fun fuel => inversePack fuel exampleConfig) us ∧ InverseLossless exampleConfig us := by
  intro h
  obtain ⟨us, hus, hlossless⟩ := h
  obtain ⟨p, hret, hinv⟩ := inversePack_placed exampleConfig (by decide)
  rw [hus.unique hret] at hlossless
  have hno := (inverse_lossless_iff hinv).mp hlossless
  refine hno [_] _ [] rfl ⟨rfl, List.cons_ne_nil _ _, ?_⟩
  simp [spaceLeft, withdrawals, spaceAfter, maxSources, JPCapacity, GrpHdrSize, GrpASize, SrcASize]

end InversePack

end Pimc
