import Pimc.Config.JPConfig
import Pimc.Lib.Slices
import Pimc.Pimsm.Queue

/-!
# Placing the groups of a configuration

A packer places one group after the other. `RunInv` is what holds of its queue
after some of them: every builder lists each of them at most once, and the
entries of a group are those that the packer made for it, since a later group
has another address. What it made of group `g` behind the groups `pre` is the
parameter `Placed pre g` of the invariant.
-/

namespace Pimc

open Lib Params

variable {A : Type}

/-! ### The groups in front of a group -/

theorem nodup_front {groups pre post : List (GroupConfig A)} (hg : groups = pre ++ post)
    (hdist : (groups.map (·.group)).Nodup) : (pre.map (·.group)).Nodup := by
  rw [hg, List.map_append] at hdist
  exact (List.nodup_append.mp hdist).1

theorem group_new {groups pre post : List (GroupConfig A)} {g : GroupConfig A}
    (hg : groups = pre ++ g :: post) (hdist : (groups.map (·.group)).Nodup) :
    g.group ∉ pre.map (·.group) := by
  intro hin
  rw [hg, List.map_append, List.map_cons] at hdist
  exact (List.nodup_append.mp hdist).2.2 _ hin _ (List.mem_cons_self ..) rfl

/-! ### Entries of one group in a queue -/

def entriesIn [DecidableEq A] (a : A) (q : List (UpdateBuilderImpl A)) : List (GroupEntry A) :=
  q.flatMap fun ub => ub.groups.filter (·.group = a)

theorem flatMap_range_ubAt {β : Type} (q : List (UpdateBuilderImpl A))
    (f : UpdateBuilderImpl A → List β) (hf : f .init = []) {n : ℕ} (h : q.length ≤ n) :
    (List.range n).flatMap (fun i => f (ubAt q i)) = q.flatMap f := by
  obtain ⟨m, rfl⟩ := Nat.exists_eq_add_of_le h
  rw [List.range_add, List.flatMap_append, List.flatMap_map]
  have hout : (List.range m).flatMap (fun i => f (ubAt q (q.length + i))) = [] := by
    rw [List.flatMap_eq_nil_iff]
    intro i _
    rw [ubAt_of_le (Nat.le_add_right _ _), hf]
  have hin : (List.range q.length).map (ubAt q) = q := by
    apply List.ext_getElem
    · simp
    · intro i h1 h2
      simp [ubAt_of_lt h2]
  have hmap : (List.range q.length).flatMap (fun i => f (ubAt q i)) =
      ((List.range q.length).map (ubAt q)).flatMap f := by
    rw [List.flatMap_map]
  rw [hout, List.append_nil, hmap, hin]

theorem entriesIn_eq [DecidableEq A] (a : A) (q : List (UpdateBuilderImpl A)) {n : ℕ} (h : q.length ≤ n) :
    entriesIn a q = (List.range n).flatMap fun i => (ubAt q i).groups.filter (·.group = a) := by
  let f : UpdateBuilderImpl A → List (GroupEntry A) := fun ub => ub.groups.filter (·.group = a)
  exact (flatMap_range_ubAt q f rfl h).symm

theorem flatMap_filterMap {ι β γ : Type} (f : β → List γ) (e : ι → Option β) (l : List ι) :
    (l.filterMap e).flatMap f = l.flatMap fun i => (e i).toList.flatMap f := by
  rw [List.filterMap_eq_flatMap_toList, List.flatMap_assoc]

section Place

variable [DecidableEq A] {q q' : List (UpdateBuilderImpl A)} {e : ℕ → Option (GroupEntry A)} {g : A}

/-- The other groups keep their entries. -/
theorem entriesIn_of_ne (hat : ∀ i, ubAt q' i = put (ubAt q i) (e i))
    (hlen : q.length ≤ q'.length) (hg : ∀ i, ∀ ge ∈ e i, ge.group = g) {a : A} (ha : a ≠ g) :
    entriesIn a q' = entriesIn a q := by
  rw [entriesIn_eq a q' le_rfl, entriesIn_eq a q hlen]
  apply List.flatMap_congr
  intro i _
  rw [hat, put_groups, List.filter_append]
  have hnil : (e i).toList.filter (·.group = a) = [] := by
    rw [List.filter_eq_nil_iff]
    intro ge hge
    have hgg := hg i ge (by simpa using hge)
    simpa [hgg] using Ne.symm ha
  rw [hnil, List.append_nil]

/-- The group that is placed has the entries that were made for it. -/
theorem entriesIn_self (hat : ∀ i, ubAt q' i = put (ubAt q i) (e i))
    (hg : ∀ i, ∀ ge ∈ e i, ge.group = g)
    (hnew : ∀ i, ∀ ge ∈ (ubAt q i).groups, ge.group ≠ g) :
    entriesIn g q' = (List.range q'.length).filterMap e := by
  rw [entriesIn_eq g q' le_rfl, List.filterMap_eq_flatMap_toList]
  apply List.flatMap_congr
  intro i _
  rw [hat, put_groups, List.filter_append]
  have hold : (ubAt q i).groups.filter (·.group = g) = [] := by
    rw [List.filter_eq_nil_iff]
    intro ge hge
    simpa using hnew i ge hge
  have hall : (e i).toList.filter (·.group = g) = (e i).toList := by
    rw [List.filter_eq_self]
    intro ge hge
    simpa using hg i ge (by simpa using hge)
  rw [hold, hall, List.nil_append]

end Place

/-! ### The invariant of a run -/

structure RunInv [DecidableEq A]
    (Placed : List (GroupConfig A) → GroupConfig A → List (GroupEntry A) → Prop)
    (done : List (GroupConfig A)) (p : UpdatePacker A) : Prop where
  ready : Ready p
  placed : ∀ pre g post, done = pre ++ g :: post → Placed pre g (entriesIn g.group p.ubq)
  only : ∀ i, ∀ ge ∈ (ubAt p.ubq i).groups, ge.group ∈ done.map (·.group)
  distinct : ∀ i, ((ubAt p.ubq i).groups.map (·.group)).Nodup
  nonempty : ∀ i, ∀ ge ∈ (ubAt p.ubq i).groups, ge.joins ≠ [] ∨ ge.prunes ≠ []

section Inv

variable [DecidableEq A]
  {Placed : List (GroupConfig A) → GroupConfig A → List (GroupEntry A) → Prop}

theorem runInv_init : RunInv Placed [] (UpdatePacker.init : UpdatePacker A) where
  ready := ready_init
  placed := by
    intro pre g post h
    simp at h
  only := by
    intro i ge hge
    cases i <;> cases hge
  distinct := by
    intro i
    cases i <;> exact List.nodup_nil
  nonempty := by
    intro i ge hge
    cases i <;> cases hge

/-- Placing a group whose address is new. -/
theorem RunInv.place {done : List (GroupConfig A)} {p p' : UpdatePacker A} {g : GroupConfig A}
    {e : ℕ → Option (GroupEntry A)} (h : RunInv Placed done p)
    (hnew : g.group ∉ done.map (·.group)) (hready : Ready p')
    (hat : ∀ i, ubAt p'.ubq i = put (ubAt p.ubq i) (e i)) (hlen : p.ubq.length ≤ p'.ubq.length)
    (he : ∀ i, ∀ ge ∈ e i, ge.group = g.group ∧ (ge.joins ≠ [] ∨ ge.prunes ≠ []))
    (hplaced : Placed done g ((List.range p'.ubq.length).filterMap e)) :
    RunInv Placed (done ++ [g]) p' := by
  have hfresh : ∀ i, ∀ ge ∈ (ubAt p.ubq i).groups, ge.group ≠ g.group :=
    fun i ge hge heq => hnew (heq ▸ h.only i ge hge)
  have hmem : ∀ i, ∀ ge ∈ (ubAt p'.ubq i).groups,
      ge ∈ (ubAt p.ubq i).groups ∨ ge ∈ e i := by
    intro i ge hge
    rw [hat, put_groups, List.mem_append] at hge
    simpa using hge
  refine ⟨hready, ?_, ?_, ?_, ?_⟩
  · intro pre g' post hdone
    rcases split_snoc hdone with ⟨rfl, rfl, _⟩ | ⟨post', _, hcat⟩
    · rw [entriesIn_self hat (fun i ge hge => (he i ge hge).1) hfresh]
      exact hplaced
    · have hin : g' ∈ done := by
        rw [hcat]
        simp
      have hne : g'.group ≠ g.group := fun heq => hnew (heq ▸ List.mem_map_of_mem hin)
      rw [entriesIn_of_ne hat hlen (fun i ge hge => (he i ge hge).1) hne]
      exact h.placed pre g' post' hcat
  · intro i ge hge
    rw [List.map_append, List.mem_append]
    rcases hmem i ge hge with hold | hin
    · exact Or.inl (h.only i ge hold)
    · exact Or.inr (by simpa using (he i ge hin).1)
  · intro i
    rw [hat, put_groups, List.map_append]
    cases hei : e i with
    | none => simpa using h.distinct i
    | some ge =>
      rw [List.nodup_append]
      refine ⟨h.distinct i, by simp, ?_⟩
      intro a ha b hb hab
      simp only [Option.toList_some, List.map_cons, List.map_nil, List.mem_singleton] at hb
      obtain ⟨ge', hge', rfl⟩ := List.mem_map.mp ha
      exact hfresh i ge' hge' (by rw [hab, hb, (he i ge hei).1])
  · intro i ge hge
    rcases hmem i ge hge with hold | hin
    · exact h.nonempty i ge hold
    · exact (he i ge hin).2

end Inv

/-! ### The updates that are built -/

theorem Ready.build_eq {p : UpdatePacker A} (h : Ready p) :
    ∃ n, n ≤ p.ubq.length ∧ p.build = (p.ubq.take n).map (·.build) ∧
      (∀ i < n, (ubAt p.ubq i).groups ≠ []) ∧ ∀ i, n ≤ i → (ubAt p.ubq i).groups = [] := by
  have hpos : 0 < p.ubq.length := lt_of_le_of_lt (Nat.zero_le _) h.start_lt
  have hout : ∀ i, p.ubq.length ≤ i → (ubAt p.ubq i).groups = [] := by
    intro i hi
    rw [ubAt_of_le hi]
    rfl
  by_cases hlast : (ubAt p.ubq (p.ubq.length - 1)).groups = []
  · have hempty : (p.ubq.getD (p.ubq.length - 1) .init).empty = true :=
      List.isEmpty_iff.mpr hlast
    refine ⟨p.ubq.length - 1, by omega, ?_, ?_, ?_⟩
    · simp only [UpdatePacker.build, hempty, if_true]
    · intro i hi
      exact h.nonempty i (by omega)
    · intro i hi
      rcases Nat.lt_or_ge i p.ubq.length with hlt | hge
      · have hi' : i = p.ubq.length - 1 := by omega
        rw [hi']
        exact hlast
      · exact hout i hge
  · have hempty : (p.ubq.getD (p.ubq.length - 1) .init).empty = false := by
      rw [← Bool.not_eq_true]
      exact fun he => hlast (List.isEmpty_iff.mp he)
    refine ⟨p.ubq.length, le_rfl, ?_, ?_, hout⟩
    · simp only [UpdatePacker.build, hempty, Bool.false_eq_true, if_false]
    · intro i hi
      rcases Nat.lt_or_ge (i + 1) p.ubq.length with hlt | hge
      · exact h.nonempty i hlt
      · have hi' : i = p.ubq.length - 1 := by omega
        rw [hi']
        exact hlast

/-- Leaving out the empty last builder loses no entry. -/
theorem Ready.entriesOf_build [DecidableEq A] {p : UpdatePacker A} (h : Ready p) (a : A) :
    entriesOf a p.build = entriesIn a p.ubq := by
  obtain ⟨n, hn, hbuild, _, hrest⟩ := h.build_eq
  have hdrop : (p.ubq.drop n).flatMap (fun ub => ub.groups.filter (·.group = a)) = [] := by
    rw [List.flatMap_eq_nil_iff]
    intro ub hub
    obtain ⟨i, hi, rfl⟩ := List.mem_iff_getElem.mp hub
    have hlt : n + i < p.ubq.length := by
      rw [List.length_drop] at hi
      omega
    have hnil := hrest (n + i) (Nat.le_add_right n i)
    rw [ubAt_of_lt hlt] at hnil
    rw [List.getElem_drop, hnil]
    rfl
  rw [hbuild, entriesOf, List.flatMap_map, entriesIn]
  conv_rhs => rw [← List.take_append_drop n p.ubq, List.flatMap_append, hdrop, List.append_nil]
  rfl

theorem Ready.mem_build {p : UpdatePacker A} (h : Ready p) {u : Update A} (hu : u ∈ p.build) :
    ∃ i, u.groups = (ubAt p.ubq i).groups ∧ u.groups ≠ [] := by
  obtain ⟨n, hn, hbuild, hne, _⟩ := h.build_eq
  rw [hbuild] at hu
  obtain ⟨ub, hub, rfl⟩ := List.mem_map.mp hu
  obtain ⟨i, hi, rfl⟩ := List.mem_iff_getElem.mp hub
  rw [List.length_take] at hi
  have heq : (p.ubq.take n)[i] = ubAt p.ubq i := by
    rw [List.getElem_take, ubAt_of_lt (by omega)]
  refine ⟨i, ?_, ?_⟩
  · rw [heq]
    rfl
  · rw [heq]
    exact hne i (by omega)

end Pimc
