import Pimc.Pimsm.InverseLossless
import Pimc.TestGen.InversePack
import Pimc.TestGen.PackAgrees

/-!
# The reference for inverse packing loses nothing

The updates of the reference are read as the builders of a packer that starts
at the first of them. The reference puts the entries of a group where the packer
does, and puts the RP into a single free slot as well.
-/

namespace Pimc.TestGen

open Lib Params UpdatePacker InverseUpdatePacker

variable {A : Type}

/-! ### Groups as entries -/

namespace InverseGroup

-- The prunes that are left, the RP first.
def items (g : InverseGroup A) : List (Source A) :=
  (g.prunedRp.map rpSource).toList ++ g.prunedSources.map sgSource

def toEntry (g : InverseGroup A) : GroupEntry A := ⟨g.addr, [], g.items⟩

theorem hasPrunedSources_iff {g : InverseGroup A} : g.hasPrunedSources = true ↔ g.items ≠ [] := by
  unfold hasPrunedSources items
  cases g.prunedRp with
  | none => simp [List.length_pos_iff]
  | some rp => simp

theorem length_items (g : InverseGroup A) :
    g.items.length = (if g.prunedRp.isSome then 1 else 0) + g.prunedSources.length := by
  unfold items
  cases g.prunedRp with
  | none => simp
  | some rp => simp [Nat.add_comm]

theorem inverse_items (g : GroupConfig A) :
    (inverse (Group.ofConfig g)).items = inverseItems g false := by
  unfold inverse Group.ofConfig items
  cases hrpt : g.rpt with
  | none => simp [inverseItems_none hrpt]
  | some rpt => simp [inverseItems_some hrpt]

theorem size_eq [ToString A] {g : InverseGroup A} (h : g.items ≠ []) :
    g.size = .ret (g.toEntry.size : ℤ) := by
  have hlen := g.length_items
  have hpos : 0 < g.items.length := List.length_pos_iff.mpr h
  have hnot : ¬(g.prunedSources.length = 0 ∧ g.prunedRp = none) := by
    intro hnone
    rw [hnone.1, hnone.2] at hlen
    simp only [Option.isSome_none, Bool.false_eq_true, if_false] at hlen
    omega
  unfold size
  rw [if_neg hnot]
  congr 1
  simp only [toEntry, GroupEntry.size, hlen, List.length_nil]
  split_ifs <;> omega

section Take

variable [LinearOrder A] [ToString A]

omit [ToString A] in
theorem init_prune {addr : A} {rp : Option A} {xs : List A} (h : xs.SortedLT) :
    (⟨addr, [], rp⟩ : InverseGroup A).prune xs = ⟨addr, xs, rp⟩ := by
  unfold prune
  rw [Group.sorted_nil_append h]

/-- The first `n` prunes and the others. -/
theorem takePrunes_spec {g : InverseGroup A} {n : ℕ} (hn : 1 ≤ n) (hne : g.items ≠ [])
    (hs : g.prunedSources.SortedLT) :
    ∃ a b, g.takePrunes n = .ret (a, b) ∧ a.toEntry = ⟨g.addr, [], g.items.take n⟩ ∧
      b.addr = g.addr ∧ b.items = g.items.drop n ∧ b.prunedSources.SortedLT := by
  have hpos : ¬(n : ℤ) < 1 := by omega
  have hhas := hasPrunedSources_iff.mpr hne
  have htake : ∀ m, (g.prunedSources.take m).SortedLT :=
    fun m => Group.sorted_sublist hs (List.take_sublist m _)
  have hdrop : ∀ m, (g.prunedSources.drop m).SortedLT :=
    fun m => Group.sorted_sublist hs (List.drop_sublist m _)
  cases hrp : g.prunedRp with
  | none =>
    refine ⟨⟨g.addr, g.prunedSources.take n, none⟩, ⟨g.addr, g.prunedSources.drop n, none⟩,
      ?_, ?_, rfl, ?_, hdrop n⟩
    · simp only [takePrunes, if_neg hpos, hhas, hrp, Option.isSome_none, Bool.not_true,
        Bool.false_eq_true, if_false, Group.take_capped, Group.drop_capped, init,
        init_prune (htake n), init_prune (hdrop n), Outcome.ret_bind, Outcome.pure_eq]
    · simp [toEntry, items, hrp]
    · simp [items, hrp]
  | some rp =>
    -- One prune is the RP.
    obtain ⟨m, rfl⟩ : ∃ m, n = m + 1 := ⟨n - 1, by omega⟩
    have hcount : ((m + 1 : ℕ) : ℤ) - 1 = (m : ℤ) := by omega
    refine ⟨⟨g.addr, g.prunedSources.take m, some rp⟩, ⟨g.addr, g.prunedSources.drop m, none⟩,
      ?_, ?_, rfl, ?_, hdrop m⟩
    · simp only [takePrunes, if_neg hpos, hhas, hrp, Option.isSome_some, Option.isSome_none,
        Bool.not_true, Bool.false_eq_true, if_false, if_true, pruneRp, hcount, Group.take_capped,
        Group.drop_capped, init, init_prune (htake m), init_prune (hdrop m), Outcome.ret_bind,
        Outcome.pure_eq]
    · simp [toEntry, items, hrp]
    · simp [items, hrp]

end Take

end InverseGroup

/-! ### Updates as builders -/

namespace InverseUpdate

def toBuilder (u : InverseUpdate A) : UpdateBuilderImpl A :=
  ⟨u.groups.map InverseGroup.toEntry, entriesSize (u.groups.map InverseGroup.toEntry)⟩

def toUpdate (u : InverseUpdate A) : Pimc.Update A := ⟨u.groups.map InverseGroup.toEntry⟩

structure Valid (u : InverseUpdate A) : Prop where
  maxSize : u.maxSize = 1466
  items : ∀ g ∈ u.groups, g.items ≠ []

theorem valid_init : Valid (.init : InverseUpdate A) := ⟨rfl, fun _ hg => by cases hg⟩

section Size

variable [ToString A] {u : InverseUpdate A}

theorem size_eq {gs : List (InverseGroup A)} (h : ∀ g ∈ gs, g.items ≠ []) (n : ℤ) :
    (gs.foldlM (fun sum g => do
      let sz ← g.size
      return sum + sz) n : Outcome String ℤ) =
      .ret (n + (entriesSize (gs.map InverseGroup.toEntry) : ℤ)) := by
  induction gs generalizing n with
  | nil => simp [entriesSize]
  | cons g gs ih =>
    have hg := InverseGroup.size_eq (h g List.mem_cons_self)
    have hgs : ∀ g' ∈ gs, g'.items ≠ [] := fun g' hg' => h g' (List.mem_cons_of_mem g hg')
    rw [List.foldlM_cons, hg, Outcome.ret_bind, Outcome.pure_eq, Outcome.ret_bind, ih hgs]
    simp only [entriesSize, List.map_cons, List.sum_cons]
    congr 1
    omega

theorem remaining_eq (h : u.Valid) (hs : Sized u.toBuilder) :
    u.remaining = .ret (u.toBuilder.remaining : ℤ) := by
  have hadd := hs.remaining_add
  have hsize : u.size = .ret (u.toBuilder.sz : ℤ) := by
    unfold size
    rw [size_eq h.items, Int.zero_add]
    rfl
  simp only [remaining, hsize, h.maxSize, Outcome.ret_bind, Outcome.pure_eq]
  simp only [JPCapacity] at hadd
  congr 1
  omega

theorem full_eq (h : u.Valid) (hs : Sized u.toBuilder) :
    u.full = .ret (decide (u.toBuilder.remaining < 20)) := by
  simp only [full, remaining_eq h hs, Outcome.ret_bind, Outcome.pure_eq]
  congr 1
  apply Bool.eq_iff_iff.mpr
  simp

theorem add_spec (h : u.Valid) (hs : Sized u.toBuilder) {g : InverseGroup A} (hg : g.items ≠ [])
    (hfit : g.toEntry.size ≤ u.toBuilder.remaining) :
    ∃ u', u.add g = .ret u' ∧ u'.Valid ∧ u'.toBuilder = put u.toBuilder (some g.toEntry) := by
  have hnot : ¬(g.toEntry.size : ℤ) > u.toBuilder.remaining := by omega
  refine ⟨⟨u.maxSize, u.groups ++ [g]⟩, ?_, ⟨h.maxSize, ?_⟩, ?_⟩
  · simp only [add, remaining_eq h hs, InverseGroup.size_eq hg, Outcome.ret_bind]
    rw [if_neg hnot]
    rfl
  · intro g' hg'
    rcases List.mem_append.mp hg' with h' | h'
    · exact h.items g' h'
    · rw [List.mem_singleton.mp h']
      exact hg
  · simp [toBuilder, put, entriesSize]

end Size

end InverseUpdate

/-! ### The list of updates -/

namespace InversePackBuilder

/-- The updates as the queue of a packer. -/
def packer (us : List (InverseUpdate A)) : UpdatePacker A := ⟨us.map InverseUpdate.toBuilder, 0⟩

theorem ubAt_packer (us : List (InverseUpdate A)) (i : ℕ) :
    ubAt (packer us).ubq i = (us.getD i .init).toBuilder :=
  List.getD_map us InverseUpdate.init InverseUpdate.toBuilder

@[simp] theorem length_packer (us : List (InverseUpdate A)) :
    (packer us).ubq.length = us.length := List.length_map _

/-- The updates of the reference are the builders of a packer in order. -/
structure Queue (us : List (InverseUpdate A)) : Prop where
  valid : ∀ u ∈ us, u.Valid
  ready : Ready (packer us)

theorem queue_init : Queue (InversePackBuilder.init : InversePackBuilder A).updates where
  valid := by
    intro u hu
    rw [List.mem_singleton.mp hu]
    exact InverseUpdate.valid_init
  ready := ready_init

namespace Queue

variable {us : List (InverseUpdate A)}

theorem getD_valid (h : Queue us) (i : ℕ) : (us.getD i .init).Valid := by
  rcases Nat.lt_or_ge i us.length with hi | hi
  · rw [List.getD_eq_getElem us .init hi]
    exact h.valid _ (List.getElem_mem hi)
  · rw [List.getD_eq_default us .init hi]
    exact InverseUpdate.valid_init

theorem getD_sized (h : Queue us) (i : ℕ) : Sized (us.getD i .init).toBuilder := by
  rw [← ubAt_packer]
  exact h.ready.sized i

theorem ubAt_uq (us : List (InverseUpdate A)) (i j : ℕ) :
    ubAt (packer (uq us i)).ubq j = ubAt (packer us).ubq j := by
  unfold uq
  split_ifs with hi
  · rfl
  · show ubAt ((us ++ [InverseUpdate.init]).map InverseUpdate.toBuilder) j = _
    rw [List.map_append]
    exact ubAt_append_init _ j

theorem length_uq (us : List (InverseUpdate A)) {i : ℕ} (hi : i ≤ us.length) :
    (uq us i).length = max us.length (i + 1) := by
  unfold uq
  split_ifs with h
  · omega
  · rw [List.length_append, List.length_singleton]
    omega

/-- The generator appends an update behind updates that have entries. -/
theorem uq (h : Queue us) {i : ℕ} (hi : i ≤ us.length)
    (hne : ∀ j < i, (ubAt (packer us).ubq j).groups ≠ []) : Queue (uq us i) where
  valid := by
    intro u hu
    unfold InversePackBuilder.uq at hu
    split_ifs at hu
    · exact h.valid u hu
    · rcases List.mem_append.mp hu with hu | hu
      · exact h.valid u hu
      · rw [List.mem_singleton.mp hu]
        exact InverseUpdate.valid_init
  ready := by
    have hlen := length_uq us hi
    refine ⟨?_, fun j hj => absurd hj (Nat.not_lt_zero j), ?_, ?_⟩
    · show 0 < (packer (InversePackBuilder.uq us i)).ubq.length
      rw [length_packer, hlen]
      omega
    · intro j
      rw [ubAt_uq]
      exact h.ready.sized j
    · intro j hj
      rw [length_packer, hlen] at hj
      rw [ubAt_uq]
      rcases Nat.lt_or_ge j i with hji | hji
      · exact hne j hji
      · exact h.ready.nonempty j (by rw [length_packer]; omega)

theorem set (h : Queue us) {k : ℕ} (hk : k < us.length) {u : InverseUpdate A} (hu : u.Valid)
    {ge : GroupEntry A} (hub : u.toBuilder = put (ubAt (packer us).ubq k) (some ge))
    (hfit : ge.size ≤ (ubAt (packer us).ubq k).remaining) : Queue (us.set k u) where
  valid := by
    intro u' hu'
    rcases List.mem_or_eq_of_mem_set hu' with hin | rfl
    · exact h.valid u' hin
    · exact hu
  ready := by
    have hset := h.ready.set (by rw [length_packer]; exact hk) hfit
    rw [← hub] at hset
    have heq : packer (us.set k u) =
        { packer us with ubq := (packer us).ubq.set k u.toBuilder } := by
      simp only [packer, List.map_set]
    rw [heq]
    exact hset

theorem ubAt_set (h : k < us.length) (u : InverseUpdate A) (i : ℕ) :
    ubAt (packer (us.set k u)).ubq i = if i = k then u.toBuilder else ubAt (packer us).ubq i := by
  have heq : (packer (us.set k u)).ubq = (packer us).ubq.set k u.toBuilder := List.map_set
  rw [heq, Pimc.ubAt_set (by rw [length_packer]; exact h)]

end Queue

end InversePackBuilder

end Pimc.TestGen
