import Pimc.Pimsm.PackLossless
import Pimc.TestGen.Pack

/-!
# The reference packer agrees with the packer

An update of the reference agrees with an update builder if it has the same
entries (`Agrees`). Both packers put the same entry of a group, `packEntry`,
into the update of the same index.
-/

namespace Pimc.TestGen

open Lib Params UpdatePacker

variable {A : Type}

/-! ### Groups as entries -/

namespace Group

/-- The group that the generator makes of the configuration of a group. -/
def ofConfig (g : GroupConfig A) : Group A := ⟨g.group, g.spt, g.rpt.map (·.rp), g.prunes⟩

/-- The joins are the sources, then the RP. -/
def toEntry (g : Group A) : GroupEntry A :=
  ⟨g.addr, g.joinedSources.map sgSource ++ (g.rp.map rpSource).toList,
    g.rptPrunedSources.map rptSource⟩

def Valid (g : Group A) : Prop := g.joinedSources ≠ [] ∨ g.rp.isSome = true

variable [LinearOrder A] [ToString A]

omit [LinearOrder A] in
theorem size_eq {g : Group A} (h : g.Valid) : g.size = .ret (g.toEntry.size : ℤ) := by
  have hnot : ¬(g.joinedSources.length = 0 ∧ g.rp = none) := by
    intro h'
    obtain ⟨hnil, hnone⟩ := h'
    rcases h with h | h
    · exact h (List.eq_nil_of_length_eq_zero hnil)
    · rw [hnone] at h
      cases h
  unfold size
  rw [if_neg hnot]
  congr 1
  cases hrp : g.rp with
  | none =>
    simp [toEntry, GroupEntry.size, hrp]
    omega
  | some rp =>
    simp [toEntry, GroupEntry.size, hrp]
    omega

omit [ToString A] in
theorem sorted_nil_append {xs : List A} (h : xs.SortedLT) :
    ([] ++ xs).mergeSort (fun a b => decide (a ≤ b)) = xs := by
  rw [List.nil_append]
  exact List.mergeSort_eq_self (r := (· ≤ ·)) (List.sortedLE_iff_pairwise.mp h.sortedLE)

omit [ToString A] in
theorem init_join {addr : A} {xs : List A} (h : xs.SortedLT) :
    (init addr).join xs = ⟨addr, xs, none, []⟩ := by
  unfold join init
  rw [sorted_nil_append h]

theorem rptPrune_eq {addr rp : A} {js ps : List A} (h : ps.SortedLT) (hlen : ps.length ≤ 180) :
    (⟨addr, js, some rp, []⟩ : Group A).rptPrune ps = .ret ⟨addr, js, some rp, ps⟩ := by
  have hnot : ¬ps.length > 180 := by omega
  simp only [rptPrune, Option.isNone_some, Bool.false_eq_true, if_false]
  rw [sorted_nil_append h, if_neg hnot]

omit [ToString A] in
theorem sorted_sublist {xs ys : List A} (h : ys.SortedLT) (hs : xs.Sublist ys) : xs.SortedLT :=
  List.sortedLT_iff_pairwise.mpr ((List.sortedLT_iff_pairwise.mp h).sublist hs)

omit [LinearOrder A] [ToString A] in
theorem take_capped (xs : List A) (n : ℕ) :
    xs.take (if (n : ℤ) > xs.length then (xs.length : ℤ) else n).toNat = xs.take n := by
  split_ifs with h
  · rw [Int.toNat_natCast, List.take_of_length_le le_rfl, List.take_of_length_le (by omega)]
  · rw [Int.toNat_natCast]

omit [LinearOrder A] [ToString A] in
theorem drop_capped (xs : List A) (n : ℕ) :
    xs.drop (if (n : ℤ) > xs.length then (xs.length : ℤ) else n).toNat = xs.drop n := by
  split_ifs with h
  · rw [Int.toNat_natCast, List.drop_of_length_le le_rfl, List.drop_of_length_le (by omega)]
  · rw [Int.toNat_natCast]

theorem takeSgJoins_eq {g : Group A} {n : ℕ} (hn : 1 ≤ n) (hne : g.joinedSources ≠ [])
    (hjs : g.joinedSources.SortedLT) (hps : g.rptPrunedSources.SortedLT)
    (hlen : g.rptPrunedSources.length ≤ 180) (hnone : g.rp = none → g.rptPrunedSources = []) :
    g.takeSgJoins n = .ret (⟨g.addr, g.joinedSources.take n, none, []⟩,
      ⟨g.addr, g.joinedSources.drop n, g.rp, g.rptPrunedSources⟩) := by
  have hpos : ¬(n : ℤ) < 1 := by omega
  have hlen0 : ¬g.joinedSources.length = 0 := fun h => hne (List.eq_nil_of_length_eq_zero h)
  have hdrop : (if (if (n : ℤ) > g.joinedSources.length then (g.joinedSources.length : ℤ)
      else n) < g.joinedSources.length then (init g.addr).join (g.joinedSources.drop n)
      else init g.addr) = ⟨g.addr, g.joinedSources.drop n, none, []⟩ := by
    rw [init_join (sorted_sublist hjs (List.drop_sublist n _))]
    by_cases hcap : (n : ℤ) > g.joinedSources.length
    · have hnil : g.joinedSources.drop n = [] := List.drop_of_length_le (by omega)
      rw [hnil, init]
      exact ite_self _
    · rw [if_neg hcap]
      by_cases hlt : (n : ℤ) < g.joinedSources.length
      · rw [if_pos hlt]
      · have hnil : g.joinedSources.drop n = [] := List.drop_of_length_le (by omega)
        rw [if_neg hlt, hnil, init]
  simp only [takeSgJoins, if_neg hpos, if_neg hlen0, take_capped, drop_capped, hdrop,
    init_join (sorted_sublist hjs (List.take_sublist n _))]
  cases hrp : g.rp with
  | none => simp [hnone hrp]
  | some rp => simp [joinRp, rptPrune_eq hps hlen]

theorem takeSgJoinsAndRpt_eq {g : Group A} {rp : A} (hrp : g.rp = some rp) (n : ℕ)
    (hjs : g.joinedSources.SortedLT) (hps : g.rptPrunedSources.SortedLT)
    (hlen : g.rptPrunedSources.length ≤ 180) :
    g.takeSgJoinsAndRpt n = .ret (⟨g.addr, g.joinedSources.take n, some rp, g.rptPrunedSources⟩,
      ⟨g.addr, g.joinedSources.drop n, none, []⟩) := by
  have hpos : ¬(n : ℤ) < 0 := by omega
  simp only [takeSgJoinsAndRpt, if_neg hpos, hrp, take_capped, drop_capped,
    init_join (sorted_sublist hjs (List.take_sublist n _)),
    init_join (sorted_sublist hjs (List.drop_sublist n _))]
  simp [joinRp, rptPrune_eq hps hlen]

end Group

/-! ### Updates as builders -/

structure Agrees (ub : UpdateBuilderImpl A) (u : Update A) : Prop where
  maxSize : u.maxSize = 1466
  groups : u.groups.map Group.toEntry = ub.groups
  valid : ∀ g ∈ u.groups, g.Valid

theorem agrees_init : Agrees (.init : UpdateBuilderImpl A) .init :=
  ⟨rfl, rfl, fun _ hg => by cases hg⟩

section Agree

variable [ToString A] {ub : UpdateBuilderImpl A} {u : Update A}

theorem size_eq {gs : List (Group A)} (h : ∀ g ∈ gs, g.Valid) (n : ℤ) :
    (gs.foldlM (fun sum g => do
      let sz ← g.size
      return sum + sz) n : Outcome String ℤ) =
      .ret (n + (entriesSize (gs.map Group.toEntry) : ℤ)) := by
  induction gs generalizing n with
  | nil => simp [entriesSize]
  | cons g gs ih =>
    have hg := Group.size_eq (h g (List.mem_cons_self ..))
    rw [List.foldlM_cons, hg, Outcome.ret_bind, Outcome.pure_eq, Outcome.ret_bind,
      ih (fun g' hg' => h g' (List.mem_cons_of_mem g hg'))]
    simp only [entriesSize, List.map_cons, List.sum_cons]
    congr 1
    omega

theorem remaining_eq (h : Agrees ub u) (hs : Sized ub) :
    u.remaining = .ret (ub.remaining : ℤ) := by
  have hadd := hs.remaining_add
  have hsize : u.size = .ret (ub.sz : ℤ) := by
    unfold Update.size
    rw [size_eq h.valid, h.groups, hs.sz_eq, Int.zero_add]
  simp only [Update.remaining, hsize, h.maxSize, Outcome.ret_bind, Outcome.pure_eq]
  simp only [JPCapacity] at hadd
  congr 1
  omega

theorem full_eq (h : Agrees ub u) (hs : Sized ub) :
    u.full = .ret (decide (ub.remaining < 20)) := by
  simp only [Update.full, remaining_eq h hs, Outcome.ret_bind, Outcome.pure_eq]
  congr 1
  apply Bool.eq_iff_iff.mpr
  simp

theorem not_full (h : Agrees ub u) (hs : Sized ub) (hroom : 20 ≤ ub.remaining) :
    u.full = .ret false := by
  rw [full_eq h hs, decide_eq_false (by omega)]

theorem Agrees.add (h : Agrees ub u) (hs : Sized ub) {g : Group A} (hg : g.Valid)
    (hfit : g.toEntry.size ≤ ub.remaining) :
    ∃ u', u.add g = .ret u' ∧ Agrees (put ub (some g.toEntry)) u' := by
  have hnot : ¬(g.toEntry.size : ℤ) > ub.remaining := by omega
  refine ⟨⟨u.maxSize, u.groups ++ [g]⟩, ?_, h.maxSize, ?_, ?_⟩
  · simp only [Update.add, remaining_eq h hs, Group.size_eq hg, Outcome.ret_bind]
    rw [if_neg hnot]
    rfl
  · rw [List.map_append, h.groups]
    rfl
  · intro g' hg'
    rcases List.mem_append.mp hg' with h' | h'
    · exact h.valid g' h'
    · rw [List.mem_singleton.mp h']
      exact hg

end Agree

theorem maxSources_natCast {n : ℕ} (h : 12 ≤ n) :
    TestGen.maxSources (n : ℤ) = ((n - 12) / 8 : ℕ) := by
  unfold TestGen.maxSources
  rw [← Nat.cast_ofNat (R := ℤ), ← Nat.cast_sub h]
  rfl

/-! ### The list of updates -/

/-- The updates agree with the builders `v`, and only the last one may be empty. -/
structure Queue (v : ℕ → UpdateBuilderImpl A) (us : List (Update A)) : Prop where
  agrees : ∀ i, Agrees (v i) (us.getD i .init)
  pos : 0 < us.length
  nonempty : ∀ i, i + 1 < us.length → (v i).groups ≠ []

theorem queue_init : Queue (ubAt (UpdatePacker.init : UpdatePacker A).ubq)
    (PackBuilder.init : PackBuilder A).updates where
  agrees := by
    intro i
    cases i with
    | zero => exact agrees_init
    | succ i => exact agrees_init
  pos := Nat.zero_lt_one
  nonempty := by
    intro i hi
    simp only [PackBuilder.init, List.length_singleton] at hi
    omega

theorem groups_eq_nil {v : ℕ → UpdateBuilderImpl A} {us : List (Update A)} {i : ℕ}
    (h : Agrees (v i) (us.getD i .init)) (hi : us.length ≤ i) : (v i).groups = [] := by
  rw [← h.groups, List.getD_eq_default us .init hi]
  rfl

theorem remaining_of_nil {ub : UpdateBuilderImpl A} (hs : Sized ub) (h : ub.groups = []) :
    ub.remaining = JPCapacity := by
  have hsz := hs.sz_eq
  have hadd := hs.remaining_add
  rw [h] at hsz
  simp only [entriesSize, List.map_nil, List.sum_nil] at hsz
  omega

namespace PackBuilder

theorem getD_uq (us : List (Update A)) (i j : ℕ) : (uq us i).getD j .init = us.getD j .init := by
  unfold uq
  split_ifs
  · rfl
  · rcases Nat.lt_or_ge j us.length with h | h
    · exact List.getD_append us [.init] .init j h
    · rw [List.getD_append_right us [.init] .init j h, List.getD_eq_default us .init h]
      cases j - us.length with
      | zero => rfl
      | succ k => rfl

theorem length_uq (us : List (Update A)) {i : ℕ} (hi : i ≤ us.length) :
    (uq us i).length = max us.length (i + 1) := by
  unfold uq
  split_ifs with h
  · omega
  · rw [List.length_append, List.length_singleton]
    omega

/-! ### The search -/

section Find

variable [ToString A] {v : ℕ → UpdateBuilderImpl A} {us : List (Update A)}

structure FindInv (v : ℕ → UpdateBuilderImpl A) (us : List (Update A)) (need : ℕ)
    (s : FindLoop A) : Prop where
  queue : Queue v s.updates
  le_length : s.i ≤ s.updates.length
  length_le : us.length ≤ s.updates.length
  before : ∀ j < s.i, (v j).remaining < need
  found : s.found = true → s.i < s.updates.length ∧ need ≤ (v s.i).remaining

def findVariant (us : List (Update A)) (s : FindLoop A) : ℕ :=
  us.length + 1 - s.i + if s.found then 0 else 1

theorem findBody_spec (hsized : ∀ i, Sized (v i)) {need : ℕ} (hneed : need ≤ JPCapacity)
    (hus : Queue v us) (s : FindLoop A) (h : FindInv v us need s) (hg : (!s.found) = true) :
    ∃ t, findBody (need : ℤ) s = .ret t ∧ FindInv v us need t ∧
      findVariant us t < findVariant us s := by
  have hfalse : s.found = false := by simpa using hg
  have hlen := length_uq s.updates h.le_length
  have hqueue : Queue v (uq s.updates s.i) := by
    refine ⟨fun j => ?_, by omega, fun j hj => ?_⟩
    · rw [getD_uq]
      exact h.queue.agrees j
    · rw [hlen] at hj
      rcases Nat.lt_or_ge j s.i with hji | hji
      · exact (hsized j).groups_ne_nil (lt_of_lt_of_le (h.before j hji) hneed)
      · exact h.queue.nonempty j (by omega)
  have hrem : ((uq s.updates s.i).getD s.i .init).remaining = .ret ((v s.i).remaining : ℤ) :=
    remaining_eq (hqueue.agrees s.i) (hsized s.i)
  have hbody : findBody (need : ℤ) s = if ((v s.i).remaining : ℤ) ≥ need then
      .ret ⟨uq s.updates s.i, s.i, true⟩ else .ret ⟨uq s.updates s.i, s.i + 1, false⟩ := by
    simp only [findBody, hrem, Outcome.ret_bind, Outcome.pure_eq]
  rw [hbody]
  by_cases hfit : need ≤ (v s.i).remaining
  · rw [if_pos (by omega)]
    refine ⟨_, rfl, ⟨hqueue, ?_, ?_, h.before, fun _ => ⟨?_, hfit⟩⟩, ?_⟩
    · show s.i ≤ (uq s.updates s.i).length
      omega
    · show us.length ≤ (uq s.updates s.i).length
      have hle := h.length_le
      omega
    · show s.i < (uq s.updates s.i).length
      omega
    · simp [findVariant, hfalse]
  · rw [if_neg (by omega)]
    refine ⟨_, rfl, ⟨hqueue, ?_, ?_, ?_, fun hf => by cases hf⟩, ?_⟩
    · show s.i + 1 ≤ (uq s.updates s.i).length
      omega
    · show us.length ≤ (uq s.updates s.i).length
      have hle := h.length_le
      omega
    · intro j hj
      rcases Nat.lt_succ_iff_lt_or_eq.mp hj with hj | rfl
      · exact h.before j hj
      · exact Nat.lt_of_not_le hfit
    · have hin : s.i < us.length := by
        by_contra hge
        have hnil := groups_eq_nil (hus.agrees s.i) (Nat.le_of_not_lt hge)
        rw [remaining_of_nil (hsized s.i) hnil] at hfit
        exact hfit hneed
      simp only [findVariant, hfalse]
      omega

theorem findUpdateForRpt_spec (hsized : ∀ i, Sized (v i)) (hus : Queue v us)
    {g : GroupConfig A} (hlim : PruneLimit g) :
    ∃ us' k, Returns (fun fuel => findUpdateForRpt fuel ⟨us⟩ (Group.ofConfig g)) (⟨us'⟩, k) ∧
      Queue v us' ∧ IsRptUb v g k ∧ ∀ i ∈ k, i < us'.length := by
  cases hrpt : g.rpt with
  | none =>
    refine ⟨us, none, Returns.of_eq fun fuel => ?_, hus, ?_, ?_⟩
    · simp [findUpdateForRpt, Group.hasRpt, Group.ofConfig, hrpt]
    · simp [IsRptUb, hrpt]
    · intro i hi
      cases hi
  | some rpt =>
    have hneed := rptSz_bounds hlim hrpt
    have hrp : (Group.ofConfig g).hasRpt = true := by simp [Group.hasRpt, Group.ofConfig, hrpt]
    have hprunes : (Group.ofConfig g).rptPrunedSources = rpt.prunes := by
      simp [Group.ofConfig, GroupConfig.prunes, hrpt]
    have hsz : (Group.ofConfig g).rptSize = (rptSz rpt : ℤ) := by
      rw [Group.rptSize, hprunes, rptSz_eq, reserve_eq]
      simp only [Group.ofConfig, hrpt, Option.map_some, Option.isNone_some, Bool.false_eq_true,
        if_false]
      omega
    have hmax : ¬(rptSz rpt : ℤ) > (us.getD 0 .init).maxSize := by
      rw [(hus.agrees 0).maxSize]
      have hle := hneed.2
      simp only [JPCapacity] at hle
      omega
    obtain ⟨s, hret, hinv, hg⟩ := whileLoop_total (FindInv v us (rptSz rpt)) (findVariant us)
      (findBody_spec hsized hneed.2 hus) ⟨us, 0, false⟩
      ⟨hus, Nat.zero_le _, le_rfl, fun j hj => absurd hj (Nat.not_lt_zero j), fun hf => by cases hf⟩
    obtain ⟨hlt, hfit⟩ := hinv.found (by simpa using hg)
    refine ⟨s.updates, some s.i, ?_, hinv.queue, ?_, ?_⟩
    · simp only [findUpdateForRpt, hrp, hsz, Bool.not_true, Bool.false_eq_true, if_false]
      simp only [if_neg hmax]
      exact hret.bind (Returns.of_eq fun _ => rfl)
    · simp only [IsRptUb, hrpt]
      exact ⟨s.i, rfl, hfit, hinv.before⟩
    · intro i hi
      cases hi
      exact hlt

end Find

end PackBuilder

end Pimc.TestGen
