import Pimc.TestGen.PackAgrees

/-!
# Both packers return the same updates

The reference scans the updates from the first one for every group, the packer
from its start index; what either puts into update `i` is `packEntry`.
-/

namespace Pimc.TestGen

open Lib Params UpdatePacker

variable {A : Type}

namespace PackBuilder

/-- What is left of a group to be placed. -/
def rest (g : GroupConfig A) (pending : Bool) (xs : List A) : Group A :=
  ⟨g.group, xs, if pending = true then g.rpt.map (·.rp) else none,
    if pending = true then g.prunes else []⟩

/-- The lists that the loader and the generator keep in ascending order. -/
structure Ascending [LinearOrder A] (g : GroupConfig A) : Prop where
  spt : g.spt.SortedLT
  prunes : g.prunes.SortedLT

section Place

variable [LinearOrder A] [ToString A]

/-- Where the loop stands: the updates before `i` have their entries, the
others are as they were. -/
structure PlaceInv (v : ℕ → UpdateBuilderImpl A) (us : List (Update A)) (g : GroupConfig A)
    (k : Option ℕ) (s : PlaceLoop A) : Prop where
  before : ∀ j < s.i, Agrees (put (v j) (packEntry g (packRooms v g k) k j))
    (s.updates.getD j .init)
  after : ∀ j, s.i ≤ j → Agrees (v j) (s.updates.getD j .init)
  le_length : s.i ≤ s.updates.length
  length_le : us.length ≤ s.updates.length
  pos : 0 < s.updates.length
  nonempty_before : ∀ j < s.i, (put (v j) (packEntry g (packRooms v g k) k j)).groups ≠ []
  nonempty_after : ∀ j, s.i ≤ j → j + 1 < s.updates.length → (v j).groups ≠ []
  rptUpdate_eq : s.rptUpdate = k.filter (s.i ≤ ·)
  g_eq : s.g = rest g s.rptUpdate.isSome (g.spt.drop (taken (packRooms v g k) s.i))
  done_iff : s.done = true ↔ g.spt.length ≤ taken (packRooms v g k) s.i

variable {v : ℕ → UpdateBuilderImpl A} {us : List (Update A)} {g : GroupConfig A}
  {k : Option ℕ} {s : PlaceLoop A}

omit [LinearOrder A] [ToString A] in
/-- The loop goes on to the next update. -/
theorem PlaceInv.move (h : PlaceInv v us g k s) {u : Update A} {rptUpdate : Option ℕ}
    {done : Bool}
    (hu : Agrees (put (v s.i) (packEntry g (packRooms v g k) k s.i)) u)
    (hne : (put (v s.i) (packEntry g (packRooms v g k) k s.i)).groups ≠ [])
    (hrpt : rptUpdate = k.filter (s.i + 1 ≤ ·))
    (hdone : done = true ↔ g.spt.length ≤ taken (packRooms v g k) (s.i + 1)) :
    PlaceInv v us g k ⟨(uq s.updates s.i).set s.i u, s.i + 1,
      rest g rptUpdate.isSome (g.spt.drop (taken (packRooms v g k) (s.i + 1))), rptUpdate, done⟩ := by
  have hlen := length_uq s.updates h.le_length
  have hget : ∀ j, ((uq s.updates s.i).set s.i u).getD j .init =
      if j = s.i then u else s.updates.getD j .init := by
    intro j
    rw [List.getD_eq_getElem?_getD, List.getElem?_set]
    by_cases hj : s.i = j
    · rw [if_pos hj, if_pos hj.symm, if_pos (by omega)]
      rfl
    · rw [if_neg hj, if_neg (Ne.symm hj), ← List.getD_eq_getElem?_getD, getD_uq]
  have hlen' : ((uq s.updates s.i).set s.i u).length = max s.updates.length (s.i + 1) := by
    rw [List.length_set, hlen]
  refine ⟨?_, ?_, ?_, ?_, ?_, ?_, ?_, hrpt, rfl, hdone⟩
  · intro j hj
    show Agrees _ (((uq s.updates s.i).set s.i u).getD j .init)
    rw [hget]
    by_cases hji : j = s.i
    · rw [if_pos hji, hji]
      exact hu
    · rw [if_neg hji]
      exact h.before j (Nat.lt_of_le_of_ne (Nat.le_of_lt_succ hj) hji)
  · intro j hj
    have hji : s.i + 1 ≤ j := hj
    show Agrees _ (((uq s.updates s.i).set s.i u).getD j .init)
    rw [hget, if_neg (by omega)]
    exact h.after j (by omega)
  · show s.i + 1 ≤ ((uq s.updates s.i).set s.i u).length
    omega
  · show us.length ≤ ((uq s.updates s.i).set s.i u).length
    have hle := h.length_le
    omega
  · show 0 < ((uq s.updates s.i).set s.i u).length
    omega
  · intro j hj
    by_cases hji : j = s.i
    · rw [hji]
      exact hne
    · exact h.nonempty_before j (Nat.lt_of_le_of_ne (Nat.le_of_lt_succ hj) hji)
  · intro j hj hlt
    have hji : s.i + 1 ≤ j := hj
    have hlt' : j + 1 < ((uq s.updates s.i).set s.i u).length := hlt
    exact h.nonempty_after j (by omega) (by omega)

def placeVariant (us : List (Update A)) (g : GroupConfig A) (k : Option ℕ)
    (v : ℕ → UpdateBuilderImpl A) (s : PlaceLoop A) : ℕ :=
  (us.length + 1 - s.i) + (g.spt.length - taken (packRooms v g k) s.i)

omit [LinearOrder A] [ToString A] in
theorem hasJoinedSources_rest (pending : Bool) (n : ℕ) :
    (!(rest g pending (g.spt.drop n)).hasJoinedSources) = true ↔ g.spt.length ≤ n := by
  simp only [rest, Group.hasJoinedSources, List.length_drop, Bool.not_eq_true', decide_eq_false_iff_not]
  omega

omit [LinearOrder A] [ToString A] in
theorem PlaceInv.current (h : PlaceInv v us g k s) :
    Agrees (v s.i) ((uq s.updates s.i).getD s.i .init) := by
  rw [getD_uq]
  exact h.after s.i le_rfl

theorem placeBody_full (hsized : ∀ i, Sized (v i)) (h : PlaceInv v us g k s)
    (hfull : (v s.i).remaining < 20) :
    placeBody s = .ret ⟨uq s.updates s.i, s.i + 1, s.g, s.rptUpdate, false⟩ := by
  have hf := full_eq h.current (hsized s.i)
  simp only [placeBody, hf, hfull, decide_true, Outcome.ret_bind, Outcome.pure_eq, if_true]

section Open

variable (hsized : ∀ i, Sized (v i)) (hk : IsRptUb v g k) (hasc : Ascending g)
  (hlim : PruneLimit g) (h : PlaceInv v us g k s)

include hsized hasc hlim h

theorem placeBody_sources (hlt : taken (packRooms v g k) s.i < g.spt.length) (hki : k ≠ some s.i)
    (hopen : 20 ≤ (v s.i).remaining) :
    ∃ u, Agrees (put (v s.i) (packEntry g (packRooms v g k) k s.i)) u ∧
      placeBody s = .ret ⟨(uq s.updates s.i).set s.i u, s.i + 1,
        rest g s.rptUpdate.isSome (g.spt.drop (taken (packRooms v g k) (s.i + 1))), s.rptUpdate,
        !(rest g s.rptUpdate.isSome
          (g.spt.drop (taken (packRooms v g k) (s.i + 1)))).hasJoinedSources⟩ := by
  set rooms := packRooms v g k with hrooms
  have hroom : rooms s.i = ((v s.i).remaining - 12) / 8 := packRooms_of_ne hki
  have hpos : 1 ≤ rooms s.i := by omega
  have hg := h.g_eq
  rw [← hrooms] at hg
  have hlen : g.prunes.length ≤ 180 := hlim
  have hprunes : s.g.rptPrunedSources.SortedLT ∧ s.g.rptPrunedSources.length ≤ 180 := by
    rw [hg, rest]
    cases s.rptUpdate with
    | none => exact ⟨List.sortedLT_iff_pairwise.mpr List.Pairwise.nil, Nat.zero_le _⟩
    | some j => exact ⟨hasc.prunes, hlen⟩
  have hnone : s.g.rp = none → s.g.rptPrunedSources = [] := by
    rw [hg, rest]
    cases s.rptUpdate with
    | none => exact fun _ => rfl
    | some j =>
      cases hrpt : g.rpt with
      | none => simp [GroupConfig.prunes, hrpt]
      | some rpt => simp
  have hne : s.g.joinedSources ≠ [] := by
    rw [hg]
    exact List.ne_nil_of_length_pos (by rw [rest, List.length_drop]; omega)
  have htake := Group.takeSgJoins_eq hpos hne
    (by rw [hg]; exact Group.sorted_sublist hasc.spt (List.drop_sublist _ _))
    hprunes.1 hprunes.2 hnone
  have hslice : s.g.joinedSources.take (rooms s.i) = slice rooms g.spt s.i := by
    rw [hg]
    rfl
  have hdrop : s.g.joinedSources.drop (rooms s.i) = g.spt.drop (taken rooms (s.i + 1)) := by
    rw [hg, taken_succ]
    exact List.drop_drop
  have hb : (⟨s.g.addr, s.g.joinedSources.drop (rooms s.i), s.g.rp, s.g.rptPrunedSources⟩ :
      Group A) = rest g s.rptUpdate.isSome (g.spt.drop (taken rooms (s.i + 1))) := by
    rw [hdrop, hg]
    rfl
  have hsne : slice rooms g.spt s.i ≠ [] := by
    rw [Ne, slice_eq_nil_iff]
    omega
  have hentry : packEntry g rooms k s.i = some (Group.toEntry
      ⟨s.g.addr, slice rooms g.spt s.i, none, []⟩) := by
    rw [packEntry_of_ne hki, if_neg hsne, hg]
    simp [Group.toEntry, rest]
  have hfit : (Group.toEntry ⟨s.g.addr, slice rooms g.spt s.i, none, []⟩).size ≤
      (v s.i).remaining := by
    have hle := length_slice_le rooms g.spt s.i
    simp only [Group.toEntry, GroupEntry.size, List.length_append, List.length_map,
      Option.map_none, Option.toList_none, List.length_nil]
    omega
  obtain ⟨u, hadd, hu⟩ := h.current.add (hsized s.i) (Or.inl hsne) hfit
  rw [← hentry] at hu
  refine ⟨u, hu, ?_⟩
  have hrem := remaining_eq h.current (hsized s.i)
  have hf := not_full h.current (hsized s.i) hopen
  have hms : TestGen.maxSources ((v s.i).remaining : ℤ) = (rooms s.i : ℤ) := by
    rw [maxSources_natCast (by omega), hroom]
  have hother : s.rptUpdate ≠ some s.i := by
    rw [h.rptUpdate_eq]
    intro he
    exact hki (Option.filter_eq_some_iff.mp he).1
  rw [hb, hslice] at htake
  simp only [placeBody, hf, Outcome.ret_bind, Outcome.pure_eq, Bool.false_eq_true, if_false,
    if_pos hother, hrem, hms, htake, hadd]

include hk

theorem placeBody_rpt (hki : k = some s.i) :
    ∃ u, Agrees (put (v s.i) (packEntry g (packRooms v g k) k s.i)) u ∧
      placeBody s = .ret ⟨(uq s.updates s.i).set s.i u, s.i + 1,
        rest g false (g.spt.drop (taken (packRooms v g k) (s.i + 1))), none,
        !(rest g false (g.spt.drop (taken (packRooms v g k) (s.i + 1)))).hasJoinedSources⟩ := by
  obtain ⟨rpt, hrpt, hroomy⟩ := hk.rpt_eq_some hki
  have hpending : s.rptUpdate = some s.i := by
    rw [h.rptUpdate_eq, hki]
    simp
  have hprunes : g.prunes = rpt.prunes := by simp [GroupConfig.prunes, hrpt]
  have hg := h.g_eq
  rw [hpending] at hg
  have hgrp : s.g.rp = some rpt.rp := by
    rw [hg]
    simp [rest, hrpt]
  have hgps : s.g.rptPrunedSources = rpt.prunes := by
    rw [hg]
    simp [rest, hprunes]
  have hasc' : rpt.prunes.SortedLT := hprunes ▸ hasc.prunes
  have hlen : rpt.prunes.length ≤ 180 := hprunes ▸ hlim
  have hroom : packRooms v g k s.i = ((v s.i).remaining - reserve rpt - 12) / 8 := by
    conv_lhs => rw [hki, packRooms_eq hrpt]
  have htake := Group.takeSgJoinsAndRpt_eq hgrp (packRooms v g k s.i)
    (by rw [hg]; exact Group.sorted_sublist hasc.spt (List.drop_sublist _ _))
    (by rw [hgps]; exact hasc') (by rw [hgps]; exact hlen)
  have hslice : s.g.joinedSources.take (packRooms v g k s.i) =
      slice (packRooms v g k) g.spt s.i := by
    rw [hg]
    rfl
  have hdrop : s.g.joinedSources.drop (packRooms v g k s.i) =
      g.spt.drop (taken (packRooms v g k) (s.i + 1)) := by
    rw [hg, taken_succ]
    exact List.drop_drop
  have hb : (⟨s.g.addr, s.g.joinedSources.drop (packRooms v g k s.i), none, []⟩ : Group A) =
      rest g false (g.spt.drop (taken (packRooms v g k) (s.i + 1))) := by
    rw [hdrop, hg]
    rfl
  have hentry : packEntry g (packRooms v g k) k s.i = some (Group.toEntry
      ⟨s.g.addr, slice (packRooms v g k) g.spt s.i, some rpt.rp, rpt.prunes⟩) := by
    conv_lhs => rw [hki, packEntry_eq hrpt, ← hki]
    rw [hg]
    rfl
  have hfit := packEntry_fits hk s.i _ hentry
  obtain ⟨u, hadd, hu⟩ := h.current.add (hsized s.i) (Or.inr rfl) hfit
  rw [← hentry] at hu
  refine ⟨u, hu, ?_⟩
  have hrem := remaining_eq h.current (hsized s.i)
  have hopen : 20 ≤ (v s.i).remaining := by
    rw [reserve_eq] at hroomy
    omega
  have hf := not_full h.current (hsized s.i) hopen
  have hsz : s.g.rpAndPrunesSize = .ret (reserve rpt : ℤ) := by
    simp only [Group.rpAndPrunesSize, hgrp, hgps, reserve_eq, Option.isNone_some,
      Bool.false_eq_true, if_false]
    congr 1
    omega
  have hms : TestGen.maxSources (((v s.i).remaining : ℤ) - (reserve rpt : ℤ)) =
      (packRooms v g k s.i : ℤ) := by
    rw [← Nat.cast_sub (by omega), maxSources_natCast (by omega), hroom]
  have hself : ¬s.rptUpdate ≠ some s.i := not_not.mpr hpending
  rw [hb, hslice, hgps] at htake
  simp only [placeBody, hf, Outcome.ret_bind, Outcome.pure_eq, Bool.false_eq_true, if_false,
    if_neg hself, hrem, hsz, hms, htake, hadd]

end Open

omit [LinearOrder A] [ToString A] in
theorem placeVariant_lt (hsized : ∀ i, Sized (v i)) (hus : Queue v us)
    (hkl : ∀ i ∈ k, i < us.length) (hlt : taken (packRooms v g k) s.i < g.spt.length)
    {t : PlaceLoop A} (ht : t.i = s.i + 1) :
    placeVariant us g k v t < placeVariant us g k v s := by
  have htaken := taken_succ (packRooms v g k) s.i
  have hin : k = some s.i → s.i < us.length := fun he => hkl _ he
  simp only [placeVariant, ht]
  rcases Nat.lt_or_ge s.i (us.length + 1) with hlen | hlen
  · omega
  · -- behind the list every update is empty and takes 181 sources
    have hne : k ≠ some s.i := fun he => absurd (hin he) (by omega)
    have hnil := groups_eq_nil (hus.agrees s.i) (by omega)
    have hroom := packRooms_of_ne (v := v) (g := g) hne
    rw [remaining_of_nil (hsized s.i) hnil] at hroom
    simp only [JPCapacity] at hroom
    omega

omit [LinearOrder A] [ToString A] in
theorem PlaceInv.skip (hsized : ∀ i, Sized (v i)) (h : PlaceInv v us g k s)
    (hlt : taken (packRooms v g k) s.i < g.spt.length) (hki : k ≠ some s.i)
    (hfull : (v s.i).remaining < 20) :
    PlaceInv v us g k ⟨uq s.updates s.i, s.i + 1, s.g, s.rptUpdate, false⟩ := by
  have hfilter : s.rptUpdate = k.filter (s.i + 1 ≤ ·) := by
    rw [h.rptUpdate_eq, filter_succ hki]
  have hroom : packRooms v g k s.i = 0 := by
    rw [packRooms_of_ne hki]
    omega
  have hsame : taken (packRooms v g k) (s.i + 1) = taken (packRooms v g k) s.i := by
    rw [taken_succ, hroom]
    rfl
  have hentry : packEntry g (packRooms v g k) k s.i = none := by
    rw [packEntry_of_ne hki, if_pos (slice_eq_nil_iff.mpr (Or.inl hroom))]
  have hcurrent : Agrees (put (v s.i) (packEntry g (packRooms v g k) k s.i))
      ((uq s.updates s.i).getD s.i .init) := by
    rw [hentry]
    exact h.current
  have hne : (put (v s.i) (packEntry g (packRooms v g k) k s.i)).groups ≠ [] := by
    rw [hentry]
    exact (hsized s.i).groups_ne_nil (lt_trans hfull (by decide))
  have hdone : false = true ↔ g.spt.length ≤ taken (packRooms v g k) (s.i + 1) := by
    rw [hsame]
    exact iff_of_false Bool.false_ne_true (by omega)
  have hmove := h.move hcurrent hne hfilter hdone
  have hin : s.i < (uq s.updates s.i).length := by
    rw [length_uq _ h.le_length]
    omega
  have hset : (uq s.updates s.i).set s.i ((uq s.updates s.i).getD s.i .init) =
      uq s.updates s.i := by
    rw [List.getD_eq_getElem _ _ hin]
    exact List.set_getElem_self hin
  have hg := h.g_eq
  rw [hset, hsame, ← hg] at hmove
  exact hmove

theorem placeBody_spec (hsized : ∀ i, Sized (v i)) (hus : Queue v us) (hk : IsRptUb v g k)
    (hkl : ∀ i ∈ k, i < us.length) (hasc : Ascending g) (hlim : PruneLimit g) (s : PlaceLoop A)
    (h : PlaceInv v us g k s) (hg : (!s.done) = true) :
    ∃ t, placeBody s = .ret t ∧ PlaceInv v us g k t ∧
      placeVariant us g k v t < placeVariant us g k v s := by
  have hlt : taken (packRooms v g k) s.i < g.spt.length := by
    by_contra hge
    have hdone := h.done_iff.mpr (Nat.le_of_not_lt hge)
    rw [hdone] at hg
    cases hg
  have hdecr : ∀ t : PlaceLoop A, t.i = s.i + 1 →
      placeVariant us g k v t < placeVariant us g k v s :=
    fun t ht => placeVariant_lt hsized hus hkl hlt ht
  by_cases hki : k = some s.i
  · obtain ⟨u, hu, hbody⟩ := placeBody_rpt hsized hk hasc hlim h hki
    have hne : (put (v s.i) (packEntry g (packRooms v g k) k s.i)).groups ≠ [] := by
      obtain ⟨rpt, hrpt, _⟩ := hk.rpt_eq_some hki
      have hsome : (packEntry g (packRooms v g k) k s.i).isSome = true := by
        conv_lhs => rw [hki, packEntry_eq hrpt]
        rfl
      obtain ⟨ge, hge⟩ := Option.isSome_iff_exists.mp hsome
      rw [hge, put_groups]
      simp
    have hfilter : k.filter (s.i + 1 ≤ ·) = none := by
      rw [hki]
      simp
    rw [hbody]
    exact ⟨_, rfl, h.move hu hne hfilter.symm (hasJoinedSources_rest _ _), hdecr _ rfl⟩
  · rcases Nat.lt_or_ge (v s.i).remaining 20 with hfull | hopen
    · rw [placeBody_full hsized h hfull]
      exact ⟨_, rfl, h.skip hsized hlt hki hfull, hdecr _ rfl⟩
    · obtain ⟨u, hu, hbody⟩ := placeBody_sources hsized hasc hlim h hlt hki hopen
      have hfilter : s.rptUpdate = k.filter (s.i + 1 ≤ ·) := by
        rw [h.rptUpdate_eq, filter_succ hki]
      have hne : (put (v s.i) (packEntry g (packRooms v g k) k s.i)).groups ≠ [] := by
        have hs : slice (packRooms v g k) g.spt s.i ≠ [] := by
          rw [Ne, slice_eq_nil_iff, packRooms_of_ne hki]
          omega
        rw [packEntry_of_ne hki, if_neg hs, put_groups]
        simp
      rw [hbody]
      exact ⟨_, rfl, h.move hu hne hfilter (hasJoinedSources_rest _ _), hdecr _ rfl⟩

omit [LinearOrder A] in
/-- The last update is handed to the RPT if the loop has not come to it. -/
theorem PlaceInv.finish (hk : IsRptUb v g k) (hkl : ∀ i ∈ k, i < us.length)
    (hsized : ∀ i, Sized (v i)) (h : PlaceInv v us g k s) (hdone : s.done = true) :
    ∃ us', (match s.rptUpdate with
      | none => return ⟨s.updates⟩
      | some k => do
        let u ← (s.updates.getD k .init).add s.g
        return ⟨s.updates.set k u⟩ : Outcome String (PackBuilder A)) = .ret ⟨us'⟩ ∧
      Queue (fun i => put (v i) (packEntry g (packRooms v g k) k i)) us' := by
  have htaken := h.done_iff.mp hdone
  have hslice : ∀ j, s.i ≤ j → slice (packRooms v g k) g.spt j = [] :=
    fun j hj => slice_eq_nil_of_le (le_trans htaken (taken_mono _ hj))
  have hrest : ∀ j, s.rptUpdate ≠ some j →
      Agrees (put (v j) (packEntry g (packRooms v g k) k j)) (s.updates.getD j .init) := by
    intro j hne
    rcases Nat.lt_or_ge j s.i with hlt | hge
    · exact h.before j hlt
    · have hkj : k ≠ some j := by
        intro he
        apply hne
        rw [h.rptUpdate_eq, he]
        simpa using hge
      rw [packEntry_of_ne hkj, if_pos (hslice j hge)]
      exact h.after j hge
  have hnonempty : ∀ j, j + 1 < s.updates.length →
      (put (v j) (packEntry g (packRooms v g k) k j)).groups ≠ [] := by
    intro j hj
    rcases Nat.lt_or_ge j s.i with hlt | hge
    · exact h.nonempty_before j hlt
    · rw [put_groups]
      exact fun hnil => h.nonempty_after j hge hj (List.append_eq_nil_iff.mp hnil).1
  cases hub : s.rptUpdate with
  | none =>
    refine ⟨s.updates, rfl, fun j => ?_, h.pos, hnonempty⟩
    exact hrest j (by rw [hub]; exact fun he => by cases he)
  | some j =>
    have hkj : k = some j ∧ s.i ≤ j := by
      have heq := h.rptUpdate_eq
      rw [hub] at heq
      simpa using Option.filter_eq_some_iff.mp heq.symm
    obtain ⟨rpt, hrpt, _⟩ := hk.rpt_eq_some hkj.1
    have hdrop : g.spt.drop (taken (packRooms v g k) s.i) = [] := List.drop_of_length_le htaken
    have hg : s.g = ⟨g.group, [], some rpt.rp, rpt.prunes⟩ := by
      rw [h.g_eq, hub, hdrop]
      simp [rest, hrpt, GroupConfig.prunes]
    have hentry : packEntry g (packRooms v g k) k j = some s.g.toEntry := by
      conv_lhs => rw [hkj.1, packEntry_eq hrpt, ← hkj.1, hslice j hkj.2]
      rw [hg]
      rfl
    have hvalid : s.g.Valid := by
      rw [hg]
      exact Or.inr rfl
    have hfit := packEntry_fits hk j _ hentry
    obtain ⟨u, hadd, hu⟩ := (h.after j hkj.2).add (hsized j) hvalid hfit
    rw [← hentry] at hu
    have hjlt : j < s.updates.length := lt_of_lt_of_le (hkl j hkj.1) h.length_le
    refine ⟨s.updates.set j u, ?_, fun i => ?_, ?_, ?_⟩
    · simp only [hadd, Outcome.ret_bind, Outcome.pure_eq]
    · by_cases hij : i = j
      · have hget : (s.updates.set j u).getD i .init = u := by
          rw [hij, List.getD_eq_getElem?_getD, List.getElem?_set_self hjlt]
          rfl
        rw [hget, hij]
        exact hu
      · have hget : (s.updates.set j u).getD i .init = s.updates.getD i .init := by
          rw [List.getD_eq_getElem?_getD, List.getElem?_set_ne (Ne.symm hij),
            ← List.getD_eq_getElem?_getD]
        rw [hget]
        exact hrest i (by rw [hub]; exact fun he => hij (Option.some.inj he).symm)
    · rw [List.length_set]
      exact h.pos
    · intro i hi
      rw [List.length_set] at hi
      exact hnonempty i hi

theorem place_spec (hsized : ∀ i, Sized (v i)) (hus : Queue v us) (hasc : Ascending g)
    (hlim : PruneLimit g) :
    ∃ us' k, Returns (fun fuel => place fuel ⟨us⟩ (Group.ofConfig g)) ⟨us'⟩ ∧ IsRptUb v g k ∧
      Queue (fun i => put (v i) (packEntry g (packRooms v g k) k i)) us' := by
  obtain ⟨us1, k, hfind, hus1, hk, hkl⟩ := findUpdateForRpt_spec hsized hus hlim
  have hsome := hk.isSome_eq
  have hofConfig : Group.ofConfig g = rest g k.isSome (g.spt.drop 0) := by
    rw [hsome]
    cases hrpt : g.rpt with
    | none => simp [Group.ofConfig, rest, GroupConfig.prunes, hrpt]
    | some rpt => simp [Group.ofConfig, rest, hrpt]
  have hentry : ∀ done : Bool, (done = true ↔ g.spt.length ≤ 0) →
      PlaceInv v us1 g k ⟨us1, 0, Group.ofConfig g, k, done⟩ := by
    intro done hd
    refine ⟨fun j hj => absurd hj (Nat.not_lt_zero j), fun j _ => hus1.agrees j, Nat.zero_le _,
      le_rfl, hus1.pos, fun j hj => absurd hj (Nat.not_lt_zero j), fun j _ => hus1.nonempty j,
      ?_, hofConfig, hd⟩
    cases k with
    | none => rfl
    | some j => exact (Option.filter_some_pos (by simp)).symm
  have hloop : ∃ s, Returns (fun fuel => placeLoop fuel ⟨us1⟩ (Group.ofConfig g) k) s ∧
      PlaceInv v us1 g k s ∧ s.done = true := by
    have hjoined : (Group.ofConfig g).hasJoinedSources = true ↔ 0 < g.spt.length := by
      simp [Group.hasJoinedSources, Group.ofConfig]
    by_cases hj : (Group.ofConfig g).hasJoinedSources = true
    · have hpos := hjoined.mp hj
      obtain ⟨s, hret, hinv, hg⟩ := whileLoop_total (PlaceInv v us1 g k)
        (placeVariant us1 g k v) (placeBody_spec hsized hus1 hk hkl hasc hlim)
        ⟨us1, 0, Group.ofConfig g, k, false⟩
        (hentry false (iff_of_false Bool.false_ne_true (by omega)))
      exact ⟨s, by simpa only [placeLoop, if_pos hj] using hret, hinv, by simpa using hg⟩
    · have hzero : g.spt.length ≤ 0 := by
        by_contra hpos
        exact hj (hjoined.mpr (Nat.lt_of_not_le hpos))
      refine ⟨_, Returns.of_eq fun _ => if_neg hj, hentry true (iff_of_true rfl hzero), rfl⟩
  obtain ⟨s, hret, hinv, hdone⟩ := hloop
  obtain ⟨us', hfinish, hqueue⟩ := hinv.finish hk hkl hsized hdone
  refine ⟨us', k, ?_, hk, hqueue⟩
  unfold place
  exact hfind.bind (hret.bind (Returns.of_eq fun _ => hfinish))

end Place

end PackBuilder

/-! ### The run -/

section Run

variable [LinearOrder A] [ToString A]

-- The packer has come as far as the reference, and their queues agree.
structure Simulates (done : List (GroupConfig A)) (pb : PackBuilder A) (p : UpdatePacker A) :
    Prop where
  returns : Returns (fun fuel => done.foldlM (fitGroup fuel) UpdatePacker.init) p
  ready : Ready p
  queue : Queue (ubAt p.ubq) pb.updates

theorem packGroups_agree (groups : List (GroupConfig A))
    (hasc : ∀ g ∈ groups, PackBuilder.Ascending g) (hlim : ∀ g ∈ groups, PruneLimit g) :
    ∃ pb, Returns (fun fuel => groups.foldlM
        (fun pb g => PackBuilder.place fuel pb (Group.ofConfig g)) PackBuilder.init) pb ∧
      ∃ p, Simulates groups pb p := by
  refine foldlM_total (fun fuel pb g => PackBuilder.place fuel pb (Group.ofConfig g))
    (fun done pb => ∃ p, Simulates done pb p) groups ?_ PackBuilder.init
    ⟨UpdatePacker.init, Returns.of_eq fun _ => rfl, ready_init, queue_init⟩
  intro done g rest pb hgroups h
  obtain ⟨p, hp, hready, hqueue⟩ := h
  have hg : g ∈ groups := by simp [hgroups]
  obtain ⟨p', k, hfit, hready', hk, _, _, _, hat⟩ := fitGroup_spec hready (hlim g hg)
  obtain ⟨us', k', hplace, hk', hqueue'⟩ :=
    PackBuilder.place_spec hready.sized hqueue (hasc g hg) (hlim g hg)
  rw [← hk.unique hk', ← funext hat] at hqueue'
  refine ⟨⟨us'⟩, hplace, p', ?_, hready', hqueue'⟩
  simp only [List.foldlM_append, List.foldlM_cons, List.foldlM_nil]
  exact hp.bind (hfit.bind (Returns.of_eq fun _ => rfl))

def Update.toUpdate (u : Update A) : Pimc.Update A := ⟨u.groups.map Group.toEntry⟩

omit [LinearOrder A] [ToString A] in
/-- The result leaves out the last update if it is empty. -/
theorem Queue.result_eq {v : ℕ → UpdateBuilderImpl A} {us : List (Update A)} (h : Queue v us) :
    ∃ n, n ≤ us.length ∧ PackBuilder.result ⟨us⟩ = us.take n ∧
      (∀ i < n, (v i).groups ≠ []) ∧ ∀ i, n ≤ i → (v i).groups = [] := by
  have hpos := h.pos
  have hne : us ≠ [] := List.ne_nil_of_length_pos hpos
  have hlast : us.getLastD .init = us.getD (us.length - 1) .init := by
    rw [List.getLastD_eq_getLast?, List.getLast?_eq_getElem?, List.getD_eq_getElem?_getD]
  have hempty : (us.getLastD .init).empty = true ↔ (v (us.length - 1)).groups = [] := by
    rw [hlast, ← (h.agrees _).groups]
    simp [Update.empty]
  have hout : ∀ i, us.length ≤ i → (v i).groups = [] := fun i hi => groups_eq_nil (h.agrees i) hi
  unfold PackBuilder.result
  by_cases hnil : (v (us.length - 1)).groups = []
  · refine ⟨us.length - 1, by omega, ?_, ?_, ?_⟩
    · rw [if_pos (hempty.mpr hnil), List.dropLast_eq_take]
    · intro i hi
      exact h.nonempty i (by omega)
    · intro i hi
      rcases Nat.lt_or_ge i us.length with hlt | hge
      · have heq : i = us.length - 1 := by omega
        rw [heq]
        exact hnil
      · exact hout i hge
  · refine ⟨us.length, le_rfl, ?_, ?_, hout⟩
    · rw [if_neg (fun he => hnil (hempty.mp he)), List.take_length]
    · intro i hi
      rcases Nat.lt_or_ge (i + 1) us.length with hlt | hge
      · exact h.nonempty i hlt
      · have heq : i = us.length - 1 := by omega
        rw [heq]
        exact hnil

omit [LinearOrder A] [ToString A] in
theorem count_unique {v : ℕ → UpdateBuilderImpl A} {m n : ℕ}
    (hm : ∀ i < m, (v i).groups ≠ []) (hm' : ∀ i, m ≤ i → (v i).groups = [])
    (hn : ∀ i < n, (v i).groups ≠ []) (hn' : ∀ i, n ≤ i → (v i).groups = []) : m = n := by
  rcases Nat.lt_trichotomy m n with h | h | h
  · exact absurd (hm' m le_rfl) (hn m h)
  · exact h
  · exact absurd (hn' n le_rfl) (hm n h)

omit [LinearOrder A] [ToString A] in
theorem Simulates.result_eq {done : List (GroupConfig A)} {pb : PackBuilder A}
    {p : UpdatePacker A} (h : Simulates done pb p) : p.build = pb.result.map Update.toUpdate := by
  obtain ⟨m, hm, hbuild, hne, hnil⟩ := h.ready.build_eq
  obtain ⟨n, hn, hresult, hne', hnil'⟩ := h.queue.result_eq
  have hmn : m = n := count_unique hne hnil hne' hnil'
  subst hmn
  rw [hbuild, show pb.result = pb.updates.take m from hresult]
  apply List.ext_getElem
  · simp only [List.length_map, List.length_take]
    omega
  · intro i h1 h2
    have hi : i < m := by
      simp only [List.length_map, List.length_take] at h1
      omega
    have hagree := (h.queue.agrees i).groups
    rw [List.getD_eq_getElem _ _ (by omega), ubAt_of_lt (by omega)] at hagree
    simp only [List.getElem_map, List.getElem_take, UpdateBuilderImpl.build, Update.toUpdate,
      hagree]

/-- The packer and the reference of the test generator return the same updates. -/
theorem pack_agrees (cfg : JPConfig A) (hasc : ∀ g ∈ cfg.groups, PackBuilder.Ascending g)
    (hlim : ∀ g ∈ cfg.groups, PruneLimit g) :
    ∃ us pus, Returns (fun fuel => Pimc.pack fuel cfg) us ∧
      Returns (fun fuel => TestGen.pack fuel (cfg.groups.map Group.ofConfig)) pus ∧
      us = pus.map Update.toUpdate := by
  obtain ⟨pb, hpb, p, hsim⟩ := packGroups_agree cfg.groups hasc hlim
  refine ⟨p.build, pb.result, hsim.returns.bind (Returns.of_eq fun _ => rfl), ?_,
    hsim.result_eq⟩
  unfold TestGen.pack
  simp only [List.foldlM_map]
  exact hpb.bind (Returns.of_eq fun _ => rfl)

end Run

def generatedConfig : JPConfig IPv4Address where
  groups := [⟨.ofOctets 239 1 1 1, none, [.ofOctets 10 0 0 1, .ofOctets 10 0 0 2]⟩,
    ⟨.ofOctets 239 1 1 2, some ⟨.ofOctets 10 0 0 1, [.ofOctets 10 0 0 2, .ofOctets 10 0 0 3]⟩,
      [.ofOctets 10 0 0 4]⟩]

instance [LinearOrder A] (g : GroupConfig A) : Decidable (PackBuilder.Ascending g) :=
  decidable_of_iff (g.spt.Pairwise (· < ·) ∧ g.prunes.Pairwise (· < ·))
    ⟨fun h => ⟨List.sortedLT_iff_pairwise.mpr h.1, List.sortedLT_iff_pairwise.mpr h.2⟩,
      fun h => ⟨List.sortedLT_iff_pairwise.mp h.spt, List.sortedLT_iff_pairwise.mp h.prunes⟩⟩

theorem pack_agrees_example : ∃ us pus,
    Returns (fun fuel => Pimc.pack fuel generatedConfig) us ∧
      Returns (fun fuel => TestGen.pack fuel (generatedConfig.groups.map Group.ofConfig)) pus ∧
      us = pus.map Update.toUpdate :=
  pack_agrees generatedConfig (by decide) (by decide)

end Pimc.TestGen
