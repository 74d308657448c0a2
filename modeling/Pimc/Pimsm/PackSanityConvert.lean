import Pimc.Pimsm.SanityCheck

/-!
# What a converter accepts

A converter has failed if and only if the sources it was given break one of the
rules of `CleanSources` or name a prune before the RP (`Readable`). While it has not
failed, it holds exactly what it was given (`Tracks`).
-/

namespace Pimc

open Lib

variable {A : Type}

/-! ### The rules -/

/-- The addresses of the (S,G) joins. -/
def sgAddrs (js : List (Source A)) : List A := (js.filter (!·.wildcard)).map (·.addr)

structure CleanSources (js ps : List (Source A)) : Prop where
  join_flags : ∀ s ∈ js, s.wildcard = s.rpt
  one_wildcard : (js.filter (·.wildcard)).length ≤ 1
  joins_nodup : (sgAddrs js).Nodup
  prune_flags : ∀ s ∈ ps, s.rpt = true ∧ s.wildcard = false
  prunes_nodup : (ps.map (·.addr)).Nodup
  disjoint : ∀ a ∈ sgAddrs js, a ∉ ps.map (·.addr)

-- What one more join has to satisfy.
structure JoinOk (js ps : List (Source A)) (s : Source A) : Prop where
  flags : s.wildcard = s.rpt
  first : s.wildcard = true → js.filter (·.wildcard) = []
  fresh : s.wildcard = false → s.addr ∉ sgAddrs js ∧ s.addr ∉ ps.map (·.addr)

-- What one more prune has to satisfy.
structure PruneOk (js ps : List (Source A)) (s : Source A) : Prop where
  flags : s.rpt = true ∧ s.wildcard = false
  fresh : s.addr ∉ ps.map (·.addr)
  not_joined : s.addr ∉ sgAddrs js

theorem clean_nil : CleanSources ([] : List (Source A)) [] where
  join_flags := by simp
  one_wildcard := by simp
  joins_nodup := by simp [sgAddrs]
  prune_flags := by simp
  prunes_nodup := by simp
  disjoint := by simp [sgAddrs]

theorem CleanSources.of_sublist {js js' ps ps' : List (Source A)} (h : CleanSources js' ps')
    (hj : js.Sublist js') (hp : ps.Sublist ps') : CleanSources js ps := by
  have hsg : (sgAddrs js).Sublist (sgAddrs js') := (hj.filter _).map _
  have hpa : (ps.map (·.addr)).Sublist (ps'.map (·.addr)) := hp.map _
  refine ⟨?_, ?_, h.joins_nodup.sublist hsg, ?_, h.prunes_nodup.sublist hpa, ?_⟩
  · intro s hs
    exact h.join_flags s (hj.subset hs)
  · exact le_trans (hj.filter _).length_le h.one_wildcard
  · intro s hs
    exact h.prune_flags s (hp.subset hs)
  · intro a ha hin
    exact h.disjoint a (hsg.subset ha) (hpa.subset hin)

theorem sgAddrs_snoc (js : List (Source A)) (s : Source A) :
    sgAddrs (js ++ [s]) = if s.wildcard = true then sgAddrs js else sgAddrs js ++ [s.addr] := by
  unfold sgAddrs
  rw [List.filter_append]
  split_ifs with hw
  · simp [hw]
  · simp [hw]

theorem wildcards_snoc (js : List (Source A)) (s : Source A) :
    (js ++ [s]).filter (·.wildcard) =
      if s.wildcard = true then js.filter (·.wildcard) ++ [s] else js.filter (·.wildcard) := by
  rw [List.filter_append]
  split_ifs with hw
  · simp [hw]
  · simp [hw]

theorem clean_join {js ps : List (Source A)} {s : Source A} :
    CleanSources (js ++ [s]) ps ↔ CleanSources js ps ∧ JoinOk js ps s := by
  apply Iff.intro
  · intro h
    refine ⟨h.of_sublist (List.sublist_append_left js [s]) (List.Sublist.refl ps), ?_, ?_, ?_⟩
    · exact h.join_flags s (by simp)
    · intro hw
      have hone := h.one_wildcard
      rw [wildcards_snoc, if_pos hw, List.length_append, List.length_singleton] at hone
      exact List.eq_nil_of_length_eq_zero (by omega)
    · intro hw
      have hnodup := h.joins_nodup
      have hdisjoint := h.disjoint s.addr
      rw [sgAddrs_snoc, hw, if_neg Bool.false_ne_true] at hnodup hdisjoint
      exact ⟨(nodup_snoc.mp hnodup).2, hdisjoint (by simp)⟩
  · intro h'
    obtain ⟨h, hs⟩ := h'
    refine ⟨?_, ?_, ?_, h.prune_flags, h.prunes_nodup, ?_⟩
    · intro t ht
      rcases List.mem_append.mp ht with ht | ht
      · exact h.join_flags t ht
      · rw [List.mem_singleton.mp ht]
        exact hs.flags
    · rw [wildcards_snoc]
      split_ifs with hw
      · rw [hs.first hw]
        simp
      · exact h.one_wildcard
    · rw [sgAddrs_snoc]
      split_ifs with hw
      · exact h.joins_nodup
      · exact nodup_snoc.mpr ⟨h.joins_nodup, (hs.fresh (by simpa using hw)).1⟩
    · intro a ha
      rw [sgAddrs_snoc] at ha
      split_ifs at ha with hw
      · exact h.disjoint a ha
      · rcases List.mem_append.mp ha with ha | ha
        · exact h.disjoint a ha
        · rw [List.mem_singleton.mp ha]
          exact (hs.fresh (by simpa using hw)).2

theorem clean_prune {js ps : List (Source A)} {s : Source A} :
    CleanSources js (ps ++ [s]) ↔ CleanSources js ps ∧ PruneOk js ps s := by
  have hmap : (ps ++ [s]).map (·.addr) = ps.map (·.addr) ++ [s.addr] := by simp
  apply Iff.intro
  · intro h
    refine ⟨h.of_sublist (List.Sublist.refl js) (List.sublist_append_left ps [s]), ?_, ?_, ?_⟩
    · exact h.prune_flags s (by simp)
    · have hnodup := h.prunes_nodup
      rw [hmap] at hnodup
      exact (nodup_snoc.mp hnodup).2
    · intro hin
      exact h.disjoint s.addr hin (by simp)
  · intro h'
    obtain ⟨h, hs⟩ := h'
    refine ⟨h.join_flags, h.one_wildcard, h.joins_nodup, ?_, ?_, ?_⟩
    · intro t ht
      rcases List.mem_append.mp ht with ht | ht
      · exact h.prune_flags t ht
      · rw [List.mem_singleton.mp ht]
        exact hs.flags
    · rw [hmap]
      exact nodup_snoc.mpr ⟨h.prunes_nodup, hs.fresh⟩
    · intro a ha hin
      rw [hmap, List.mem_append, List.mem_singleton] at hin
      rcases hin with hin | hin
      · exact h.disjoint a ha hin
      · rw [hin] at ha
        exact hs.not_joined ha

theorem sameFlags_iff (s : Source A) : s.wildcard = s.rpt ↔
    (s.wildcard = true ∧ s.rpt = true) ∨ (s.wildcard = false ∧ s.rpt = false) := by
  cases s.wildcard <;> cases s.rpt <;> simp

theorem joinOk_wildcard {js ps : List (Source A)} {s : Source A} (hw : s.wildcard = true) :
    JoinOk js ps s ↔ s.rpt = true ∧ js.filter (·.wildcard) = [] := by
  apply Iff.intro
  · intro h
    exact ⟨by rw [← h.flags, hw], h.first hw⟩
  · intro h
    refine ⟨by rw [hw, h.1], fun _ => h.2, fun hplain => ?_⟩
    rw [hw] at hplain
    cases hplain

theorem joinOk_plain {js ps : List (Source A)} {s : Source A} (hw : s.wildcard = false) :
    JoinOk js ps s ↔ s.rpt = false ∧ s.addr ∉ sgAddrs js ∧ s.addr ∉ ps.map (·.addr) := by
  apply Iff.intro
  · intro h
    exact ⟨by rw [← h.flags, hw], h.fresh hw⟩
  · intro h
    refine ⟨by rw [hw, h.1], fun hwild => ?_, fun _ => h.2⟩
    rw [hw] at hwild
    cases hwild

/-! ### What a converter holds -/

section Held

variable [LinearOrder A] {js : List (Source A)} {s : Source A} {joins : OrdSet A} {rp : Option A}

/-- The set of the (S,G) sources among `js`, and the RP that is the first of the others. -/
structure HoldsSources (js : List (Source A)) (joins : OrdSet A) (rp : Option A) : Prop where
  joins : ∀ a, a ∈ joins.toList ↔ a ∈ sgAddrs js
  rp : rp = ((js.filter (·.wildcard)).head?).map (·.addr)

namespace HoldsSources

theorem empty : HoldsSources ([] : List (Source A)) .empty none := by
  refine ⟨?_, rfl⟩
  intro a
  simp [OrdSet.empty, sgAddrs]

theorem contains (h : HoldsSources js joins rp) (a : A) :
    joins.contains a = false ↔ a ∉ sgAddrs js := by
  rw [← Bool.not_eq_true, OrdSet.contains_iff, h.joins]

theorem rp_none (h : HoldsSources js joins rp) : rp = none ↔ js.filter (·.wildcard) = [] := by
  rw [h.rp, Option.map_eq_none_iff, List.head?_eq_none_iff]

theorem wildcard (h : HoldsSources js joins rp) (hw : s.wildcard = true) :
    HoldsSources (js ++ [s]) joins (rp.or (some s.addr)) := by
  apply HoldsSources.mk
  · intro a
    rw [sgAddrs_snoc, if_pos hw]
    exact h.joins a
  · rw [h.rp, wildcards_snoc, if_pos hw]
    cases js.filter (·.wildcard) <;> rfl

theorem plain (h : HoldsSources js joins rp) (hw : s.wildcard = false) :
    HoldsSources (js ++ [s]) (joins.emplace s.addr).1 rp := by
  have hne : ¬s.wildcard = true := by simp [hw]
  apply HoldsSources.mk
  · intro a
    rw [sgAddrs_snoc, if_neg hne, OrdSet.mem_emplace, h.joins, List.mem_append,
      List.mem_singleton]
    exact or_comm
  · rw [h.rp, wildcards_snoc, if_neg hne]

end HoldsSources

end Held

/-! ### One source -/

namespace GroupEntryConverter

section Step

variable [LinearOrder A] [ToString A]

/-- Without an error so far, the converter holds the sources it was given. -/
structure Tracks (js ps : List (Source A)) (c : GroupEntryConverter A) : Prop where
  joins : ∀ a, a ∈ c.joins.toList ↔ a ∈ sgAddrs js
  rp : c.rp = ((js.filter (·.wildcard)).head?).map (·.addr)
  prunes : ∀ a, a ∈ c.prunes.toList ↔ a ∈ ps.map (·.addr)

def failed (c : GroupEntryConverter A) : Bool := c.base.failed

omit [ToString A] in
theorem Tracks.held {js ps : List (Source A)} {c : GroupEntryConverter A} (h : Tracks js ps c) :
    HoldsSources js c.joins c.rp := ⟨h.joins, h.rp⟩

omit [ToString A] in
theorem Tracks.prunes_contains {js ps : List (Source A)} {c : GroupEntryConverter A}
    (h : Tracks js ps c) (a : A) : c.prunes.contains a = false ↔ a ∉ ps.map (·.addr) := by
  rw [← Bool.not_eq_true, OrdSet.contains_iff, h.prunes]

@[simp] theorem error_failed (c : GroupEntryConverter A) (text : String) :
    (c.error text).failed = true := rfl

@[simp] theorem error_joins (c : GroupEntryConverter A) (text : String) :
    (c.error text).joins = c.joins := rfl

@[simp] theorem error_rp (c : GroupEntryConverter A) (text : String) :
    (c.error text).rp = c.rp := rfl

@[simp] theorem error_prunes (c : GroupEntryConverter A) (text : String) :
    (c.error text).prunes = c.prunes := rfl

variable (n : ℕ) {c : GroupEntryConverter A} {s : Source A}

theorem addJoin_wildcard (hw : s.wildcard = true) :
    (addJoin n c s).failed = (c.failed || !s.rpt || c.rp.isSome) ∧
      (addJoin n c s).joins = c.joins ∧ (addJoin n c s).rp = c.rp.or (some s.addr) ∧
      (addJoin n c s).prunes = c.prunes := by
  unfold addJoin
  simp only [hw, if_true]
  cases hr : s.rpt with
  | false =>
    simp only [Bool.not_false, if_true, error_rp]
    cases hrp : c.rp with
    | none => simp [failed, error, GroupBase.error]
    | some rp =>
      by_cases heq : rp = s.addr
      · simp [hrp, heq]
      · simp [hrp, heq]
  | true =>
    simp only [Bool.not_true, Bool.false_eq_true, if_false]
    cases hrp : c.rp with
    | none => simp [failed]
    | some rp =>
      by_cases heq : rp = s.addr
      · simp [hrp, heq]
      · simp [hrp, heq]

theorem addJoin_plain (hw : s.wildcard = false) :
    (addJoin n c s).failed =
        (c.failed || s.rpt || c.joins.contains s.addr || c.prunes.contains s.addr) ∧
      (addJoin n c s).joins = (c.joins.emplace s.addr).1 ∧ (addJoin n c s).rp = c.rp ∧
      (addJoin n c s).prunes = c.prunes := by
  unfold addJoin
  simp only [hw, Bool.false_eq_true, if_false, OrdSet.emplace_snd, Bool.not_not]
  cases hr : s.rpt <;> cases hj : c.joins.contains s.addr <;>
    cases hp : c.prunes.contains s.addr <;> simp [failed, error, GroupBase.error, hj, hp]

theorem addPrune_eq :
    (addPrune n c s).failed =
        (c.failed || s.wildcard || !s.rpt || c.prunes.contains s.addr ||
          c.joins.contains s.addr) ∧
      (addPrune n c s).joins = c.joins ∧ (addPrune n c s).rp = c.rp ∧
      (addPrune n c s).prunes = (c.prunes.emplace s.addr).1 := by
  unfold addPrune
  simp only [OrdSet.emplace_snd, Bool.not_not]
  cases hw : s.wildcard <;> cases hr : s.rpt <;> cases hp : c.prunes.contains s.addr <;>
    cases hj : c.joins.contains s.addr <;> simp [failed, error, GroupBase.error, hj, hp]

variable {js ps : List (Source A)}

theorem addJoin_spec (h : Tracks js ps c) :
    Tracks (js ++ [s]) ps (addJoin n c s) ∧
      ((addJoin n c s).failed = false ↔ c.failed = false ∧ JoinOk js ps s) := by
  cases hw : s.wildcard with
  | true =>
    obtain ⟨hfailed, hjoins, hrp, hprunes⟩ := addJoin_wildcard n (c := c) hw
    have hheld := h.held.wildcard hw
    refine ⟨⟨?_, ?_, ?_⟩, ?_⟩
    · rw [hjoins]
      exact hheld.joins
    · rw [hrp]
      exact hheld.rp
    · rw [hprunes]
      exact h.prunes
    · rw [hfailed, joinOk_wildcard hw, ← h.held.rp_none]
      simp only [Bool.or_eq_false_iff, Bool.not_eq_false', Option.isSome_eq_false_iff,
        Option.isNone_iff_eq_none, and_assoc]
  | false =>
    obtain ⟨hfailed, hjoins, hrp, hprunes⟩ := addJoin_plain n (c := c) hw
    have hheld := h.held.plain hw
    refine ⟨⟨?_, ?_, ?_⟩, ?_⟩
    · rw [hjoins]
      exact hheld.joins
    · rw [hrp]
      exact hheld.rp
    · rw [hprunes]
      exact h.prunes
    · rw [hfailed, joinOk_plain hw]
      simp only [Bool.or_eq_false_iff, h.held.contains, h.prunes_contains, and_assoc]

theorem addPrune_spec (h : Tracks js ps c) :
    Tracks js (ps ++ [s]) (addPrune n c s) ∧
      ((addPrune n c s).failed = false ↔ c.failed = false ∧ PruneOk js ps s) := by
  obtain ⟨hfailed, hjoins, hrp, hprunes⟩ := addPrune_eq n (c := c) (s := s)
  refine ⟨⟨?_, ?_, ?_⟩, ?_⟩
  · intro a
    rw [hjoins]
    exact h.joins a
  · rw [hrp]
    exact h.rp
  · intro a
    rw [hprunes, OrdSet.mem_emplace, h.prunes, List.map_append, List.mem_append]
    simp only [List.map_cons, List.map_nil, List.mem_singleton]
    exact or_comm
  · rw [hfailed]
    simp only [Bool.or_eq_false_iff, Bool.not_eq_false', h.held.contains, h.prunes_contains]
    apply Iff.intro
    · intro h'
      obtain ⟨⟨⟨⟨hc, hw⟩, hr⟩, hfresh⟩, hjoined⟩ := h'
      exact ⟨hc, ⟨hr, hw⟩, hfresh, hjoined⟩
    · intro h'
      obtain ⟨hc, hok⟩ := h'
      exact ⟨⟨⟨⟨hc, hok.flags.2⟩, hok.flags.1⟩, hok.fresh⟩, hok.not_joined⟩

/-! ### One entry -/

theorem foldl_addJoin_spec (ss : List (Source A)) (h : Tracks js ps c)
    (hc : c.failed = false ↔ CleanSources js ps) :
    Tracks (js ++ ss) ps (ss.foldl (addJoin n) c) ∧
      ((ss.foldl (addJoin n) c).failed = false ↔ CleanSources (js ++ ss) ps) := by
  induction ss generalizing js c with
  | nil => simpa using ⟨h, hc⟩
  | cons s ss ih =>
    obtain ⟨htracks, hfailed⟩ := addJoin_spec n (s := s) h
    rw [hc, ← clean_join] at hfailed
    have hassoc : js ++ s :: ss = (js ++ [s]) ++ ss := by simp
    rw [List.foldl_cons, hassoc]
    exact ih htracks hfailed

theorem foldl_addPrune_spec (ss : List (Source A)) (h : Tracks js ps c)
    (hc : c.failed = false ↔ CleanSources js ps) :
    Tracks js (ps ++ ss) (ss.foldl (addPrune n) c) ∧
      ((ss.foldl (addPrune n) c).failed = false ↔ CleanSources js (ps ++ ss)) := by
  induction ss generalizing ps c with
  | nil => simpa using ⟨h, hc⟩
  | cons s ss ih =>
    obtain ⟨htracks, hfailed⟩ := addPrune_spec n (s := s) h
    rw [hc, ← clean_prune] at hfailed
    have hassoc : ps ++ s :: ss = (ps ++ [s]) ++ ss := by simp
    rw [List.foldl_cons, hassoc]
    exact ih htracks hfailed

omit [ToString A] in
theorem foldl_failed {β : Type} (f : GroupEntryConverter A → β → GroupEntryConverter A)
    (hf : ∀ c b, c.failed = true → (f c b).failed = true) (bs : List β)
    (hc : c.failed = true) : (bs.foldl f c).failed = true := by
  induction bs generalizing c with
  | nil => exact hc
  | cons b bs ih => exact ih (hf c b hc)

theorem add_eq (c : GroupEntryConverter A) (ge : GroupEntry A) : ∃ text, add n c ge =
    if (ge.joins.foldl (addJoin n) c).rp = none ∧ ge.prunes ≠ [] then
      (ge.joins.foldl (addJoin n) c).error text
    else ge.prunes.foldl (addPrune n) (ge.joins.foldl (addJoin n) c) := ⟨_, rfl⟩

/-- A converter that has failed stays failed. -/
theorem add_failed (ge : GroupEntry A) (hc : c.failed = true) : (add n c ge).failed = true := by
  have hjoin : ∀ c s, failed c = true → failed (addJoin n c s : GroupEntryConverter A) = true := by
    intro c s hc
    cases hw : s.wildcard with
    | true => simp [(addJoin_wildcard n (c := c) hw).1, hc]
    | false => simp [(addJoin_plain n (c := c) hw).1, hc]
  have hprune : ∀ c s, failed c = true → failed (addPrune n c s : GroupEntryConverter A) = true := by
    intro c s hc
    simp [(addPrune_eq n (c := c) (s := s)).1, hc]
  have hjoins := foldl_failed (addJoin n) hjoin ge.joins hc
  obtain ⟨text, hadd⟩ := add_eq n c ge
  rw [hadd]
  split_ifs
  · rfl
  · exact foldl_failed (addPrune n) hprune ge.prunes hjoins

end Step

/-! ### The entries of a group -/

/-- No prune comes in an entry before the RP has been seen. -/
def RpFirst (es : List (GroupEntry A)) : Prop :=
  ∀ pre ge post, es = pre ++ ge :: post → ge.prunes ≠ [] →
    ∃ s ∈ joinsOf (pre ++ [ge]), s.wildcard = true

theorem rpFirst_snoc {es : List (GroupEntry A)} {ge : GroupEntry A} :
    RpFirst (es ++ [ge]) ↔ RpFirst es ∧
      (ge.prunes ≠ [] → ∃ s ∈ joinsOf (es ++ [ge]), s.wildcard = true) := by
  apply Iff.intro
  · intro h
    refine ⟨fun pre ge' post heq => h pre ge' (post ++ [ge]) (by simp [heq]), h es ge [] rfl⟩
  · intro h' pre ge' post heq
    obtain ⟨hes, hge⟩ := h'
    rcases split_snoc heq with ⟨rfl, rfl, _⟩ | ⟨post', _, hcat⟩
    · exact hge
    · exact hes pre ge' post' hcat

structure Readable (es : List (GroupEntry A)) : Prop where
  clean : CleanSources (joinsOf es) (prunesOf es)
  rp_first : RpFirst es

section Entries

variable [LinearOrder A] [ToString A]

/-- What the converter makes of the entries `es`. -/
structure Reads (es : List (GroupEntry A)) (c : GroupEntryConverter A) : Prop where
  failed_iff : c.failed = false ↔ Readable es
  tracks : c.failed = false → Tracks (joinsOf es) (prunesOf es) c

omit [ToString A] in
theorem reads_init [Inhabited A] (group : A) : Reads [] (init group) where
  failed_iff := by
    have hfirst : RpFirst ([] : List (GroupEntry A)) := by
      intro pre ge post heq
      simp at heq
    exact ⟨fun _ => ⟨clean_nil, hfirst⟩, fun _ => rfl⟩
  tracks := by
    intro _
    refine ⟨HoldsSources.empty.joins, rfl, ?_⟩
    intro a
    simp [init, OrdSet.empty, prunesOf]

theorem Reads.add {es : List (GroupEntry A)} {c : GroupEntryConverter A} (h : Reads es c)
    (n : ℕ) (ge : GroupEntry A) : Reads (es ++ [ge]) (c.add n ge) := by
  have hjs : joinsOf (es ++ [ge]) = joinsOf es ++ ge.joins := by simp [joinsOf]
  have hps : prunesOf (es ++ [ge]) = prunesOf es ++ ge.prunes := by simp [prunesOf]
  cases hc : c.failed with
  | true =>
    have hfailed := add_failed n ge hc
    have hnot : ¬Readable (es ++ [ge]) := by
      intro hread
      have hclean := hread.clean
      rw [hjs, hps] at hclean
      have hes : Readable es :=
        ⟨hclean.of_sublist (List.sublist_append_left _ _) (List.sublist_append_left _ _),
          (rpFirst_snoc.mp hread.rp_first).1⟩
      rw [h.failed_iff.mpr hes] at hc
      cases hc
    refine ⟨⟨fun hf => ?_, fun hread => absurd hread hnot⟩, fun hf => ?_⟩
    · rw [hfailed] at hf
      cases hf
    · rw [hfailed] at hf
      cases hf
  | false =>
    have hread := h.failed_iff.mp hc
    obtain ⟨htracks, hjoins⟩ := foldl_addJoin_spec n ge.joins (h.tracks hc)
      (iff_of_true hc hread.clean)
    have hrp : (ge.joins.foldl (addJoin n) c).rp = none ↔
        ¬∃ s ∈ joinsOf (es ++ [ge]), s.wildcard = true := by
      rw [htracks.rp, Option.map_eq_none_iff, List.head?_eq_none_iff, List.filter_eq_nil_iff, hjs]
      simp
    obtain ⟨text, hadd⟩ := add_eq n c ge
    rw [hadd]
    split_ifs with hnone
    · refine ⟨⟨fun hf => ?_, fun hread' => ?_⟩, fun hf => ?_⟩
      · cases hf
      · exact absurd ((rpFirst_snoc.mp hread'.rp_first).2 hnone.2) (hrp.mp hnone.1)
      · cases hf
    · obtain ⟨htracks', hprunes⟩ := foldl_addPrune_spec n ge.prunes htracks hjoins
      have hfirst : ge.prunes ≠ [] → ∃ s ∈ joinsOf (es ++ [ge]), s.wildcard = true := by
        intro hne
        by_contra hno
        exact hnone ⟨hrp.mpr hno, hne⟩
      refine ⟨?_, ?_⟩
      · rw [hprunes, ← hjs, ← hps]
        apply Iff.intro
        · intro hclean
          exact ⟨hclean, rpFirst_snoc.mpr ⟨hread.rp_first, hfirst⟩⟩
        · intro hread'
          exact hread'.clean
      · intro _
        rw [hjs, hps]
        exact htracks'

end Entries

end GroupEntryConverter

end Pimc
